/-!
# Shelves

A shelf keeps values under names, one value under each name. Putting a value replaces the one that
was there.
-/

namespace LazyMatch

/-- Values under names. -/
structure Shelf (α : Type) where
  entries : List (String × α)

namespace Shelf

variable {α : Type}

def empty : Shelf α := ⟨[]⟩

def get? (s : Shelf α) (name : String) : Option α :=
  s.entries.lookup name

def remove (s : Shelf α) (name : String) : Shelf α :=
  ⟨s.entries.filter fun entry => entry.1 ≠ name⟩

def put (s : Shelf α) (name : String) (value : α) : Shelf α :=
  ⟨(name, value) :: (s.remove name).entries⟩

@[simp] theorem get?_put_self (s : Shelf α) (name : String) (value : α) :
    (s.put name value).get? name = some value := by
  simp [get?, put]

theorem get?_remove_self (s : Shelf α) (name : String) : (s.remove name).get? name = none := by
  simp only [get?, remove, List.lookup_eq_none_iff]
  intro entry h
  have differs : entry.1 ≠ name := by simpa using (List.mem_filter.1 h).2
  simpa using differs.symm

theorem get?_remove_of_ne (s : Shelf α) {name other : String} (h : other ≠ name) :
    (s.remove name).get? other = s.get? other := by
  obtain ⟨entries⟩ := s
  simp only [get?, remove]
  induction entries with
  | nil => rfl
  | cons entry rest ih =>
    obtain ⟨key, value⟩ := entry
    by_cases removed : key = name
    · subst removed
      have skipped : (other == key) = false := by simpa using h
      simpa [List.lookup_cons, skipped] using ih
    · simp only [ne_eq, decide_not] at ih
      simp [List.lookup_cons, removed, ih]

theorem get?_put_of_ne (s : Shelf α) {name other : String} (value : α) (h : other ≠ name) :
    (s.put name value).get? other = s.get? other := by
  have skipped : (other == name) = false := by simpa using h
  rw [← get?_remove_of_ne s h]
  simp [get?, put, List.lookup_cons, skipped]

end Shelf

end LazyMatch

import LazyMatch.Proofs.Tuning.Entries
import Mathlib.Data.List.TakeWhile

/-!
# Overrides entry by entry

A text of plain entries is read as its entries say: each knob ends up as the last entry that touches
it puts it, and an entry that is not valid has the overrides refused (`Overrides.override_exact`).

On any text at all the reading comes to an end after at most as many rounds as the text has colons.
The list of knobs after a report is printed by a further call, on the text `help`, which reports
nothing itself, so that calls are at most one deep.
-/

namespace LazyMatch

namespace Overrides

variable {t : Tuning} {p q : Progress} {text tail rest : List Char} {e : Entry}
  {entries : List Entry}

/-! ## Reading entries -/

theorem forall_ne_of_notMem {separator : Char} {part : List Char} (h : separator ∉ part) :
    ∀ c ∈ part, decide (c ≠ separator) = true :=
  fun _ hc => decide_eq_true fun e => h (e ▸ hc)

theorem takeWhile_of_notMem {separator : Char} {part : List Char} (h : separator ∉ part)
    (tail : List Char) :
    (part ++ separator :: tail).takeWhile (· ≠ separator) = part := by
  rw [List.takeWhile_append_of_pos (forall_ne_of_notMem h)]
  simp

theorem dropWhile_of_notMem {separator : Char} {part : List Char} (h : separator ∉ part)
    (tail : List Char) :
    (part ++ separator :: tail).dropWhile (· ≠ separator) = separator :: tail := by
  rw [List.dropWhile_append_of_pos (forall_ne_of_notMem h)]
  simp

theorem nextEntry_of_last (h : e.Plain) : nextEntry e.text = some (e, []) := by
  have hpart := forall_ne_of_notMem h.value_semicolon
  have hvalue : e.value.takeWhile (· ≠ ';') = e.value := List.takeWhile_eq_self_iff.2 hpart
  have hrest : e.value.dropWhile (· ≠ ';') = [] := List.dropWhile_eq_nil_iff.2 hpart
  simp only [nextEntry, Entry.text, takeWhile_of_notMem h.key_colon,
    dropWhile_of_notMem h.key_colon, hvalue, hrest, List.drop_nil]

theorem nextEntry_of_more (h : e.Plain) (rest : List Char) :
    nextEntry (e.text ++ ';' :: rest) = some (e, rest) := by
  simp only [nextEntry, Entry.text, List.append_assoc, List.cons_append,
    takeWhile_of_notMem h.key_colon, dropWhile_of_notMem h.key_colon,
    takeWhile_of_notMem h.value_semicolon, dropWhile_of_notMem h.value_semicolon,
    List.drop_succ_cons, List.drop_zero]

/-- What a round comes to at a value that is no number. -/
def Progress.refuse (p : Progress) (e : Entry) : Progress :=
  { p with
    printed := p.printed ++ invalidEntry e.key (printable e.value)
    invalid := true }

theorem readEntries_of_none (h : nextEntry text = none) : readEntries p text = p := by
  rw [readEntries]
  split
  · rfl
  · next entry rest hentry =>
    rw [h] at hentry
    cases hentry

theorem readEntries_of_some (h : nextEntry text = some (e, rest)) :
    readEntries p text =
      match Numeral.toUInt32? e.value with
      | none => p.refuse e
      | some value => readEntries (p.take e.key value) rest := by
  rw [readEntries]
  split
  · next hentry =>
    rw [h] at hentry
    cases hentry
  · next entry after hentry =>
    rw [h] at hentry
    cases hentry
    rfl

theorem nextEntry_of_ending (h : tail = [] ∨ tail = [';']) : nextEntry tail = none := by
  rcases h with rfl | rfl <;> rfl

/-- The first of the joined entries is read, and what follows is read as the others are. -/
theorem exists_nextEntry_joined (h : e.Plain) (entries : List Entry)
    (htail : tail = [] ∨ tail = [';']) :
    ∃ rest, nextEntry (joined (e :: entries) ++ tail) = some (e, rest) ∧
      ∀ p, readEntries p rest = readEntries p (joined entries ++ tail) := by
  cases entries with
  | cons other entries =>
    refine ⟨joined (other :: entries) ++ tail, ?_, fun _ => rfl⟩
    rw [joined_cons_cons, List.append_assoc, List.cons_append]
    exact nextEntry_of_more h _
  | nil =>
    -- After the last entry nothing is left, or the semicolon is skipped: both end the reading.
    have hends : ∀ p, readEntries p [] = readEntries p (joined [] ++ tail) := fun p =>
      (readEntries_of_none rfl).trans (readEntries_of_none (nextEntry_of_ending htail)).symm
    rcases htail with rfl | rfl
    · refine ⟨[], ?_, hends⟩
      rw [joined_singleton, List.append_nil]
      exact nextEntry_of_last h
    · refine ⟨[], ?_, hends⟩
      rw [joined_singleton]
      exact nextEntry_of_more h []

theorem Progress.exists_take {key : List Char} (hknown : Known (String.ofList key))
    (hhelp : String.ofList key ≠ "help") (p : Progress) (value : UInt32) :
    ∃ tuning, p.take key value = { p with tuning } ∧
      ∀ knob : Knob, (knob.get tuning).toNat =
        (knob.assigned? (String.ofList key) value.toNat).getD (knob.get p.tuning).toNat := by
  rcases exists_assign hknown p.tuning value with ⟨tuning, hassign, hknob⟩
  refine ⟨tuning, ?_, hknob⟩
  rw [take, if_neg hhelp, hassign]

theorem Progress.invalid_take {key : List Char} (hknown : ¬ Known (String.ofList key))
    (hhelp : String.ofList key ≠ "help") (p : Progress) (value : UInt32) :
    (p.take key value).invalid = true := by
  rw [take, if_neg hhelp, assign_eq_none hknown]

theorem Progress.invalid_take_of_invalid (h : p.invalid = true) (key : List Char)
    (value : UInt32) : (p.take key value).invalid = true := by
  unfold take
  split
  · exact h
  · split
    · exact h
    · rfl

/-! ## The rounds of the reading -/

/-- The rounds of the loop that reads entry after entry, with their number. It ends where no entry
is left, and after a value that is no number. -/
inductive Rounds : Progress → List Char → Nat → Progress → Prop
  | ended {p : Progress} {text : List Char} (hentry : nextEntry text = none) : Rounds p text 0 p
  | refused {p : Progress} {text rest : List Char} {e : Entry}
      (hentry : nextEntry text = some (e, rest)) (hvalue : Numeral.toUInt32? e.value = none) :
      Rounds p text 1 (p.refuse e)
  | taken {p q : Progress} {text rest : List Char} {e : Entry} {value : UInt32} {rounds : Nat}
      (hentry : nextEntry text = some (e, rest)) (hvalue : Numeral.toUInt32? e.value = some value)
      (hrest : Rounds (p.take e.key value) rest rounds q) : Rounds p text (rounds + 1) q

theorem Rounds.eq_readEntries {rounds : Nat} (h : Rounds p text rounds q) :
    q = readEntries p text := by
  induction h with
  | ended hentry => exact (readEntries_of_none hentry).symm
  | refused hentry hvalue => rw [readEntries_of_some hentry, hvalue]
  | taken hentry hvalue _ ih => rw [readEntries_of_some hentry, hvalue, ih]

theorem Rounds.number_unique {q' : Progress} {rounds rounds' : Nat} (h : Rounds p text rounds q)
    (h' : Rounds p text rounds' q') : rounds' = rounds := by
  induction h generalizing rounds' with
  | ended hentry =>
    cases h' with
    | ended => rfl
    | refused hentry' => cases hentry.symm.trans hentry'
    | taken hentry' => cases hentry.symm.trans hentry'
  | refused hentry hvalue =>
    cases h' with
    | ended hentry' => cases hentry.symm.trans hentry'
    | refused => rfl
    | taken hentry' hvalue' =>
      cases hentry.symm.trans hentry'
      cases hvalue.symm.trans hvalue'
  | taken hentry hvalue hrest ih =>
    cases h' with
    | ended hentry' => cases hentry.symm.trans hentry'
    | refused hentry' hvalue' =>
      cases hentry.symm.trans hentry'
      cases hvalue.symm.trans hvalue'
    | taken hentry' hvalue' hrest' =>
      cases hentry.symm.trans hentry'
      cases hvalue.symm.trans hvalue'
      rw [ih hrest']

/-- An entry takes a colon away. -/
theorem count_colon_of_nextEntry (h : nextEntry text = some (e, rest)) :
    rest.count ':' < text.count ':' := by
  unfold nextEntry at h
  split at h
  · cases h
  · next c after hafter =>
    cases h
    have hcolon : c = ':' := by
      have hhead := List.head?_dropWhile_not (fun c => decide (c ≠ ':')) text
      rw [hafter] at hhead
      simpa using hhead
    have hdropped : (c :: after).Sublist text := hafter ▸ (text.dropWhile_suffix _).sublist
    have hrest : ((after.dropWhile (· ≠ ';')).drop 1).Sublist after :=
      (List.drop_sublist 1 _).trans (after.dropWhile_suffix _).sublist
    calc ((after.dropWhile (· ≠ ';')).drop 1).count ':'
      _ ≤ after.count ':' := hrest.count_le ':'
      _ < (c :: after).count ':' := by
        rw [hcolon, List.count_cons_self]
        exact Nat.lt_succ_self _
      _ ≤ text.count ':' := hdropped.count_le ':'

/-- The loop ends on every text, after at most as many rounds as the text has colons. -/
theorem exists_rounds (p : Progress) (text : List Char) :
    ∃ rounds ≤ text.count ':', Rounds p text rounds (readEntries p text) := by
  induction hlength : text.length using Nat.strong_induction_on generalizing p text with
  | _ length ih =>
    cases hentry : nextEntry text with
    | none =>
      rw [readEntries_of_none hentry]
      exact ⟨0, Nat.zero_le _, .ended hentry⟩
    | some entry =>
      rcases entry with ⟨e, rest⟩
      have hcolons := count_colon_of_nextEntry hentry
      rw [readEntries_of_some hentry]
      cases hvalue : Numeral.toUInt32? e.value with
      | none => exact ⟨1, Nat.one_le_of_lt hcolons, .refused hentry hvalue⟩
      | some value =>
        have hshorter : rest.length < length := hlength ▸ nextEntry_length hentry
        rcases ih _ hshorter (p.take e.key value) rest rfl with ⟨rounds, hbound, hrounds⟩
        exact ⟨rounds + 1, Nat.lt_of_le_of_lt hbound hcolons, .taken hentry hvalue hrounds⟩

theorem invalid_readEntries (h : p.invalid = true) (text : List Char) :
    (readEntries p text).invalid = true := by
  rcases exists_rounds p text with ⟨rounds, -, hrounds⟩
  generalize readEntries p text = q at hrounds
  induction hrounds with
  | ended => exact h
  | refused => rfl
  | taken _ _ _ ih => exact ih (Progress.invalid_take_of_invalid h _ _)

/-! ## Joined entries -/

theorem readEntries_joined (hplain : ∀ e ∈ entries, e.Plain) (hvalid : ∀ e ∈ entries, e.Valid)
    (htail : tail = [] ∨ tail = [';']) (p : Progress) :
    ∃ tuning, readEntries p (joined entries ++ tail) = { p with tuning } ∧
      ∀ knob : Knob, (knob.get tuning).toNat =
        lastAssigned entries knob (knob.get p.tuning).toNat := by
  induction entries generalizing p with
  | nil => exact ⟨p.tuning, readEntries_of_none (nextEntry_of_ending htail), fun _ => rfl⟩
  | cons e entries ih =>
    rw [List.forall_mem_cons] at hplain hvalid
    rcases exists_nextEntry_joined hplain.1 entries htail with ⟨rest, hentry, hrest⟩
    rcases hvalid.1.fits.exists_toUInt32? with ⟨value, hvalue, hnumber⟩
    rcases Progress.exists_take hvalid.1.known hplain.1.key_help p value
      with ⟨taken, htake, htaken⟩
    rcases ih hplain.2 hvalid.2 { p with tuning := taken } with ⟨tuning, hread, hknob⟩
    refine ⟨tuning, ?_, fun knob => ?_⟩
    · rw [readEntries_of_some hentry, hvalue, ← hread, ← htake, ← hrest]
    · rw [hknob knob, htaken knob, lastAssigned_cons, hnumber, Entry.assigned?]

theorem invalid_readEntries_joined (hplain : ∀ e ∈ entries, e.Plain)
    (hinvalid : ∃ e ∈ entries, ¬ e.Valid) (htail : tail = [] ∨ tail = [';']) (p : Progress) :
    (readEntries p (joined entries ++ tail)).invalid = true := by
  induction entries generalizing p with
  | nil =>
    rcases hinvalid with ⟨e, he, -⟩
    cases he
  | cons e entries ih =>
    rw [List.forall_mem_cons] at hplain
    rcases exists_nextEntry_joined hplain.1 entries htail with ⟨rest, hentry, hrest⟩
    rw [readEntries_of_some hentry]
    by_cases hfits : Numeral.Fits e.value
    · rcases hfits.exists_toUInt32? with ⟨value, hvalue, -⟩
      rw [hvalue]
      by_cases hknown : Known (String.ofList e.key)
      · -- This entry is valid, so the invalid one is among the others.
        have hothers : ∃ e ∈ entries, ¬ e.Valid := by
          rcases hinvalid with ⟨other, hother, hnot⟩
          rcases List.mem_cons.1 hother with rfl | hother
          · exact absurd ⟨hknown, hfits⟩ hnot
          · exact ⟨other, hother, hnot⟩
        have hread := ih hplain.2 hothers (p.take e.key value)
        rwa [← hrest] at hread
      · exact invalid_readEntries (Progress.invalid_take hknown hplain.1.key_help p value) rest
    · rw [Numeral.toUInt32?_eq_none hfits]
      rfl

/-! ## Calls -/

/-- What a call starts to read with: the text `help` is read as an entry that asks for the list of
knobs, below a heading. -/
def opening (t : Tuning) (text : String) : Progress × List Char :=
  if text = "help" ∨ text = "help:" then
    ({ tuning := t, printed := listHeading, invalid := false }, "help:0".toList)
  else ({ tuning := t, printed := "", invalid := false }, text.toList)

/-- What a call has read in the end. -/
def reading (t : Tuning) (text : String) : Progress :=
  readEntries (opening t text).1 (opening t text).2

/-- A call to read overrides and how deep the calls within it are. After an invalid entry a further
call has the list of knobs printed, with the knobs as they are by then. Whatever it comes to, the
overrides are refused. -/
inductive Call : Tuning → String → Nat → Verdict → Prop
  | direct {t : Tuning} {text : String} {rounds : Nat} {p : Progress}
      (hread : Rounds (opening t text).1 (opening t text).2 rounds p)
      (hinvalid : p.invalid = false) : Call t text 0 p.verdict
  | reporting {t : Tuning} {text : String} {rounds depth : Nat} {p : Progress} {v : Verdict}
      (hread : Rounds (opening t text).1 (opening t text).2 rounds p)
      (hinvalid : p.invalid = true) (hhelp : Call p.tuning "help" depth v) :
      Call t text (depth + 1) { printed := p.printed ++ v.printed, tuning? := none }

theorem readEntries_help (p : Progress) :
    readEntries p "help:0".toList = { p with printed := p.printed ++ knobList } := by
  have hentry : nextEntry "help:0".toList =
      some ({ key := "help".toList, value := ['0'] }, []) := by decide
  have hvalue : Numeral.toUInt32? ['0'] = some 0 := by decide
  have htake : p.take "help".toList 0 = { p with printed := p.printed ++ knobList } := rfl
  rw [readEntries_of_some hentry]
  simp only [hvalue, htake]
  exact readEntries_of_none rfl

theorem reading_help (t : Tuning) :
    reading t "help" = { tuning := t, printed := listHeading ++ knobList, invalid := false } := by
  rw [reading, opening, if_pos (.inl rfl)]
  exact readEntries_help _

theorem override_eq (t : Tuning) (text : String) : t.override text = (reading t text).verdict := by
  unfold Tuning.override reading opening
  split
  · rw [readEntries_help]
  · rfl

/-- The verdict on an invalid reading is that of a call for the list of knobs, but refused. -/
theorem Progress.verdict_of_invalid (h : p.invalid = true) :
    p.verdict =
      { printed := p.printed ++ (p.tuning.override "help").printed, tuning? := none } := by
  rw [override_eq, reading_help]
  simp only [verdict, h, if_true, true_or, Bool.false_eq_true, if_false, String.append_assoc,
    String.append_empty]

theorem Rounds.eq_reading {text : String} {rounds : Nat}
    (h : Rounds (opening t text).1 (opening t text).2 rounds p) : p = reading t text :=
  h.eq_readEntries

theorem call_help (t : Tuning) : Call t "help" 0 (t.override "help") := by
  rcases exists_rounds (opening t "help").1 (opening t "help").2 with ⟨rounds, -, hread⟩
  have hinvalid : (reading t "help").invalid = false := by rw [reading_help]
  rw [override_eq]
  exact .direct hread hinvalid

/-- A call for the list of knobs makes no further call. -/
theorem Call.of_help {depth : Nat} {v : Verdict} (h : Call t "help" depth v) :
    depth = 0 ∧ v = t.override "help" := by
  cases h with
  | direct hread =>
    obtain rfl := hread.eq_reading
    exact ⟨rfl, (override_eq t "help").symm⟩
  | reporting hread hinvalid =>
    obtain rfl := hread.eq_reading
    rw [reading_help] at hinvalid
    cases hinvalid

/-- How deep the calls within a call are: one deep to report an invalid entry. -/
def depth (t : Tuning) (text : String) : Nat :=
  if (reading t text).invalid then 1 else 0

theorem depth_le_one (t : Tuning) (text : String) : depth t text ≤ 1 := by
  unfold depth
  split
  · exact Nat.le_refl 1
  · exact Nat.zero_le 1

theorem call_override (t : Tuning) (text : String) :
    Call t text (depth t text) (t.override text) := by
  rcases exists_rounds (opening t text).1 (opening t text).2 with ⟨rounds, -, hread⟩
  rw [override_eq, depth]
  cases hinvalid : (reading t text).invalid with
  | false => exact .direct hread hinvalid
  | true =>
    rw [Progress.verdict_of_invalid hinvalid]
    exact .reporting hread hinvalid (call_help _)

theorem Call.unique {text : String} {depth' : Nat} {v : Verdict} (h : Call t text depth' v) :
    depth' = depth t text ∧ v = t.override text := by
  cases h with
  | direct hread hinvalid =>
    obtain rfl := hread.eq_reading
    rw [depth, override_eq, hinvalid]
    exact ⟨rfl, rfl⟩
  | reporting hread hinvalid hhelp =>
    obtain rfl := hread.eq_reading
    rcases hhelp.of_help with ⟨rfl, rfl⟩
    rw [depth, override_eq t, Progress.verdict_of_invalid hinvalid, hinvalid]
    exact ⟨rfl, rfl⟩

/-! ## What overrides mean -/

/-- A text of plain entries is not the one that asks for the list of knobs. -/
theorem opening_of_joined {text : String} (hplain : e.Plain) (htail : tail = [] ∨ tail = [';'])
    (htext : text.toList = joined (e :: entries) ++ tail) :
    opening t text = ({ tuning := t, printed := "", invalid := false }, text.toList) := by
  rcases exists_nextEntry_joined hplain entries htail with ⟨rest, hentry, -⟩
  rw [← htext] at hentry
  refine if_neg ?_
  rintro (rfl | rfl)
  · cases hentry
  · have hkey : some ({ key := "help".toList, value := [] }, []) = some (e, rest) := hentry
    cases hkey
    exact hplain.key_help rfl

theorem reading_of_joined {text : String} (hne : entries ≠ []) (hplain : ∀ e ∈ entries, e.Plain)
    (htail : tail = [] ∨ tail = [';']) (htext : text.toList = joined entries ++ tail) :
    reading t text =
      readEntries { tuning := t, printed := "", invalid := false } (joined entries ++ tail) := by
  cases entries with
  | nil => exact absurd rfl hne
  | cons e entries =>
    have hfirst : e.Plain := hplain e List.mem_cons_self
    rw [reading, opening_of_joined hfirst htail htext, htext]

theorem override_of_valid {text : String} (hne : entries ≠ []) (hplain : ∀ e ∈ entries, e.Plain)
    (hvalid : ∀ e ∈ entries, e.Valid) (htail : tail = [] ∨ tail = [';'])
    (htext : text.toList = joined entries ++ tail) :
    ∃ tuning : Tuning,
      (∀ knob : Knob, (knob.get tuning).toNat = lastAssigned entries knob (knob.get t).toNat) ∧
      t.override text =
        if tuning.tripPoint = 0 then { printed := zeroTripPoint, tuning? := none }
        else { printed := "", tuning? := some tuning } := by
  rcases readEntries_joined hplain hvalid htail { tuning := t, printed := "", invalid := false }
    with ⟨tuning, hread, hknob⟩
  refine ⟨tuning, hknob, ?_⟩
  rw [override_eq, reading_of_joined hne hplain htail htext, hread]
  by_cases hzero : tuning.tripPoint = 0
  · rw [if_pos hzero]
    simp [Progress.verdict, hzero]
  · rw [if_neg hzero]
    simp [Progress.verdict, hzero]

theorem override_of_invalid {text : String} (hplain : ∀ e ∈ entries, e.Plain)
    (hinvalid : ∃ e ∈ entries, ¬ e.Valid) (htail : tail = [] ∨ tail = [';'])
    (htext : text.toList = joined entries ++ tail) : (t.override text).tuning? = none := by
  have hne : entries ≠ [] := by
    rintro rfl
    rcases hinvalid with ⟨e, he, -⟩
    cases he
  have hread := invalid_readEntries_joined hplain hinvalid htail
    { tuning := t, printed := "", invalid := false }
  rw [override_eq, Progress.verdict_of_invalid]
  rwa [reading_of_joined hne hplain htail htext]

/-- Overrides mean what they say.

A text of plain entries, with or without a semicolon at its end, is read entry by entry. If all of
them are valid, no invalid entry is reported, each knob stands as the last entry that touches it put
it, or as before if none does, and the overrides are refused only for a trip point of 0. If one of
them is not valid, they are refused.

The loop ends on every text, after at most as many rounds as the text has colons, and calls are at
most one deep, for any text and any knobs. -/
theorem override_exact (t : Tuning) (text : String) :
    (∀ (entries : List Entry) (tail : List Char), entries ≠ [] → (∀ e ∈ entries, e.Plain) →
      (tail = [] ∨ tail = [';']) → text.toList = joined entries ++ tail →
        ((∀ e ∈ entries, e.Valid) →
          ∃ tuning : Tuning,
            (∀ knob : Knob,
              (knob.get tuning).toNat = lastAssigned entries knob (knob.get t).toNat) ∧
            t.override text =
              if tuning.tripPoint = 0 then { printed := zeroTripPoint, tuning? := none }
              else { printed := "", tuning? := some tuning }) ∧
        ((∃ e ∈ entries, ¬ e.Valid) → (t.override text).tuning? = none)) ∧
    (∀ (p : Progress) (chars : List Char), ∃ rounds ≤ chars.count ':',
      ∀ n q, Rounds p chars n q ↔ n = rounds ∧ q = readEntries p chars) ∧
    (∃ depth ≤ 1, ∀ n v, Call t text n v ↔ n = depth ∧ v = t.override text) := by
  refine ⟨fun entries tail hne hplain htail htext =>
    ⟨fun hvalid => override_of_valid hne hplain hvalid htail htext,
      fun hinvalid => override_of_invalid hplain hinvalid htail htext⟩,
    fun p chars => ?_, depth t text, depth_le_one t text, fun n v => ⟨Call.unique, ?_⟩⟩
  · rcases exists_rounds p chars with ⟨rounds, hbound, hrounds⟩
    refine ⟨rounds, hbound, fun n q =>
      ⟨fun h => ⟨hrounds.number_unique h, h.eq_readEntries⟩, ?_⟩⟩
    rintro ⟨rfl, rfl⟩
    exact hrounds
  · rintro ⟨rfl, rfl⟩
    exact call_override t text

/-- A preset, a knob that it turned and a number with a leading zero. -/
def presetThenKnobs : List Entry :=
  [{ key := "eagerAsap".toList, value := "1".toList },
    { key := "profileSearches".toList, value := "0".toList },
    { key := "eagerMinCalls".toList, value := "010".toList }]

/-- A key that sets nothing. -/
def unknownKey : Entry where
  key := "noSuchKnob".toList
  value := "1".toList

/-- The later entries win over the preset. An unknown key is refused. -/
theorem presetThenKnobs_override :
    (∃ tuning : Tuning, tuning.profiling = false ∧ tuning.tripPoint = 1 ∧ tuning.minCalls = 10 ∧
      Tuning.default.override "eagerAsap:1;profileSearches:0;eagerMinCalls:010;" =
        { printed := "", tuning? := some tuning }) ∧
      (Tuning.default.override "noSuchKnob:1").tuning? = none := by
  rcases override_exact .default "eagerAsap:1;profileSearches:0;eagerMinCalls:010;"
    with ⟨hjoined, -⟩
  rcases hjoined presetThenKnobs [';'] (by decide) (by decide) (.inr rfl) (by decide)
    with ⟨hvalid, -⟩
  rcases hvalid (by decide) with ⟨tuning, hknob, hverdict⟩
  have htrip : tuning.tripPoint.toNat = 1 := (hknob .tripPoint).trans (by decide)
  have hcalls : tuning.minCalls.toNat = 10 := (hknob .minCalls).trans (by decide)
  have hswitch : (Knob.profiling.get tuning).toNat = 0 := (hknob .profiling).trans (by decide)
  have hone : tuning.tripPoint = 1 := UInt32.toNat_inj.1 htrip
  have hten : tuning.minCalls = 10 := UInt32.toNat_inj.1 hcalls
  have hzero : Knob.profiling.get tuning = 0 := UInt32.toNat_inj.1 hswitch
  have hoff : tuning.profiling = false := by
    simpa [Knob.get] using hzero
  rw [hone, if_neg (by decide)] at hverdict
  refine ⟨⟨tuning, hoff, hone, hten, hverdict⟩, ?_⟩
  rcases override_exact .default "noSuchKnob:1" with ⟨hjoined, -⟩
  rcases hjoined [unknownKey] [] (by decide) (by decide) (.inl rfl) (by decide)
    with ⟨-, hinvalid⟩
  exact hinvalid (by decide)

end Overrides

end LazyMatch

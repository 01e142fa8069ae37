import LazyMatch.Template

/-!
# Bundles of automata

A pattern is compiled into a bundle: a forward automaton that finds where a match ends, possibly a
backward automaton that finds where it starts, possibly an automaton that finds the capture groups,
possibly templates for the groups, and the flags of the pattern. `Bundle.assemble` accepts the
bundles whose automata play their parts, whose group counts agree, and which can place the start of
every match that the forward automaton finds.
-/

namespace LazyMatch

/-- The flag of a pattern whose matches begin where the search begins. -/
def stickyFlag : UInt32 := 8

/-- The parts of a bundle, not yet checked against each other. -/
structure Parts where
  forward : Automaton
  backward : Option Automaton
  capture : Option Automaton
  templates : Array Template
  flags : UInt32

namespace Parts

/-- Whether matches begin where the search begins. -/
def sticky (p : Parts) : Bool := p.flags &&& stickyFlag ≠ 0

/-- Whether matches have fixed distances, the same for all of them. -/
def singleTemplate (p : Parts) : Bool := p.templates.size = 1

/-- Whether each match has one of several sets of fixed distances. -/
def manyTemplates (p : Parts) : Bool := 1 < p.templates.size

/-- How many groups a match has, the whole match included. -/
def groupCount (p : Parts) : UInt32 :=
  match p.templates[0]? with
  | some template => template.groupCount
  | none =>
    match p.capture with
    | some capture => capture.groupCount
    | none => 1

/-- Whether a match that the forward automaton finds begins where the search began, whatever the
bytes before it. -/
def startsAtOrigin (p : Parts) : Bool :=
  p.forward.anchored || (p.sticky && p.forward.lookbehind = 0)

/-- Whether the start of some match can be placed by a backward scan alone. -/
def needsBackward (p : Parts) : Bool :=
  if p.singleTemplate then false
  else if p.manyTemplates then true
  else if p.capture.isNone then !(p.forward.anchored || p.sticky)
  else !p.startsAtOrigin

/-- Whether a template has another number of groups than the first one, or than the automaton for
the groups. -/
def disagrees (p : Parts) (template : Template) : Bool :=
  (p.templates[0]?.any fun first => template.groupCount ≠ first.groupCount)
    || (p.capture.any fun capture => template.groupCount ≠ capture.groupCount)

/-- The first rule of bundles that the parts break. -/
def firstFault (p : Parts) : Option ContractError :=
  if p.backward.any fun backward => backward.groupCount ≠ 0 then some .backwardTracksGroups
  else if p.capture.any fun capture => capture.groupCount = 0 then some .captureTracksNoGroups
  else if p.templates.any p.disagrees then some .groupCountsDisagree
  else if p.backward.isNone && p.needsBackward then some .backwardRequired
  else none

end Parts

/-- Automata that work together. -/
structure Bundle extends Parts where
  sound : toParts.firstFault = none

namespace Bundle

def ofParts (p : Parts) : Except ContractError Bundle :=
  match h : p.firstFault with
  | none => .ok { toParts := p, sound := h }
  | some error => .error error

/-- Puts a bundle together; only the forward automaton is always needed. -/
def assemble (forward backward capture : Option Automaton) (templates : Array Template)
    (flags : UInt32) : Except ContractError Bundle :=
  match forward with
  | none => .error .noForward
  | some forward => ofParts { forward, backward, capture, templates, flags }

theorem ofParts_eq_error_iff (p : Parts) (error : ContractError) :
    ofParts p = .error error ↔ p.firstFault = some error := by
  unfold ofParts
  split <;> simp_all

theorem ofParts_of_sound {p : Parts} (h : p.firstFault = none) :
    ofParts p = .ok { toParts := p, sound := h } := by
  unfold ofParts
  split
  · rfl
  · next error herror => cases h.symm.trans herror

/-- The number of a template that a backward automaton reports, if the bundle has so many. -/
def templateNumber (b : Bundle) (value : Int) : Except Fault (Fin b.templates.size) :=
  if h : 0 ≤ value ∧ value < b.templates.size then .ok ⟨value.toNat, by omega⟩
  else .error (.contract .unknownTemplate)

@[simp] theorem templateNumber_of_lt (b : Bundle) {i : Nat} (h : i < b.templates.size) :
    b.templateNumber i = .ok ⟨i, h⟩ := by
  have hrange : 0 ≤ (i : Int) ∧ (i : Int) < b.templates.size := by omega
  simp [templateNumber, hrange]

theorem unknownTemplate_of_templateNumber {b : Bundle} {value : Int} {fault : Fault}
    (h : b.templateNumber value = .error fault) : fault = .contract .unknownTemplate := by
  unfold templateNumber at h
  split at h
  · cases h
  · cases h
    rfl

def template (b : Bundle) (number : Fin b.templates.size) : Template :=
  b.templates[number]

theorem template_mem (b : Bundle) (number : Fin b.templates.size) :
    b.template number ∈ b.templates :=
  Array.getElem_mem number.isLt

theorem getElem?_template (b : Bundle) (number : Fin b.templates.size) :
    b.templates[number.val]? = some (b.template number) :=
  Array.getElem?_eq_getElem number.isLt

end Bundle

end LazyMatch

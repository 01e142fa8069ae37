import LazyMatch.Text.Numeral
import LazyMatch.Tuning

/-!
# Overriding knobs by text

Knobs can be set by a text of entries `key:value` with semicolons between them, each value a 32-bit
decimal number. A key names a knob, or one of two presets that set several; later entries win. The
key `help` lists the knobs. An unknown key is reported and the rest is still read; a value that is
no number is reported and ends the reading, and text without a further colon ends it silently. After
a report, or with a trip point of 0, the overrides are refused.
-/

namespace LazyMatch

/-- What can be set on its own. -/
inductive Knob
  | profiling
  | allowEager
  | tripPoint
  | minCalls
  | minMatchPercent
  | minGroupAccessPercent
deriving DecidableEq, Repr

namespace Knob

/-- All knobs, in the order in which they are listed. -/
def all : List Knob :=
  [profiling, allowEager, tripPoint, minCalls, minMatchPercent, minGroupAccessPercent]

def name : Knob → String
  | profiling => "profileSearches"
  | allowEager => "allowEagerMatching"
  | tripPoint => "eagerEvaluationTripPoint"
  | minCalls => "eagerMinCalls"
  | minMatchPercent => "eagerMinMatchPercent"
  | minGroupAccessPercent => "eagerMinGroupAccessPercent"

/-- The position of a knob; a switch is 1 or 0. -/
def get (t : Tuning) : Knob → UInt32
  | profiling => if t.profiling then 1 else 0
  | allowEager => if t.allowEager then 1 else 0
  | tripPoint => t.tripPoint
  | minCalls => t.minCalls
  | minMatchPercent => t.minMatchPercent
  | minGroupAccessPercent => t.minGroupAccessPercent

/-- Turns a knob; a switch is on for every number but 0. -/
def set (t : Tuning) (value : UInt32) : Knob → Tuning
  | profiling => { t with profiling := value ≠ 0 }
  | allowEager => { t with allowEager := value ≠ 0 }
  | tripPoint => { t with tripPoint := value }
  | minCalls => { t with minCalls := value }
  | minMatchPercent => { t with minMatchPercent := value }
  | minGroupAccessPercent => { t with minGroupAccessPercent := value }

def ofName? (key : String) : Option Knob :=
  all.find? fun knob => knob.name = key

end Knob

namespace Overrides

/-- Groups are always found on demand. -/
def onDemandOnly (t : Tuning) : Tuning :=
  { t with profiling := false, allowEager := false }

/-- Finding groups at once is considered at every search and taken as soon as possible. -/
def atOnceEarly (_ : Tuning) : Tuning where
  profiling := true
  allowEager := true
  tripPoint := 1
  minCalls := 1
  minMatchPercent := 0
  minGroupAccessPercent := 0

/-- What a key does with a value. -/
def assign (t : Tuning) (key : String) (value : UInt32) : Option Tuning :=
  match Knob.ofName? key with
  | some knob => some (knob.set t value)
  | none =>
    if key = "forceLazy" then some (onDemandOnly t)
    else if key = "eagerAsap" then some (atOnceEarly t)
    else none

/-! ## What is printed -/

/-- Text up to its first NUL, where printing ends. -/
def printable (text : List Char) : String :=
  String.ofList (text.takeWhile (· ≠ '\x00'))

def column (text : String) : String :=
  text ++ String.ofList (List.replicate (30 - text.length) ' ')

def knobLine (knob : Knob) : String :=
  "\t" ++ column knob.name ++ "\tdefault: " ++ toString (knob.get .default).toNat ++ "\n"

def knobList : String :=
  String.join (Knob.all.map knobLine)

def listHeading : String := "Valid grey overrides:\n"

def invalidEntry (key : List Char) (value : String) : String :=
  "Invalid grey override key " ++ printable key ++ ":" ++ value ++ "\n"

def zeroTripPoint : String := "eagerEvaluationTripPoint must be non-zero\n"

/-! ## Reading -/

structure Entry where
  key : List Char
  value : List Char
deriving DecidableEq, Repr

/-- The first entry and what follows it. A key reaches up to the next colon, and so may hold
semicolons; a value reaches up to the next semicolon. -/
def nextEntry (text : List Char) : Option (Entry × List Char) :=
  match text.dropWhile (· ≠ ':') with
  | [] => none
  | _ :: rest =>
    some
      ({ key := text.takeWhile (· ≠ ':'), value := rest.takeWhile (· ≠ ';') },
        (rest.dropWhile (· ≠ ';')).drop 1)

theorem nextEntry_length {text rest : List Char} {entry : Entry}
    (h : nextEntry text = some (entry, rest)) : rest.length < text.length := by
  unfold nextEntry at h
  split at h
  · cases h
  · next c after e =>
    cases h
    have dropped := (text.dropWhile_suffix (· ≠ ':')).length_le
    have kept := (after.dropWhile_suffix (· ≠ ';')).length_le
    rw [e, List.length_cons] at dropped
    rw [List.length_drop]
    omega

/-- What reading has come to: the knobs, the text printed, and whether an entry was invalid. -/
structure Progress where
  tuning : Tuning
  printed : String
  invalid : Bool
deriving DecidableEq, Repr

/-- Takes one entry with a number. -/
def Progress.take (p : Progress) (key : List Char) (value : UInt32) : Progress :=
  if String.ofList key = "help" then { p with printed := p.printed ++ knobList }
  else
    match assign p.tuning (String.ofList key) value with
    | some tuning => { p with tuning }
    | none =>
      { p with
        printed := p.printed ++ invalidEntry key (toString value.toNat)
        invalid := true }

/-- Reads entry after entry. -/
def readEntries (p : Progress) (text : List Char) : Progress :=
  match _h : nextEntry text with
  | none => p
  | some (entry, rest) =>
    match Numeral.toUInt32? entry.value with
    | none =>
      { p with
        printed := p.printed ++ invalidEntry entry.key (printable entry.value)
        invalid := true }
    | some value => readEntries (p.take entry.key value) rest
termination_by text.length
decreasing_by exact nextEntry_length _h

/-- The outcome of overrides: what was printed, and the knobs unless the overrides are refused. -/
structure Verdict where
  printed : String
  tuning? : Option Tuning
deriving DecidableEq, Repr

/-- The verdict after reading. The list of knobs follows a report of an invalid entry. -/
def Progress.verdict (p : Progress) : Verdict :=
  let help := if p.invalid then listHeading ++ knobList else ""
  let zero := if p.tuning.tripPoint = 0 then zeroTripPoint else ""
  { printed := p.printed ++ help ++ zero
    tuning? := if p.invalid ∨ p.tuning.tripPoint = 0 then none else some p.tuning }

end Overrides

/-- Sets knobs by text. The text `help` alone, with or without its colon, lists the knobs under a
heading. -/
def Tuning.override (t : Tuning) (text : String) : Overrides.Verdict :=
  let progress : Overrides.Progress :=
    if text = "help" ∨ text = "help:" then
      { tuning := t, printed := Overrides.listHeading ++ Overrides.knobList, invalid := false }
    else
      Overrides.readEntries { tuning := t, printed := "", invalid := false } text.toList
  progress.verdict

end LazyMatch

/-!
# Faults

Everything that can go wrong, as causes. `CompileError` says why a table, a template or a pattern
cannot be turned into something searchable, `ContractError` why a set of automata does not work
together, `RangeError` which index was outside its range, and `Fault` collects these with the
failures that automata and compilers supplied by a client may report. The wording of each is fixed
once, in the `message` functions.
-/

namespace LazyMatch

/-- Why a table, a template or a pattern cannot be compiled. -/
inductive CompileError
  | emptyAlphabet
  | unsupportedStateCount
  | symbolOutsideAlphabet
  | missingStartState
  | malformedRow (state : Nat)
  | missingSuccessor (state : Nat)
  | deadStateAccepts
  | deadStateLeads
  | noGroups
  | tagTableMismatch
  | malformedTagRow
  | registerOutside (register : UInt32)
  | notForwardPositionScan
  | unpairedOffsets
  | wrongWholeMatch
  | groupOutside (group : Nat)
  | noCompiler (pattern : String)
  | noAutomata (pattern : String)
  /-- A failure that a client's own compiler or automaton words itself. -/
  | reported (text : String)
deriving DecidableEq, Repr

def CompileError.message : CompileError → String
  | .emptyAlphabet => "DFA has an empty alphabet."
  | .unsupportedStateCount => "DFA has an unsupported number of states."
  | .symbolOutsideAlphabet => "DFA remaps a symbol outside its alphabet."
  | .missingStartState => "DFA start state does not exist."
  | .malformedRow state => "DFA state " ++ toString state ++ " has a malformed transition row."
  | .missingSuccessor state =>
    "DFA state " ++ toString state ++ " has a successor that does not exist."
  | .deadStateAccepts => "DFA dead state must not accept."
  | .deadStateLeads => "DFA dead state must not have successors."
  | .noGroups => "Tagged DFA must track at least the whole match."
  | .tagTableMismatch => "Tagged DFA tag table does not match its states."
  | .malformedTagRow => "Tagged DFA has a malformed tag row."
  | .registerOutside register =>
    "Tag operation refers to register " ++ toString register.toNat ++ " beyond the register file."
  | .notForwardPositionScan => "Tagged DFA must be a forward position scan."
  | .unpairedOffsets => "Precalculated result must hold a start and end for every group."
  | .wrongWholeMatch => "Precalculated result must span the whole match in group 0."
  | .groupOutside group => "Precalculated group " ++ toString group ++ " lies outside the match."
  | .noCompiler pattern => "No compiler available for pattern /" ++ pattern ++ "/."
  | .noAutomata pattern => "Compiler produced no automata for pattern /" ++ pattern ++ "/."
  | .reported text => text

/-- Why automata that were put together cannot answer. -/
inductive ContractError
  | noForward
  | backwardTracksGroups
  | captureTracksNoGroups
  | groupCountsDisagree
  | backwardRequired
  | noBackward
  | backwardRejected
  | unknownTemplate
  | noCapture
  | captureRejected
  /-- A failure that a client's own automaton words itself. -/
  | reported (text : String)
deriving DecidableEq, Repr

def ContractError.message : ContractError → String
  | .noForward => "A forward automaton is required."
  | .backwardTracksGroups => "The backward automaton must report offsets."
  | .captureTracksNoGroups => "The capture group automaton must report groups."
  | .groupCountsDisagree => "Precalculated results disagree on the number of groups."
  | .backwardRequired => "A backward automaton is required to find the start of a match."
  | .noBackward => "No backward automaton to find the match start."
  | .backwardRejected => "Backward automaton rejected a forward match."
  | .unknownTemplate => "Backward automaton reported an unknown precalculated result."
  | .noCapture => "No capture group automaton to resolve groups."
  | .captureRejected => "Capture group automaton rejected a known match."
  | .reported text => text

/-- Which index was outside its range. -/
inductive RangeError
  | searchIndex (index : Int) (length : Nat)
  | group (index count : UInt32)
  /-- A failure that a client's own automaton words itself. -/
  | reported (text : String)
deriving DecidableEq, Repr

def RangeError.message : RangeError → String
  | .searchIndex index length =>
    "Search index " ++ toString index ++ " is outside the input of length "
      ++ toString length ++ "."
  | .group index count =>
    "Group " ++ toString index.toNat ++ " is out of range for a result with "
      ++ toString count.toNat ++ " groups."
  | .reported text => text

/-- Any failure of a compilation, a search or an access to a result. -/
inductive Fault
  | compile (error : CompileError)
  | contract (error : ContractError)
  | range (error : RangeError)
  /-- A position was asked of a result that did not match. -/
  | noMatch
  /-- A table was read outside its bounds; checked tables never give this. -/
  | lookup
  | outOfMemory
  /-- Any other failure that a client's automaton or compiler describes. -/
  | failed (text : String)
  /-- A failure of a client's automaton or compiler about which nothing is known. -/
  | unknown
deriving DecidableEq, Repr

/-- The text of a fault; failures that carry no description have none. -/
def Fault.message : Fault → String
  | .compile error => error.message
  | .contract error => error.message
  | .range error => error.message
  | .noMatch => "Positional access on a result that did not match."
  | .lookup => "A table was read outside its bounds."
  | .outOfMemory => ""
  | .failed text => text
  | .unknown => ""

/-- Entry `i` of a table. -/
def lookup {α : Type} (table : Array α) (i : Nat) : Except Fault α :=
  match table[i]? with
  | some entry => .ok entry
  | none => .error .lookup

theorem lookup_of_lt {α : Type} {table : Array α} {i : Nat} (h : i < table.size) :
    lookup table i = .ok table[i] := by
  simp [lookup, h]

/-- An answer that took two steps came from an answer of the first one. -/
theorem exists_of_bind_eq_ok {α β : Type} {answer : Except Fault α} {next : α → Except Fault β}
    {b : β} (h : answer >>= next = .ok b) : ∃ a, answer = .ok a ∧ next a = .ok b := by
  cases answer with
  | ok a => exact ⟨a, rfl, h⟩
  | error fault => cases h

end LazyMatch

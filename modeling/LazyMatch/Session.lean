import LazyMatch.Regex
import LazyMatch.Result.Access
import LazyMatch.Shelf

/-!
# Sessions

A session is one client's history with an engine: it searches, keeps results under names, and asks
them for more at any later time. What a result finds on demand counts towards the usage of its
owner. A matcher owns the results of its searches and counts them as long as it is in place; all
other results, those made by hand among them, belong to the session. A session also counts how often
each automaton ran and the compiler was called.
-/

namespace LazyMatch

/-- What a client works with. -/
inductive Engine
  /-- Nothing that searches: all results are made by hand. -/
  | idle
  | bundle (bundle : Bundle)
  | automaton (automaton : Automaton)
  | matcher (matcher : Matcher)
  | regex (regex : Regex)

namespace Engine

def search (engine : Engine) (input : Input) (origin : Int) : Turn Engine Result :=
  match engine with
  | idle => .done .noMatch engine
  | bundle b => (b.find input origin).onto engine fun _ => engine
  | automaton a => (a.find input origin).onto engine fun _ => engine
  | matcher m =>
    let turn := m.search input origin
    ⟨turn.answer, matcher turn.next, turn.events⟩
  | regex r =>
    let turn := r.search input origin
    ⟨turn.answer, regex turn.next, turn.events⟩

def credit (engine : Engine) (events : List Event) : Engine :=
  match engine with
  | idle => engine
  | bundle _ => engine
  | automaton _ => engine
  | matcher m => matcher (m.credit events)
  | regex r => regex (r.credit events)

/-- Whether the engine has given up its first strategy. -/
def hasChanged : Engine → Bool
  | idle => false
  | bundle _ => false
  | automaton _ => false
  | matcher m => !m.strategy.isOpen
  | regex r => r.matcher?.any fun m => !m.strategy.isOpen

def withCompiler (engine : Engine) (compiler : Compiler) : Engine :=
  match engine with
  | idle => engine
  | bundle _ => engine
  | automaton _ => engine
  | matcher m => matcher (m.withCompiler compiler)
  | regex r => regex (r.withCompiler compiler)

end Engine

/-- Whose usage a result counts towards. -/
inductive Owner
  | session
  /-- The matcher that was in place after so many replacements. -/
  | matcher (generation : Nat)
deriving DecidableEq, Repr

structure Kept where
  result : Result
  owner : Owner

/-- The history of one client. -/
structure Session where
  engine : Engine
  /-- The usage of the results that belong to the session. -/
  usage : Usage
  /-- How often the matcher has been replaced. -/
  generation : Nat
  kept : Shelf Kept
  tally : Tally

namespace Session

def new (engine : Engine) : Session where
  engine
  usage := .none
  generation := 0
  kept := .empty
  tally := {}

/-- Who owns the results of the present engine. -/
def engineOwner (s : Session) : Owner :=
  match s.engine with
  | .idle => .session
  | .bundle _ => .session
  | .automaton _ => .session
  | .matcher _ => .matcher s.generation
  | .regex _ => .matcher s.generation

def keep (s : Session) (name : String) (owner : Owner) (result : Result) : Session :=
  { s with kept := s.kept.put name { result, owner } }

/-- Takes note of events that results of an owner caused. -/
def observe (s : Session) (owner : Owner) (events : List Event) : Session :=
  let s := { s with tally := s.tally.addAll events }
  match owner with
  | .session =>
    { s with usage := s.usage.countAccesses (events.countP Event.isGroupAccess) }
  | .matcher generation =>
    -- A matcher that was replaced is out of sight, and its usage with it.
    if generation = s.generation then { s with engine := s.engine.credit events } else s

def find (s : Session) (input : Input) (origin : Int) : Turn Session Result :=
  let turn := s.engine.search input origin
  ⟨turn.answer, { s with engine := turn.next, tally := s.tally.addAll turn.events }, turn.events⟩

/-- Searches, and keeps the result under a name. After a failure the name keeps what it had. -/
def search (s : Session) (name : String) (input : Input) (origin : Int) : Turn Session Result :=
  (s.find input origin).andThen fun result s =>
    .done result (s.keep name s.engineOwner result)

/-- Asks the result under a name, which is kept as it is afterwards. -/
def ask {α : Type} (s : Session) (name : String) (access : Result → Turn Result α) :
    Option (Turn Session α) :=
  (s.kept.get? name).map fun kept =>
    let turn := access kept.result
    let kept := { kept with result := turn.next }
    ⟨turn.answer, { s.observe kept.owner turn.events with kept := s.kept.put name kept },
      turn.events⟩

def copy (s : Session) (name target : String) : Option Session :=
  (s.kept.get? name).map fun kept => { s with kept := s.kept.put target kept }

def withCompiler (s : Session) (compiler : Compiler) : Session :=
  { s with engine := s.engine.withCompiler compiler }

end Session

end LazyMatch

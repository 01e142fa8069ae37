import LazyMatch.Regex
import LazyMatch.Result.Access
import LazyMatch.Shelf

/-!
# Searching by handle

The interface for clients that cannot catch failures: every call answers with a code, and stores
what it has to give in variables of the client. A call without the variables to store it in, or
without the handle that it needs, is refused before anything else is looked at. Positions are stored
as unsigned 64-bit words and groups as signed ones.
-/

namespace LazyMatch

/-- How a call ended. -/
inductive Code
  | success
  | invalid
  | noMemory
  | noMatch
  | compilerError
  | unknownError
deriving DecidableEq, Repr

def Code.number : Code → Int
  | success => 0
  | invalid => -1
  | noMemory => -2
  | noMatch => -3
  | compilerError => -4
  | unknownError => -5

/-- The code for a search that failed. -/
def Fault.searchCode : Fault → Code
  | compile _ => .compilerError
  | contract _ => .unknownError
  | range _ => .invalid
  | noMatch => .unknownError
  | lookup => .unknownError
  | outOfMemory => .noMemory
  | failed _ => .unknownError
  | unknown => .unknownError

/-- The code for an access to a match that failed. -/
def Fault.accessCode : Fault → Code
  | compile _ => .unknownError
  | contract _ => .unknownError
  | range _ => .invalid
  | noMatch => .noMatch
  | lookup => .unknownError
  | outOfMemory => .noMemory
  | failed _ => .unknownError
  | unknown => .unknownError

/-- The version of the interface and the date of its release. -/
def interfaceVersion : String := "1.0.0 2026-10-18"

/-- What a client holds for a pattern. -/
inductive Handle
  /-- No handle at all. -/
  | null
  /-- A handle without a pattern. -/
  | hollow
  | regex (regex : Regex)

/-- A handle for a pattern, or none for no pattern. -/
def Handle.wrap : Option Regex → Handle
  | none => null
  | some r => regex r

/-- The bytes that a client passes. -/
inductive Buffer
  /-- No bytes, although a length may be claimed. -/
  | null (length : UInt32)
  | bytes (input : Input)

/-- The input that a buffer stands for; claimed bytes that are missing stand for none. -/
def Buffer.input? : Buffer → Option Input
  | null length => if length = 0 then some #[] else none
  | bytes input => some input

/-- Counts the accesses to groups among events that results of the pattern caused. -/
def Handle.credit (events : List Event) : Handle → Handle
  | null => null
  | hollow => hollow
  | regex r => regex (r.credit events)

/-! ## Variables -/

/-- The variables of a client, by type. One that nothing was stored in has no value. -/
structure Variables where
  flags : Shelf Int
  counts : Shelf UInt32
  words : Shelf UInt64
  offsets : Shelf Int

namespace Variables

def empty : Variables where
  flags := .empty
  counts := .empty
  words := .empty
  offsets := .empty

def storeFlag (v : Variables) (place : String) (flag : Bool) : Variables :=
  { v with flags := v.flags.put place (if flag then 1 else 0) }

def storeCount (v : Variables) (place : String) (count : UInt32) : Variables :=
  { v with counts := v.counts.put place count }

def storeWord (v : Variables) (place : String) (position : Int) : Variables :=
  { v with words := v.words.put place (.ofInt position) }

def storeOffset (v : Variables) (place : String) (position : Int) : Variables :=
  { v with offsets := v.offsets.put place position }

end Variables

/-! ## Accesses that store -/

/-- An access to a result that stores what it finds. What it has stored when it fails stays. -/
abbrev Delivery := Result → Variables → Turn (Result × Variables) Unit

namespace Delivery

def start (place : String) : Delivery := fun result v =>
  (result.start.beside v).andThen fun start (result, v) =>
    .done () (result, v.storeWord place start)

def stop (place : String) : Delivery := fun result v =>
  (result.stop.beside v).andThen fun stop (result, v) =>
    .done () (result, v.storeWord place stop)

/-- Where a group starts and ends. The places may be the same one. -/
def group (index : UInt32) (low high : String) : Delivery := fun result v =>
  ((result.startOfGroup index).beside v).andThen fun start (result, v) =>
    ((result.stopOfGroup index).beside v).andThen fun stop (result, v) =>
      .done () (result, (v.storeOffset low start).storeOffset high stop)

end Delivery

/-! ## Calls -/

/-- A client with its handle, the results it keeps, and its variables for other answers. A name
without a result is a null handle. -/
structure Client where
  handle : Handle
  results : Shelf Result
  memory : Variables
  tally : Tally

namespace Client

def new (handle : Handle) : Client where
  handle
  results := .empty
  memory := .empty
  tally := {}

/-- Searches for a valid request, and keeps the result. -/
def searchRegex (c : Client) (regex : Regex) (place : String) (input : Input) (origin : UInt32) :
    Code × Client :=
  let turn := regex.search input origin.toNat
  let c := { c with handle := .regex turn.next, tally := c.tally.addAll turn.events }
  match turn.answer with
  | .ok result => (.success, { c with results := c.results.put place result })
  | .error fault => (fault.searchCode, c)

/-- Searches, and keeps the result in a place for it, if there is one; what was there is given up
even if the call fails. -/
def search (c : Client) (place? : Option String) (buffer : Buffer) (origin : UInt32) :
    Code × Client :=
  match place? with
  | some place =>
    -- The place is emptied before the rest of the request is looked at.
    let c := { c with results := c.results.remove place }
    match c.handle, buffer.input? with
    | .regex regex, some input =>
      if origin.toNat ≤ input.size then c.searchRegex regex place input origin
      else (.invalid, c)
    | _, _ => (.invalid, c)
  | none => (.invalid, c)

/-- Stores what is known of a result without asking it for more. -/
def tell (c : Client) (name : String) (place? : Option String)
    (store : Variables → String → Result → Variables) : Code × Client :=
  match c.results.get? name, place? with
  | some result, some place => (.success, { c with memory := store c.memory place result })
  | _, _ => (.invalid, c)

def found (c : Client) (name : String) (place? : Option String) : Code × Client :=
  c.tell name place? fun v place result => v.storeFlag place result.found

def groupCount (c : Client) (name : String) (place? : Option String) : Code × Client :=
  c.tell name place? fun v place result => v.storeCount place result.groupCount

/-- Does with a match what may have to be found first, and tells how it went. -/
def guardAccess (c : Client) (name : String) (result : Result) (deliver : Delivery) :
    Code × Client :=
  if result.found then
    let turn := deliver result c.memory
    let c : Client :=
      { handle := c.handle.credit turn.events
        results := c.results.put name turn.next.1
        memory := turn.next.2
        tally := c.tally.addAll turn.events }
    match turn.answer with
    | .ok () => (.success, c)
    | .error fault => (fault.accessCode, c)
  else (.noMatch, c)

/-- Asks a result for something that there is a place for. -/
def ask (c : Client) (name : String) (deliver? : Option Delivery) : Code × Client :=
  match c.results.get? name, deliver? with
  | some result, some deliver => c.guardAccess name result deliver
  | _, _ => (.invalid, c)

def start (c : Client) (name : String) (place? : Option String) : Code × Client :=
  c.ask name (place?.map .start)

def stop (c : Client) (name : String) (place? : Option String) : Code × Client :=
  c.ask name (place?.map .stop)

def group (c : Client) (name : String) (index : UInt32) (low? high? : Option String) :
    Code × Client :=
  c.ask name (low?.bind fun low => high?.map fun high => .group index low high)

def freeResult (c : Client) (name : String) : Code × Client :=
  (.success, { c with results := c.results.remove name })

/-- Gives up the handle of the pattern. Results outlive it. -/
def freeHandle (c : Client) : Code × Client :=
  (.success, { c with handle := .null })

def withCompiler (c : Client) (compiler : Compiler) : Client :=
  match c.handle with
  | .regex regex => { c with handle := .regex (regex.withCompiler compiler) }
  | .null => c
  | .hollow => c

end Client

end LazyMatch

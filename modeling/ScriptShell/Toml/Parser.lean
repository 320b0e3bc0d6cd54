import ScriptShell.Toml.Document
import ScriptShell.Toml.Scalar

/-!
Configuration files from text. The reader takes one lexeme after another; what a lexeme may be
depends on what it expects, which arrays and inline tables stack up.
-/

namespace ScriptShell.Toml

/-- What waits for a value. -/
inductive Hole where
  /-- A key of the table in force. -/
  | statement (names : List String)
  | item (before : List Toml)
  | field (before : Entries) (names : List String)

/-- What a key is read for. -/
inductive KeyUse where
  | statement
  | table
  | arrayOfTables
  | field (before : Entries) (holes : List Hole)

inductive Reading where
  | lineStart
  | lineEnd
  /-- A name of a key, after these, last first. -/
  | key (use : KeyUse) (names : List String)
  | keyEnd (use : KeyUse) (names : List String)
  | value (holes : List Hole)
  | item (before : List Toml) (holes : List Hole)
  | itemEnd (items : List Toml) (holes : List Hole)
  | firstField (holes : List Hole)
  | fieldEnd (fields : Entries) (holes : List Hole)

/-- How deep values may nest and how many names a key may have, plus one. -/
def depthLimit : Nat := 80

structure State where
  document : Document := {}
  reading : Reading := .lineStart

namespace State

def expect (s : State) (reading : Reading) : State := { s with reading }

/-- Put a value where it belongs. -/
def deliver (s : State) (v : Toml) : List Hole → Option State
  | [] => none
  | .statement names :: _ =>
    (s.document.define names v).map fun document => { document, reading := .lineEnd }
  | .item before :: holes => some (s.expect (.itemEnd (v :: before) holes))
  | .field before names :: holes =>
    (before.define names v).map fun fields => s.expect (.fieldEnd fields holes)

def isBareKey (c : Char) : Bool := c.isAlphanum || c == '_' || c == '-'

/-- A name of a key and how many characters it takes. -/
def name? (cs : List Char) : Option (String × Nat) :=
  match lineString? cs with
  | some (name, n) => some (String.ofList name, n)
  | none =>
    let name := cs.takeWhile isBareKey
    if name.isEmpty then none else some (String.ofList name, name.length)

/-- Read a name of a key. -/
def readName (s : State) (use : KeyUse) (names : List String) (cs : List Char) :
    Option (State × Nat) := do
  let (name, n) ← name? cs
  if names.length + 1 < depthLimit then some (s.expect (.keyEnd use (name :: names)), n) else none

/-- Read a value, or as much of it as opens an array or a table. -/
def readValue (s : State) (holes : List Hole) (cs : List Char) : Option (State × Nat) :=
  match cs with
  | '[' :: _ => if holes.length < depthLimit then some (s.expect (.item [] holes), 1) else none
  | '\x7b' :: _ =>
    if holes.length < depthLimit then some (s.expect (.firstField holes), 1) else none
  | _ => do
    let (v, n) ← scalarValue? cs
    some (← s.deliver v holes, n)

/-- Comments and newlines may stand here, and what follows a newline. -/
def afterNewline? : Reading → Option Reading
  | .lineStart | .lineEnd => some .lineStart
  | .item before holes => some (.item before holes)
  | .itemEnd items holes => some (.itemEnd items holes)
  | _ => none

/-- Read one lexeme other than blanks, newlines and comments. -/
def readLexeme (s : State) (cs : List Char) : Option (State × Nat) :=
  match s.reading, cs with
  | .lineStart, '[' :: '[' :: _ => some (s.expect (.key .arrayOfTables []), 2)
  | .lineStart, '[' :: _ => some (s.expect (.key .table []), 1)
  | .lineStart, cs => s.readName .statement [] cs
  | .key use names, cs => s.readName use names cs
  | .keyEnd use names, '.' :: _ => some (s.expect (.key use names), 1)
  | .keyEnd .statement names, '=' :: _ => some (s.expect (.value [.statement names]), 1)
  | .keyEnd (.field before holes) names, '=' :: _ =>
    some (s.expect (.value (.field before names :: holes)), 1)
  | .keyEnd .table names, ']' :: _ =>
    (s.document.openTable names).map fun document => ({ document, reading := .lineEnd }, 1)
  | .keyEnd .arrayOfTables names, ']' :: ']' :: _ =>
    (s.document.openArray names).map fun document => ({ document, reading := .lineEnd }, 2)
  | .value holes, cs => s.readValue holes cs
  | .item before holes, ']' :: _ => (s.deliver (.array before.reverse) holes).map fun s => (s, 1)
  | .item before holes, cs => s.readValue (.item before :: holes) cs
  | .itemEnd items holes, ',' :: _ => some (s.expect (.item items holes), 1)
  | .itemEnd items holes, ']' :: _ => (s.deliver (.array items.reverse) holes).map fun s => (s, 1)
  | .firstField holes, '\x7d' :: _ => (s.deliver (.table []) holes).map fun s => (s, 1)
  | .firstField holes, cs => s.readName (.field [] holes) [] cs
  | .fieldEnd fields holes, ',' :: _ => some (s.expect (.key (.field fields holes) []), 1)
  | .fieldEnd fields holes, '\x7d' :: _ =>
    (s.deliver (.table (entriesToToml fields)) holes).map fun s => (s, 1)
  | _, _ => none

/-- Read what stands at the start of a text; gives how many characters that takes. -/
def step (s : State) (cs : List Char) : Option (State × Nat) :=
  match cs with
  | [] => none
  | c :: rest =>
    if isBlank c then some (s, 1)
    else if c = '#' then
      if (afterNewline? s.reading).isSome then some (s, 1 + (rest.takeWhile isPlain).length)
      else none
    else match newline? cs with
      | some n => (afterNewline? s.reading).map fun reading => (s.expect reading, n)
      | none => s.readLexeme cs

/-- Read a text of which the first `skip` characters have been dealt with. -/
def run (s : State) : Nat → List Char → Option State
  | 0, [] => some s
  | _ + 1, [] => none
  | n + 1, _ :: cs => s.run n cs
  | 0, c :: cs =>
    match s.step (c :: cs) with
    | some (s, n) => s.run (n - 1) cs
    | none => none

/-- Nothing has been left open. -/
def isFinished (s : State) : Bool :=
  match s.reading with
  | .lineStart | .lineEnd => true
  | _ => false

end State

/-- The root table of a file; a byte order mark at its start does not count. -/
def parse? (text : String) : Option Toml := do
  let cs := (Text.dropPrefix? ['\uFEFF'] text.toList).getD text.toList
  let s ← ({} : State).run 0 cs
  if s.isFinished then some s.document.toToml else none

end ScriptShell.Toml

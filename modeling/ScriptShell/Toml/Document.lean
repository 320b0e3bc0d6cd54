import ScriptShell.Toml.Basic

/-!
The tables of a configuration file while it is read. A table is implicit as long as only its
sub-tables have been named, and dotted if keys with dots have made it; neither a table nor a key may
be defined twice.
-/

namespace ScriptShell.Toml

inductive Node where
  | value (v : Toml)
  | table (implicit dotted : Bool) (entries : List (String × Node))
  /-- An array of tables: the one being filled, and those before it, last first. -/
  | tables (current : List (String × Node)) (earlier : List (List (String × Node)))
deriving Inhabited

abbrev Entries := List (String × Node)

namespace Entries

/-- Put a node under a name, in place of what is there. -/
def put (name : String) (node : Node) : Entries → Entries
  | [] => [(name, node)]
  | e :: es => if e.1 = name then (name, node) :: es else e :: put name node es

/-- Change the table that a path leads to, making the tables on the way that are missing. `dotted`
tells a path of a key from one of a header: a key may not enter a table that has been defined. -/
def descend (dotted : Bool) (change : Bool → Entries → Option Entries) :
    List String → Bool → Entries → Option Entries
  | [], isDotted, es => change isDotted es
  | name :: path, _, es =>
    match es.lookup name with
    | none => do
      let child ← descend dotted change path dotted []
      some (put name (.table true dotted child) es)
    | some (.value _) => none
    | some (.tables current earlier) => do
      let current ← descend dotted change path false current
      some (put name (.tables current earlier) es)
    | some (.table implicit isDotted child) =>
      if dotted && !implicit then none
      else do
        let child ← descend dotted change path isDotted child
        some (put name (.table implicit isDotted child) es)

/-- Set a key, given its names from the last to the first, in a table. -/
def define (names : List String) (v : Toml) (es : Entries) : Option Entries :=
  match names with
  | [] => none
  | name :: path =>
    descend true (fun isDotted es =>
      if isDotted == path.isEmpty || (es.lookup name).isSome then none
      else some (put name (.value v) es)) path.reverse false es

/-- Open a table by its header. -/
def openTable (names : List String) (es : Entries) : Option Entries :=
  match names with
  | [] => none
  | name :: path =>
    descend false (fun _ es =>
      match es.lookup name with
      | none => some (put name (.table false false []) es)
      | some (.table true false child) => some (put name (.table false false child) es)
      | _ => none) path.reverse false es

/-- Add a table to an array of tables by its header. -/
def openArray (names : List String) (es : Entries) : Option Entries :=
  match names with
  | [] => none
  | name :: path =>
    descend false (fun _ es =>
      match es.lookup name with
      | none => some (put name (.tables [] []) es)
      | some (.tables current earlier) => some (put name (.tables [] (current :: earlier)) es)
      | _ => none) path.reverse false es

end Entries

mutual

/-- The value that a node stands for. -/
def Node.toToml : Node → Toml
  | .value v => v
  | .table _ _ entries => .table (entriesToToml entries)
  | .tables current earlier => .array (tablesToToml earlier [.table (entriesToToml current)])

def entriesToToml : List (String × Node) → List (String × Toml)
  | [] => []
  | (name, node) :: rest => (name, node.toToml) :: entriesToToml rest

/-- Earlier tables, last first, in front of later ones. -/
def tablesToToml : List (List (String × Node)) → List Toml → List Toml
  | [], later => later
  | entries :: rest, later => tablesToToml rest (.table (entriesToToml entries) :: later)

end

/-- What has been read, and the header in force, its names from the last to the first. -/
structure Document where
  root : Entries := []
  header : List String := []
deriving Inhabited

namespace Document

/-- Set a key of the table in force. -/
def define (d : Document) (names : List String) (v : Toml) : Option Document := do
  let set (_ : Bool) (es : Entries) : Option Entries := es.define names v
  let root ← Entries.descend false set d.header.reverse false d.root
  some { d with root }

def openTable (d : Document) (names : List String) : Option Document := do
  some { root := ← Entries.openTable names d.root, header := names }

def openArray (d : Document) (names : List String) : Option Document := do
  some { root := ← Entries.openArray names d.root, header := names }

def toToml (d : Document) : Toml := .table (entriesToToml d.root)

end Document

end ScriptShell.Toml

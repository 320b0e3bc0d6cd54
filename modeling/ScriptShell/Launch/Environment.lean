import ScriptShell.Files.Tree
import ScriptShell.NameMap

/-!
Environment variables for the host: those of a service's file, then those of the command line.
-/

namespace ScriptShell.Environment

open Text

/-- Without one pair of equal quotes around it. -/
def unquote (value : List Char) : List Char :=
  match value, value.getLast? with
  | q :: rest, some q' =>
    if (q = '"' ∨ q = '\'') ∧ q' = q ∧ rest ≠ [] then rest.dropLast else value
  | _, _ => value

/-- The name and value that a line sets: neither a blank line, nor a comment, nor one without `=`
sets any. -/
def setting? (line : List Char) : Option (List Char × List Char) :=
  let line := Text.trim line
  if line.isEmpty || line.head? = some '#' then none
  else
    let line := (dropPrefix? "export ".toList line).getD line
    (splitOnce? '=' line).map fun p => (Text.trim p.1, unquote (Text.trim p.2))

def asStrings (p : List Char × List Char) : String × String :=
  (String.ofList p.1, String.ofList p.2)

/-- Read a service's file; the last line of a name counts. -/
def parse (text : String) : NameMap String :=
  NameMap.ofList (((Text.lines text.toList).filterMap setting?).map asStrings)

/-- Read a `KEY=VALUE` argument, whose key may not be blank. -/
def parsePair? (argument : String) : Option (String × String) :=
  match splitOnce? '=' argument.toList with
  | some (key, value) =>
    if (Text.trim key).isEmpty then none
    else some (String.ofList (Text.trim key), String.ofList value)
  | none => none

/-- What is said of an argument that is none. -/
def pairMessage (argument : String) : String := "expected KEY=VALUE, got '" ++ argument ++ "'"

/-- Put overrides on top, later ones winning. -/
def merge (base : NameMap String) (overrides : List (String × String)) : NameMap String :=
  base.insertAll overrides

/-- The file of a service. -/
def servicePath (directory service : String) : String := Path.join directory (service ++ ".env")

/-- The variables of a service; a file that is missing sets none, which the flag tells. -/
def load (files : FileTree) (directory service : String) :
    Except IoError (NameMap String × Bool) :=
  match files.read (servicePath directory service) with
  | .ok text => .ok (parse text, true)
  | .error .notFound => .ok (∅, false)
  | .error e => .error e

end ScriptShell.Environment

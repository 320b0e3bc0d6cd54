import ScriptShell.NameMap
import ScriptShell.Text.Scan
import ScriptShell.Text.Trim

/-!
Variable names in source text, found by four scans: assignments, loop bindings, parameter lists and
any name after a `$`. The first three look at constructs, the last one at single names.
-/

namespace ScriptShell.Variables

open Text

/-- A `$` and the name after it, as long as possible; gives the name, its length with the `$`, and
the rest. -/
def takeVariable? : List Char → Option (List Char × Nat × List Char)
  | '$' :: c :: cs =>
    if isNameStart c then
      let word := cs.takeWhile isWord
      some (c :: word, word.length + 2, cs.dropWhile isWord)
    else none
  | _ => none

/-- The text without one `&` at its start, and how many characters that were. -/
def skipMark : List Char → List Char × Nat
  | '&' :: cs => (cs, 1)
  | cs => (cs, 0)

/-- The text without white space at its start, and how many characters that was. -/
def skipSpaces (cs : List Char) : List Char × Nat :=
  (cs.dropWhile isSpace, (cs.takeWhile isSpace).length)

/-- A variable with an optional `&` before it. -/
def takeReference? (cs : List Char) : Option (List Char × Nat × List Char) := do
  let (cs, mark) := skipMark cs
  let (name, n, rest) ← takeVariable? cs
  some (name, mark + n, rest)

/-- Any variable. -/
def anyVariable : Matcher (List Char) := fun _ cs => do
  let (name, n, _) ← takeVariable? cs
  some (name, n)

/-- A variable followed by `=`. -/
def assignment : Matcher (List Char) := fun _ cs => do
  let (name, n, rest) ← takeVariable? cs
  let (rest, spaces) := skipSpaces rest
  if rest.head? = some '=' then some (name, n + spaces + 1) else none

/-- The word `as` and one variable, or two that `=>` joins. -/
def loopBinding : Matcher (List (List Char)) := fun prev cs => do
  if prev.any isWord then none
  let rest ← dropPrefix? ['a', 's'] cs
  let (rest, spaces) := skipSpaces rest
  if spaces = 0 then none
  let (key, n, rest) ← takeReference? rest
  let (arrow, before) := skipSpaces rest
  let value := do
    let rest ← dropPrefix? ['=', '>'] arrow
    let (rest, after) := skipSpaces rest
    let (value, m, _) ← takeReference? rest
    some (value, before + 2 + after + m)
  match value with
  | some (value, m) => some ([key, value], 2 + spaces + n + m)
  | none => some ([key], 2 + spaces + n)

/-- The keywords that a parameter list follows. -/
def functionWords : List (List Char) := [['f', 'u', 'n', 'c', 't', 'i', 'o', 'n'], ['f', 'n']]

/-- A function's head up to the end of its parameter list; gives what the parentheses hold. -/
def parameterList : Matcher (List Char) := fun prev cs => do
  if prev.any isWord then none
  let (word, rest) ← functionWords.findSome? fun word =>
    (dropPrefix? word cs).map fun rest => (word, rest)
  if rest.head?.any isWord then none
  let (rest, spaces₁) := skipSpaces rest
  let (rest, mark) := skipMark rest
  let (rest, spaces₂) := skipSpaces rest
  let name := if rest.head?.any isNameStart then rest.takeWhile isWord else []
  let (rest, spaces₃) := skipSpaces (rest.drop name.length)
  let rest ← dropPrefix? ['('] rest
  let (inside, _) ← splitOnce? ')' rest
  some (inside,
    word.length + spaces₁ + mark + spaces₂ + name.length + spaces₃ + inside.length + 2)

/-- The names that each scan finds, without the `$`. -/
def scanned (unit : List Char) : List (List Char) :=
  scan assignment unit ++ (scan loopBinding unit).flatten ++
    (scan parameterList unit).flatMap (scan anyVariable) ++ scan anyVariable unit

/-- The variable names of a text, with the `$`. -/
def extract (unit : String) : NameSet :=
  NameSet.ofList ((scanned unit.toList).map fun name => String.ofList ('$' :: name))

end ScriptShell.Variables

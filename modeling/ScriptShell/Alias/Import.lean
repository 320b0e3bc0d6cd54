import ScriptShell.Text.Lines

/-!
Import declarations: `use`, a qualified name, optionally `as` and a short name, a semicolon. A name
is a letter or underscore followed by word characters; a qualified name joins names by backslashes
and may start with one, which is dropped.
-/

namespace ScriptShell

open Text

/-- One import: the name it introduces and the name that stands for. -/
structure Import where
  short : String
  qualified : String
deriving DecidableEq, Repr

namespace Import

/-- At least one white space character, and what follows all of them. -/
def dropSpaces? : List Char → Option (List Char)
  | [] => none
  | c :: cs => if isSpace c then some (cs.dropWhile isSpace) else none

/-- The name at the start of a text, as long as possible, and the rest. -/
def takeName? : List Char → Option (List Char × List Char)
  | [] => none
  | c :: cs =>
    if isNameStart c then some (c :: cs.takeWhile isWord, cs.dropWhile isWord) else none

/-- Word characters and separators that a name follows, as long as possible, and the rest. -/
def takePath : List Char → List Char × List Char
  | [] => ([], [])
  | c :: cs =>
    if isWord c || (c == '\\' && cs.head?.any isNameStart) then
      (c :: (takePath cs).1, (takePath cs).2)
    else ([], c :: cs)

/-- A qualified name without its leading separator, as long as possible, and the rest. -/
def takeQualified? : List Char → Option (List Char × List Char)
  | [] => none
  | c :: cs => if isNameStart c then some (takePath (c :: cs)) else none

/-- The last name of a qualified name. -/
def lastName (qualified : List Char) : List Char :=
  (qualified.reverse.takeWhile (· != '\\')).reverse

/-- Nothing but white space and the final semicolon. -/
def endsHere (cs : List Char) : Bool := cs.dropWhile isSpace == [';']

/-- The short name that an `as` clause gives, if it closes the declaration. -/
def takeClause? (cs : List Char) : Option (List Char) := do
  let cs ← dropSpaces? cs
  let cs ← dropPrefix? ['a', 's'] cs
  let cs ← dropSpaces? cs
  let (short, rest) ← takeName? cs
  if endsHere rest then some short else none

/-- Read a declaration that takes up the whole text. -/
def parse? (cs : List Char) : Option Import := do
  let cs ← dropPrefix? ['u', 's', 'e'] cs
  let cs ← dropSpaces? cs
  let (qualified, rest) ← takeQualified? ((dropPrefix? ['\\'] cs).getD cs)
  let short ← if endsHere rest then some (lastName qualified) else takeClause? rest
  some ⟨String.ofList short, String.ofList qualified⟩

end Import

/-- What a line of a unit is, as far as imports are concerned. -/
inductive UnitLine where
  | skipped
  | declares (i : Import)
  | code
deriving DecidableEq, Repr

namespace UnitLine

/-- The marks that a comment line starts with. -/
def commentMarks : List (List Char) := [['/', '/'], ['#'], ['/', '*'], ['*']]

def isComment (cs : List Char) : Bool := commentMarks.any fun mark => (dropPrefix? mark cs).isSome

/-- Read a line, white space around it aside. -/
def ofLine (line : List Char) : UnitLine :=
  let cs := Text.trim line
  if cs.isEmpty || isComment cs then .skipped
  else match Import.parse? cs with
    | some i => .declares i
    | none => .code

/-- The import that a line declares. -/
def import? : UnitLine → Option Import
  | .declares i => some i
  | _ => none

end UnitLine

end ScriptShell

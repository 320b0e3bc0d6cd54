import ScriptShell.Text.Bytes

/-!
What the cursor stands on. The text before it is read backwards: a member access wins, then a member
that has been started, then the word under the cursor. Positions and lengths are in bytes.
-/

namespace ScriptShell

open Text

inductive CompletionContext where
  /-- A member of the object bound to `object`, as far as it is typed. -/
  | memberOf (object typed : String)
  /-- A word with a `$`; `strip` bytes of it lie before what the editor replaces. -/
  | variableName (word : String) (strip : Nat)
  /-- Any other word, namespaces included. -/
  | globalName (word : String) (strip : Nat)
  | empty
deriving DecidableEq, Repr

namespace CompletionContext

/-- The name after a `$` at the end of a text, the text given backwards. -/
def objectBefore? (back : List Char) : Option (List Char) :=
  let word := back.takeWhile isWord
  if (back.dropWhile isWord).head? = some '$' ∧ word.getLast?.any isNameStart then
    some word.reverse
  else none

/-- What precedes an arrow at the end of a text, the question mark of a nullsafe one aside. -/
def beforeArrow? : List Char → Option (List Char)
  | '>' :: '-' :: '?' :: back => some back
  | '>' :: '-' :: back => some back
  | _ => none

/-- The object whose member is asked for right after an arrow; white space may precede the arrow. -/
def accessed? (back : List Char) : Option (List Char) := do
  let back ← beforeArrow? back
  objectBefore? (back.dropWhile isSpace)

/-- The object and the start of a member after an arrow, no white space before the arrow. -/
def started? (back : List Char) : Option (List Char × List Char) := do
  let typed := back.takeWhile isWord
  if typed.isEmpty then none
  let back ← beforeArrow? (back.dropWhile isWord)
  let object ← objectBefore? back
  some (object, typed.reverse)

def isWordPart (c : Char) : Bool := isIdentifier c || c == '\\'

/-- The word that a text ends in: identifiers and namespace separators, a `$` before them, but not
the separator of the global namespace. -/
def wordBefore (back : List Char) : List Char :=
  let word := (back.takeWhile isWordPart).reverse
  if (back.dropWhile isWordPart).head? = some '$' then '$' :: word
  else (dropPrefix? ['\\'] word).getD word

/-- Classify a text up to the cursor; `typed` is the word that the editor will replace. -/
def ofBefore (before typed : List Char) : CompletionContext :=
  let back := before.reverse
  match accessed? back with
  | some object => .memberOf (String.ofList object) (String.ofList typed)
  | none =>
    match started? back with
    | some (object, typed) => .memberOf (String.ofList object) (String.ofList typed)
    | none =>
      let word := wordBefore back
      let strip := byteLength word - byteLength typed
      if word.isEmpty then .empty
      else if word.head? = some '$' then .variableName (String.ofList word) strip
      else .globalName (String.ofList word) strip

/-- Classify a cursor; one inside a character counts as before it, one beyond the line as at its
end. -/
def classify (line : String) (cursor : Nat) (typed : String) : CompletionContext :=
  ofBefore (takeBytes cursor line.toList) typed.toList

end CompletionContext

end ScriptShell

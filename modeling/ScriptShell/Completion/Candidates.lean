import ScriptShell.Completion.Context
import ScriptShell.Memory

/-!
The names on offer in a completion context, in ascending order and each once, without the part that
the editor keeps.
-/

namespace ScriptShell.Completion

open Text

/-- Reserved words that are always on offer. -/
def keywords : List String :=
  ["abstract", "and", "array", "as", "break", "callable", "case", "catch", "class", "clone",
   "const", "continue", "declare", "default", "do", "echo", "else", "elseif", "empty",
   "enddeclare", "endfor", "endforeach", "endif", "endswitch", "endwhile", "enum", "eval",
   "exit", "extends", "false", "final", "finally", "fn", "for", "foreach", "function", "global",
   "goto", "if", "implements", "include", "include_once", "instanceof", "insteadof",
   "interface", "isset", "list", "match", "namespace", "new", "null", "or", "print", "private",
   "protected", "public", "readonly", "require", "require_once", "return", "static", "switch",
   "throw", "trait", "true", "try", "unset", "use", "var", "while", "xor", "yield"]

/-- Members that are on offer although they start with two underscores. -/
def offeredMagic : List String := ["__invoke", "__toString"]

def isOffered (member : String) : Bool :=
  (dropPrefix? ['_', '_'] member.toList).isNone || offeredMagic.contains member

def startsWith (word name : String) : Bool := (dropPrefix? word.toList name.toList).isSome

/-- The first bytes of the name are the word, up to the case of ASCII letters. -/
def startsWithIgnoringCase (word name : String) : Bool :=
  match splitAtByte? (byteLength word.toList) name.toList with
  | some (start, _) => start.map Char.toLower == word.toList.map Char.toLower
  | none => false

/-- Without the first `n` bytes, if these are whole characters. -/
def dropBytes? (n : Nat) (name : String) : Option String :=
  (splitAtByte? n name.toList).map fun p => String.ofList p.2

/-- The names that a context draws on. -/
def pool (m : Memory) : CompletionContext → List String
  | .memberOf object _ => (m.objects.members? object).getD []
  | .variableName _ _ => m.tracker.names.names
  | .globalName _ _ =>
    m.symbols.functions ++ keywords ++ m.symbols.classes ++ m.aliases.shortNames
  | .empty => []

/-- The candidate that a name of the pool gives, if it fits the context. -/
def candidate? (context : CompletionContext) (name : String) : Option String :=
  match context with
  | .memberOf _ typed => if isOffered name && startsWith typed name then some name else none
  | .variableName word strip => if startsWith word name then dropBytes? strip name else none
  | .globalName word strip =>
    if startsWithIgnoringCase word name then dropBytes? strip name else none
  | .empty => none

def candidates (m : Memory) (context : CompletionContext) : List String :=
  (NameSet.ofList ((pool m context).filterMap (candidate? context))).names

/-- Complete at a cursor whose word, as the editor sees it, is `typed`. -/
def complete (m : Memory) (line : String) (cursor : Nat) (typed : String) : List String :=
  candidates m (.classify line cursor typed)

/-- The text before a position cut in front of the identifier it ends in. -/
def cutWord (before : List Char) : List Char × List Char :=
  let back := before.reverse
  ((back.dropWhile isIdentifier).reverse, (back.takeWhile isIdentifier).reverse)

/-- Where the identifier that ends at a position starts; `none` off the bounds of characters. -/
def wordStart? (line : String) (pos : Nat) : Option Nat :=
  (splitAtByte? pos line.toList).map fun p => byteLength (cutWord p.1).1

/-- What the editor asks for at a position: where to replace, and by what. -/
def completeAt? (m : Memory) (line : String) (pos : Nat) : Option (Nat × List String) := do
  let (before, _) ← splitAtByte? pos line.toList
  let (kept, word) := cutWord before
  some (byteLength kept, complete m line pos (String.ofList word))

end ScriptShell.Completion

import ScriptShell.Json.Token

/-!
Strings of configuration files: in double quotes with escapes, in single quotes without, and both in
triple quotes over several lines. Each reader starts after the opening quotes and gives the text and
how many characters it took, the closing quotes included.
-/

namespace ScriptShell.Toml

open Text

/-- A character of a comment or a string: any but a control character, tabs aside. -/
def isPlain (c : Char) : Bool := c == '\t' || (32 ≤ c.toNat && c.toNat != 127)

def isBlank (c : Char) : Bool := c == ' ' || c == '\t'

/-- The number of characters of the newline at the start of a text. -/
def newline? : List Char → Option Nat
  | '\n' :: _ => some 1
  | '\r' :: '\n' :: _ => some 2
  | _ => none

/-- The character of a code point, if there is one. -/
def scalar? (n : Nat) : Option Char :=
  if n < 0xD800 ∨ (0xE000 ≤ n ∧ n < 0x110000) then some (Char.ofNat n) else none

/-- What the text after a backslash stands for, and how many characters that takes. -/
def escape? : List Char → Option (Char × Nat)
  | 'b' :: _ => some ('\x08', 1)
  | 't' :: _ => some ('\t', 1)
  | 'n' :: _ => some ('\n', 1)
  | 'f' :: _ => some ('\x0c', 1)
  | 'r' :: _ => some ('\r', 1)
  | '"' :: _ => some ('"', 1)
  | '\\' :: _ => some ('\\', 1)
  | 'u' :: a :: b :: c :: d :: _ => do
    some (← scalar? (← Json.hex4? a b c d), 5)
  | 'U' :: a :: b :: c :: d :: e :: f :: g :: h :: _ => do
    some (← scalar? ((← Json.hex4? a b c d) * 65536 + (← Json.hex4? e f g h)), 9)
  | _ => none

/-- The characters from one position on, `skip` of which have been dealt with. -/
def basicFrom? : Nat → List Char → Option (List Char × Nat)
  | _, [] => none
  | n + 1, _ :: cs => (basicFrom? n cs).map fun p => (p.1, p.2 + 1)
  | 0, c :: cs =>
    if c = '"' then some ([], 1)
    else if c = '\\' then do
      let (e, n) ← escape? cs
      (basicFrom? n cs).map fun p => (e :: p.1, p.2 + 1)
    else if isPlain c then (basicFrom? 0 cs).map fun p => (c :: p.1, p.2 + 1)
    else none

def literal? : List Char → Option (List Char × Nat)
  | [] => none
  | c :: cs =>
    if c = '\'' then some ([], 1)
    else if isPlain c then (literal? cs).map fun p => (c :: p.1, p.2 + 1)
    else none

/-- How many of the quotes at the start of a text close a multi-line string: three of them, and up
to two before these that belong to the text. -/
def closingQuotes? (quote : Char) (cs : List Char) : Option Nat :=
  let n := (cs.takeWhile (· == quote)).length
  if n < 3 then none else some (Nat.min n 5)

/-- The number of blanks and newlines at the start of a text. -/
def blankRun : List Char → Nat
  | [] => 0
  | c :: cs =>
    if isBlank c || c == '\n' || (c == '\r' && cs.head? == some '\n') then blankRun cs + 1 else 0

/-- How many characters after a backslash are passed over, up to the next visible one, when nothing
follows the backslash on its line. -/
def continuation? (cs : List Char) : Option Nat :=
  let blanks := (cs.takeWhile isBlank).length
  match newline? (cs.drop blanks) with
  | some n => some (blanks + n + blankRun (cs.drop (blanks + n)))
  | none => none

/-- The characters of a multi-line string from one position on, `skip` of which have been dealt
with. -/
def multilineFrom? (quote : Char) : Nat → List Char → Option (List Char × Nat)
  | _, [] => none
  | n + 1, _ :: cs => (multilineFrom? quote n cs).map fun p => (p.1, p.2 + 1)
  | 0, c :: cs =>
    match closingQuotes? quote (c :: cs) with
    | some n => some (List.replicate (n - 3) quote, n)
    | none =>
      if c = '\\' ∧ quote = '"' then
        match continuation? cs with
        | some n => (multilineFrom? quote n cs).map fun p => (p.1, p.2 + 1)
        | none => do
          let (e, n) ← escape? cs
          (multilineFrom? quote n cs).map fun p => (e :: p.1, p.2 + 1)
      else if c = '\n' || isPlain c then
        (multilineFrom? quote 0 cs).map fun p => (c :: p.1, p.2 + 1)
      else if c = '\r' ∧ cs.head? = some '\n' then
        (multilineFrom? quote 0 cs).map fun p => (p.1, p.2 + 1)
      else none

/-- A multi-line string; a newline right after the opening quotes does not count. -/
def multiline? (quote : Char) (cs : List Char) : Option (List Char × Nat) :=
  multilineFrom? quote ((newline? cs).getD 0) cs

/-- A string of one line with its quotes. -/
def lineString? : List Char → Option (List Char × Nat)
  | '"' :: cs => (basicFrom? 0 cs).map fun p => (p.1, p.2 + 1)
  | '\'' :: cs => (literal? cs).map fun p => (p.1, p.2 + 1)
  | _ => none

/-- A string of either kind with its quotes. -/
def string? : List Char → Option (List Char × Nat)
  | '"' :: '"' :: '"' :: cs => (multiline? '"' cs).map fun p => (p.1, p.2 + 3)
  | '\'' :: '\'' :: '\'' :: cs => (multiline? '\'' cs).map fun p => (p.1, p.2 + 3)
  | cs => lineString? cs

end ScriptShell.Toml

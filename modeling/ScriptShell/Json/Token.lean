import ScriptShell.Double
import ScriptShell.Json.Basic
import ScriptShell.Text.Trim

/-!
The tokens of JSON text. A lexeme is as long as possible; white space separates tokens and is
dropped.
-/

namespace ScriptShell.Json

open Text

inductive Token where
  | openObject
  | closeObject
  | openArray
  | closeArray
  | comma
  | colon
  /-- A string, number or word that is a value by itself. -/
  | scalar (v : Json)

def hexValue? (c : Char) : Option Nat :=
  if '0' ≤ c ∧ c ≤ '9' then some (c.toNat - 48)
  else if 'a' ≤ c ∧ c ≤ 'f' then some (c.toNat - 87)
  else if 'A' ≤ c ∧ c ≤ 'F' then some (c.toNat - 55)
  else none

/-- The number that four hexadecimal digits stand for. -/
def hex4? (a b c d : Char) : Option Nat := do
  some ((((← hexValue? a) * 16 + (← hexValue? b)) * 16 + (← hexValue? c)) * 16 + (← hexValue? d))

/-- The characters that a backslash and one character stand for. -/
def simpleEscape? (c : Char) : Option Char :=
  match c with
  | '"' => some '"'
  | '\\' => some '\\'
  | '/' => some '/'
  | 'b' => some '\x08'
  | 'f' => some '\x0c'
  | 'n' => some '\n'
  | 'r' => some '\r'
  | 't' => some '\t'
  | _ => none

/-- The character of a pair of surrogates. -/
def joinSurrogates (high low : Nat) : Char :=
  Char.ofNat (0x10000 + (high - 0xD800) * 0x400 + (low - 0xDC00))

/-- The rest of a string after its opening quote: its characters and how many characters it took,
the closing quote included. Control characters and lone surrogates are refused. -/
def stringBody? : List Char → Option (List Char × Nat)
  | '"' :: _ => some ([], 1)
  | '\\' :: 'u' :: a :: b :: c :: d :: '\\' :: 'u' :: e :: f :: g :: h :: rest => do
    let high ← hex4? a b c d
    if 0xD800 ≤ high ∧ high < 0xDC00 then
      let low ← hex4? e f g h
      if 0xDC00 ≤ low ∧ low < 0xE000 then
        (stringBody? rest).map fun p => (joinSurrogates high low :: p.1, p.2 + 12)
      else none
    else if 0xDC00 ≤ high ∧ high < 0xE000 then none
    else (stringBody? ('\\' :: 'u' :: e :: f :: g :: h :: rest)).map fun p =>
      (Char.ofNat high :: p.1, p.2 + 6)
  | '\\' :: 'u' :: a :: b :: c :: d :: rest => do
    let n ← hex4? a b c d
    if 0xD800 ≤ n ∧ n < 0xE000 then none
    else (stringBody? rest).map fun p => (Char.ofNat n :: p.1, p.2 + 6)
  | '\\' :: c :: rest => do
    let c ← simpleEscape? c
    (stringBody? rest).map fun p => (c :: p.1, p.2 + 2)
  | c :: rest =>
    if c.toNat < 32 || c == '\\' then none
    else (stringBody? rest).map fun p => (c :: p.1, p.2 + 1)
  | [] => none

def digitsValue (ds : List Char) : Nat := ds.foldl (fun n c => n * 10 + (c.toNat - 48)) 0

/-- A whole number of digits, without a zero in front of others. -/
def wholePart? (cs : List Char) : Option (List Char × List Char) :=
  match cs.takeWhile Char.isDigit with
  | [] => none
  | '0' :: _ :: _ => none
  | ds => some (ds, cs.dropWhile Char.isDigit)

/-- A point and the digits after it; empty without a point. -/
def fraction? (cs : List Char) : Option (List Char × List Char) :=
  match cs with
  | '.' :: rest =>
    match rest.takeWhile Char.isDigit with
    | [] => none
    | ds => some (ds, rest.dropWhile Char.isDigit)
  | _ => some ([], cs)

/-- The sign of an exponent and how many characters it takes. -/
def exponentSign : List Char → Bool × List Char
  | '-' :: rest => (true, rest)
  | '+' :: rest => (false, rest)
  | cs => (false, cs)

/-- An exponent and the rest; zero without one. -/
def exponent? (cs : List Char) : Option (Int × List Char) :=
  match cs with
  | c :: rest =>
    if c == 'e' || c == 'E' then
      let (negative, rest) := exponentSign rest
      match rest.takeWhile Char.isDigit with
      | [] => none
      | ds =>
        let n := digitsValue ds
        some (if negative then -(n : Int) else n, rest.dropWhile Char.isDigit)
    else some (0, cs)
  | [] => some (0, cs)

/-- The largest whole number that is read exactly, and the least one. -/
def maxInt : Int := 18446744073709551615
def minInt : Int := -9223372036854775808

/-- Digits are appended to a number as long as 64 bits hold it; gives the number and the digits that
are left. -/
def appendDigits (n : Nat) : List Char → Nat × List Char
  | [] => (n, [])
  | d :: ds =>
    let m := n * 10 + (d.toNat - 48)
    if m ≤ maxInt then appendDigits m ds else (n, d :: ds)

/-- The significand of whole digits and a fraction, and its exponent: a digit that does not fit
counts as a zero before the point and as nothing after it. -/
def scientific (whole fraction : List Char) : Nat × Int :=
  let (n, zeros) := appendDigits 0 whole
  let (n, dropped) := appendDigits n fraction
  (n, (zeros.length : Int) - (fraction.length - dropped.length : Nat))

/-- A character that numbers are written with. -/
def isNumeric (c : Char) : Bool :=
  c.isDigit || c == '-' || c == '+' || c == '.' || c == 'e' || c == 'E'

/-- A number and how many characters it takes. -/
def number? (cs : List Char) : Option (Json × Nat) := do
  let (negative, start) := match cs with
    | '-' :: rest => (true, rest)
    | _ => (false, cs)
  let (whole, rest) ← wholePart? start
  let (fraction, rest') ← fraction? rest
  let (exponent, rest'') ← exponent? rest'
  let length := cs.length - rest''.length
  let n : Int := if negative then -(digitsValue whole : Int) else digitsValue whole
  if rest''.length = rest.length && minInt ≤ n && n ≤ maxInt && !(negative && n == 0) then
    some (.int n, length)
  else
    let (significand, scale) := scientific whole fraction
    if Double.productIsFinite significand (exponent + scale) then
      some (.real negative significand (exponent + scale), length)
    else none

def isBlank (c : Char) : Bool := c == ' ' || c == '\n' || c == '\r' || c == '\t'

/-- The words that are values. -/
def words : List (List Char × Json) :=
  [("null".toList, .null), ("true".toList, .bool true), ("false".toList, .bool false)]

/-- The token at the start of a text and how many characters it takes; no token for a blank. -/
def lexeme? (cs : List Char) : Option (Option Token × Nat) :=
  match cs with
  | [] => none
  | c :: rest =>
    if isBlank c then some (none, 1)
    else match c with
      | '\x7b' => some (some .openObject, 1)
      | '\x7d' => some (some .closeObject, 1)
      | '[' => some (some .openArray, 1)
      | ']' => some (some .closeArray, 1)
      | ',' => some (some .comma, 1)
      | ':' => some (some .colon, 1)
      | '"' => (stringBody? rest).map fun p => (some (.scalar (.str (String.ofList p.1))), p.2 + 1)
      | _ =>
        match words.find? fun w => (dropPrefix? w.1 cs).isSome with
        | some (word, v) => some (some (.scalar v), word.length)
        | none => (number? (cs.takeWhile isNumeric)).map fun p => (some (.scalar p.1), p.2)

/-- The tokens of a text from the point where `skip` more characters belong to the last one. -/
def tokensFrom? : Nat → List Char → Option (List Token)
  | 0, [] => some []
  | _ + 1, [] => none
  | n + 1, _ :: cs => tokensFrom? n cs
  | 0, c :: cs => do
    let (token, n) ← lexeme? (c :: cs)
    let rest ← tokensFrom? (n - 1) cs
    some (token.toList ++ rest)

def tokens? (cs : List Char) : Option (List Token) := tokensFrom? 0 cs

end ScriptShell.Json

import ScriptShell.Double
import ScriptShell.Toml.Basic
import ScriptShell.Toml.Quoted

/-!
Numbers, dates and times of configuration files. Each reader takes the longest form at the start of
a text and gives it with the text after it.
-/

namespace ScriptShell.Toml

open Text

/-- A sign, if there is one, and the rest. -/
def sign : List Char → List Char × List Char
  | '+' :: cs => (['+'], cs)
  | '-' :: cs => (['-'], cs)
  | cs => ([], cs)

/-- Digits with single underscores between them, `afterDigit` telling whether one has just been
read; `none` when an underscore stands anywhere else. -/
def digitRun? (isDigit : Char → Bool) : Bool → List Char → Option (List Char × List Char)
  | _, [] => some ([], [])
  | afterDigit, c :: cs =>
    if isDigit c then (digitRun? isDigit true cs).map fun p => (c :: p.1, p.2)
    else if c = '_' ∧ afterDigit then
      if cs.head?.any isDigit then digitRun? isDigit false cs else none
    else some ([], c :: cs)

/-- At least one digit. -/
def digits? (isDigit : Char → Bool) (cs : List Char) : Option (List Char × List Char) :=
  match digitRun? isDigit false cs with
  | some (d :: ds, rest) => some (d :: ds, rest)
  | _ => none

/-- A decimal whole number without its sign; a zero stands alone. -/
def decimal? (cs : List Char) : Option (List Char × List Char) :=
  match cs with
  | '0' :: rest => some (['0'], rest)
  | _ => digits? Char.isDigit cs

def radixValue (radix : Nat) (ds : List Char) : Nat :=
  ds.foldl (fun n c => n * radix + (Json.hexValue? c).getD 0) 0

def isHex (c : Char) : Bool := (Json.hexValue? c).isSome
def isOctal (c : Char) : Bool := '0' ≤ c && c ≤ '7'
def isBinary (c : Char) : Bool := c == '0' || c == '1'

def maxInteger : Int := 9223372036854775807
def minInteger : Int := -9223372036854775808

def checked? (n : Int) (rest : List Char) : Option (Toml × List Char) :=
  if minInteger ≤ n ∧ n ≤ maxInteger then some (.integer n, rest) else none

def radixInteger? (radix : Nat) (isDigit : Char → Bool) (cs : List Char) :
    Option (Toml × List Char) := do
  let (ds, rest) ← digits? isDigit cs
  checked? (radixValue radix ds) rest

def integer? : List Char → Option (Toml × List Char)
  | '0' :: 'x' :: cs => radixInteger? 16 isHex cs
  | '0' :: 'o' :: cs => radixInteger? 8 isOctal cs
  | '0' :: 'b' :: cs => radixInteger? 2 isBinary cs
  | cs => do
    let (s, cs) := sign cs
    let (ds, rest) ← decimal? cs
    let n : Int := Json.digitsValue ds
    checked? (if s = ['-'] then -n else n) rest

/-- The fraction of a floating-point number: a point and digits. -/
def fraction? : List Char → Option (List Char × List Char)
  | '.' :: cs => digits? Char.isDigit cs
  | _ => none

/-- The exponent of a floating-point number: sign and digits. -/
def exponent? : List Char → Option ((List Char × List Char) × List Char)
  | c :: cs =>
    if c = 'e' ∨ c = 'E' then do
      let (s, cs) := sign cs
      let (ds, rest) ← digits? Char.isDigit cs
      some ((s, ds), rest)
    else none
  | [] => none

/-- An infinity or a not-a-number, the sign aside. -/
def special? (cs : List Char) : Option (List Char × List Char) :=
  [['i', 'n', 'f'], ['n', 'a', 'n']].findSome? fun word =>
    (dropPrefix? word cs).map fun rest => (word, rest)

/-- A floating-point number; a positive one may not be too large. -/
def float? (cs : List Char) : Option (Toml × List Char) := do
  let (s, start) := sign cs
  match special? start with
  | some (word, rest) => some (.float (String.ofList (s ++ word)), rest)
  | none =>
    let (whole, rest) ← decimal? start
    let (fraction, rest) := (fraction? rest).getD ([], rest)
    let (exponent, rest') := match exponent? rest with
      | some (e, rest) => (some e, rest)
      | none => (none, rest)
    if fraction.isEmpty && exponent.isNone then none
    let (es, ds) := exponent.getD ([], [])
    let e : Int := Json.digitsValue ds
    let power := (if es = ['-'] then -e else e) - fraction.length
    if s ≠ ['-'] && !Double.isFinite (Json.digitsValue (whole ++ fraction)) power then none
    some (.float (String.ofList (cs.take (cs.length - rest'.length))), rest')

/-- A number of `n` digits within bounds. -/
def fixed? (n low high : Nat) (cs : List Char) : Option (Nat × List Char) :=
  let ds := cs.take n
  let value := Json.digitsValue ds
  if ds.length = n ∧ ds.all Char.isDigit ∧ low ≤ value ∧ value ≤ high then some (value, cs.drop n)
  else none

def daysInMonth (year month : Nat) : Nat :=
  if month = 2 then
    if year % 4 = 0 ∧ (year % 100 ≠ 0 ∨ year % 400 = 0) then 29 else 28
  else if month = 4 ∨ month = 6 ∨ month = 9 ∨ month = 11 then 30
  else 31

def day? (cs : List Char) : Option (List Char) := do
  let (year, cs) ← fixed? 4 0 9999 cs
  let cs ← dropPrefix? ['-'] cs
  let (month, cs) ← fixed? 2 1 12 cs
  let cs ← dropPrefix? ['-'] cs
  let (_, cs) ← fixed? 2 1 (daysInMonth year month) cs
  some cs

def time? (cs : List Char) : Option (List Char) := do
  let (_, cs) ← fixed? 2 0 23 cs
  let cs ← dropPrefix? [':'] cs
  let (_, cs) ← fixed? 2 0 59 cs
  let cs ← dropPrefix? [':'] cs
  let (_, cs) ← fixed? 2 0 60 cs
  match cs with
  | '.' :: c :: rest => some (if c.isDigit then (c :: rest).dropWhile Char.isDigit else cs)
  | _ => some cs

/-- What follows a time's offset, which may be absent. -/
def afterOffset (cs : List Char) : List Char :=
  match cs with
  | 'Z' :: rest | 'z' :: rest => rest
  | c :: rest =>
    if c = '+' ∨ c = '-' then
      (do
        let (_, rest) ← fixed? 2 0 23 rest
        let rest ← dropPrefix? [':'] rest
        let (_, rest) ← fixed? 2 0 59 rest
        some rest : Option (List Char)).getD cs
    else cs
  | [] => []

/-- What follows a date, a time or both. -/
def afterDate? (cs : List Char) : Option (List Char) :=
  match day? cs with
  | some rest =>
    match rest with
    | c :: after =>
      if c = 'T' ∨ c = 't' ∨ c = ' ' then
        match time? after with
        | some rest => some (afterOffset rest)
        | none => some rest
      else some rest
    | [] => some []
  | none => time? cs

def date? (cs : List Char) : Option (Toml × List Char) :=
  (afterDate? cs).map fun rest =>
    (.date (String.ofList (cs.take (cs.length - rest.length))), rest)

def truth? (cs : List Char) : Option (Toml × List Char) :=
  [("true".toList, true), ("false".toList, false)].findSome? fun (word, b) =>
    (dropPrefix? word cs).map fun rest => (.boolean b, rest)

/-- A character that numbers, dates and truth values are written with. -/
def isScalar (c : Char) : Bool :=
  c.isAlphanum || c == '+' || c == '-' || c == '.' || c == '_' || c == ':' || c == ' '

/-- A value that is neither an array nor a table, and how many characters it takes. -/
def scalarValue? (cs : List Char) : Option (Toml × Nat) :=
  match cs with
  | [] => none
  | c :: _ =>
    if c = '"' ∨ c = '\'' then (string? cs).map fun p => (.text (String.ofList p.1), p.2)
    else
      let run := cs.takeWhile isScalar
      (date? run <|> float? run <|> integer? run <|> truth? run).map fun p =>
        (p.1, run.length - p.2.length)

end ScriptShell.Toml

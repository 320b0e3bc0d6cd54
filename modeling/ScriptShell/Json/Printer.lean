import ScriptShell.Json.Basic

/-!
The compact text of a JSON document: no blanks, fields in order, and in strings nothing escaped but
quotes, backslashes and control characters.
-/

namespace ScriptShell.Json

def hexDigit (n : Nat) : Char := (Nat.toDigits 16 n).headD '0'

/-- One character of a string. -/
def escapeChar (c : Char) : List Char :=
  if c = '"' then ['\\', '"']
  else if c = '\\' then ['\\', '\\']
  else if c = '\x08' then ['\\', 'b']
  else if c = '\x0c' then ['\\', 'f']
  else if c = '\n' then ['\\', 'n']
  else if c = '\r' then ['\\', 'r']
  else if c = '\t' then ['\\', 't']
  else if c.toNat < 32 then ['\\', 'u', '0', '0', hexDigit (c.toNat / 16), hexDigit (c.toNat % 16)]
  else [c]

def escape (cs : List Char) : List Char := cs.flatMap escapeChar

def printString (s : String) : List Char := '"' :: escape s.toList ++ ['"']

mutual

def print : Json → List Char
  | .null => "null".toList
  | .bool b => (if b then "true" else "false").toList
  | .int n => (toString n).toList
  | .real negative significand exponent =>
    (if negative then ['-'] else []) ++ (toString significand ++ "e" ++ toString exponent).toList
  | .str s => printString s
  | .arr items => '[' :: printItems items ++ [']']
  | .obj fields => '\x7b' :: printFields fields ++ ['\x7d']

def printItems : List Json → List Char
  | [] => []
  | [v] => print v
  | v :: w :: rest => print v ++ ',' :: printItems (w :: rest)

def printFields : List (String × Json) → List Char
  | [] => []
  | [(name, v)] => printString name ++ ':' :: print v
  | (name, v) :: next :: rest =>
    printString name ++ ':' :: print v ++ ',' :: printFields (next :: rest)

end

def render (v : Json) : String := String.ofList (print v)

end ScriptShell.Json

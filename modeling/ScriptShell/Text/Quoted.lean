import ScriptShell.Text.Char

/-!
The quoted form of a text in diagnostics: between double quotes, with quotes, backslashes and
characters without a visible form of their own written as escapes.
-/

namespace ScriptShell.Text

def hexDigits (n : Nat) : List Char := Nat.toDigits 16 n

/-- A character by its code point. -/
def escapeCodePoint (n : Nat) : List Char := ['\\', 'u', '\x7b'] ++ hexDigits n ++ ['\x7d']

/-- One character inside the quotes. -/
def quotedChar (c : Char) : List Char :=
  if c = '"' || c = '\\' then ['\\', c]
  else if c = '\n' then ['\\', 'n']
  else if c = '\r' then ['\\', 'r']
  else if c = '\t' then ['\\', 't']
  else if c = '\x00' then ['\\', '0']
  else if isUnprintable c then escapeCodePoint c.toNat
  else [c]

end ScriptShell.Text

namespace ScriptShell

/-- A text in double quotes, as diagnostics show it. -/
def quoted (s : String) : String :=
  "\"" ++ String.ofList (s.toList.flatMap Text.quotedChar) ++ "\""

end ScriptShell

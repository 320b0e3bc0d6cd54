import ScriptShell.Host.Response
import ScriptShell.Json.Parser
import ScriptShell.Text.Trim

/-!
Answers among other output. An answer is a marker and a JSON document on one line; the host writes a
newline before the marker, and any other text before the marker is output.
-/

namespace ScriptShell.Frame

open Text

def marker : List Char := "@@scriptify@@ ".toList

/-- The text before the first occurrence of `part` and the text after it. -/
def cutAt? (part : List Char) : List Char → Option (List Char × List Char)
  | [] => (dropPrefix? part []).map fun rest => ([], rest)
  | c :: cs =>
    match dropPrefix? part (c :: cs) with
    | some rest => some ([], rest)
    | none => (cutAt? part cs).map fun p => (c :: p.1, p.2)

def isLineEnd (c : Char) : Bool := c == '\r' || c == '\n'

/-- Read one line: nothing without a marker; else the text before the marker, and the answer unless
what follows the marker is none. -/
def decodeLine? (line : List Char) : Option (List Char × Option Response) :=
  (cutAt? marker (dropEndWhile isLineEnd line)).map fun p =>
    (p.1, (Json.parse? (String.ofList p.2)).bind Response.ofJson?)

end ScriptShell.Frame

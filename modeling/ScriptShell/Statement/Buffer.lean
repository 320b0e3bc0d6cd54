import ScriptShell.Statement.Balance
import ScriptShell.Text.Trim

/-!
The statement buffer gathers lines until their text is closed: no kind of bracket is left open and,
for interactive input, both kinds of unescaped quotes are even in number.
-/

namespace ScriptShell

/-- What has to be closed before a unit is complete. -/
inductive Closing where
  | bracketsAndQuotes
  | bracketsOnly
deriving DecidableEq, Repr

/-- The text leaves nothing open. -/
def Closing.closed (mode : Closing) (cs : List Char) : Bool :=
  !(Balance.of cs).anyOpen &&
    match mode with
    | .bracketsOnly => true
    | .bracketsAndQuotes => countUnescaped '\'' cs % 2 == 0 && countUnescaped '"' cs % 2 == 0

/-- The answer to one more line. -/
inductive Feed where
  | incomplete
  | complete (unit : String)
  | blank
deriving DecidableEq, Repr

structure StatementBuffer where
  closing : Closing := .bracketsAndQuotes
  pending : String := ""
deriving DecidableEq, Repr

namespace StatementBuffer

/-- Append a line; a closed text leaves the buffer as a trimmed unit, or as nothing if blank. -/
def feed (b : StatementBuffer) (line : String) : Feed × StatementBuffer :=
  let text := b.pending ++ line ++ "\n"
  if b.closing.closed text.toList then
    let unit := trim text
    (if unit = "" then .blank else .complete unit, { b with pending := "" })
  else (.incomplete, { b with pending := text })

def isEmpty (b : StatementBuffer) : Bool := b.pending = ""

def clear (b : StatementBuffer) : StatementBuffer := { b with pending := "" }

/-- Take out whatever is pending, trimmed. -/
def takeRemainder (b : StatementBuffer) : Option String × StatementBuffer :=
  let rest := trim b.pending
  (if rest = "" then none else some rest, b.clear)

end StatementBuffer

end ScriptShell

/-!
Text in styles, which are written out only in colour.
-/

namespace ScriptShell.CommandLine

inductive Style where
  | plain
  /-- Bold and underlined. -/
  | heading
  /-- Bold: what is typed as it stands. -/
  | literal
deriving DecidableEq, Repr

structure Span where
  style : Style
  text : String
deriving DecidableEq, Repr

namespace Span

def plain (text : String) : Span := ⟨.plain, text⟩
def heading (text : String) : Span := ⟨.heading, text⟩
def literal (text : String) : Span := ⟨.literal, text⟩

/-- What switches a style on. -/
def opening : Style → String
  | .plain => ""
  | .heading => "\x1b[1m\x1b[4m"
  | .literal => "\x1b[1m"

/-- What switches a style off. -/
def closing : Style → String
  | .plain => ""
  | .heading | .literal => "\x1b[0m"

def render (colored : Bool) (s : Span) : String :=
  if colored then opening s.style ++ s.text ++ closing s.style else s.text

/-- Spans in a row. -/
def renderAll (colored : Bool) : List Span → String
  | [] => ""
  | s :: spans => s.render colored ++ renderAll colored spans

/-- How many characters of a row are seen. -/
def width : List Span → Nat
  | [] => 0
  | s :: spans => s.text.length + width spans

end Span

end ScriptShell.CommandLine

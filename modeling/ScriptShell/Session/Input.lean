import ScriptShell.Error
import ScriptShell.Text.Bytes
import ScriptShell.Text.Cluster

/-!
Where a session reads its lines from, and the history of what was read. Text from a pipe is cut into
lines as a file is; the line editor also takes backspaces into account.
-/

namespace ScriptShell

open Text

/-- One read, short of the end of input. -/
inductive ReadEvent where
  | line (text : String)
  /-- The entry was given up. -/
  | interrupted
  | failed (cause : IoError)
deriving DecidableEq, Repr

/-- Which lines a history keeps. -/
inductive Recall where
  | everything
  /-- The last lines, up to a number of them. -/
  | last (limit : Nat)
  /-- The same, but neither empty lines, nor lines that start with white space, nor a line like the
  one before. -/
  | distinct (limit : Nat)
deriving DecidableEq, Repr

/-- The lines kept so far, oldest first. -/
structure History where
  kept : Recall := .everything
  lines : List String := []
deriving DecidableEq, Repr

namespace History

def defaultLimit : Nat := 1000

/-- The last `n` items of a list. -/
def lastOf {α : Type} (n : Nat) (xs : List α) : List α := xs.drop (xs.length - n)

/-- A line that the editor does not keep. -/
def isIgnored (line : String) (lines : List String) : Bool :=
  line.toList.head?.all isSpace || lines.getLast? = some line

def add (h : History) (line : String) : History :=
  match h.kept with
  | .everything => { h with lines := h.lines ++ [line] }
  | .last limit => { h with lines := lastOf limit (h.lines ++ [line]) }
  | .distinct limit =>
    if isIgnored line h.lines then h else { h with lines := lastOf limit (h.lines ++ [line]) }

end History

/-- A source of lines: what it will yield before the end of input, what it remembers, and the
prompts it was given, oldest first. -/
structure LineSource where
  upcoming : List ReadEvent
  history : History := {}
  prompts : List String := []
deriving DecidableEq, Repr

namespace LineSource

/-- The line that a piece of a byte stream stands for. -/
def eventOfPiece (piece : List UInt8 × Bool) : ReadEvent :=
  match decodeUtf8? piece.1 with
  | some cs => .line (String.ofList (lineOfPiece (cs, piece.2)))
  | none => .failed .invalidEncoding

/-- The reads that a byte stream gives. -/
def eventsOfBytes (bytes : List UInt8) : List ReadEvent := (pieces 10 bytes).map eventOfPiece

/-- Lines from a pipe. -/
def ofBytes (bytes : List UInt8) : LineSource :=
  { upcoming := eventsOfBytes bytes, history := { kept := .last History.defaultLimit } }

/-- A line while its backspaces are carried out: its characters and the sizes of its visible units,
both backwards. -/
structure Typed where
  back : List Char := []
  sizes : List Nat := []
deriving DecidableEq, Repr

/-- The number of bytes of a visible unit, which the editor keeps in one byte. -/
def unitSize (unit : List Char) : Nat := byteLength unit % 256

/-- Put a visible unit behind the others, or take the last one away for a backspace; `none` when
that would cut a character apart. -/
def typeUnit? (t : Typed) (unit : List Char) : Option Typed :=
  if unit = ['\x08'] then
    match t.sizes with
    | [] => some t
    | size :: sizes => (splitAtByte? size t.back).map fun p => { back := p.2, sizes }
  else some { back := unit.reverse ++ t.back, sizes := unitSize unit :: t.sizes }

/-- Carry out the backspaces of a line. -/
def applyBackspaces? (line : List Char) : Option (List Char) :=
  ((clusters line).foldlM typeUnit? {}).map fun t => t.back.reverse

/-- What the line editor makes of reads, up to the first that fails. -/
def editedEvents? : List ReadEvent → Option (List ReadEvent)
  | [] => some []
  | .line text :: rest => do
    let line ← applyBackspaces? text.toList
    some (.line (String.ofList line) :: (← editedEvents? rest))
  | .interrupted :: rest => (editedEvents? rest).map (.interrupted :: ·)
  | .failed cause :: _ => some [.failed cause]

/-- Lines that the line editor reads from a pipe, with a history of its own; `none` when a backspace
in them would cut a character apart. -/
def editor? (bytes : List UInt8) (limit : Nat) : Option LineSource :=
  (editedEvents? (eventsOfBytes bytes)).map fun upcoming =>
    { upcoming, history := { kept := .distinct limit } }

end LineSource

end ScriptShell

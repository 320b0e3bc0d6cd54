import ScriptShell.Text.Trim

/-!
Lines of a text. A line ends at a newline, and one carriage return before that newline belongs to
the ending; a last line without a newline is kept whole.
-/

namespace ScriptShell.Text

/-- Cut after every `sep`; the flag says whether the piece was closed by one. -/
def pieces {α : Type} [DecidableEq α] (sep : α) : List α → List (List α × Bool)
  | [] => []
  | c :: cs =>
    if c = sep then ([], true) :: pieces sep cs
    else match pieces sep cs with
      | [] => [([c], false)]
      | (p, closed) :: ps => (c :: p, closed) :: ps

/-- Without one carriage return at the end. -/
def dropReturn (cs : List Char) : List Char := (dropSuffix? ['\r'] cs).getD cs

/-- The line that a piece stands for. -/
def lineOfPiece (p : List Char × Bool) : List Char := if p.2 then dropReturn p.1 else p.1

def lines (cs : List Char) : List (List Char) := (pieces '\n' cs).map lineOfPiece

/-- The text that pieces were cut from. -/
def joinPieces {α : Type} (sep : α) : List (List α × Bool) → List α
  | [] => []
  | (p, closed) :: ps => p ++ (if closed then [sep] else []) ++ joinPieces sep ps

theorem joinPieces_pieces {α : Type} [DecidableEq α] (sep : α) (cs : List α) :
    joinPieces sep (pieces sep cs) = cs := by
  induction cs with
  | nil => rfl
  | cons c cs ih =>
    by_cases hc : c = sep
    · simp [pieces, joinPieces, hc, ih]
    · simp only [pieces, hc, ↓reduceIte]
      split
      · next h => rw [h] at ih; simp [joinPieces, ← ih]
      · next p closed ps h => rw [h] at ih; rw [← ih]; simp [joinPieces]

end ScriptShell.Text

namespace ScriptShell

/-- The lines of a text. -/
def lines (s : String) : List String := (Text.lines s.toList).map String.ofList

end ScriptShell

import ScriptShell.Statement.Buffer

/-!
The lines that a statement buffer gathers. What is pending is always the text of the lines fed since
the buffer was last empty, so a feed can be read off these lines.
-/

namespace ScriptShell

/-- The text of lines, each closed by a newline. -/
def gathered (texts : List String) : String :=
  texts.foldl (fun text line => text ++ line ++ "\n") ""

theorem gathered_snoc (texts : List String) (line : String) :
    gathered (texts ++ [line]) = gathered texts ++ line ++ "\n" := by
  rw [gathered, List.foldl_append]
  rfl

/-- The lines leave nothing open. -/
def Closing.closes (mode : Closing) (texts : List String) : Bool :=
  mode.closed (gathered texts).toList

/-- The trimmed units that lines form when some are pending already, each of them ending with the
first line that leaves nothing open, and the lines that are left open. -/
def Closing.cut (mode : Closing) : List String → List String → List String × List String
  | pending, [] => ([], pending)
  | pending, line :: rest =>
    if mode.closes (pending ++ [line]) then
      let (units, left) := mode.cut [] rest
      (trim (gathered (pending ++ [line])) :: units, left)
    else mode.cut (pending ++ [line]) rest

theorem Closing.cut_of_open {mode : Closing} {pending : List String} {line : String}
    (h : mode.closes (pending ++ [line]) = false) (rest : List String) :
    mode.cut pending (line :: rest) = mode.cut (pending ++ [line]) rest := by
  rw [cut, if_neg (Bool.eq_false_iff.mp h)]

theorem Closing.cut_of_closed {mode : Closing} {pending : List String} {line : String}
    (h : mode.closes (pending ++ [line]) = true) (rest : List String) :
    mode.cut pending (line :: rest) =
      (trim (gathered (pending ++ [line])) :: (mode.cut [] rest).1, (mode.cut [] rest).2) := by
  rw [cut, if_pos h]

namespace StatementBuffer

/-- A buffer in which these lines are pending. -/
def holding (mode : Closing) (texts : List String) : StatementBuffer :=
  { closing := mode, pending := gathered texts }

theorem feed_holding_of_open {mode : Closing} {texts : List String} {line : String}
    (h : mode.closes (texts ++ [line]) = false) :
    (holding mode texts).feed line = (.incomplete, holding mode (texts ++ [line])) := by
  unfold feed
  simp only [holding, ← gathered_snoc]
  rw [Closing.closes] at h
  rw [h]
  rfl

theorem feed_holding_of_closed {mode : Closing} {texts : List String} {line : String}
    (h : mode.closes (texts ++ [line]) = true) :
    (holding mode texts).feed line =
      (if trim (gathered (texts ++ [line])) = "" then .blank
        else .complete (trim (gathered (texts ++ [line]))), holding mode []) := by
  unfold feed
  simp only [holding, ← gathered_snoc]
  rw [Closing.closes] at h
  rw [h]
  rfl

/-- What is left at the end, if it is not blank. -/
theorem takeRemainder_holding (mode : Closing) (texts : List String) :
    (holding mode texts).takeRemainder.1 =
      if trim (gathered texts) = "" then none else some (trim (gathered texts)) := by
  unfold takeRemainder holding
  dsimp only

end StatementBuffer

end ScriptShell

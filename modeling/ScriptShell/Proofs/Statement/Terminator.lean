import ScriptShell.Statement.Expression
import ScriptShell.Proofs.Text.Region

/-!
Where the terminator of a wrapped expression ends up. The last character of a unit alone decides that
it is wrapped, and the terminator is put right behind it, so it belongs to whatever the unit has left
open. A remark in the last line swallows it.
-/

namespace ScriptShell

/-- A bare expression keeps its regions when it is wrapped, and the terminator joins the one that it
leaves off in. That is a remark exactly if one is opened in code and neither a newline nor a closing
tag follows. -/
theorem wrapExpression_marked {unit : String} (h : endsStatement unit = false) :
    Region.marked (wrapExpression unit).toList =
      "return (".toList.map (·, Region.code) ++ Region.marked unit.toList ++
        ");".toList.map (·, Region.atEnd unit.toList) ∧
    (Region.atEnd unit.toList = .remark ↔ ∃ front remark, unit.toList = front ++ remark ∧
      Region.atEnd front = .code ∧ Region.OpensRemark remark ∧ Region.StaysOpen remark) := by
  have hlead : ∀ c ∈ "return (".toList, Region.IsInert c := Region.isInert_of_all (by decide)
  have htail : ∀ c ∈ ");".toList, Region.IsInert c := Region.isInert_of_all (by decide)
  have hcode : (wrapExpression unit).toList =
      "return (".toList ++ (unit.toList ++ ");".toList) := by
    rw [wrapExpression, if_neg (Bool.eq_false_iff.mp h), String.toList_append,
      String.toList_append, List.append_assoc]
  refine ⟨?_, Region.atEnd_eq_remark_iff⟩
  rw [Region.marked, hcode, Region.read_inert_append hlead, Region.read_append_inert htail,
    List.append_assoc]
  rfl

/-- Marks of remarks in a string and in a comment are passed over, the one behind them counts, and
the quote in it opens nothing. -/
theorem wrapExpression_marked_remark :
    let unit := "f('//') /* # */ # it's"
    endsStatement unit = false ∧ (Region.marked (wrapExpression unit).toList).getLast? =
      some (';', .remark) := by
  intro unit
  have h : endsStatement unit = false := by decide
  refine ⟨h, ?_⟩
  have hend : Region.atEnd unit.toList = .remark :=
    (wrapExpression_marked h).2.mpr
      ⟨"f('//') /* # */ ".toList, "# it's".toList, by decide, by decide +kernel,
        by decide, by decide +kernel⟩
  rw [(wrapExpression_marked h).1, hend]
  decide

/-- The terminator of an expression with a remark behind it is part of the remark. -/
theorem terminator_in_remark :
    let unit := "1 // x"
    endsStatement unit = false ∧ wrapExpression unit = "return (1 // x);" ∧
      Region.atEnd unit.toList ∉ [.single, .double, .block] ∧
      Region.marked (wrapExpression unit).toList =
        "return (1 ".toList.map (·, .code) ++ "// x);".toList.map (·, .remark) := by
  decide

end ScriptShell

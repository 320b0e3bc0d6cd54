import Mathlib.Data.List.DropRight
import ScriptShell.Text.Char
import ScriptShell.Text.Trim

/-!
Facts about words: maximal runs of word characters, which white space and marks end.
-/

namespace ScriptShell.Text

/-- The code points of the characters with the property White_Space. -/
def spacePoints : List Nat :=
  [0x9, 0xA, 0xB, 0xC, 0xD, 0x20, 0x85, 0xA0, 0x1680, 0x2000, 0x2001, 0x2002, 0x2003, 0x2004,
   0x2005, 0x2006, 0x2007, 0x2008, 0x2009, 0x200A, 0x2028, 0x2029, 0x202F, 0x205F, 0x3000]

theorem toNat_mem_spacePoints {c : Char} (h : isSpace c = true) : c.toNat ∈ spacePoints := by
  unfold isSpace inRanges spaceRanges at h
  simp only [List.any_cons, List.any_nil, Bool.or_false, Bool.or_eq_true, Bool.and_eq_true,
    decide_eq_true_eq] at h
  simp only [spacePoints, List.mem_cons, List.not_mem_nil, or_false]
  omega

theorem not_isWord_of_isSpace {c : Char} (h : isSpace c = true) : isWord c = false := by
  have hall : ∀ n ∈ spacePoints, isWord (Char.ofNat n) = false := by decide +kernel
  have hc := hall c.toNat (toNat_mem_spacePoints h)
  rw [Char.ofNat_toNat] at hc
  exact hc

theorem ne_of_isWord {c d : Char} (hc : isWord c = true) (hd : isWord d = false) : c ≠ d := by
  intro h
  rw [h, hd] at hc
  exact Bool.false_ne_true hc

theorem not_isSpace_of_isWord {c : Char} (h : isWord c = true) : isSpace c = false := by
  rw [Bool.eq_false_iff]
  intro hs
  rw [not_isWord_of_isSpace hs] at h
  exact Bool.false_ne_true h

theorem spaceless_of_all {cs : List Char} (h : (cs.all fun c => !isSpace c) = true) :
    ∀ c ∈ cs, isSpace c = false := by
  intro c hc
  exact (Bool.not_eq_true' _).mp (List.all_eq_true.mp h c hc)

/-- What stands behind the longest run at the start of a list does not go on with it. -/
theorem head?_any_dropWhile {α : Type} (p : α → Bool) (cs : List α) :
    (cs.dropWhile p).head?.any p = false := by
  have hnot := List.head?_dropWhile_not p cs
  cases hd : (cs.dropWhile p).head? with
  | none => rfl
  | some c =>
    rw [hd] at hnot
    exact hnot

/-- What follows a text adds nothing to a run in it, unless it goes on with the run. -/
theorem takeWhile_append_of_boundary {α : Type} {p : α → Bool} (a : List α) {b : List α}
    (h : b.head?.any p = false) : (a ++ b).takeWhile p = a.takeWhile p := by
  induction a with
  | nil =>
    cases b with
    | nil => rfl
    | cons c b =>
      have hc : ¬p c = true := Bool.eq_false_iff.mp h
      rw [List.nil_append, List.takeWhile_cons_of_neg hc, List.takeWhile_nil]
  | cons c a ih =>
    rw [List.cons_append, List.takeWhile_cons, List.takeWhile_cons, ih]

theorem dropWhile_append_of_boundary {α : Type} {p : α → Bool} (a : List α) {b : List α}
    (h : b.head?.any p = false) : (a ++ b).dropWhile p = a.dropWhile p ++ b := by
  apply @List.append_cancel_left _ (a.takeWhile p)
  rw [← takeWhile_append_of_boundary a h, List.takeWhile_append_dropWhile,
    takeWhile_append_of_boundary a h, ← List.append_assoc, List.takeWhile_append_dropWhile]

theorem isNameStart_head?_takeWhile (cs : List Char) :
    (cs.takeWhile isWord).head?.any isNameStart = cs.head?.any isNameStart := by
  cases cs with
  | nil => rfl
  | cons c cs =>
    by_cases hc : isWord c = true
    · rw [List.takeWhile_cons_of_pos hc]
      rfl
    · have hn : isNameStart c = false := by
        rw [Bool.eq_false_iff]
        exact fun hs => hc (isWord_of_isNameStart hs)
      rw [List.takeWhile_cons_of_neg hc]
      exact hn.symm

end ScriptShell.Text

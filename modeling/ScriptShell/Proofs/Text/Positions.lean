import ScriptShell.Text.Bytes

/-!
Texts between byte positions, and texts that differ in the case of ASCII letters alone. Such texts
have the same number of bytes, so a position in one is a position in the other.
-/

namespace ScriptShell.Text

theorem splitAtByte?_eq_some_iff {n : Nat} {cs a b : List Char} :
    splitAtByte? n cs = some (a, b) ↔ cs = a ++ b ∧ byteLength a = n := by
  constructor
  · exact eq_of_splitAtByte?
  · rintro ⟨rfl, rfl⟩
    exact splitAtByte?_append a b

/-- At the bound of a character nothing is rounded. -/
theorem takeBytes_append (a b : List Char) : takeBytes (byteLength a) (a ++ b) = a := by
  induction a with
  | nil =>
    cases b with
    | nil => rfl
    | cons c b =>
      have hc : ¬c.utf8Size ≤ 0 := by
        have hpos := Char.utf8Size_pos c
        omega
      rw [List.nil_append, byteLength, takeBytes, if_neg hc]
  | cons c a ih =>
    have hle : c.utf8Size ≤ byteLength (c :: a) := by
      rw [byteLength]
      omega
    have hsub : byteLength (c :: a) - c.utf8Size = byteLength a := by
      rw [byteLength]
      omega
    rw [List.cons_append, takeBytes, if_pos hle, hsub, ih]

/-- The text between two byte positions; `none` off the bounds of characters. -/
def slice? (start stop : Nat) (cs : List Char) : Option (List Char) := do
  let (front, _) ← splitAtByte? stop cs
  let (_, part) ← splitAtByte? start front
  some part

theorem slice?_append (a b c : List Char) :
    slice? (byteLength a) (byteLength a + byteLength b) (a ++ b ++ c) = some b := by
  have hfront : splitAtByte? (byteLength a + byteLength b) (a ++ b ++ c) = some (a ++ b, c) := by
    rw [← byteLength_append]
    exact splitAtByte?_append (a ++ b) c
  unfold slice?
  rw [hfront]
  simp only [Option.bind_eq_bind, Option.bind_some, splitAtByte?_append]

/-- The same text but for the case of ASCII letters. -/
def Alike (a b : List Char) : Prop := a.map Char.toLower = b.map Char.toLower

instance (a b : List Char) : Decidable (Alike a b) :=
  inferInstanceAs (Decidable (a.map Char.toLower = b.map Char.toLower))

theorem Alike.symm {a b : List Char} (h : Alike a b) : Alike b a := Eq.symm h

/-- The case of a letter makes no difference to its number of bytes: a capital and its small letter
are both below 128. -/
theorem utf8Size_toLower (c : Char) : c.toLower.utf8Size = c.utf8Size := by
  unfold Char.toLower
  split
  · next h =>
    have hupper : c.val.toNat ≤ 90 := UInt32.le_iff_toNat_le.mp h.2
    have hlower : (c.val + ('a'.val - 'A'.val)).toNat = c.val.toNat + 32 := by
      rw [UInt32.toNat_add]
      have hstep : ('a'.val - 'A'.val).toNat = 32 := by decide
      omega
    have hone : c.utf8Size = 1 := by
      apply Char.utf8Size_eq_one_iff.mpr
      apply UInt32.le_iff_toNat_le.mpr
      exact Nat.le_trans hupper (by decide)
    rw [hone]
    apply Char.utf8Size_eq_one_iff.mpr
    apply UInt32.le_iff_toNat_le.mpr
    rw [hlower]
    exact Nat.le_trans (Nat.add_le_add_right hupper 32) (by decide)
  · rfl

theorem byteLength_map {f : Char → Char} (hf : ∀ c, (f c).utf8Size = c.utf8Size) (a : List Char) :
    byteLength (a.map f) = byteLength a := by
  induction a with
  | nil => rfl
  | cons c a ih => rw [List.map_cons, byteLength, byteLength, hf, ih]

theorem Alike.byteLength_eq {a b : List Char} (h : Alike a b) : byteLength a = byteLength b := by
  have hlower : byteLength (a.map Char.toLower) = byteLength (b.map Char.toLower) :=
    congrArg byteLength h
  rwa [byteLength_map utf8Size_toLower, byteLength_map utf8Size_toLower] at hlower

/-- What is like a text in two parts has two parts that are like them. -/
theorem Alike.of_append {a b c : List Char} (h : Alike a (b ++ c)) :
    ∃ d e, a = d ++ e ∧ Alike d b ∧ Alike e c := by
  unfold Alike at h
  rw [List.map_append] at h
  exact List.map_eq_append_iff.mp h

/-- The same text but for the case of ASCII letters among the first `n` bytes. -/
def AlikeUpTo (n : Nat) (a b : List Char) : Prop :=
  ∃ p q rest, a = p ++ rest ∧ b = q ++ rest ∧ Alike p q ∧ byteLength p ≤ n

end ScriptShell.Text

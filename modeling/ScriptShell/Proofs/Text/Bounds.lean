import ScriptShell.Proofs.Text.Positions
import ScriptShell.Proofs.Text.Words

/-!
The bounds of the characters of a text. A text can be cut at a byte position exactly if that is no
farther than its end and inside no character. A position is rounded to the last bound not above it,
which is found by stepping back, and a run of characters at the end of a text starts at a bound,
which is found by walking back over them.
-/

namespace ScriptShell.Text

/-- A position at an end of a text or between two of its characters. -/
def IsBound (cs : List Char) (n : Nat) : Prop := ∃ a b, cs = a ++ b ∧ byteLength a = n

/-- A position inside a character of a text. -/
def IsInside (cs : List Char) (n : Nat) : Prop :=
  ∃ a c b, cs = a ++ c :: b ∧ byteLength a < n ∧ n < byteLength a + c.utf8Size

/-- The last bound that is not above a position. -/
structure IsLastBound (cs : List Char) (n bound : Nat) : Prop where
  isBound : IsBound cs bound
  le : bound ≤ n
  last : ∀ k, IsBound cs k → k ≤ n → k ≤ bound

variable {cs : List Char} {n bound : Nat}

theorem isSome_splitAtByte?_iff : (splitAtByte? n cs).isSome = true ↔ IsBound cs n := by
  rw [Option.isSome_iff_exists]
  constructor
  · rintro ⟨⟨a, b⟩, h⟩
    exact ⟨a, b, eq_of_splitAtByte? h⟩
  · rintro ⟨a, b, hcs, hn⟩
    exact ⟨(a, b), splitAtByte?_eq_some_iff.mpr ⟨hcs, hn⟩⟩

theorem IsBound.le_byteLength (h : IsBound cs n) : n ≤ byteLength cs := by
  obtain ⟨a, b, rfl, rfl⟩ := h
  rw [byteLength_append]
  exact Nat.le_add_right _ _

theorem isInside_cons_iff {c : Char} : IsInside (c :: cs) n ↔
    0 < n ∧ n < c.utf8Size ∨ c.utf8Size ≤ n ∧ IsInside cs (n - c.utf8Size) := by
  constructor
  · rintro ⟨a, d, b, hcs, hlow, hhigh⟩
    cases a with
    | nil =>
      obtain ⟨rfl, rfl⟩ := List.cons.inj hcs
      exact Or.inl ⟨hlow, by rwa [byteLength, Nat.zero_add] at hhigh⟩
    | cons e a =>
      obtain ⟨rfl, rfl⟩ := List.cons.inj hcs
      rw [byteLength] at hlow hhigh
      exact Or.inr ⟨by omega, a, d, b, rfl, by omega, by omega⟩
  · rintro (⟨hlow, hhigh⟩ | ⟨hle, a, d, b, rfl, hlow, hhigh⟩)
    · exact ⟨[], c, cs, rfl, hlow, by rwa [byteLength, Nat.zero_add]⟩
    · refine ⟨c :: a, d, b, rfl, ?_, ?_⟩
      · rw [byteLength]
        omega
      · rw [byteLength]
        omega

/-- A text cannot be cut beyond its end or inside a character. -/
theorem splitAtByte?_eq_none_iff :
    splitAtByte? n cs = none ↔ byteLength cs < n ∨ IsInside cs n := by
  induction cs generalizing n with
  | nil =>
    have hno : ¬IsInside [] n := by
      rintro ⟨a, c, b, h, -⟩
      exact List.append_ne_nil_of_right_ne_nil a (List.cons_ne_nil c b) h.symm
    rw [or_iff_left hno]
    cases n with
    | zero => exact iff_of_false (Option.some_ne_none _) (Nat.not_lt_zero _)
    | succ n => exact iff_of_true rfl (Nat.succ_pos n)
  | cons c cs ih =>
    rw [isInside_cons_iff, byteLength]
    cases n with
    | zero =>
      have hpos := Char.utf8Size_pos c
      refine iff_of_false (Option.some_ne_none _) ?_
      omega
    | succ n =>
      rw [splitAtByte?]
      by_cases hle : c.utf8Size ≤ n + 1
      · rw [if_pos hle, Option.map_eq_none_iff, ih]
        constructor
        · rintro (h | h)
          · exact Or.inl (by omega)
          · exact Or.inr (Or.inr ⟨hle, h⟩)
        · rintro (h | h | h)
          · exact Or.inl (by omega)
          · omega
          · exact Or.inr h.2
      · rw [if_neg hle]
        exact iff_of_true rfl (Or.inr (Or.inl (by omega)))

/-- A text between two positions has both ends at bounds. -/
theorem slice?_eq_some_iff {start stop : Nat} {part : List Char} :
    slice? start stop cs = some part ↔
      ∃ a c, cs = a ++ part ++ c ∧ byteLength a = start ∧ byteLength (a ++ part) = stop := by
  unfold slice?
  simp only [Option.bind_eq_bind, Option.bind_eq_some_iff, Prod.exists, splitAtByte?_eq_some_iff,
    Option.some.injEq]
  constructor
  · rintro ⟨front, c, ⟨rfl, rfl⟩, a, b, ⟨rfl, rfl⟩, rfl⟩
    exact ⟨a, c, rfl, rfl, rfl⟩
  · rintro ⟨a, c, rfl, rfl, rfl⟩
    exact ⟨a ++ part, c, ⟨rfl, rfl⟩, a, part, ⟨rfl, rfl⟩, rfl⟩

/-! ## Rounding -/

theorem takeBytes_prefix (n : Nat) (cs : List Char) : takeBytes n cs <+: cs := by
  induction cs generalizing n with
  | nil => exact List.prefix_refl []
  | cons c cs ih =>
    rw [takeBytes]
    split
    · exact List.prefix_cons_inj c |>.mpr (ih _)
    · exact List.nil_prefix

theorem byteLength_takeBytes_le (n : Nat) (cs : List Char) : byteLength (takeBytes n cs) ≤ n := by
  induction cs generalizing n with
  | nil => exact Nat.zero_le n
  | cons c cs ih =>
    rw [takeBytes]
    split
    · have hrest := ih (n - c.utf8Size)
      rw [byteLength]
      omega
    · exact Nat.zero_le n

/-- No longer start of the text fits. -/
theorem byteLength_le_takeBytes {a b : List Char} (h : byteLength a ≤ n) :
    byteLength a ≤ byteLength (takeBytes n (a ++ b)) := by
  induction a generalizing n with
  | nil => exact Nat.zero_le _
  | cons c a ih =>
    rw [byteLength] at h
    have hle : c.utf8Size ≤ n := by omega
    have hrest : byteLength a ≤ n - c.utf8Size := by omega
    rw [List.cons_append, takeBytes, if_pos hle, byteLength, byteLength]
    exact Nat.add_le_add_left (ih hrest) _

theorem isLastBound_takeBytes (n : Nat) (cs : List Char) :
    IsLastBound cs n (byteLength (takeBytes n cs)) := by
  obtain ⟨rest, hcs⟩ := takeBytes_prefix n cs
  refine ⟨⟨takeBytes n cs, rest, hcs.symm, rfl⟩, byteLength_takeBytes_le n cs, ?_⟩
  rintro k ⟨a, b, hab, rfl⟩ hk
  rw [hab]
  exact byteLength_le_takeBytes hk

/-- Rounding a position to the last bound makes no difference to what lies before it. -/
theorem takeBytes_of_isLastBound (h : IsLastBound cs n bound) :
    takeBytes bound cs = takeBytes n cs := by
  have hround := isLastBound_takeBytes n cs
  have heq : bound = byteLength (takeBytes n cs) :=
    Nat.le_antisymm (hround.last bound h.isBound h.le) (h.last _ hround.isBound hround.le)
  obtain ⟨rest, hcs⟩ := takeBytes_prefix n cs
  have happend := takeBytes_append (takeBytes n cs) rest
  rwa [hcs, ← heq] at happend

/-- Step back from a position to a bound; `none` if there is none. -/
def stepBack? (cs : List Char) : Nat → Option Nat
  | 0 => if (splitAtByte? 0 cs).isSome then some 0 else none
  | n + 1 => if (splitAtByte? (n + 1) cs).isSome then some (n + 1) else stepBack? cs n

theorem stepBack?_of_isLastBound (h : IsLastBound cs n bound) : stepBack? cs n = some bound := by
  induction n with
  | zero =>
    have hzero : bound = 0 := Nat.le_zero.mp h.le
    rw [stepBack?, if_pos (isSome_splitAtByte?_iff.mpr (hzero ▸ h.isBound)), hzero]
  | succ n ih =>
    rw [stepBack?]
    by_cases hn : IsBound cs (n + 1)
    · rw [if_pos (isSome_splitAtByte?_iff.mpr hn)]
      exact congrArg some (Nat.le_antisymm (h.last _ hn (Nat.le_refl _)) h.le)
    · have hne : bound ≠ n + 1 := fun he => hn (he ▸ h.isBound)
      have hle := h.le
      rw [if_neg (fun hs => hn (isSome_splitAtByte?_iff.mp hs))]
      exact ih ⟨h.isBound, by omega, fun k hk hkn => h.last k hk (by omega)⟩

/-- The text before a cursor, which is first moved to the end of the text if it is beyond, and then
back to a bound. -/
def before? (cs : List Char) (cursor : Nat) : Option (List Char) := do
  let bound ← stepBack? cs (min cursor (byteLength cs))
  let (before, _) ← splitAtByte? bound cs
  some before

theorem before?_eq (cs : List Char) (cursor : Nat) :
    before? cs cursor = some (takeBytes cursor cs) := by
  have hround := isLastBound_takeBytes cursor cs
  have hmin : IsLastBound cs (min cursor (byteLength cs)) (byteLength (takeBytes cursor cs)) :=
    ⟨hround.isBound, Nat.le_min.mpr ⟨hround.le, hround.isBound.le_byteLength⟩,
      fun k hk hle => hround.last k hk (Nat.le_trans hle (Nat.min_le_left _ _))⟩
  obtain ⟨rest, hcs⟩ := takeBytes_prefix cursor cs
  have hcut := splitAtByte?_append (takeBytes cursor cs) rest
  rw [hcs] at hcut
  unfold before?
  rw [stepBack?_of_isLastBound hmin]
  simp only [Option.bind_eq_bind, Option.bind_some, hcut]

/-! ## Walking back -/

/-- The characters of a text that starts at `n`, each with the position that it starts at. -/
def indexed : Nat → List Char → List (Nat × Char)
  | _, [] => []
  | n, c :: cs => (n, c) :: indexed (n + c.utf8Size) cs

/-- Where the longest run of `p` at the end of a text starts, found from the end. -/
def runStart (p : Char → Bool) (cs : List Char) : Nat :=
  (((indexed 0 cs).reverse.takeWhile fun i => p i.2).getLast?.map (·.1)).getD (byteLength cs)

theorem indexed_append (n : Nat) (a b : List Char) :
    indexed n (a ++ b) = indexed n a ++ indexed (n + byteLength a) b := by
  induction a generalizing n with
  | nil => rfl
  | cons c a ih =>
    rw [List.cons_append, indexed, indexed, ih, byteLength, ← Nat.add_assoc]
    rfl

theorem map_snd_indexed (n : Nat) (cs : List Char) : (indexed n cs).map (·.2) = cs := by
  induction cs generalizing n with
  | nil => rfl
  | cons c cs ih => rw [indexed, List.map_cons, ih]

theorem runStart_append {p : Char → Bool} {a b : List Char} (hb : ∀ c ∈ b, p c = true)
    (ha : a.reverse.head?.any p = false) : runStart p (a ++ b) = byteLength a := by
  have hrun : ∀ i ∈ (indexed (byteLength a) b).reverse, p i.2 = true := by
    intro i hi
    apply hb
    rw [← map_snd_indexed (byteLength a) b]
    exact List.mem_map_of_mem (List.mem_reverse.mp hi)
  have hstop : (indexed 0 a).reverse.head?.any (fun i => p i.2) = false := by
    rw [← map_snd_indexed 0 a, ← List.map_reverse, List.head?_map, Option.any_map] at ha
    exact ha
  unfold runStart
  rw [indexed_append, Nat.zero_add, List.reverse_append, takeWhile_append_of_boundary _ hstop,
    List.takeWhile_eq_self_iff.mpr hrun, List.getLast?_reverse]
  cases b with
  | nil => rw [List.append_nil]; rfl
  | cons c b => rfl

/-- Walking back finds where the run starts that reading backwards takes. -/
theorem runStart_eq (p : Char → Bool) (cs : List Char) :
    runStart p cs = byteLength (cs.reverse.dropWhile p).reverse := by
  have hrun : ∀ c ∈ (cs.reverse.takeWhile p).reverse, p c = true := fun c hc =>
    List.mem_takeWhile_imp (List.mem_reverse.mp hc)
  have hstop : (cs.reverse.dropWhile p).reverse.reverse.head?.any p = false := by
    rw [List.reverse_reverse]
    exact head?_any_dropWhile p cs.reverse
  calc runStart p cs
    _ = runStart p ((cs.reverse.dropWhile p).reverse ++ (cs.reverse.takeWhile p).reverse) :=
      congrArg (runStart p) List.rdropWhile_append_rtakeWhile.symm
    _ = byteLength (cs.reverse.dropWhile p).reverse := runStart_append hrun hstop

end ScriptShell.Text

import ScriptShell.Text.Lines

/-!
Byte positions in a text, counted in UTF-8, and the decoding of UTF-8.
-/

namespace ScriptShell.Text

/-- The number of bytes of a text. -/
def byteLength : List Char → Nat
  | [] => 0
  | c :: cs => c.utf8Size + byteLength cs

/-- Cut at a byte position; `none` when it lies inside a character or beyond the end. -/
def splitAtByte? : Nat → List Char → Option (List Char × List Char)
  | 0, cs => some ([], cs)
  | _ + 1, [] => none
  | n + 1, c :: cs =>
    if c.utf8Size ≤ n + 1 then
      (splitAtByte? (n + 1 - c.utf8Size) cs).map fun p => (c :: p.1, p.2)
    else none

/-- The longest prefix of at most `n` bytes. -/
def takeBytes : Nat → List Char → List Char
  | _, [] => []
  | n, c :: cs => if c.utf8Size ≤ n then c :: takeBytes (n - c.utf8Size) cs else []

@[simp] theorem byteLength_append (a b : List Char) :
    byteLength (a ++ b) = byteLength a + byteLength b := by
  induction a with
  | nil => simp [byteLength]
  | cons c a ih => simp [byteLength, ih, Nat.add_assoc]

theorem splitAtByte?_append (a b : List Char) :
    splitAtByte? (byteLength a) (a ++ b) = some (a, b) := by
  induction a with
  | nil => simp [byteLength, splitAtByte?]
  | cons c a ih =>
    have hpos : 0 < c.utf8Size := Char.utf8Size_pos c
    obtain ⟨n, hn⟩ : ∃ n, byteLength (c :: a) = n + 1 := ⟨byteLength (c :: a) - 1, by
      simp only [byteLength]; omega⟩
    have hsub : n + 1 - c.utf8Size = byteLength a := by
      rw [← hn]; simp [byteLength]
    have hle : c.utf8Size ≤ n + 1 := by rw [← hn]; simp [byteLength]
    rw [hn, List.cons_append, splitAtByte?, if_pos hle, hsub, ih]
    rfl

theorem eq_of_splitAtByte? {n : Nat} {cs a b : List Char} (h : splitAtByte? n cs = some (a, b)) :
    cs = a ++ b ∧ byteLength a = n := by
  induction cs generalizing n a b with
  | nil => cases n <;> simp_all [splitAtByte?, byteLength]
  | cons c cs ih =>
    cases n with
    | zero => simp_all [splitAtByte?, byteLength]
    | succ n =>
      simp only [splitAtByte?] at h
      split at h
      · next hle =>
        obtain ⟨⟨a', b'⟩, hp, he⟩ := Option.map_eq_some_iff.mp h
        obtain ⟨h1, h2⟩ := ih hp
        simp only [Prod.mk.injEq] at he
        obtain ⟨rfl, rfl⟩ := he
        refine ⟨by simp [h1], ?_⟩
        simp only [byteLength]; omega
      · simp at h

/-- The bytes of a text. -/
def encodeUtf8 (cs : List Char) : List UInt8 := cs.flatMap String.utf8EncodeChar

def isContinuation (b : UInt8) : Bool := 0x80 ≤ b && b < 0xC0

/-- The six payload bits of a continuation byte. -/
def payload (b : UInt8) : Nat := b.toNat - 0x80

/-- The text whose UTF-8 form the bytes are: shortest forms of scalar values only. -/
def decodeUtf8? : List UInt8 → Option (List Char)
  | [] => some []
  | a :: r1 =>
    if a < 0x80 then (decodeUtf8? r1).map (Char.ofNat a.toNat :: ·)
    else match r1 with
      | [] => none
      | b :: r2 =>
        if !isContinuation b then none
        else if 0xC2 ≤ a && a < 0xE0 then
          (decodeUtf8? r2).map (Char.ofNat ((a.toNat - 0xC0) * 64 + payload b) :: ·)
        else match r2 with
          | [] => none
          | c :: r3 =>
            let n3 := ((a.toNat - 0xE0) * 64 + payload b) * 64 + payload c
            if !isContinuation c then none
            else if 0xE0 ≤ a && a < 0xF0 then
              if n3 < 0x800 || (0xD800 ≤ n3 && n3 < 0xE000) then none
              else (decodeUtf8? r3).map (Char.ofNat n3 :: ·)
            else match r3 with
              | [] => none
              | d :: r4 =>
                let n4 :=
                  (((a.toNat - 0xF0) * 64 + payload b) * 64 + payload c) * 64 + payload d
                if isContinuation d && 0xF0 ≤ a && 0x10000 ≤ n4 && n4 < 0x110000 then
                  (decodeUtf8? r4).map (Char.ofNat n4 :: ·)
                else none

end ScriptShell.Text

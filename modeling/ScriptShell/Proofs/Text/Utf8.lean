import ScriptShell.Text.Bytes

/-!
UTF-8 and back. A byte sequence decodes to a text exactly when it is the form of that text; the
newline is the only character whose form holds the byte 10.
-/

namespace ScriptShell.Text

theorem isContinuation_iff {b : UInt8} :
    isContinuation b = true ↔ 0x80 ≤ b.toNat ∧ b.toNat < 0xC0 := by
  simp only [isContinuation, Bool.and_eq_true, decide_eq_true_eq, UInt8.le_iff_toNat_le,
    UInt8.lt_iff_toNat_lt, UInt8.reduceToNat]

theorem toNat_ofNat_of_lt {n : Nat} (h : n < 256) : (UInt8.ofNat n).toNat = n := by
  rw [UInt8.toNat_ofNat', Nat.mod_eq_of_lt h]

theorem ofNat_eq_of_toNat {n : Nat} {b : UInt8} (h : b.toNat = n) : UInt8.ofNat n = b := by
  rw [← h, UInt8.ofNat_toNat]

/-- The number of a character that is no surrogate. -/
theorem toNat_val_ofNat {n : Nat} (h : n < 0xD800 ∨ 0xE000 ≤ n ∧ n < 0x110000) :
    (Char.ofNat n).val.toNat = n := by
  have hv : n.isValidChar := h
  rw [Char.ofNat, dif_pos hv]
  rfl

section Decode

variable {a b c d : UInt8} (rest : List UInt8)

theorem decodeUtf8?_one (ha : a.toNat < 0x80) :
    decodeUtf8? (a :: rest) = (decodeUtf8? rest).map (Char.ofNat a.toNat :: ·) := by
  rw [decodeUtf8?.eq_def]
  simp only [UInt8.lt_iff_toNat_lt, UInt8.reduceToNat, ha, if_true]

theorem decodeUtf8?_two (ha : 0xC2 ≤ a.toNat) (ha' : a.toNat < 0xE0)
    (hb : isContinuation b = true) {n : Nat} (hn : (a.toNat - 0xC0) * 64 + payload b = n) :
    decodeUtf8? (a :: b :: rest) = (decodeUtf8? rest).map (Char.ofNat n :: ·) := by
  have h1 : ¬a.toNat < 0x80 := by omega
  rw [decodeUtf8?.eq_def]
  simp only [UInt8.lt_iff_toNat_lt, UInt8.le_iff_toNat_le, UInt8.reduceToNat, h1, hb, ha, ha', hn,
    if_false, if_true, decide_true, Bool.and_self, Bool.not_true, Bool.false_eq_true]

theorem decodeUtf8?_three (ha : 0xE0 ≤ a.toNat) (ha' : a.toNat < 0xF0)
    (hb : isContinuation b = true) (hc : isContinuation c = true) {n : Nat}
    (hn : ((a.toNat - 0xE0) * 64 + payload b) * 64 + payload c = n) (hlow : 0x800 ≤ n)
    (hs : n < 0xD800 ∨ 0xE000 ≤ n) :
    decodeUtf8? (a :: b :: c :: rest) = (decodeUtf8? rest).map (Char.ofNat n :: ·) := by
  have h1 : ¬a.toNat < 0x80 := by omega
  have h2 : ¬a.toNat < 0xE0 := by omega
  have h3 : ¬n < 0x800 := by omega
  have h4 : ¬(0xD800 ≤ n ∧ n < 0xE000) := by omega
  rw [decodeUtf8?.eq_def]
  simp only [UInt8.lt_iff_toNat_lt, UInt8.le_iff_toNat_le, UInt8.reduceToNat, h1, h2, h3, h4, hb,
    hc, ha, ha', hn, if_false, if_true, decide_true, decide_false, ← Bool.decide_and, Bool.and_self,
    Bool.and_false, Bool.false_or, Bool.not_true, Bool.false_eq_true]

theorem decodeUtf8?_four (ha : 0xF0 ≤ a.toNat) (hb : isContinuation b = true)
    (hc : isContinuation c = true) (hd : isContinuation d = true) {n : Nat}
    (hn : (((a.toNat - 0xF0) * 64 + payload b) * 64 + payload c) * 64 + payload d = n)
    (hlow : 0x10000 ≤ n) (hhigh : n < 0x110000) :
    decodeUtf8? (a :: b :: c :: d :: rest) = (decodeUtf8? rest).map (Char.ofNat n :: ·) := by
  have h1 : ¬a.toNat < 0x80 := by omega
  have h2 : ¬a.toNat < 0xE0 := by omega
  have h3 : ¬a.toNat < 0xF0 := by omega
  rw [decodeUtf8?.eq_def]
  simp only [UInt8.lt_iff_toNat_lt, UInt8.le_iff_toNat_le, UInt8.reduceToNat, h1, h2, h3, hb, hc,
    hd, ha, hn, hlow, hhigh, if_false, if_true, decide_true, decide_false, Bool.and_self,
    Bool.and_false, Bool.not_true, Bool.false_eq_true]

end Decode

/-- A continuation byte and the six bits in it. -/
theorem continuation_ofNat {n : Nat} (h : n < 0x40) :
    isContinuation (UInt8.ofNat (n + 0x80)) = true ∧ payload (UInt8.ofNat (n + 0x80)) = n := by
  have ht := toNat_ofNat_of_lt (show n + 0x80 < 256 by omega)
  constructor
  · rw [isContinuation_iff]
    omega
  · unfold payload
    omega

/-- What follows a character does not matter to how it is decoded. -/
theorem decodeUtf8?_utf8EncodeChar_append (c : Char) (rest : List UInt8) :
    decodeUtf8? (String.utf8EncodeChar c ++ rest) = (decodeUtf8? rest).map (c :: ·) := by
  have hc : Char.ofNat c.val.toNat = c := Char.ofNat_toNat c
  have hvalid : c.val.toNat < 0xD800 ∨ 0xE000 ≤ c.val.toNat ∧ c.val.toNat < 0x110000 := c.valid
  unfold String.utf8EncodeChar
  generalize c.val.toNat = v at hc hvalid
  obtain ⟨hlast, hlow⟩ := continuation_ofNat (show v % 0x40 < 0x40 by omega)
  obtain ⟨hmiddle, hmid⟩ := continuation_ofNat (show v / 64 % 0x40 < 0x40 by omega)
  obtain ⟨hthird, hhigh⟩ := continuation_ofNat (show v / 4096 % 0x40 < 0x40 by omega)
  dsimp only
  split
  · have ht := toNat_ofNat_of_lt (show v < 256 by omega)
    exact (decodeUtf8?_one rest (by omega)).trans (by rw [ht, hc])
  · split
    · have ht := toNat_ofNat_of_lt (show v / 64 % 0x20 + 0xC0 < 256 by omega)
      have hn : ((UInt8.ofNat (v / 64 % 0x20 + 0xC0)).toNat - 0xC0) * 64 +
          payload (UInt8.ofNat (v % 0x40 + 0x80)) = v := by omega
      exact (decodeUtf8?_two rest (by omega) (by omega) hlast hn).trans (by rw [hc])
    · split
      · have ht := toNat_ofNat_of_lt (show v / 4096 % 0x10 + 0xE0 < 256 by omega)
        have hn : ((UInt8.ofNat (v / 4096 % 0x10 + 0xE0)).toNat - 0xE0) * 64 +
            payload (UInt8.ofNat (v / 64 % 0x40 + 0x80)) = v / 64 := by omega
        exact (decodeUtf8?_three rest (by omega) (by omega) hmiddle hlast (n := v)
          (by omega) (by omega) (by omega)).trans (by rw [hc])
      · have ht := toNat_ofNat_of_lt (show v / 262144 % 0x08 + 0xF0 < 256 by omega)
        have hn : ((UInt8.ofNat (v / 262144 % 0x08 + 0xF0)).toNat - 0xF0) * 64 +
            payload (UInt8.ofNat (v / 4096 % 0x40 + 0x80)) = v / 4096 := by omega
        exact (decodeUtf8?_four rest (by omega) hthird hmiddle hlast (n := v)
          (by omega) (by omega) (by omega)).trans (by rw [hc])

theorem encodeUtf8_cons (c : Char) (cs : List Char) :
    encodeUtf8 (c :: cs) = String.utf8EncodeChar c ++ encodeUtf8 cs := List.flatMap_cons

theorem encodeUtf8_append (a b : List Char) :
    encodeUtf8 (a ++ b) = encodeUtf8 a ++ encodeUtf8 b := List.flatMap_append

theorem decodeUtf8?_encodeUtf8 (cs : List Char) : decodeUtf8? (encodeUtf8 cs) = some cs := by
  induction cs with
  | nil => rfl
  | cons c cs ih =>
    rw [encodeUtf8_cons, decodeUtf8?_utf8EncodeChar_append, ih]
    rfl

section Encode

variable {a b c d : UInt8} {n : Nat}

theorem utf8EncodeChar_one (ha : a.toNat < 0x80) :
    String.utf8EncodeChar (Char.ofNat a.toNat) = [a] := by
  have hv := toNat_val_ofNat (n := a.toNat) (by omega)
  unfold String.utf8EncodeChar
  rw [hv]
  dsimp only
  rw [if_pos (by omega), ofNat_eq_of_toNat rfl]

theorem utf8EncodeChar_two (ha : 0xC2 ≤ a.toNat) (ha' : a.toNat < 0xE0)
    (hb : isContinuation b = true) (hn : (a.toNat - 0xC0) * 64 + payload b = n) :
    String.utf8EncodeChar (Char.ofNat n) = [a, b] := by
  rw [isContinuation_iff] at hb
  unfold payload at hn
  have hv := toNat_val_ofNat (n := n) (by omega)
  unfold String.utf8EncodeChar
  rw [hv]
  dsimp only
  rw [if_neg (by omega), if_pos (by omega), ofNat_eq_of_toNat (b := a) (by omega),
    ofNat_eq_of_toNat (b := b) (by omega)]

theorem utf8EncodeChar_three (ha : 0xE0 ≤ a.toNat) (ha' : a.toNat < 0xF0)
    (hb : isContinuation b = true) (hc : isContinuation c = true)
    (hn : ((a.toNat - 0xE0) * 64 + payload b) * 64 + payload c = n) (hlow : 0x800 ≤ n)
    (hs : n < 0xD800 ∨ 0xE000 ≤ n) :
    String.utf8EncodeChar (Char.ofNat n) = [a, b, c] := by
  rw [isContinuation_iff] at hb hc
  unfold payload at hn
  have hv := toNat_val_ofNat (n := n) (by omega)
  unfold String.utf8EncodeChar
  rw [hv]
  dsimp only
  rw [if_neg (by omega), if_neg (by omega), if_pos (by omega),
    ofNat_eq_of_toNat (b := a) (by omega), ofNat_eq_of_toNat (b := b) (by omega),
    ofNat_eq_of_toNat (b := c) (by omega)]

theorem utf8EncodeChar_four (ha : 0xF0 ≤ a.toNat) (hb : isContinuation b = true)
    (hc : isContinuation c = true) (hd : isContinuation d = true)
    (hn : (((a.toNat - 0xF0) * 64 + payload b) * 64 + payload c) * 64 + payload d = n)
    (hlow : 0x10000 ≤ n) (hhigh : n < 0x110000) :
    String.utf8EncodeChar (Char.ofNat n) = [a, b, c, d] := by
  rw [isContinuation_iff] at hb hc hd
  unfold payload at hn
  have hv := toNat_val_ofNat (n := n) (by omega)
  unfold String.utf8EncodeChar
  rw [hv]
  dsimp only
  rw [if_neg (by omega), if_neg (by omega), if_neg (by omega),
    ofNat_eq_of_toNat (b := a) (by omega), ofNat_eq_of_toNat (b := b) (by omega),
    ofNat_eq_of_toNat (b := c) (by omega), ofNat_eq_of_toNat (b := d) (by omega)]

end Encode

/-- Only the form of a text decodes to it. There is a case for the end and one for each length of a
form. -/
theorem encodeUtf8_of_decodeUtf8? {bs : List UInt8} {cs : List Char}
    (h : decodeUtf8? bs = some cs) : encodeUtf8 cs = bs := by
  fun_induction decodeUtf8? bs generalizing cs with
  | case1 =>
    rw [← Option.some.inj h]
    rfl
  | case2 a rest ha ih =>
    obtain ⟨ds, hd, rfl⟩ := Option.map_eq_some_iff.mp h
    rw [encodeUtf8_cons, ih hd, utf8EncodeChar_one ha]
    rfl
  | case5 a ha b rest hb hlead ih =>
    obtain ⟨ds, hd, rfl⟩ := Option.map_eq_some_iff.mp h
    simp only [Bool.and_eq_true, decide_eq_true_eq] at hlead
    rw [Bool.not_eq_true', Bool.not_eq_false] at hb
    rw [encodeUtf8_cons, ih hd, utf8EncodeChar_two hlead.1 hlead.2 hb rfl]
    rfl
  | case9 a ha b hb hlead c rest n hc hlead' hn =>
    rename_i ih
    obtain ⟨ds, hd, rfl⟩ := Option.map_eq_some_iff.mp h
    simp only [Bool.and_eq_true, decide_eq_true_eq] at hlead'
    rw [Bool.not_eq_true', Bool.not_eq_false] at hb hc
    simp only [Bool.or_eq_true, Bool.and_eq_true, decide_eq_true_eq] at hn
    rw [encodeUtf8_cons, ih hd,
      utf8EncodeChar_three hlead'.1 hlead'.2 hb hc rfl (by omega) (by omega)]
    rfl
  | case11 a ha b hb hlead c hc hlead' d rest n hd =>
    rename_i ih
    obtain ⟨ds, hds, rfl⟩ := Option.map_eq_some_iff.mp h
    simp only [Bool.and_eq_true, decide_eq_true_eq] at hd
    rw [Bool.not_eq_true', Bool.not_eq_false] at hb hc
    obtain ⟨⟨⟨hd, ha⟩, hlow⟩, hhigh⟩ := hd
    rw [encodeUtf8_cons, ih hds, utf8EncodeChar_four ha hb hc hd rfl hlow hhigh]
    rfl
  | _ => exact absurd h nofun

theorem decodeUtf8?_eq_some_iff {bs : List UInt8} {cs : List Char} :
    decodeUtf8? bs = some cs ↔ bs = encodeUtf8 cs := by
  constructor
  · intro h
    exact (encodeUtf8_of_decodeUtf8? h).symm
  · intro h
    rw [h, decodeUtf8?_encodeUtf8]

/-- The form of a character beyond ASCII consists of bytes beyond ASCII. -/
theorem le_toNat_of_mem_utf8EncodeChar {c : Char} (hc : 0x80 ≤ c.val.toNat) {b : UInt8}
    (hb : b ∈ String.utf8EncodeChar c) : 0x80 ≤ b.toNat := by
  have hbyte {n : Nat} (hn : 0x80 ≤ n) (hn' : n < 256) (h : b = UInt8.ofNat n) :
      0x80 ≤ b.toNat := by
    rw [h, toNat_ofNat_of_lt hn']
    exact hn
  unfold String.utf8EncodeChar at hb
  generalize c.val.toNat = v at hc hb
  dsimp only at hb
  split at hb
  · omega
  · split at hb
    · simp only [List.mem_cons, List.not_mem_nil, or_false] at hb
      rcases hb with h | h <;> exact hbyte (by omega) (by omega) h
    · split at hb
      · simp only [List.mem_cons, List.not_mem_nil, or_false] at hb
        rcases hb with h | h | h <;> exact hbyte (by omega) (by omega) h
      · simp only [List.mem_cons, List.not_mem_nil, or_false] at hb
        rcases hb with h | h | h | h <;> exact hbyte (by omega) (by omega) h

/-- The newline is its own form, and no other character's form holds it. -/
theorem newline_mem_utf8EncodeChar_iff {c : Char} :
    10 ∈ String.utf8EncodeChar c ↔ c = '\n' := by
  constructor
  · intro h
    have hc : Char.ofNat c.val.toNat = c := Char.ofNat_toNat c
    have hlt : c.val.toNat < 0x80 := by
      apply Nat.lt_of_not_le
      intro hge
      exact absurd (le_toNat_of_mem_utf8EncodeChar hge h) (by decide)
    unfold String.utf8EncodeChar at h
    dsimp only at h
    rw [if_pos (by omega)] at h
    have hv := congrArg UInt8.toNat (List.mem_singleton.mp h)
    rw [toNat_ofNat_of_lt (by omega)] at hv
    rw [← hc, ← hv]
    rfl
  · intro h
    rw [h]
    decide

theorem newline_mem_encodeUtf8_iff {cs : List Char} :
    (10 : UInt8) ∈ encodeUtf8 cs ↔ '\n' ∈ cs := by
  unfold encodeUtf8
  rw [List.mem_flatMap]
  constructor
  · rintro ⟨c, hc, h⟩
    rw [newline_mem_utf8EncodeChar_iff] at h
    exact h ▸ hc
  · intro h
    exact ⟨'\n', h, newline_mem_utf8EncodeChar_iff.mpr rfl⟩

end ScriptShell.Text

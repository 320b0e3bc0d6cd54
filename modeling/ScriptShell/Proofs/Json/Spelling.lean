import ScriptShell.Json.Parser
import ScriptShell.Json.Printer
import ScriptShell.Proofs.Text.Words

/-!
How printed strings, numbers and words read back. Each is the longest token at its place, whatever
comes behind it; only a number needs a character that numbers do not have, or the end.
-/

namespace ScriptShell.Json

open Text

section Strings

theorem hex4?_hexDigit {n : Nat} (h : n < 32) :
    hex4? '0' '0' (hexDigit (n / 16)) (hexDigit (n % 16)) = some n := by
  have hall : ∀ n < 32, hex4? '0' '0' (hexDigit (n / 16)) (hexDigit (n % 16)) = some n := by
    decide
  exact hall n h

/-- An escaped number below the surrogates stands for its character. Two numbers in a row are looked
at together, for they may be a pair of surrogates. -/
theorem stringBody?_numbered {a b c d : Char} {n : Nat} (h : hex4? a b c d = some n)
    (hn : n < 0xD800) (rest : List Char) :
    stringBody? ('\\' :: 'u' :: a :: b :: c :: d :: rest) =
      (stringBody? rest).map fun p => (Char.ofNat n :: p.1, p.2 + 6) := by
  have hsurrogate {m : Nat} (hm : 0xD800 ≤ m) (k : Nat) : ¬(m ≤ n ∧ n < k) := by omega
  by_cases hm : ∃ e f g h rest', rest = '\\' :: 'u' :: e :: f :: g :: h :: rest'
  · obtain ⟨e, f, g, h', rest', rfl⟩ := hm
    rw [stringBody?, h, Option.bind_eq_bind, Option.bind_some, if_neg (hsurrogate (by decide) _),
      if_neg (hsurrogate (by decide) _)]
  · rw [stringBody?.eq_3 _ _ _ _ _ fun e f g h rest' hr => hm ⟨e, f, g, h, rest', hr⟩, h,
      Option.bind_eq_bind, Option.bind_some, if_neg (hsurrogate (by decide) _)]

/-- An escaped letter stands for its character. -/
theorem stringBody?_lettered {c d : Char} (h : simpleEscape? d = some c) (rest : List Char) :
    stringBody? ('\\' :: d :: rest) = (stringBody? rest).map fun p => (c :: p.1, p.2 + 2) := by
  have hd : d ≠ 'u' := by
    rintro rfl
    exact absurd h nofun
  rw [stringBody?.eq_4 _ _ (fun _ _ _ _ _ _ _ _ _ he => absurd he hd)
    (fun _ _ _ _ _ he => absurd he hd), h]
  rfl

/-- A character that needs no escape stands for itself. -/
theorem stringBody?_plain {c : Char} (hq : c ≠ '"') (hb : c ≠ '\\') (hc : ¬c.toNat < 32)
    (rest : List Char) :
    stringBody? (c :: rest) = (stringBody? rest).map fun p => (c :: p.1, p.2 + 1) := by
  have hgood : ¬(decide (c.toNat < 32) || c == '\\') = true := by
    rw [Bool.or_eq_true, decide_eq_true_iff, beq_iff_eq]
    exact not_or.mpr ⟨hc, hb⟩
  rw [stringBody?.eq_5 _ _ hq (fun _ _ _ _ _ _ _ _ _ he => absurd he hb)
    (fun _ _ _ _ _ he => absurd he hb) (fun _ _ he => absurd he hb), if_neg hgood]

/-- A printed character is a letter behind a backslash, a number behind one, or itself. -/
theorem escapeChar_cases (c : Char) :
    (∃ d, simpleEscape? d = some c ∧ escapeChar c = ['\\', d]) ∨
      (c.toNat < 32 ∧ escapeChar c =
        ['\\', 'u', '0', '0', hexDigit (c.toNat / 16), hexDigit (c.toNat % 16)]) ∨
      (c ≠ '"' ∧ c ≠ '\\' ∧ ¬c.toNat < 32 ∧ escapeChar c = [c]) := by
  by_cases hq : c = '"'
  · subst hq; exact Or.inl ⟨'"', rfl, rfl⟩
  by_cases hb : c = '\\'
  · subst hb; exact Or.inl ⟨'\\', rfl, rfl⟩
  by_cases h8 : c = '\x08'
  · subst h8; exact Or.inl ⟨'b', rfl, rfl⟩
  by_cases hf : c = '\x0c'
  · subst hf; exact Or.inl ⟨'f', rfl, rfl⟩
  by_cases hn : c = '\n'
  · subst hn; exact Or.inl ⟨'n', rfl, rfl⟩
  by_cases hr : c = '\r'
  · subst hr; exact Or.inl ⟨'r', rfl, rfl⟩
  by_cases ht : c = '\t'
  · subst ht; exact Or.inl ⟨'t', rfl, rfl⟩
  unfold escapeChar
  rw [if_neg hq, if_neg hb, if_neg h8, if_neg hf, if_neg hn, if_neg hr, if_neg ht]
  by_cases hc : c.toNat < 32
  · rw [if_pos hc]
    exact Or.inr (Or.inl ⟨hc, rfl⟩)
  · rw [if_neg hc]
    exact Or.inr (Or.inr ⟨hq, hb, hc, rfl⟩)

theorem stringBody?_escapeChar (c : Char) (rest : List Char) :
    stringBody? (escapeChar c ++ rest) =
      (stringBody? rest).map fun p => (c :: p.1, p.2 + (escapeChar c).length) := by
  rcases escapeChar_cases c with ⟨d, hd, he⟩ | ⟨hc, he⟩ | ⟨hq, hb, hc, he⟩
  · rw [he]
    exact stringBody?_lettered hd rest
  · have hnum := stringBody?_numbered (hex4?_hexDigit hc) (by omega) rest
    rw [Char.ofNat_toNat] at hnum
    rw [he]
    exact hnum
  · rw [he]
    exact stringBody?_plain hq hb hc rest

theorem stringBody?_escape (cs rest : List Char) :
    stringBody? (escape cs ++ '"' :: rest) = some (cs, (escape cs).length + 1) := by
  induction cs with
  | nil => rw [escape, List.flatMap_nil, List.nil_append, stringBody?]; rfl
  | cons c cs ih =>
    have hcons : escape (c :: cs) = escapeChar c ++ escape cs := List.flatMap_cons
    rw [hcons, List.append_assoc, stringBody?_escapeChar, ih, Option.map_some, List.length_append]
    congr 2
    omega

theorem lexeme?_printString (s : String) (rest : List Char) :
    lexeme? (printString s ++ rest) = some (some (.scalar (.str s)), (printString s).length) := by
  unfold printString lexeme?
  rw [List.cons_append, List.cons_append, List.append_assoc]
  have hb : isBlank '"' = false := by decide
  simp only [hb, Bool.false_eq_true, if_false]
  rw [List.singleton_append, stringBody?_escape]
  simp

end Strings

section Numbers

/-- The digits of a number start with a zero only if that is the number. The first digit of a longer
number is the first one of its tenth part. -/
theorem eq_zero_of_head?_toDigits {n : Nat} (h : (Nat.toDigits 10 n).head? = some '0') : n = 0 := by
  induction n using Nat.strongRecOn with
  | ind n ih =>
    rw [Nat.toDigits_eq_if (by decide)] at h
    split at h
    · next hn =>
      have hall : ∀ k < 10, k.digitChar = '0' → k = 0 := by decide
      exact hall n hn (Option.some.inj h)
    · next hn =>
      have hsome : (Nat.toDigits 10 (n / 10)).head?.isSome = true :=
        List.isSome_head?.mpr Nat.toDigits_ne_nil
      rw [List.head?_append, Option.or_of_isSome hsome] at h
      have hz := ih (n / 10) (by omega) h
      omega

theorem isDigit_of_mem_toDigits {n : Nat} : ∀ c ∈ Nat.toDigits 10 n, c.isDigit = true :=
  fun _ => Nat.isDigit_of_mem_toDigits (by decide) (by decide)

theorem digitsValue_toDigits (n : Nat) : digitsValue (Nat.toDigits 10 n) = n := by
  have h := Nat.ofDigitChars_toDigits (b := 10) (n := n) (by decide) (by decide)
  unfold Nat.ofDigitChars at h
  simp only [Nat.mul_comm 10] at h
  exact h

theorem wholePart?_toDigits (n : Nat) :
    wholePart? (Nat.toDigits 10 n) = some (Nat.toDigits 10 n, []) := by
  unfold wholePart?
  rw [List.takeWhile_eq_self_iff.mpr isDigit_of_mem_toDigits,
    List.dropWhile_eq_nil_iff.mpr isDigit_of_mem_toDigits]
  split
  · next h => exact absurd h Nat.toDigits_ne_nil
  · next h =>
    have hz : n = 0 := eq_zero_of_head?_toDigits (by rw [h]; rfl)
    rw [hz, Nat.toDigits_zero] at h
    exact absurd (List.cons.inj h).2 nofun
  · rfl

/-- A whole number is written as its digits, behind a sign if it is negative. -/
theorem toList_toString_cases (n : Int) :
    (∃ m : Nat, n = m ∧ (toString n).toList = Nat.toDigits 10 m) ∨
      ∃ m : Nat, m ≠ 0 ∧ n = -m ∧ (toString n).toList = '-' :: Nat.toDigits 10 m := by
  cases n with
  | ofNat m => exact Or.inl ⟨m, rfl, Nat.toList_repr⟩
  | negSucc m =>
    have h : toString (Int.negSucc m) = "-" ++ (m + 1).repr := rfl
    refine Or.inr ⟨m + 1, Nat.succ_ne_zero m, rfl, ?_⟩
    rw [h, String.toList_append, Nat.toList_repr]
    rfl

theorem number?_toDigits {n : Nat} (h : n ≤ maxInt) :
    number? (Nat.toDigits 10 n) = some (.int n, (Nat.toDigits 10 n).length) := by
  have hsign : ∀ rest, Nat.toDigits 10 n ≠ '-' :: rest := by
    intro rest he
    have hd := isDigit_of_mem_toDigits '-' (by rw [he]; exact List.mem_cons_self)
    exact absurd hd (by decide)
  have hmin : minInt ≤ n := Int.le_trans (by decide) (Int.natCast_nonneg n)
  have hw := wholePart?_toDigits n
  have hv := digitsValue_toDigits n
  generalize Nat.toDigits 10 n = ds at hsign hw hv
  unfold number?
  split
  next negative start hstart =>
    split at hstart
    · next rest => exact absurd rfl (hsign rest)
    · obtain ⟨rfl, rfl⟩ := Prod.mk.inj hstart
      simp [hw, fraction?, exponent?, hv, hmin, h]

theorem number?_minus_toDigits {n : Nat} (hn : n ≠ 0) (h : minInt ≤ -(n : Int)) :
    number? ('-' :: Nat.toDigits 10 n) =
      some (.int (-n), ('-' :: Nat.toDigits 10 n).length) := by
  have hmax : -(n : Int) ≤ maxInt := Int.le_trans (by omega) (by decide : (0 : Int) ≤ maxInt)
  unfold number?
  simp [wholePart?_toDigits, fraction?, exponent?, digitsValue_toDigits, hmax, h, hn]

theorem number?_toString {n : Int} (hmin : minInt ≤ n) (hmax : n ≤ maxInt) :
    number? (toString n).toList = some (.int n, (toString n).toList.length) := by
  rcases toList_toString_cases n with ⟨m, rfl, he⟩ | ⟨m, hm, rfl, he⟩
  · rw [he]
    exact number?_toDigits hmax
  · rw [he]
    exact number?_minus_toDigits hm hmin

theorem isNumeric_of_mem_toString {n : Int} : ∀ c ∈ (toString n).toList, isNumeric c = true := by
  have hdigits {m : Nat} : ∀ c ∈ Nat.toDigits 10 m, isNumeric c = true := by
    intro c hc
    unfold isNumeric
    rw [isDigit_of_mem_toDigits c hc]
    rfl
  rcases toList_toString_cases n with ⟨m, -, he⟩ | ⟨m, -, -, he⟩
  · rw [he]
    exact hdigits
  · rw [he]
    exact List.forall_mem_cons.mpr ⟨rfl, hdigits⟩

theorem toList_toString_ne_nil (n : Int) : (toString n).toList ≠ [] := by
  rcases toList_toString_cases n with ⟨m, -, he⟩ | ⟨m, -, -, he⟩
  · rw [he]
    exact Nat.toDigits_ne_nil
  · rw [he]
    exact List.cons_ne_nil _ _

/-- A number is what its characters are read as, up to the first that no number has. -/
theorem lexeme?_of_numeric {a rest : List Char} (ha : a ≠ []) (h : ∀ c ∈ a, isNumeric c = true)
    (hr : rest.head?.any isNumeric = false) :
    lexeme? (a ++ rest) = (number? a).map fun p => (some (.scalar p.1), p.2) := by
  have htake : (a ++ rest).takeWhile isNumeric = a := by
    rw [takeWhile_append_of_boundary a hr, List.takeWhile_eq_self_iff.mpr h]
  obtain ⟨c, a, rfl⟩ := List.exists_cons_of_ne_nil ha
  have hc : isNumeric c = true := h c List.mem_cons_self
  have hne {d : Char} (hd : isNumeric d = false) : c ≠ d := by
    rintro rfl
    rw [hc] at hd
    exact Bool.noConfusion hd
  have hblank : isBlank c = false := by
    simp [isBlank, hne (d := ' ') rfl, hne (d := '\n') rfl, hne (d := '\r') rfl,
      hne (d := '\t') rfl]
  have hwords : (words.find? fun w => (dropPrefix? w.1 (c :: a ++ rest)).isSome) = none := by
    simp [words, dropPrefix?, (hne (d := 'n') rfl).symm, (hne (d := 't') rfl).symm,
      (hne (d := 'f') rfl).symm]
  rw [List.cons_append] at htake hwords ⊢
  unfold lexeme?
  simp only [hblank, Bool.false_eq_true, if_false]
  split
  all_goals try exact absurd rfl (hne rfl)
  rw [hwords, htake]

theorem lexeme?_toString {n : Int} (hmin : minInt ≤ n) (hmax : n ≤ maxInt) {rest : List Char}
    (hr : rest.head?.any isNumeric = false) :
    lexeme? ((toString n).toList ++ rest) =
      some (some (.scalar (.int n)), (toString n).toList.length) := by
  rw [lexeme?_of_numeric (toList_toString_ne_nil n) isNumeric_of_mem_toString hr,
    number?_toString hmin hmax]
  rfl

end Numbers

theorem lexeme?_word {w : List Char × Json} (h : w ∈ words) (rest : List Char) :
    lexeme? (w.1 ++ rest) = some (some (.scalar w.2), w.1.length) := by
  simp only [words, List.mem_cons, List.not_mem_nil, or_false] at h
  rcases h with rfl | rfl | rfl
  all_goals rfl

section Controls

/-- No control character, so nothing that would end a line. -/
def Flat (cs : List Char) : Prop := ∀ c ∈ cs, 32 ≤ c.toNat

/-- Decided along the text, as white space is. -/
instance (cs : List Char) : Decidable (Flat cs) :=
  List.decidableBAll (fun c : Char => 32 ≤ c.toNat) cs

namespace Flat

theorem append {a b : List Char} (ha : Flat a) (hb : Flat b) : Flat (a ++ b) :=
  List.forall_mem_append.mpr ⟨ha, hb⟩

theorem cons {c : Char} {cs : List Char} (hc : 32 ≤ c.toNat) (hcs : Flat cs) : Flat (c :: cs) :=
  List.forall_mem_cons.mpr ⟨hc, hcs⟩

theorem newline_not_mem {cs : List Char} (h : Flat cs) : '\n' ∉ cs :=
  fun hm => absurd (h '\n' hm) (by decide)

end Flat

theorem flat_of_numeric {cs : List Char} (h : ∀ c ∈ cs, isNumeric c = true) : Flat cs := by
  intro c hc
  have hnum := h c hc
  simp only [isNumeric, Char.isDigit, Bool.or_eq_true, Bool.and_eq_true, decide_eq_true_iff,
    beq_iff_eq] at hnum
  rcases hnum with ((((⟨hlow, -⟩ | rfl) | rfl) | rfl) | rfl) | rfl
  · exact Nat.le_trans (by decide) (UInt32.le_iff_toNat_le.mp hlow)
  all_goals decide

theorem flat_escapeChar (c : Char) : Flat (escapeChar c) := by
  rcases escapeChar_cases c with ⟨d, hd, he⟩ | ⟨hc, he⟩ | ⟨-, -, hc, he⟩
  · rw [he]
    unfold simpleEscape? at hd
    split at hd
    all_goals first | decide | exact absurd hd nofun
  · have hall : ∀ k < 32, Flat ['\\', 'u', '0', '0', hexDigit (k / 16), hexDigit (k % 16)] := by
      decide
    rw [he]
    exact hall _ hc
  · rw [he]
    exact List.forall_mem_singleton.mpr (Nat.le_of_not_lt hc)

theorem flat_printString (s : String) : Flat (printString s) := by
  have hescape : Flat (escape s.toList) := by
    intro c hc
    obtain ⟨d, -, hd⟩ := List.mem_flatMap.mp hc
    exact flat_escapeChar d c hd
  exact (hescape.cons (by decide)).append (by decide)

mutual

/-- Compact text has no control character, whatever the document holds. -/
theorem flat_print (v : Json) : Flat (print v) := by
  cases v with
  | null => rw [print]; decide
  | bool b => cases b <;> (rw [print]; decide)
  | int n =>
    rw [print]
    exact flat_of_numeric isNumeric_of_mem_toString
  | real negative significand exponent =>
    have hsign : Flat (if negative then ['-'] else []) := by cases negative <;> decide
    have hdigits : Flat (toString significand).toList :=
      flat_of_numeric (isNumeric_of_mem_toString (n := significand))
    have hexponent : Flat (toString exponent).toList := flat_of_numeric isNumeric_of_mem_toString
    have hmark : Flat "e".toList := by decide
    rw [print, String.toList_append, String.toList_append]
    exact hsign.append ((hdigits.append hmark).append hexponent)
  | str s =>
    rw [print]
    exact flat_printString s
  | arr items =>
    rw [print]
    exact ((flat_printItems items).cons (by decide)).append (by decide)
  | obj fields =>
    rw [print]
    exact ((flat_printFields fields).cons (by decide)).append (by decide)

theorem flat_printItems (vs : List Json) : Flat (printItems vs) := by
  match vs with
  | [] =>
    rw [printItems]
    decide
  | [v] =>
    rw [printItems]
    exact flat_print v
  | v :: w :: rest =>
    rw [printItems]
    exact (flat_print v).append ((flat_printItems (w :: rest)).cons (by decide))

theorem flat_printFields (fs : List (String × Json)) : Flat (printFields fs) := by
  match fs with
  | [] =>
    rw [printFields]
    decide
  | [(name, v)] =>
    rw [printFields]
    exact (flat_printString name).append ((flat_print v).cons (by decide))
  | (name, v) :: next :: rest =>
    have hfield : Flat (printString name ++ ':' :: print v) :=
      (flat_printString name).append ((flat_print v).cons (by decide))
    rw [printFields]
    exact hfield.append ((flat_printFields (next :: rest)).cons (by decide))

end

end Controls

end ScriptShell.Json

import ScriptShell.Proofs.Json.Spelling

/-!
White space after a document. A carriage return belongs to no token, so a text that is a document
with one at the end is the same document without it.
-/

namespace ScriptShell.Json

open Text

/-- A text that ends in a carriage return and starts with a part that holds none. -/
theorem exists_rest_of_append_return {cs a rest : List Char} (ha : '\r' ∉ a)
    (h : a ++ rest = cs ++ ['\r']) : ∃ rest', rest = rest' ++ ['\r'] ∧ cs = a ++ rest' := by
  rcases List.append_eq_append_iff.mp h.symm with ⟨b, hb, hr⟩ | ⟨b, hb, hr⟩
  · cases b with
    | nil => exact ⟨[], hr.symm, by rw [hb, List.append_nil, List.append_nil]⟩
    | cons c b =>
      refine absurd ?_ ha
      rw [hb, (List.cons.inj hr).1]
      exact List.mem_append_right _ List.mem_cons_self
  · exact ⟨b, hr, hb⟩

theorem hexValue?_return : hexValue? '\r' = none := by decide

theorem simpleEscape?_return : simpleEscape? '\r' = none := by decide

theorem return_not_mem_of_hex4? {a b c d : Char} {n : Nat} (h : hex4? a b c d = some n) :
    '\r' ∉ [a, b, c, d] := by
  intro hm
  have hn : hex4? a b c d = none := by
    unfold hex4?
    simp only [List.mem_cons, List.not_mem_nil, or_false] at hm
    rcases hm with rfl | rfl | rfl | rfl
    · rw [hexValue?_return]; rfl
    · rw [hexValue?_return]; cases hexValue? a <;> rfl
    · rw [hexValue?_return]; cases hexValue? a <;> cases hexValue? b <;> rfl
    · rw [hexValue?_return]; cases hexValue? a <;> cases hexValue? b <;> cases hexValue? c <;> rfl
  rw [hn] at h
  exact absurd h nofun

theorem exists_hex4?_of_stringBody? {a b c d : Char} {rest : List Char} {p : List Char × Nat}
    (h : stringBody? ('\\' :: 'u' :: a :: b :: c :: d :: rest) = some p) :
    ∃ n, hex4? a b c d = some n := by
  by_cases hm : ∃ e f g h rest', rest = '\\' :: 'u' :: e :: f :: g :: h :: rest'
  · obtain ⟨e, f, g, h', rest', rfl⟩ := hm
    rw [stringBody?] at h
    exact (Option.bind_eq_some_iff.mp h).imp fun _ hn => hn.1
  · rw [stringBody?.eq_3 _ _ _ _ _ fun e f g h rest' hr => hm ⟨e, f, g, h, rest', hr⟩] at h
    exact (Option.bind_eq_some_iff.mp h).imp fun _ hn => hn.1

/-- A string is closed by its quote, so a carriage return behind it plays no part. There is a case
for each way a string goes on, and none of them takes the return. -/
theorem stringBody?_of_append_return {cs : List Char} {p : List Char × Nat}
    (h : stringBody? (cs ++ ['\r']) = some p) : stringBody? cs = some p ∧ p.2 ≤ cs.length := by
  generalize hfull : cs ++ ['\r'] = full at h
  induction full using stringBody?.induct generalizing cs p with
  | case1 rest =>
    obtain ⟨rest', -, rfl⟩ := exists_rest_of_append_return (a := ['"']) (by decide) hfull.symm
    rw [stringBody?] at h
    rw [← Option.some.inj h]
    exact ⟨by rw [List.singleton_append, stringBody?], Nat.succ_le_succ (Nat.zero_le _)⟩
  | case2 a b c d e f g h' rest ih ihlow =>
    rw [stringBody?] at h
    obtain ⟨high, hhigh, h⟩ := Option.bind_eq_some_iff.mp h
    have hab := return_not_mem_of_hex4? hhigh
    split at h
    · next hsur =>
      obtain ⟨low, hlow, h⟩ := Option.bind_eq_some_iff.mp h
      have hef := return_not_mem_of_hex4? hlow
      split at h
      · next hlowsur =>
        obtain ⟨q, hq, rfl⟩ := Option.map_eq_some_iff.mp h
        obtain ⟨rest', rfl, rfl⟩ := exists_rest_of_append_return
          (a := ['\\', 'u', a, b, c, d, '\\', 'u', e, f, g, h']) (by simp_all) hfull.symm
        obtain ⟨hrest, hle⟩ := ih rfl hq
        refine ⟨?_, ?_⟩
        · simp only [List.cons_append, List.nil_append]
          rw [stringBody?, hhigh, hlow, hrest]
          simp [hsur, hlowsur]
        · simp; omega
      · exact absurd h.symm (Option.some_ne_none _)
    · next hsur =>
      split at h
      · exact absurd h.symm (Option.some_ne_none _)
      · next hlone =>
        obtain ⟨q, hq, rfl⟩ := Option.map_eq_some_iff.mp h
        obtain ⟨low, hlow⟩ := exists_hex4?_of_stringBody? hq
        have hef := return_not_mem_of_hex4? hlow
        obtain ⟨rest', rfl, rfl⟩ := exists_rest_of_append_return
          (a := ['\\', 'u', a, b, c, d, '\\', 'u', e, f, g, h']) (by simp_all) hfull.symm
        obtain ⟨hrest, hle⟩ := @ihlow (['\\', 'u', e, f, g, h'] ++ rest') _ rfl hq
        refine ⟨?_, ?_⟩
        · simp only [List.cons_append, List.nil_append] at hrest ⊢
          rw [stringBody?, hhigh, hrest]
          simp [hsur, hlone]
        · simp at hle ⊢; omega
  | case3 a b c d rest hno ih =>
    rw [stringBody?.eq_3 _ _ _ _ _ hno] at h
    obtain ⟨n, hn, h⟩ := Option.bind_eq_some_iff.mp h
    have hab := return_not_mem_of_hex4? hn
    split at h
    · exact absurd h.symm (Option.some_ne_none _)
    · next hlone =>
      obtain ⟨q, hq, rfl⟩ := Option.map_eq_some_iff.mp h
      obtain ⟨rest', rfl, rfl⟩ := exists_rest_of_append_return
        (a := ['\\', 'u', a, b, c, d]) (by simp_all) hfull.symm
      obtain ⟨hrest, hle⟩ := ih rfl hq
      refine ⟨?_, ?_⟩
      · simp only [List.cons_append, List.nil_append]
        rw [stringBody?.eq_3, hn, hrest]
        · simp [hlone]
        · rintro e f g h' r rfl
          exact hno e f g h' (r ++ ['\r']) rfl
      · simp; omega
  | case4 c rest hno hno' ih =>
    rw [stringBody?.eq_4 _ _ hno hno'] at h
    obtain ⟨d, hd, h⟩ := Option.bind_eq_some_iff.mp h
    obtain ⟨q, hq, rfl⟩ := Option.map_eq_some_iff.mp h
    have hc : c ≠ '\r' := by
      rintro rfl
      rw [simpleEscape?_return] at hd
      exact absurd hd.symm (Option.some_ne_none _)
    obtain ⟨rest', rfl, rfl⟩ := exists_rest_of_append_return
      (a := ['\\', c]) (by simp_all [Ne.symm hc]) hfull.symm
    obtain ⟨hrest, hle⟩ := ih rfl hq
    refine ⟨?_, ?_⟩
    · simp only [List.cons_append, List.nil_append]
      rw [stringBody?_lettered hd, hrest]
      rfl
    · simp; omega
  | case5 c rest hq h1 h2 h3 hbad =>
    rw [stringBody?.eq_5 _ _ hq h1 h2 h3, if_pos hbad] at h
    exact absurd h.symm (Option.some_ne_none _)
  | case6 c rest hq h1 h2 h3 hgood ih =>
    rw [stringBody?.eq_5 _ _ hq h1 h2 h3, if_neg hgood] at h
    obtain ⟨q, hq', rfl⟩ := Option.map_eq_some_iff.mp h
    have hc : c ≠ '\r' := by
      rintro rfl
      exact hgood (by decide)
    obtain ⟨rest', rfl, rfl⟩ := exists_rest_of_append_return
      (a := [c]) (by simp_all [Ne.symm hc]) hfull.symm
    obtain ⟨hrest, hle⟩ := ih rfl hq'
    rw [Bool.or_eq_true, decide_eq_true_iff, beq_iff_eq, not_or] at hgood
    refine ⟨?_, ?_⟩
    · rw [List.singleton_append, stringBody?_plain hq hgood.2 hgood.1, hrest]
      rfl
    · simp; omega
  | case7 =>
    rw [stringBody?] at h
    exact absurd h.symm (Option.some_ne_none _)

theorem isSome_dropPrefix?_append {p : List Char} {c : Char} (hc : c ∉ p) (cs : List Char) :
    (dropPrefix? p (cs ++ [c])).isSome = (dropPrefix? p cs).isSome := by
  induction p generalizing cs with
  | nil => rfl
  | cons d p ih =>
    rw [List.mem_cons, not_or] at hc
    cases cs with
    | nil => simp only [List.nil_append, dropPrefix?, if_neg (Ne.symm hc.1)]
    | cons e cs =>
      rw [List.cons_append, dropPrefix?, dropPrefix?]
      split
      · exact ih hc.2 cs
      · rfl

theorem length_le_of_isSome_dropPrefix? {p cs : List Char}
    (h : (dropPrefix? p cs).isSome = true) : p.length ≤ cs.length := by
  obtain ⟨rest, hrest⟩ := Option.isSome_iff_exists.mp h
  rw [eq_append_of_dropPrefix? hrest, List.length_append]
  exact Nat.le_add_right _ _

/-- A number takes no more characters than there are. -/
theorem number?_le {cs : List Char} {p : Json × Nat} (h : number? cs = some p) :
    p.2 ≤ cs.length := by
  unfold number? at h
  simp only [Option.bind_eq_bind, Option.bind_eq_some_iff] at h
  obtain ⟨⟨whole, rest⟩, -, ⟨fraction, rest'⟩, -, ⟨exponent, rest''⟩, -, h⟩ := h
  have key {c d : Prop} [Decidable c] [Decidable d] {v w : Json}
      (he : (if c then some (v, cs.length - rest''.length)
        else if d then some (w, cs.length - rest''.length) else none) = some p) :
      p.2 = cs.length - rest''.length := by
    split at he
    · exact (congrArg Prod.snd (Option.some.inj he)).symm
    · exact (congrArg Prod.snd (Option.some.inj (Option.ite_none_right_eq_some.mp he).2)).symm
  rw [key h]
  exact Nat.sub_le _ _

/-- The first token of a text is not changed by a carriage return at the end. -/
theorem lexeme?_of_append_return {c : Char} {cs : List Char} {p : Option Token × Nat}
    (h : lexeme? (c :: (cs ++ ['\r'])) = some p) :
    lexeme? (c :: cs) = some p ∧ p.2 ≤ cs.length + 1 := by
  have hone {q : Option Token} (he : some (q, 1) = some p) : p.2 ≤ cs.length + 1 := by
    rw [← Option.some.inj he]
    exact Nat.succ_le_succ (Nat.zero_le _)
  unfold lexeme? at h ⊢
  simp only at h ⊢
  split at h
  · next hblank =>
    rw [if_pos hblank]
    exact ⟨h, hone h⟩
  · next hblank =>
    rw [if_neg hblank]
    split at h
    case h_7 =>
      obtain ⟨q, hq, rfl⟩ := Option.map_eq_some_iff.mp h
      obtain ⟨hbody, hle⟩ := stringBody?_of_append_return hq
      simp only
      rw [hbody]
      exact ⟨rfl, Nat.succ_le_succ hle⟩
    case h_8 =>
      have hw : (words.find? fun w => (dropPrefix? w.1 (c :: (cs ++ ['\r']))).isSome) =
          words.find? fun w => (dropPrefix? w.1 (c :: cs)).isSome := by
        rw [← List.cons_append]
        simp (disch := decide) only [words, List.find?_cons, List.find?_nil,
          isSome_dropPrefix?_append]
      have hn : ['\r'].head?.any isNumeric = false := by decide
      rw [hw, ← List.cons_append, takeWhile_append_of_boundary (c :: cs) hn] at h
      refine ⟨by simp_all, ?_⟩
      split at h
      · next word v hword =>
        have hsome := List.find?_some hword
        rw [← Option.some.inj h]
        exact length_le_of_isSome_dropPrefix? hsome
      · obtain ⟨q, hq, rfl⟩ := Option.map_eq_some_iff.mp h
        have hle := number?_le hq
        have htake := (List.takeWhile_sublist isNumeric (l := c :: cs)).length_le
        rw [List.length_cons] at htake
        exact Nat.le_trans hle htake
    all_goals exact ⟨h, hone h⟩

/-- Tokens end before a carriage return at the end. -/
theorem tokensFrom?_of_append_return {skip : Nat} {cs : List Char} {ts : List Token}
    (hs : skip ≤ cs.length) (h : tokensFrom? skip (cs ++ ['\r']) = some ts) :
    tokensFrom? skip cs = some ts := by
  induction cs generalizing skip ts with
  | nil =>
    rw [Nat.le_zero.mp hs] at h ⊢
    exact h
  | cons c cs ih =>
    cases skip with
    | succ skip => exact ih (Nat.le_of_succ_le_succ hs) h
    | zero =>
      rw [List.cons_append, tokensFrom?] at h
      obtain ⟨⟨token, n⟩, hlex, h⟩ := Option.bind_eq_some_iff.mp h
      obtain ⟨rest, hrest, h⟩ := Option.bind_eq_some_iff.mp h
      obtain ⟨hlex', hn⟩ := lexeme?_of_append_return hlex
      simp only at hn hrest
      rw [tokensFrom?, hlex']
      simp only [Option.bind_eq_bind, Option.bind_some]
      rw [ih (by omega) hrest]
      exact h

/-- A document is the same without a carriage return behind it. -/
theorem parse?_of_append_return {cs : List Char} {v : Json}
    (h : parse? (String.ofList (cs ++ ['\r'])) = some v) : parse? (String.ofList cs) = some v := by
  unfold parse? tokens? at h ⊢
  rw [String.toList_ofList] at h ⊢
  obtain ⟨ts, hts, h⟩ := Option.bind_eq_some_iff.mp h
  rw [tokensFrom?_of_append_return (Nat.zero_le _) hts]
  exact h

end ScriptShell.Json

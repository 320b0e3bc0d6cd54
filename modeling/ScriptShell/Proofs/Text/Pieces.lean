import ScriptShell.Proofs.Text.Utf8

/-!
Pieces of a sequence that separators close. A closed sequence is cut independently of what follows
it, and the lines of a text are cut in its UTF-8 form where they are cut in the text.
-/

namespace ScriptShell.Text

variable {α : Type} [DecidableEq α] {sep : α}

/-- What a separator-free start makes of the pieces after it. -/
def startingWith (a : List α) : List (List α × Bool) → List (List α × Bool)
  | [] => [(a, false)]
  | (p, closed) :: ps => (a ++ p, closed) :: ps

theorem pieces_cons_sep (cs : List α) : pieces sep (sep :: cs) = ([], true) :: pieces sep cs := by
  rw [pieces, if_pos rfl]

theorem pieces_cons_of_ne {c : α} (h : c ≠ sep) (cs : List α) :
    pieces sep (c :: cs) = startingWith [c] (pieces sep cs) := by
  rw [pieces, if_neg h]
  cases pieces sep cs with
  | nil => rfl
  | cons p ps => rfl

theorem pieces_append_of_not_mem {a : List α} (ha : sep ∉ a) (hne : a ≠ []) (b : List α) :
    pieces sep (a ++ b) = startingWith a (pieces sep b) := by
  induction a with
  | nil => exact absurd rfl hne
  | cons c a ih =>
    rw [List.mem_cons, not_or] at ha
    rw [List.cons_append, pieces_cons_of_ne (Ne.symm ha.1)]
    cases a with
    | nil => rfl
    | cons d a =>
      rw [ih ha.2 nofun]
      cases pieces sep b with
      | nil => rfl
      | cons p ps => rfl

/-- A separator closes what stands before it. -/
theorem pieces_line {a : List α} (ha : sep ∉ a) (b : List α) :
    pieces sep (a ++ sep :: b) = (a, true) :: pieces sep b := by
  by_cases hne : a = []
  · rw [hne, List.nil_append, pieces_cons_sep]
  · rw [pieces_append_of_not_mem ha hne, pieces_cons_sep, startingWith, List.append_nil]

theorem not_mem_of_mem_pieces {cs : List α} {p : List α × Bool} (h : p ∈ pieces sep cs) :
    sep ∉ p.1 := by
  induction cs generalizing p with
  | nil => exact absurd h List.not_mem_nil
  | cons c cs ih =>
    by_cases hc : c = sep
    · rw [hc, pieces_cons_sep] at h
      rcases List.mem_cons.mp h with h | h
      · rw [h]
        exact List.not_mem_nil
      · exact ih h
    · rw [pieces_cons_of_ne hc] at h
      generalize pieces sep cs = ps at h ih
      cases ps with
      | nil =>
        rw [List.mem_singleton.mp h]
        exact fun hm => hc (List.mem_singleton.mp hm).symm
      | cons q ps =>
        rcases List.mem_cons.mp h with h | h
        · rw [h]
          intro hm
          rcases List.mem_cons.mp hm with hm | hm
          · exact hc hm.symm
          · exact ih List.mem_cons_self hm
        · exact ih (List.mem_cons_of_mem q h)

/-- A separator ends the sequence, unless that is empty. -/
def Closed (sep : α) (cs : List α) : Prop := ∀ p ∈ pieces sep cs, p.2 = true

theorem closed_nil : Closed sep [] := fun _ h => absurd h List.not_mem_nil

theorem pieces_append {a : List α} (ha : Closed sep a) (b : List α) :
    pieces sep (a ++ b) = pieces sep a ++ pieces sep b := by
  induction a with
  | nil => rfl
  | cons c a ih =>
    by_cases hc : c = sep
    · rw [Closed, hc, pieces_cons_sep] at ha
      rw [hc, List.cons_append, pieces_cons_sep, pieces_cons_sep,
        ih (List.forall_mem_cons.mp ha).2]
      rfl
    · rw [Closed, pieces_cons_of_ne hc] at ha
      rw [List.cons_append, pieces_cons_of_ne hc, pieces_cons_of_ne hc]
      unfold Closed at ih
      generalize pieces sep a = ps at ha ih
      cases ps with
      | nil => exact absurd (ha _ List.mem_cons_self) nofun
      | cons p ps =>
        rw [ih (List.forall_mem_cons.mpr (List.forall_mem_cons.mp ha))]
        rfl

theorem Closed.append {a b : List α} (ha : Closed sep a) (hb : Closed sep b) :
    Closed sep (a ++ b) := by
  intro p hp
  rw [pieces_append ha] at hp
  rcases List.mem_append.mp hp with hp | hp
  · exact ha p hp
  · exact hb p hp

theorem closed_concat (cs : List α) : Closed sep (cs ++ [sep]) := by
  induction cs with
  | nil =>
    rw [Closed, List.nil_append, pieces_cons_sep]
    exact List.forall_mem_singleton.mpr rfl
  | cons c cs ih =>
    by_cases hc : c = sep
    · rw [Closed, hc, List.cons_append, pieces_cons_sep]
      exact List.forall_mem_cons.mpr ⟨rfl, ih⟩
    · rw [Closed, List.cons_append, pieces_cons_of_ne hc]
      unfold Closed at ih
      have hne : pieces sep (cs ++ [sep]) ≠ [] := by
        intro h
        have hj := joinPieces_pieces sep (cs ++ [sep])
        rw [h] at hj
        exact absurd hj.symm (List.append_ne_nil_of_right_ne_nil _ nofun)
      generalize pieces sep (cs ++ [sep]) = ps at ih hne
      cases ps with
      | nil => exact absurd rfl hne
      | cons p ps => exact List.forall_mem_cons.mpr (List.forall_mem_cons.mp ih)

omit [DecidableEq α] in
theorem joinPieces_append (ps qs : List (List α × Bool)) :
    joinPieces sep (ps ++ qs) = joinPieces sep ps ++ joinPieces sep qs := by
  induction ps with
  | nil => rfl
  | cons p ps ih =>
    obtain ⟨text, closed⟩ := p
    simp only [List.cons_append, joinPieces, ih, List.append_assoc]

/-- Closed pieces are cut again where they were joined. -/
theorem pieces_joinPieces {ps : List (List α × Bool)}
    (h : ∀ p ∈ ps, sep ∉ p.1 ∧ p.2 = true) : pieces sep (joinPieces sep ps) = ps := by
  induction ps with
  | nil => rfl
  | cons p ps ih =>
    obtain ⟨⟨hp, hclosed⟩, hps⟩ := List.forall_mem_cons.mp h
    obtain ⟨text, closed⟩ := p
    simp only at hp hclosed
    rw [hclosed, joinPieces, if_pos rfl, List.append_assoc, List.singleton_append,
      pieces_line hp, ih hps]

/-- The UTF-8 form of a text is cut at its newlines. -/
theorem pieces_encodeUtf8 (cs : List Char) :
    pieces 10 (encodeUtf8 cs) = (pieces '\n' cs).map fun p => (encodeUtf8 p.1, p.2) := by
  induction cs with
  | nil => rfl
  | cons c cs ih =>
    rw [encodeUtf8_cons]
    by_cases hc : c = '\n'
    · have hn : String.utf8EncodeChar '\n' = [10] := by decide
      rw [hc, hn, List.singleton_append, pieces_cons_sep, pieces_cons_sep, ih]
      rfl
    · rw [pieces_append_of_not_mem (fun hm => hc (newline_mem_utf8EncodeChar_iff.mp hm))
        String.utf8EncodeChar_ne_nil, ih, pieces_cons_of_ne hc]
      have hone : encodeUtf8 [c] = String.utf8EncodeChar c := List.append_nil _
      cases pieces '\n' cs with
      | nil => simp only [startingWith, List.map_nil, List.map_cons, hone]
      | cons p ps =>
        simp only [startingWith, List.map_cons, encodeUtf8_append, hone]

end ScriptShell.Text

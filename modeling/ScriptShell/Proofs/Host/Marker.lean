import ScriptShell.Host.Frame
import ScriptShell.Proofs.Text.Pieces
import ScriptShell.Proofs.Text.Words

/-!
Where a line holds the marker. The line ending plays no part in the search, and since the marker
holds no newline, it lies in a text exactly when it lies in one of its lines.
-/

namespace ScriptShell

open Text

namespace Text

/-- Only what follows the last character that stays is dropped. -/
theorem dropEndWhile_append_cons {p : Char → Bool} {c : Char} (hc : p c = false)
    (a b : List Char) : dropEndWhile p (a ++ c :: b) = a ++ c :: dropEndWhile p b := by
  have hr : (a ++ c :: b).reverse = b.reverse ++ c :: a.reverse := by
    rw [List.reverse_append, List.reverse_cons, List.append_assoc]
    rfl
  have hstay : (c :: a.reverse).head?.any p = false := hc
  rw [dropEndWhile, hr, dropWhile_append_of_boundary _ hstay, List.reverse_append,
    List.reverse_cons, List.reverse_reverse, List.append_assoc]
  rfl

theorem infix_dropEndWhile (p : Char → Bool) (cs : List Char) : dropEndWhile p cs <:+: cs := by
  have hs := List.dropWhile_suffix p (l := cs.reverse)
  have hp := List.reverse_prefix.mpr hs
  rw [List.reverse_reverse] at hp
  exact hp.isInfix

variable {α : Type} [DecidableEq α] {sep : α}

/-- A part without separators that lies in a sequence lies in one of its pieces. By induction on
what stands before it: the part starts the first piece, or it lies in what follows. -/
theorem exists_piece_of_infix {part cs : List α} (hs : sep ∉ part) (hne : part ≠ [])
    (h : part <:+: cs) : ∃ p ∈ pieces sep cs, part <:+: p.1 := by
  obtain ⟨a, b, rfl⟩ := h
  rw [List.append_assoc]
  induction a with
  | nil =>
    rw [List.nil_append, pieces_append_of_not_mem hs hne]
    cases pieces sep b with
    | nil => exact ⟨_, List.mem_singleton_self _, List.infix_rfl⟩
    | cons p ps => exact ⟨_, List.mem_cons_self, (List.prefix_append part p.1).isInfix⟩
  | cons c a ih =>
    obtain ⟨p, hp, hpart⟩ := ih
    rw [List.cons_append]
    by_cases hc : c = sep
    · rw [hc, pieces_cons_sep]
      exact ⟨p, List.mem_cons_of_mem _ hp, hpart⟩
    · rw [pieces_cons_of_ne hc]
      generalize pieces sep (a ++ (part ++ b)) = ps at hp
      cases ps with
      | nil => exact absurd hp List.not_mem_nil
      | cons q ps =>
        rcases List.mem_cons.mp hp with hp | hp
        · rw [hp] at hpart
          exact ⟨_, List.mem_cons_self, hpart.trans (List.suffix_append [c] q.1).isInfix⟩
        · exact ⟨p, List.mem_cons_of_mem _ hp, hpart⟩

/-- A piece lies in the sequence that it was cut from. -/
theorem infix_of_mem_pieces {cs : List α} {p : List α × Bool} (h : p ∈ pieces sep cs) :
    p.1 <:+: cs := by
  obtain ⟨before, after, hsplit⟩ := List.append_of_mem h
  have hj := joinPieces_pieces sep cs
  rw [hsplit, joinPieces_append, joinPieces] at hj
  refine ⟨joinPieces sep before, (if p.2 then [sep] else []) ++ joinPieces sep after, ?_⟩
  rw [← hj]
  simp only [List.append_assoc]

omit [DecidableEq α] in
/-- A part without separators does not reach past a separator at the end. -/
theorem infix_concat_iff_of_not_mem {part cs : List α} (hs : sep ∉ part) (hne : part ≠ []) :
    part <:+: cs ++ [sep] ↔ part <:+: cs := by
  rw [List.infix_concat_iff, List.suffix_concat_iff]
  constructor
  · rintro ((hnil | ⟨t, ht, -⟩) | h)
    · exact absurd hnil hne
    · rw [ht] at hs
      exact absurd List.mem_concat_self hs
    · exact h
  · exact Or.inr

end Text

namespace Frame

theorem eq_append_of_cutAt? {part cs a b : List Char} (h : cutAt? part cs = some (a, b)) :
    cs = a ++ part ++ b := by
  induction cs generalizing a with
  | nil =>
    obtain ⟨rest, hrest, he⟩ := Option.map_eq_some_iff.mp h
    obtain ⟨rfl, rfl⟩ := Prod.mk.inj he
    exact eq_append_of_dropPrefix? hrest
  | cons c cs ih =>
    rw [cutAt?] at h
    split at h
    · next rest hrest =>
      obtain ⟨rfl, rfl⟩ := Prod.mk.inj (Option.some.inj h)
      exact eq_append_of_dropPrefix? hrest
    · obtain ⟨⟨a', b'⟩, hcut, he⟩ := Option.map_eq_some_iff.mp h
      obtain ⟨rfl, rfl⟩ := Prod.mk.inj he
      rw [ih hcut]
      rfl

theorem cutAt?_append (part b : List Char) : cutAt? part (part ++ b) = some ([], b) := by
  have hp := dropPrefix?_append part b
  generalize part ++ b = cs at hp
  cases cs with
  | nil => rw [cutAt?, hp]; rfl
  | cons c cs => rw [cutAt?, hp]

/-- The search finds nothing exactly when there is nothing. -/
theorem cutAt?_eq_none_iff {part cs : List Char} : cutAt? part cs = none ↔ ¬part <:+: cs := by
  constructor
  · rintro h ⟨a, b, rfl⟩
    rw [List.append_assoc] at h
    induction a with
    | nil =>
      rw [List.nil_append, cutAt?_append] at h
      exact absurd h nofun
    | cons c a ih =>
      rw [List.cons_append, cutAt?] at h
      split at h
      · exact absurd h nofun
      · exact ih (Option.map_eq_none_iff.mp h)
  · intro h
    cases hc : cutAt? part cs with
    | none => rfl
    | some found => exact absurd ⟨found.1, found.2, (eq_append_of_cutAt? hc).symm⟩ h

theorem marker_eq : marker = "@@scriptify@@".toList ++ [' '] := rfl

theorem not_mem_marker : '\n' ∉ marker := by decide

/-- The newline at the end of a line plays no part in the search. -/
theorem marker_infix_concat_iff {cs : List Char} : marker <:+: cs ++ ['\n'] ↔ marker <:+: cs :=
  infix_concat_iff_of_not_mem not_mem_marker (by decide)

/-- The marker is no part of a line ending: it ends in a space, which stops the search for one. -/
theorem dropEndWhile_marker (a b : List Char) :
    dropEndWhile isLineEnd (a ++ marker ++ b) = a ++ marker ++ dropEndWhile isLineEnd b := by
  have hsplit (cs : List Char) :
      a ++ marker ++ cs = (a ++ "@@scriptify@@".toList) ++ ' ' :: cs := by
    rw [marker_eq]
    simp only [List.append_assoc, List.singleton_append]
  rw [hsplit, hsplit]
  exact dropEndWhile_append_cons (by decide) _ b

/-- A line without the marker, and only such a line, is no answer. -/
theorem decodeLine?_eq_none_iff {line : List Char} :
    decodeLine? line = none ↔ ¬marker <:+: line := by
  rw [decodeLine?, Option.map_eq_none_iff, cutAt?_eq_none_iff]
  refine not_congr ⟨?_, ?_⟩
  · intro h
    exact h.trans (infix_dropEndWhile isLineEnd line)
  · rintro ⟨a, b, rfl⟩
    rw [dropEndWhile_marker]
    exact ⟨a, dropEndWhile isLineEnd b, rfl⟩

end Frame

end ScriptShell

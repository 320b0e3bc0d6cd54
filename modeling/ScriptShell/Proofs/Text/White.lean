import ScriptShell.Proofs.Text.Words

/-!
White space around a text. A text is its trimmed form between two runs of white space, and trimming
gives back whatever neither starts nor ends with white space.
-/

namespace ScriptShell

open Text

/-- White space and nothing else. -/
def IsWhite (cs : List Char) : Prop := ∀ c ∈ cs, isSpace c = true

/-- Decided along the text: there are instances that run through all characters instead. -/
instance : DecidablePred IsWhite := fun cs => List.decidableBAll (isSpace · = true) cs

theorem isWhite_singleton {c : Char} (hc : isSpace c = true) : IsWhite [c] :=
  fun _ hd => List.mem_singleton.mp hd ▸ hc

theorem IsWhite.append {a b : List Char} (ha : IsWhite a) (hb : IsWhite b) : IsWhite (a ++ b) :=
  fun c hc => (List.mem_append.mp hc).elim (ha c) (hb c)

/-- A run of white space ends where something else comes. -/
theorem dropWhile_white_append {white : List Char} (h : IsWhite white) {rest : List Char}
    (hrest : rest.head?.any isSpace = false) : (white ++ rest).dropWhile isSpace = rest := by
  rw [List.dropWhile_append_of_pos h]
  cases rest with
  | nil => rfl
  | cons c rest => exact List.dropWhile_cons_of_neg (Bool.eq_false_iff.mp hrest)

theorem eq_white_append_dropWhile (cs : List Char) :
    ∃ white, cs = white ++ cs.dropWhile isSpace ∧ IsWhite white :=
  ⟨cs.takeWhile isSpace, List.takeWhile_append_dropWhile.symm, fun _ => List.mem_takeWhile_imp⟩

namespace Text

theorem trim_ne_nil {cs : List Char} {c : Char} (hc : c ∈ cs) (hs : isSpace c = false) :
    trim cs ≠ [] := by
  have hdrop {cs : List Char} (hc : c ∈ cs) : c ∈ cs.dropWhile isSpace := by
    rw [← List.takeWhile_append_dropWhile (p := isSpace) (l := cs)] at hc
    rcases List.mem_append.mp hc with hc | hc
    · exact absurd ((List.mem_takeWhile_imp hc).symm.trans hs) nofun
    · exact hc
  intro hnil
  have hm : c ∈ trim cs := by
    unfold trim trimEnd dropEndWhile trimStart
    exact List.mem_reverse.mpr (hdrop (List.mem_reverse.mpr (hdrop hc)))
  rw [hnil] at hm
  exact absurd hm List.not_mem_nil

theorem trim_eq_nil_of_spaces {cs : List Char} (h : ∀ c ∈ cs, isSpace c = true) : trim cs = [] := by
  unfold trim trimStart
  rw [List.dropWhile_eq_nil_iff.mpr h]
  rfl

theorem trim_concat (cs : List Char) {c : Char} (hc : isSpace c = true) :
    trim (cs ++ [c]) = trim cs := by
  by_cases hall : ∀ d ∈ cs, isSpace d = true
  · have hmore : ∀ d ∈ cs ++ [c], isSpace d = true := by
      intro d hd
      rcases List.mem_append.mp hd with hd | hd
      · exact hall d hd
      · rw [List.mem_singleton.mp hd]
        exact hc
    rw [trim_eq_nil_of_spaces hall, trim_eq_nil_of_spaces hmore]
  · have hne : cs.dropWhile isSpace ≠ [] := by
      intro hnil
      apply hall
      intro d hd
      rw [← List.takeWhile_append_dropWhile (p := isSpace) (l := cs), hnil, List.append_nil] at hd
      exact List.mem_takeWhile_imp hd
    have hstart : (cs ++ [c]).dropWhile isSpace = cs.dropWhile isSpace ++ [c] := by
      rw [List.dropWhile_append, List.isEmpty_eq_false_iff.mpr hne]
      rfl
    unfold trim trimStart trimEnd dropEndWhile
    rw [hstart, List.reverse_concat, List.dropWhile_cons_of_pos hc]

theorem trim_append_white {after : List Char} (h : IsWhite after) (cs : List Char) :
    trim (cs ++ after) = trim cs := by
  induction after generalizing cs with
  | nil => rw [List.append_nil]
  | cons c after ih =>
    obtain ⟨hc, hafter⟩ := List.forall_mem_cons.mp h
    rw [List.append_cons, ih hafter, trim_concat cs hc]

theorem trim_white_append {before : List Char} (h : IsWhite before) (cs : List Char) :
    trim (before ++ cs) = trim cs := by
  unfold trim trimStart
  rw [List.dropWhile_append_of_pos h]

theorem head?_reverse_any {q : Char → Bool} {cs : List Char} (h : cs.getLast?.any q = false) :
    cs.reverse.head?.any q = false := by
  rw [List.head?_reverse]
  exact h

/-- A text is itself without the white space around it. -/
theorem exists_eq_append_trim (cs : List Char) :
    ∃ before after, cs = before ++ (trim cs ++ after) ∧ IsWhite before ∧ IsWhite after := by
  obtain ⟨before, hcs, hbefore⟩ := eq_white_append_dropWhile cs
  obtain ⟨after, hend, hafter⟩ := eq_white_append_dropWhile (cs.dropWhile isSpace).reverse
  refine ⟨before, after.reverse, ?_, hbefore, fun c hc => hafter c (List.mem_reverse.mp hc)⟩
  calc cs = before ++ ((cs.dropWhile isSpace).reverse).reverse := by rw [List.reverse_reverse, ← hcs]
    _ = before ++ (trim cs ++ after.reverse) := by
      rw [hend, List.reverse_append]
      rfl

theorem trim_of_white_around {before core after : List Char} (hbefore : IsWhite before)
    (hfirst : core.head?.any isSpace = false) (hlast : core.getLast?.any isSpace = false)
    (hafter : IsWhite after) : trim (before ++ (core ++ after)) = core := by
  by_cases hne : core = []
  · apply (trim_eq_nil_of_spaces ?_).trans hne.symm
    rw [hne, List.nil_append]
    intro c hc
    exact (List.mem_append.mp hc).elim (hbefore c) (hafter c)
  · have hstart : (core ++ after).head?.any isSpace = false := by
      obtain ⟨c, rest, rfl⟩ := List.exists_cons_of_ne_nil hne
      exact hfirst
    have hreverse : IsWhite after.reverse := fun c hc => hafter c (List.mem_reverse.mp hc)
    unfold trim trimStart trimEnd dropEndWhile
    rw [dropWhile_white_append hbefore hstart, List.reverse_append,
      dropWhile_white_append hreverse (head?_reverse_any hlast), List.reverse_reverse]

theorem trim_eq_nil_iff {cs : List Char} : trim cs = [] ↔ IsWhite cs := by
  refine ⟨fun h c hc => ?_, trim_eq_nil_of_spaces⟩
  by_cases hs : isSpace c = true
  · exact hs
  · exact absurd h (trim_ne_nil hc (Bool.eq_false_iff.mpr hs))

theorem isSome_dropPrefix?_iff {start cs : List Char} :
    (dropPrefix? start cs).isSome = true ↔ start <+: cs := by
  rw [Option.isSome_iff_exists]
  constructor
  · rintro ⟨rest, h⟩
    exact ⟨rest, (eq_append_of_dropPrefix? h).symm⟩
  · rintro ⟨rest, rfl⟩
    exact ⟨rest, dropPrefix?_append start rest⟩

theorem dropPrefix?_eq_none_iff {start cs : List Char} :
    dropPrefix? start cs = none ↔ ¬start <+: cs := by
  rw [← Option.isNone_iff_eq_none, ← Option.isSome_eq_false_iff, Bool.eq_false_iff, ne_eq,
    isSome_dropPrefix?_iff]

theorem dropSuffix?_eq_none_iff {ending cs : List Char} :
    dropSuffix? ending cs = none ↔ ¬ending <:+ cs := by
  rw [dropSuffix?, Option.map_eq_none_iff, dropPrefix?_eq_none_iff, List.reverse_prefix]

theorem dropSuffix?_append (cs ending : List Char) : dropSuffix? ending (cs ++ ending) = some cs := by
  rw [dropSuffix?, List.reverse_append, dropPrefix?_append, Option.map_some, List.reverse_reverse]

theorem trim_prefix_trimStart (cs : List Char) : trim cs <+: trimStart cs := by
  have hsuffix := List.dropWhile_suffix isSpace (l := (trimStart cs).reverse)
  have hprefix := List.reverse_prefix.mpr hsuffix
  rw [List.reverse_reverse] at hprefix
  exact hprefix

/-- Neither the first nor the last character is white space. -/
def IsTrimmed (cs : List Char) : Prop :=
  cs.head?.any isSpace = false ∧ cs.getLast?.any isSpace = false

instance : DecidablePred IsTrimmed := fun _ => inferInstanceAs (Decidable (_ ∧ _))

theorem isTrimmed_trim (cs : List Char) : IsTrimmed (trim cs) := by
  constructor
  · obtain ⟨rest, hrest⟩ := trim_prefix_trimStart cs
    have hstart := head?_any_dropWhile isSpace cs
    cases ht : trim cs with
    | nil => rfl
    | cons c t =>
      rw [trimStart, ht] at hrest
      rw [← hrest] at hstart
      exact hstart
  · unfold trim trimEnd dropEndWhile
    rw [List.getLast?_reverse]
    exact head?_any_dropWhile isSpace _

theorem IsTrimmed.trim_eq {cs : List Char} (h : IsTrimmed cs) : trim cs = cs := by
  have htrim := trim_of_white_around (List.forall_mem_nil _) h.1 h.2 (List.forall_mem_nil _)
  rw [List.nil_append, List.append_nil] at htrim
  exact htrim

theorem mem_of_mem_trim {cs : List Char} {c : Char} (h : c ∈ trim cs) : c ∈ cs := by
  obtain ⟨before, after, hcs, -⟩ := exists_eq_append_trim cs
  rw [hcs]
  exact List.mem_append_right before (List.mem_append_left after h)

end Text

theorem trim_eq_empty_iff (s : String) : trim s = "" ↔ isBlank s = true := by
  have hnil : trim s = "" ↔ Text.trim s.toList = [] := by
    rw [← String.toList_inj, trim, String.toList_ofList]
    rfl
  rw [hnil, isBlank, List.all_eq_true]
  constructor
  · intro h c hc
    by_cases hs : isSpace c = true
    · exact hs
    · exact absurd h (trim_ne_nil hc (Bool.eq_false_iff.mpr hs))
  · exact trim_eq_nil_of_spaces

end ScriptShell

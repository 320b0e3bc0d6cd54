import ScriptShell.Proofs.Alias.Name
import ScriptShell.Proofs.Text.White

/-!
Import declarations as they are written. The grammar is said once, by the ways to write an import,
and the reader accepts what is written that way and nothing else. So a declaration can be read in one
way only, even where the names in it are `use` or `as` themselves.
-/

namespace ScriptShell

open Text

/-- White space that keeps two words apart. -/
def IsGap (cs : List Char) : Prop := cs ≠ [] ∧ IsWhite cs

theorem IsGap.head?_any {cs : List Char} (h : IsGap cs) (rest : List Char) :
    (cs ++ rest).head?.any isSpace = true := by
  obtain ⟨c, tail, hcs⟩ := List.exists_cons_of_ne_nil h.1
  rw [hcs]
  exact h.2 c (hcs ▸ List.mem_cons_self)

theorem IsName.head?_any_isSpace {cs : List Char} (h : IsName cs) (rest : List Char) :
    (cs ++ rest).head?.any isSpace = false := by
  obtain ⟨c, tail, hcs, hc, -⟩ := h
  rw [hcs]
  exact not_isSpace_of_isWord (isWord_of_isNameStart hc)

theorem IsQualified.head? {cs : List Char} (h : IsQualified cs) :
    ∃ c tail, cs = c :: tail ∧ isNameStart c = true := by
  obtain ⟨name, rest, hcs, ⟨c, tail, hname, hc, -⟩, -⟩ := h.split_first
  exact ⟨c, tail ++ rest, by rw [hcs, hname, List.cons_append], hc⟩

namespace Import

/-- What stands between the qualified name and the end, and the short name that it gives: nothing,
which gives the last of the names, or a clause. -/
inductive Clause (qualified : List Char) : List Char → List Char → Prop
  | last {short : List Char} (h : (segments qualified).getLast? = some short) :
      Clause qualified short []
  | named {short before after : List Char} (apart : IsGap before) (apart' : IsGap after)
      (h : IsName short) : Clause qualified short (before ++ 'a' :: 's' :: (after ++ short))

/-- The import is written like this: `use`, a qualified name, perhaps with a backslash before it,
perhaps a clause, and a semicolon. -/
inductive Spells : Import → List Char → Prop
  | mk {gap root qualified short clause close : List Char} (apart : IsGap gap)
      (rooted : root = [] ∨ root = ['\\']) (named : IsQualified qualified)
      (binds : Clause qualified short clause) (white : IsWhite close) :
      Spells ⟨String.ofList short, String.ofList qualified⟩
        ('u' :: 's' :: 'e' :: (gap ++ (root ++ (qualified ++ (clause ++ (close ++ [';']))))))

theorem dropSpaces?_eq_some_iff {cs rest : List Char} : dropSpaces? cs = some rest ↔
    ∃ gap, cs = gap ++ rest ∧ IsGap gap ∧ rest.head?.any isSpace = false := by
  constructor
  · intro h
    cases cs with
    | nil => exact absurd h nofun
    | cons c cs =>
      rw [dropSpaces?] at h
      split at h
      · next hc =>
        obtain ⟨white, hcs, hwhite⟩ := eq_white_append_dropWhile cs
        have hrest := Option.some.inj h
        rw [hrest] at hcs
        refine ⟨c :: white, congrArg (c :: ·) hcs, ⟨List.cons_ne_nil c white, ?_⟩, ?_⟩
        · exact List.forall_mem_cons.mpr ⟨hc, hwhite⟩
        · rw [← hrest]
          exact head?_any_dropWhile isSpace cs
      · exact absurd h nofun
  · rintro ⟨gap, rfl, ⟨hne, hwhite⟩, hrest⟩
    obtain ⟨c, gap, rfl⟩ := List.exists_cons_of_ne_nil hne
    obtain ⟨hc, hgap⟩ := List.forall_mem_cons.mp hwhite
    rw [List.cons_append, dropSpaces?, if_pos hc, dropWhile_white_append hgap hrest]

theorem takeName?_append {name rest : List Char} (h : IsName name)
    (hrest : rest.head?.any isWord = false) : takeName? (name ++ rest) = some (name, rest) := by
  obtain ⟨c, tail, rfl, hc, htail⟩ := h
  have hdrop : (tail ++ rest).dropWhile isWord = rest := by
    rw [List.dropWhile_append_of_pos htail]
    cases rest with
    | nil => rfl
    | cons d rest => exact List.dropWhile_cons_of_neg (Bool.eq_false_iff.mp hrest)
  rw [List.cons_append, takeName?, if_pos hc, takeWhile_append_of_boundary tail hrest,
    List.takeWhile_eq_self_iff.mpr htail, hdrop]

theorem append_of_takeName? {cs name rest : List Char} (h : takeName? cs = some (name, rest)) :
    cs = name ++ rest := by
  cases cs with
  | nil => cases h
  | cons c cs =>
    rw [takeName?] at h
    split at h
    · obtain ⟨hname, hrest⟩ := Prod.mk.inj (Option.some.inj h)
      rw [← hname, ← hrest, List.cons_append, List.takeWhile_append_dropWhile]
    · cases h

theorem takePath_append_snd (cs : List Char) : (takePath cs).1 ++ (takePath cs).2 = cs := by
  induction cs with
  | nil => rfl
  | cons c cs ih =>
    rw [takePath]
    split
    · exact congrArg (c :: ·) ih
    · rfl

theorem takePath_word {word : List Char} (h : ∀ c ∈ word, isWord c = true) (rest : List Char) :
    takePath (word ++ rest) = (word ++ (takePath rest).1, (takePath rest).2) := by
  induction word with
  | nil => rfl
  | cons c word ih =>
    obtain ⟨hc, hword⟩ := List.forall_mem_cons.mp h
    rw [List.cons_append, takePath, ih hword, if_pos (by rw [hc]; rfl), List.cons_append]

/-- A path ends before a character that is neither of a word nor a separator. -/
theorem takePath_append {qualified rest : List Char} (h : IsQualified qualified)
    (hrest : ∀ c, rest.head? = some c → isWord c = false ∧ c ≠ '\\') :
    takePath (qualified ++ rest) = (qualified, rest) := by
  have hend : takePath rest = ([], rest) := by
    cases rest with
    | nil => rfl
    | cons c rest =>
      obtain ⟨hword, hseparator⟩ := hrest c rfl
      have hno : ¬(isWord c || (c == '\\' && rest.head?.any isNameStart)) = true := by
        rw [hword, beq_eq_false_iff_ne.mpr hseparator]
        exact nofun
      rw [takePath, if_neg hno]
  induction h with
  | name h => rw [takePath_word h.isWord, hend, List.append_nil]
  | @join name tail h h' ih =>
    obtain ⟨c, _, htail, hc⟩ := h'.head?
    have hseparator : (isWord '\\' || ('\\' == '\\' && (tail ++ rest).head?.any isNameStart)) =
        true := by
      rw [htail, List.cons_append, List.head?_cons, Option.any_some, hc]
      rfl
    rw [List.append_assoc, takePath_word h.isWord, List.cons_append, takePath, if_pos hseparator,
      ih]

theorem takeQualified?_append {qualified rest : List Char} (h : IsQualified qualified)
    (hrest : ∀ c, rest.head? = some c → isWord c = false ∧ c ≠ '\\') :
    takeQualified? (qualified ++ rest) = some (qualified, rest) := by
  have hpath := takePath_append h hrest
  obtain ⟨c, tail, rfl, hc⟩ := h.head?
  rw [List.cons_append] at hpath ⊢
  rw [takeQualified?, if_pos hc, hpath]

theorem append_of_takeQualified? {cs qualified rest : List Char}
    (h : takeQualified? cs = some (qualified, rest)) : cs = qualified ++ rest := by
  cases cs with
  | nil => cases h
  | cons c cs =>
    rw [takeQualified?] at h
    split at h
    · rw [← takePath_append_snd (c :: cs), Option.some.inj h]
    · cases h

theorem endsHere_iff {cs : List Char} :
    endsHere cs = true ↔ ∃ close, cs = close ++ [';'] ∧ IsWhite close := by
  unfold endsHere
  rw [beq_iff_eq]
  constructor
  · intro h
    obtain ⟨close, hcs, hclose⟩ := eq_white_append_dropWhile cs
    exact ⟨close, h ▸ hcs, hclose⟩
  · rintro ⟨close, rfl, hclose⟩
    exact dropWhile_white_append hclose rfl

/-- The end of a declaration is no part of a name. -/
theorem head?_close {close : List Char} (h : IsWhite close) (c : Char)
    (hc : (close ++ [';']).head? = some c) : isWord c = false ∧ c ≠ '\\' := by
  have hm := List.mem_of_head? hc
  rcases List.mem_append.mp hm with hm | hm
  · have hspace := h c hm
    refine ⟨not_isWord_of_isSpace hspace, ?_⟩
    rintro rfl
    exact absurd hspace (by decide)
  · rw [List.mem_singleton.mp hm]
    decide

theorem takeClause?_eq_some_iff {cs short : List Char} : takeClause? cs = some short ↔
    ∃ before after close, cs = before ++ 'a' :: 's' :: (after ++ (short ++ (close ++ [';']))) ∧
      IsGap before ∧ IsGap after ∧ IsName short ∧ IsWhite close := by
  simp only [takeClause?, Option.bind_eq_bind, Option.bind_eq_some_iff]
  constructor
  · rintro ⟨afterGap, hbefore, afterAs, has, afterGap', hafter, ⟨name, rest⟩, hname, hend⟩
    obtain ⟨before, rfl, hgap, -⟩ := dropSpaces?_eq_some_iff.mp hbefore
    obtain ⟨after, rfl, hgap', -⟩ := dropSpaces?_eq_some_iff.mp hafter
    obtain ⟨hends, hshort⟩ := Option.ite_none_right_eq_some.mp hend
    obtain ⟨close, hrest, hclose⟩ := endsHere_iff.mp hends
    have hsplit := append_of_takeName? hname
    have heq : name = short := Option.some.inj hshort
    have hrest : rest = close ++ [';'] := hrest
    rw [heq] at hsplit hname
    refine ⟨before, after, close, ?_, hgap, hgap', isName_of_takeName? hname, hclose⟩
    rw [eq_append_of_dropPrefix? has, hsplit, hrest]
    rfl
  · rintro ⟨before, after, close, rfl, hgap, hgap', hshort, hclose⟩
    refine ⟨_, dropSpaces?_eq_some_iff.mpr ⟨before, rfl, hgap, by rfl⟩, _, dropPrefix?_append _ _, _,
      dropSpaces?_eq_some_iff.mpr ⟨after, rfl, hgap', hshort.head?_any_isSpace _⟩, _,
      takeName?_append hshort ?_, ?_⟩
    · exact (Option.any_eq_false ..).mpr fun c hc => (head?_close hclose c hc).1
    · rw [if_pos (endsHere_iff.mpr ⟨close, rfl, hclose⟩)]

/-- What gives the short name, after the qualified name and up to the end. -/
theorem short_eq_some_iff {qualified rest short : List Char} (h : IsQualified qualified) :
    (if endsHere rest then some (lastName qualified) else takeClause? rest) = some short ↔
      ∃ clause close, rest = clause ++ (close ++ [';']) ∧ Clause qualified short clause ∧
        IsWhite close := by
  constructor
  · intro hs
    split at hs
    · next hend =>
      obtain ⟨close, hrest, hclose⟩ := endsHere_iff.mp hend
      exact ⟨[], close, hrest, .last ((getLast?_segments h).trans hs), hclose⟩
    · obtain ⟨before, after, close, rfl, hgap, hgap', hshort, hclose⟩ :=
        takeClause?_eq_some_iff.mp hs
      refine ⟨_, close, ?_, .named hgap hgap' hshort, hclose⟩
      simp only [List.append_assoc, List.cons_append]
  · rintro ⟨clause, close, rfl, hclause, hclose⟩
    cases hclause with
    | last hlast =>
      rw [List.nil_append, if_pos (endsHere_iff.mpr ⟨close, rfl, hclose⟩)]
      exact (getLast?_segments h).symm.trans hlast
    | @named before after hgap hgap' hshort =>
      have htext : before ++ 'a' :: 's' :: (after ++ short) ++ (close ++ [';']) =
          before ++ 'a' :: 's' :: (after ++ (short ++ (close ++ [';']))) := by
        simp only [List.append_assoc, List.cons_append]
      have hopen : endsHere (before ++ 'a' :: 's' :: (after ++ (short ++ (close ++ [';'])))) =
          false := by
        unfold endsHere
        rw [dropWhile_white_append hgap.2 rfl]
        rfl
      rw [htext, hopen]
      exact takeClause?_eq_some_iff.mpr ⟨before, after, close, rfl, hgap, hgap', hshort, hclose⟩

/-- Reading a declaration step by step. -/
theorem parse?_eq (cs : List Char) : parse? cs =
    (dropPrefix? ['u', 's', 'e'] cs).bind fun cs => (dropSpaces? cs).bind fun cs =>
      (takeQualified? ((dropPrefix? ['\\'] cs).getD cs)).bind fun p =>
        (if endsHere p.2 then some (lastName p.1) else takeClause? p.2).bind fun short =>
          some ⟨String.ofList short, String.ofList p.1⟩ := by
  unfold parse?
  refine Option.bind_congr fun cs _ => Option.bind_congr fun cs _ => Option.bind_congr ?_
  rintro ⟨qualified, rest⟩ -
  by_cases hend : endsHere rest = true
  · simp only [hend, if_true]
    rfl
  · simp only [hend]
    rfl

/-- A text is read as an import exactly when the import is written like that. -/
theorem parse?_eq_some_iff {cs : List Char} {i : Import} : parse? cs = some i ↔ Spells i cs := by
  rw [parse?_eq]
  simp only [Option.bind_eq_some_iff]
  constructor
  · rintro ⟨afterUse, huse, afterGap, hgap, ⟨qualified, rest⟩, hq, short, hshort, hi⟩
    obtain ⟨gap, rfl, hgap, -⟩ := dropSpaces?_eq_some_iff.mp hgap
    have hqualified := isQualified_of_takeQualified? hq
    obtain ⟨clause, close, rfl, hclause, hclose⟩ := (short_eq_some_iff hqualified).mp hshort
    have hsplit := append_of_takeQualified? hq
    have hroot : ∃ root, (root = [] ∨ root = ['\\']) ∧
        afterGap = root ++ (dropPrefix? ['\\'] afterGap).getD afterGap := by
      cases hd : dropPrefix? ['\\'] afterGap with
      | none => exact ⟨[], Or.inl rfl, rfl⟩
      | some after => exact ⟨['\\'], Or.inr rfl, eq_append_of_dropPrefix? hd⟩
    obtain ⟨root, hroot, hafter⟩ := hroot
    rw [hsplit] at hafter
    have htext : cs = 'u' :: 's' :: 'e' ::
        (gap ++ (root ++ (qualified ++ (clause ++ (close ++ [';']))))) := by
      rw [eq_append_of_dropPrefix? huse, hafter]
      rfl
    rw [htext, ← Option.some.inj hi]
    exact .mk hgap hroot hqualified hclause hclose
  · rintro ⟨hgap, hroot, hqualified, hclause, hclose⟩
    next gap root qualified short clause close =>
    obtain ⟨c, tail, hname, hc⟩ := hqualified.head?
    have hword := isWord_of_isNameStart hc
    have hstart : (root ++ (qualified ++ (clause ++ (close ++ [';'])))).head?.any isSpace =
        false := by
      rcases hroot with rfl | rfl
      · rw [hname]
        exact not_isSpace_of_isWord hword
      · rfl
    have hdrop : (dropPrefix? ['\\'] (root ++ (qualified ++ (clause ++ (close ++ [';']))))).getD
        (root ++ (qualified ++ (clause ++ (close ++ [';'])))) =
          qualified ++ (clause ++ (close ++ [';'])) := by
      rcases hroot with rfl | rfl
      · have hno : '\\' ≠ c := (ne_of_isWord hword (by decide)).symm
        rw [hname, List.nil_append, List.cons_append, dropPrefix?, if_neg hno]
        rfl
      · rfl
    have hends : ∀ c, (clause ++ (close ++ [';'])).head? = some c → isWord c = false ∧ c ≠ '\\' := by
      intro c hc
      cases hclause with
      | last _ => exact head?_close hclose c hc
      | @named before after apart _ _ =>
        have hspace := apart.head?_any ('a' :: 's' :: (after ++ short) ++ (close ++ [';']))
        rw [← List.append_assoc, hc] at hspace
        refine ⟨not_isWord_of_isSpace hspace, ?_⟩
        rintro rfl
        exact absurd hspace (by decide)
    refine ⟨_, rfl, _, dropSpaces?_eq_some_iff.mpr ⟨gap, rfl, hgap, hstart⟩,
      (qualified, clause ++ (close ++ [';'])), ?_, short, ?_, rfl⟩
    · rw [hdrop]
      exact takeQualified?_append hqualified hends
    · exact (short_eq_some_iff hqualified).mpr ⟨clause, close, rfl, hclause, hclose⟩

end Import

end ScriptShell

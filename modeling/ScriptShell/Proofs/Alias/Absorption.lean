import ScriptShell.Proofs.Alias.Observation
import ScriptShell.Proofs.Text.Comments

/-!
Units that the alias table absorbs, so that they are never run. A line counts as a comment there for
the mark that it starts with, also where the comment ends before the line does, where the `#` opens
an attribute, or where the `*` stands outside comments. Such a line takes what is left of it away
unseen; without one, nothing but imports is taken away.
-/

namespace ScriptShell

open Text

/-- Import declarations and white space. -/
inductive OnlyImports : List Char → Prop
  | done : OnlyImports []
  | white {c : Char} {cs : List Char} (h : isSpace c = true) (rest : OnlyImports cs) :
      OnlyImports (c :: cs)
  | declaration {i : Import} {core cs : List Char} (h : i.Spells core) (rest : OnlyImports cs) :
      OnlyImports (core ++ cs)

/-- A character that declarations and white space consist of. -/
def IsPlain (c : Char) : Prop := isSpace c = true ∨ isWord c = true ∨ c = '\\' ∨ c = ';'

theorem IsPlain.ne {c d : Char} (h : IsPlain c) (hspace : isSpace d = false)
    (hword : isWord d = false) (hseparator : d ≠ '\\') (hend : d ≠ ';') : c ≠ d := by
  rintro rfl
  rcases h with h | h | h | h
  · exact absurd (h.symm.trans hspace) nofun
  · exact absurd (h.symm.trans hword) nofun
  · exact hseparator h
  · exact hend h

/-- No plain character belongs to the mark of a comment. -/
theorem IsPlain.unmarked {c : Char} (h : IsPlain c) : c ≠ '/' ∧ c ≠ '#' ∧ c ≠ '*' :=
  ⟨h.ne (by decide) (by decide) (by decide) (by decide),
    h.ne (by decide) (by decide) (by decide) (by decide),
    h.ne (by decide) (by decide) (by decide) (by decide)⟩

theorem IsWhite.isPlain {cs : List Char} (h : IsWhite cs) : ∀ c ∈ cs, IsPlain c :=
  fun c hc => Or.inl (h c hc)

theorem Import.Spells.isPlain {i : Import} {core : List Char} (h : i.Spells core) :
    ∀ c ∈ core, IsPlain c := by
  have happend {a b : List Char} (ha : ∀ c ∈ a, IsPlain c) (hb : ∀ c ∈ b, IsPlain c) :
      ∀ c ∈ a ++ b, IsPlain c := fun c hc => (List.mem_append.mp hc).elim (ha c) (hb c)
  have hword {a : List Char} (ha : ∀ c ∈ a, isWord c = true) : ∀ c ∈ a, IsPlain c :=
    fun c hc => Or.inr (Or.inl (ha c hc))
  cases h with
  | @mk gap root qualified short clause close apart rooted named binds white =>
    have hroot : ∀ c ∈ root, IsPlain c := by
      rcases rooted with rfl | rfl
      · exact nofun
      · exact List.forall_mem_singleton.mpr (Or.inr (Or.inr (Or.inl rfl)))
    have hname : ∀ c ∈ qualified, IsPlain c := fun c hc =>
      (named.isWord_or c hc).elim (fun h => Or.inr (Or.inl h)) (fun h => Or.inr (Or.inr (Or.inl h)))
    have hclause : ∀ c ∈ clause, IsPlain c := by
      cases binds with
      | last h => exact nofun
      | @named before after apart apart' h =>
        have has : ['a', 's'].all isWord = true := by decide
        exact happend apart.2.isPlain
          (happend (hword (List.all_eq_true.mp has)) (happend apart'.2.isPlain (hword h.isWord)))
    have huse : ['u', 's', 'e'].all isWord = true := by decide
    have hend : ∀ c ∈ [';'], IsPlain c :=
      List.forall_mem_singleton.mpr (Or.inr (Or.inr (Or.inr rfl)))
    exact happend (hword (List.all_eq_true.mp huse)) (happend apart.2.isPlain
      (happend hroot (happend hname (happend hclause (happend white.isPlain hend)))))

namespace OnlyImports

variable {a b : List Char}

theorem isPlain (h : OnlyImports a) : ∀ c ∈ a, IsPlain c := by
  induction h with
  | done => exact nofun
  | white h _ ih => exact List.forall_mem_cons.mpr ⟨Or.inl h, ih⟩
  | declaration h _ ih =>
    exact fun c hc => (List.mem_append.mp hc).elim (h.isPlain c) (ih c)

theorem append (ha : OnlyImports a) (hb : OnlyImports b) : OnlyImports (a ++ b) := by
  induction ha with
  | done => exact hb
  | white h _ ih => exact .white h ih
  | declaration h _ ih =>
    rw [List.append_assoc]
    exact .declaration h ih

theorem of_isWhite (h : IsWhite a) : OnlyImports a := by
  induction a with
  | nil => exact .done
  | cons c a ih =>
    obtain ⟨hc, ha⟩ := List.forall_mem_cons.mp h
    exact .white hc (ih ha)

/-- White space in front makes no difference, since no declaration starts with it. -/
theorem white_append_iff (hwhite : IsWhite a) : OnlyImports (a ++ b) ↔ OnlyImports b := by
  refine ⟨fun h => ?_, (of_isWhite hwhite).append⟩
  induction a with
  | nil => exact h
  | cons c a ih =>
    obtain ⟨hc, ha⟩ := List.forall_mem_cons.mp hwhite
    refine ih ha ?_
    generalize htext : c :: a ++ b = text at h
    cases h with
    | done => exact absurd htext nofun
    | white _ rest =>
      have hcs : a ++ b = _ := (List.cons.inj htext).2
      rw [hcs]
      exact rest
    | @declaration _ core cs h rest =>
      obtain ⟨tail, hcore⟩ := List.head?_eq_some_iff.mp h.ends.1
      rw [hcore] at htext
      have hu : c = 'u' := (List.cons.inj htext).1
      rw [hu] at hc
      exact absurd hc (by decide)

end OnlyImports

/-- The line starts with one of the marks for which it counts as a comment. -/
def IsMarked (line : List Char) : Prop := ∃ mark ∈ UnitLine.commentMarks, mark <+: Text.trim line

instance (line : List Char) : Decidable (IsMarked line) :=
  inferInstanceAs (Decidable (∃ mark ∈ UnitLine.commentMarks, mark <+: Text.trim line))

/-- Nothing but imports follows the end of a block comment, or it does not end here. -/
def EndsInImports (body : List Char) : Prop :=
  ∀ rest ∈ Comment.behindBlock body, OnlyImports (Comment.remains .outside rest)

/-- A text that is a comment up to its end, or a block comment that nothing but imports follows. -/
def IsAllComment (cs : List Char) : Prop :=
  ['/', '/'] <+: cs ∨ (['#'] <+: cs ∧ ¬['#', '['] <+: cs) ∨
    ∃ body, cs = '/' :: '*' :: body ∧ EndsInImports body

/-- A marked line takes no code away: behind the end of the comment that it is met in, or of the one
that it starts with, there is nothing but imports. -/
def Harmless : Comment → List Char → Prop
  | .outside, line => IsAllComment (trimStart line)
  | .inLine, _ => True
  | .inBlock, line => EndsInImports line

theorem onlyImports_remains_inBlock_iff (cs : List Char) :
    OnlyImports (Comment.remains .inBlock cs) ↔ EndsInImports cs := by
  unfold EndsInImports
  rw [Comment.remains_inBlock]
  cases Comment.behindBlock cs with
  | none => exact iff_of_true .done nofun
  | some rest =>
    constructor
    · intro h _ hrest
      rw [← Option.some.inj hrest]
      exact h
    · exact fun h => h rest rfl

theorem remains_outside_white_append {white : List Char} (h : IsWhite white) (cs : List Char) :
    Comment.remains .outside (white ++ cs) = white ++ Comment.remains .outside cs := by
  unfold Comment.remains
  induction white with
  | nil => rfl
  | cons c white ih =>
    obtain ⟨hc, hwhite⟩ := List.forall_mem_cons.mp h
    obtain ⟨hslash, hhash, -⟩ := IsPlain.unmarked (Or.inl hc)
    rw [List.cons_append, Comment.scan_outside_cons hslash hhash, ih hwhite]
    rfl

/-- A text that starts with the mark of a comment is nothing but imports exactly if it is nothing
but the comment. -/
theorem onlyImports_remains_marked_iff {mark cs : List Char} (hmark : mark ∈ UnitLine.commentMarks)
    (hstart : mark <+: cs) (hn : '\n' ∉ cs) :
    OnlyImports (Comment.remains .outside cs) ↔ IsAllComment cs := by
  have hother {c d : Char} {tail tail' : List Char} (hcd : c ≠ d) : ¬c :: tail <+: d :: tail' :=
    fun h => hcd (List.cons_prefix_cons.mp h).1
  have hmarks : ∀ mark ∈ UnitLine.commentMarks,
      mark = ['/', '/'] ∨ mark = ['#'] ∨ mark = ['/', '*'] ∨ mark = ['*'] := by decide
  obtain ⟨tail, rfl⟩ := hstart
  rcases hmarks mark hmark with rfl | rfl | rfl | rfl
  · have hgone : Comment.remains .outside (['/', '/'] ++ tail) = [] :=
      Comment.remains_inLine fun h => hn (List.mem_append_right _ h)
    rw [hgone]
    exact iff_of_true .done (Or.inl (List.prefix_append _ _))
  · by_cases hattribute : ['#', '['] <+: ['#'] ++ tail
    · obtain ⟨tail', htail⟩ := hattribute
      rw [← htail]
      refine iff_of_false (fun h => ?_) ?_
      · exact (h.isPlain '#' List.mem_cons_self).unmarked.2.1 rfl
      · rintro (h | ⟨-, h⟩ | ⟨body, h, -⟩)
        · exact hother (by decide) h
        · exact h (List.prefix_append _ _)
        · exact absurd (List.cons.inj h).1 (by decide)
    · have hgone : Comment.remains .outside (['#'] ++ tail) = [] :=
        Comment.remains_hash (fun h => hn (List.mem_append_right _ h)) hattribute
      rw [hgone]
      exact iff_of_true .done (Or.inr (Or.inl ⟨List.prefix_append _ _, hattribute⟩))
  · have hblock : Comment.remains .outside (['/', '*'] ++ tail) = Comment.remains .inBlock tail :=
      rfl
    rw [hblock, onlyImports_remains_inBlock_iff]
    constructor
    · exact fun h => Or.inr (Or.inr ⟨tail, rfl, h⟩)
    · rintro (h | ⟨h, -⟩ | ⟨body, h, hbody⟩)
      · exact absurd (List.cons_prefix_cons.mp (List.cons_prefix_cons.mp h).2).1 (by decide)
      · exact absurd h (hother (by decide))
      · have htail : tail = body := (List.cons.inj (List.cons.inj h).2).2
        rw [htail]
        exact hbody
  · have hstar : Comment.scan .outside ('*' :: tail) =
        ('*' :: (Comment.scan .outside tail).1, (Comment.scan .outside tail).2) :=
      Comment.scan_outside_cons (by decide) (by decide) tail
    refine iff_of_false (fun h => ?_) ?_
    · have hmem : '*' ∈ Comment.remains .outside (['*'] ++ tail) := by
        unfold Comment.remains
        rw [List.singleton_append, hstar]
        exact List.mem_cons_self
      exact (h.isPlain '*' hmem).unmarked.2.2 rfl
    · rintro (h | ⟨h, -⟩ | ⟨body, h, -⟩)
      · exact hother (by decide) h
      · exact hother (by decide) h
      · exact absurd (List.cons.inj h).1 (by decide)

/-- What is left of a marked line is imports and white space exactly if the line is harmless. -/
theorem onlyImports_remains_iff_harmless (s : Comment) {line : List Char} (hn : '\n' ∉ line)
    (hmarked : IsMarked line) : OnlyImports (Comment.remains s line) ↔ Harmless s line := by
  cases s with
  | inLine =>
    rw [Comment.remains_inLine hn]
    exact iff_of_true .done trivial
  | inBlock => exact onlyImports_remains_inBlock_iff line
  | outside =>
    obtain ⟨mark, hmark, hstart⟩ := hmarked
    obtain ⟨white, hline, hwhite⟩ := eq_white_append_dropWhile line
    have hcut := congrArg (Comment.remains .outside) hline
    rw [remains_outside_white_append hwhite] at hcut
    rw [hcut, OnlyImports.white_append_iff hwhite]
    exact onlyImports_remains_marked_iff hmark (hstart.trans (Text.trim_prefix_trimStart line))
      fun hm => hn ((List.dropWhile_suffix _).subset hm)

/-- A line of imports and white space stays as it is, or goes altogether. -/
theorem OnlyImports.remains {line : List Char} (h : OnlyImports line) (hn : '\n' ∉ line)
    (s : Comment) : OnlyImports (Comment.remains s line) := by
  obtain ⟨houtside, hblock⟩ := Comment.scan_of_unmarked fun c hc => (h.isPlain c hc).unmarked
  cases s with
  | outside =>
    unfold Comment.remains
    rw [houtside]
    exact h
  | inLine =>
    rw [Comment.remains_inLine hn]
    exact .done
  | inBlock =>
    unfold Comment.remains
    rw [hblock]
    exact .done

/-- A line of an absorbed unit is marked, or nothing but an import or white space. -/
theorem UnitLine.Reads.isMarked_or_onlyImports {line : List Char} {l : UnitLine}
    (h : Reads line l) : IsMarked line ∨ OnlyImports line := by
  cases h with
  | blank h => exact Or.inr (.of_isWhite h)
  | marked h starts => exact Or.inl ⟨_, h, starts⟩
  | declares white spells white' =>
    have hrest := OnlyImports.declaration spells (.of_isWhite white')
    exact Or.inr ((OnlyImports.of_isWhite white).append hrest)

/-- A text of which each line leaves nothing but imports leaves nothing but imports. -/
theorem onlyImports_remains_of_met {s : Comment} {cs : List Char}
    (h : ∀ p ∈ Comment.met s (Text.lines cs), OnlyImports (Comment.remains p.1 p.2)) :
    OnlyImports (Comment.remains s cs) := by
  induction hlen : cs.length using Nat.strongRecOn generalizing s cs with
  | ind len ih =>
    rcases Text.lines_cases cs with rfl | ⟨-, hone⟩ | ⟨line, ending, rest, rfl, hmore, hend, -⟩
    · cases s with
      | outside => exact .done
      | inLine => exact .done
      | inBlock => exact .done
    · rw [hone] at h
      exact h (s, cs) List.mem_cons_self
    · rw [hmore] at h
      obtain ⟨hline, hrest⟩ := List.forall_mem_cons.mp h
      have hcut : Comment.remains s (line ++ (ending ++ '\n' :: rest)) = Comment.remains s line ++
          Comment.remains (Comment.scan s line).2 (ending ++ '\n' :: rest) := by
        refine congrArg Prod.fst (Comment.scan_append s line fun c hc => ?_)
        rcases hend with rfl | rfl
        · rw [← Option.some.inj hc]
          decide
        · rw [← Option.some.inj hc]
          decide
      obtain ⟨white, hwhite, hscan⟩ := Comment.scan_lineEnd (Comment.scan s line).2 hend rest
      rw [hcut]
      refine hline.append ?_
      unfold Comment.remains
      rw [hscan]
      refine (OnlyImports.of_isWhite hwhite).append (ih rest.length ?_ hrest rfl)
      rw [← hlen, List.length_append, List.length_append, List.length_cons]
      omega

namespace AliasTable

variable {t : AliasTable} {unit : String}

/-- Each line of an absorbed unit is blank, marked as a comment or an import. -/
theorem exists_reads_of_observe (h : (t.observe unit).1 = true) {line : List Char}
    (hline : line ∈ Text.lines unit.toList) : ∃ l, UnitLine.Reads line l := by
  rw [observe_eq, Bool.and_eq_true, Bool.not_eq_true', Bool.not_eq_true', List.contains_eq_mem,
    decide_eq_false_iff_not] at h
  refine ⟨_, UnitLine.reads_ofLine fun hcode => h.2 ?_⟩
  rw [← hcode]
  exact List.mem_map_of_mem hline

/-- In an absorbed unit, exactly the marked lines that are not harmless leave something besides
imports and white space when the comments are removed. Where all are harmless, no code is lost. -/
theorem absorbed_only_imports_iff (h : (t.observe unit).1 = true) :
    let met := Comment.met .outside (Text.lines unit.toList)
    ((∀ p ∈ met, OnlyImports (Comment.remains p.1 p.2)) ↔
      ∀ p ∈ met, IsMarked p.2 → Harmless p.1 p.2) ∧
    ((∀ p ∈ met, IsMarked p.2 → Harmless p.1 p.2) →
      OnlyImports (Comment.remains .outside unit.toList)) := by
  intro met
  have hline (p : Comment × List Char) (hp : p ∈ met) :
      OnlyImports (Comment.remains p.1 p.2) ↔ (IsMarked p.2 → Harmless p.1 p.2) := by
    have hmem : p.2 ∈ Text.lines unit.toList := Comment.snd_mem_of_mem_met hp
    have hn : '\n' ∉ p.2 := Text.not_mem_of_mem_lines hmem
    obtain ⟨l, hreads⟩ := exists_reads_of_observe h hmem
    by_cases hmarked : IsMarked p.2
    · rw [onlyImports_remains_iff_harmless p.1 hn hmarked]
      exact ⟨fun h _ => h, fun h => h hmarked⟩
    · have honly := hreads.isMarked_or_onlyImports.resolve_left hmarked
      exact iff_of_true (honly.remains hn p.1) fun hm => absurd hm hmarked
  have hall : (∀ p ∈ met, OnlyImports (Comment.remains p.1 p.2)) ↔
      ∀ p ∈ met, IsMarked p.2 → Harmless p.1 p.2 := forall₂_congr hline
  exact ⟨hall, fun h => onlyImports_remains_of_met (hall.mpr h)⟩

/-- Comments of every kind, one of them over two lines. -/
theorem absorbed_only_imports_iff_comments :
    let unit := "/* x\n * y */\nuse Acme\\Widget; \n# z"
    ((∅ : AliasTable).observe unit).1 = true ∧
      OnlyImports (Comment.remains .outside unit.toList) := by
  intro unit
  have habsorbed : ((∅ : AliasTable).observe unit).1 = true := by decide +kernel
  have hmet : Comment.met .outside (Text.lines unit.toList) =
      [(.outside, "/* x".toList), (.inBlock, " * y */".toList),
        (.outside, "use Acme\\Widget; ".toList), (.outside, "# z".toList)] := by decide +kernel
  refine ⟨habsorbed, (absorbed_only_imports_iff habsorbed).2 ?_⟩
  rw [hmet]
  simp only [List.forall_mem_cons]
  refine ⟨fun _ => ?_, fun _ => ?_, fun hmarked => ?_, fun _ => ?_, nofun⟩
  · exact Or.inr (Or.inr ⟨[' ', 'x'], by decide +kernel, nofun⟩)
  · intro rest hrest
    rw [← Option.some.inj hrest]
    exact .done
  · exact absurd hmarked (by decide +kernel)
  · exact Or.inr (Or.inl (by decide +kernel))

/-- A line that is marked by a block comment takes the call behind the comment away. -/
theorem not_forall_absorbed_only_imports : ¬∀ (t : AliasTable) (unit : String),
    (t.observe unit).1 = true → OnlyImports (Comment.remains .outside unit.toList) := by
  intro h
  have honly := h ∅ "// (\nuse Acme\\Widget;\n/* ) */ f();" (by decide +kernel)
  have hcall : '(' ∈ Comment.remains .outside "// (\nuse Acme\\Widget;\n/* ) */ f();".toList := by
    decide +kernel
  exact (honly.isPlain '(' hcall).ne (by decide) (by decide) (by decide) (by decide) rfl

end AliasTable

end ScriptShell

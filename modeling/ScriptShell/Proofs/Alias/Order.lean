import ScriptShell.Proofs.Alias.Passes

/-!
Tables that resolve a text to the same in any order. Two entries get in each other's way only where
one of them writes out what the other one takes for its own short name or for a keyword. Where that
cannot happen, their passes over a phrase commute word by word, so the entries do, and so does the
whole table.
-/

namespace ScriptShell

open Text Phrase

/-- A short name and what it stands for, as an import gives them, with no keyword among the names. -/
structure IsFreeEntry (short full : List Char) : Prop where
  named : IsName short
  qualified : IsQualified full
  free : ∀ name ∈ short :: segments full, name ∉ keywords

theorem IsQualified.isRun_of_mem_segments {full name : List Char} (h : IsQualified full)
    (hname : name ∈ segments full) : IsRun name := by
  induction h with
  | name h =>
    rw [segments_of_isName h] at hname
    rw [List.mem_singleton.mp hname]
    exact h.isRun
  | join h _ ih =>
    rw [segments_join h] at hname
    rcases List.mem_cons.mp hname with rfl | hname
    · exact h.isRun
    · exact ih hname

namespace Phrase

variable {names : List (List Char)} {marks : List Char} {ps : Phrase}

theorem IsCut.spell_append (hne : names ≠ []) (hnames : ∀ name ∈ names, IsRun name)
    (hmarks : IsMarks marks) (apart : marks = [] → ps = []) (hcut : IsCut ps) :
    IsCut (spell names marks ++ ps) := by
  have hseparator : IsMarks ['\\'] := List.forall_mem_singleton.mpr (by decide)
  induction names with
  | nil => exact absurd rfl hne
  | cons name names ih =>
    obtain ⟨hname, hnames⟩ := List.forall_mem_cons.mp hnames
    cases names with
    | nil => exact .word hname hmarks apart hcut
    | cons name' names =>
      exact .word hname hseparator (absurd · (List.cons_ne_nil _ _))
        (ih (List.cons_ne_nil _ _) hnames)

end Phrase

namespace Site

variable {site site' : Site} {short full short' full' word marks trail : List Char}
  {ready ready' : Bool} {ps : Phrase}

theorem pass_of_written (h : site.written? short ready word marks = some trail) :
    site.pass short full ready ((word, marks) :: ps) = spell (segments full) marks ++
      site.pass short full (site.ReadyIn (short ++ trail) (marks.drop trail.length)) ps := by
  rw [pass, h]

theorem pass_of_kept (h : site.written? short ready word marks = none) :
    site.pass short full ready ((word, marks) :: ps) =
      (word, marks) :: site.pass short full (site.ReadyIn [] (word ++ marks)) ps := by
  rw [pass, h]

theorem written?_eq_none (h : ready = true → word ≠ short) :
    site.written? short ready word marks = none :=
  if_neg fun hw => h hw.1 hw.2

theorem eq_of_written (h : site.written? short ready word marks = some trail) : word = short := by
  rw [written?] at h
  split at h
  · next hw => exact hw.2
  · cases h

theorem isCut_pass (hq : IsQualified full) (hcut : IsCut ps) (ready : Bool) :
    IsCut (site.pass short full ready ps) := by
  induction hcut generalizing ready with
  | done => exact .done
  | @word word marks ps run isMarks apart _ ih =>
    have hnext (ready : Bool) : marks = [] → site.pass short full ready ps = [] := fun hm => by
      rw [apart hm]
      rfl
    cases hw : site.written? short ready word marks with
    | some trail =>
      rw [pass_of_written hw]
      exact .spell_append hq.segments_ne_nil (fun name => hq.isRun_of_mem_segments) isMarks
        (hnext _) (ih _)
    | none =>
      rw [pass_of_kept hw]
      exact .word run isMarks (hnext _) (ih _)

/-- A pass leaves a name that another one has written out alone, if the first word is not its own:
the others stand behind separators. What follows is treated as after any other word. -/
theorem pass_spell (hsite : site ∈ Site.all) {names : List (List Char)} (hne : names ≠ [])
    (hnames : ∀ name ∈ names, IsRun name ∧ name ∉ keywords)
    (hother : ready = true → names.head? ≠ some short) (hmarks : IsMarks marks)
    (hword : IsRun word) (hfree : word ∉ keywords) (ps : Phrase) :
    site.pass short full ready (spell names marks ++ ps) =
      spell names marks ++ site.pass short full (site.ReadyIn [] (word ++ marks)) ps := by
  induction names generalizing ready with
  | nil => exact absurd rfl hne
  | cons name names ih =>
    obtain ⟨⟨hrun, hname⟩, hnames⟩ := List.forall_mem_cons.mp hnames
    have hkeep (after : List Char) : site.written? short ready name after = none :=
      written?_eq_none fun hready heq => hother hready (congrArg some heq)
    cases names with
    | nil =>
      have hready : decide (site.ReadyIn [] (name ++ marks)) =
          decide (site.ReadyIn [] (word ++ marks)) :=
        decide_eq_decide.mpr (readyIn_word_congr hsite hmarks hrun hword hname hfree)
      calc site.pass short full ready ((name, marks) :: ps)
        _ = (name, marks) :: site.pass short full (site.ReadyIn [] (name ++ marks)) ps :=
          pass_of_kept (hkeep marks)
        _ = (name, marks) :: site.pass short full (site.ReadyIn [] (word ++ marks)) ps := by
          rw [hready]
    | cons name' names =>
      have hrest := @ih (decide (site.ReadyIn [] (name ++ ['\\']))) (List.cons_ne_nil _ _) hnames
        fun hready => absurd (of_decide_eq_true hready) (not_readyIn_separator site name)
      calc site.pass short full ready ((name, ['\\']) :: (spell (name' :: names) marks ++ ps))
        _ = (name, ['\\']) :: site.pass short full (site.ReadyIn [] (name ++ ['\\']))
            (spell (name' :: names) marks ++ ps) := pass_of_kept (hkeep ['\\'])
        _ = (name, ['\\']) :: (spell (name' :: names) marks ++
            site.pass short full (site.ReadyIn [] (word ++ marks)) ps) := congrArg _ hrest

/-- Where one pass writes a word out, it does so before and after the other one, which looks at the
rest in the same way. -/
theorem pass_comm_of_written (hsite' : site' ∈ Site.all) (he : IsFreeEntry short full)
    (hne : short ≠ short') (hfirst : (segments full).head? ≠ some short') (hmarks : IsMarks marks)
    (hw : site.written? short ready word marks = some trail)
    (ih : ∀ ready ready', site.pass short full ready (site'.pass short' full' ready' ps) =
      site'.pass short' full' ready' (site.pass short full ready ps)) :
    site.pass short full ready (site'.pass short' full' ready' ((word, marks) :: ps)) =
      site'.pass short' full' ready' (site.pass short full ready ((word, marks) :: ps)) := by
  have hword := eq_of_written hw
  have hkeep : site'.written? short' ready' word marks = none :=
    written?_eq_none fun _ heq => hne (hword.symm.trans heq)
  have hnames : ∀ name ∈ segments full, IsRun name ∧ name ∉ keywords := fun name hname =>
    ⟨he.qualified.isRun_of_mem_segments hname, he.free name (List.mem_cons_of_mem short hname)⟩
  have hrun : IsRun word := hword ▸ he.named.isRun
  have hfree : word ∉ keywords := hword ▸ he.free short List.mem_cons_self
  rw [pass_of_kept hkeep, pass_of_written hw, pass_of_written hw,
    pass_spell hsite' he.qualified.segments_ne_nil hnames (fun _ => hfirst) hmarks hrun hfree, ih]

/-- Passes of two entries commute, each of which writes out nothing that the other one looks for.
The two names are different, so at most one of the passes writes a word out. -/
theorem pass_comm (hsite : site ∈ Site.all) (hsite' : site' ∈ Site.all)
    (he : IsFreeEntry short full) (he' : IsFreeEntry short' full') (hne : short ≠ short')
    (hfirst : (segments full).head? ≠ some short') (hfirst' : (segments full').head? ≠ some short)
    (hcut : IsCut ps) (ready ready' : Bool) :
    site.pass short full ready (site'.pass short' full' ready' ps) =
      site'.pass short' full' ready' (site.pass short full ready ps) := by
  induction hcut generalizing ready ready' with
  | done => rfl
  | @word word marks ps run isMarks apart _ ih =>
    cases hw : site.written? short ready word marks with
    | some trail => exact pass_comm_of_written hsite' he hne hfirst isMarks hw ih
    | none =>
      cases hw' : site'.written? short' ready' word marks with
      | some trail =>
        exact (pass_comm_of_written hsite he' hne.symm hfirst' isMarks hw'
          fun ready' ready => (ih ready ready').symm).symm
      | none =>
        rw [pass_of_kept hw', pass_of_kept hw, pass_of_kept hw, pass_of_kept hw', ih]

/-- So do the rewritings of any text. -/
theorem rewrite_comm (hsite : site ∈ Site.all) (hsite' : site' ∈ Site.all)
    (he : IsFreeEntry short full) (he' : IsFreeEntry short' full') (hne : short ≠ short')
    (hfirst : (segments full).head? ≠ some short') (hfirst' : (segments full').head? ≠ some short)
    (cs : List Char) : site.rewrite short full (site'.rewrite short' full' cs) =
      site'.rewrite short' full' (site.rewrite short full cs) := by
  have hfree := he.free short List.mem_cons_self
  have hfree' := he'.free short' List.mem_cons_self
  obtain ⟨marks, ps, rfl, hmarks, hcut⟩ := exists_isCut cs
  rw [rewrite_text hsite he.named he.qualified hfree hmarks hcut,
    rewrite_text hsite' he'.named he'.qualified hfree' hmarks hcut,
    rewrite_text hsite he.named he.qualified hfree hmarks (isCut_pass he'.qualified hcut _),
    rewrite_text hsite' he'.named he'.qualified hfree' hmarks (isCut_pass he.qualified hcut _),
    pass_comm hsite hsite' he he' hne hfirst hfirst' hcut]

end Site

namespace AliasTable

/-- What commutes with each step commutes with all of them. -/
theorem foldl_comm_of_forall {α β : Type} {f : α → α} {g : α → β → α} {bs : List β}
    (h : ∀ b ∈ bs, ∀ a, g (f a) b = f (g a b)) (a : α) : bs.foldl g (f a) = f (bs.foldl g a) := by
  induction bs generalizing a with
  | nil => rfl
  | cons b bs ih =>
    obtain ⟨hb, hbs⟩ := List.forall_mem_cons.mp h
    rw [List.foldl_cons, hb, ih hbs, List.foldl_cons]

theorem applyEntry_comm {e e' : String × String} (he : IsFreeEntry e.1.toList e.2.toList)
    (he' : IsFreeEntry e'.1.toList e'.2.toList) (hne : e.1 ≠ e'.1)
    (hfirst : (segments e.2.toList).head? ≠ some e'.1.toList)
    (hfirst' : (segments e'.2.toList).head? ≠ some e.1.toList) (text : List Char) :
    applyEntry (applyEntry text e) e' = applyEntry (applyEntry text e') e := by
  have hshort : e.1.toList ≠ e'.1.toList := fun h => hne (String.toList_inj.mp h)
  have hsite (site' : Site) (hsite' : site' ∈ Site.all) (text : List Char) :
      site'.rewrite e'.1.toList e'.2.toList (applyEntry text e) =
        applyEntry (site'.rewrite e'.1.toList e'.2.toList text) e :=
    (foldl_comm_of_forall (fun site hsite text =>
      Site.rewrite_comm hsite hsite' he he' hshort hfirst hfirst' text) text).symm
  exact foldl_comm_of_forall (f := fun text => applyEntry text e) hsite text

/-- The entries are as imports give them, none of their names is a keyword, and no short name is
the first name of what another entry stands for. -/
structure Hygienic (t : AliasTable) : Prop where
  named : t.WellNamed
  free : ∀ e ∈ t.entries, ∀ name ∈ e.1.toList :: segments e.2.toList, name ∉ keywords
  apart : ∀ e ∈ t.entries, ∀ e' ∈ t.entries, e ≠ e' →
    (segments e.2.toList).head? ≠ some e'.1.toList

/-- An entry is found by its short name. -/
theorem eq_of_fst_eq {t : AliasTable} {e e' : String × String} (he : e ∈ t.entries)
    (he' : e' ∈ t.entries) (h : e.1 = e'.1) : e = e' := by
  have hdistinct : t.entries.Pairwise fun a b => a.1 ≠ b.1 := List.pairwise_map.mp t.distinct
  generalize t.entries = es at he he' hdistinct
  induction hdistinct with
  | nil => exact absurd he List.not_mem_nil
  | @cons a es hno _ ih =>
    rcases List.mem_cons.mp he with rfl | hmem
    · rcases List.mem_cons.mp he' with rfl | hmem'
      · rfl
      · exact absurd h (hno e' hmem')
    · rcases List.mem_cons.mp he' with rfl | hmem'
      · exact absurd h.symm (hno e hmem)
      · exact ih hmem hmem'

/-- Tables with the same entries in another order resolve every text to the same. -/
theorem resolve_eq_of_perm {t t' : AliasTable} (hperm : t.entries.Perm t'.entries)
    (ht : t.Hygienic) (unit : String) : t.resolve unit = t'.resolve unit := by
  unfold resolve
  apply congrArg String.ofList
  apply hperm.foldl_eq'
  intro e he e' he' text
  by_cases heq : e = e'
  · rw [heq]
  · have hfree (e : String × String) (he : e ∈ t.entries) : IsFreeEntry e.1.toList e.2.toList :=
      ⟨(ht.named e he).1, (ht.named e he).2, ht.free e he⟩
    exact applyEntry_comm (hfree e he) (hfree e' he') (fun h => heq (eq_of_fst_eq he he' h))
      (ht.apart e he e' he' heq) (ht.apart e' he' e he (Ne.symm heq)) text

/-- Names that also occur inside the other one's, and sites that follow each other closely. -/
theorem resolve_eq_of_perm_widget :
    let t := (∅ : AliasTable).observeAll ["use Acme\\Base\\Widget;", "use Foo\\Widget as Base;"]
    let t' := (∅ : AliasTable).observeAll ["use Foo\\Widget as Base;", "use Acme\\Base\\Widget;"]
    let unit := "new Widget(Base $b, Widget::A, Base::B) extends Base"
    (t.entries.Perm t'.entries ∧ t.entries ≠ t'.entries ∧ t.Hygienic) ∧
      t.resolve unit = t'.resolve unit ∧
      t.resolve unit = "new Acme\\Base\\Widget(Foo\\Widget $b, Acme\\Base\\Widget::A, " ++
        "Foo\\Widget::B) extends Foo\\Widget" := by
  intro t t' unit
  have hperm : t.entries.Perm t'.entries := by decide +kernel
  have hne : t.entries ≠ t'.entries := by decide +kernel
  have hhygienic : t.Hygienic := by
    refine ⟨wellNamed_observeAll _, ?_, ?_⟩
    · decide +kernel
    · decide +kernel
  refine ⟨⟨hperm, hne, hhygienic⟩, resolve_eq_of_perm hperm hhygienic unit, ?_⟩
  decide +kernel

end AliasTable

end ScriptShell

import ScriptShell.Proofs.Alias.Respelling

/-!
What becomes of the class name in `new Name();`. Each entry of the table is applied to what the ones
before it have left, so it writes out the first name of a name that is written out already.
-/

namespace ScriptShell

open Text

namespace AliasTable

/-- A class name after an entry: its first name is written out if the entry is about it. -/
def expand (name : List Char) (e : String × String) : List Char :=
  if name.takeWhile isWord = e.1.toList then e.2.toList ++ name.dropWhile isWord else name

/-- The text `new Name();`. -/
def instantiation (name : List Char) : List Char :=
  'n' :: 'e' :: 'w' :: ' ' :: (name ++ ['(', ')', ';'])

end AliasTable

theorem IsQualified.expand {name : List Char} (hn : IsQualified name) {e : String × String}
    (he : IsName e.1.toList ∧ IsQualified e.2.toList) : IsQualified (AliasTable.expand name e) := by
  have happend {a : List Char} (ha : IsQualified a) {b : List Char} (hb : IsQualified b) :
      IsQualified (a ++ '\\' :: b) := by
    induction ha with
    | name h => exact .join h hb
    | @join c d h _ ih =>
      rw [List.append_assoc, List.cons_append]
      exact .join h ih
  unfold AliasTable.expand
  split
  · obtain ⟨first, rest, rfl, hfirst, hrest⟩ := hn.split_first
    have hrest' : rest.dropWhile isWord = rest := by
      rcases hrest with rfl | ⟨tail, rfl, -⟩
      · rfl
      · exact List.dropWhile_cons_of_neg (by decide)
    rw [List.dropWhile_append_of_pos hfirst.isWord, hrest']
    rcases hrest with rfl | ⟨tail, rfl, htail⟩
    · rw [List.append_nil]
      exact he.2
    · exact happend he.2 htail
  · exact hn

/-- A text with one space in it can be cut there in one way only. -/
theorem eq_of_append_space {a b pre tail : List Char} {c d : Char}
    (h : a ++ c :: b = pre ++ d :: tail) (hc : isSpace c = true)
    (hpre : ∀ x ∈ pre, isSpace x = false) (htail : ∀ x ∈ tail, isSpace x = false) :
    a = pre ∧ b = tail := by
  have hno {cs : List Char} (hcs : ∀ x ∈ cs, isSpace x = false) : c ∉ cs := fun hm =>
    Bool.false_ne_true ((hcs c hm).symm.trans hc)
  induction a generalizing pre with
  | nil =>
    cases pre with
    | nil => exact ⟨rfl, (List.cons.inj h).2⟩
    | cons x pre =>
      have hx : c = x := (List.cons.inj h).1
      exact absurd (hx ▸ List.mem_cons_self) (hno hpre)
  | cons x a ih =>
    cases pre with
    | nil =>
      have hm : c ∈ tail := by
        rw [← (List.cons.inj h).2]
        exact List.mem_append_right a List.mem_cons_self
      exact absurd hm (hno htail)
    | cons y pre =>
      obtain ⟨hxy, h⟩ := List.cons.inj h
      obtain ⟨ha, hb⟩ := ih h fun z hz => hpre z (List.mem_cons_of_mem y hz)
      exact ⟨by rw [hxy, ha], hb⟩

namespace Site

variable {short full : List Char} {prev : Option Char} {cs : List Char}

theorem matcher_eq_none_of_leads {site : Site} (h : site.leads prev cs = []) :
    site.matcher short full prev cs = none := by
  unfold matcher
  rw [h]
  rfl

/-- After a keyword only a text with white space matches. -/
theorem keyword_leads_of_spaceless {word : String} (h : ∀ c ∈ cs, isSpace c = false) :
    (Site.afterKeyword word).leads prev cs = [] := by
  rw [List.eq_nil_iff_forall_not_mem]
  rintro ⟨n, rest⟩ hm
  obtain ⟨c, spaces, hcs, hc, -⟩ := afterKeyword_leads_sound hm
  have hin : c ∈ cs := by
    rw [hcs]
    exact List.mem_append_right _ List.mem_cons_self
  exact Bool.false_ne_true ((h c hin).symm.trans hc)

theorem keyword_rewriteFrom_of_spaceless {word : String} (h : ∀ c ∈ cs, isSpace c = false) :
    rewriteFrom ((Site.afterKeyword word).matcher short full) prev 0 cs = cs := by
  apply rewriteFrom_of_forall_none
  intro p a b hab
  apply matcher_eq_none_of_leads
  apply keyword_leads_of_spaceless
  intro c hc
  exact h c (hab ▸ List.mem_append_right a hc)

/-- Nor does a text match whose only white space comes too soon for the keyword, which would have to
fit before it. -/
theorem keyword_rewriteFrom_of_short {word : String} {pre tail : List Char} {d : Char}
    (hlen : pre.length < word.length) (hpre : ∀ c ∈ pre, isSpace c = false)
    (htail : ∀ c ∈ tail, isSpace c = false) :
    rewriteFrom ((Site.afterKeyword word).matcher short full) prev 0 (pre ++ d :: tail) =
      pre ++ d :: tail := by
  apply rewriteFrom_of_forall_none
  intro p a b hab
  apply matcher_eq_none_of_leads
  rw [List.eq_nil_iff_forall_not_mem]
  rintro ⟨n, rest⟩ hm
  obtain ⟨c, spaces, hb, hc, -⟩ := afterKeyword_leads_sound hm
  rw [hb, ← List.append_assoc] at hab
  have hcut := (eq_of_append_space hab.symm hc hpre htail).1
  rw [← hcut, List.length_append, String.length_toList] at hlen
  omega

/-- Where no keyword comes first, a colon or a `$` has to be near. -/
theorem mem_of_match {site : Site} {out : List Char} {n : Nat}
    (hsite : ∀ word, site ≠ .afterKeyword word)
    (h : site.matcher short full prev cs = some (out, n)) : ':' ∈ cs ∨ '$' ∈ cs := by
  obtain ⟨before, rfl⟩ := exists_getLast?_eq prev
  obtain ⟨⟨k, after⟩, hlead, h⟩ := List.exists_of_findSome?_eq_some h
  obtain ⟨lead, hcs, -, hreach⟩ := mem_leads_iff.mp hlead
  simp only [Option.bind_eq_bind, Option.bind_eq_some_iff] at h
  obtain ⟨rest, hrest, trail, htrail, -⟩ := h
  have hin : ∀ c ∈ rest, c ∈ cs := by
    intro c hc
    rw [hcs, eq_append_of_dropPrefix? hrest]
    exact List.mem_append_right _ (List.mem_append_right _ hc)
  cases site with
  | afterKeyword word => exact absurd rfl (hsite word)
  | staticAccess =>
    obtain ⟨tail, htail, -⟩ := Option.map_eq_some_iff.mp htrail
    refine Or.inl (hin ':' ?_)
    rw [eq_append_of_dropPrefix? htail]
    exact List.mem_cons_self
  | parameterType =>
    obtain ⟨⟨tail, htail⟩, -, hsigil⟩ := parameterTrail_sound htrail
    refine Or.inr (hin '$' ?_)
    rw [htail]
    exact List.mem_append_left _ hsigil
  | returnType =>
    cases hreach with
    | result white nullable =>
      rw [hcs]
      refine Or.inl (List.mem_append_left _ (List.mem_cons_of_mem _ ?_))
      exact List.mem_append_right _ List.mem_cons_self

theorem rewrite_of_not_mem {site : Site} (hsite : ∀ word, site ≠ .afterKeyword word)
    (hcolon : ':' ∉ cs) (hsigil : '$' ∉ cs) : site.rewrite short full cs = cs := by
  apply rewriteFrom_of_forall_none
  intro p a b hab
  cases hm : site.matcher short full p b with
  | none => rfl
  | some found =>
    rcases mem_of_match hsite hm with h | h
    · exact absurd (hab ▸ List.mem_append_right a h) hcolon
    · exact absurd (hab ▸ List.mem_append_right a h) hsigil

end Site

namespace AliasTable

variable {name : List Char} {e : String × String}

theorem not_isSpace_of_mem (hn : IsQualified name) :
    ∀ c ∈ name ++ ['(', ')', ';'], isSpace c = false := by
  intro c hc
  rcases List.mem_append.mp hc with hc | hc
  · rcases hn.isWord_or c hc with hw | rfl
    · exact not_isSpace_of_isWord hw
    · decide
  · exact spaceless_of_all (by decide) c hc

theorem not_mem_instantiation (hn : IsQualified name) {mark : Char} (hm : isWord mark = false)
    (hs : mark ≠ '\\') (hmarks : mark ∉ ['n', 'e', 'w', ' ', '(', ')', ';']) :
    mark ∉ instantiation name := by
  intro h
  have hsplit : instantiation name = ['n', 'e', 'w', ' '] ++ (name ++ ['(', ')', ';']) := rfl
  rw [hsplit] at h
  rcases List.mem_append.mp h with h | h
  · exact hmarks (List.mem_append_left ['(', ')', ';'] h)
  · rcases List.mem_append.mp h with h | h
    · exact hn.not_mem hm hs h
    · exact hmarks (List.mem_append_right ['n', 'e', 'w', ' '] h)

/-- Before the class name there is one way to take white space: all of it. -/
theorem leads_new_instantiation (hn : IsQualified name) :
    (Site.afterKeyword "new").leads none (instantiation name) = [(4, name ++ ['(', ')', ';'])] := by
  have hdrop : dropPrefix? "new".toList (instantiation name) =
      some (' ' :: (name ++ ['(', ')', ';'])) := rfl
  have hboundary : Site.isBoundary none (instantiation name).head? = true := rfl
  have hspace : isSpace ' ' = true := rfl
  have htext := not_isSpace_of_mem hn
  simp only [Site.leads, hboundary, hdrop, hspace, ↓reduceIte]
  cases hname : name ++ ['(', ')', ';'] with
  | nil => exact absurd hname (List.append_ne_nil_of_right_ne_nil _ (List.cons_ne_nil _ _))
  | cons c rest =>
    have hc : isSpace c = false := htext c (hname ▸ List.mem_cons_self)
    rw [Site.spaceSplits, hc]
    rfl

/-- At the start of the text the short name matches if it is all of the first name. -/
theorem matcher_new_instantiation (hn : IsQualified name) {short full : List Char}
    (hs : IsName short) :
    (Site.afterKeyword "new").matcher short full none (instantiation name) =
      if name.takeWhile isWord = short then some (['n', 'e', 'w', ' '] ++ full, 4 + short.length)
      else none := by
  have hlast : (['n', 'e', 'w', ' '] ++ short).getLast?.any isWord = true := by
    rw [List.getLast?_append, List.getLast?_eq_some_getLast hs.ne_nil]
    exact hs.isWord _ (List.getLast_mem _)
  have hword : (name ++ ['(', ')', ';']).takeWhile isWord = name.takeWhile isWord :=
    takeWhile_append_of_boundary name (by decide)
  have htake : (instantiation name).take 4 = ['n', 'e', 'w', ' '] := rfl
  have hmatch : (Site.afterKeyword "new").matcher short full none (instantiation name) =
      (dropPrefix? short (name ++ ['(', ')', ';'])).bind fun rest =>
        if Site.isBoundary (['n', 'e', 'w', ' '] ++ short).getLast? rest.head? then
          some (['n', 'e', 'w', ' '] ++ full, 4 + short.length)
        else none := by
    unfold Site.matcher
    rw [leads_new_instantiation hn, List.findSome?_singleton]
    dsimp only [Option.bind_eq_bind]
    apply Option.bind_congr
    intro rest _
    rw [htake, Site.trail?]
    split
    · rw [Option.bind_some, List.append_nil]
      rfl
    · rfl
  rw [hmatch]
  by_cases hfirst : name.takeWhile isWord = short
  · have hcut : name ++ ['(', ')', ';'] = short ++ (name.dropWhile isWord ++ ['(', ')', ';']) := by
      rw [← hfirst, ← List.append_assoc, List.takeWhile_append_dropWhile]
    have hend : (name.dropWhile isWord ++ ['(', ')', ';']).head?.any isWord = false := by
      rw [List.head?_append]
      have hnot := List.head?_dropWhile_not isWord name
      cases hd : (name.dropWhile isWord).head? with
      | none => decide
      | some c =>
        rw [hd] at hnot
        exact hnot
    have hboundary : Site.isBoundary (['n', 'e', 'w', ' '] ++ short).getLast?
        (name.dropWhile isWord ++ ['(', ')', ';']).head? = true := by
      rw [Site.isBoundary, hlast, hend]
      rfl
    rw [hcut, dropPrefix?_append, Option.bind_some, if_pos hboundary, if_pos hfirst]
  · rw [if_neg hfirst]
    cases hrest : dropPrefix? short (name ++ ['(', ')', ';']) with
    | none => rfl
    | some rest =>
      have hinside :
          ¬Site.isBoundary (['n', 'e', 'w', ' '] ++ short).getLast? rest.head? = true := by
        intro hboundary
        have hend := Site.isBoundary_of_isWord hlast hboundary
        apply hfirst
        rw [← hword, eq_append_of_dropPrefix? hrest, takeWhile_append_of_boundary short hend]
        exact List.takeWhile_eq_self_iff.mpr hs.isWord
      rw [Option.bind_some, if_neg hinside]

/-- After `new` the short name is replaced if it is all of the first name. -/
theorem rewrite_new_instantiation (hn : IsQualified name)
    (he : IsName e.1.toList ∧ IsQualified e.2.toList) :
    (Site.afterKeyword "new").rewrite e.1.toList e.2.toList (instantiation name) =
      instantiation (expand name e) := by
  have hm : (Site.afterKeyword "new").matcher e.1.toList e.2.toList none (instantiation name) = _ :=
    matcher_new_instantiation hn he.1
  have htail := not_isSpace_of_mem hn
  unfold expand
  by_cases hfirst : name.takeWhile isWord = e.1.toList
  · rw [if_pos hfirst] at hm ⊢
    have htext : instantiation name =
        (['n', 'e', 'w', ' '] ++ e.1.toList) ++ (name.dropWhile isWord ++ ['(', ')', ';']) := by
      calc
        instantiation name = ['n', 'e', 'w', ' '] ++ (name ++ ['(', ')', ';']) := rfl
        _ = ['n', 'e', 'w', ' '] ++ (name.takeWhile isWord ++ name.dropWhile isWord ++
            ['(', ')', ';']) := by rw [List.takeWhile_append_dropWhile]
        _ = _ := by rw [hfirst, List.append_assoc, List.append_assoc]
    have hlength : (['n', 'e', 'w', ' '] ++ e.1.toList).length = 4 + e.1.toList.length :=
      List.length_append
    have hspaceless : ∀ c ∈ name.dropWhile isWord ++ ['(', ')', ';'], isSpace c = false := by
      intro c hc
      refine htail c (List.mem_append.mpr ((List.mem_append.mp hc).imp ?_ id))
      exact fun hd => (List.dropWhile_suffix isWord).subset hd
    have hne : ['n', 'e', 'w', ' '] ++ e.1.toList ≠ [] := List.cons_ne_nil _ _
    rw [htext, ← hlength] at hm
    rw [Site.rewrite, Text.rewrite, htext, rewriteFrom_of_match hne hm,
      Site.keyword_rewriteFrom_of_spaceless hspaceless, List.append_assoc, instantiation,
      List.append_assoc]
    rfl
  · rw [if_neg hfirst] at hm ⊢
    have hrest : rewriteFrom ((Site.afterKeyword "new").matcher e.1.toList e.2.toList) (some 'n') 0
        (['e', 'w'] ++ ' ' :: (name ++ ['(', ')', ';'])) =
          ['e', 'w'] ++ ' ' :: (name ++ ['(', ')', ';']) :=
      Site.keyword_rewriteFrom_of_short (by decide) (spaceless_of_all (by decide)) htail
    rw [Site.rewrite, Text.rewrite, instantiation, rewriteFrom_of_none hm]
    exact congrArg ('n' :: ·) hrest

theorem applyEntry_instantiation (hn : IsQualified name)
    (he : IsName e.1.toList ∧ IsQualified e.2.toList) :
    applyEntry (instantiation name) e = instantiation (expand name e) := by
  have hx := hn.expand he
  have hcolon : ':' ∉ instantiation (expand name e) :=
    not_mem_instantiation hx (by decide) (by decide) (by decide)
  have hsigil : '$' ∉ instantiation (expand name e) :=
    not_mem_instantiation hx (by decide) (by decide) (by decide)
  have hmark {site : Site} (hsite : ∀ word, site ≠ .afterKeyword word) :
      site.rewrite e.1.toList e.2.toList (instantiation (expand name e)) =
        instantiation (expand name e) :=
    Site.rewrite_of_not_mem hsite hcolon hsigil
  have hstatic : ∀ word, Site.staticAccess ≠ .afterKeyword word := nofun
  have hparameter : ∀ word, Site.parameterType ≠ .afterKeyword word := nofun
  have hreturn : ∀ word, Site.returnType ≠ .afterKeyword word := nofun
  have hword {word : String} (hlen : ['n', 'e', 'w'].length < word.length) :
      (Site.afterKeyword word).rewrite e.1.toList e.2.toList (instantiation (expand name e)) =
        instantiation (expand name e) := by
    have hpre : ∀ c ∈ ['n', 'e', 'w'], isSpace c = false := spaceless_of_all (by decide)
    exact Site.keyword_rewriteFrom_of_short (d := ' ') hlen hpre (not_isSpace_of_mem hx)
  rw [applyEntry, Site.all]
  simp only [List.foldl_cons, List.foldl_nil]
  rw [rewrite_new_instantiation hn he, hmark hstatic, hword (by decide), hmark hparameter,
    hmark hreturn, hword (by decide), hword (by decide)]

theorem foldl_applyEntry_instantiation {es : List (String × String)}
    (hes : ∀ e ∈ es, IsName e.1.toList ∧ IsQualified e.2.toList) (hn : IsQualified name) :
    es.foldl applyEntry (instantiation name) = instantiation (es.foldl expand name) := by
  induction es generalizing name with
  | nil => rfl
  | cons e es ih =>
    obtain ⟨he, hes⟩ := List.forall_mem_cons.mp hes
    rw [List.foldl_cons, List.foldl_cons, applyEntry_instantiation hn he]
    exact ih hes (hn.expand he)

/-- Entries about other names than the first one leave a class name alone. -/
theorem foldl_expand_of_ne {es : List (String × String)}
    (h : ∀ e ∈ es, name.takeWhile isWord ≠ e.1.toList) : es.foldl expand name = name := by
  induction es with
  | nil => rfl
  | cons e es ih =>
    obtain ⟨he, hes⟩ := List.forall_mem_cons.mp h
    rw [List.foldl_cons, expand, if_neg he]
    exact ih hes

/-- The qualified name of an entry after the entries that follow it. -/
def expandAll (qualified : String) (after : List (String × String)) : String :=
  String.ofList (after.foldl expand qualified.toList)

theorem toList_instantiation (name : String) :
    ("new " ++ name ++ "();").toList = instantiation name.toList := by
  rw [String.toList_append, String.toList_append]
  simp [instantiation]

theorem instantiation_inj {a b : String} :
    "new " ++ a ++ "();" = "new " ++ b ++ "();" ↔ a = b := by
  constructor
  · intro h
    have hlist := congrArg String.toList h
    rw [toList_instantiation, toList_instantiation] at hlist
    simp only [instantiation, List.cons.injEq, true_and, List.append_cancel_right_eq] at hlist
    exact String.toList_inj.mp hlist
  · intro h
    rw [h]

/-- An instantiation comes out with the qualified name of its entry just when the later entries give
that name back; so it does when none of them is about the name's first part. -/
theorem resolve_new {units : List String} {before after : List (String × String)}
    {short qualified : String}
    (h : ((∅ : AliasTable).observeAll units).entries = before ++ (short, qualified) :: after) :
    let code := ((∅ : AliasTable).observeAll units).resolve ("new " ++ short ++ "();")
    code = "new " ++ expandAll qualified after ++ "();" ∧
      (code = "new " ++ qualified ++ "();" ↔ expandAll qualified after = qualified) ∧
      ((∀ e ∈ after, qualified.toList.takeWhile isWord ≠ e.1.toList) →
        code = "new " ++ qualified ++ "();") := by
  intro code
  have hnamed := wellNamed_observeAll units
  have hdistinct := ((∅ : AliasTable).observeAll units).distinct
  unfold WellNamed at hnamed
  rw [h] at hnamed hdistinct
  obtain ⟨hshort, -⟩ := hnamed (short, qualified) (List.mem_append_right _ List.mem_cons_self)
  have hword : short.toList.takeWhile isWord = short.toList :=
    List.takeWhile_eq_self_iff.mpr hshort.isWord
  have hbefore : before.foldl expand short.toList = short.toList := by
    apply foldl_expand_of_ne
    intro e he hes
    rw [hword] at hes
    rw [List.map_append, List.nodup_append] at hdistinct
    have hne := hdistinct.2.2 e.1 (List.mem_map_of_mem he) short List.mem_cons_self
    exact hne (String.toList_inj.mp hes).symm
  have hself : expand short.toList (short, qualified) = qualified.toList := by
    rw [expand, if_pos hword, List.dropWhile_eq_nil_iff.mpr hshort.isWord, List.append_nil]
  have hcode : code = "new " ++ expandAll qualified after ++ "();" := by
    apply String.toList_inj.mp
    rw [toList_instantiation, expandAll, String.toList_ofList]
    change (String.ofList _).toList = _
    rw [String.toList_ofList, toList_instantiation, h,
      foldl_applyEntry_instantiation hnamed (.name hshort), List.foldl_append, hbefore,
      List.foldl_cons, hself]
  refine ⟨hcode, ?_, ?_⟩
  · rw [hcode]
    exact instantiation_inj
  · intro hafter
    rw [hcode, expandAll, foldl_expand_of_ne hafter, String.ofList_toList]

/-- Two imports of which the second is about the first part of what the first one stands for. -/
theorem resolve_new_widget :
    let t := (∅ : AliasTable).observeAll ["use Acme\\Widget;", "use Foo\\Acme;"]
    t.entries = [] ++ ("Widget", "Acme\\Widget") :: [("Acme", "Foo\\Acme")] ∧
      t.resolve "new Widget();" = "new Foo\\Acme\\Widget();" := by
  intro t
  have hentries : t.entries = [] ++ ("Widget", "Acme\\Widget") :: [("Acme", "Foo\\Acme")] := by
    decide +kernel
  have hexpand : expandAll "Acme\\Widget" [("Acme", "Foo\\Acme")] = "Foo\\Acme\\Widget" := by
    decide +kernel
  have hcode := (resolve_new hentries).1
  rw [hexpand] at hcode
  exact ⟨hentries, hcode⟩

/-- So an import does not always resolve to what was imported. -/
theorem not_forall_resolve_new :
    ¬∀ units short qualified,
      (short, qualified) ∈ ((∅ : AliasTable).observeAll units).entries →
        ((∅ : AliasTable).observeAll units).resolve ("new " ++ short ++ "();") =
          "new " ++ qualified ++ "();" := by
  intro h
  have hcode := h ["use Acme\\Widget;", "use Foo\\Acme;"] "Widget" "Acme\\Widget"
    (by decide +kernel)
  exact absurd hcode (by decide +kernel)

end AliasTable

end ScriptShell

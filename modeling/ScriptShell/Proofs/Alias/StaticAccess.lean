import ScriptShell.Proofs.Alias.Expansion
import ScriptShell.Proofs.Alias.Position

/-!
What becomes of a class name that something is accessed on. It is written out wherever it stands,
with two exceptions. The character before it must not be `>`, which is meant to leave the member of
an object alone and leaves every comparison and array entry alone as well. And once it is written
out, the sites that come after static accesses look at it again, so it is written out twice after
some keywords if it starts with the short name itself.
-/

namespace ScriptShell

open Text

/-- Something is accessed on a name in the middle of a text. -/
def access (before name after : List Char) : List Char := before ++ (name ++ ':' :: ':' :: after)

/-- The short name stands nowhere in the texts before and after, and does not go on from the one
before. -/
structure Alone (short before after : List Char) : Prop where
  earlier : ¬short <:+: before
  later : ¬short <:+: after
  apart : ∀ c, before.getLast? = some c → isWord c = false

section

variable {short full before name after : List Char}

/-- A qualified name and an access on it have one place where the short name can stand as a word
that no separator precedes. One that starts later lies inside the name or behind it; one that starts
earlier ends in the text before or goes on from it into the name. -/
theorem Alone.unique (h : Alone short before after) (hs : IsName short) (hn : IsQualified name)
    {x y : List Char} (heq : access before name after = x ++ (short ++ y))
    (hx : ∀ c, x.getLast? = some c → isWord c = false ∧ c ≠ '\\')
    (hy : y.head?.any isWord = false) :
    x = before ∧ name.takeWhile isWord = short ∧ y = name.dropWhile isWord ++ ':' :: ':' :: after := by
  have hhere (heq : name ++ ':' :: ':' :: after = short ++ y) :
      name.takeWhile isWord = short ∧ y = name.dropWhile isWord ++ ':' :: ':' :: after := by
    have hcolon : (':' :: ':' :: after).head?.any isWord = false := rfl
    have hfirst : name.takeWhile isWord = short := by
      calc name.takeWhile isWord
          = (name ++ ':' :: ':' :: after).takeWhile isWord :=
            (takeWhile_append_of_boundary name hcolon).symm
        _ = short := by
            rw [heq, takeWhile_append_of_boundary short hy,
              List.takeWhile_eq_self_iff.mpr hs.isWord]
    refine ⟨hfirst, ?_⟩
    apply @List.append_cancel_left _ short
    rw [← heq, ← List.append_assoc, ← hfirst, List.takeWhile_append_dropWhile]
  unfold access at heq
  rcases List.append_eq_append_iff.mp heq with ⟨a, hxa, hrest⟩ | ⟨a, hba, hrest⟩
  · by_cases ha : a = []
    · rw [ha, List.append_nil] at hxa
      rw [ha, List.nil_append] at hrest
      exact ⟨hxa, hhere hrest⟩
    · have hlast : x.getLast? = a.getLast? := by
        rw [hxa, List.getLast?_append_of_ne_nil before ha]
      rcases List.append_eq_append_iff.mp hrest with ⟨d, had, htail⟩ | ⟨d, hnd, -⟩
      · obtain ⟨c, rest, hshort, hc, -⟩ := hs
        have hcw : isWord c = true := isWord_of_isNameStart hc
        have hstart {tail : List Char} (he : ':' :: tail = short ++ y) : False := by
          rw [hshort] at he
          exact ne_of_isWord hcw (by decide) (List.cons.inj he).1.symm
        match d, htail with
        | [], htail => exact (hstart htail).elim
        | [_], htail => exact (hstart (List.cons.inj htail).2).elim
        | _ :: _ :: d, htail =>
          have hafter : after = d ++ (short ++ y) := (List.cons.inj (List.cons.inj htail).2).2
          refine absurd ⟨d, y, ?_⟩ h.later
          rw [hafter, List.append_assoc]
      · have hmem : a.getLast ha ∈ name := by
          rw [hnd]
          exact List.mem_append_left d (List.getLast_mem ha)
        obtain ⟨hword, hseparator⟩ := hx _ (hlast.trans (List.getLast?_eq_some_getLast ha))
        rcases hn.isWord_or _ hmem with hw | hw
        · exact absurd (hw.symm.trans hword) nofun
        · exact absurd hw hseparator
  · by_cases ha : a = []
    · rw [ha, List.append_nil] at hba
      rw [ha, List.nil_append] at hrest
      exact ⟨hba.symm, hhere hrest.symm⟩
    · have hlast : before.getLast? = a.getLast? := by
        rw [hba, List.getLast?_append_of_ne_nil x ha]
      rcases List.append_eq_append_iff.mp hrest with ⟨d, had, -⟩ | ⟨d, hsd, -⟩
      · refine absurd ⟨x, d, ?_⟩ h.earlier
        rw [hba, had, List.append_assoc]
      · have hmem : a.getLast ha ∈ short := by
          rw [hsd]
          exact List.mem_append_left d (List.getLast_mem ha)
        have hword := h.apart _ (hlast.trans (List.getLast?_eq_some_getLast ha))
        exact absurd ((hs.isWord _ hmem).symm.trans hword) nofun

/-- What stands behind the first name: a separator and more of the name, or the colons. -/
theorem behind_cases (hn : IsQualified name) (after : List Char) :
    (∃ tail, name.dropWhile isWord ++ ':' :: ':' :: after = '\\' :: tail) ∨
      name.dropWhile isWord = [] := by
  obtain ⟨first, rest, hname, hfirst, hrest⟩ := hn.split_first
  rw [hname, List.dropWhile_append_of_pos hfirst.isWord]
  rcases hrest with hrest | ⟨tail, hrest, -⟩
  · rw [hrest]
    exact Or.inr rfl
  · rw [hrest]
    exact Or.inl ⟨_, rfl⟩

theorem head?_behind (hn : IsQualified name) (after : List Char) {q : Char → Bool}
    (hseparator : q '\\' = false) (hcolon : q ':' = false) :
    (name.dropWhile isWord ++ ':' :: ':' :: after).head?.any q = false := by
  rcases behind_cases hn after with ⟨tail, htail⟩ | hnil
  · rw [htail]
    exact hseparator
  · rw [hnil]
    exact hcolon

namespace Site

variable {site : Site}

/-- Whatever matches is the first name, where the site is ready for it. -/
theorem match_access (h : Alone short before after) (hs : IsName short) (hn : IsQualified name)
    {a b out : List Char} {n : Nat} (hab : access before name after = a ++ b)
    (hm : site.matcher short full a.getLast? b = some (out, n)) :
    ∃ lead trail rest, b = lead ++ (short ++ (trail ++ rest)) ∧ out = lead ++ full ++ trail ∧
      n = (lead ++ (short ++ trail)).length ∧ site.Reaches a lead ∧ a ++ lead = before ∧
      name.takeWhile isWord = short ∧
      trail ++ rest = name.dropWhile isWord ++ ':' :: ':' :: after ∧
      site.trail? short.getLast? (trail ++ rest) = some trail := by
  obtain ⟨lead, trail, rest, hb, hout, hlen, hreach, htrail⟩ := matcher_eq_some hs hm
  have heq : access before name after = (a ++ lead) ++ (short ++ (trail ++ rest)) := by
    rw [hab, hb, List.append_assoc]
  have hx : ∀ c, (a ++ lead).getLast? = some c → isWord c = false ∧ c ≠ '\\' := by
    intro c hc
    obtain ⟨hword, hseparator, -, -⟩ := hreach.last hc
    exact ⟨hword, hseparator⟩
  have hy := (trail_sound (isWord_getLast? hs) htrail).2
  obtain ⟨hbefore, hfirst, hbehind⟩ := h.unique hs hn heq hx hy
  exact ⟨lead, trail, rest, hb, hout, hlen, hreach, hbefore, hfirst, hbehind, htrail⟩

/-- A site that is not ready, or that does not keep what stands behind the name, leaves the text
alone. -/
theorem rewrite_access_eq_self (h : Alone short before after) (hs : IsName short)
    (hn : IsQualified name)
    (hno : site.Ready before → name.takeWhile isWord = short →
      site.trail? short.getLast? (name.dropWhile isWord ++ ':' :: ':' :: after) = none) :
    site.rewrite short full (access before name after) = access before name after := by
  apply @rewriteFrom_eq_self _ []
  intro a b hab
  rw [List.nil_append]
  cases hm : site.matcher short full a.getLast? b with
  | none => rfl
  | some found =>
    obtain ⟨lead, trail, rest, -, -, -, hreach, hbefore, hfirst, hbehind, htrail⟩ :=
      match_access h hs hn hab hm
    have hnone := hno ⟨a, lead, hbefore.symm, hreach⟩ hfirst
    rw [← hbehind, htrail] at hnone
    exact absurd hnone nofun

/-- A site that is ready and keeps what stands behind the name has the name written out, once. -/
theorem rewrite_access_of_ready (h : Alone short before after) (hs : IsName short)
    (hn : IsQualified name) (hready : site.Ready before) (hfirst : name.takeWhile isWord = short)
    (htrail : (site.trail? short.getLast?
      (name.dropWhile isWord ++ ':' :: ':' :: after)).isSome = true) :
    site.rewrite short full (access before name after) =
      access before (full ++ name.dropWhile isWord) after := by
  apply @rewriteFrom_eq_of_exists _ []
  · intro a b out n hab hm
    rw [List.nil_append] at hm ⊢
    obtain ⟨lead, trail, rest, hb, hout, hlen, -, hbefore, -, hbehind, -⟩ :=
      match_access h hs hn hab hm
    have hne : lead ++ (short ++ trail) ≠ [] := List.append_ne_nil_of_right_ne_nil lead
      (List.append_ne_nil_of_left_ne_nil hs.ne_nil trail)
    have hrest : rewriteFrom (site.matcher short full) (a ++ (lead ++ (short ++ trail))).getLast? 0
        rest = rest := by
      apply rewriteFrom_eq_self
      intro a' b' hab'
      cases hm' : site.matcher short full (a ++ (lead ++ (short ++ trail)) ++ a').getLast? b' with
      | none => rfl
      | some found =>
        have hab' : access before name after = (a ++ (lead ++ (short ++ trail)) ++ a') ++ b' := by
          rw [hab, hb, hab']
          simp only [List.append_assoc]
        obtain ⟨lead', _, _, -, -, -, -, hbefore', -⟩ := match_access h hs hn hab' hm'
        have hlength := congrArg List.length (hbefore'.trans hbefore.symm)
        have hpos := List.length_pos_iff.mpr hs.ne_nil
        simp only [List.length_append] at hlength
        omega
    refine ⟨lead ++ (short ++ trail), rest, ?_, hne, hlen, ?_⟩
    · rw [hb]
      simp only [List.append_assoc]
    · calc a ++ out ++ rewriteFrom _ (a ++ (lead ++ (short ++ trail))).getLast? 0 rest
          = (a ++ lead) ++ (full ++ (trail ++ rest)) := by
            rw [hrest, hout]
            simp only [List.append_assoc]
        _ = access before (full ++ name.dropWhile isWord) after := by
            rw [hbefore, hbehind, access, List.append_assoc]
  · obtain ⟨a, lead, hbefore, hreach⟩ := hready
    refine ⟨a, lead ++ (short ++ (name.dropWhile isWord ++ ':' :: ':' :: after)), ?_, ?_⟩
    · calc access before name after
          = before ++ (name.takeWhile isWord ++ name.dropWhile isWord ++ ':' :: ':' :: after) := by
            rw [List.takeWhile_append_dropWhile]
            rfl
        _ = _ := by
            rw [hfirst, hbefore]
            simp only [List.append_assoc]
    · exact matcher_isSome hs hreach htrail

/-- Nothing is kept behind the name but the end of the word. -/
def EndsWord (site : Site) : Prop :=
  ∀ last cs, site.trail? last cs = if isBoundary last cs.head? then some [] else none

/-- Not after the `>` of an arrow, whatever that `>` belongs to. -/
theorem Ready.getLast?_ne (h : site.Ready before) : before.getLast? ≠ some '>' := by
  obtain ⟨a, lead, hbefore, hreach⟩ := h
  intro hlast
  rw [hbefore] at hlast
  exact (hreach.last hlast).2.2.2 rfl

/-- Before `::` every other character will do, unless the name goes on from it. -/
theorem ready_static (hlast : ∀ c, before.getLast? = some c →
      isWord c = false ∧ c ≠ '\\' ∧ c ≠ '$') (harrow : before.getLast? ≠ some '>') :
    Site.staticAccess.Ready before := by
  cases hc : before.getLast? with
  | none => exact ⟨before, [], (List.append_nil before).symm,
      .lineStart (Or.inl (List.getLast?_eq_none_iff.mp hc))⟩
  | some c =>
    obtain ⟨a, hbefore⟩ := List.getLast?_eq_some_iff.mp hc
    obtain ⟨hword, hseparator, hsigil⟩ := hlast c hc
    refine ⟨a, [c], hbefore, .mark hword hseparator hsigil ?_⟩
    intro he
    rw [hc, he] at harrow
    exact harrow rfl

variable {e : String × String}

/-- A site that ends with the word has the first name written out where it is ready. -/
theorem rewrite_word_of_ready (hw : site.EndsWord) (h : Alone e.1.toList before after)
    (hs : IsName e.1.toList) (hn : IsQualified name) (hready : site.Ready before) :
    site.rewrite e.1.toList e.2.toList (access before name after) =
      access before (AliasTable.expand name e) after := by
  unfold AliasTable.expand
  by_cases hfirst : name.takeWhile isWord = e.1.toList
  · have hboundary : isBoundary e.1.toList.getLast?
        (name.dropWhile isWord ++ ':' :: ':' :: after).head? = true := by
      rw [isBoundary, isWord_getLast? hs, head?_behind hn after (by decide) (by decide)]
      rfl
    rw [if_pos hfirst]
    apply rewrite_access_of_ready h hs hn hready hfirst
    rw [hw, if_pos hboundary]
    rfl
  · rw [if_neg hfirst]
    exact rewrite_access_eq_self h hs hn fun _ hf => absurd hf hfirst

theorem rewrite_of_not_ready (h : Alone short before after) (hs : IsName short)
    (hn : IsQualified name) (hno : ¬site.Ready before) :
    site.rewrite short full (access before name after) = access before name after :=
  rewrite_access_eq_self h hs hn fun hready _ => absurd hready hno

/-- An access is no parameter's type, which has white space behind it. -/
theorem rewrite_parameter (h : Alone short before after) (hs : IsName short)
    (hn : IsQualified name) :
    Site.parameterType.rewrite short full (access before name after) = access before name after := by
  apply rewrite_access_eq_self h hs hn
  intro _ _
  cases ht : parameterTrail? (name.dropWhile isWord ++ ':' :: ':' :: after) with
  | none => exact ht
  | some trail =>
    have hspace := (parameterTrail_sound ht).2.1
    rw [head?_behind hn after (by decide) (by decide)] at hspace
    exact absurd hspace nofun

/-- A static access is rewritten only where the short name alone stands before the colons. -/
theorem rewrite_static_of_ne (h : Alone short before after) (hs : IsName short)
    (hn : IsQualified name) (hne : name ≠ short) :
    Site.staticAccess.rewrite short full (access before name after) = access before name after := by
  apply rewrite_access_eq_self h hs hn
  intro _ hfirst
  rcases behind_cases hn after with ⟨tail, htail⟩ | hnil
  · rw [htail]
    rfl
  · refine absurd ?_ hne
    rw [← List.takeWhile_append_dropWhile (p := isWord) (l := name), hnil, List.append_nil]
    exact hfirst

theorem rewrite_static_of_ready (h : Alone short before after) (hs : IsName short)
    (hready : Site.staticAccess.Ready before) :
    Site.staticAccess.rewrite short full (access before short after) = access before full after := by
  have hfirst : short.takeWhile isWord = short := List.takeWhile_eq_self_iff.mpr hs.isWord
  have hrest : short.dropWhile isWord = [] := List.dropWhile_eq_nil_iff.mpr hs.isWord
  rw [rewrite_access_of_ready h hs (.name hs) hready hfirst, hrest, List.append_nil]
  rw [hrest]
  rfl

/-- The sites at which a name is looked at after static accesses, where it ends with a word. -/
def afterStatic : List Site :=
  [.afterKeyword "instanceof", .returnType, .afterKeyword "extends", .afterKeyword "implements"]

theorem endsWord_of_mem (h : site ∈ afterStatic) : site.EndsWord := by
  intro last cs
  rcases List.mem_cons.mp h with rfl | h
  · rfl
  rcases List.mem_cons.mp h with rfl | h
  · rfl
  rcases List.mem_cons.mp h with rfl | h
  · rfl
  rw [List.mem_singleton.mp h]
  rfl

/-- The backward spellings of what comes last, white space aside, where one of these sites is
ready. -/
def endings : Site → List (List Char)
  | .afterKeyword word => [word.toList.reverse]
  | .returnType => [[':'], ['?']]
  | _ => []

/-- A text that is ready for a site ends in one of its endings, white space aside. Read backwards,
these are a keyword, or a mark or none and a colon. -/
theorem exists_ending_of_ready (hsite : site ∈ afterStatic) (h : site.Ready before) :
    ∃ k ∈ site.endings, k <+: before.reverse.dropWhile isSpace := by
  have hreverse {spaces : List Char} (h : ∀ c ∈ spaces, isSpace c = true) :
      ∀ c ∈ spaces.reverse, isSpace c = true := fun c hc => h c (List.mem_reverse.mp hc)
  obtain ⟨a, lead, hbefore, hreach⟩ := h
  rw [hbefore]
  cases hreach with
  | @keyword word _ spaces starts apart white =>
    have hword : word.toList.reverse.dropWhile isSpace = word.toList.reverse ∧
        word.toList.reverse ≠ [] := by
      rcases List.mem_cons.mp hsite with heq | hsite
      · rw [Site.afterKeyword.inj heq]
        decide
      rcases List.mem_cons.mp hsite with heq | hsite
      · exact absurd heq nofun
      rcases List.mem_cons.mp hsite with heq | hsite
      · rw [Site.afterKeyword.inj heq]
        decide
      rw [Site.afterKeyword.inj (List.mem_singleton.mp hsite)]
      decide
    refine ⟨_, List.mem_singleton_self _, a.reverse, ?_⟩
    rw [List.reverse_append, List.reverse_append, List.append_assoc,
      List.dropWhile_append_of_pos (hreverse white), List.dropWhile_append, hword.1,
      if_neg fun hempty => hword.2 (List.isEmpty_iff.mp hempty)]
  | lineStart h => exact absurd hsite (by decide)
  | mark => exact absurd hsite (by decide)
  | parameter => exact absurd hsite (by decide)
  | @result _ spaces lead white nullable =>
    obtain ⟨more, mark, hlead, hall, hmark⟩ := nullable
    have htext : (a ++ ')' :: (spaces ++ ':' :: lead)).reverse =
        mark.reverse ++ (more.reverse ++ ':' :: (spaces.reverse ++ ')' :: a.reverse)) := by
      rw [hlead]
      simp only [List.reverse_append, List.reverse_cons, List.append_assoc, List.cons_append,
        List.nil_append]
    rw [htext]
    rcases hmark with rfl | rfl
    · refine ⟨_, List.mem_cons_self, spaces.reverse ++ ')' :: a.reverse, ?_⟩
      rw [List.reverse_nil, List.nil_append, List.dropWhile_append_of_pos (hreverse hall)]
      rfl
    · exact ⟨_, List.mem_cons_of_mem _ List.mem_cons_self, _, rfl⟩

/-- No text is ready for two of these sites. Two endings of one text agree as far as the shorter
goes, and no two of these do. -/
theorem ready_unique {s t : Site} (hs : s ∈ afterStatic) (ht : t ∈ afterStatic)
    (h : s.Ready before) (h' : t.Ready before) : s = t := by
  have hapart : ∀ s ∈ afterStatic, ∀ t ∈ afterStatic, s ≠ t →
      ∀ k ∈ s.endings, ∀ l ∈ t.endings, ¬k <+: l ∧ ¬l <+: k := by decide
  obtain ⟨k, hk, hkpre⟩ := exists_ending_of_ready hs h
  obtain ⟨l, hl, hlpre⟩ := exists_ending_of_ready ht h'
  by_cases heq : s = t
  · exact heq
  · obtain ⟨hkl, hlk⟩ := hapart s hs t ht heq k hk l hl
    rcases List.prefix_or_prefix_of_prefix hkpre hlpre with hp | hp
    · exact absurd hp hkl
    · exact absurd hp hlk

end Site

/-- The text makes a site look at a name that has been written out before `::` already. -/
def Rereads (before : List Char) : Prop := ∃ site ∈ Site.afterStatic, site.Ready before

end

namespace AliasTable

variable {e : String × String} {before after : List Char}

/-- After `>` nothing is written out. -/
theorem applyEntry_access_arrow (h : Alone e.1.toList before after) (hs : IsName e.1.toList)
    (harrow : before.getLast? = some '>') :
    applyEntry (access before e.1.toList after) e = access before e.1.toList after := by
  have hkeep (site : Site) : site.rewrite e.1.toList e.2.toList
      (access before e.1.toList after) = access before e.1.toList after := by
    apply Site.rewrite_of_not_ready h hs (.name hs)
    intro hready
    exact hready.getLast?_ne harrow
  unfold applyEntry
  induction Site.all with
  | nil => rfl
  | cons site sites ih =>
    rw [List.foldl_cons, hkeep]
    exact ih

/-- The first two sites write the short name out, whichever of them finds it. After `new` the second
one is given the qualified name, and keeps it in any case. -/
theorem rewrite_first_sites (h : Alone e.1.toList before after)
    (he : IsName e.1.toList ∧ IsQualified e.2.toList)
    (hready : Site.staticAccess.Ready before) :
    Site.staticAccess.rewrite e.1.toList e.2.toList
      ((Site.afterKeyword "new").rewrite e.1.toList e.2.toList
        (access before e.1.toList after)) = access before e.2.toList after := by
  obtain ⟨hs, hq⟩ := he
  have hexpand : expand e.1.toList e = e.2.toList := by
    rw [expand, List.takeWhile_eq_self_iff.mpr hs.isWord, if_pos rfl,
      List.dropWhile_eq_nil_iff.mpr hs.isWord, List.append_nil]
  by_cases hnew : (Site.afterKeyword "new").Ready before
  · have hword : (Site.afterKeyword "new").EndsWord := fun _ _ => rfl
    rw [Site.rewrite_word_of_ready hword h hs (.name hs) hnew, hexpand]
    by_cases heq : e.2.toList = e.1.toList
    · rw [heq]
      exact Site.rewrite_static_of_ready h hs hready
    · exact Site.rewrite_static_of_ne h hs hq heq
  · rw [Site.rewrite_of_not_ready h hs (.name hs) hnew]
    exact Site.rewrite_static_of_ready h hs hready

/-- Where no later site looks at it again, the qualified name stays. -/
theorem applyEntry_access (h : Alone e.1.toList before after)
    (he : IsName e.1.toList ∧ IsQualified e.2.toList) (hready : Site.staticAccess.Ready before)
    (hno : ¬Rereads before) :
    applyEntry (access before e.1.toList after) e = access before e.2.toList after := by
  have hkeep {site : Site} (hsite : site ∈ Site.afterStatic) :
      site.rewrite e.1.toList e.2.toList (access before e.2.toList after) =
        access before e.2.toList after := by
    apply Site.rewrite_of_not_ready h he.1 he.2
    intro hready
    exact hno ⟨site, hsite, hready⟩
  have hparameter := @Site.rewrite_parameter _ e.2.toList _ _ _ h he.1 he.2
  rw [applyEntry, Site.all]
  simp only [List.foldl_cons, List.foldl_nil]
  rw [rewrite_first_sites h he hready, hkeep (by decide), hparameter, hkeep (by decide),
    hkeep (by decide), hkeep (by decide)]

/-- A later site that looks at it again writes out its first name once more. The sites before that
one keep the qualified name, those after it what has become of it. -/
theorem applyEntry_access_reread (h : Alone e.1.toList before after)
    (he : IsName e.1.toList ∧ IsQualified e.2.toList) (hready : Site.staticAccess.Ready before)
    (hre : Rereads before) :
    applyEntry (access before e.1.toList after) e =
      access before (expand e.2.toList e) after := by
  obtain ⟨site, hsite, hagain⟩ := hre
  have hfire : site.rewrite e.1.toList e.2.toList (access before e.2.toList after) =
      access before (expand e.2.toList e) after :=
    Site.rewrite_word_of_ready (Site.endsWord_of_mem hsite) h he.1 he.2 hagain
  have hkeep {other : Site} (hother : other ∈ Site.afterStatic) (hne : other ≠ site)
      {name : List Char} (hn : IsQualified name) :
      other.rewrite e.1.toList e.2.toList (access before name after) =
        access before name after := by
    apply Site.rewrite_of_not_ready h he.1 hn
    intro hready
    exact hne (Site.ready_unique hother hsite hready hagain)
  have hparameter {name : List Char} (hn : IsQualified name) :=
    @Site.rewrite_parameter _ e.2.toList _ _ _ h he.1 hn
  have hq := he.2
  have hx := hq.expand he
  rw [applyEntry, Site.all]
  simp only [List.foldl_cons, List.foldl_nil]
  rw [rewrite_first_sites h he hready]
  rcases List.mem_cons.mp hsite with rfl | hsite
  · rw [hfire, hparameter hx, hkeep (by decide) (by decide) hx, hkeep (by decide) (by decide) hx,
      hkeep (by decide) (by decide) hx]
  rcases List.mem_cons.mp hsite with rfl | hsite
  · rw [hkeep (by decide) (by decide) hq, hparameter hq, hfire,
      hkeep (by decide) (by decide) hx, hkeep (by decide) (by decide) hx]
  rcases List.mem_cons.mp hsite with rfl | hsite
  · rw [hkeep (by decide) (by decide) hq, hparameter hq, hkeep (by decide) (by decide) hq, hfire,
      hkeep (by decide) (by decide) hx]
  obtain rfl := List.mem_singleton.mp hsite
  rw [hkeep (by decide) (by decide) hq, hparameter hq, hkeep (by decide) (by decide) hq,
    hkeep (by decide) (by decide) hq, hfire]

/-- A name stays when it is written out in itself only if it is the short name, or does not start
with it. -/
theorem expand_eq_self_iff {short full : String} :
    expand full.toList (short, full) = full.toList ↔
      full = short ∨ full.toList.takeWhile isWord ≠ short.toList := by
  unfold expand
  by_cases hfirst : full.toList.takeWhile isWord = short.toList
  · rw [if_pos hfirst, List.append_right_eq_self]
    constructor
    · intro hnil
      refine Or.inl (String.toList_inj.mp ?_)
      rw [← hfirst, ← List.append_nil (full.toList.takeWhile isWord), ← hnil,
        List.takeWhile_append_dropWhile]
    · intro hcase
      have heq := hcase.resolve_right fun hne => hne hfirst
      rw [heq] at hfirst ⊢
      exact List.dropWhile_eq_nil_iff.mpr fun c hc => List.mem_takeWhile_imp (hfirst.symm ▸ hc)
  · rw [if_neg hfirst]
    exact iff_of_true rfl (Or.inr hfirst)

/-- Take a table with one import and an access on its short name, which occurs nowhere else and does
not go on from the text before it. After `>` the access stays as it is; everywhere else the name is
written out, and twice where a later site looks at it again and it starts with the short name. So
the access is resolved exactly when the import changes nothing, or it does not come after `>`, and a
site that looks at the name again finds another first name in it. -/
theorem resolve_static_access {units : List String} {short qualified p r : String}
    (hentry : ((∅ : AliasTable).observeAll units).entries = [(short, qualified)])
    (hp : ¬short.toList <:+: p.toList) (hr : ¬short.toList <:+: r.toList)
    (hlast : ∀ c, p.toList.getLast? = some c → isWord c = false ∧ c ≠ '\\' ∧ c ≠ '$') :
    let t := (∅ : AliasTable).observeAll units
    let accessed (name : String) := p ++ name ++ "::" ++ r
    (p.toList.getLast? = some '>' → t.resolve (accessed short) = accessed short) ∧
    (p.toList.getLast? ≠ some '>' → ¬Rereads p.toList →
      t.resolve (accessed short) = accessed qualified) ∧
    (Rereads p.toList → t.resolve (accessed short) =
      accessed (String.ofList (expand qualified.toList (short, qualified)))) ∧
    (t.resolve (accessed short) = accessed qualified ↔ qualified = short ∨
      p.toList.getLast? ≠ some '>' ∧
        (Rereads p.toList → qualified.toList.takeWhile isWord ≠ short.toList)) := by
  intro t accessed
  have htext (name : String) : (accessed name).toList = access p.toList name.toList r.toList := by
    simp only [accessed, access, String.toList_append, List.append_assoc]
    rfl
  have hinj (name name' : String) : accessed name = accessed name' ↔ name = name' := by
    rw [← String.toList_inj, htext, htext, access, access, List.append_cancel_left_eq,
      List.append_cancel_right_eq, String.toList_inj]
  have he : IsName short.toList ∧ IsQualified qualified.toList := by
    apply wellNamed_observeAll units (short, qualified)
    rw [hentry]
    exact List.mem_singleton_self _
  have halone : Alone short.toList p.toList r.toList := ⟨hp, hr, fun c hc => (hlast c hc).1⟩
  have hresolve {name : String} (h : applyEntry (access p.toList short.toList r.toList)
      (short, qualified) = access p.toList name.toList r.toList) :
      t.resolve (accessed short) = accessed name := by
    rw [← String.toList_inj, resolve, hentry, String.toList_ofList, htext, htext, List.foldl_cons,
      List.foldl_nil]
    exact h
  have harrow (h : p.toList.getLast? = some '>') : t.resolve (accessed short) = accessed short :=
    hresolve (@applyEntry_access_arrow (short, qualified) _ _ halone he.1 h)
  have honce (h : p.toList.getLast? ≠ some '>') (hno : ¬Rereads p.toList) :
      t.resolve (accessed short) = accessed qualified :=
    hresolve (@applyEntry_access (short, qualified) _ _ halone he (Site.ready_static hlast h) hno)
  have hne (h : Rereads p.toList) : p.toList.getLast? ≠ some '>' := by
    obtain ⟨site, -, hready⟩ := h
    exact hready.getLast?_ne
  have htwice (h : Rereads p.toList) : t.resolve (accessed short) =
      accessed (String.ofList (expand qualified.toList (short, qualified))) := by
    apply hresolve
    rw [String.toList_ofList]
    exact @applyEntry_access_reread (short, qualified) _ _ halone he
      (Site.ready_static hlast (hne h)) h
  refine ⟨harrow, honce, htwice, ?_⟩
  by_cases h : p.toList.getLast? = some '>'
  · rw [harrow h, hinj]
    constructor
    · exact fun heq => Or.inl heq.symm
    · exact fun hcase => (hcase.resolve_right fun hboth => hboth.1 h).symm
  · by_cases hre : Rereads p.toList
    · rw [htwice hre, hinj, ← String.toList_inj, String.toList_ofList, expand_eq_self_iff]
      exact or_congr_right ⟨fun hfirst => ⟨h, fun _ => hfirst⟩, fun hboth => hboth.2 hre⟩
    · exact iff_of_true (honce h hre) (Or.inr ⟨h, fun hagain => absurd hagain hre⟩)

theorem getLast?_entry : "['k'=>".toList.getLast? = some '>' := by decide +kernel

theorem apart_entry (c : Char) (hc : "['k'=>".toList.getLast? = some c) :
    isWord c = false ∧ c ≠ '\\' ∧ c ≠ '$' := by
  rw [← Option.some.inj (getLast?_entry.symm.trans hc)]
  decide

/-- So the value of an array entry stays as it is. -/
theorem resolve_static_access_entry :
    let t := (∅ : AliasTable).observeAll ["use Acme\\Widget;"]
    t.entries = [("Widget", "Acme\\Widget")] ∧
    ¬"Widget".toList <:+: "['k'=>".toList ∧ ¬"Widget".toList <:+: "X];".toList ∧
    (∀ c, "['k'=>".toList.getLast? = some c → isWord c = false ∧ c ≠ '\\' ∧ c ≠ '$') ∧
    t.resolve "['k'=>Widget::X];" = "['k'=>Widget::X];" := by
  intro t
  have hentry : t.entries = [("Widget", "Acme\\Widget")] := by decide +kernel
  have hp : ¬"Widget".toList <:+: "['k'=>".toList := by decide +kernel
  have hr : ¬"Widget".toList <:+: "X];".toList := by decide +kernel
  have hkeeps := (resolve_static_access hentry hp hr apart_entry).1 getLast?_entry
  exact ⟨hentry, hp, hr, apart_entry, hkeeps⟩

/-- That is no member of an object, and still the access is not resolved. -/
theorem not_forall_static_access_resolved :
    ¬∀ (units : List String) (short qualified p r : String),
      ((∅ : AliasTable).observeAll units).entries = [(short, qualified)] →
      ¬short.toList <:+: p.toList → ¬short.toList <:+: r.toList →
      (∀ c, p.toList.getLast? = some c → isWord c = false ∧ c ≠ '\\' ∧ c ≠ '$') →
      ¬"->".toList <:+ p.toList →
      ((∅ : AliasTable).observeAll units).resolve (p ++ short ++ "::" ++ r) =
        p ++ qualified ++ "::" ++ r := by
  intro h
  have hcode := h ["use Acme\\Widget;"] "Widget" "Acme\\Widget" "['k'=>" "X];" (by decide +kernel)
    (by decide +kernel) (by decide +kernel) apart_entry (by decide +kernel)
  exact absurd hcode (by decide +kernel)

/- A name that starts with its short name is written out twice after `instanceof`. -/
example : ((∅ : AliasTable).observeAll ["use Acme\\Client as Acme;"]).resolve
    "$x instanceof Acme::Y" = "$x instanceof Acme\\Client\\Client::Y" := by
  decide +kernel

end AliasTable

end ScriptShell

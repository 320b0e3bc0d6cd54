import ScriptShell.Proofs.Alias.Position
import ScriptShell.Proofs.Text.Phrase

/-!
What counts, of the text around a name, for whether it stands at a site. Before the name these are
the marks and at most one word before them, which matters only if it is a keyword; after it, the
marks up to the next word.
-/

namespace ScriptShell

open Text

theorem IsName.isRun {cs : List Char} (h : IsName cs) : IsRun cs := ⟨h.ne_nil, h.isWord⟩

/-- The words that sites look for before a name. -/
def keywords : List (List Char) := ["new", "instanceof", "extends", "implements"].map String.toList

theorem isRun_of_mem_keywords {word : List Char} (h : word ∈ keywords) : IsRun word := by
  have hall : ∀ word ∈ keywords, word ≠ [] ∧ word.all isWord = true := by decide +kernel
  exact ⟨(hall word h).1, List.all_eq_true.mp (hall word h).2⟩

namespace Site

variable {site : Site} {before before' lead read word word' marks : List Char}

/-- Of what stands before, only the last character counts. -/
theorem Reaches.congr (h : site.Reaches before lead) (hlast : before'.getLast? = before.getLast?) :
    site.Reaches before' lead := by
  cases h with
  | keyword starts apart white =>
    rw [← hlast] at starts
    exact .keyword starts apart white
  | lineStart h =>
    rw [← List.getLast?_eq_none_iff, ← hlast, List.getLast?_eq_none_iff] at h
    exact .lineStart h
  | mark word separator sigil arrow => exact .mark word separator sigil arrow
  | parameter opens nullable => exact .parameter opens nullable
  | result white nullable => exact .result white nullable

theorem toList_mem_keywords {keyword : String} (h : Site.afterKeyword keyword ∈ Site.all) :
    keyword.toList ∈ keywords := by
  simp only [Site.all, List.mem_cons, Site.afterKeyword.injEq, reduceCtorEq, false_or,
    List.not_mem_nil, or_false] at h
  rcases h with rfl | rfl | rfl | rfl
  · decide
  · decide
  · decide
  · decide

/-- What stands before a name is marks, or a keyword with white space after it. -/
theorem Reaches.isMarks_or_keyword (hsite : site ∈ Site.all) (h : site.Reaches before lead) :
    IsMarks lead ∨ ∃ keyword spaces, site = .afterKeyword keyword ∧ keyword.toList ∈ keywords ∧
      lead = keyword.toList ++ spaces ∧ spaces ≠ [] ∧ (∀ c ∈ spaces, isSpace c = true) ∧
      before.getLast?.any isWord = false := by
  have hnullable {lead : List Char} (hlead : IsNullable lead) : IsMarks lead := by
    obtain ⟨spaces, mark, rfl, hall, hmark⟩ := hlead
    intro c hc
    rcases List.mem_append.mp hc with hc | hc
    · exact not_isWord_of_isSpace (hall c hc)
    · rcases hmark with rfl | rfl
      · exact absurd hc List.not_mem_nil
      · rw [List.mem_singleton.mp hc]
        decide
  cases h with
  | @keyword keyword _ spaces starts apart white =>
    have hkeyword := toList_mem_keywords hsite
    obtain ⟨c, tail, htext, hc⟩ := (isRun_of_mem_keywords hkeyword).head? spaces
    rw [htext] at starts
    refine Or.inr ⟨keyword, spaces, rfl, hkeyword, rfl, apart, white, ?_⟩
    cases hlast : before.getLast?.any isWord with
    | false => rfl
    | true => exact absurd ((isBoundary_of_isWord hlast starts).symm.trans hc) nofun
  | lineStart h => exact Or.inl nofun
  | mark word separator sigil arrow => exact Or.inl (List.forall_mem_singleton.mpr word)
  | @parameter _ lead c opens nullable =>
    refine Or.inl (List.forall_mem_cons.mpr ⟨?_, hnullable nullable⟩)
    rcases opens with rfl | rfl
    · decide
    · decide
  | @result _ spaces lead white nullable =>
    have hcolon : IsMarks (':' :: lead) := List.forall_mem_cons.mpr ⟨by decide, hnullable nullable⟩
    refine Or.inl (List.forall_mem_cons.mpr ⟨by decide, fun c hc => ?_⟩)
    rcases List.mem_append.mp hc with hc | hc
    · exact not_isWord_of_isSpace (white c hc)
    · exact hcolon c hc

/-- Marks that follow a word are what a site looks for after any text, if after this word. -/
theorem Reaches.of_isRun (hsite : site ∈ Site.all) (h : site.Reaches word marks)
    (hword : IsRun word) (hmarks : IsMarks marks) : site.Reaches before marks := by
  cases h with
  | @keyword keyword _ spaces _ _ _ =>
    have hkey := isRun_of_mem_keywords (toList_mem_keywords hsite)
    exact absurd hmarks (hkey.not_isMarks spaces)
  | lineStart h =>
    rcases h with h | h
    · exact absurd h hword.1
    · have hlast := hword.getLast?
      rw [h] at hlast
      exact absurd hlast (by decide)
  | mark word separator sigil arrow => exact .mark word separator sigil arrow
  | parameter opens nullable => exact .parameter opens nullable
  | result white nullable => exact .result white nullable

/-- A name that follows these texts stands at the site, also if the first of them has been dealt
with and only the second can be looked at. -/
def ReadyIn (site : Site) (read pending : List Char) : Prop :=
  ∃ a b, pending = a ++ b ∧ site.Reaches (read ++ a) b

/-- Some of the ways to go on that are tried goes over the rest. -/
theorem readyIn_iff_leads {pending : List Char} : site.ReadyIn read pending ↔
    ∃ n ∈ List.range (pending.length + 1), (pending.length - n, []) ∈
      site.leads (read ++ pending.take n).getLast? (pending.drop n) := by
  constructor
  · rintro ⟨a, b, rfl, hreach⟩
    refine ⟨a.length, ?_, ?_⟩
    · rw [List.mem_range, List.length_append]
      omega
    · rw [List.take_left, List.drop_left, List.length_append, Nat.add_sub_cancel_left]
      exact mem_leads_iff.mpr ⟨b, (List.append_nil b).symm, rfl, hreach⟩
  · rintro ⟨n, -, hlead⟩
    obtain ⟨lead, hdrop, -, hreach⟩ := mem_leads_iff.mp hlead
    rw [List.append_nil] at hdrop
    refine ⟨pending.take n, lead, ?_, hreach⟩
    rw [← hdrop, List.take_append_drop]

instance (site : Site) (read pending : List Char) : Decidable (site.ReadyIn read pending) :=
  decidable_of_iff _ readyIn_iff_leads.symm

/-- Once a word has been passed over, it counts only if it is the keyword itself: a keyword inside
the word would follow a word character. -/
theorem readyIn_word_iff (hsite : site ∈ Site.all) (hword : IsRun word) (hmarks : IsMarks marks)
    (hread : read.getLast?.any isWord = false) : site.ReadyIn read (word ++ marks) ↔
      (∃ keyword, site = .afterKeyword keyword ∧ word = keyword.toList ∧ marks ≠ [] ∧
        ∀ c ∈ marks, isSpace c = true) ∨ site.ReadyIn word marks := by
  have hlast (a : List Char) : (read ++ (word ++ a)).getLast? = (word ++ a).getLast? :=
    List.getLast?_append_of_ne_nil read (List.append_ne_nil_of_left_ne_nil hword.1 a)
  constructor
  · rintro ⟨a, b, hab, hreach⟩
    rcases append_cases hab with ⟨tail, htail, hw, rfl⟩ | ⟨mid, rfl, hm⟩
    · have hrun : IsRun tail :=
        ⟨htail, fun c hc => hword.2 c (hw ▸ List.mem_append_right a hc)⟩
      rcases hreach.isMarks_or_keyword hsite with hno | ⟨keyword, spaces, hkey, hmem, hlead, hne,
        hwhite, hstart⟩
      · exact absurd hno (hrun.not_isMarks marks)
      · obtain ⟨htk, hms⟩ := append_inj_of_forall hlead hrun.2 (isRun_of_mem_keywords hmem).2
          hmarks.head? (IsMarks.of_spaces hwhite).head?
        have ha : a = [] := by
          by_cases ha : a = []
          · exact ha
          · rw [List.getLast?_append_of_ne_nil read ha, List.getLast?_eq_some_getLast ha] at hstart
            have hmem : a.getLast ha ∈ word := hw ▸ List.mem_append_left tail (List.getLast_mem ha)
            exact absurd ((hword.2 _ hmem).symm.trans hstart) nofun
        rw [ha, List.nil_append, htk] at hw
        rw [hms]
        exact Or.inl ⟨keyword, hkey, hw, hne, hwhite⟩
    · exact Or.inr ⟨mid, b, hm, hreach.congr (hlast mid).symm⟩
  · rintro (⟨keyword, rfl, rfl, hne, hwhite⟩ | ⟨a, b, rfl, hreach⟩)
    · refine ⟨[], keyword.toList ++ marks, rfl, .keyword ?_ hne hwhite⟩
      obtain ⟨c, rest, htext, hc⟩ := hword.head? marks
      rw [List.append_nil, htext, isBoundary, hread, List.head?_cons, Option.any_some, hc]
      rfl
    · exact ⟨word ++ a, b, (List.append_assoc word a b).symm, hreach.congr (hlast a)⟩

/-- It makes no difference which word it was that has been dealt with. -/
theorem ReadyIn.of_isRun (hsite : site ∈ Site.all) (hmarks : IsMarks marks) (hword : IsRun word)
    (h : site.ReadyIn word marks) : site.ReadyIn word' marks := by
  obtain ⟨a, b, hab, hreach⟩ := h
  refine ⟨a, b, hab, ?_⟩
  by_cases ha : a = []
  · rw [ha, List.nil_append] at hab
    rw [ha, List.append_nil, ← hab] at hreach
    rw [← hab]
    exact hreach.of_isRun hsite hword hmarks
  · refine hreach.congr ?_
    rw [List.getLast?_append_of_ne_nil word' ha, List.getLast?_append_of_ne_nil word ha]

/-- Nor does it which word has been passed over, unless it is a keyword. -/
theorem readyIn_word_congr (hsite : site ∈ Site.all) (hmarks : IsMarks marks) (hword : IsRun word)
    (hword' : IsRun word') (hfree : word ∉ keywords) (hfree' : word' ∉ keywords) :
    site.ReadyIn [] (word ++ marks) ↔ site.ReadyIn [] (word' ++ marks) := by
  have hdone {word : List Char} (hword : IsRun word) (hfree : word ∉ keywords) :
      site.ReadyIn [] (word ++ marks) ↔ site.ReadyIn word marks := by
    rw [readyIn_word_iff hsite hword hmarks rfl, or_iff_right]
    rintro ⟨keyword, rfl, rfl, -⟩
    exact hfree (toList_mem_keywords hsite)
  rw [hdone hword hfree, hdone hword' hfree']
  exact ⟨.of_isRun hsite hmarks hword, .of_isRun hsite hmarks hword'⟩

theorem not_readyIn_separator (site : Site) (word : List Char) :
    ¬site.ReadyIn [] (word ++ ['\\']) := by
  rintro ⟨a, b, hab, hreach⟩
  have hlast : ([] ++ a ++ b).getLast? = some '\\' := by
    rw [List.nil_append, ← hab, List.getLast?_concat]
  exact (hreach.last hlast).2.1 rfl

section

variable {tail : List Char}

/-- The marks after a parameter's type are looked at no further than to the next word. -/
theorem parameterTrail?_append (cs : List Char)
    (htail : tail.head?.any (fun c => !isWord c) = false) :
    parameterTrail? (cs ++ tail) = parameterTrail? cs := by
  have hspace : tail.head?.any isSpace = false := by
    cases tail with
    | nil => rfl
    | cons c tail =>
      rw [List.head?_cons, Option.any_some, Bool.not_eq_false'] at htail
      exact not_isSpace_of_isWord htail
  have hmark (cs : List Char) : ∃ mark rest,
      (if cs.head? = some '&' then ['&'] else []) = mark ∧ cs.drop mark.length = rest ∧
      (if (cs ++ tail).head? = some '&' then ['&'] else []) = mark ∧
      (cs ++ tail).drop mark.length = rest ++ tail := by
    have hc : (cs ++ tail).head? = some '&' ↔ cs.head? = some '&' :=
      head?_append_eq_some_iff (by decide) cs htail
    simp only [hc]
    split
    · next h =>
      obtain ⟨rest, rfl⟩ := List.head?_eq_some_iff.mp h
      exact ⟨['&'], rest, rfl, rfl, rfl, rfl⟩
    · exact ⟨[], cs, rfl, rfl, rfl, rfl⟩
  have hdots (cs : List Char) : ∃ dots rest,
      (if (dropPrefix? ['.', '.', '.'] cs).isSome then ['.', '.', '.'] else []) = dots ∧
      cs.drop dots.length = rest ∧
      (if (dropPrefix? ['.', '.', '.'] (cs ++ tail)).isSome then ['.', '.', '.'] else []) = dots ∧
      (cs ++ tail).drop dots.length = rest ++ tail := by
    have hmarks : IsMarks ['.', '.', '.'] := .of_all (by decide)
    rw [isSome_dropPrefix?_append hmarks cs htail]
    split
    · next h =>
      obtain ⟨rest, hrest⟩ := Option.isSome_iff_exists.mp h
      rw [eq_append_of_dropPrefix? hrest]
      exact ⟨['.', '.', '.'], rest, rfl, rfl, rfl, rfl⟩
    · exact ⟨[], cs, rfl, rfl, rfl, rfl⟩
  obtain ⟨mark, afterMark, hm, hafter, hm', hafter'⟩ := hmark (cs.dropWhile isSpace)
  obtain ⟨dots, rest, hd, hrest, hd', hrest'⟩ := hdots afterMark
  have hsigil : (rest ++ tail).head? = some '$' ↔ rest.head? = some '$' :=
    head?_append_eq_some_iff (by decide) rest htail
  unfold parameterTrail?
  simp only [takeWhile_append_of_boundary cs hspace, dropWhile_append_of_boundary cs hspace, hm, hm',
    hafter, hafter', hd, hd', hrest, hrest', hsigil]

/-- So it is at every site: what follows the marks after a name does not count. -/
theorem trail?_append (site : Site) (last : Option Char) {cs : List Char}
    (htail : tail.head?.any (fun c => !isWord c) = false) (hapart : cs = [] → tail = []) :
    site.trail? last (cs ++ tail) = site.trail? last cs := by
  have hboundary : isBoundary last (cs ++ tail).head? = isBoundary last cs.head? := by
    cases cs with
    | nil => rw [hapart rfl, List.append_nil]
    | cons c cs => rfl
  cases site with
  | afterKeyword word =>
    unfold trail?
    rw [hboundary]
  | returnType =>
    unfold trail?
    rw [hboundary]
  | parameterType => exact parameterTrail?_append cs htail
  | staticAccess =>
    have hcolons : IsMarks [':', ':'] := .of_all (by decide)
    have hsome := isSome_dropPrefix?_append hcolons cs htail
    unfold trail?
    cases h : dropPrefix? [':', ':'] cs with
    | none =>
      cases h' : dropPrefix? [':', ':'] (cs ++ tail) with
      | none => rfl
      | some rest =>
        rw [h, h'] at hsome
        exact absurd hsome nofun
    | some rest =>
      rw [h] at hsome
      obtain ⟨rest', h'⟩ := Option.isSome_iff_exists.mp hsome
      rw [h']
      rfl

end

end Site

end ScriptShell

import ScriptShell.Proofs.Alias.Readiness

/-!
One pass of a site over a text, told word by word. Whether a word is written out depends on the word
itself, on the marks after it, and on the word and the marks before it, as far as no match before
has taken them already.
-/

namespace ScriptShell

open Text

namespace Phrase

/-- The names joined by separators, with the marks after the last one. -/
def spell : List (List Char) → List Char → Phrase
  | [], _ => []
  | [name], marks => [(name, marks)]
  | name :: names, marks => (name, ['\\']) :: spell names marks

end Phrase

open Phrase

namespace Site

/-- What is kept after a word that is written out; `none` for a word that stays as it is. -/
def written? (site : Site) (short : List Char) (ready : Bool) (word marks : List Char) :
    Option (List Char) :=
  if ready = true ∧ word = short then site.trail? short.getLast? marks else none

/-- A phrase with every occurrence at the site written out, word after word. A word that stays may
be what stands before the next one; a word that is written out may not, nor what is kept after it. -/
def pass (site : Site) (short full : List Char) : Bool → Phrase → Phrase
  | _, [] => []
  | ready, (word, marks) :: ps =>
    match site.written? short ready word marks with
    | some trail => spell (segments full) marks ++
        pass site short full (site.ReadyIn (short ++ trail) (marks.drop trail.length)) ps
    | none => (word, marks) :: pass site short full (site.ReadyIn [] (word ++ marks)) ps

/-- Where a rewriting has come to that replaces names at a site: what it has dealt with, the word
and the marks behind that, from which on it looks for the next match, and the phrase after them. -/
structure Underway (site : Site) (short read word marks : List Char) (ps : Phrase) : Prop where
  run : ∀ c ∈ word, isWord c = true
  isMarks : IsMarks marks
  cut : IsCut ps
  starts : word ≠ [] → read.getLast?.any isWord = false
  ends : ps ≠ [] → (read ++ (word ++ marks)).getLast?.any isWord = false
  /-- The word itself is not to be replaced. -/
  passed : word = short → site.Reaches read [] → site.trail? short.getLast? marks = none

section

variable {site : Site} {short full read word marks lead tail : List Char} {ps : Phrase}

theorem not_isWord_getLast? (hmarks : IsMarks marks) (hne : marks ≠ []) (read : List Char) :
    (read ++ marks).getLast?.any isWord = false := by
  rw [List.getLast?_append_of_ne_nil read hne, List.getLast?_eq_some_getLast hne]
  exact hmarks _ (List.getLast_mem hne)

theorem isWord_getLast?_append (hrun : ∀ c ∈ word, isWord c = true) (hne : word ≠ [])
    (read : List Char) : (read ++ word).getLast?.any isWord = true := by
  rw [List.getLast?_append_of_ne_nil read hne, List.getLast?_eq_some_getLast hne]
  exact hrun _ (List.getLast_mem hne)

theorem Underway.apart (h : Underway site short read word marks ps) (hword : word ≠ [])
    (hmarks : marks = []) : ps = [] := by
  by_cases hps : ps = []
  · exact hps
  · have hends := h.ends hps
    rw [hmarks, List.append_nil, isWord_getLast?_append h.run hword read] at hends
    exact absurd hends nofun

theorem trail?_text (site : Site) (last : Option Char) (hcut : IsCut ps)
    (apart : marks = [] → ps = []) :
    site.trail? last (marks ++ text ps) = site.trail? last marks := by
  apply trail?_append site last hcut.head?_text
  intro hmarks
  rw [apart hmarks]
  rfl

/-- Among marks a match can only be of the first word of the phrase: a keyword that starts where the
marks end would be the name itself. -/
theorem Underway.lead_of_marks (h : Underway site short read word marks ps)
    (hsite : site ∈ Site.all) (hs : IsName short) (hfree : short ∉ keywords) {before b : List Char}
    (hb : IsMarks b) (hfirst : b = [] → ∃ after rest, ps = (short, after) :: rest)
    (hreach : site.Reaches before lead) (hcs : b ++ text ps = lead ++ (short ++ tail)) :
    lead = b ∧ text ps = short ++ tail := by
  have hname := hs.isRun.head?_append tail
  rcases hreach.isMarks_or_keyword hsite with hlead | ⟨keyword, spaces, -, hkeyword, rfl, hne,
    hwhite, -⟩
  · obtain ⟨hlead', hps⟩ := hb.append_inj hlead hcs h.cut.head?_text hname
    exact ⟨hlead'.symm, hps⟩
  · have hkey := isRun_of_mem_keywords hkeyword
    have hspaces := (IsMarks.of_spaces hwhite).head?_append hne (short ++ tail)
    rw [List.append_assoc] at hcs
    have hnil : b = [] := hb.eq_nil_of_append hkey hcs
    obtain ⟨after, rest, rfl⟩ := hfirst hnil
    rw [hnil, List.nil_append] at hcs
    obtain ⟨after', rest', hps, -⟩ := h.cut.first_eq hkey hcs hspaces
    have heq : short = keyword.toList := congrArg Prod.fst (List.cons.inj hps).1
    exact absurd (heq ▸ hkeyword) hfree

/-- From the word on a match can only be of the first word of the phrase, too, and then the word is
a keyword. -/
theorem Underway.lead_of_word (h : Underway site short read word marks ps)
    (hsite : site ∈ Site.all) (hs : IsName short) {a b : List Char} (hb : b ≠ [])
    (hword : word = a ++ b) (hreach : site.Reaches (read ++ a) lead)
    (htail : tail.head?.any isWord = false) (htrail : (site.trail? short.getLast? tail).isSome = true)
    (hcs : b ++ (marks ++ text ps) = lead ++ (short ++ tail)) :
    lead = b ++ marks ∧ text ps = short ++ tail := by
  have hrun : IsRun b := ⟨hb, fun c hc => h.run c (hword ▸ List.mem_append_right a hc)⟩
  have hne : word ≠ [] := hword ▸ List.append_ne_nil_of_right_ne_nil a hb
  have hbehind := head?_marks_text h.isMarks (h.apart hne)
  rcases hreach.isMarks_or_keyword hsite with hlead | ⟨keyword, spaces, -, hkeyword, rfl, hne',
    hwhite, -⟩
  · exfalso
    have hnil : lead = [] := hlead.eq_nil_of_append hrun hcs.symm
    rw [hnil, List.nil_append] at hcs
    rw [hnil] at hreach
    obtain ⟨hshort, hmarks⟩ := append_inj_of_forall hcs hrun.2 hs.isWord hbehind htail
    have ha : a = [] := by
      by_cases ha : a = []
      · exact ha
      · have hlast : (read ++ a ++ []).getLast? = some (a.getLast ha) := by
          rw [List.append_nil, List.getLast?_append_of_ne_nil read ha,
            List.getLast?_eq_some_getLast ha]
        have hmem : a.getLast ha ∈ word := hword ▸ List.mem_append_left b (List.getLast_mem ha)
        exact absurd ((h.run _ hmem).symm.trans (hreach.last hlast).1) nofun
    rw [ha, List.append_nil] at hreach
    rw [ha, List.nil_append] at hword
    rw [← hmarks, trail?_text site _ h.cut (h.apart hne), h.passed (hword.trans hshort) hreach]
      at htrail
    exact absurd htrail nofun
  · have hkey := isRun_of_mem_keywords hkeyword
    have hspaces := IsMarks.of_spaces hwhite
    rw [List.append_assoc] at hcs
    obtain ⟨rfl, hrest⟩ := append_inj_of_forall hcs hrun.2 hkey.2 hbehind
      (hspaces.head?_append hne' (short ++ tail))
    obtain ⟨rfl, hps⟩ := h.isMarks.append_inj hspaces hrest h.cut.head?_text
      (hs.isRun.head?_append tail)
    exact ⟨rfl, hps⟩

/-- A match from here on is of the first word of the phrase, with all that is left before it. -/
theorem Underway.match_eq (h : Underway site short read word marks ps) (hsite : site ∈ Site.all)
    (hs : IsName short) (hfree : short ∉ keywords) {a b out : List Char} {n : Nat}
    (hab : word ++ marks = a ++ b) (hfirst : b = [] → ∃ after rest, ps = (short, after) :: rest)
    (hm : site.matcher short full (read ++ a).getLast? (b ++ text ps) = some (out, n)) :
    ∃ after rest trail, ps = (short, after) :: rest ∧ site.Reaches (read ++ a) b ∧
      site.trail? short.getLast? after = some trail ∧ out = b ++ (full ++ trail) ∧
      n = (b ++ (short ++ trail)).length := by
  obtain ⟨lead, trail, tail, hcs, hout, hn, hreach, htrail⟩ := matcher_eq_some hs hm
  have hclosed := (trail_sound (isWord_getLast? hs) htrail).2
  have hsplit : lead = b ∧ text ps = short ++ (trail ++ tail) := by
    rcases append_cases hab with ⟨b', hb', hword, rfl⟩ | ⟨mid, -, hmarks⟩
    · rw [List.append_assoc] at hcs
      exact h.lead_of_word hsite hs hb' hword hreach hclosed (Option.isSome_of_eq_some htrail) hcs
    · exact h.lead_of_marks hsite hs hfree (hmarks ▸ h.isMarks).of_append.2 hfirst hreach hcs
  obtain ⟨rfl, htext⟩ := hsplit
  obtain ⟨after, rest, rfl, hbehind⟩ := h.cut.first_eq hs.isRun htext hclosed
  cases h.cut with
  | word _ _ apart cut =>
    rw [hbehind, trail?_text site _ cut apart] at htrail
    refine ⟨after, rest, trail, rfl, hreach, htrail, ?_, hn⟩
    rw [hout, List.append_assoc]

/-- A word that stays is passed over together with the marks after it. -/
theorem Underway.keep {first after : List Char}
    (h : Underway site short read word marks ((first, after) :: ps))
    (hkeep : site.written? short (site.ReadyIn read (word ++ marks)) first after = none) :
    Underway site short (read ++ (word ++ marks)) first after ps := by
  cases h.cut with
  | word run isMarks apart cut =>
    refine ⟨run.2, isMarks, cut, fun _ => h.ends (List.cons_ne_nil _ _), fun hps => ?_, ?_⟩
    · have hne : after ≠ [] := fun hm => hps (apart hm)
      rw [← List.append_assoc]
      exact not_isWord_getLast? isMarks hne _
    · intro heq hreach
      have hready : site.ReadyIn read (word ++ marks) :=
        ⟨word ++ marks, [], (List.append_nil _).symm, hreach⟩
      rw [written?, if_pos ⟨decide_eq_true hready, heq⟩] at hkeep
      exact hkeep

/-- Behind a word that has been written out there are only marks to look at. -/
theorem Underway.write {after trail : List Char} (hs : IsName short)
    (hcut : IsCut ((short, trail ++ after) :: ps)) (read : List Char) :
    Underway site short (read ++ (short ++ trail)) [] after ps := by
  cases hcut with
  | word run isMarks apart cut =>
    refine ⟨nofun, isMarks.of_append.2, cut, absurd rfl, fun hps => ?_, fun h => ?_⟩
    · have hne : trail ++ after ≠ [] := fun hm => hps (apart hm)
      have hmove : read ++ (short ++ trail) ++ ([] ++ after) = read ++ short ++ (trail ++ after) := by
        simp only [List.append_assoc, List.nil_append]
      rw [hmove]
      exact not_isWord_getLast? isMarks hne _
    · exact absurd h.symm hs.ne_nil

theorem text_spell (hq : IsQualified full) (marks : List Char) (ps : Phrase) :
    text (spell (segments full) marks ++ ps) = full ++ (marks ++ text ps) := by
  induction hq with
  | name h =>
    rw [segments_of_isName h]
    exact text_cons _ _ ps
  | @join name rest h h' ih =>
    have hstep : spell (name :: segments rest) marks =
        (name, ['\\']) :: spell (segments rest) marks := by
      obtain ⟨first, names, hnames⟩ := List.exists_cons_of_ne_nil h'.segments_ne_nil
      rw [hnames]
      rfl
    rw [segments_join h, hstep, List.cons_append, text_cons, ih]
    simp only [List.append_assoc, List.cons_append, List.nil_append]

/-- What has been dealt with counts only as far as its last character. -/
theorem readyIn_append_left (read : List Char) {done pending : List Char} (hne : done ≠ []) :
    site.ReadyIn (read ++ done) pending ↔ site.ReadyIn done pending := by
  have hlast (a : List Char) : (read ++ done ++ a).getLast? = (done ++ a).getLast? := by
    rw [List.append_assoc,
      List.getLast?_append_of_ne_nil read (List.append_ne_nil_of_left_ne_nil hne a)]
  constructor
  · rintro ⟨a, b, hab, hreach⟩
    exact ⟨a, b, hab, hreach.congr (hlast a).symm⟩
  · rintro ⟨a, b, hab, hreach⟩
    exact ⟨a, b, hab, hreach.congr (hlast a)⟩

/-- If the first word of the phrase stays, all before it is passed over. -/
theorem Underway.rewriteFrom_skip (full : List Char) (h : Underway site short read word marks ps)
    (hsite : site ∈ Site.all) (hs : IsName short) (hfree : short ∉ keywords)
    (hno : ∀ after rest, ps = (short, after) :: rest → site.ReadyIn read (word ++ marks) →
      site.trail? short.getLast? after = none) :
    rewriteFrom (site.matcher short full) read.getLast? 0 (word ++ marks ++ text ps) = word ++ marks ++
      rewriteFrom (site.matcher short full) (read ++ (word ++ marks)).getLast? 0 (text ps) := by
  apply rewriteFrom_append_of_none
  intro a b hab hb
  cases hm : site.matcher short full (read ++ a).getLast? (b ++ text ps) with
  | none => rfl
  | some found =>
    obtain ⟨after, rest, trail, hps, hreach, htrail, -⟩ :=
      h.match_eq hsite hs hfree hab (absurd · hb) hm
    rw [hno after rest hps ⟨a, b, hab, hreach⟩] at htrail
    exact absurd htrail nofun

/-- If the first word of the phrase is at the site, it is replaced. -/
theorem Underway.rewriteFrom_write {trail behind : List Char}
    (h : Underway site short read word marks ((short, trail ++ behind) :: ps))
    (hsite : site ∈ Site.all) (hs : IsName short) (hfree : short ∉ keywords)
    (hready : site.ReadyIn read (word ++ marks))
    (htrail : site.trail? short.getLast? (trail ++ behind) = some trail) :
    rewriteFrom (site.matcher short full) read.getLast? 0
        (word ++ marks ++ text ((short, trail ++ behind) :: ps)) =
      word ++ marks ++ (full ++ trail ++ rewriteFrom (site.matcher short full)
        (read ++ (word ++ marks ++ (short ++ trail))).getLast? 0 (behind ++ text ps)) := by
  have htext : text ((short, trail ++ behind) :: ps) = (short ++ trail) ++ (behind ++ text ps) := by
    rw [text_cons]
    simp only [List.append_assoc]
  rw [htext]
  apply rewriteFrom_append_of_match (List.append_ne_nil_of_left_ne_nil hs.ne_nil trail)
  · intro a b out n hab hm
    rw [← htext] at hm
    obtain ⟨after, rest, trail', hps, -, htrail', hout, hn⟩ :=
      h.match_eq hsite hs hfree hab (fun _ => ⟨_, _, rfl⟩) hm
    have hafter : trail ++ behind = after := congrArg Prod.snd (List.cons.inj hps).1
    rw [← hafter, htrail] at htrail'
    rw [Option.some.inj htrail']
    exact ⟨hout, hn⟩
  · obtain ⟨a, b, hab, hreach⟩ := hready
    refine ⟨a, b, hab, ?_⟩
    rw [← htext, text_cons]
    apply matcher_isSome hs hreach
    cases h.cut with
    | word run isMarks apart cut =>
      rw [trail?_text site _ cut apart, htrail]
      rfl

/-- From wherever it has come to, a rewriting does to the rest of the text what a pass does to the
phrase. -/
theorem Underway.rewriteFrom_eq (h : Underway site short read word marks ps)
    (hsite : site ∈ Site.all) (hs : IsName short) (hq : IsQualified full) (hfree : short ∉ keywords) :
    rewriteFrom (site.matcher short full) read.getLast? 0 (word ++ marks ++ text ps) =
      word ++ marks ++ text (site.pass short full (site.ReadyIn read (word ++ marks)) ps) := by
  induction ps generalizing read word marks with
  | nil =>
    rw [h.rewriteFrom_skip full hsite hs hfree nofun]
    rfl
  | cons p ps ih =>
    obtain ⟨first, after⟩ := p
    rw [pass]
    cases hw : site.written? short (site.ReadyIn read (word ++ marks)) first after with
    | none =>
      have hskip := h.rewriteFrom_skip full hsite hs hfree fun after' rest hps hready => by
        obtain ⟨hfirst, -⟩ := List.cons.inj hps
        obtain ⟨hword, hafter⟩ := Prod.mk.inj hfirst
        rw [written?, if_pos ⟨decide_eq_true hready, hword⟩, hafter] at hw
        exact hw
      have hrest := ih (h.keep hw)
      cases h.cut with
      | word run isMarks _ _ =>
        have hready : site.ReadyIn (read ++ (word ++ marks)) (first ++ after) ↔
            site.ReadyIn [] (first ++ after) := by
          rw [readyIn_word_iff hsite run isMarks (h.ends (List.cons_ne_nil _ _)),
            readyIn_word_iff hsite run isMarks rfl]
        rw [decide_eq_decide.mpr hready] at hrest
        rw [hskip, text_cons, ← List.append_assoc first, hrest, text_cons, List.append_assoc first]
    | some trail =>
      obtain ⟨⟨hready, rfl⟩, htrail⟩ : (decide (site.ReadyIn read (word ++ marks)) = true ∧
          first = short) ∧ site.trail? short.getLast? after = some trail := by
        rw [written?] at hw
        split at hw
        · next hwritten => exact ⟨hwritten, hw⟩
        · exact absurd hw nofun
      obtain ⟨⟨behind, rfl⟩, -⟩ := trail_sound (isWord_getLast? hs) htrail
      have hne : first ++ trail ≠ [] := List.append_ne_nil_of_left_ne_nil hs.ne_nil trail
      have hrest := ih (.write hs h.cut (read ++ (word ++ marks)))
      have hbehind : decide (site.ReadyIn (read ++ (word ++ marks) ++ (first ++ trail)) behind) =
          decide (site.ReadyIn (first ++ trail) behind) :=
        decide_eq_decide.mpr (readyIn_append_left _ hne)
      rw [List.nil_append, hbehind] at hrest
      rw [h.rewriteFrom_write hsite hs hfree (of_decide_eq_true hready) htrail,
        ← List.append_assoc read, hrest, text_spell hq, List.drop_left]
      simp only [List.append_assoc]

/-- Rewriting a text is a pass over its phrase. -/
theorem rewrite_text (hsite : site ∈ Site.all) (hs : IsName short) (hq : IsQualified full)
    (hfree : short ∉ keywords) (hmarks : IsMarks marks) (hcut : IsCut ps) :
    site.rewrite short full (marks ++ text ps) =
      marks ++ text (site.pass short full (site.ReadyIn [] marks) ps) := by
  have hstart : Underway site short [] [] marks ps := by
    refine ⟨nofun, hmarks, hcut, absurd rfl, fun _ => ?_, fun h => absurd h.symm hs.ne_nil⟩
    by_cases hne : marks = []
    · rw [hne]
      rfl
    · exact not_isWord_getLast? hmarks hne []
  exact hstart.rewriteFrom_eq hsite hs hq hfree

end

end Site

end ScriptShell

import ScriptShell.Proofs.Alias.Position

/-!
What writing names out does to a text. Wherever a short name is replaced it is a whole word and no
variable's name; everything around it is kept. The sites differ only in where they look.
-/

namespace ScriptShell

open Text

/-- Neither a word nor a variable goes on after this character. -/
def isOpen (prev : Option Char) : Bool := !prev.any fun c => isWord c || c == '$'

/-- The second text is the first one with some occurrences of `short` replaced by `full`: only whole
words, and none after a `$`. Both follow the character `prev`. -/
inductive Respelled (short full : List Char) : Option Char → List Char → List Char → Prop
  | done {prev : Option Char} : Respelled short full prev [] []
  | keep {prev : Option Char} {c : Char} {a b : List Char}
      (rest : Respelled short full (some c) a b) : Respelled short full prev (c :: a) (c :: b)
  | swap {prev : Option Char} {a b : List Char} (opens : isOpen prev = true)
      (closes : a.head?.any isWord = false) (rest : Respelled short full (lastOr none short) a b) :
      Respelled short full prev (short ++ a) (full ++ b)

theorem Respelled.keep_all {short full : List Char} {prev : Option Char} (cs : List Char)
    {a b : List Char} (h : Respelled short full (lastOr prev cs) a b) :
    Respelled short full prev (cs ++ a) (cs ++ b) := by
  induction cs generalizing prev with
  | nil => exact h
  | cons c cs ih => exact .keep (ih h)

namespace Site

/-- What may stand before a short name leaves off where a new word can start. -/
theorem Reaches.isOpen {site : Site} {before lead : List Char} (h : site.Reaches before lead) :
    isOpen (lastOr before.getLast? lead) = true := by
  rw [← getLast?_append_eq_lastOr]
  cases hc : (before ++ lead).getLast? with
  | none => rfl
  | some c =>
    obtain ⟨hword, -, hsigil, -⟩ := h.last hc
    rw [ScriptShell.isOpen, Option.any_some, hword, beq_eq_false_iff_ne.mpr hsigil]
    rfl

/-- A match takes the short name with what stands around it, and gives the same with the name
written out. -/
theorem matcher_sound {site : Site} {short full : List Char} (hs : IsName short)
    {prev : Option Char} {cs out : List Char} {n : Nat}
    (h : site.matcher short full prev cs = some (out, n)) :
    ∃ lead trail rest, cs = lead ++ short ++ trail ++ rest ∧ out = lead ++ full ++ trail ∧
      n = (lead ++ short ++ trail).length ∧ isOpen (lastOr prev lead) = true ∧
      (trail ++ rest).head?.any isWord = false := by
  obtain ⟨before, rfl⟩ := exists_getLast?_eq prev
  obtain ⟨lead, trail, rest, hcs, hout, hn, hreach, htrail⟩ := matcher_eq_some hs h
  have hcloses := (trail_sound (isWord_getLast? hs) htrail).2
  refine ⟨lead, trail, rest, ?_, hout, ?_, hreach.isOpen, hcloses⟩
  · rw [hcs]
    simp only [List.append_assoc]
  · rw [hn, List.append_assoc]

/-- Rewriting at a site respells the text. By induction on the length, since a match takes several
characters at once. -/
theorem respelled_rewriteFrom {site : Site} {short full : List Char} (hs : IsName short)
    (prev : Option Char) (cs : List Char) :
    Respelled short full prev cs (rewriteFrom (site.matcher short full) prev 0 cs) := by
  induction hlen : cs.length using Nat.strongRecOn generalizing prev cs with
  | ind len ih =>
    cases cs with
    | nil => exact .done
    | cons c cs =>
      cases hm : site.matcher short full prev (c :: cs) with
      | none =>
        rw [rewriteFrom_of_none hm]
        exact .keep (ih cs.length (hlen ▸ Nat.lt_succ_self _) (some c) cs rfl)
      | some found =>
        obtain ⟨out, n⟩ := found
        obtain ⟨lead, trail, rest, hcs, hout, hn, hopen, hcloses⟩ := matcher_sound hs hm
        have hne : lead ++ short ++ trail ≠ [] :=
          List.append_ne_nil_of_left_ne_nil (List.append_ne_nil_of_right_ne_nil _ hs.ne_nil) _
        have hrest : rest.length < len := by
          have hpos := List.length_pos_iff.mpr hne
          rw [← hlen, hcs, List.length_append]
          omega
        have hprev : lastOr prev (lead ++ short ++ trail) = lastOr (lastOr none short) trail := by
          rw [lastOr_append, lastOr_append, lastOr_eq_getLast? hs.ne_nil,
            lastOr_eq_getLast? hs.ne_nil]
        have hih := ih rest.length hrest (lastOr prev (lead ++ short ++ trail)) rest rfl
        rw [hcs, hn] at hm
        rw [hcs, rewriteFrom_of_match hne hm, hout, hprev]
        rw [hprev] at hih
        simp only [List.append_assoc]
        exact .keep_all lead (.swap hopen hcloses (.keep_all trail hih))

theorem respelled_rewrite (site : Site) {short full : List Char} (hs : IsName short)
    (cs : List Char) : Respelled short full none cs (site.rewrite short full cs) :=
  respelled_rewriteFrom hs none cs

end Site

namespace AliasTable

/-- What no replacement of a name changes, no table changes. -/
theorem resolve_preserves {α : Type} (f : List Char → α)
    (hf : ∀ {short full a b : List Char}, IsName short → IsQualified full →
      Respelled short full none a b → f b = f a)
    {t : AliasTable} (ht : t.WellNamed) (unit : String) :
    f (t.resolve unit).toList = f unit.toList := by
  have hentry (e : String × String) (he : IsName e.1.toList ∧ IsQualified e.2.toList)
      (sites : List Site) (text : List Char) :
      f (sites.foldl (fun text site => site.rewrite e.1.toList e.2.toList text) text) = f text := by
    induction sites generalizing text with
    | nil => rfl
    | cons site sites ih =>
      rw [List.foldl_cons, ih]
      exact hf he.1 he.2 (Site.respelled_rewrite site he.1 text)
  have hentries (es : List (String × String))
      (hes : ∀ e ∈ es, IsName e.1.toList ∧ IsQualified e.2.toList) (text : List Char) :
      f (es.foldl applyEntry text) = f text := by
    induction es generalizing text with
    | nil => rfl
    | cons e es ih =>
      obtain ⟨he, hes⟩ := List.forall_mem_cons.mp hes
      rw [List.foldl_cons, ih hes]
      exact hentry e he Site.all text
  rw [resolve, String.toList_ofList]
  exact hentries t.entries ht unit.toList

end AliasTable

end ScriptShell

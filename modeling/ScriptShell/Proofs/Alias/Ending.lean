import ScriptShell.Proofs.Alias.Respelling
import ScriptShell.Statement.Expression

/-!
How a text ends after names have been written out, whatever the names in the table are. No match
ends in a semicolon or a brace at the end of the text, so a statement stays a statement.
-/

namespace ScriptShell

open Text

namespace Text

/-- A text that ends in a character in which no match can end it still does after every match has
been replaced. By induction on the length, since a match skips as many characters as it takes. -/
theorem getLast?_rewriteFrom {m : Matcher (List Char)} {mark : Char}
    (hm : ∀ {prev cs out n}, m prev cs = some (out, n) → ∃ taken rest, cs = taken ++ rest ∧
      taken ≠ [] ∧ n = taken.length ∧ (rest = [] → taken.getLast? ≠ some mark))
    (prev : Option Char) {cs : List Char} (h : cs.getLast? = some mark) :
    (rewriteFrom m prev 0 cs).getLast? = some mark := by
  have hkept {before after : List Char} (ha : after.getLast? = some mark) :
      (before ++ after).getLast? = some mark := by
    rw [List.getLast?_append, ha, Option.some_or]
  induction hlen : cs.length using Nat.strongRecOn generalizing prev cs with
  | ind len ih =>
    cases cs with
    | nil => exact absurd h nofun
    | cons c cs =>
      cases hc : m prev (c :: cs) with
      | none =>
        rw [rewriteFrom_of_none hc]
        cases cs with
        | nil => exact h
        | cons d cs =>
          have hd : (d :: cs).getLast? = some mark := h
          exact @hkept [c] _ (ih (d :: cs).length (hlen ▸ Nat.lt_succ_self _) (some c) hd rfl)
      | some found =>
        obtain ⟨out, n⟩ := found
        obtain ⟨taken, rest, hcs, hne, hn, hend⟩ := hm hc
        have hrest : rest ≠ [] := by
          rintro rfl
          rw [hcs, List.append_nil] at h
          exact hend rfl h
        have hlast : rest.getLast? = some mark := by
          rw [hcs, List.getLast?_append, List.getLast?_eq_some_getLast hrest, Option.some_or] at h
          rw [List.getLast?_eq_some_getLast hrest, h]
        have hshort : rest.length < len := by
          have hpos := List.length_pos_iff.mpr hne
          rw [← hlen, hcs, List.length_append]
          omega
        rw [hcs, hn] at hc
        rw [hcs, rewriteFrom_of_match hne hc]
        exact hkept (ih _ hshort _ hlast rfl)

end Text

namespace Site

/-- Behind the short name a match takes a sign that no statement ends in, or nothing at all where a
word starts or ends. -/
theorem trail?_cases {site : Site} {last : Option Char} {cs trail : List Char}
    (h : site.trail? last cs = some trail) :
    (∃ rest, cs = trail ++ rest) ∧
      ((trail = [] ∧ isBoundary last cs.head? = true ∧ site ≠ .staticAccess) ∨
        ∃ c, trail.getLast? = some c ∧ (c = ':' ∨ c = '$')) := by
  have hboundary (hs : site ≠ .staticAccess)
      (h : (if isBoundary last cs.head? then some [] else none) = some trail) :
      (∃ rest, cs = trail ++ rest) ∧
        ((trail = [] ∧ isBoundary last cs.head? = true ∧ site ≠ .staticAccess) ∨
          ∃ c, trail.getLast? = some c ∧ (c = ':' ∨ c = '$')) := by
    split at h
    · next hb =>
      rw [← Option.some.inj h]
      exact ⟨⟨cs, rfl⟩, Or.inl ⟨rfl, hb, hs⟩⟩
    · exact absurd h nofun
  cases site with
  | afterKeyword word => exact hboundary nofun h
  | returnType => exact hboundary nofun h
  | staticAccess =>
    obtain ⟨rest, hrest, ht⟩ := Option.map_eq_some_iff.mp h
    rw [← ht, eq_append_of_dropPrefix? hrest]
    exact ⟨⟨rest, rfl⟩, Or.inr ⟨':', rfl, Or.inl rfl⟩⟩
  | parameterType =>
    refine ⟨(parameterTrail_sound h).1, Or.inr ⟨'$', ?_, Or.inr rfl⟩⟩
    simp only [trail?, parameterTrail?] at h
    obtain ⟨-, ht⟩ := Option.ite_none_right_eq_some.mp h
    rw [← Option.some.inj ht, List.getLast?_concat]

/-- Only static access needs nothing before the name. -/
theorem lead_pos {site : Site} {before lead : List Char} (h : site.Reaches before lead)
    (hs : site ≠ .staticAccess) : 0 < lead.length := by
  cases h with
  | lineStart _ => exact absurd rfl hs
  | mark => exact absurd rfl hs
  | parameter _ _ => exact Nat.succ_pos _
  | result _ _ => exact Nat.succ_pos _
  | keyword _ apart _ =>
    have hpos := List.length_pos_iff.mpr apart
    rw [List.length_append]
    omega

/-- A match that ends the text does not end it in a mark of a statement. -/
theorem matcher_ends {site : Site} {short full : List Char} {mark : Char}
    (hw : isWord mark = false) (hmark : mark ≠ ':' ∧ mark ≠ '$') {prev : Option Char}
    {cs out : List Char} {n : Nat} (h : site.matcher short full prev cs = some (out, n)) :
    ∃ taken rest, cs = taken ++ rest ∧ taken ≠ [] ∧ n = taken.length ∧
      (rest = [] → taken.getLast? ≠ some mark) := by
  obtain ⟨before, rfl⟩ := exists_getLast?_eq prev
  obtain ⟨⟨k, after⟩, hlead, h⟩ := List.exists_of_findSome?_eq_some h
  obtain ⟨lead, hcs, hk, hreach⟩ := mem_leads_iff.mp hlead
  simp only [Option.bind_eq_bind, Option.bind_eq_some_iff] at h
  obtain ⟨tail, htail, trail, htrail, hout⟩ := h
  have hafter := eq_append_of_dropPrefix? htail
  have htake : cs.take k = lead := by
    rw [hcs, ← hk, List.take_left]
  rw [htake] at htrail
  obtain ⟨-, hn⟩ := Prod.mk.inj (Option.some.inj hout)
  obtain ⟨⟨rest, hrest⟩, ⟨htrail, hb, hs⟩ | ⟨c, hc, hsign⟩⟩ := trail?_cases htrail
  · have hpos := lead_pos hreach hs
    have hne : lead ++ short ≠ [] :=
      List.append_ne_nil_of_left_ne_nil (List.length_pos_iff.mp hpos) short
    refine ⟨lead ++ short, tail, ?_, hne, ?_, ?_⟩
    · rw [hcs, hafter, List.append_assoc]
    · rw [← hn, htrail, List.length_append, hk]
      rfl
    · rintro rfl hlast
      rw [hlast] at hb
      unfold isBoundary at hb
      rw [Option.any_some, hw] at hb
      exact absurd hb nofun
  · refine ⟨lead ++ short ++ trail, rest, ?_, ?_, ?_, ?_⟩
    · rw [hcs, hafter, hrest]
      simp only [List.append_assoc]
    · intro hnil
      rw [(List.append_eq_nil_iff.mp hnil).2] at hc
      exact absurd hc nofun
    · rw [← hn, List.length_append, List.length_append, hk]
    · intro _ hlast
      rw [List.getLast?_append, hc, Option.some_or] at hlast
      rw [Option.some.inj hlast] at hsign
      exact hsign.elim hmark.1 hmark.2

end Site

namespace AliasTable

/-- A text that ends in a mark of a statement still does when names have been written out. -/
theorem getLast?_resolve {mark : Char} (hw : isWord mark = false)
    (hmark : mark ≠ ':' ∧ mark ≠ '$') (t : AliasTable) {unit : String}
    (h : unit.toList.getLast? = some mark) : (t.resolve unit).toList.getLast? = some mark := by
  have hsites (e : String × String) (sites : List Site) {text : List Char}
      (h : text.getLast? = some mark) :
      (sites.foldl (fun text site => site.rewrite e.1.toList e.2.toList text) text).getLast? =
        some mark := by
    induction sites generalizing text with
    | nil => exact h
    | cons site sites ih =>
      exact ih (getLast?_rewriteFrom (fun hm => Site.matcher_ends hw hmark hm) none h)
  have hentries (es : List (String × String)) {text : List Char} (h : text.getLast? = some mark) :
      (es.foldl applyEntry text).getLast? = some mark := by
    induction es generalizing text with
    | nil => exact h
    | cons e es ih => exact ih (hsites e Site.all h)
  rw [resolve, String.toList_ofList]
  exact hentries t.entries h

/-- A statement is not made an expression by any table. -/
theorem endsStatement_resolve_of_endsStatement (t : AliasTable) {unit : String}
    (h : endsStatement unit = true) : endsStatement (t.resolve unit) = true := by
  rw [endsStatement, Bool.or_eq_true, decide_eq_true_iff, decide_eq_true_iff] at h ⊢
  exact h.imp (t.getLast?_resolve (by decide) (by decide))
    (t.getLast?_resolve (by decide) (by decide))

end AliasTable

end ScriptShell

import ScriptShell.Proofs.Alias.Invisible
import ScriptShell.Proofs.Session.Course

/-!
What the tracker of a session knows. Units are tracked after their names have been written out, but
the variables are those of the units as they were prepared.
-/

namespace ScriptShell.Session

open Variables

variable {ε : Type} [Evaluator ε]

/-- On any course the tables stay those of imports, and the tracker gains the variables of the units
that are prepared. -/
theorem course_tracks {s t : Session ε} {ds : List Deed} (h : Course s ds t)
    (hs : s.memory.aliases.WellNamed) :
    t.memory.aliases.WellNamed ∧ ∀ name, t.memory.tracker.contains name = true ↔
      s.memory.tracker.contains name = true ∨
        ∃ unit, .prepare unit ∈ ds ∧ (extract unit).contains name = true := by
  induction h with
  | aside he hm =>
    rw [hm]
    refine ⟨hs, fun name => ⟨Or.inl, fun h => h.resolve_right ?_⟩⟩
    rintro ⟨unit, hm, -⟩
    exact List.not_mem_nil hm
  | deed s d =>
    have hidle (hd : ∀ unit, d ≠ .prepare unit)
        (ha : (s.act d).memory.aliases.WellNamed)
        (ht : (s.act d).memory.tracker = s.memory.tracker) :
        (s.act d).memory.aliases.WellNamed ∧ ∀ name,
          (s.act d).memory.tracker.contains name = true ↔ s.memory.tracker.contains name = true ∨
            ∃ unit, .prepare unit ∈ [d] ∧ (extract unit).contains name = true := by
      rw [ht]
      refine ⟨ha, fun name => ⟨Or.inl, fun h => h.resolve_right ?_⟩⟩
      rintro ⟨unit, hm, -⟩
      exact hd unit (List.mem_singleton.mp hm).symm
    cases d with
    | observe unit =>
      have ho := observe_eq s unit
      apply hidle nofun
      · rw [act, ho]
        exact hs.observe unit
      · rw [act, ho]
    | execute code =>
      have hr := retains_execute s code
      exact hidle nofun (hr.aliases ▸ hs) hr.tracker
    | refresh =>
      have hr := retains_refreshSymbols s
      exact hidle nofun (hr.aliases ▸ hs) hr.tracker
    | prepare unit =>
      have hp := prepare_eq s unit
      rw [act, hp]
      refine ⟨hs, fun name => ?_⟩
      rw [Tracker.contains_track, AliasTable.extract_resolve hs]
      refine or_congr_right ⟨fun h => ⟨unit, List.mem_singleton_self _, h⟩, ?_⟩
      rintro ⟨unit', hm, h⟩
      cases List.mem_singleton.mp hm
      exact h
  | append _ _ ih ih' =>
    obtain ⟨ht, hfirst⟩ := ih hs
    obtain ⟨hu, hsecond⟩ := ih' ht
    refine ⟨hu, fun name => ?_⟩
    rw [hsecond, hfirst, or_assoc]
    simp only [List.mem_append, or_and_right, exists_or]

/-- Writing names out shows neither in the balance of brackets nor in the counts of quotes, the
variables or the wrapping. So after any operations the tracker holds the variables of the units that
were prepared, as they were before. -/
theorem resolve_invisible (evaluator : ε) (config : SessionConfig) :
    (∀ units text, let code := ((∅ : AliasTable).observeAll units).resolve text
      Balance.of code.toList = Balance.of text.toList ∧
      countUnescaped '\'' code.toList = countUnescaped '\'' text.toList ∧
      countUnescaped '"' code.toList = countUnescaped '"' text.toList ∧
      extract code = extract text ∧
      (wrapExpression code = code ↔ wrapExpression text = text)) ∧
    ∀ ops, let s := start evaluator config
      (∃ ds, Course s ds (s.performAll ops)) ∧
      ∀ ds, Course s ds (s.performAll ops) → ∀ name,
        (s.performAll ops).memory.tracker.contains name = true ↔
          ∃ unit, .prepare unit ∈ ds ∧ (extract unit).contains name = true := by
  constructor
  · intro units text
    have ht := AliasTable.wellNamed_observeAll units
    exact ⟨AliasTable.balance_resolve ht text,
      AliasTable.countUnescaped_resolve ht (by decide) (by decide) text,
      AliasTable.countUnescaped_resolve ht (by decide) (by decide) text,
      AliasTable.extract_resolve ht text, AliasTable.wrapExpression_resolve ht text⟩
  · intro ops s
    obtain ⟨ds, hc, -⟩ := course_performAll s ops
    refine ⟨⟨ds, hc⟩, fun ds hc name => ?_⟩
    have hr := retains_refreshSymbols ({ evaluator, config } : Session ε)
    have hs : s.memory.aliases.WellNamed := by
      rw [show s.memory.aliases = ∅ from hr.aliases]
      exact AliasTable.wellNamed_empty
    have hn : ¬s.memory.tracker.contains name = true := by
      rw [show s.memory.tracker = {} from hr.tracker]
      exact Bool.false_ne_true
    rw [(course_tracks hc hs).2 name]
    exact ⟨fun h => h.resolve_left hn, Or.inr⟩

end ScriptShell.Session

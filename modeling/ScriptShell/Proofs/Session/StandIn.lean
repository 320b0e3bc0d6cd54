import ScriptShell.Proofs.Session.Course

/-!
Evaluators that stand for others. A session looks at nothing but the answers of its evaluator, so an
evaluator that keeps a record may be put in the place of the one in it: every operation does and
shows the same, whether the record is dropped before it or after it.
-/

namespace ScriptShell

/-- What `f` makes of an evaluator answers as that does, and goes on to do so. -/
structure StandsFor {ε δ : Type} [Evaluator ε] [Evaluator δ] (f : ε → δ) : Prop where
  evaluate : ∀ e code given, Evaluator.evaluate (f e) code given =
    ((Evaluator.evaluate e code given).1, f (Evaluator.evaluate e code given).2)
  symbols : ∀ e, Evaluator.symbols (f e) = ((Evaluator.symbols e).1, f (Evaluator.symbols e).2)

/-- A recorder answers as the evaluator in it. -/
theorem Recorder.standsFor (ε : Type) [Evaluator ε] :
    StandsFor (Recorder.evaluator : Recorder ε → ε) where
  evaluate _ _ _ := rfl
  symbols _ := rfl

namespace Session

variable {ε δ α : Type} {f : ε → δ}

/-- The same session over another evaluator. -/
def map (f : ε → δ) (s : Session ε) : Session δ where
  evaluator := f s.evaluator
  config := s.config
  memory := s.memory
  buffer := s.buffer
  phase := s.phase
  console := s.console
  warnings := s.warnings

/-- The same result of an operation over another evaluator. -/
def carry (f : ε → δ) (r : α × Session ε) : α × Session δ := (r.1, r.2.map f)

theorem map_prepare (f : ε → δ) (s : Session ε) (unit : String) :
    (s.map f).prepare unit = carry f (s.prepare unit) := by
  have hmemory : (s.map f).memory = s.memory := rfl
  rw [prepare_eq, prepare_eq, hmemory]
  generalize s.memory.aliases.resolve unit = text
  rfl

theorem map_write (f : ε → δ) (s : Session ε) (text : String) :
    (s.map f).write text = carry f (s.write text) := by
  have hclosed : (s.map f).console.closed = s.console.closed := rfl
  unfold write
  rw [hclosed]
  split
  · rfl
  · split
    · rfl
    · rfl

theorem map_report (f : ε → δ) (s : Session ε) (e : EvalError) :
    (s.map f).report e = carry f (s.report e) := map_write f s (reported s.config e)

theorem map_announce (f : ε → δ) (s : Session ε) (text : String) (next : Phase) :
    (s.map f).announce text next = carry f (s.announce text next) := by
  unfold announce
  rw [map_write]
  rcases s.write text with ⟨_ | _, t⟩
  · rfl
  · rfl

theorem map_conclude (f : ε → δ) (s : Session ε) (outcome : Except EvalError Evaluation) :
    (s.map f).conclude outcome = carry f (s.conclude outcome) := by
  rw [conclude_eq_announce, conclude_eq_announce]
  exact map_announce f s _ _

theorem map_preload_conclude (f : ε → δ) (s : Session ε) (r : PreloadReport)
    (outcome : Except EvalError Evaluation) :
    Preload.conclude (s.map f) r outcome = carry f (Preload.conclude s r outcome) := by
  cases outcome with
  | ok evaluation =>
    rw [Preload.conclude, Preload.conclude, map_write]
    rcases s.write (closeLine evaluation.output) with ⟨_ | _, t⟩
    · rfl
    · rfl
  | error cause =>
    have hreport := map_report f (s.warn (.preloadStatementFailed cause)) cause
    have hwarn : (s.map f).warn (.preloadStatementFailed cause) =
        (s.warn (.preloadStatementFailed cause)).map f := rfl
    rw [Preload.conclude, Preload.conclude, hwarn, hreport]
    rcases (s.warn (.preloadStatementFailed cause)).report cause with ⟨_ | _, t⟩
    · rfl
    · simp only [carry]
      split
      · rfl
      · rfl

variable [Evaluator ε] [Evaluator δ]

theorem map_refreshSymbols (hf : StandsFor f) (s : Session ε) :
    (s.map f).refreshSymbols = s.refreshSymbols.map f := by
  have hs := hf.symbols s.evaluator
  rcases h : Evaluator.symbols s.evaluator with ⟨answer, evaluator⟩
  rw [h] at hs
  cases answer with
  | ok symbols =>
    rw [refreshSymbols_of_ok h, refreshSymbols_of_ok (s := s.map f) hs]
    rfl
  | error e =>
    rw [refreshSymbols_of_error h, refreshSymbols_of_error (s := s.map f) hs]
    rfl

theorem map_execute (hf : StandsFor f) (s : Session ε) (code : String) :
    (s.map f).execute code = carry f (s.execute code) := by
  have hs := hf.evaluate s.evaluator code s.memory.context
  rcases h : Evaluator.evaluate s.evaluator code s.memory.context with ⟨outcome, evaluator⟩
  rw [h] at hs
  cases outcome with
  | ok evaluation =>
    rw [execute_of_ok h, execute_of_ok (s := s.map f) hs]
    refine congrArg (Prod.mk _) ?_
    exact map_refreshSymbols hf
      { s with evaluator, memory := (s.memory.capture evaluation.bindings).rebuild }
  | error e =>
    rw [execute_of_error h, execute_of_error (s := s.map f) hs]
    rfl

theorem map_dispatch (hf : StandsFor f) (s : Session ε) (unit : String) :
    (s.map f).dispatch unit = carry f (s.dispatch unit) := by
  have hm : (s.map f).observe unit = carry f (s.observe unit) := rfl
  rcases h : s.observe unit with ⟨absorbed, t⟩
  rw [h] at hm
  cases absorbed with
  | true =>
    rw [dispatch_of_imports h, dispatch_of_imports (t := t.map f) hm]
    rfl
  | false =>
    rw [dispatch_of_code h, dispatch_of_code (t := t.map f) hm, map_prepare]
    obtain ⟨text, p⟩ := t.prepare unit
    simp only [carry]
    generalize wrapExpression text = code
    change ((p.executing.map f).execute code).2.conclude ((p.executing.map f).execute code).1 = _
    rw [map_execute hf]
    exact map_conclude f (p.executing.execute code).2 (p.executing.execute code).1

theorem map_submit (hf : StandsFor f) (s : Session ε) (line : String) :
    (s.map f).submit line = carry f (s.submit line) := by
  cases hk : s.config.exitKeywords.contains (trim line) with
  | true =>
    rw [submit_of_keyword hk, submit_of_keyword (s := s.map f) hk]
    rfl
  | false =>
    rcases hfeed : s.buffer.feed line with ⟨answer, buffer⟩
    cases answer with
    | incomplete =>
      rw [submit_of_incomplete hk hfeed, submit_of_incomplete (s := s.map f) hk hfeed]
      rfl
    | blank =>
      rw [submit_of_blank hk hfeed, submit_of_blank (s := s.map f) hk hfeed]
      rfl
    | complete unit =>
      rw [submit_of_complete hk hfeed, submit_of_complete (s := s.map f) hk hfeed]
      exact map_dispatch hf { s with buffer } unit

/-- What was read and prompted for is the same as well. -/
theorem map_runEvents (hf : StandsFor f) (s : Session ε) (history : History)
    (prompts : List String) (events : List ReadEvent) :
    (s.map f).runEvents history prompts events =
      ((s.runEvents history prompts events).1, (s.runEvents history prompts events).2.1.map f,
        (s.runEvents history prompts events).2.2) := by
  induction events generalizing s history prompts with
  | nil =>
    by_cases ht : s.phase = .terminated
    · rw [runEvents_of_terminated ht, runEvents_of_terminated (s := s.map f) ht]
    · have hw := map_write f s "\n"
      have ht' : (s.map f).phase ≠ .terminated := ht
      rw [runEvents, runEvents, if_neg ht, if_neg ht', hw]
      rcases s.write "\n" with ⟨_ | _, t⟩
      · rfl
      · rfl
  | cons event rest ih =>
    by_cases ht : s.phase = .terminated
    · rw [runEvents_of_terminated ht, runEvents_of_terminated (s := s.map f) ht]
    have ht' : (s.map f).phase ≠ .terminated := ht
    cases event with
    | line text =>
      have hm := map_submit hf s text
      rcases hr : s.submit text with ⟨result, t⟩
      rw [hr] at hm
      cases result with
      | ok _ =>
        rw [runEvents_line ht hr, runEvents_line (t := t.map f) ht' hm]
        exact ih t _ _
      | error e =>
        rw [runEvents_line_error ht hr, runEvents_line_error (t := t.map f) ht' hm]
        rfl
    | interrupted =>
      rw [runEvents_interrupted ht, runEvents_interrupted ht']
      exact ih { s with buffer := s.buffer.clear, phase := .single } history _
    | failed cause =>
      rw [runEvents_failed ht, runEvents_failed ht']
      rfl

theorem map_preload_dispatch (hf : StandsFor f) (s : Session ε) (r : PreloadReport)
    (unit : String) :
    Preload.dispatch (s.map f) r unit = carry f (Preload.dispatch s r unit) := by
  have hm : (s.map f).observe unit = carry f (s.observe unit) := rfl
  rcases h : s.observe unit with ⟨absorbed, t⟩
  rw [h] at hm
  cases absorbed with
  | true =>
    rw [Preload.dispatch_of_imports h, Preload.dispatch_of_imports (t := t.map f) hm]
    rfl
  | false =>
    rw [Preload.dispatch_of_code h, Preload.dispatch_of_code (t := t.map f) hm, map_prepare]
    obtain ⟨code, p⟩ := t.prepare unit
    change Preload.conclude ((p.map f).execute code).2 r ((p.map f).execute code).1 = _
    rw [map_execute hf]
    exact map_preload_conclude f (p.execute code).2 r (p.execute code).1

theorem map_runLines (hf : StandsFor f) (s : Session ε) (buffer : StatementBuffer)
    (r : PreloadReport) (texts : List String) :
    Preload.runLines (s.map f) buffer r texts = carry f (Preload.runLines s buffer r texts) := by
  induction texts generalizing s buffer r with
  | nil =>
    rw [Preload.runLines_nil, Preload.runLines_nil]
    cases buffer.takeRemainder.1 with
    | none => rfl
    | some unit => exact map_preload_dispatch hf s r unit
  | cons text rest ih =>
    rcases hfeed : buffer.feed text with ⟨answer, after⟩
    cases answer with
    | complete unit =>
      rw [Preload.runLines_of_complete hfeed, Preload.runLines_of_complete hfeed,
        map_preload_dispatch hf]
      rcases Preload.dispatch s r unit with ⟨_ | q, t⟩
      · rfl
      · have hphase : (t.map f).phase = t.phase := rfl
        rw [carry, Preload.afterUnit_ok, Preload.afterUnit_ok]
        simp only [hphase]
        split
        · rfl
        · exact ih t after q
    | incomplete =>
      rw [Preload.runLines_of_incomplete hfeed,
        Preload.runLines_of_incomplete hfeed]
      exact ih s after r
    | blank =>
      rw [Preload.runLines_of_blank hfeed,
        Preload.runLines_of_blank hfeed]
      exact ih s after r

theorem map_perform (hf : StandsFor f) (s : Session ε) (op : Operation) :
    (s.map f).perform op = (s.perform op).map f := by
  cases op with
  | submit line => rw [perform, perform, map_submit hf, carry]
  | run source => rw [perform, perform, run, run, map_runEvents hf]
  | execute code => rw [perform, perform, map_execute hf, carry]
  | preload source =>
    rw [perform, perform, Preload.runSource, Preload.runSource, map_runLines hf, carry]
  | preloadFile path content =>
    rw [perform, perform]
    cases content with
    | ok source =>
      rw [Preload.runFile, Preload.runFile, Preload.runSource, Preload.runSource, map_runLines hf,
        carry]
    | error cause => cases cause <;> rfl
  | observe unit => rfl
  | prepare unit => rw [perform, perform, map_prepare, carry]
  | refresh => exact map_refreshSymbols hf s
  | report e => rw [perform, perform, map_report, carry]
  | terminate => rfl
  | redirect console => rfl

/-- Whatever is done with a session, it makes no difference which of the two evaluators is asked. -/
theorem map_performAll (hf : StandsFor f) (s : Session ε) (ops : List Operation) :
    (s.map f).performAll ops = (s.performAll ops).map f := by
  induction ops generalizing s with
  | nil => rfl
  | cons op ops ih =>
    have hstep := map_perform hf s op
    exact (congrArg (fun t => t.performAll ops) hstep).trans (ih (s.perform op))

end Session

end ScriptShell

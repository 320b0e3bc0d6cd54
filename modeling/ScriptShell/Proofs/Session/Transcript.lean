import ScriptShell.Proofs.Session.Course

/-!
What a session writes. Each unit that is run leaves one passage, and so do a failure reported from
outside and the end of the input; nothing else is written, and the passages stand in the order in
which the evaluator was asked.
-/

namespace ScriptShell

/-- How to read off an evaluator what the units came to that it was given. -/
structure Account (ε α : Type) [Evaluator ε] where
  log : ε → List α
  outcome : α → Except EvalError Evaluation
  evaluate : ∀ e code given, ∃ entry,
    log (Evaluator.evaluate e code given).2 = log e ++ [entry] ∧
      (Evaluator.evaluate e code given).1 = outcome entry
  symbols : ∀ e, log (Evaluator.symbols e).2 = log e

/-- A part of what a session writes. -/
inductive Passage (α : Type) where
  /-- A unit that was typed. -/
  | typed (entry : α)
  /-- A unit of a preload file. -/
  | preloaded (entry : α)
  | reported (e : EvalError)
  | endOfInput

namespace Passage

variable {α : Type}

def asked? : Passage α → Option α
  | .typed entry => some entry
  | .preloaded entry => some entry
  | _ => none

/-- What is shown of a preloaded unit: as of a typed one, but for its value. -/
def shownPreloaded (config : SessionConfig) : Except EvalError Evaluation → String
  | .ok e => closeLine e.output
  | .error e => Session.reported config e

def text (outcome : α → Except EvalError Evaluation) (config : SessionConfig) : Passage α → String
  | .typed entry => Session.shownAfter config (outcome entry)
  | .preloaded entry => shownPreloaded config (outcome entry)
  | .reported e => Session.reported config e
  | .endOfInput => "\n"

end Passage

/-- The operations that show what they do where the session writes. -/
def Operation.isShown : Operation → Bool
  | .execute _ => false
  | .redirect _ => false
  | _ => true

namespace Session

variable {ε α : Type} [Evaluator ε] {A : Account ε α}

/-- From `s` to `t` these passages were written, for all that the evaluator was asked meanwhile. -/
structure Shows (A : Account ε α) (s : Session ε) (passages : List (Passage α)) (t : Session ε) :
    Prop where
  config : t.config = s.config
  isOpen : t.console.closed = false
  written : t.console.written =
    s.console.written ++ String.join (passages.map (Passage.text A.outcome s.config))
  log : A.log t.evaluator = A.log s.evaluator ++ passages.filterMap Passage.asked?

/-- What touches neither the evaluator nor the console shows nothing. -/
theorem shows_nil {s t : Session ε} (h : s.console.closed = false) (hc : t.config = s.config)
    (ht : t.console = s.console) (he : A.log t.evaluator = A.log s.evaluator) : Shows A s [] t where
  config := hc
  isOpen := by rw [ht, h]
  written := by rw [ht, List.map_nil]; exact String.append_empty.symm
  log := by rw [he, List.filterMap_nil, List.append_nil]

theorem Shows.trans {s t u : Session ε} {ps qs : List (Passage α)} (h : Shows A s ps t)
    (h' : Shows A t qs u) : Shows A s (ps ++ qs) u where
  config := h'.config.trans h.config
  isOpen := h'.isOpen
  written := by
    rw [h'.written, h.written, h.config, List.map_append, String.join_append, String.append_assoc]
  log := by rw [h'.log, h.log, List.filterMap_append, List.append_assoc]

theorem log_refreshSymbols (A : Account ε α) (s : Session ε) :
    A.log s.refreshSymbols.evaluator = A.log s.evaluator := by
  have hs := A.symbols s.evaluator
  rcases h : Evaluator.symbols s.evaluator with ⟨answer, evaluator⟩
  rw [h] at hs
  cases answer with
  | ok symbols =>
    rw [refreshSymbols_of_ok h]
    exact hs
  | error e =>
    rw [refreshSymbols_of_error h]
    exact hs

/-- An execution is one entry, and comes to what the entry says. -/
theorem log_execute (A : Account ε α) (s : Session ε) (code : String) :
    ∃ entry, A.log (s.execute code).2.evaluator = A.log s.evaluator ++ [entry] ∧
      (s.execute code).1 = A.outcome entry := by
  obtain ⟨entry, hlog, houtcome⟩ := A.evaluate s.evaluator code s.memory.context
  rcases h : Evaluator.evaluate s.evaluator code s.memory.context with ⟨outcome, evaluator⟩
  rw [h] at hlog houtcome
  refine ⟨entry, ?_⟩
  cases outcome with
  | ok evaluation =>
    rw [execute_of_ok h, log_refreshSymbols]
    exact ⟨hlog, houtcome⟩
  | error e =>
    rw [execute_of_error h]
    exact ⟨hlog, houtcome⟩

/-- After an execution a text is written to an open console; what was executed stays. -/
structure Concludes (s : Session ε) (text : String) (t : Session ε) : Prop where
  console : t.console = { s.console with written := s.console.written ++ text }
  config : t.config = s.config
  evaluator : t.evaluator = s.evaluator
  memory : t.memory = s.memory

omit [Evaluator ε] in
theorem conclude_of_open {s : Session ε} (h : s.console.closed = false)
    (outcome : Except EvalError Evaluation) :
    ∃ t, s.conclude outcome = (.ok (), t) ∧ s.Concludes (shownAfter s.config outcome) t ∧
      t.phase = phaseAfter outcome ∧ t.buffer = s.buffer := by
  rw [conclude_eq_announce, announce_of_open h]
  exact ⟨_, rfl, ⟨rfl, rfl, rfl, rfl⟩, rfl, rfl⟩

omit [Evaluator ε] in
/-- A preloaded unit ends a session that waits for lines exactly where a typed one does. -/
theorem preload_conclude_of_open {s : Session ε} (h : s.console.closed = false)
    (r : PreloadReport) (outcome : Except EvalError Evaluation) :
    ∃ q t, Preload.conclude s r outcome = (.ok q, t) ∧
      s.Concludes (Passage.shownPreloaded s.config outcome) t ∧
      (s.phase = .single → t.phase = phaseAfter outcome) := by
  cases outcome with
  | ok evaluation =>
    rw [Preload.conclude, write_of_open h]
    exact ⟨_, _, rfl, ⟨rfl, rfl, rfl, rfl⟩, id⟩
  | error cause =>
    have hw : (s.warn (.preloadStatementFailed cause)).console.closed = false := h
    rw [Preload.conclude, report, write_of_open hw]
    simp only [phaseAfter]
    split
    · exact ⟨_, _, rfl, ⟨rfl, rfl, rfl, rfl⟩, fun _ => rfl⟩
    · exact ⟨_, _, rfl, ⟨rfl, rfl, rfl, rfl⟩, id⟩

/-- Code is executed, and what it came to is shown. -/
theorem shows_executed {s t : Session ε} (h : s.console.closed = false) (code : String)
    {f : α → Passage α} (hf : ∀ entry, (f entry).asked? = some entry)
    (ht : ∀ entry, (s.execute code).1 = A.outcome entry →
      (s.execute code).2.Concludes ((f entry).text A.outcome s.config) t) :
    ∃ ps, Shows A s ps t := by
  obtain ⟨entry, hlog, houtcome⟩ := log_execute A s code
  have hr := retains_execute s code
  obtain ⟨hconsole, hconfig, hevaluator, -⟩ := ht entry houtcome
  refine ⟨[f entry], hconfig.trans hr.config, ?_, ?_, ?_⟩
  · rw [hconsole, hr.console]
    exact h
  · rw [hconsole, hr.console, List.map_singleton, String.join_cons, String.join_nil,
      String.append_empty]
  · rw [hevaluator, hlog, List.filterMap_cons_some (hf entry), List.filterMap_nil]

/-- A unit that holds more than imports, up to its execution. -/
theorem shows_prepare {s t : Session ε} {unit : String} (h : s.console.closed = false)
    (hs : s.observe unit = (false, t)) : Shows A s [] (t.prepare unit).2 := by
  rw [observe_eq] at hs
  obtain ⟨-, rfl⟩ := Prod.mk.inj hs
  rw [prepare_eq]
  generalize AliasTable.resolve _ _ = resolved
  exact shows_nil h rfl rfl rfl

/-- The phase is not shown. -/
theorem Shows.executing {s t : Session ε} {ps : List (Passage α)} (h : Shows A s ps t) :
    Shows A s ps t.executing := ⟨h.config, h.isOpen, h.written, h.log⟩

theorem shows_dispatch {s : Session ε} (h : s.console.closed = false) (unit : String) :
    ∃ ps, Shows A s ps (s.dispatch unit).2 := by
  rcases hs : s.observe unit with ⟨absorbed, t⟩
  cases absorbed with
  | true =>
    rw [dispatch_of_imports hs]
    rw [observe_eq] at hs
    obtain ⟨-, rfl⟩ := Prod.mk.inj hs
    exact ⟨[], shows_nil h rfl rfl rfl⟩
  | false =>
    have hprep := shows_prepare (A := A) h hs
    have hexec := hprep.executing
    generalize hq : (t.prepare unit).2.executing = q at hexec
    generalize hcode : wrapExpression (t.prepare unit).1 = code
    have hr := retains_execute q code
    rw [dispatch_of_code hs, hq, hcode]
    obtain ⟨u, hu, hc, -, -⟩ :=
      conclude_of_open (hr.console.symm ▸ hexec.isOpen) (q.execute code).1
    rw [hu]
    obtain ⟨ps, hps⟩ := shows_executed (A := A) hexec.isOpen code (f := .typed) (fun _ => rfl)
      (fun entry he => by
        rw [hr.config, he] at hc
        exact hc)
    exact ⟨[] ++ ps, hexec.trans hps⟩

theorem shows_submit {s : Session ε} (h : s.console.closed = false) (line : String) :
    ∃ ps, Shows A s ps (s.submit line).2 := by
  unfold submit
  split
  · exact ⟨[], shows_nil h rfl rfl rfl⟩
  · split
    · exact ⟨[], shows_nil h rfl rfl rfl⟩
    · exact ⟨[], shows_nil h rfl rfl rfl⟩
    · next unit buffer _ =>
      obtain ⟨ps, hps⟩ := shows_dispatch (A := A) (s := { s with buffer }) h unit
      exact ⟨ps, hps.config, hps.isOpen, hps.written, hps.log⟩

/-- What is written besides the units. -/
theorem shows_write {s : Session ε} (h : s.console.closed = false) {p : Passage α}
    (hp : p.asked? = none) : Shows A s [p] (s.write (p.text A.outcome s.config)).2 := by
  rw [write_of_open h]
  refine ⟨rfl, h, ?_, ?_⟩
  · rw [List.map_singleton, String.join_cons, String.join_nil, String.append_empty]
  · rw [List.filterMap_cons_none hp, List.filterMap_nil, List.append_nil]

theorem shows_runEvents {s : Session ε} (h : s.console.closed = false) (history : History)
    (prompts : List String) (events : List ReadEvent) :
    ∃ ps, Shows A s ps (s.runEvents history prompts events).2.1 := by
  induction events generalizing s history prompts with
  | nil =>
    by_cases ht : s.phase = .terminated
    · rw [runEvents_of_terminated ht]
      exact ⟨[], shows_nil h rfl rfl rfl⟩
    · have hw := shows_write (A := A) h (p := .endOfInput) rfl
      have hopen := write_of_open h "\n"
      rw [runEvents_nil ht hopen]
      rw [Passage.text, hopen] at hw
      exact ⟨_, hw.config, hw.isOpen, hw.written, hw.log⟩
  | cons event rest ih =>
    by_cases ht : s.phase = .terminated
    · rw [runEvents_of_terminated ht]
      exact ⟨[], shows_nil h rfl rfl rfl⟩
    cases event with
    | line text =>
      obtain ⟨ps, hps⟩ := shows_submit (A := A) h text
      rcases hr : s.submit text with ⟨result, t⟩
      rw [hr] at hps
      cases result with
      | ok _ =>
        rw [runEvents_line ht hr]
        obtain ⟨qs, hqs⟩ := ih hps.isOpen (if isBlank text then history else history.add text)
          (prompts ++ [s.prompt])
        exact ⟨ps ++ qs, hps.trans hqs⟩
      | error e =>
        rw [runEvents_line_error ht hr]
        exact ⟨ps, hps⟩
    | interrupted =>
      rw [runEvents_interrupted ht]
      obtain ⟨ps, hps⟩ := ih (s := { s with buffer := s.buffer.clear, phase := .single }) h history
        (prompts ++ [s.prompt])
      exact ⟨ps, hps.config, hps.isOpen, hps.written, hps.log⟩
    | failed cause =>
      rw [runEvents_failed ht]
      exact ⟨[], shows_nil h rfl rfl rfl⟩

theorem shows_preload_dispatch {s : Session ε} (h : s.console.closed = false) (r : PreloadReport)
    (unit : String) : ∃ ps, Shows A s ps (Preload.dispatch s r unit).2 := by
  rcases hs : s.observe unit with ⟨absorbed, t⟩
  cases absorbed with
  | true =>
    rw [Preload.dispatch_of_imports hs]
    rw [observe_eq] at hs
    obtain ⟨-, rfl⟩ := Prod.mk.inj hs
    exact ⟨[], shows_nil h rfl rfl rfl⟩
  | false =>
    have hprep := shows_prepare (A := A) h hs
    generalize hq : (t.prepare unit).2 = q at hprep
    generalize hcode : (t.prepare unit).1 = code
    have hr := retains_execute q code
    rw [Preload.dispatch_of_code hs, hq, hcode]
    obtain ⟨_, u, hu, hc, -⟩ :=
      preload_conclude_of_open (hr.console.symm ▸ hprep.isOpen) r (q.execute code).1
    rw [hu]
    obtain ⟨ps, hps⟩ := shows_executed (A := A) hprep.isOpen code (f := .preloaded)
      (fun _ => rfl) (fun entry he => by
        rw [hr.config, he] at hc
        exact hc)
    exact ⟨[] ++ ps, hprep.trans hps⟩

theorem shows_runLines {s : Session ε} (h : s.console.closed = false) (buffer : StatementBuffer)
    (r : PreloadReport) (texts : List String) :
    ∃ ps, Shows A s ps (Preload.runLines s buffer r texts).2 := by
  induction texts generalizing s buffer r with
  | nil =>
    rw [Preload.runLines_nil]
    cases buffer.takeRemainder.1 with
    | some unit => exact shows_preload_dispatch h r unit
    | none => exact ⟨[], shows_nil h rfl rfl rfl⟩
  | cons text rest ih =>
    rcases hf : buffer.feed text with ⟨answer, after⟩
    cases answer with
    | complete unit =>
      obtain ⟨ps, hps⟩ := shows_preload_dispatch (A := A) h r unit
      rw [Preload.runLines_of_complete hf]
      rcases hd : Preload.dispatch s r unit with ⟨result, t⟩
      rw [hd] at hps
      cases result with
      | ok q =>
        rw [Preload.afterUnit_ok]
        split
        · exact ⟨ps, hps⟩
        · obtain ⟨qs, hqs⟩ := ih hps.isOpen after q
          exact ⟨ps ++ qs, hps.trans hqs⟩
      | error e => exact ⟨ps, hps⟩
    | incomplete =>
      rw [Preload.runLines_of_incomplete hf]
      exact ih h after r
    | blank =>
      rw [Preload.runLines_of_blank hf]
      exact ih h after r

theorem shows_perform {s : Session ε} (h : s.console.closed = false) {op : Operation}
    (hop : op.isShown = true) : ∃ ps, Shows A s ps (s.perform op) := by
  cases op with
  | submit line => exact shows_submit h line
  | run source => exact shows_runEvents h _ _ _
  | execute code => exact absurd hop nofun
  | preload source => exact shows_runLines h _ _ _
  | preloadFile path content =>
    cases content with
    | ok source => exact shows_runLines h _ _ _
    | error cause => cases cause <;> exact ⟨[], shows_nil h rfl rfl rfl⟩
  | observe unit => exact ⟨[], shows_nil h rfl rfl rfl⟩
  | prepare unit =>
    rw [perform, prepare_eq]
    generalize s.memory.aliases.resolve unit = resolved
    exact ⟨[], shows_nil h rfl rfl rfl⟩
  | refresh =>
    have hr := retains_refreshSymbols s
    exact ⟨[], shows_nil h hr.config hr.console (log_refreshSymbols A s)⟩
  | report e => exact ⟨_, shows_write h (p := .reported e) rfl⟩
  | terminate => exact ⟨[], shows_nil h rfl rfl rfl⟩
  | redirect console => exact absurd hop nofun

/-- Everything that is written stands in passages, one for each unit that the evaluator was given,
in its order. -/
theorem shows_performAll {s : Session ε} (h : s.console.closed = false) {ops : List Operation}
    (hops : ∀ op ∈ ops, op.isShown = true) : ∃ ps, Shows A s ps (s.performAll ops) := by
  induction ops generalizing s with
  | nil => exact ⟨[], shows_nil h rfl rfl rfl⟩
  | cons op ops ih =>
    obtain ⟨hop, hops⟩ := List.forall_mem_cons.mp hops
    obtain ⟨ps, hps⟩ := shows_perform (A := A) h hop
    obtain ⟨qs, hqs⟩ := ih hps.isOpen hops
    exact ⟨ps ++ qs, hps.trans hqs⟩

end Session

end ScriptShell

import ScriptShell.Session.Preload

/-!
What the operations of a session come to, case by case. A unit is treated in the same steps whether
it was typed or preloaded; the two differ in the code that is run and in what is shown.
-/

namespace ScriptShell

/-- One more unit that was run, and what it came to. -/
def PreloadReport.count (r : PreloadReport) : Except EvalError Evaluation → PreloadReport
  | .ok _ => { r with executed := r.executed + 1 }
  | .error _ => { r with failed := r.failed + 1 }

namespace Session

variable {ε : Type}

/-- An open console takes any text. -/
theorem write_of_open {s : Session ε} (h : s.console.closed = false) (text : String) :
    s.write text =
      (.ok (), { s with console := { s.console with written := s.console.written ++ text } }) := by
  unfold write
  by_cases ht : text = ""
  · have hw : s.console.written ++ text = s.console.written := by rw [ht]; exact String.append_empty
    rw [if_pos ht, hw]
  · rw [if_neg ht, h]
    rfl

/-- Nothing but what is shown and logged lies between these sessions. -/
structure Beside (s t : Session ε) : Prop where
  evaluator : t.evaluator = s.evaluator
  config : t.config = s.config
  memory : t.memory = s.memory
  buffer : t.buffer = s.buffer
  phase : t.phase = s.phase
  closed : t.console.closed = s.console.closed

/-- Only a closed console refuses a text. -/
theorem write_cases (s : Session ε) (text : String) : ∃ t, s.Beside t ∧
    (s.write text = (.ok (), t) ∨
      s.console.closed = true ∧ ∃ e, s.write text = (.error e, t)) := by
  cases hc : s.console.closed with
  | false =>
    refine ⟨_, ?_, Or.inl (write_of_open hc text)⟩
    exact ⟨rfl, rfl, rfl, rfl, rfl, rfl⟩
  | true =>
    refine ⟨s, ⟨rfl, rfl, rfl, rfl, rfl, rfl⟩, ?_⟩
    unfold write
    rw [if_pos hc]
    by_cases ht : text = ""
    · exact Or.inl (if_pos ht)
    · exact Or.inr ⟨rfl, _, if_neg ht⟩

/-- Observing a unit changes no more than the aliases. -/
theorem observe_eq (s : Session ε) (unit : String) :
    s.observe unit = ((s.memory.aliases.observe unit).1,
      { s with memory := { s.memory with aliases := (s.memory.aliases.observe unit).2 } }) := rfl

/-- Preparing a unit changes no more than the tracker. -/
theorem prepare_eq (s : Session ε) (unit : String) :
    s.prepare unit = (s.memory.aliases.resolve unit,
      { s with memory := { s.memory with
        tracker := (s.memory.tracker.track (s.memory.aliases.resolve unit)).2 } }) := rfl

/-- A text is shown, and the phase changes if it could be shown. -/
def announce (s : Session ε) (text : String) (next : Phase) :
    Except TerminalError Unit × Session ε :=
  match s.write text with
  | (.ok (), s) => (.ok (), { s with phase := next })
  | failed => failed

/-- What is shown of a unit that was run. -/
def shownAfter (config : SessionConfig) : Except EvalError Evaluation → String
  | .ok e => displayed e
  | .error e => reported config e

/-- The phase that a unit leaves behind. -/
def phaseAfter : Except EvalError Evaluation → Phase
  | .ok _ => .single
  | .error e => if e.isFatal then .terminated else .single

theorem conclude_eq_announce (s : Session ε) (outcome : Except EvalError Evaluation) :
    s.conclude outcome = s.announce (shownAfter s.config outcome) (phaseAfter outcome) := by
  cases outcome with
  | ok e => rfl
  | error e => rfl

/-- What concluding a preloaded unit comes to: it is counted, and a fatal failure ends the session,
unless what became of it could not be shown. -/
theorem preload_conclude_cases (s : Session ε) (r : PreloadReport)
    (outcome : Except EvalError Evaluation) : ∃ t, s.Beside t ∧
    (Preload.conclude s r outcome =
        (.ok (r.count outcome), if phaseAfter outcome = .terminated then t.terminate else t) ∨
      s.console.closed = true ∧ ∃ e, Preload.conclude s r outcome = (.error e, t)) := by
  cases outcome with
  | ok evaluation =>
    obtain ⟨t, ht, hw | ⟨hclosed, e, hw⟩⟩ := write_cases s (closeLine evaluation.output)
    · refine ⟨t, ht, Or.inl ?_⟩
      rw [Preload.conclude, hw]
      rfl
    · refine ⟨t, ht, Or.inr ⟨hclosed, e, ?_⟩⟩
      rw [Preload.conclude, hw]
  | error cause =>
    obtain ⟨t, ht, hw⟩ := write_cases (s.warn (.preloadStatementFailed cause))
      (reported s.config cause)
    have hs : s.Beside t := ⟨ht.evaluator, ht.config, ht.memory, ht.buffer, ht.phase, ht.closed⟩
    refine ⟨t, hs, hw.imp (fun hw => ?_) fun ⟨hclosed, e, hw⟩ => ⟨hclosed, e, ?_⟩⟩
    · have hreport : (s.warn (.preloadStatementFailed cause)).report cause = (.ok (), t) := hw
      rw [Preload.conclude, hreport]
      cases hf : cause.isFatal with
      | true => simp only [phaseAfter, hf, if_true, PreloadReport.count]
      | false => simp only [phaseAfter, hf, Bool.false_eq_true, if_false, reduceCtorEq,
          PreloadReport.count]
    · have hreport : (s.warn (.preloadStatementFailed cause)).report cause = (.error e, t) := hw
      rw [Preload.conclude, hreport]

/-- A console that is open takes what is shown. -/
theorem announce_of_open {s : Session ε} (h : s.console.closed = false) (text : String)
    (next : Phase) :
    s.announce text next = (.ok (), { s with
      console := { s.console with written := s.console.written ++ text }, phase := next }) := by
  rw [announce, write_of_open h]

/-- The session that runs a prepared unit. -/
def executing (s : Session ε) : Session ε := { s with phase := .executing }

variable [Evaluator ε]

theorem refreshSymbols_of_ok {s : Session ε} {symbols : Symbols} {evaluator : ε}
    (h : Evaluator.symbols s.evaluator = (.ok symbols, evaluator)) :
    s.refreshSymbols = { s with evaluator, memory := { s.memory with symbols } } := by
  unfold refreshSymbols
  rw [h]

theorem refreshSymbols_of_error {s : Session ε} {e : EvalError} {evaluator : ε}
    (h : Evaluator.symbols s.evaluator = (.error e, evaluator)) :
    s.refreshSymbols = ({ s with evaluator } : Session ε).warn (.symbolsUnavailable e) := by
  unfold refreshSymbols
  rw [h]

theorem execute_of_ok {s : Session ε} {code : String} {evaluation : Evaluation} {evaluator : ε}
    (h : Evaluator.evaluate s.evaluator code s.memory.context = (.ok evaluation, evaluator)) :
    s.execute code = (.ok evaluation,
      ({ s with evaluator, memory := (s.memory.capture evaluation.bindings).rebuild } :
        Session ε).refreshSymbols) := by
  unfold execute
  rw [h]

theorem execute_of_error {s : Session ε} {code : String} {e : EvalError} {evaluator : ε}
    (h : Evaluator.evaluate s.evaluator code s.memory.context = (.error e, evaluator)) :
    s.execute code = (.error e, { s with evaluator }) := by
  unfold execute
  rw [h]

/-- What an execution has no hand in: everything but the evaluator, the bindings, the symbols and
the log. -/
structure Retains (s t : Session ε) : Prop where
  config : t.config = s.config
  buffer : t.buffer = s.buffer
  phase : t.phase = s.phase
  console : t.console = s.console
  aliases : t.memory.aliases = s.memory.aliases
  tracker : t.memory.tracker = s.memory.tracker

theorem retains_refreshSymbols (s : Session ε) : s.Retains s.refreshSymbols := by
  rcases h : Evaluator.symbols s.evaluator with ⟨answer, evaluator⟩
  cases answer with
  | ok symbols =>
    rw [refreshSymbols_of_ok h]
    exact ⟨rfl, rfl, rfl, rfl, rfl, rfl⟩
  | error e =>
    rw [refreshSymbols_of_error h]
    exact ⟨rfl, rfl, rfl, rfl, rfl, rfl⟩

theorem retains_execute (s : Session ε) (code : String) : s.Retains (s.execute code).2 := by
  rcases h : Evaluator.evaluate s.evaluator code s.memory.context with ⟨outcome, evaluator⟩
  cases outcome with
  | ok evaluation =>
    rw [execute_of_ok h]
    have hr := retains_refreshSymbols
      ({ s with evaluator, memory := (s.memory.capture evaluation.bindings).rebuild } : Session ε)
    exact ⟨hr.config, hr.buffer, hr.phase, hr.console, hr.aliases, hr.tracker⟩
  | error e =>
    rw [execute_of_error h]
    exact ⟨rfl, rfl, rfl, rfl, rfl, rfl⟩

theorem dispatch_of_imports {s t : Session ε} {unit : String} (h : s.observe unit = (true, t)) :
    s.dispatch unit = (.ok (), { t with phase := .single }) := by
  unfold dispatch
  rw [h]

theorem dispatch_of_code {s t : Session ε} {unit : String} (h : s.observe unit = (false, t)) :
    s.dispatch unit =
      ((t.prepare unit).2.executing.execute (wrapExpression (t.prepare unit).1)).2.conclude
        ((t.prepare unit).2.executing.execute (wrapExpression (t.prepare unit).1)).1 := by
  unfold dispatch
  rw [h]
  rfl

/-- A unit that can be shown leaves a session that waits for a line or has ended. -/
theorem dispatch_of_open {s : Session ε} (h : s.console.closed = false) (unit : String) :
    ∃ t, s.dispatch unit = (.ok (), t) ∧ t.config = s.config ∧
      t.console.closed = s.console.closed ∧ t.buffer = s.buffer ∧
      (t.phase = .terminated ∨ t.phase = .single) := by
  have hs := observe_eq s unit
  generalize (s.memory.aliases.observe unit).2 = aliases at hs
  cases ho : (s.memory.aliases.observe unit).1 with
  | true =>
    rw [ho] at hs
    exact ⟨_, dispatch_of_imports hs, rfl, rfl, rfl, Or.inr rfl⟩
  | false =>
    rw [ho] at hs
    have hd := dispatch_of_code hs
    simp only [prepare_eq] at hd
    generalize aliases.resolve unit = text at hd
    generalize (s.memory.tracker.track text).2 = tracker at hd
    let ready : Session ε := executing { s with memory := { s.memory with aliases, tracker } }
    have hr := retains_execute ready (wrapExpression text)
    have ho : (ready.execute (wrapExpression text)).2.console.closed = false := by
      rw [hr.console]
      exact h
    rw [conclude_eq_announce, announce_of_open ho] at hd
    have hclosed := congrArg Console.closed hr.console
    refine ⟨_, hd, hr.config, hclosed, hr.buffer, ?_⟩
    · cases (ready.execute (wrapExpression text)).1 with
      | ok evaluation => exact Or.inr rfl
      | error e =>
        simp only [phaseAfter]
        split
        · exact Or.inl rfl
        · exact Or.inr rfl

theorem submit_of_keyword {s : Session ε} {line : String}
    (h : s.config.exitKeywords.contains (trim line) = true) :
    s.submit line = (.ok (), s.terminate) := by
  unfold submit
  rw [if_pos h]

theorem submit_of_incomplete {s : Session ε} {line : String} {buffer : StatementBuffer}
    (h : s.config.exitKeywords.contains (trim line) = false)
    (hf : s.buffer.feed line = (.incomplete, buffer)) :
    s.submit line = (.ok (), { s with buffer, phase := .continuation }) := by
  unfold submit
  rw [if_neg (Bool.eq_false_iff.mp h), hf]

theorem submit_of_blank {s : Session ε} {line : String} {buffer : StatementBuffer}
    (h : s.config.exitKeywords.contains (trim line) = false)
    (hf : s.buffer.feed line = (.blank, buffer)) :
    s.submit line = (.ok (), { s with buffer }) := by
  unfold submit
  rw [if_neg (Bool.eq_false_iff.mp h), hf]

theorem submit_of_complete {s : Session ε} {line unit : String} {buffer : StatementBuffer}
    (h : s.config.exitKeywords.contains (trim line) = false)
    (hf : s.buffer.feed line = (.complete unit, buffer)) :
    s.submit line = ({ s with buffer } : Session ε).dispatch unit := by
  unfold submit
  rw [if_neg (Bool.eq_false_iff.mp h), hf]

/-- Where everything can be shown, no line fails. -/
theorem submit_of_open {s : Session ε} (h : s.console.closed = false) (line : String) :
    ∃ t, s.submit line = (.ok (), t) ∧ t.console.closed = false := by
  cases hk : s.config.exitKeywords.contains (trim line) with
  | true => exact ⟨_, submit_of_keyword hk, h⟩
  | false =>
    rcases hf : s.buffer.feed line with ⟨answer, buffer⟩
    cases answer with
    | incomplete => exact ⟨_, submit_of_incomplete hk hf, h⟩
    | blank => exact ⟨_, submit_of_blank hk hf, h⟩
    | complete unit =>
      obtain ⟨t, hd, -, hopen, -⟩ := dispatch_of_open (s := { s with buffer }) h unit
      exact ⟨t, (submit_of_complete hk hf).trans hd, hopen.trans h⟩

/-- A session that has ended reads nothing. -/
theorem runEvents_of_terminated {s : Session ε} (h : s.phase = .terminated) (history : History)
    (prompts : List String) (events : List ReadEvent) :
    s.runEvents history prompts events = (.ok (), s, ⟨events, history, prompts⟩) := by
  cases events with
  | nil => rw [runEvents, if_pos h]
  | cons event rest => rw [runEvents, if_pos h]

theorem runEvents_nil {s t : Session ε} (h : s.phase ≠ .terminated)
    (hw : s.write "\n" = (.ok (), t))
    (history : History) (prompts : List String) :
    s.runEvents history prompts [] =
      (.ok (), { t with phase := .terminated }, ⟨[], history, prompts ++ [s.prompt]⟩) := by
  rw [runEvents, if_neg h]
  simp only [hw]

theorem runEvents_interrupted {s : Session ε} (h : s.phase ≠ .terminated) (history : History)
    (prompts : List String) (rest : List ReadEvent) :
    s.runEvents history prompts (.interrupted :: rest) =
      ({ s with buffer := s.buffer.clear, phase := .single } : Session ε).runEvents history
        (prompts ++ [s.prompt]) rest := by
  rw [runEvents, if_neg h]

theorem runEvents_failed {s : Session ε} (h : s.phase ≠ .terminated) (history : History)
    (prompts : List String) (cause : IoError) (rest : List ReadEvent) :
    s.runEvents history prompts (.failed cause :: rest) =
      (.error (.io cause), s, ⟨rest, history, prompts ++ [s.prompt]⟩) := by
  rw [runEvents, if_neg h]

theorem runEvents_line {s t : Session ε} (h : s.phase ≠ .terminated) {text : String}
    (hs : s.submit text = (.ok (), t)) (history : History) (prompts : List String)
    (rest : List ReadEvent) :
    s.runEvents history prompts (.line text :: rest) =
      t.runEvents (if isBlank text then history else history.add text) (prompts ++ [s.prompt])
        rest := by
  rw [runEvents, if_neg h]
  simp only [hs]

theorem runEvents_line_error {s t : Session ε} (h : s.phase ≠ .terminated) {text : String}
    {e : TerminalError} (hs : s.submit text = (.error e, t)) (history : History)
    (prompts : List String) (rest : List ReadEvent) :
    s.runEvents history prompts (.line text :: rest) =
      (.error e, t, ⟨rest, if isBlank text then history else history.add text,
        prompts ++ [s.prompt]⟩) := by
  rw [runEvents, if_neg h]
  simp only [hs]

/-- Where everything can be shown, a run fails only with a read. -/
theorem runEvents_of_open {s : Session ε} (h : s.console.closed = false) (history : History)
    (prompts : List String) {events : List ReadEvent} (hn : ∀ cause, .failed cause ∉ events) :
    (s.runEvents history prompts events).1 = .ok () := by
  induction events generalizing s history prompts with
  | nil =>
    by_cases hp : s.phase = .terminated
    · rw [runEvents_of_terminated hp]
    · rw [runEvents_nil hp (write_of_open h "\n")]
  | cons event rest ih =>
    have hrest : ∀ cause, .failed cause ∉ rest :=
      fun cause hm => hn cause (List.mem_cons_of_mem _ hm)
    by_cases hp : s.phase = .terminated
    · rw [runEvents_of_terminated hp]
    cases event with
    | line text =>
      obtain ⟨t, hs, ht⟩ := submit_of_open h text
      rw [runEvents_line hp hs]
      exact ih ht _ _ hrest
    | interrupted =>
      rw [runEvents_interrupted hp]
      exact ih (s := { s with buffer := s.buffer.clear, phase := .single }) h _ _ hrest
    | failed cause => exact absurd List.mem_cons_self (hn cause)

end Session

namespace Preload

variable {ε : Type} [Evaluator ε]

theorem dispatch_of_imports {s t : Session ε} {r : PreloadReport} {unit : String}
    (h : s.observe unit = (true, t)) :
    dispatch s r unit = (.ok { r with imports := r.imports + 1 }, t) := by
  unfold dispatch
  rw [h]

theorem dispatch_of_code {s t : Session ε} {r : PreloadReport} {unit : String}
    (h : s.observe unit = (false, t)) :
    dispatch s r unit =
      conclude ((t.prepare unit).2.execute (t.prepare unit).1).2 r
        ((t.prepare unit).2.execute (t.prepare unit).1).1 := by
  unfold dispatch
  rw [h]

/-- What follows the last line, given the unit left open. -/
def afterLast (s : Session ε) (r : PreloadReport) :
    Option String → Except TerminalError PreloadReport × Session ε
  | some unit => dispatch s r unit
  | none => (.ok r, s)

/-- What follows the last line: the unit left open, if there is one. -/
theorem runLines_nil (s : Session ε) (buffer : StatementBuffer) (r : PreloadReport) :
    runLines s buffer r [] = (buffer.takeRemainder.1.elim (.ok r, s) (dispatch s r)) := by
  change afterLast s r buffer.takeRemainder.1 = _
  generalize buffer.takeRemainder.1 = remainder
  cases remainder with
  | none => rfl
  | some unit => rfl

/-- What follows a line that closes a unit. -/
def afterUnit (after : StatementBuffer) (rest : List String) :
    Except TerminalError PreloadReport × Session ε → Except TerminalError PreloadReport × Session ε
  | (.ok r, s) => if s.phase = .terminated then (.ok r, s) else runLines s after r rest
  | failed => failed

theorem afterUnit_ok (after : StatementBuffer) (rest : List String) (r : PreloadReport)
    (s : Session ε) : afterUnit after rest (.ok r, s) =
      if s.phase = .terminated then (.ok r, s) else runLines s after r rest := rfl

/-- What follows the answer to a line. -/
def afterFeed (s : Session ε) (r : PreloadReport) (rest : List String) :
    Feed × StatementBuffer → Except TerminalError PreloadReport × Session ε
  | (.complete unit, after) => afterUnit after rest (dispatch s r unit)
  | (_, after) => runLines s after r rest

theorem runLines_cons (s : Session ε) (buffer : StatementBuffer) (r : PreloadReport)
    (line : String) (rest : List String) :
    runLines s buffer r (line :: rest) = afterFeed s r rest (buffer.feed line) := by
  exact rfl

theorem runLines_of_complete {s : Session ε} {buffer after : StatementBuffer} {r : PreloadReport}
    {line unit : String} {rest : List String} (hf : buffer.feed line = (.complete unit, after)) :
    runLines s buffer r (line :: rest) = afterUnit after rest (dispatch s r unit) := by
  rw [runLines_cons, hf]
  rfl

/-- A line that closes no unit with a text leaves the session alone. -/
theorem runLines_of_incomplete {s : Session ε} {buffer after : StatementBuffer}
    {r : PreloadReport} {line : String} {rest : List String}
    (hf : buffer.feed line = (.incomplete, after)) :
    runLines s buffer r (line :: rest) = runLines s after r rest := by
  rw [runLines_cons, hf]
  rfl

theorem runLines_of_blank {s : Session ε} {buffer after : StatementBuffer}
    {r : PreloadReport} {line : String} {rest : List String}
    (hf : buffer.feed line = (.blank, after)) :
    runLines s buffer r (line :: rest) = runLines s after r rest := by
  rw [runLines_cons, hf]
  rfl

end Preload

end ScriptShell

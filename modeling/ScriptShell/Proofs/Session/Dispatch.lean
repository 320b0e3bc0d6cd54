import ScriptShell.Proofs.Alias.Name
import ScriptShell.Proofs.Session.Steps
import ScriptShell.Proofs.Statement.Units
import ScriptShell.Proofs.Variables.Occurrence

/-!
Which units a run hands to its evaluator. The reads alone determine how they are cut into units; the
run treats these in order, each once, until the input ends, a line asks to stop or the evaluator is
gone. What is pending then, or at an interrupt, is dropped without a trace.
-/

namespace ScriptShell

/-- A unit cut from the reads: its text, and the reads after the line that closed it. -/
structure Cut where
  unit : String
  rest : List ReadEvent

namespace ReadEvent

/-- A line that ends the session, white space around it aside. -/
def isExit (keywords : List String) : ReadEvent → Bool
  | .line text => keywords.contains (trim text)
  | _ => false

/-- The units that reads form up to the first exit line, when some lines are pending already: each
ends with the first line that leaves nothing open, and an interrupt drops the pending lines. -/
def cuts (keywords : List String) : List String → List ReadEvent → List Cut
  | _, [] => []
  | _, .interrupted :: rest => cuts keywords [] rest
  | _, .failed _ :: _ => []
  | pending, .line text :: rest =>
    if keywords.contains (trim text) then []
    else if Closing.bracketsAndQuotes.closes (pending ++ [text]) then
      ⟨trim (gathered (pending ++ [text])), rest⟩ :: cuts keywords [] rest
    else cuts keywords (pending ++ [text]) rest

variable {keywords pending : List String} {text : String} {rest : List ReadEvent}

theorem cuts_of_exit (h : keywords.contains (trim text) = true) :
    cuts keywords pending (.line text :: rest) = [] := by
  rw [cuts, if_pos h]

theorem cuts_of_open (h : keywords.contains (trim text) = false)
    (hc : Closing.bracketsAndQuotes.closes (pending ++ [text]) = false) :
    cuts keywords pending (.line text :: rest) = cuts keywords (pending ++ [text]) rest := by
  rw [cuts, if_neg (Bool.eq_false_iff.mp h), if_neg (Bool.eq_false_iff.mp hc)]

theorem cuts_of_closed (h : keywords.contains (trim text) = false)
    (hc : Closing.bracketsAndQuotes.closes (pending ++ [text]) = true) :
    cuts keywords pending (.line text :: rest) =
      ⟨trim (gathered (pending ++ [text])), rest⟩ :: cuts keywords [] rest := by
  rw [cuts, if_neg (Bool.eq_false_iff.mp h), if_pos hc]

end ReadEvent

/-- A unit to be run: there is some text in it, and not imports alone. -/
def isCode (unit : String) : Bool := unit ≠ "" && !((∅ : AliasTable).observe unit).1

namespace AliasTable

/-- The texts of the units to be run, each with the short names written out that the units up to and
including it have declared. -/
def resolveAll (t : AliasTable) : List String → List String
  | [] => []
  | unit :: rest =>
    if isCode unit then (t.observe unit).2.resolve unit :: resolveAll (t.observe unit).2 rest
    else resolveAll (t.observe unit).2 rest

theorem observe_fst (t : AliasTable) (unit : String) :
    (t.observe unit).1 = ((∅ : AliasTable).observe unit).1 := rfl

/-- Whatever was declared before, a unit with some text in it is code or it is imports alone. -/
theorem isCode_eq (t : AliasTable) {unit : String} (hu : unit ≠ "") :
    isCode unit = !(t.observe unit).1 := by
  rw [isCode, observe_fst t unit, decide_eq_true hu, Bool.true_and]

theorem resolveAll_singleton (t : AliasTable) (unit : String) :
    t.resolveAll [unit] = if isCode unit then [(t.observe unit).2.resolve unit] else [] := rfl

end AliasTable

/-- The evaluator is still there afterwards. -/
def EvaluatorCall.survived (call : EvaluatorCall) : Bool :=
  match call.outcome with
  | .error (.disconnected _) => false
  | _ => true

/-- How a run ends, given the units that it treated and left, the calls it made, the number of times
it read, and what it did not read. -/
inductive RunEnd (keywords : List String) (events : List ReadEvent) :
    List Cut → List Cut → List EvaluatorCall → Nat → List ReadEvent → Prop
  /-- Everything was read, and then the end of input. -/
  | endOfInput {treated : List Cut} {calls : List EvaluatorCall}
      (stay : ∀ event ∈ events, event.isExit keywords = false)
      (alive : ∀ call ∈ calls, call.survived = true) :
      RunEnd keywords events treated [] calls (events.length + 1) []
  /-- The first exit line was the last one read. -/
  | keyword {treated : List Cut} {calls : List EvaluatorCall} {before after : List ReadEvent}
      {event : ReadEvent} (split : events = before ++ event :: after)
      (exit : event.isExit keywords = true) (stay : ∀ event ∈ before, event.isExit keywords = false)
      (alive : ∀ call ∈ calls, call.survived = true) :
      RunEnd keywords events treated [] calls (before.length + 1) after
  /-- The evaluator was lost on a unit, and the line that closed this unit was the last one read. -/
  | disconnected {earlier left : List Cut} {cut : Cut} {calls : List EvaluatorCall}
      {call : EvaluatorCall} {reads : Nat} (code : isCode cut.unit = true)
      (gone : call.survived = false) (alive : ∀ call ∈ calls, call.survived = true)
      (count : reads + cut.rest.length = events.length) :
      RunEnd keywords events (earlier ++ [cut]) left (calls ++ [call]) reads cut.rest

/-- One more read in front, that is no exit line, after which these units are treated without losing
the evaluator. -/
theorem RunEnd.cons {keywords : List String} {events : List ReadEvent} {treated left : List Cut}
    {calls : List EvaluatorCall} {reads : Nat} {upcoming : List ReadEvent}
    (h : RunEnd keywords events treated left calls reads upcoming) {event : ReadEvent}
    (he : event.isExit keywords = false) (units : List Cut) {made : List EvaluatorCall}
    (hm : ∀ call ∈ made, call.survived = true) :
    RunEnd keywords (event :: events) (units ++ treated) left (made ++ calls) (reads + 1)
      upcoming := by
  have hall {calls : List EvaluatorCall} (alive : ∀ call ∈ calls, call.survived = true) :
      ∀ call ∈ made ++ calls, call.survived = true := by
    intro call hc
    rcases List.mem_append.mp hc with hc | hc
    · exact hm call hc
    · exact alive call hc
  cases h with
  | endOfInput stay alive => exact .endOfInput (List.forall_mem_cons.mpr ⟨he, stay⟩) (hall alive)
  | @keyword _ _ before _ stop split exit stay alive =>
    have hs : event :: events = (event :: before) ++ stop :: upcoming := congrArg (event :: ·) split
    exact .keyword hs exit (List.forall_mem_cons.mpr ⟨he, stay⟩) (hall alive)
  | disconnected code gone alive count =>
    rw [← List.append_assoc, ← List.append_assoc]
    refine .disconnected code gone (hall alive) ?_
    rw [List.length_cons, ← count]
    omega

theorem RunEnd.skip {keywords : List String} {events : List ReadEvent} {treated left : List Cut}
    {calls : List EvaluatorCall} {reads : Nat} {upcoming : List ReadEvent}
    (h : RunEnd keywords events treated left calls reads upcoming) {event : ReadEvent}
    (he : event.isExit keywords = false) :
    RunEnd keywords (event :: events) treated left calls (reads + 1) upcoming :=
  h.cons he [] fun _ hm => absurd hm List.not_mem_nil

namespace Session

variable {ε : Type} [Evaluator ε]

/-- On the way from `s` to `t` these units are treated, at the cost of these calls. -/
structure Treats (s t : Session (Recorder ε)) (units : List String) (made : List EvaluatorCall) :
    Prop where
  config : t.config = s.config
  console : t.console.closed = s.console.closed
  calls : t.evaluator.calls = s.evaluator.calls ++ made
  codes : made.map (·.code) = (s.memory.aliases.resolveAll units).map wrapExpression
  aliases : t.memory.aliases = s.memory.aliases.observeAll units
  tracker : t.memory.tracker = s.memory.tracker.trackAll (s.memory.aliases.resolveAll units)

/-- Asking for symbols is not recorded as a call. -/
theorem refreshSymbols_calls (s : Session (Recorder ε)) :
    s.refreshSymbols.evaluator.calls = s.evaluator.calls := by
  rcases h : Evaluator.symbols s.evaluator.evaluator with ⟨answer, evaluator⟩
  have hr : Evaluator.symbols s.evaluator = (answer, { s.evaluator with evaluator }) := by
    change Recorder.symbols s.evaluator = _
    rw [Recorder.symbols, h]
  cases answer with
  | ok symbols =>
    rw [refreshSymbols_of_ok hr]
  | error e =>
    rw [refreshSymbols_of_error hr]
    rfl

/-- An execution is one call, with the code that it was asked to run. -/
theorem execute_calls (s : Session (Recorder ε)) (code : String) :
    ∃ call : EvaluatorCall, call.code = code ∧ (s.execute code).1 = call.outcome ∧
      (s.execute code).2.evaluator.calls = s.evaluator.calls ++ [call] := by
  rcases h : Evaluator.evaluate s.evaluator.evaluator code s.memory.context with
    ⟨outcome, evaluator⟩
  have hr : Evaluator.evaluate s.evaluator code s.memory.context = (outcome,
      { evaluator, calls := s.evaluator.calls ++
        [{ code, given := s.memory.context, outcome }] }) := by
    change Recorder.evaluate s.evaluator code s.memory.context = _
    rw [Recorder.evaluate, h]
  refine ⟨{ code, given := s.memory.context, outcome }, rfl, ?_⟩
  cases outcome with
  | ok evaluation =>
    rw [execute_of_ok hr]
    exact ⟨rfl, refreshSymbols_calls _⟩
  | error e =>
    rw [execute_of_error hr]
    exact ⟨rfl, rfl⟩

omit [Evaluator ε] in
/-- Nothing is treated where evaluator and memory stay. -/
theorem Treats.nil {s t : Session (Recorder ε)} (hc : t.config = s.config)
    (ho : t.console.closed = s.console.closed) (he : t.evaluator = s.evaluator)
    (hm : t.memory = s.memory) : s.Treats t [] [] := by
  refine ⟨hc, ho, ?_, rfl, ?_, ?_⟩
  · rw [he, List.append_nil]
  · rw [hm]
    rfl
  · rw [hm]
    rfl

omit [Evaluator ε] in
theorem Treats.congr_left {s s' t : Session (Recorder ε)} {units : List String}
    {made : List EvaluatorCall} (h : s'.Treats t units made) (hc : s'.config = s.config)
    (ho : s'.console.closed = s.console.closed) (he : s'.evaluator = s.evaluator)
    (hm : s'.memory = s.memory) : s.Treats t units made := by
  obtain ⟨hconfig, hconsole, hcalls, hcodes, haliases, htracker⟩ := h
  rw [hc] at hconfig
  rw [ho] at hconsole
  rw [he] at hcalls
  rw [hm] at hcodes haliases htracker
  exact ⟨hconfig, hconsole, hcalls, hcodes, haliases, htracker⟩

omit [Evaluator ε] in
theorem Treats.cons {s t u : Session (Recorder ε)} {unit : String} {units : List String}
    {made more : List EvaluatorCall} (h : s.Treats t [unit] made) (h' : t.Treats u units more) :
    s.Treats u (unit :: units) (made ++ more) := by
  have ha : t.memory.aliases = (s.memory.aliases.observe unit).2 := h.aliases
  have hres : s.memory.aliases.resolveAll (unit :: units) =
      s.memory.aliases.resolveAll [unit] ++ t.memory.aliases.resolveAll units := by
    rw [ha]
    simp only [AliasTable.resolveAll]
    split <;> rfl
  refine ⟨h'.config.trans h.config, h'.console.trans h.console, ?_, ?_, ?_, ?_⟩
  · rw [h'.calls, h.calls, List.append_assoc]
  · rw [List.map_append, h.codes, h'.codes, hres, List.map_append]
  · rw [h'.aliases, ha]
    rfl
  · rw [h'.tracker, h.tracker, hres, Tracker.trackAll, Tracker.trackAll, Tracker.trackAll,
      List.foldl_append]

/-- After a unit the session goes on, or else its evaluator was lost on this very unit. -/
def AfterUnit (t : Session (Recorder ε)) (unit : String) (made : List EvaluatorCall) : Prop :=
  (t.phase ≠ .terminated ∧ ∀ call ∈ made, call.survived = true) ∨
    (t.phase = .terminated ∧ isCode unit = true ∧ ∃ call, made = [call] ∧ call.survived = false)

/-- The phase that a call leaves behind says whether the evaluator survived it. -/
theorem phaseAfter_eq_terminated_iff (call : EvaluatorCall) :
    phaseAfter call.outcome = .terminated ↔ call.survived = false := by
  unfold EvaluatorCall.survived
  cases call.outcome with
  | ok evaluation => exact ⟨nofun, nofun⟩
  | error e =>
    cases e with
    | disconnected output => exact ⟨fun _ => rfl, fun _ => rfl⟩
    | _ => exact ⟨nofun, nofun⟩

/-- Running code and showing what became of it is one call; the phase is the one that it leaves. -/
theorem conclude_execute {s : Session (Recorder ε)} (h : s.console.closed = false) (code : String) :
    ∃ t call, (s.execute code).2.conclude (s.execute code).1 = (.ok (), t) ∧
      call.code = code ∧ t.evaluator.calls = s.evaluator.calls ++ [call] ∧
      t.phase = phaseAfter call.outcome ∧ t.console.closed = false ∧ t.config = s.config ∧
      t.buffer = s.buffer ∧ t.memory.aliases = s.memory.aliases ∧
      t.memory.tracker = s.memory.tracker := by
  obtain ⟨call, hcode, hout, hcalls⟩ := execute_calls s code
  have hk := retains_execute s code
  generalize (s.execute code).2 = t at hcalls hk ⊢
  have ho : t.console.closed = false := by rw [hk.console, h]
  rw [hout, conclude_eq_announce, announce_of_open ho]
  exact ⟨_, call, rfl, hcode, hcalls, rfl, ho, hk.config, hk.buffer, hk.aliases, hk.tracker⟩

theorem dispatch_treats {s : Session (Recorder ε)} (h : s.console.closed = false) {unit : String}
    (hu : unit ≠ "") :
    ∃ t made, s.dispatch unit = (.ok (), t) ∧ s.Treats t [unit] made ∧ t.buffer = s.buffer ∧
      AfterUnit t unit made := by
  have hc := s.memory.aliases.isCode_eq hu
  have hres := s.memory.aliases.resolveAll_singleton unit
  have hal : s.memory.aliases.observeAll [unit] = (s.memory.aliases.observe unit).2 := rfl
  have hs := observe_eq s unit
  generalize (s.memory.aliases.observe unit).2 = aliases at hs hres hal
  cases ho : (s.memory.aliases.observe unit).1 with
  | true =>
    rw [ho] at hc hs
    rw [hc] at hres
    refine ⟨_, [], dispatch_of_imports hs, ⟨rfl, rfl, (List.append_nil _).symm, ?_, hal.symm, ?_⟩,
      rfl, Or.inl ⟨nofun, List.forall_mem_nil _⟩⟩
    · rw [hres]
      rfl
    · rw [hres]
      rfl
  | false =>
    rw [ho] at hc hs
    rw [hc] at hres
    have hd := dispatch_of_code hs
    simp only [prepare_eq] at hd
    have htrack : s.memory.tracker.trackAll [aliases.resolve unit] =
        (s.memory.tracker.track (aliases.resolve unit)).2 := rfl
    generalize aliases.resolve unit = text at hd hres htrack
    generalize (s.memory.tracker.track text).2 = tracker at hd htrack
    obtain ⟨t, call, ht, hcode, hcalls, hphase, hopen, hconfig, hbuffer, halias, htracker⟩ :=
      conclude_execute
        (s := executing { s with memory := { s.memory with aliases, tracker } }) h
        (wrapExpression text)
    refine ⟨t, [call], hd.trans ht, ⟨hconfig, hopen.trans h.symm, hcalls, ?_, ?_, ?_⟩, hbuffer, ?_⟩
    · rw [hres]
      exact congrArg (fun code => [code]) hcode
    · exact halias.trans hal.symm
    · rw [hres]
      exact htracker.trans htrack.symm
    · have hp := phaseAfter_eq_terminated_iff call
      rw [← hphase] at hp
      by_cases hf : t.phase = .terminated
      · exact Or.inr ⟨hf, hc, call, rfl, hp.mp hf⟩
      · refine Or.inl ⟨hf, fun c hm => ?_⟩
        rw [List.mem_singleton.mp hm]
        exact (Bool.not_eq_false _).mp fun hs => hf (hp.mpr hs)

/-- The line that closes a unit has it treated, and nothing is pending any more. -/
theorem submit_treats {s : Session (Recorder ε)} {pending : List String} {line : String}
    (h : s.console.closed = false) (hp : s.phase ≠ .terminated)
    (hb : s.buffer = .holding .bracketsAndQuotes pending)
    (hk : s.config.exitKeywords.contains (trim line) = false)
    (hc : Closing.bracketsAndQuotes.closes (pending ++ [line]) = true) :
    ∃ t made, s.submit line = (.ok (), t) ∧
      s.Treats t [trim (gathered (pending ++ [line]))] made ∧
      t.buffer = .holding .bracketsAndQuotes [] ∧
      AfterUnit t (trim (gathered (pending ++ [line]))) made := by
  have hf := StatementBuffer.feed_holding_of_closed hc
  rw [← hb] at hf
  generalize trim (gathered (pending ++ [line])) = unit at hf ⊢
  by_cases hu : unit = ""
  · rw [if_pos hu] at hf
    refine ⟨_, [], submit_of_blank hk hf, ?_, rfl, Or.inl ⟨hp, List.forall_mem_nil _⟩⟩
    rw [hu]
    exact ⟨rfl, rfl, (List.append_nil _).symm, rfl, rfl, rfl⟩
  · rw [if_neg hu] at hf
    obtain ⟨t, made, hd, ht, hbuffer, hafter⟩ :=
      dispatch_treats (s := { s with buffer := .holding .bracketsAndQuotes [] }) h hu
    exact ⟨t, made, (submit_of_complete hk hf).trans hd, ht.congr_left rfl rfl rfl rfl, hbuffer,
      hafter⟩

/-- The run from any point on: lines may be pending already. -/
theorem runEvents_treats {s : Session (Recorder ε)} {pending : List String}
    {events : List ReadEvent} (history : History) (prompts : List String)
    (h : s.console.closed = false) (hp : s.phase ≠ .terminated)
    (hb : s.buffer = .holding .bracketsAndQuotes pending) (hn : ∀ cause, .failed cause ∉ events) :
    (s.runEvents history prompts events).2.1.phase = .terminated ∧
    ∃ treated left made reads,
      ReadEvent.cuts s.config.exitKeywords pending events = treated ++ left ∧
      s.Treats (s.runEvents history prompts events).2.1 (treated.map (·.unit)) made ∧
      (s.runEvents history prompts events).2.2.prompts.length = prompts.length + reads ∧
      RunEnd s.config.exitKeywords events treated left made reads
        (s.runEvents history prompts events).2.2.upcoming := by
  induction events generalizing s pending history prompts with
  | nil =>
    rw [runEvents_nil hp (write_of_open h _)]
    exact ⟨rfl, [], [], [], 1, rfl, .nil rfl rfl rfl rfl, List.length_append,
      .endOfInput (List.forall_mem_nil _) (List.forall_mem_nil _)⟩
  | cons event rest ih =>
    have hr : ∀ cause, .failed cause ∉ rest := fun cause hm => hn cause (List.mem_cons_of_mem _ hm)
    have hlength {reads n : Nat} (hlen : n = (prompts ++ [s.prompt]).length + reads) :
        n = prompts.length + (reads + 1) := by
      rw [hlen, List.length_append, List.length_singleton]
      omega
    cases event with
    | failed cause => exact absurd List.mem_cons_self (hn cause)
    | interrupted =>
      have hc : s.buffer.clear = .holding .bracketsAndQuotes [] := by rw [hb]; rfl
      rw [runEvents_interrupted hp]
      obtain ⟨hend, treated, left, made, reads, hcut, ht, hlen, hrun⟩ :=
        ih (s := { s with buffer := s.buffer.clear, phase := .single }) history
          (prompts ++ [s.prompt]) h nofun hc hr
      exact ⟨hend, treated, left, made, reads + 1, hcut, ht.congr_left rfl rfl rfl rfl,
        hlength hlen, hrun.skip rfl⟩
    | line text =>
      cases hk : s.config.exitKeywords.contains (trim text) with
      | true =>
        rw [runEvents_line hp (submit_of_keyword hk), runEvents_of_terminated rfl]
        have hrun : RunEnd s.config.exitKeywords (.line text :: rest) [] [] [] 1 rest :=
          .keyword (List.nil_append _).symm hk (List.forall_mem_nil _) (List.forall_mem_nil _)
        exact ⟨rfl, [], [], [], 1, ReadEvent.cuts_of_exit hk, .nil rfl rfl rfl rfl,
          List.length_append, hrun⟩
      | false =>
        have hstay : (ReadEvent.line text).isExit s.config.exitKeywords = false := hk
        cases hc : Closing.bracketsAndQuotes.closes (pending ++ [text]) with
        | false =>
          have hf := StatementBuffer.feed_holding_of_open hc
          rw [← hb] at hf
          rw [runEvents_line hp (submit_of_incomplete hk hf), ReadEvent.cuts_of_open hk hc]
          generalize (if isBlank text then history else history.add text) = history
          obtain ⟨hend, treated, left, made, reads, hcut, ht, hlen, hrun⟩ :=
            ih (s := { s with
              buffer := .holding .bracketsAndQuotes (pending ++ [text])
              phase := .continuation }) history (prompts ++ [s.prompt]) h nofun rfl hr
          exact ⟨hend, treated, left, made, reads + 1, hcut, ht.congr_left rfl rfl rfl rfl,
            hlength hlen, hrun.skip hstay⟩
        | true =>
          obtain ⟨t, made, hs, ht, hbuffer, hafter⟩ := submit_treats h hp hb hk hc
          rw [runEvents_line hp hs, ReadEvent.cuts_of_closed hk hc]
          generalize trim (gathered (pending ++ [text])) = unit at ht hafter
          generalize (if isBlank text then history else history.add text) = history
          rcases hafter with ⟨hphase, halive⟩ | ⟨hphase, hcode, call, hmade, hgone⟩
          · obtain ⟨hend, treated, left, more, reads, hcut, hu, hlen, hrun⟩ :=
              ih history (prompts ++ [s.prompt]) (ht.console.trans h) hphase hbuffer hr
            rw [ht.config] at hcut hrun
            refine ⟨hend, ⟨unit, rest⟩ :: treated, left, made ++ more, reads + 1, ?_,
              ht.cons hu, hlength hlen, hrun.cons hstay [⟨unit, rest⟩] halive⟩
            rw [hcut]
            rfl
          · rw [runEvents_of_terminated hphase]
            have hrun : RunEnd s.config.exitKeywords (.line text :: rest) ([] ++ [⟨unit, rest⟩])
                (ReadEvent.cuts s.config.exitKeywords [] rest) ([] ++ [call]) 1 rest :=
              .disconnected hcode hgone (List.forall_mem_nil _) (Nat.add_comm 1 _)
            rw [hmade] at ht
            exact ⟨hphase, [⟨unit, rest⟩], _, [call], 1, rfl, ht, List.length_append, hrun⟩

/-- A new session has nothing pending, and its evaluator has not been asked to run anything. -/
theorem start_treats (evaluator : ε) (config : SessionConfig) :
    let s := start ({ evaluator } : Recorder ε) config
    s.config = config ∧ s.console.closed = false ∧ s.phase = .single ∧
      s.buffer = .holding .bracketsAndQuotes [] ∧ s.memory.aliases = ∅ ∧ s.memory.tracker = {} ∧
      s.evaluator.calls = [] := by
  intro s
  have hr := retains_refreshSymbols
    ({ evaluator := ({ evaluator } : Recorder ε), config } : Session (Recorder ε))
  exact ⟨hr.config, congrArg Console.closed hr.console, hr.phase, hr.buffer, hr.aliases, hr.tracker,
    refreshSymbols_calls _⟩

/-- A run treats a first part of the units that its reads form, in order, and ends as `RunEnd` says.
Each unit with code in it is one call, under the imports of the units up to and including it; the
others are none. Beyond the imports and the variables of these units nothing is remembered. -/
theorem run_dispatches (evaluator : ε) (config : SessionConfig) (events : List ReadEvent)
    (history : History) (prompts : List String) (hn : ∀ cause, .failed cause ∉ events) :
    let r := (start ({ evaluator } : Recorder ε) config).run ⟨events, history, prompts⟩
    r.1 = .ok () ∧ r.2.1.phase = .terminated ∧
    ∃ treated left reads,
      ReadEvent.cuts config.exitKeywords [] events = treated ++ left ∧
      r.2.1.evaluator.calls.map (·.code) =
        ((∅ : AliasTable).resolveAll (treated.map (·.unit))).map wrapExpression ∧
      r.2.1.memory.aliases = (∅ : AliasTable).observeAll (treated.map (·.unit)) ∧
      r.2.1.memory.tracker =
        Tracker.trackAll {} ((∅ : AliasTable).resolveAll (treated.map (·.unit))) ∧
      r.2.2.prompts.length = prompts.length + reads ∧
      RunEnd config.exitKeywords events treated left r.2.1.evaluator.calls reads
        r.2.2.upcoming := by
  intro r
  obtain ⟨hconfig, hopen, hphase, hbuffer, halias, htracker, hcalls⟩ :=
    start_treats evaluator config
  have hp : (start ({ evaluator } : Recorder ε) config).phase ≠ .terminated := by
    rw [hphase]
    exact nofun
  have hok : r.1 = .ok () := runEvents_of_open hopen history prompts hn
  obtain ⟨hend, treated, left, made, reads, hcut, ht, hlen, hrun⟩ :=
    runEvents_treats history prompts hopen hp hbuffer hn
  rw [hconfig] at hcut hrun
  have hmade : r.2.1.evaluator.calls = made := by
    rw [← List.nil_append made, ← hcalls]
    exact ht.calls
  have hcodes := ht.codes
  have haliases := ht.aliases
  have htracked := ht.tracker
  rw [halias] at hcodes haliases htracked
  rw [htracker] at htracked
  refine ⟨hok, hend, treated, left, reads, hcut, ?_, haliases, htracked, hlen, ?_⟩
  · rw [hmade]
    exact hcodes
  · rw [hmade]
    exact hrun

/-- An interrupted unit, an import, a unit that uses it, and a stop in the middle of a fourth: only
the third is run. -/
theorem run_dispatches_across_interrupt :
    let events : List ReadEvent := [.line "f(", .interrupted, .line "use A\\B;", .line "new B(",
      .line ");", .line "g(", .line " quit "]
    let r := (start ({ evaluator := {} } : Recorder Script) {}).run ⟨events, {}, []⟩
    (∀ cause, .failed cause ∉ events) ∧
    r.2.1.evaluator.calls.map (·.code) = ["new A\\B(\n);"] ∧
    r.1 = .ok () ∧ r.2.1.phase = .terminated ∧
    ∃ treated left reads,
      ReadEvent.cuts ["exit", "quit"] [] events = treated ++ left ∧
      r.2.1.evaluator.calls.map (·.code) =
        ((∅ : AliasTable).resolveAll (treated.map (·.unit))).map wrapExpression ∧
      r.2.1.memory.aliases = (∅ : AliasTable).observeAll (treated.map (·.unit)) ∧
      r.2.1.memory.tracker =
        Tracker.trackAll {} ((∅ : AliasTable).resolveAll (treated.map (·.unit))) ∧
      r.2.2.prompts.length = 0 + reads ∧
      RunEnd ["exit", "quit"] events treated left r.2.1.evaluator.calls reads
        r.2.2.upcoming := by
  intro events r
  have hn : ∀ cause, .failed cause ∉ events := by
    intro cause h
    simp only [events, List.mem_cons, List.not_mem_nil, reduceCtorEq, or_self] at h
  have hcalls : r.2.1.evaluator.calls.map (·.code) = ["new A\\B(\n);"] := by decide +kernel
  exact ⟨hn, hcalls, run_dispatches ({} : Script) {} events {} [] hn⟩

end Session

end ScriptShell

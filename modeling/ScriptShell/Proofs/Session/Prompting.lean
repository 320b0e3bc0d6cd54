import ScriptShell.Proofs.Session.Course
import ScriptShell.Proofs.Session.Recovery
import ScriptShell.Proofs.Statement.Closure

/-!
What a session asks for. Between two operations its phase, its buffer and so its prompt say the same
about the pending lines, whatever has been done before: a line is asked for with the continuation
prompt exactly when something is left open.
-/

namespace ScriptShell

/-- The lines that are pending after one more. -/
def Closing.pendingAfter (mode : Closing) (pending : List String) (line : String) : List String :=
  if mode.closes (pending ++ [line]) then [] else pending ++ [line]

/-- The lines pending at each read, when some are pending at the first: an interrupt drops them, and
the end of input, a read that fails or an exit line is the last one. -/
def ReadEvent.pendings (keywords : List String) : List String → List ReadEvent → List (List String)
  | pending, [] => [pending]
  | pending, .interrupted :: rest => pending :: pendings keywords [] rest
  | pending, .failed _ :: _ => [pending]
  | pending, .line text :: rest =>
    if keywords.contains (trim text) then [pending]
    else pending :: pendings keywords (Closing.bracketsAndQuotes.pendingAfter pending text) rest

/-- The prompt over these lines: another one where they leave something open. -/
def SessionConfig.promptOver (config : SessionConfig) (pending : List String) : String :=
  if Closing.bracketsAndQuotes.LeavesOpen (gathered pending) then config.continuationPrompt
  else config.prompt

namespace Closing.Unclosed

variable {mode : Closing} {pending : List String}

theorem pendingAfter (h : mode.Unclosed pending) (line : String) :
    mode.Unclosed (mode.pendingAfter pending line) := by
  unfold Closing.pendingAfter
  cases hc : mode.closes (pending ++ [line]) with
  | true => exact .nil
  | false => exact h.concat ((mode.closes_eq_false_iff _).mp hc)

theorem leavesOpen_iff (h : mode.Unclosed pending) :
    mode.LeavesOpen (gathered pending) ↔ pending ≠ [] := by
  constructor
  · intro hopen hnil
    rw [hnil] at hopen
    exact hopen.trim_ne_empty rfl
  · exact h.eq_nil_or.resolve_left

end Closing.Unclosed

theorem ReadEvent.unclosed_of_mem_pendings {keywords pending : List String}
    (h : Closing.bracketsAndQuotes.Unclosed pending) {events : List ReadEvent}
    {texts : List String} (hm : texts ∈ pendings keywords pending events) :
    Closing.bracketsAndQuotes.Unclosed texts := by
  induction events generalizing pending with
  | nil =>
    rw [List.mem_singleton.mp hm]
    exact h
  | cons event rest ih =>
    cases event with
    | failed cause =>
      rw [List.mem_singleton.mp hm]
      exact h
    | interrupted =>
      rcases List.mem_cons.mp hm with heq | hm
      · rw [heq]
        exact h
      · exact ih .nil hm
    | line text =>
      rw [pendings] at hm
      split at hm
      · rw [List.mem_singleton.mp hm]
        exact h
      · rcases List.mem_cons.mp hm with heq | hm
        · rw [heq]
          exact h
        · exact ih (h.pendingAfter text) hm

namespace Session

variable {ε : Type}

/-- The phase of a session that waits for a line with these ones pending. -/
def phaseOver (pending : List String) : Phase := if pending = [] then .single else .continuation

/-- The pending lines of a session, all of them unclosed; unless it has ended, its phase tells of
them. -/
structure Pends (s : Session ε) (config : SessionConfig) (pending : List String) : Prop where
  config : s.config = config
  isOpen : s.console.closed = false
  buffer : s.buffer = .holding .bracketsAndQuotes pending
  unclosed : Closing.bracketsAndQuotes.Unclosed pending
  phase : s.phase = .terminated ∨ s.phase = phaseOver pending

namespace Pends

variable {s t : Session ε} {config : SessionConfig} {pending : List String}

theorem congr (h : s.Pends config pending) (hconfig : t.config = s.config)
    (hopen : t.console.closed = s.console.closed) (hbuffer : t.buffer = s.buffer)
    (hphase : t.phase = s.phase) : t.Pends config pending where
  config := hconfig.trans h.config
  isOpen := hopen.trans h.isOpen
  buffer := hbuffer.trans h.buffer
  unclosed := h.unclosed
  phase := by rw [hphase]; exact h.phase

theorem cleared (h : s.Pends config pending) (hconfig : t.config = s.config)
    (hopen : t.console.closed = s.console.closed) (hbuffer : t.buffer = s.buffer.clear)
    (hphase : t.phase = .terminated ∨ t.phase = .single) : t.Pends config [] where
  config := hconfig.trans h.config
  isOpen := hopen.trans h.isOpen
  buffer := by rw [hbuffer, h.buffer]; rfl
  unclosed := .nil
  phase := hphase

theorem terminate (h : s.Pends config pending) : s.terminate.Pends config [] :=
  h.cleared rfl rfl rfl (Or.inl rfl)

/-- The prompt of a session is the one over its pending lines. -/
theorem prompt_eq (h : s.Pends config pending) (hp : s.phase ≠ .terminated) :
    s.prompt = config.promptOver pending := by
  have hphase := h.phase.resolve_left hp
  unfold prompt SessionConfig.promptOver
  rw [hphase, h.config, phaseOver]
  by_cases hnil : pending = []
  · have hclosed : ¬Closing.bracketsAndQuotes.LeavesOpen (gathered pending) :=
      fun hopen => h.unclosed.leavesOpen_iff.mp hopen hnil
    rw [if_pos hnil, if_neg hclosed]
    exact if_neg nofun
  · rw [if_neg hnil, if_pos (h.unclosed.leavesOpen_iff.mpr hnil)]
    exact if_pos rfl

theorem phase_ne_executing (h : s.Pends config pending) : s.phase ≠ .executing := by
  intro he
  rcases h.phase with hp | hp
  · exact absurd (he.symm.trans hp) nofun
  · rw [he, phaseOver] at hp
    split at hp
    · exact absurd hp nofun
    · exact absurd hp nofun

theorem single (h : s.Pends config pending) (hp : s.phase = .single) : pending = [] := by
  rcases h.phase with hend | hwait
  · exact absurd (hp.symm.trans hend) nofun
  · by_cases hnil : pending = []
    · exact hnil
    · rw [hp, phaseOver, if_neg hnil] at hwait
      exact absurd hwait nofun

theorem continuation (h : s.Pends config pending) (hp : s.phase = .continuation) : pending ≠ [] := by
  rcases h.phase with hend | hwait
  · exact absurd (hp.symm.trans hend) nofun
  · intro hnil
    rw [hp, phaseOver, if_pos hnil] at hwait
    exact absurd hwait nofun

end Pends

variable [Evaluator ε] {s : Session ε} {config : SessionConfig} {pending : List String}

/-- A line leaves the lines pending that it should, and is waited for accordingly. The buffer is
emptied before a unit is run, so nothing is pending if that fails. -/
theorem Pends.submit (h : s.Pends config pending) (line : String) :
    ∃ t, s.submit line = (.ok (), t) ∧
      if config.exitKeywords.contains (trim line) then t.phase = .terminated ∧ t.Pends config []
      else t.Pends config (Closing.bracketsAndQuotes.pendingAfter pending line) ∧
        (t.phase = .continuation ↔ Closing.bracketsAndQuotes.pendingAfter pending line ≠ []) := by
  have hunclosed := h.unclosed.pendingAfter line
  rw [← h.config]
  cases hk : s.config.exitKeywords.contains (trim line) with
  | true => exact ⟨_, submit_of_keyword hk, rfl, h.config.symm ▸ h.terminate⟩
  | false =>
    simp only [Bool.false_eq_true, if_false]
    unfold Closing.pendingAfter at hunclosed ⊢
    cases hc : Closing.bracketsAndQuotes.closes (pending ++ [line]) with
    | false =>
      have hne : pending ++ [line] ≠ [] :=
        List.append_ne_nil_of_right_ne_nil pending (List.cons_ne_nil line [])
      have hfeed := StatementBuffer.feed_holding_of_open hc
      rw [← h.buffer] at hfeed
      rw [hc] at hunclosed
      have hphase : Phase.continuation = phaseOver (pending ++ [line]) := (if_neg hne).symm
      exact ⟨_, submit_of_incomplete hk hfeed, ⟨rfl, h.isOpen, rfl, hunclosed, Or.inr hphase⟩,
        fun _ => hne, fun _ => rfl⟩
    | true =>
      have hfeed := StatementBuffer.feed_holding_of_closed hc
      rw [← h.buffer] at hfeed
      rw [if_pos rfl]
      by_cases hb : trim (gathered (pending ++ [line])) = ""
      · have hnil := h.unclosed.eq_nil_of_blank hb
        rw [if_pos hb] at hfeed
        have hphase := h.phase
        rw [hnil] at hphase
        refine ⟨_, submit_of_blank hk hfeed, ⟨rfl, h.isOpen, rfl, .nil, hphase⟩, fun hp => ?_,
          fun hne => absurd rfl hne⟩
        exact absurd hnil (h.continuation hp)
      · rw [if_neg hb] at hfeed
        obtain ⟨t, hd, hconfig, hopen, hbuffer, hphase⟩ := dispatch_of_open
          (s := { s with buffer := .holding .bracketsAndQuotes [] }) h.isOpen
          (trim (gathered (pending ++ [line])))
        refine ⟨t, (submit_of_complete hk hfeed).trans hd,
          ⟨hconfig, hopen.trans h.isOpen, hbuffer, .nil, hphase⟩, fun hp => ?_,
          fun hne => absurd rfl hne⟩
        rcases hphase with hend | hsingle
        · exact absurd (hp.symm.trans hend) nofun
        · exact absurd (hp.symm.trans hsingle) nofun

/-- Each read of a run is given the prompt over the lines that are pending then, and there are as
many reads as lines allow unless the session ends before. The end of input is read too; what is
pending then stays in the buffer. -/
theorem Pends.runEvents (h : s.Pends config pending) (hp : s.phase ≠ .terminated)
    (history : History) (prompts : List String) (events : List ReadEvent) :
    let r := s.runEvents history prompts events
    (∃ after, r.2.1.Pends config after) ∧
    ∃ given unread, ReadEvent.pendings config.exitKeywords pending events = given ++ unread ∧
      given ≠ [] ∧ r.2.2.prompts = prompts ++ given.map config.promptOver ∧
      (unread ≠ [] → r.2.1.phase = .terminated) := by
  have hprompt := h.prompt_eq hp
  induction events generalizing s pending history prompts with
  | nil =>
    intro r
    have hr : r = _ := runEvents_nil hp (write_of_open h.isOpen "\n") history prompts
    rw [hr, hprompt]
    refine ⟨⟨pending, h.config, h.isOpen, h.buffer, h.unclosed, Or.inl rfl⟩, [pending], [], rfl,
      List.cons_ne_nil _ _, rfl, fun hne => absurd rfl hne⟩
  | cons event rest ih =>
    have hmore {t : Session ε} {after : List String} (ht : t.Pends config after)
        (history : History) : let r := t.runEvents history (prompts ++ [s.prompt]) rest
        (∃ after, r.2.1.Pends config after) ∧
        ∃ given unread, pending :: ReadEvent.pendings config.exitKeywords after rest =
            given ++ unread ∧
          given ≠ [] ∧ r.2.2.prompts = prompts ++ given.map config.promptOver ∧
          (unread ≠ [] → r.2.1.phase = .terminated) := by
      intro r
      by_cases hend : t.phase = .terminated
      · have hr : r = _ := runEvents_of_terminated hend history (prompts ++ [s.prompt]) rest
        rw [hr, hprompt]
        exact ⟨⟨after, ht⟩, [pending], _, rfl, List.cons_ne_nil _ _, rfl, fun _ => hend⟩
      · obtain ⟨hafter, given, unread, hpendings, -, hgiven, hunread⟩ :=
          ih ht hend history (prompts ++ [s.prompt]) (ht.prompt_eq hend)
        refine ⟨hafter, pending :: given, unread, ?_, List.cons_ne_nil _ _, ?_, hunread⟩
        · rw [hpendings]
          rfl
        · rw [hgiven, hprompt, List.append_assoc]
          rfl
    intro r
    cases event with
    | interrupted =>
      have hr : r = _ := runEvents_interrupted hp history prompts rest
      rw [hr]
      have hcleared : ({ s with buffer := s.buffer.clear, phase := .single } : Session ε).Pends
          config [] := h.cleared rfl rfl rfl (Or.inr rfl)
      exact hmore hcleared history
    | failed cause =>
      have hr : r = _ := runEvents_failed hp history prompts cause rest
      rw [hr, hprompt]
      exact ⟨⟨pending, h⟩, [pending], [], rfl, List.cons_ne_nil _ _, rfl, fun hne => absurd rfl hne⟩
    | line text =>
      obtain ⟨t, hs, ht⟩ := h.submit text
      have hr : r = _ := runEvents_line hp hs history prompts rest
      rw [hr, ReadEvent.pendings]
      by_cases hk : config.exitKeywords.contains (trim text) = true
      · rw [if_pos hk] at ht ⊢
        rw [runEvents_of_terminated ht.1, hprompt]
        exact ⟨⟨[], ht.2⟩, [pending], [], rfl, List.cons_ne_nil _ _, rfl,
          fun hne => absurd rfl hne⟩
      · rw [if_neg hk] at ht ⊢
        exact hmore ht.1 _

/-- A preload touches neither the buffer nor the phase, unless it ends the session. -/
theorem Pends.preload_dispatch (h : s.Pends config pending) (r : PreloadReport) (unit : String) :
    ∃ after, (Preload.dispatch s r unit).2.Pends config after := by
  rcases hs : s.observe unit with ⟨absorbed, t⟩
  have ht : t.Pends config pending := by
    rw [observe_eq] at hs
    obtain ⟨-, rfl⟩ := Prod.mk.inj hs
    exact h.congr rfl rfl rfl rfl
  cases absorbed with
  | true =>
    rw [Preload.dispatch_of_imports hs]
    exact ⟨pending, ht⟩
  | false =>
    rw [Preload.dispatch_of_code hs, prepare_eq]
    generalize t.memory.aliases.resolve unit = text
    generalize (t.memory.tracker.track text).2 = tracker
    let ready : Session ε := { t with memory := { t.memory with tracker } }
    have hr := retains_execute ready text
    have hdone : (ready.execute text).2.Pends config pending :=
      ht.congr hr.config (congrArg Console.closed hr.console) hr.buffer hr.phase
    obtain ⟨u, hu, hcon⟩ := preload_conclude_cases (ready.execute text).2 r (ready.execute text).1
    have hpends : u.Pends config pending := hdone.congr hu.config hu.closed hu.buffer hu.phase
    rcases hcon with hok | ⟨-, e, herror⟩
    · rw [hok]
      split
      · exact ⟨[], hpends.terminate⟩
      · exact ⟨pending, hpends⟩
    · rw [herror]
      exact ⟨pending, hpends⟩

/-- A preload keeps phase and pending lines together, whatever is in the buffer of its own. -/
theorem Pends.runLines (h : s.Pends config pending) (buffer : StatementBuffer) (r : PreloadReport)
    (texts : List String) : ∃ after, (Preload.runLines s buffer r texts).2.Pends config after := by
  induction texts generalizing s pending buffer r with
  | nil =>
    rw [Preload.runLines_nil]
    cases buffer.takeRemainder.1 with
    | some unit => exact h.preload_dispatch r unit
    | none => exact ⟨pending, h⟩
  | cons line rest ih =>
    rcases hf : buffer.feed line with ⟨answer, after⟩
    cases answer with
    | incomplete =>
      rw [Preload.runLines_of_incomplete hf]
      exact ih h after r
    | blank =>
      rw [Preload.runLines_of_blank hf]
      exact ih h after r
    | complete unit =>
      obtain ⟨left, ht⟩ := h.preload_dispatch r unit
      rw [Preload.runLines_of_complete hf]
      rcases hd : Preload.dispatch s r unit with ⟨result, t⟩
      rw [hd] at ht
      cases result with
      | error e => exact ⟨left, ht⟩
      | ok q =>
        rw [Preload.afterUnit_ok]
        split
        · exact ⟨left, ht⟩
        · exact ih ht after q

/-- Every operation keeps phase and pending lines together, as long as the console is open. -/
theorem Pends.perform (h : s.Pends config pending) {op : Operation}
    (hop : ∀ console, op = .redirect console → console.closed = false) :
    ∃ after, (s.perform op).Pends config after := by
  cases op with
  | submit line =>
    obtain ⟨t, hs, ht⟩ := h.submit line
    rw [Session.perform, hs]
    split at ht
    · exact ⟨[], ht.2⟩
    · exact ⟨_, ht.1⟩
  | run source =>
    by_cases hp : s.phase = .terminated
    · rw [Session.perform, run, runEvents_of_terminated hp]
      exact ⟨pending, h⟩
    · exact (h.runEvents hp source.history source.prompts source.upcoming).1
  | execute code =>
    have hr := retains_execute s code
    exact ⟨pending, h.congr hr.config (congrArg Console.closed hr.console) hr.buffer hr.phase⟩
  | preload source => exact h.runLines _ _ _
  | preloadFile path content =>
    cases content with
    | ok source => exact h.runLines _ _ _
    | error cause =>
      have hrun : (Preload.runFile s path (.error cause)).2 = s := by cases cause <;> rfl
      rw [Session.perform, hrun]
      exact ⟨pending, h⟩
  | observe unit =>
    rw [Session.perform, observe_eq]
    generalize (s.memory.aliases.observe unit).2 = aliases
    exact ⟨pending, h.congr rfl rfl rfl rfl⟩
  | prepare unit =>
    rw [Session.perform, prepare_eq]
    generalize s.memory.aliases.resolve unit = text
    exact ⟨pending, h.congr rfl rfl rfl rfl⟩
  | refresh =>
    have hr := retains_refreshSymbols s
    exact ⟨pending, h.congr hr.config (congrArg Console.closed hr.console) hr.buffer hr.phase⟩
  | report e =>
    have hw := write_of_open h.isOpen (reported s.config e)
    rw [Session.perform, report, hw]
    exact ⟨pending, h.congr rfl rfl rfl rfl⟩
  | terminate => exact ⟨[], h.terminate⟩
  | redirect console =>
    exact ⟨pending, h.config, hop console rfl, h.buffer, h.unclosed, h.phase⟩

theorem Pends.performAll (h : s.Pends config pending) {ops : List Operation}
    (hops : ∀ console, .redirect console ∈ ops → console.closed = false) :
    ∃ after, (s.performAll ops).Pends config after := by
  induction ops generalizing s pending with
  | nil => exact ⟨pending, h⟩
  | cons op ops ih =>
    have hop : ∀ console, op = .redirect console → console.closed = false := by
      intro console hop
      apply hops console
      rw [hop]
      exact List.mem_cons_self
    obtain ⟨after, hstep⟩ := h.perform hop
    exact ih hstep fun console hop => hops console (List.mem_cons_of_mem op hop)

theorem start_pends (evaluator : ε) (config : SessionConfig) :
    (start evaluator config).Pends config [] := by
  have hr := retains_refreshSymbols ({ evaluator, config } : Session ε)
  exact ⟨hr.config, congrArg Console.closed hr.console, hr.buffer, .nil, Or.inr hr.phase⟩

/-- Take a session after any operations, its console open all along. It is not in the middle of a
unit; nothing is pending where it waits for a new unit, and where it waits for the rest of one,
something is pending and open. So after a line it waits for more exactly when something is pending,
and a line that is passed over as blank cannot find it waiting for more. A run that it starts is
given, read by read, the continuation prompt where the pending lines leave something open, which is
where there are any, and the plain prompt elsewhere; reads are missing only once it has ended. -/
theorem prompts_follow_pending (evaluator : ε) (config : SessionConfig) {ops : List Operation}
    (hops : ∀ console, .redirect console ∈ ops → console.closed = false) :
    let s := (start evaluator config).performAll ops
    s.phase ≠ .executing ∧
    (s.phase = .single → s.buffer.isEmpty = true) ∧
    (s.phase = .continuation →
      s.buffer.isEmpty = false ∧ Closing.bracketsAndQuotes.LeavesOpen s.buffer.pending) ∧
    (∀ line, (s.submit line).2.phase = .continuation ↔
      (s.submit line).2.buffer.isEmpty = false) ∧
    (∀ line, (s.buffer.feed line).1 = .blank → s.phase ≠ .continuation) ∧
    (s.phase ≠ .terminated → ∃ pending, s.buffer = .holding .bracketsAndQuotes pending ∧
      ∀ source : LineSource, ∃ given unread,
        ReadEvent.pendings config.exitKeywords pending source.upcoming = given ++ unread ∧
        given ≠ [] ∧
        (∀ texts ∈ given, Closing.bracketsAndQuotes.LeavesOpen (gathered texts) ↔ texts ≠ []) ∧
        (s.run source).2.2.prompts = source.prompts ++ given.map config.promptOver ∧
        (unread ≠ [] → (s.run source).2.1.phase = .terminated)) := by
  intro s
  obtain ⟨pending, h⟩ := (start_pends evaluator config).performAll hops
  have hs : s.Pends config pending := h
  have hempty (texts : List String) :
      (StatementBuffer.holding .bracketsAndQuotes texts).isEmpty = false ↔ texts ≠ [] := by
    rw [← Bool.not_eq_true, StatementBuffer.isEmpty_holding]
  refine ⟨hs.phase_ne_executing, fun hp => ?_, fun hp => ?_, fun line => ?_, fun line hblank hp => ?_,
    fun hp => ⟨pending, hs.buffer, fun source => ?_⟩⟩
  · rw [hs.buffer, StatementBuffer.isEmpty_holding]
    exact hs.single hp
  · have hne := hs.continuation hp
    rw [hs.buffer]
    exact ⟨(hempty pending).mpr hne, hs.unclosed.leavesOpen_iff.mpr hne⟩
  · obtain ⟨t, hsubmit, ht⟩ := hs.submit line
    rw [hsubmit]
    split at ht
    · obtain ⟨hend, ht⟩ := ht
      rw [hend, ht.buffer, hempty]
      exact iff_of_false nofun fun hne => hne rfl
    · obtain ⟨ht, hcont⟩ := ht
      rw [ht.buffer, hempty]
      exact hcont
  · rw [hs.buffer, StatementBuffer.feed_eq_blank_iff hs.unclosed] at hblank
    exact hs.continuation hp hblank.1
  · obtain ⟨-, given, unread, hpendings, hne, hprompts, hunread⟩ :=
      hs.runEvents hp source.history source.prompts source.upcoming
    refine ⟨given, unread, hpendings, hne, fun texts hm => ?_, hprompts, hunread⟩
    have hmem : texts ∈ ReadEvent.pendings config.exitKeywords pending source.upcoming := by
      rw [hpendings]
      exact List.mem_append_left unread hm
    exact (ReadEvent.unclosed_of_mem_pendings hs.unclosed hmem).leavesOpen_iff

/-- The end of input leaves an open call behind, a submitted line goes on with it, and the run after
that closes it, passes over a blank line and gives up another call. -/
theorem prompts_follow_pending_resumed :
    let ops : List Operation :=
      [.run ⟨[.line "f(", .interrupted, .line "g("], {}, []⟩, .redirect {}, .submit "1"]
    let s := (start ({} : Script) {}).performAll ops
    let source : LineSource := ⟨[.line ");", .line " ", .line "h('", .interrupted], {}, []⟩
    (∀ console, .redirect console ∈ ops → console.closed = false) ∧
    s.phase = .continuation ∧
    (s.run source).2.2.prompts = ["php* ", "php> ", "php> ", "php* ", "php> "] ∧
    s.buffer.isEmpty = false ∧
    ∃ pending, s.buffer = .holding .bracketsAndQuotes pending ∧
      ∀ source : LineSource, ∃ given unread,
        ReadEvent.pendings ["exit", "quit"] pending source.upcoming = given ++ unread ∧
        given ≠ [] ∧
        (∀ texts ∈ given, Closing.bracketsAndQuotes.LeavesOpen (gathered texts) ↔ texts ≠ []) ∧
        (s.run source).2.2.prompts =
          source.prompts ++ given.map ({} : SessionConfig).promptOver ∧
        (unread ≠ [] → (s.run source).2.1.phase = .terminated) := by
  intro ops s source
  have hops : ∀ console, .redirect console ∈ ops → console.closed = false := by
    intro console hm
    simp only [ops, List.mem_cons, List.not_mem_nil, reduceCtorEq, false_or, or_false,
      Operation.redirect.injEq] at hm
    rw [hm]
  have hphase : s.phase = .continuation := by decide +kernel
  have halive : s.phase ≠ .terminated := by
    rw [hphase]
    exact nofun
  obtain ⟨-, -, hopen, -, -, hrun⟩ := prompts_follow_pending ({} : Script) {} hops
  refine ⟨hops, hphase, ?_, (hopen hphase).1, hrun halive⟩
  decide +kernel

end Session

end ScriptShell

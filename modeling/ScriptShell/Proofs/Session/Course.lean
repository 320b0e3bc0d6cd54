import ScriptShell.Proofs.Session.Steps

/-!
What a session does, seen from its memory and its evaluator: it observes units, prepares them,
executes code and asks for symbols. Every operation takes its course by such deeds; whatever else it
changes (buffer, phase, console, warnings) concerns neither memory nor evaluator.
-/

namespace ScriptShell

/-- What can be asked of a session from outside. -/
inductive Operation where
  | submit (line : String)
  | run (source : LineSource)
  | execute (code : String)
  | preload (source : String)
  /-- A preload file, given what reading it came to. -/
  | preloadFile (path : String) (content : Except IoError String)
  | observe (unit : String)
  | prepare (unit : String)
  | refresh
  | report (e : EvalError)
  | terminate
  /-- Write somewhere else from now on. -/
  | redirect (console : Console)

/-- A step that touches the memory or the evaluator. -/
inductive Deed where
  | observe (unit : String)
  | prepare (unit : String)
  | execute (code : String)
  | refresh

namespace Session

variable {ε : Type} [Evaluator ε]

/-- The session after an operation, whether that succeeded or not. -/
def perform (s : Session ε) : Operation → Session ε
  | .submit line => (s.submit line).2
  | .run source => (s.run source).2.1
  | .execute code => (s.execute code).2
  | .preload source => (Preload.runSource s source).2
  | .preloadFile path content => (Preload.runFile s path content).2
  | .observe unit => (s.observe unit).2
  | .prepare unit => (s.prepare unit).2
  | .refresh => s.refreshSymbols
  | .report e => (s.report e).2
  | .terminate => s.terminate
  | .redirect console => { s with console }

def performAll (s : Session ε) (ops : List Operation) : Session ε := ops.foldl perform s

def act (s : Session ε) : Deed → Session ε
  | .observe unit => (s.observe unit).2
  | .prepare unit => (s.prepare unit).2
  | .execute code => (s.execute code).2
  | .refresh => s.refreshSymbols

/-- From `s` to `t` by these deeds, in this order, and by changes that leave memory and evaluator
alone. -/
inductive Course : Session ε → List Deed → Session ε → Prop
  | aside {s t : Session ε} (he : t.evaluator = s.evaluator) (hm : t.memory = s.memory) :
    Course s [] t
  | deed (s : Session ε) (d : Deed) : Course s [d] (s.act d)
  | append {s t u : Session ε} {ds es : List Deed} (first : Course s ds t)
      (second : Course t es u) : Course s (ds ++ es) u

/-- A course on which symbols are asked for only as part of an execution. -/
def Follows (s t : Session ε) : Prop := ∃ ds, Course s ds t ∧ .refresh ∉ ds

theorem follows_aside {s t : Session ε} (he : t.evaluator = s.evaluator)
    (hm : t.memory = s.memory) : s.Follows t :=
  ⟨[], .aside he hm, List.not_mem_nil⟩

theorem follows_act (s : Session ε) {d : Deed} (hd : d ≠ .refresh) : s.Follows (s.act d) :=
  ⟨[d], .deed s d, fun h => hd (List.mem_singleton.mp h).symm⟩

theorem Follows.trans {s t u : Session ε} (h : s.Follows t) (h' : t.Follows u) : s.Follows u := by
  obtain ⟨ds, hc, hn⟩ := h
  obtain ⟨es, hc', hn'⟩ := h'
  refine ⟨ds ++ es, .append hc hc', fun hm => ?_⟩
  rcases List.mem_append.mp hm with hm | hm
  · exact hn hm
  · exact hn' hm

theorem follows_write (s : Session ε) (text : String) : s.Follows (s.write text).2 := by
  obtain ⟨t, ht, hw | ⟨-, e, hw⟩⟩ := write_cases s text
  · rw [hw]
    exact follows_aside ht.evaluator ht.memory
  · rw [hw]
    exact follows_aside ht.evaluator ht.memory

/-- Showing what became of a unit touches neither memory nor evaluator. -/
theorem follows_announce (s : Session ε) (text : String) (next : Phase) :
    s.Follows (s.announce text next).2 := by
  have hw := follows_write s text
  unfold announce
  split
  · next t heq =>
    rw [heq] at hw
    exact hw.trans (follows_aside rfl rfl)
  · exact hw

theorem follows_conclude (s : Session ε) (outcome : Except EvalError Evaluation) :
    s.Follows (s.conclude outcome).2 := by
  rw [conclude_eq_announce]
  exact follows_announce s _ _

theorem follows_observe (s : Session ε) (unit : String) : s.Follows (s.observe unit).2 :=
  follows_act s (d := .observe unit) nofun

theorem follows_prepare (s : Session ε) (unit : String) : s.Follows (s.prepare unit).2 :=
  follows_act s (d := .prepare unit) nofun

theorem follows_execute (s : Session ε) (code : String) : s.Follows (s.execute code).2 :=
  follows_act s (d := .execute code) nofun

theorem follows_executing (s : Session ε) : s.Follows s.executing := follows_aside rfl rfl

theorem follows_dispatch (s : Session ε) (unit : String) : s.Follows (s.dispatch unit).2 := by
  have ho := follows_observe s unit
  rcases hs : s.observe unit with ⟨absorbed, t⟩
  rw [hs] at ho
  cases absorbed with
  | true =>
    rw [dispatch_of_imports hs]
    exact ho.trans (follows_aside rfl rfl)
  | false =>
    have hq := (follows_prepare t unit).trans (follows_executing (t.prepare unit).2)
    rw [dispatch_of_code hs]
    exact ho.trans (hq.trans ((follows_execute _ _).trans (follows_conclude _ _)))

theorem follows_submit (s : Session ε) (line : String) : s.Follows (s.submit line).2 := by
  unfold submit
  split
  · exact follows_aside rfl rfl
  · split
    · exact follows_aside rfl rfl
    · exact follows_aside rfl rfl
    · next unit buffer _ =>
      have hb : s.Follows { s with buffer } := follows_aside rfl rfl
      exact hb.trans (follows_dispatch _ unit)

theorem follows_runEvents (s : Session ε) (history : History) (prompts : List String)
    (events : List ReadEvent) : s.Follows (s.runEvents history prompts events).2.1 := by
  induction events generalizing s history prompts with
  | nil =>
    by_cases h : s.phase = .terminated
    · rw [runEvents_of_terminated h]
      exact follows_aside rfl rfl
    · have hw := follows_write s "\n"
      rw [runEvents, if_neg h]
      split
      · next t heq =>
        rw [heq] at hw
        exact hw.trans (follows_aside rfl rfl)
      · next e t heq =>
        rw [heq] at hw
        exact hw
  | cons event rest ih =>
    by_cases h : s.phase = .terminated
    · rw [runEvents_of_terminated h]
      exact follows_aside rfl rfl
    cases event with
    | line text =>
      have hs := follows_submit s text
      rcases hr : s.submit text with ⟨result, t⟩
      rw [hr] at hs
      cases result with
      | ok _ =>
        rw [runEvents_line h hr]
        exact hs.trans (ih t _ _)
      | error e =>
        rw [runEvents_line_error h hr]
        exact hs
    | interrupted =>
      have hc : s.Follows { s with buffer := s.buffer.clear, phase := .single } :=
        follows_aside rfl rfl
      rw [runEvents_interrupted h]
      exact hc.trans (ih _ _ _)
    | failed cause =>
      rw [runEvents_failed h]
      exact follows_aside rfl rfl

theorem follows_preload_conclude (s : Session ε) (r : PreloadReport)
    (outcome : Except EvalError Evaluation) : s.Follows (Preload.conclude s r outcome).2 := by
  obtain ⟨t, ht, hok | ⟨-, e, herror⟩⟩ := preload_conclude_cases s r outcome
  · rw [hok]
    split
    · exact follows_aside ht.evaluator ht.memory
    · exact follows_aside ht.evaluator ht.memory
  · rw [herror]
    exact follows_aside ht.evaluator ht.memory

theorem follows_preload_dispatch (s : Session ε) (r : PreloadReport) (unit : String) :
    s.Follows (Preload.dispatch s r unit).2 := by
  have ho := follows_observe s unit
  rcases hs : s.observe unit with ⟨absorbed, t⟩
  rw [hs] at ho
  cases absorbed with
  | true =>
    rw [Preload.dispatch_of_imports hs]
    exact ho
  | false =>
    rw [Preload.dispatch_of_code hs]
    exact ho.trans ((follows_prepare t unit).trans
      ((follows_execute _ _).trans (follows_preload_conclude _ _ _)))

theorem follows_runLines (s : Session ε) (buffer : StatementBuffer) (r : PreloadReport)
    (texts : List String) : s.Follows (Preload.runLines s buffer r texts).2 := by
  induction texts generalizing s buffer r with
  | nil =>
    rw [Preload.runLines_nil]
    cases buffer.takeRemainder.1 with
    | some unit => exact follows_preload_dispatch s r unit
    | none => exact follows_aside rfl rfl
  | cons text rest ih =>
    rcases hf : buffer.feed text with ⟨answer, after⟩
    cases answer with
    | complete unit =>
      have hs := follows_preload_dispatch s r unit
      rw [Preload.runLines_of_complete hf]
      rcases hd : Preload.dispatch s r unit with ⟨result, t⟩
      rw [hd] at hs
      cases result with
      | ok q =>
        rw [Preload.afterUnit_ok]
        split
        · exact hs
        · exact hs.trans (ih t after q)
      | error e => exact hs
    | incomplete =>
      rw [Preload.runLines_of_incomplete hf]
      exact ih s after r
    | blank =>
      rw [Preload.runLines_of_blank hf]
      exact ih s after r

/-- Every operation takes a course of deeds, and only `refresh` itself asks for symbols by the
way. -/
theorem course_perform (s : Session ε) (op : Operation) :
    ∃ ds, Course s ds (s.perform op) ∧ (.refresh ∈ ds → op = .refresh) := by
  have hf (h : s.Follows (s.perform op)) :
      ∃ ds, Course s ds (s.perform op) ∧ (.refresh ∈ ds → op = .refresh) := by
    obtain ⟨ds, hc, hn⟩ := h
    exact ⟨ds, hc, fun hm => absurd hm hn⟩
  cases op with
  | submit line => exact hf (follows_submit s line)
  | run source => exact hf (follows_runEvents s _ _ _)
  | execute code => exact hf (follows_execute s code)
  | preload source => exact hf (follows_runLines s _ _ _)
  | preloadFile path content =>
    cases content with
    | ok source => exact hf (follows_runLines s _ _ _)
    | error cause => cases cause <;> exact hf (follows_aside rfl rfl)
  | observe unit => exact hf (follows_observe s unit)
  | prepare unit => exact hf (follows_prepare s unit)
  | refresh => exact ⟨[.refresh], .deed s .refresh, fun _ => rfl⟩
  | report e => exact hf (follows_write s _)
  | terminate => exact hf (follows_aside rfl rfl)
  | redirect console => exact hf (follows_aside rfl rfl)

/-- So does every sequence of operations. -/
theorem course_performAll (s : Session ε) (ops : List Operation) :
    ∃ ds, Course s ds (s.performAll ops) ∧ (.refresh ∈ ds → .refresh ∈ ops) := by
  induction ops generalizing s with
  | nil => exact ⟨[], .aside rfl rfl, fun h => absurd h List.not_mem_nil⟩
  | cons op ops ih =>
    obtain ⟨ds, hc, hd⟩ := course_perform s op
    obtain ⟨es, hc', he⟩ := ih (s.perform op)
    refine ⟨ds ++ es, .append hc hc', fun hm => ?_⟩
    rcases List.mem_append.mp hm with hm | hm
    · exact hd hm ▸ List.mem_cons_self
    · exact List.mem_cons_of_mem op (he hm)

end Session

end ScriptShell

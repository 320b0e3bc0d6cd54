import ScriptShell.Proofs.NameMap
import ScriptShell.Proofs.Session.Course

/-!
Which bindings reach the evaluator. Everything a session holds of its evaluator (context, objects,
symbols) can be read off the answers it got: the last evaluation that succeeded and the last listing
that did. A failed evaluation counts for nothing, and nothing is asked because of it.
-/

namespace ScriptShell

/-- A question put to an evaluator and its answer. -/
inductive Exchange where
  | evaluated (call : EvaluatorCall)
  | listed (answer : Except EvalError Symbols)

namespace Exchange

/-- What is asked to run code, by the outcome: the code is evaluated once, and after a success the
symbols are listed once. -/
inductive Asks (code : String) (given : Bindings) :
    Except EvalError Evaluation → List Exchange → Prop
  | failed (e : EvalError) : Asks code given (.error e) [.evaluated ⟨code, given, .error e⟩]
  | succeeded (evaluation : Evaluation) (answer : Except EvalError Symbols) :
    Asks code given (.ok evaluation) [.evaluated ⟨code, given, .ok evaluation⟩, .listed answer]

/-- The bindings that a successful evaluation left. -/
def snapshot? : Exchange → Option Bindings
  | .evaluated ⟨_, _, .ok evaluation⟩ => some evaluation.bindings
  | _ => none

/-- The names that a successful listing gave. -/
def symbols? : Exchange → Option Symbols
  | .listed (.ok symbols) => some symbols
  | _ => none

/-- The most recent thing of a kind. -/
def latest? {α : Type} (kind : Exchange → Option α) (log : List Exchange) : Option α :=
  (log.filterMap kind).getLast?

/-- The bindings of the most recent evaluation that succeeded; none before the first. -/
def lastSnapshot (log : List Exchange) : Bindings := (latest? snapshot? log).getD ∅

/-- The most recent names; none before the first listing that succeeded. -/
def lastSymbols (log : List Exchange) : Symbols := (latest? symbols? log).getD {}

theorem latest?_snoc {α : Type} (kind : Exchange → Option α) (log : List Exchange) (x : Exchange) :
    latest? kind (log ++ [x]) = (kind x).or (latest? kind log) := by
  unfold latest?
  rw [List.filterMap_append]
  cases hx : kind x with
  | none => rw [List.filterMap_cons_none hx, List.filterMap_nil, List.append_nil]; rfl
  | some b => rw [List.filterMap_cons_some hx, List.filterMap_nil, List.getLast?_concat]; rfl

end Exchange

/-- An evaluator and all that it was asked, oldest first. -/
structure Journal (ε : Type) where
  evaluator : ε
  exchanges : List Exchange := []

namespace Journal

variable {ε : Type} [Evaluator ε]

def evaluate (j : Journal ε) (code : String) (given : Bindings) :
    Except EvalError Evaluation × Journal ε :=
  let (outcome, evaluator) := Evaluator.evaluate j.evaluator code given
  (outcome, { evaluator, exchanges := j.exchanges ++ [.evaluated { code, given, outcome }] })

def symbols (j : Journal ε) : Except EvalError Symbols × Journal ε :=
  let (answer, evaluator) := Evaluator.symbols j.evaluator
  (answer, { evaluator, exchanges := j.exchanges ++ [.listed answer] })

instance : Evaluator (Journal ε) := ⟨evaluate, symbols⟩

end Journal

/-- The last item of a list is the one after a split, or it ends what follows the split. -/
theorem concat_eq_append_cons {α : Type} {log before after : List α} {x y : α}
    (h : log ++ [x] = before ++ y :: after) :
    (after = [] ∧ before = log ∧ y = x) ∨
      ∃ rest, after = rest ++ [x] ∧ log = before ++ y :: rest := by
  rcases List.eq_nil_or_concat after with ha | ⟨rest, z, ha⟩
  · rw [ha] at h
    obtain ⟨hl, hx⟩ := List.append_inj' h rfl
    exact Or.inl ⟨ha, hl.symm, (List.singleton_inj.mp hx).symm⟩
  · rw [ha, List.concat_eq_append, ← List.cons_append, ← List.append_assoc] at h
    obtain ⟨hl, hx⟩ := List.append_inj' h rfl
    exact Or.inr ⟨rest, by rw [ha, List.concat_eq_append, List.singleton_inj.mp hx], hl⟩

namespace Session

open Exchange

variable {ε : Type} [Evaluator ε]

/-- What was asked of the evaluator, oldest first. -/
def log (s : Session (Journal ε)) : List Exchange := s.evaluator.exchanges

/-- The session holds what the log says, and each evaluation was given what the log said then. -/
structure Recounted (s : Session (Journal ε)) : Prop where
  context : s.memory.context = (lastSnapshot s.log).carried
  objects : s.memory.objects = s.memory.context.objects
  symbols : s.memory.symbols = lastSymbols s.log
  given : ∀ before call after, s.log = before ++ .evaluated call :: after →
    call.given = (lastSnapshot before).carried

/-- No listing comes right after an evaluation that failed. -/
def Unprompted (log : List Exchange) : Prop :=
  ∀ before call answer after, log = before ++ .evaluated call :: .listed answer :: after →
    ∀ e, call.outcome ≠ .error e

/-- Asking for symbols adds a listing to the log and changes nothing but the symbols. -/
theorem refreshSymbols_log (s : Session (Journal ε)) :
    ∃ answer : Except EvalError Symbols, s.refreshSymbols.log = s.log ++ [.listed answer] ∧
      s.refreshSymbols.memory =
        { s.memory with symbols := (symbols? (.listed answer)).getD s.memory.symbols } := by
  rcases h : Evaluator.symbols s.evaluator.evaluator with ⟨answer, evaluator⟩
  have hj : Evaluator.symbols s.evaluator =
      (answer, { evaluator, exchanges := s.evaluator.exchanges ++ [.listed answer] }) := by
    change Journal.symbols s.evaluator = _
    rw [Journal.symbols, h]
  refine ⟨answer, ?_⟩
  cases answer with
  | ok symbols =>
    rw [refreshSymbols_of_ok hj]
    exact ⟨rfl, rfl⟩
  | error e =>
    rw [refreshSymbols_of_error hj]
    exact ⟨rfl, rfl⟩

theorem Recounted.refresh {s : Session (Journal ε)} (h : s.Recounted) :
    s.refreshSymbols.Recounted := by
  obtain ⟨answer, hl, hm⟩ := refreshSymbols_log s
  have hs : lastSnapshot s.refreshSymbols.log = lastSnapshot s.log := by
    rw [hl, lastSnapshot, latest?_snoc]; rfl
  refine ⟨?_, ?_, ?_, ?_⟩
  · rw [hm, hs]; exact h.context
  · rw [hm]; exact h.objects
  · rw [hm, hl, lastSymbols, latest?_snoc, h.symbols, lastSymbols]
    cases symbols? (.listed answer) <;> rfl
  · intro before call after heq
    rw [hl] at heq
    rcases concat_eq_append_cons heq with ⟨-, -, hx⟩ | ⟨rest, -, hr⟩
    · exact absurd hx nofun
    · exact h.given before call rest hr

/-- What an outcome makes of the memory. -/
def absorbed (m : Memory) : Except EvalError Evaluation → Memory
  | .ok evaluation => (m.capture evaluation.bindings).rebuild
  | .error _ => m

/-- An execution adds one evaluation to the log, given the context; only after a success are the
symbols asked for. -/
theorem execute_log (s : Session (Journal ε)) (code : String) :
    ∃ (t : Session (Journal ε)) (call : EvaluatorCall),
      call.code = code ∧ call.given = s.memory.context ∧
      call.outcome = (Evaluator.evaluate s.evaluator.evaluator code s.memory.context).1 ∧
      t.log = s.log ++ [.evaluated call] ∧ t.memory = absorbed s.memory call.outcome ∧
      (s.execute code).1 = call.outcome ∧
      ((∃ e, call.outcome = .error e ∧ (s.execute code).2 = t) ∨
        ((∃ evaluation, call.outcome = .ok evaluation) ∧
          (s.execute code).2 = t.refreshSymbols)) := by
  rcases h : Evaluator.evaluate s.evaluator.evaluator code s.memory.context with
    ⟨outcome, evaluator⟩
  have hj : Evaluator.evaluate s.evaluator code s.memory.context = (outcome,
      { evaluator, exchanges := s.evaluator.exchanges ++
        [.evaluated { code, given := s.memory.context, outcome }] }) := by
    change Journal.evaluate s.evaluator code s.memory.context = _
    rw [Journal.evaluate, h]
  cases outcome with
  | ok evaluation =>
    rw [execute_of_ok hj]
    exact ⟨_, _, rfl, rfl, rfl, rfl, rfl, rfl, Or.inr ⟨⟨evaluation, rfl⟩, rfl⟩⟩
  | error e =>
    rw [execute_of_error hj]
    exact ⟨_, _, rfl, rfl, rfl, rfl, rfl, rfl, Or.inl ⟨e, rfl, rfl⟩⟩

/-- An execution asks for what its code needs, and comes to what the evaluator answers. -/
theorem asks_execute (s : Session (Journal ε)) (code : String) :
    ∃ asked, (s.execute code).2.log = s.log ++ asked ∧
      Asks code s.memory.context (s.execute code).1 asked ∧
      (s.execute code).1 = (Evaluator.evaluate s.evaluator.evaluator code s.memory.context).1 := by
  obtain ⟨t, ⟨_, _, outcome⟩, rfl, rfl, hanswer, hl, -, ho, hend⟩ := execute_log s code
  rcases hend with ⟨e, he, ht⟩ | ⟨⟨evaluation, hok⟩, ht⟩
  · obtain rfl : outcome = .error e := he
    rw [ht, ho]
    exact ⟨_, hl, .failed e, hanswer⟩
  · obtain rfl : outcome = .ok evaluation := hok
    obtain ⟨answer, hr, -⟩ := refreshSymbols_log t
    rw [hl, List.append_assoc] at hr
    rw [ht, ho]
    exact ⟨_, hr, .succeeded evaluation answer, hanswer⟩

omit [Evaluator ε] in
theorem Recounted.record {s t : Session (Journal ε)} {call : EvaluatorCall} (h : s.Recounted)
    (hg : call.given = s.memory.context) (hl : t.log = s.log ++ [.evaluated call])
    (hm : t.memory = absorbed s.memory call.outcome) : t.Recounted := by
  obtain ⟨code, given, outcome⟩ := call
  have hsym : lastSymbols t.log = lastSymbols s.log := by
    rw [hl, lastSymbols, latest?_snoc]; rfl
  have hgiven : ∀ before call after, t.log = before ++ .evaluated call :: after →
      call.given = (lastSnapshot before).carried := by
    intro before call after heq
    rw [hl] at heq
    rcases concat_eq_append_cons heq with ⟨-, hb, hx⟩ | ⟨rest, -, hr⟩
    · rw [hb, ← h.context, ← hg, Exchange.evaluated.inj hx]
    · exact h.given before call rest hr
  cases outcome with
  | ok evaluation =>
    have hsnap : lastSnapshot t.log = evaluation.bindings := by
      rw [hl, lastSnapshot, latest?_snoc]; rfl
    exact ⟨by rw [hm, hsnap]; rfl, by rw [hm]; rfl, by rw [hm, hsym]; exact h.symbols, hgiven⟩
  | error e =>
    have hsnap : lastSnapshot t.log = lastSnapshot s.log := by
      rw [hl, lastSnapshot, latest?_snoc]; rfl
    exact ⟨by rw [hm, hsnap]; exact h.context, by rw [hm]; exact h.objects,
      by rw [hm, hsym]; exact h.symbols, hgiven⟩

theorem Recounted.execute {s : Session (Journal ε)} (h : s.Recounted) (code : String) :
    (s.execute code).2.Recounted := by
  obtain ⟨t, call, -, hg, -, hl, hm, -, ⟨e, -, ht⟩ | ⟨-, ht⟩⟩ := execute_log s code
  · rw [ht]
    exact h.record hg hl hm
  · rw [ht]
    exact (h.record hg hl hm).refresh

omit [Evaluator ε] in
/-- What is recounted depends on the log and on what is held of the evaluator alone. -/
theorem Recounted.congr {s t : Session (Journal ε)} (h : s.Recounted) (hl : t.log = s.log)
    (hc : t.memory.context = s.memory.context) (ho : t.memory.objects = s.memory.objects)
    (hs : t.memory.symbols = s.memory.symbols) : t.Recounted := by
  refine ⟨?_, ?_, ?_, ?_⟩
  · rw [hc, hl]; exact h.context
  · rw [ho, hc]; exact h.objects
  · rw [hs, hl]; exact h.symbols
  · rw [hl]; exact h.given

/-- Every course keeps the account. -/
theorem Recounted.course {s t : Session (Journal ε)} {ds : List Deed} (hc : Course s ds t)
    (h : s.Recounted) : t.Recounted := by
  induction hc with
  | aside he hm =>
    exact h.congr (congrArg Journal.exchanges he) (congrArg Memory.context hm)
      (congrArg Memory.objects hm) (congrArg Memory.symbols hm)
  | deed s d =>
    cases d with
    | observe unit =>
      rw [act, observe_eq]
      generalize (s.memory.aliases.observe unit).2 = aliases
      exact h.congr rfl rfl rfl rfl
    | prepare unit =>
      rw [act, prepare_eq]
      generalize (s.memory.tracker.track (s.memory.aliases.resolve unit)).2 = tracker
      exact h.congr rfl rfl rfl rfl
    | execute code => exact h.execute code
    | refresh => exact h.refresh
  | append _ _ ih ih' => exact ih' (ih h)

omit [Evaluator ε] in
/-- One more item matters only as the second one of a pair; any other pair is in the old log. -/
theorem Unprompted.snoc {log : List Exchange} {x : Exchange} (h : Unprompted log)
    (hx : ∀ answer, x = .listed answer → ∀ before call, log = before ++ [.evaluated call] →
      ∀ e, call.outcome ≠ .error e) : Unprompted (log ++ [x]) := by
  intro before call answer after heq
  rcases concat_eq_append_cons heq with ⟨ha, -, -⟩ | ⟨rest, ha, hl⟩
  · exact absurd ha nofun
  · cases rest with
    | nil => exact hx answer (List.cons.inj ha).1.symm before call hl
    | cons y rest => exact h before call answer rest ((List.cons.inj ha).1 ▸ hl)

omit [Evaluator ε] in
theorem Unprompted.snoc_evaluated {log : List Exchange} (h : Unprompted log)
    (call : EvaluatorCall) : Unprompted (log ++ [.evaluated call]) :=
  h.snoc nofun

theorem Unprompted.execute {s : Session (Journal ε)} (h : Unprompted s.log) (code : String) :
    Unprompted (s.execute code).2.log := by
  obtain ⟨t, call, -, -, -, hl, -, -, ⟨e, -, ht⟩ | ⟨⟨evaluation, hok⟩, ht⟩⟩ := execute_log s code
  · rw [ht, hl]
    exact h.snoc_evaluated call
  · obtain ⟨answer, hr, -⟩ := refreshSymbols_log t
    rw [ht, hr]
    refine Unprompted.snoc (hl ▸ h.snoc_evaluated call) ?_
    intro _ _ before last hlast e he
    rw [hl] at hlast
    have hcall := List.singleton_inj.mp (List.append_inj' hlast rfl).2
    rw [← Exchange.evaluated.inj hcall, hok] at he
    exact absurd he nofun

/-- On a course without a refresh of its own, no listing follows a failure. -/
theorem Unprompted.course {s t : Session (Journal ε)} {ds : List Deed} (hc : Course s ds t)
    (h : Unprompted s.log) (hd : .refresh ∉ ds) : Unprompted t.log := by
  induction hc with
  | aside he hm =>
    rw [log, he]
    exact h
  | deed s d =>
    cases d with
    | observe unit =>
      rw [act, observe_eq, log]
      exact h
    | prepare unit =>
      rw [act, prepare_eq, log]
      exact h
    | execute code => exact h.execute code
    | refresh => exact absurd (List.mem_singleton_self _) hd
  | append _ _ ih ih' =>
    exact ih' (ih h fun hm => hd (List.mem_append_left _ hm)) fun hm =>
      hd (List.mem_append_right _ hm)

/-- A new session has asked for symbols and for nothing else. -/
theorem start_log (evaluator : ε) (config : SessionConfig) :
    (start ({ evaluator } : Journal ε) config).Recounted ∧
      Unprompted (start ({ evaluator } : Journal ε) config).log := by
  let s : Session (Journal ε) := { evaluator := { evaluator }, config }
  have hs : s.Recounted := by
    refine ⟨rfl, rfl, rfl, ?_⟩
    intro before call after h
    exact absurd h.symm (List.append_ne_nil_of_right_ne_nil _ nofun)
  have hn : Unprompted [] := by
    intro before call answer after h
    exact absurd h.symm (List.append_ne_nil_of_right_ne_nil _ nofun)
  obtain ⟨answer, hl, -⟩ := refreshSymbols_log s
  have hu : Unprompted ([] ++ [.listed answer]) := by
    refine hn.snoc ?_
    intro _ _ before call h
    exact absurd h.symm (List.append_ne_nil_of_right_ne_nil _ nofun)
  refine ⟨hs.refresh, ?_⟩
  change Unprompted s.refreshSymbols.log
  rw [hl]
  exact hu

/-- After any operations, in any order, whatever the evaluator answers and whether or not the
console takes what is shown: each evaluation was given the bindings of the last one that had
succeeded, housekeeping names aside; context and objects are in step with it; the symbols are those
last listed. To execute code is to evaluate it once, on the context, and after a success to list the
symbols once; it comes to what the evaluator answers. An evaluation that fails leaves the whole
memory alone, and a listing comes right after a failure only where a refresh was asked for. -/
theorem bindings_flow (evaluator : ε) (config : SessionConfig) (ops : List Operation) :
    let s := (start ({ evaluator } : Journal ε) config).performAll ops
    (∀ before call after, s.log = before ++ .evaluated call :: after →
      call.given = (lastSnapshot before).carried) ∧
    (∀ name, Bindings.isHousekeeping name = true → s.memory.context.get? name = none) ∧
    (∀ name value, s.memory.objects.get? name = some value ↔
      s.memory.context.get? name = some value ∧ value.kind = .object) ∧
    s.memory.context = (lastSnapshot s.log).carried ∧
    s.memory.symbols = lastSymbols s.log ∧
    (∀ code, ∃ asked, (s.execute code).2.log = s.log ++ asked ∧
      Asks code s.memory.context (s.execute code).1 asked ∧
      (s.execute code).1 =
        (Evaluator.evaluate s.evaluator.evaluator code s.memory.context).1) ∧
    (∀ code e, (s.execute code).1 = .error e → (s.execute code).2.memory = s.memory) ∧
    (∀ before call answer after e,
      s.log = before ++ .evaluated call :: .listed answer :: after → call.outcome = .error e →
        .refresh ∈ ops) := by
  intro s
  obtain ⟨hr, hu⟩ := start_log evaluator config
  obtain ⟨ds, hc, hd⟩ := course_performAll (start ({ evaluator } : Journal ε) config) ops
  have h : s.Recounted := hr.course hc
  refine ⟨h.given, ?_, ?_, h.context, h.symbols, asks_execute s, ?_, ?_⟩
  · intro name hn
    rw [h.context]
    apply NameMap.get?_filter_eq_none
    intro value
    rw [hn]
    rfl
  · intro name value
    rw [h.objects]
    refine NameMap.get?_filter_eq_some_iff.trans ?_
    simp [Value.isPrimitive]
  · intro code e he
    obtain ⟨t, call, -, -, -, -, hm, ho, ⟨e', hf, ht⟩ | ⟨⟨evaluation, hok⟩, -⟩⟩ :=
      execute_log s code
    · rw [ht, hm, hf]
      rfl
    · rw [he, hok] at ho
      exact absurd ho nofun
  · intro before call answer after e heq he
    refine Classical.byContradiction fun hops => ?_
    exact hu.course hc (fun hm => hops (hd hm)) before call answer after heq e he

end Session

end ScriptShell

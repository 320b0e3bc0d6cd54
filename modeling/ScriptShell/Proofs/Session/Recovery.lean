import ScriptShell.Proofs.Session.Dispatch

/-!
What a preload does with a script. The script alone determines its units; they are treated in order,
each once, and a unit that fails does not keep the others from running. Only the loss of the
evaluator ends a preload early, and what became of every unit until then is counted.
-/

namespace ScriptShell

namespace Preload

/-- The units that lines form when some are pending already, brackets alone being counted, and after
them the text that is left open; none of them is blank. -/
def unitsFrom (pending texts : List String) : List String :=
  let (units, left) := Closing.bracketsOnly.cut pending texts
  (units ++ [trim (gathered left)]).filter (· ≠ "")

/-- The units of a script. -/
def units (source : String) : List String := unitsFrom [] (scriptLines source)

variable {pending : List String} {line : String}

theorem filter_singleton (unit : String) :
    [unit].filter (· ≠ "") = if unit = "" then [] else [unit] := by
  by_cases h : unit = ""
  · rw [if_pos h, h]
    rfl
  · have hp : decide (unit ≠ "") = true := decide_eq_true h
    rw [if_neg h]
    exact List.filter_cons_of_pos hp

theorem unitsFrom_nil (pending : List String) : unitsFrom pending [] =
    if trim (gathered pending) = "" then [] else [trim (gathered pending)] :=
  filter_singleton _

theorem unitsFrom_of_open (h : Closing.bracketsOnly.closes (pending ++ [line]) = false)
    (rest : List String) : unitsFrom pending (line :: rest) = unitsFrom (pending ++ [line]) rest := by
  rw [unitsFrom, Closing.cut_of_open h]
  rfl

theorem unitsFrom_of_closed (h : Closing.bracketsOnly.closes (pending ++ [line]) = true)
    (rest : List String) : unitsFrom pending (line :: rest) =
      (if trim (gathered (pending ++ [line])) = "" then [] else
        [trim (gathered (pending ++ [line]))]) ++ unitsFrom [] rest := by
  rw [unitsFrom, Closing.cut_of_closed h, unitsFrom, ← filter_singleton, ← List.filter_append]
  rfl

/-- A unit after which the session has ended, or that failed to be shown, is the last one. -/
theorem afterUnit_of_stop {ε : Type} [Evaluator ε] {after : StatementBuffer} {rest : List String}
    {result : Except TerminalError PreloadReport} {s : Session ε}
    (h : ∀ r, result = .ok r → s.phase = .terminated) :
    afterUnit after rest (result, s) = (result, s) := by
  cases result with
  | ok r => rw [afterUnit_ok, if_pos (h r rfl)]
  | error e => rfl

end Preload

/-- The evaluator had a value, or at least no failure, to answer with. -/
def EvaluatorCall.succeeded (call : EvaluatorCall) : Bool :=
  match call.outcome with
  | .ok _ => true
  | .error _ => false

namespace PreloadReport

/-- The report on these units when those with code in them came to these calls. -/
def tally (units : List String) (calls : List EvaluatorCall) : PreloadReport where
  executed := calls.countP fun call => call.succeeded
  failed := calls.countP fun call => !call.succeeded
  imports := units.countP fun unit => !isCode unit

theorem tally_import {unit : String} (h : isCode unit = false) (units : List String)
    (calls : List EvaluatorCall) :
    tally (units ++ [unit]) calls =
      { tally units calls with imports := (tally units calls).imports + 1 } := by
  have himports : (units ++ [unit]).countP (fun unit => !isCode unit) =
      units.countP (fun unit => !isCode unit) + 1 := by
    rw [List.countP_append, List.countP_singleton, h]
    rfl
  rw [tally, himports]
  rfl

theorem tally_code {unit : String} (h : isCode unit = true) (units : List String)
    (calls : List EvaluatorCall) (call : EvaluatorCall) :
    tally (units ++ [unit]) (calls ++ [call]) = (tally units calls).count call.outcome := by
  have himports : (units ++ [unit]).countP (fun unit => !isCode unit) =
      units.countP fun unit => !isCode unit := by
    rw [List.countP_append, List.countP_singleton, h]
    rfl
  rw [tally, himports, List.countP_append, List.countP_append, List.countP_singleton,
    List.countP_singleton, EvaluatorCall.succeeded]
  cases call.outcome with
  | ok evaluation => rfl
  | error cause => rfl

end PreloadReport

namespace AliasTable

theorem observeAll_concat (t : AliasTable) (units : List String) (unit : String) :
    t.observeAll (units ++ [unit]) = ((t.observeAll units).observe unit).2 := List.foldl_append

theorem resolveAll_concat (t : AliasTable) (units : List String) (unit : String) :
    t.resolveAll (units ++ [unit]) = t.resolveAll units ++ (t.observeAll units).resolveAll [unit] := by
  induction units generalizing t with
  | nil => rfl
  | cons first units ih =>
    have hrest := ih (t.observe first).2
    rw [List.cons_append, resolveAll, resolveAll, hrest]
    split
    · rfl
    · rfl

theorem resolveAll_import {unit : String} (h : isCode unit = false) (t : AliasTable)
    (units : List String) : t.resolveAll (units ++ [unit]) = t.resolveAll units := by
  rw [resolveAll_concat, resolveAll_singleton, h, if_neg Bool.false_ne_true, List.append_nil]

theorem length_resolveAll (t : AliasTable) (units : List String) :
    (t.resolveAll units).length = units.countP isCode := by
  induction units generalizing t with
  | nil => rfl
  | cons unit units ih =>
    rw [resolveAll, List.countP_cons]
    split
    · rw [List.length_cons, ih]
    · exact ih _

end AliasTable

/-- Every unit that was treated is counted once. Calls are counted by outcome, units by kind, and
the calls are the units with code in them. -/
theorem PreloadReport.sum_tally {t : AliasTable} {units : List String}
    {calls : List EvaluatorCall} (h : calls.map (·.code) = t.resolveAll units) :
    (tally units calls).executed + (tally units calls).failed + (tally units calls).imports =
      units.length := by
  have hcalls : calls.length = units.countP isCode := by
    rw [← t.length_resolveAll units, ← h, List.length_map]
  have houtcome := List.length_eq_countP_add_countP EvaluatorCall.succeeded (l := calls)
  have hkind := List.length_eq_countP_add_countP isCode (l := units)
  simp only [Bool.not_eq_true, Bool.decide_eq_false] at houtcome hkind
  calc (tally units calls).executed + (tally units calls).failed + (tally units calls).imports
      = calls.length + units.countP (fun unit => !isCode unit) :=
        congrArg (· + units.countP fun unit => !isCode unit) houtcome.symm
    _ = units.length := by rw [hcalls, hkind]

namespace Session

variable {ε : Type}

/-- What a preload has come to when these units are treated, at the cost of these calls. -/
structure Loaded (s : Session (Recorder ε)) (done : List String) (made : List EvaluatorCall)
    (t : Session (Recorder ε)) : Prop where
  closed : t.console.closed = s.console.closed
  calls : t.evaluator.calls = s.evaluator.calls ++ made
  codes : made.map (·.code) = s.memory.aliases.resolveAll done
  aliases : t.memory.aliases = s.memory.aliases.observeAll done
  tracker : t.memory.tracker = s.memory.tracker.trackAll (s.memory.aliases.resolveAll done)

theorem Loaded.beside {s t u : Session (Recorder ε)} {done : List String}
    {made : List EvaluatorCall} (h : s.Loaded done made t) (hu : t.Beside u) :
    s.Loaded done made u where
  closed := hu.closed.trans h.closed
  calls := by rw [hu.evaluator]; exact h.calls
  codes := h.codes
  aliases := by rw [hu.memory]; exact h.aliases
  tracker := by rw [hu.memory]; exact h.tracker

/-- How a preload ends, given the units that it treated and left, the calls it made, what it
answers, and the phase that it leaves. -/
inductive PreloadEnd (s : Session ε) : List String → List String → List EvaluatorCall →
    Except TerminalError PreloadReport → Phase → Prop
  /-- Every unit was treated, and the evaluator is still there. -/
  | finished {treated : List String} {calls : List EvaluatorCall}
      (alive : ∀ call ∈ calls, call.survived = true) :
      PreloadEnd s treated [] calls (.ok (.tally treated calls)) s.phase
  /-- The evaluator was lost on the last unit that was treated. -/
  | disconnected {earlier left : List String} {unit : String} {calls : List EvaluatorCall}
      {call : EvaluatorCall} (code : isCode unit = true) (gone : call.survived = false)
      (alive : ∀ call ∈ calls, call.survived = true) :
      PreloadEnd s (earlier ++ [unit]) left (calls ++ [call])
        (.ok (.tally (earlier ++ [unit]) (calls ++ [call]))) .terminated
  /-- What became of the last unit could not be written. -/
  | unwritten {earlier left : List String} {unit : String} {calls : List EvaluatorCall}
      {call : EvaluatorCall} {e : TerminalError} (closed : s.console.closed = true)
      (code : isCode unit = true) (alive : ∀ call ∈ calls, call.survived = true) :
      PreloadEnd s (earlier ++ [unit]) left (calls ++ [call]) (.error e) s.phase

theorem PreloadEnd.report_eq {s : Session ε} {treated left : List String}
    {calls : List EvaluatorCall} {result : Except TerminalError PreloadReport} {phase : Phase}
    (h : s.PreloadEnd treated left calls result phase) {report : PreloadReport}
    (hr : result = .ok report) : report = .tally treated calls := by
  cases h with
  | finished alive => exact (Except.ok.inj hr).symm
  | disconnected code gone alive => exact (Except.ok.inj hr).symm
  | unwritten closed code alive => exact absurd hr nofun

variable [Evaluator ε]

/-- A unit with code is one more call, and the tracker sees the text that is run, imports written
out. -/
theorem Loaded.execute {s t : Session (Recorder ε)} {done : List String}
    {made : List EvaluatorCall} (h : s.Loaded done made t) {unit : String}
    (hc : isCode unit = true) :
    let q := (t.observe unit).2.prepare unit
    ∃ call, (q.2.execute q.1).1 = call.outcome ∧
      s.Loaded (done ++ [unit]) (made ++ [call]) (q.2.execute q.1).2 := by
  intro q
  obtain ⟨call, hcode, hout, hcalls⟩ := execute_calls q.2 q.1
  have hr := retains_execute q.2 q.1
  have haliases : q.2.memory.aliases = s.memory.aliases.observeAll (done ++ [unit]) := by
    rw [AliasTable.observeAll_concat, ← h.aliases]
    rfl
  have hcodes : s.memory.aliases.resolveAll (done ++ [unit]) =
      s.memory.aliases.resolveAll done ++ [q.1] := by
    rw [AliasTable.resolveAll_concat, ← h.aliases, AliasTable.resolveAll_singleton, if_pos hc]
    rfl
  have htracker : q.2.memory.tracker =
      s.memory.tracker.trackAll (s.memory.aliases.resolveAll (done ++ [unit])) := by
    calc q.2.memory.tracker
        = t.memory.tracker.trackAll [q.1] := rfl
      _ = (s.memory.tracker.trackAll (s.memory.aliases.resolveAll done)).trackAll [q.1] := by
          rw [h.tracker]
      _ = s.memory.tracker.trackAll (s.memory.aliases.resolveAll done ++ [q.1]) :=
          List.foldl_append.symm
      _ = s.memory.tracker.trackAll (s.memory.aliases.resolveAll (done ++ [unit])) := by
          rw [hcodes]
  refine ⟨call, hout, ?_, ?_, ?_, hr.aliases.trans haliases, hr.tracker.trans htracker⟩
  · rw [hr.console]
    exact h.closed
  · rw [hcalls, ← List.append_assoc]
    exact congrArg (· ++ [call]) h.calls
  · rw [List.map_append, List.map_singleton, h.codes, hcode, hcodes]

/-- One more unit: it is treated and the preload goes on, or it is the last one. A call that was
made counts whether or not its outcome can be written. -/
theorem Loaded.dispatch {s t : Session (Recorder ε)} {done : List String}
    {made : List EvaluatorCall} (h : s.Loaded done made t) (hp : t.phase = s.phase)
    (halive : ∀ call ∈ made, call.survived = true) {unit : String} (hu : unit ≠ "") :
    ∃ result t' made', Preload.dispatch t (.tally done made) unit = (result, t') ∧
      s.Loaded (done ++ [unit]) made' t' ∧
      (result = .ok (.tally (done ++ [unit]) made') ∧ t'.phase = s.phase ∧
          (∀ call ∈ made', call.survived = true) ∨
        (∀ r, result = .ok r → t'.phase = .terminated) ∧
          ∀ left, s.PreloadEnd (done ++ [unit]) left made' result t'.phase) := by
  have hobserve : t.observe unit = (!isCode unit, (t.observe unit).2) := by
    rw [t.memory.aliases.isCode_eq hu, Bool.not_not]
    rfl
  cases hc : isCode unit with
  | false =>
    rw [hc] at hobserve
    refine ⟨_, _, made, Preload.dispatch_of_imports hobserve, ⟨h.closed, h.calls, ?_, ?_, ?_⟩,
      Or.inl ⟨?_, hp, halive⟩⟩
    · rw [AliasTable.resolveAll_import hc, h.codes]
    · rw [AliasTable.observeAll_concat, ← h.aliases]
      rfl
    · rw [AliasTable.resolveAll_import hc]
      exact h.tracker
    · rw [PreloadReport.tally_import hc]
  | true =>
    rw [hc] at hobserve
    obtain ⟨call, hout, hload⟩ := h.execute hc
    have hd := Preload.dispatch_of_code (r := .tally done made) hobserve
    have hphase := (retains_execute ((t.observe unit).2.prepare unit).2
      ((t.observe unit).2.prepare unit).1).phase.trans hp
    rw [hout] at hd
    generalize (((t.observe unit).2.prepare unit).2.execute _).2 = ran at hd hload hphase
    obtain ⟨u, hu, hcon⟩ := preload_conclude_cases ran (.tally done made) call.outcome
    have hshown := hload.beside hu
    rcases hcon with hok | ⟨hshut, e, herror⟩
    · rw [← PreloadReport.tally_code hc] at hok
      have hgone := phaseAfter_eq_terminated_iff call
      by_cases hf : phaseAfter call.outcome = .terminated
      · rw [if_pos hf] at hok
        exact ⟨_, _, _, hd.trans hok, ⟨hshown.closed, hshown.calls, hshown.codes, hshown.aliases,
          hshown.tracker⟩, Or.inr ⟨fun _ _ => rfl, fun _ => .disconnected hc (hgone.mp hf) halive⟩⟩
      · rw [if_neg hf] at hok
        refine ⟨_, _, _, hd.trans hok, hshown,
          Or.inl ⟨rfl, hu.phase.trans hphase, fun c hm => ?_⟩⟩
        rcases List.mem_append.mp hm with hm | hm
        · exact halive c hm
        · rw [List.mem_singleton.mp hm]
          exact (Bool.not_eq_false _).mp fun hs => hf (hgone.mpr hs)
    · refine ⟨_, _, _, hd.trans herror, hshown, Or.inr ⟨nofun, fun _ => ?_⟩⟩
      rw [hu.phase.trans hphase]
      exact .unwritten (hload.closed ▸ hshut) hc halive

/-- The rest of a preload, from any point on: lines may be pending already. -/
theorem Loaded.run {s t : Session (Recorder ε)} {done : List String} {made : List EvaluatorCall}
    (h : s.Loaded done made t) (hp : t.phase = s.phase)
    (halive : ∀ call ∈ made, call.survived = true) (hs : s.phase ≠ .terminated)
    (pending texts : List String) :
    let final := Preload.runLines t (.holding .bracketsOnly pending) (.tally done made) texts
    ∃ treated left made', Preload.unitsFrom pending texts = treated ++ left ∧
      s.Loaded (done ++ treated) made' final.2 ∧
      s.PreloadEnd (done ++ treated) left made' final.1 final.2.phase := by
  induction texts generalizing t done made pending with
  | nil =>
    intro final
    have hfinal : final = (if trim (gathered pending) = "" then none
        else some (trim (gathered pending))).elim (.ok (.tally done made), t)
          (Preload.dispatch t (.tally done made)) := by
      rw [← StatementBuffer.takeRemainder_holding]
      exact Preload.runLines_nil ..
    rw [Preload.unitsFrom_nil]
    generalize trim (gathered pending) = unit at hfinal ⊢
    by_cases hu : unit = ""
    · rw [if_pos hu] at hfinal ⊢
      rw [hfinal]
      refine ⟨[], [], made, rfl, (List.append_nil done).symm ▸ h, ?_⟩
      rw [Option.elim_none, hp, List.append_nil]
      exact .finished halive
    · rw [if_neg hu] at hfinal ⊢
      obtain ⟨result, t', made', hd, ht, hend⟩ := h.dispatch hp halive hu
      rw [hfinal.trans hd]
      refine ⟨[unit], [], made', rfl, ht, ?_⟩
      rcases hend with ⟨hok, hphase, halive⟩ | ⟨-, hend⟩
      · rw [hok, hphase]
        exact .finished halive
      · exact hend []
  | cons line rest ih =>
    intro final
    cases hc : Closing.bracketsOnly.closes (pending ++ [line]) with
    | false =>
      have hopen : final = _ :=
        Preload.runLines_of_incomplete (StatementBuffer.feed_holding_of_open hc)
      rw [hopen, Preload.unitsFrom_of_open hc]
      exact ih h hp halive (pending ++ [line])
    | true =>
      have hfeed := StatementBuffer.feed_holding_of_closed hc
      rw [Preload.unitsFrom_of_closed hc]
      generalize trim (gathered (pending ++ [line])) = unit at hfeed ⊢
      by_cases hu : unit = ""
      · rw [if_pos hu] at hfeed ⊢
        have hblank : final = _ := Preload.runLines_of_blank hfeed
        rw [hblank]
        exact ih h hp halive []
      · rw [if_neg hu] at hfeed ⊢
        obtain ⟨result, t', made', hd, ht, hend⟩ := h.dispatch hp halive hu
        have hunit : final = _ := Preload.runLines_of_complete hfeed
        rw [hd] at hunit
        rcases hend with ⟨hok, hphase, halive⟩ | ⟨hstop, hend⟩
        · rw [hok, Preload.afterUnit_ok, if_neg (hphase ▸ hs)] at hunit
          obtain ⟨treated, left, more, hcut, hload, hfinish⟩ := ih ht hphase halive []
          rw [hunit]
          refine ⟨unit :: treated, left, more, ?_, ?_, ?_⟩
          · rw [hcut]
            rfl
          · rw [List.append_cons]
            exact hload
          · rw [List.append_cons]
            exact hfinish
        · rw [hunit, Preload.afterUnit_of_stop hstop]
          exact ⟨[unit], Preload.unitsFrom [] rest, made', rfl, ht, hend _⟩

/-- A preload treats a first part of the units of its script in order, each once: a unit of imports
alone is none of the calls, any other is one call with its text under the imports up to and
including its own, and nothing of the units that are left is remembered. It goes on after any
failure but the loss of the evaluator, which ends the session, and every unit that was treated is
counted. Only a console that is closed can keep it from answering. -/
theorem preload_accounts {s : Session (Recorder ε)} (hs : s.phase ≠ .terminated)
    (source : String) :
    ∃ result t treated left made, Preload.runSource s source = (result, t) ∧
      Preload.units source = treated ++ left ∧ s.Loaded treated made t ∧
      s.PreloadEnd treated left made result t.phase ∧
      ∀ report, result = .ok report →
        report.executed + report.failed + report.imports = treated.length := by
  have hstart : s.Loaded [] [] s := ⟨rfl, (List.append_nil _).symm, rfl, rfl, rfl⟩
  have hrun : Preload.runSource s source = Preload.runLines s (.holding .bracketsOnly [])
      (.tally [] []) (Preload.scriptLines source) := rfl
  obtain ⟨treated, left, made, hunits, hload, hend⟩ :=
    hstart.run rfl (List.forall_mem_nil _) hs [] (Preload.scriptLines source)
  rw [← hrun, List.nil_append] at hload hend
  generalize Preload.runSource s source = final at hload hend ⊢
  refine ⟨final.1, final.2, treated, left, made, rfl, hunits, hload, hend, fun report hreport => ?_⟩
  have htally : report = .tally treated made := hend.report_eq hreport
  rw [htally]
  exact PreloadReport.sum_tally hload.codes

/-- An import, a unit spread over lines, one that fails, one that the evaluator is lost on, and one
left open at the end: the last is not treated. -/
theorem preload_accounts_disconnected :
    let replies : List (Except EvalError Reply) :=
      [.ok {}, .error (.parse "unexpected" none), .error (.disconnected "bye")]
    let s : Session (Recorder Script) := { evaluator := { evaluator := { replies } } }
    let source := "<?php\nuse A\\B;\nnew B(\n);\nf();\n\ng();\nh("
    s.phase ≠ .terminated ∧
    Preload.units source = ["use A\\B;", "new B(\n);", "f();", "g();", "h("] ∧
    (Preload.runSource s source).2.evaluator.calls.map (·.code) =
      ["new A\\B(\n);", "f();", "g();"] ∧
    (Preload.runSource s source).1.toOption = some { executed := 1, failed := 2, imports := 1 } ∧
    ∃ result t treated left made, Preload.runSource s source = (result, t) ∧
      Preload.units source = treated ++ left ∧ s.Loaded treated made t ∧
      s.PreloadEnd treated left made result t.phase ∧
      ∀ report, result = .ok report →
        report.executed + report.failed + report.imports = treated.length := by
  intro replies s source
  have hs : s.phase ≠ .terminated := nofun
  have haccounts := preload_accounts hs source
  refine ⟨hs, ?_, ?_, ?_, haccounts⟩
  · decide +kernel
  · decide +kernel
  · decide +kernel

end Session

end ScriptShell

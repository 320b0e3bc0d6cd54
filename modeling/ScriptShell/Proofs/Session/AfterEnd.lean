import ScriptShell.Proofs.Session.Course
import ScriptShell.Proofs.Session.Dispatch

/-!
What a session does after its end. The read loop is over for good, but a line that is submitted and
a file that is preloaded are treated as ever: the line wakes the session up unless it says to stop
or nothing has been gathered, and the first unit of the file is run before the end is noticed.
-/

namespace ScriptShell

/-- The first unit of a preload file with any text in it, the one left open at the end included. -/
def Preload.firstUnit? (pending texts : List String) : Option String :=
  let (units, left) := Closing.bracketsOnly.cut pending texts
  (units ++ [trim (gathered left)]).find? (· ≠ "")

theorem Preload.ne_empty_of_firstUnit? {pending texts : List String} {unit : String}
    (h : firstUnit? pending texts = some unit) : unit ≠ "" := by
  have hp : decide (unit ≠ "") = true := @List.find?_some _ (fun unit => decide (unit ≠ "")) _ _ h
  exact of_decide_eq_true hp

/-- The unit in the answer to a line. -/
def Feed.unit? : Feed → Option String
  | .complete unit => some unit
  | .incomplete | .blank => none

/-- A unit that is closed has a text. -/
theorem StatementBuffer.ne_empty_of_feed {b after : StatementBuffer} {line unit : String}
    (h : b.feed line = (.complete unit, after)) : unit ≠ "" := by
  unfold feed at h
  dsimp only at h
  split at h
  · split at h
    · exact absurd (congrArg Prod.fst h) nofun
    · next hne =>
      have hunit := Feed.complete.inj (congrArg Prod.fst h)
      rw [← hunit]
      exact hne
  · exact absurd (congrArg Prod.fst h) nofun

namespace Session

variable {ε : Type}

/-- The unit that a line closes, if it does not end the session. -/
def closedUnit? (s : Session ε) (line : String) : Option String :=
  if s.config.exitKeywords.contains (trim line) then none
  else (s.buffer.feed line).1.unit?

/-- What an ended session can be asked without a call and without waking up. -/
def Idle (s : Session ε) : Operation → Prop
  | .submit line =>
    s.config.exitKeywords.contains (trim line) = true ∨ (s.buffer.feed line).1 = .blank
  | .preload source | .preloadFile _ (.ok source) =>
    s.memory.aliases.resolveAll (Preload.firstUnit? [] (Preload.scriptLines source)).toList = []
  | .execute _ => False
  | .run _ | .preloadFile _ (.error _) | .observe _ | .prepare _ | .refresh | .report _
  | .terminate | .redirect _ => True

/-- To write asks nothing and leaves the phase, whether or not the console takes the text. -/
theorem write_keeps (s : Session ε) (text : String) :
    (s.write text).2.evaluator = s.evaluator ∧ (s.write text).2.phase = s.phase := by
  obtain ⟨t, ht, hw | ⟨-, e, hw⟩⟩ := write_cases s text
  · rw [hw]
    exact ⟨ht.evaluator, ht.phase⟩
  · rw [hw]
    exact ⟨ht.evaluator, ht.phase⟩

/-- Showing what became of a unit asks nothing, whether or not it can be shown. -/
theorem evaluator_conclude (s : Session ε) (outcome : Except EvalError Evaluation) :
    (s.conclude outcome).2.evaluator = s.evaluator := by
  rw [conclude_eq_announce]
  have hw := (write_keeps s (shownAfter s.config outcome)).1
  unfold announce
  split
  · next t heq =>
    rw [heq] at hw
    exact hw
  · exact hw

/-- Concluding a preloaded unit asks nothing and wakes no session up. -/
theorem preload_conclude_keeps (s : Session ε) (r : PreloadReport)
    (outcome : Except EvalError Evaluation) :
    (Preload.conclude s r outcome).2.evaluator = s.evaluator ∧
      (s.phase = .terminated → (Preload.conclude s r outcome).2.phase = .terminated) := by
  obtain ⟨t, ht, hok | ⟨-, e, herror⟩⟩ := preload_conclude_cases s r outcome
  · rw [hok]
    split
    · exact ⟨ht.evaluator, fun _ => rfl⟩
    · exact ⟨ht.evaluator, fun h => ht.phase.trans h⟩
  · rw [herror]
    exact ⟨ht.evaluator, fun h => ht.phase.trans h⟩

/-- A unit is absorbed unless it is code, and what is run of it is its text under its own imports. -/
theorem observe_isCode (s : Session ε) {unit : String} (hu : unit ≠ "") :
    ∃ aliases, s.observe unit = (!isCode unit, { s with memory := { s.memory with aliases } }) ∧
      s.memory.aliases.resolveAll [unit] = if isCode unit then [aliases.resolve unit] else [] := by
  refine ⟨(s.memory.aliases.observe unit).2, ?_, s.memory.aliases.resolveAll_singleton unit⟩
  rw [observe_eq, s.memory.aliases.isCode_eq hu, Bool.not_not]

variable [Evaluator ε]

/-- A unit with code in it is one call, any other none and leaves a session that waits for a line. -/
theorem dispatch_codes (s : Session (Recorder ε)) {unit : String} (hu : unit ≠ "") :
    ∃ made, (s.dispatch unit).2.evaluator.calls = s.evaluator.calls ++ made ∧
      made.map (·.code) = (s.memory.aliases.resolveAll [unit]).map wrapExpression ∧
      (made = [] → (s.dispatch unit).2.phase = .single) := by
  obtain ⟨aliases, hs, hres⟩ := observe_isCode s hu
  rw [hres]
  cases hc : isCode unit with
  | false =>
    rw [hc] at hs
    rw [dispatch_of_imports hs]
    exact ⟨[], (List.append_nil _).symm, rfl, fun _ => rfl⟩
  | true =>
    rw [hc] at hs
    have hd := dispatch_of_code hs
    simp only [prepare_eq] at hd
    generalize aliases.resolve unit = text at hd ⊢
    generalize (s.memory.tracker.track text).2 = tracker at hd
    obtain ⟨call, hcode, -, hcalls⟩ := execute_calls
      (executing { s with memory := { s.memory with aliases, tracker } }) (wrapExpression text)
    refine ⟨[call], ?_, ?_, fun h => absurd h (List.cons_ne_nil call [])⟩
    · rw [hd, evaluator_conclude, hcalls]
      rfl
    · rw [if_pos rfl, List.map_singleton, List.map_singleton, hcode]

/-- So it is in a preload file, where the text is not wrapped. -/
theorem preload_dispatch_codes (s : Session (Recorder ε)) (r : PreloadReport) {unit : String}
    (hu : unit ≠ "") :
    ∃ made, (Preload.dispatch s r unit).2.evaluator.calls = s.evaluator.calls ++ made ∧
      made.map (·.code) = s.memory.aliases.resolveAll [unit] ∧
      (s.phase = .terminated → (Preload.dispatch s r unit).2.phase = .terminated) := by
  obtain ⟨aliases, hs, hres⟩ := observe_isCode s hu
  rw [hres]
  cases hc : isCode unit with
  | false =>
    rw [hc] at hs
    rw [Preload.dispatch_of_imports hs]
    exact ⟨[], (List.append_nil _).symm, rfl, id⟩
  | true =>
    rw [hc] at hs
    have hd := Preload.dispatch_of_code (r := r) hs
    simp only [prepare_eq] at hd
    generalize aliases.resolve unit = text at hd ⊢
    generalize (s.memory.tracker.track text).2 = tracker at hd
    let prepared : Session (Recorder ε) := { s with memory := { s.memory with aliases, tracker } }
    obtain ⟨call, hcode, -, hcalls⟩ := execute_calls prepared text
    have hphase := (retains_execute prepared text).phase
    obtain ⟨he, hp⟩ := preload_conclude_keeps (prepared.execute text).2 r
      (prepared.execute text).1
    rw [hd]
    refine ⟨[call], ?_, ?_, fun h => hp (hphase.trans h)⟩
    · exact (congrArg Recorder.calls he).trans hcalls
    · rw [if_pos rfl, List.map_singleton, hcode]

/-- A file that is preloaded after the end of a session is treated up to its first unit, since the
phase is looked at after the unit. -/
theorem runLines_of_terminated {s : Session (Recorder ε)} (h : s.phase = .terminated)
    (pending texts : List String) (r : PreloadReport) :
    Preload.runLines s (.holding .bracketsOnly pending) r texts =
      (Preload.firstUnit? pending texts).elim (.ok r, s) (Preload.dispatch s r) := by
  unfold Preload.firstUnit?
  induction texts generalizing pending with
  | nil =>
    rw [Preload.runLines_nil, StatementBuffer.takeRemainder_holding, Closing.cut]
    simp only [List.nil_append, List.find?_cons, List.find?_nil]
    by_cases hb : trim (gathered pending) = ""
    · simp only [hb, if_true, ne_eq, not_true_eq_false, decide_false]
    · simp only [hb, if_false, ne_eq, not_false_eq_true, decide_true]
  | cons line rest ih =>
    cases hcl : Closing.bracketsOnly.closes (pending ++ [line]) with
    | false =>
      rw [Preload.runLines_of_incomplete (StatementBuffer.feed_holding_of_open hcl),
        Closing.cut_of_open hcl]
      exact ih (pending ++ [line])
    | true =>
      have hfeed := StatementBuffer.feed_holding_of_closed hcl
      rw [Closing.cut_of_closed hcl]
      generalize trim (gathered (pending ++ [line])) = unit at hfeed ⊢
      simp only [List.cons_append, List.find?_cons]
      by_cases hb : unit = ""
      · rw [if_pos hb] at hfeed
        rw [Preload.runLines_of_blank hfeed]
        simp only [hb, ne_eq, not_true_eq_false, decide_false]
        exact ih []
      · rw [if_neg hb] at hfeed
        rw [Preload.runLines_of_complete hfeed]
        simp only [hb, ne_eq, not_false_eq_true, decide_true, Option.elim_some]
        obtain ⟨-, -, -, hphase⟩ := preload_dispatch_codes s r hb
        have hend := hphase h
        rcases hd : Preload.dispatch s r unit with ⟨_ | q, t⟩
        · rfl
        · rw [hd] at hend
          rw [Preload.afterUnit_ok, if_pos hend]

/-- A line that is submitted after the end: what it runs, and when it leaves the session ended. -/
theorem submit_of_terminated {s : Session (Recorder ε)} (h : s.phase = .terminated)
    (line : String) :
    ∃ made, (s.submit line).2.evaluator.calls = s.evaluator.calls ++ made ∧
      made.map (·.code) =
        (s.memory.aliases.resolveAll (s.closedUnit? line).toList).map wrapExpression ∧
      ((s.submit line).2.phase = .terminated ∧ made = [] ↔
        s.config.exitKeywords.contains (trim line) = true ∨ (s.buffer.feed line).1 = .blank) := by
  have hnone : s.evaluator.calls = s.evaluator.calls ++ [] := (List.append_nil _).symm
  cases hk : s.config.exitKeywords.contains (trim line) with
  | true =>
    have hclosed : s.closedUnit? line = none := if_pos hk
    rw [submit_of_keyword hk, hclosed]
    exact ⟨[], hnone, rfl, fun _ => Or.inl rfl, fun _ => ⟨rfl, rfl⟩⟩
  | false =>
    rcases hf : s.buffer.feed line with ⟨answer, buffer⟩
    have hclosed : s.closedUnit? line = answer.unit? := by
      rw [closedUnit?, if_neg (Bool.eq_false_iff.mp hk), hf]
    rw [hclosed]
    cases answer with
    | incomplete =>
      rw [submit_of_incomplete hk hf]
      refine ⟨[], hnone, rfl, fun hstill => ?_, fun hcase => ?_⟩
      · exact absurd hstill.1 nofun
      · rcases hcase with hcase | hcase
        · exact absurd hcase nofun
        · exact absurd hcase nofun
    | blank =>
      rw [submit_of_blank hk hf]
      exact ⟨[], hnone, rfl, fun _ => Or.inr rfl, fun _ => ⟨h, rfl⟩⟩
    | complete unit =>
      rw [submit_of_complete hk hf]
      obtain ⟨made, hcalls, hcodes, hphase⟩ :=
        dispatch_codes { s with buffer } (StatementBuffer.ne_empty_of_feed hf)
      refine ⟨made, hcalls, hcodes, fun hstill => ?_, fun hcase => ?_⟩
      · have hwaits := hphase hstill.2
        exact absurd (hstill.1.symm.trans hwaits) nofun
      · rcases hcase with hcase | hcase
        · exact absurd hcase nofun
        · exact absurd hcase nofun

/-- A file that is preloaded after the end runs its first unit and leaves the session ended. -/
theorem runSource_of_terminated {s : Session (Recorder ε)} (h : s.phase = .terminated)
    (source : String) :
    (Preload.runSource s source).2.phase = .terminated ∧
      ∃ made, (Preload.runSource s source).2.evaluator.calls = s.evaluator.calls ++ made ∧
        made.map (·.code) = s.memory.aliases.resolveAll
          (Preload.firstUnit? [] (Preload.scriptLines source)).toList := by
  have hrun : Preload.runSource s source =
      (Preload.firstUnit? [] (Preload.scriptLines source)).elim (.ok {}, s)
        (Preload.dispatch s {}) :=
    runLines_of_terminated h [] (Preload.scriptLines source) {}
  rw [hrun]
  cases hunit : Preload.firstUnit? [] (Preload.scriptLines source) with
  | none => exact ⟨h, [], (List.append_nil _).symm, rfl⟩
  | some unit =>
    obtain ⟨made, hcalls, hcodes, hphase⟩ :=
      preload_dispatch_codes s {} (Preload.ne_empty_of_firstUnit? hunit)
    rw [Option.elim_some]
    exact ⟨hphase h, made, hcalls, hcodes⟩

/-- An ended session stays ended without a call through exactly the idle operations. -/
theorem perform_rests_iff {s : Session (Recorder ε)} (h : s.phase = .terminated) (op : Operation) :
    (s.perform op).phase = .terminated ∧ (s.perform op).evaluator.calls = s.evaluator.calls ↔
      s.Idle op := by
  have hpreload (source : String) :
      (Preload.runSource s source).2.phase = .terminated ∧
          (Preload.runSource s source).2.evaluator.calls = s.evaluator.calls ↔
        s.memory.aliases.resolveAll
          (Preload.firstUnit? [] (Preload.scriptLines source)).toList = [] := by
    obtain ⟨hphase, made, hcalls, hcodes⟩ := runSource_of_terminated h source
    rw [hcalls, List.append_right_eq_self, ← hcodes, List.map_eq_nil_iff]
    exact and_iff_right hphase
  cases op with
  | submit line =>
    obtain ⟨made, hcalls, -, hiff⟩ := submit_of_terminated h line
    rw [perform, Idle, hcalls, List.append_right_eq_self]
    exact hiff
  | run source =>
    have hrun : s.run source = (.ok (), s, source) :=
      runEvents_of_terminated h source.history source.prompts source.upcoming
    rw [perform, Idle, hrun]
    exact iff_of_true ⟨h, rfl⟩ trivial
  | execute code =>
    obtain ⟨call, -, -, hcalls⟩ := execute_calls s code
    rw [perform, Idle, hcalls, List.append_right_eq_self]
    exact iff_of_false (fun hrests => List.cons_ne_nil call [] hrests.2) id
  | preload source =>
    rw [perform, Idle]
    exact hpreload source
  | preloadFile path content =>
    cases content with
    | ok source =>
      rw [perform, Idle, Preload.runFile]
      exact hpreload source
    | error cause =>
      have hrun : (Preload.runFile s path (.error cause)).2 = s := by
        cases cause <;> rfl
      rw [perform, Idle, hrun]
      exact iff_of_true ⟨h, rfl⟩ trivial
  | observe unit =>
    rw [perform, Idle, observe_eq]
    exact iff_of_true ⟨h, rfl⟩ trivial
  | prepare unit =>
    rw [perform, Idle, prepare_eq]
    exact iff_of_true ⟨h, rfl⟩ trivial
  | refresh =>
    have hphase := (retains_refreshSymbols s).phase
    exact iff_of_true ⟨hphase.trans h, refreshSymbols_calls s⟩ trivial
  | report e =>
    obtain ⟨hevaluator, hphase⟩ := write_keeps s (reported s.config e)
    exact iff_of_true ⟨hphase.trans h, congrArg Recorder.calls hevaluator⟩ trivial
  | terminate => exact iff_of_true ⟨rfl, rfl⟩ trivial
  | redirect console => exact iff_of_true ⟨h, rfl⟩ trivial

/-- So it stays through any number of operations exactly as long as each of them is idle in its
turn. By induction on what has been done so far: an idle operation leaves an ended session with the
same calls. -/
theorem performAll_rests_iff {s : Session (Recorder ε)} (h : s.phase = .terminated)
    (ops : List Operation) :
    (∀ done rest, ops = done ++ rest → (s.performAll done).phase = .terminated ∧
        (s.performAll done).evaluator.calls = s.evaluator.calls) ↔
      ∀ done op rest, ops = done ++ op :: rest → (s.performAll done).Idle op := by
  constructor
  · intro hrests done op rest hops
    obtain ⟨hphase, hcalls⟩ := hrests done (op :: rest) hops
    have hnext := hrests (done ++ [op]) rest (hops.trans (List.append_cons done op rest))
    have hsnoc : s.performAll (done ++ [op]) = (s.performAll done).perform op := List.foldl_append
    rw [hsnoc, ← hcalls] at hnext
    exact (perform_rests_iff hphase op).mp hnext
  · intro hidle done
    induction done generalizing s ops with
    | nil => exact fun _ _ => ⟨h, rfl⟩
    | cons op done ih =>
      intro rest hops
      have hfirst := hidle [] op (done ++ rest) hops
      obtain ⟨hphase, hcalls⟩ := (perform_rests_iff h op).mpr hfirst
      obtain ⟨hend, hsame⟩ := ih hphase (done ++ rest)
        (fun first next left hleft => hidle (op :: first) next left
          (hops.trans (congrArg (op :: ·) hleft))) rest rfl
      exact ⟨hend, hsame.trans hcalls⟩

/-- Take any session that has ended. A submitted line runs the unit that it closes, if there is code
in it; a preloaded file runs its first unit, if there is code in it, and leaves the session ended;
the read loop reads nothing and changes nothing. Whatever the session is asked to do, it stays ended
and makes no call exactly as long as no line closes a unit or leaves one open, no file has code in
its first unit and no code is executed directly. -/
theorem runs_after_end {s : Session (Recorder ε)} (h : s.phase = .terminated) :
    (∀ line, ∃ made, (s.submit line).2.evaluator.calls = s.evaluator.calls ++ made ∧
      made.map (·.code) =
        (s.memory.aliases.resolveAll (s.closedUnit? line).toList).map wrapExpression) ∧
    (∀ source, (Preload.runSource s source).2.phase = .terminated ∧
      ∃ made, (Preload.runSource s source).2.evaluator.calls = s.evaluator.calls ++ made ∧
        made.map (·.code) = s.memory.aliases.resolveAll
          (Preload.firstUnit? [] (Preload.scriptLines source)).toList) ∧
    (∀ source, s.run source = (.ok (), s, source)) ∧
    ∀ ops, (∀ done rest, ops = done ++ rest → (s.performAll done).phase = .terminated ∧
        (s.performAll done).evaluator.calls = s.evaluator.calls) ↔
      ∀ done op rest, ops = done ++ op :: rest → (s.performAll done).Idle op := by
  refine ⟨fun line => ?_, runSource_of_terminated h, fun source => ?_, performAll_rests_iff h⟩
  · obtain ⟨made, hcalls, hcodes, -⟩ := submit_of_terminated h line
    exact ⟨made, hcalls, hcodes⟩
  · exact runEvents_of_terminated h source.history source.prompts source.upcoming

/-- The end of input leaves an open call behind, and the line that closes it runs it. -/
theorem runs_after_end_of_input :
    let s := ((start ({ evaluator := {} } : Recorder Script) {}).run ⟨[.line "g("], {}, []⟩).2.1
    s.phase = .terminated ∧ s.closedUnit? ");" = some "g(\n);" ∧
    Preload.firstUnit? [] (Preload.scriptLines "<?php\n\nf();\nh();") = some "f();" ∧
    ((s.submit ");").2.evaluator.calls.map (·.code) = ["g(\n);"]) ∧
    (Preload.runSource s "<?php\n\nf();\nh();").2.phase = .terminated ∧
    (Preload.runSource s "<?php\n\nf();\nh();").2.evaluator.calls.map (·.code) = ["f();"] := by
  intro s
  have hend : s.phase = .terminated := by decide +kernel
  have hcalls : s.evaluator.calls = [] := rfl
  have halias : s.memory.aliases = ∅ := rfl
  have hunit : s.closedUnit? ");" = some "g(\n);" := by decide +kernel
  have hfirst : Preload.firstUnit? [] (Preload.scriptLines "<?php\n\nf();\nh();") =
      some "f();" := by decide +kernel
  obtain ⟨hsubmit, hpreload, -, -⟩ := runs_after_end hend
  obtain ⟨typed, htyped, hcodes⟩ := hsubmit ");"
  obtain ⟨hstays, loaded, hloaded, hloadedCodes⟩ := hpreload "<?php\n\nf();\nh();"
  rw [hcalls, List.nil_append] at htyped hloaded
  rw [halias, hunit] at hcodes
  rw [halias, hfirst] at hloadedCodes
  refine ⟨hend, hunit, hfirst, ?_, hstays, ?_⟩
  · rw [htyped, hcodes]
    decide +kernel
  · rw [hloaded, hloadedCodes]
    decide +kernel

/-- An exit line ends the session; the next line is run all the same and wakes it up, and so is the
first unit of a file, though not the second. -/
theorem line_runs_after_exit :
    let s := ((start ({ evaluator := {} } : Recorder Script) {}).submit "exit").2
    s.phase = .terminated ∧ s.evaluator.calls.map (·.code) = [] ∧
    (s.submit "f();").2.evaluator.calls.map (·.code) = ["f();"] ∧
    (s.submit "f();").2.phase = .single ∧
    (Preload.runSource s "f();\ng();").2.evaluator.calls.map (·.code) = ["f();"] := by
  decide +kernel

end Session

end ScriptShell

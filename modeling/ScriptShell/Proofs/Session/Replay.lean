import ScriptShell.Proofs.Alias.Ending
import ScriptShell.Proofs.Alias.Invisible
import ScriptShell.Proofs.Session.Dispatch
import ScriptShell.Proofs.Session.Transcript
import ScriptShell.Proofs.Statement.Totals

/-!
A preload file and the same lines typed one by one. The two are treated by different loops, which
gather lines up to different closings, wrap units differently and show different things. On lines
that no quote is left open in, and with units that end like statements, they run in lockstep.
-/

namespace ScriptShell

open Text

/-- No quote is left open in this line. -/
def EvenQuotes (line : String) : Prop :=
  countUnescaped '\'' line.toList % 2 = 0 ∧ countUnescaped '"' line.toList % 2 = 0

instance : DecidablePred EvenQuotes := fun _ => inferInstanceAs (Decidable (_ ∧ _))

/-- Lines that leave no quote open leave none open together. -/
theorem even_countUnescaped_gathered {quote : Char} (hq : quote ≠ '\n') {texts : List String}
    (h : ∀ line ∈ texts, countUnescaped quote line.toList % 2 = 0) :
    countUnescaped quote (gathered texts).toList % 2 = 0 := by
  induction texts with
  | nil => rfl
  | cons line texts ih =>
    obtain ⟨hline, htexts⟩ := List.forall_mem_cons.mp h
    have hrest := ih htexts
    rw [toList_gathered_cons, countUnescaped_append_newline hq]
    omega

/-- Where no line leaves a quote open, brackets alone decide what is closed. -/
theorem closes_of_evenQuotes {texts : List String} (h : ∀ line ∈ texts, EvenQuotes line) :
    Closing.bracketsAndQuotes.closes texts = Closing.bracketsOnly.closes texts := by
  have hsingle := even_countUnescaped_gathered (by decide) fun line hl => (h line hl).1
  have hdouble := even_countUnescaped_gathered (by decide) fun line hl => (h line hl).2
  simp only [Closing.closes, Closing.closed]
  rw [hsingle, hdouble]
  rfl

/-- The call left no value that would be shown. -/
def EvaluatorCall.isSilent (call : EvaluatorCall) : Bool :=
  match call.outcome with
  | .ok e => e.result.all Value.isNull
  | .error _ => true

/-- Without a value a unit is shown alike, typed or preloaded. -/
theorem EvaluatorCall.shown_of_isSilent {call : EvaluatorCall} (h : call.isSilent = true)
    (config : SessionConfig) :
    Session.shownAfter config call.outcome = Passage.shownPreloaded config call.outcome := by
  unfold isSilent at h
  cases ho : call.outcome with
  | error e => rfl
  | ok e =>
    simp only [ho] at h
    simp only [Session.shownAfter, Session.displayed, Passage.shownPreloaded]
    cases hr : e.result with
    | none => exact String.append_empty
    | some v =>
      rw [hr, Option.all_some] at h
      simp only [h, if_true]
      exact String.append_empty

namespace Session

variable {ε : Type} [Evaluator ε]

/-- Submit lines one by one until the session ends. -/
def submitLines (s : Session ε) : List String → Except TerminalError Unit × Session ε
  | [] => (.ok (), s)
  | line :: rest =>
    if s.phase = .terminated then (.ok (), s)
    else match s.submit line with
      | (.ok (), s) => s.submitLines rest
      | failed => failed

theorem submitLines_of_terminated {s : Session ε} (h : s.phase = .terminated)
    (texts : List String) : s.submitLines texts = (.ok (), s) := by
  cases texts with
  | nil => rfl
  | cons line rest => rw [submitLines, if_pos h]

theorem submitLines_of_ok {s t : Session ε} {line : String} (h : s.phase ≠ .terminated)
    (hs : s.submit line = (.ok (), t)) (rest : List String) :
    s.submitLines (line :: rest) = t.submitLines rest := by
  rw [submitLines, if_neg h, hs]

/-- Code comes to the same wherever evaluator and memory are the same. -/
theorem execute_congr {s t : Session ε} (he : t.evaluator = s.evaluator)
    (hm : t.memory = s.memory) (code : String) :
    (t.execute code).1 = (s.execute code).1 ∧
      (t.execute code).2.evaluator = (s.execute code).2.evaluator ∧
      (t.execute code).2.memory = (s.execute code).2.memory := by
  rcases h : Evaluator.evaluate s.evaluator code s.memory.context with ⟨outcome, evaluator⟩
  have ht : Evaluator.evaluate t.evaluator code t.memory.context = (outcome, evaluator) := by
    rw [he, hm, h]
  cases outcome with
  | error e =>
    rw [execute_of_error h, execute_of_error ht]
    exact ⟨rfl, rfl, hm⟩
  | ok evaluation =>
    rw [execute_of_ok h, execute_of_ok ht, hm]
    rcases hl : Evaluator.symbols evaluator with ⟨answer, asked⟩
    cases answer with
    | ok symbols =>
      rw [refreshSymbols_of_ok hl, refreshSymbols_of_ok hl]
      exact ⟨rfl, rfl, rfl⟩
    | error e =>
      rw [refreshSymbols_of_error hl, refreshSymbols_of_error hl]
      exact ⟨rfl, rfl, rfl⟩

/-- Two sessions that have made the same calls since the earlier ones. -/
structure Lockstep (earlier made : List EvaluatorCall) (p t : Session (Recorder ε)) : Prop where
  evaluator : t.evaluator = p.evaluator
  memory : t.memory = p.memory
  config : t.config = p.config
  preloadOpen : p.console.closed = false
  typedOpen : t.console.closed = false
  calls : p.evaluator.calls = earlier ++ made
  written : (∀ call ∈ made, call.isSilent = true) → t.console.written = p.console.written

/-- A unit that ends like a statement is treated alike, preloaded or typed: it is not wrapped, so
both run the same code. -/
theorem Lockstep.dispatch {earlier made : List EvaluatorCall} {p t : Session (Recorder ε)}
    (h : Lockstep earlier made p t) (hp : p.phase = .single) (r : PreloadReport) {unit : String}
    (hu : unit ≠ "") (hends : isCode unit = true → endsStatement unit = true) :
    ∃ q more p' t', Preload.dispatch p r unit = (.ok q, p') ∧ t.dispatch unit = (.ok (), t') ∧
      Lockstep earlier more p' t' ∧ t'.phase = p'.phase ∧
      (p'.phase = .single ∨ p'.phase = .terminated) ∧ t'.buffer = t.buffer ∧
      t'.config = t.config := by
  have hc := p.memory.aliases.isCode_eq hu
  have hsp := observe_eq p unit
  have hst := observe_eq t unit
  rw [h.memory] at hst
  have hkeeps :=
    @AliasTable.endsStatement_resolve_of_endsStatement (p.memory.aliases.observe unit).2 unit
  generalize (p.memory.aliases.observe unit).2 = aliases at hsp hst hkeeps
  cases ho : (p.memory.aliases.observe unit).1 with
  | true =>
    rw [ho] at hsp hst
    refine ⟨_, made, _, _, Preload.dispatch_of_imports hsp, dispatch_of_imports hst, ?_, hp.symm,
      Or.inl hp, rfl, rfl⟩
    exact ⟨h.evaluator, rfl, h.config, h.preloadOpen, h.typedOpen, h.calls, h.written⟩
  | false =>
    rw [ho] at hc hsp hst
    have hdp := Preload.dispatch_of_code (r := r) hsp
    have hdt := dispatch_of_code hst
    simp only [prepare_eq] at hdp hdt
    generalize aliases.resolve unit = text at hdp hdt hkeeps
    generalize (p.memory.tracker.track text).2 = tracker at hdp hdt
    rw [(wrapExpression_eq_self_iff text).mpr (hkeeps (hends hc))] at hdt
    let a : Session (Recorder ε) := { p with memory := { p.memory with aliases, tracker } }
    let b : Session (Recorder ε) :=
      executing { t with memory := { p.memory with aliases, tracker } }
    obtain ⟨hsame, hevaluator, hmemory⟩ := execute_congr (s := a) (t := b) h.evaluator rfl text
    obtain ⟨call, -, hout, hcalls⟩ := execute_calls a text
    have hka := retains_execute a text
    have hkb := retains_execute b text
    have hpopen : (a.execute text).2.console.closed = false := by
      rw [hka.console]
      exact h.preloadOpen
    have htopen : (b.execute text).2.console.closed = false := by
      rw [hkb.console]
      exact h.typedOpen
    obtain ⟨q, p', hpok, hpc, hpphase⟩ := preload_conclude_of_open hpopen r (a.execute text).1
    obtain ⟨t', htok, htc, htphase, htbuffer⟩ := conclude_of_open htopen (b.execute text).1
    have hphase : p'.phase = phaseAfter call.outcome := by
      rw [hpphase (hka.phase.trans hp), hout]
    refine ⟨q, made ++ [call], p', t', hdp.trans hpok, hdt.trans htok, ?_, ?_, ?_, ?_, ?_⟩
    · refine ⟨?_, ?_, ?_, ?_, ?_, ?_, ?_⟩
      · rw [htc.evaluator, hpc.evaluator, hevaluator]
      · rw [htc.memory, hpc.memory, hmemory]
      · rw [htc.config, hpc.config, hkb.config, hka.config]
        exact h.config
      · rw [hpc.console, hka.console]
        exact h.preloadOpen
      · rw [htc.console, hkb.console]
        exact h.typedOpen
      · rw [hpc.evaluator, hcalls, ← List.append_assoc]
        exact congrArg (· ++ [call]) h.calls
      · intro hsilent
        have hmade := h.written fun c hc => hsilent c (List.mem_append_left _ hc)
        have hshown := call.shown_of_isSilent (hsilent call List.mem_concat_self) p.config
        have hconfig : (b.execute text).2.config = p.config := hkb.config.trans h.config
        rw [htc.console, hpc.console, hsame, hout, hconfig, hka.config, hkb.console, hka.console]
        change t.console.written ++ shownAfter p.config call.outcome =
          p.console.written ++ Passage.shownPreloaded p.config call.outcome
        rw [hmade, hshown]
    · rw [htphase, hsame, hout, hphase]
    · rw [hphase]
      cases call.outcome with
      | ok e => exact Or.inl rfl
      | error e =>
        simp only [phaseAfter]
        split
        · exact Or.inr rfl
        · exact Or.inl rfl
    · rw [htbuffer, hkb.buffer]
      rfl
    · rw [htc.config, hkb.config]
      rfl

/-- The two loops run in lockstep over lines that leave no quote open, as long as the units end like
statements. Between lines the typed session holds the pending lines, the preload's own buffer holds
the same, and the phase says whether there are any. -/
theorem Lockstep.run {earlier made : List EvaluatorCall} {p t : Session (Recorder ε)}
    (h : Lockstep earlier made p t) (hp : p.phase = .single) {pending texts : List String}
    (hb : t.buffer = .holding .bracketsAndQuotes pending)
    (ht : t.phase = if pending = [] then .single else .continuation)
    (hopen : pending = [] ∨ Closing.bracketsOnly.closes pending = false)
    (heven : ∀ line ∈ pending ++ texts, EvenQuotes line)
    (hexit : ∀ line ∈ texts, t.config.exitKeywords.contains (trim line) = false)
    (hends : ∀ unit ∈ (Closing.bracketsAndQuotes.cut pending texts).1,
      isCode unit = true → endsStatement unit = true)
    (hleft : (Closing.bracketsAndQuotes.cut pending texts).2 = []) (r : PreloadReport) :
    ∃ q more p' t', Preload.runLines p (.holding .bracketsOnly pending) r texts = (.ok q, p') ∧
      t.submitLines texts = (.ok (), t') ∧ Lockstep earlier more p' t' ∧ t'.phase = p'.phase := by
  induction texts generalizing made p t pending r with
  | nil =>
    have hnil : pending = [] := hleft
    rw [hnil] at ht ⊢
    rw [Preload.runLines_nil]
    exact ⟨r, made, p, t, rfl, rfl, h, ht.trans hp.symm⟩
  | cons line rest ih =>
    obtain ⟨hkeyword, hexit⟩ := List.forall_mem_cons.mp hexit
    have halive : t.phase ≠ .terminated := by
      rw [ht]
      split
      · exact nofun
      · exact nofun
    have hsplit : (pending ++ [line]) ++ rest = pending ++ line :: rest := by
      rw [List.append_assoc, List.singleton_append]
    have hpending : ∀ l ∈ pending ++ [line], EvenQuotes l := fun l hl =>
      heven l (hsplit ▸ List.mem_append_left rest hl)
    have hrest : ∀ l ∈ rest, EvenQuotes l := fun l hl =>
      heven l (hsplit ▸ List.mem_append_right _ hl)
    have hsame := closes_of_evenQuotes hpending
    cases hcl : Closing.bracketsOnly.closes (pending ++ [line]) with
    | false =>
      rw [hcl] at hsame
      rw [Closing.cut_of_open hsame] at hends hleft
      have hfeed := StatementBuffer.feed_holding_of_open hsame
      rw [← hb] at hfeed
      rw [Preload.runLines_of_incomplete (StatementBuffer.feed_holding_of_open hcl),
        submitLines_of_ok halive (submit_of_incomplete hkeyword hfeed)]
      refine ih (t := { t with
        buffer := .holding .bracketsAndQuotes (pending ++ [line]), phase := .continuation })
        ⟨h.1, h.2, h.3, h.4, h.5, h.6, h.7⟩ hp rfl ?_ (Or.inr hcl) ?_ hexit hends hleft r
      · have hne : pending ++ [line] ≠ [] :=
          List.append_ne_nil_of_right_ne_nil pending (List.cons_ne_nil line [])
        rw [if_neg hne]
      · rw [hsplit]
        exact heven
    | true =>
      rw [hcl] at hsame
      rw [Closing.cut_of_closed hsame] at hends hleft
      obtain ⟨hunit, hends⟩ := List.forall_mem_cons.mp hends
      have hfeedp := StatementBuffer.feed_holding_of_closed hcl
      have hfeedt := StatementBuffer.feed_holding_of_closed hsame
      rw [← hb] at hfeedt
      by_cases hblank : trim (gathered (pending ++ [line])) = ""
      · have hnil : pending = [] :=
          hopen.resolve_right fun ho => trim_ne_empty_of_open ho line hblank
        rw [if_pos hblank] at hfeedp hfeedt
        rw [if_pos hnil] at ht
        rw [Preload.runLines_of_blank hfeedp,
          submitLines_of_ok halive (submit_of_blank hkeyword hfeedt)]
        exact ih (t := { t with buffer := .holding .bracketsAndQuotes [] })
          ⟨h.1, h.2, h.3, h.4, h.5, h.6, h.7⟩ hp rfl ht (Or.inl rfl) hrest hexit hends hleft r
      · rw [if_neg hblank] at hfeedp hfeedt
        have hb' : Lockstep earlier made p
            { t with buffer := .holding .bracketsAndQuotes [] } :=
          ⟨h.1, h.2, h.3, h.4, h.5, h.6, h.7⟩
        obtain ⟨q, more, p', t', hdp, hdt, hstep, hphase, hnext, hbuffer, hconfig⟩ :=
          hb'.dispatch hp r hblank hunit
        rw [Preload.runLines_of_complete hfeedp, hdp,
          submitLines_of_ok halive ((submit_of_complete hkeyword hfeedt).trans hdt),
          Preload.afterUnit_ok]
        rcases hnext with hsingle | hended
        · rw [if_neg (by rw [hsingle]; exact nofun)]
          exact ih hstep hsingle hbuffer (hphase.trans hsingle) (Or.inl rfl) hrest
            (hconfig ▸ hexit) hends hleft q
        · rw [if_pos hended, submitLines_of_terminated (hphase.trans hended)]
          exact ⟨q, more, p', t', rfl, rfl, hstep, hphase⟩

/-- Take a session that waits for a line with nothing pending, whatever its evaluator, its aliases,
its bindings and its variables, and a script that leaves no quote open on any line and nothing open
at the end, holds no exit line, and whose units other than imports end like statements. To preload
it and to submit its lines one by one are then the same: the same calls with the same bindings in
the same order, the same memory and the same phase, and the same text as long as no call leaves a
value. -/
theorem preload_eq_submitLines {s : Session (Recorder ε)} (hphase : s.phase = .single)
    (hbuffer : s.buffer = {}) (hopen : s.console.closed = false) {source : String}
    (heven : ∀ line ∈ Preload.scriptLines source, EvenQuotes line)
    (hexit : ∀ line ∈ Preload.scriptLines source,
      s.config.exitKeywords.contains (trim line) = false)
    (hends : ∀ unit ∈ (Closing.bracketsAndQuotes.cut [] (Preload.scriptLines source)).1,
      isCode unit = true → endsStatement unit = true)
    (hleft : (Closing.bracketsAndQuotes.cut [] (Preload.scriptLines source)).2 = []) :
    ∃ report p t, Preload.runSource s source = (.ok report, p) ∧
      s.submitLines (Preload.scriptLines source) = (.ok (), t) ∧
      t.evaluator.calls = p.evaluator.calls ∧ t.evaluator = p.evaluator ∧
      t.memory = p.memory ∧ t.phase = p.phase ∧
      ∃ made, p.evaluator.calls = s.evaluator.calls ++ made ∧
        ((∀ call ∈ made, call.isSilent = true) → t.console.written = p.console.written) := by
  have h : Lockstep s.evaluator.calls [] s s :=
    ⟨rfl, rfl, rfl, hopen, hopen, (List.append_nil _).symm, fun _ => rfl⟩
  rw [Preload.runSource]
  generalize Preload.scriptLines source = texts at heven hexit hends hleft ⊢
  have hb : s.buffer = .holding .bracketsAndQuotes [] := hbuffer
  obtain ⟨report, made, p, t, hp, ht, hstep, hend⟩ :=
    h.run hphase hb hphase (Or.inl rfl) heven hexit hends hleft {}
  exact ⟨report, p, t, hp, ht, congrArg Recorder.calls hstep.evaluator, hstep.evaluator,
    hstep.memory, hend, made, hstep.calls, hstep.written⟩

/-- An import, a blank line, a unit that fails and one that is spread over lines. -/
theorem preload_eq_submitLines_imports :
    let replies : List (Except EvalError Reply) :=
      [.error (.parse "unexpected" none), .ok { output := "hi" }]
    let s : Session (Recorder Script) := { evaluator := { evaluator := { replies } } }
    let source := "<?php\nuse A\\B;\n\nf('x'); \nnew B(\n);\n\n?>\n"
    let texts := Preload.scriptLines source
    s.phase = .single ∧ s.buffer = {} ∧ s.console.closed = false ∧
    (∀ line ∈ texts, EvenQuotes line) ∧
    (∀ line ∈ texts, s.config.exitKeywords.contains (trim line) = false) ∧
    (∀ unit ∈ (Closing.bracketsAndQuotes.cut [] texts).1,
      isCode unit = true → endsStatement unit = true) ∧
    (Closing.bracketsAndQuotes.cut [] texts).2 = [] ∧
    (s.submitLines texts).2.evaluator.calls.map (·.code) = ["f('x');", "new A\\B(\n);"] ∧
    (s.submitLines texts).2.console.written = "Parse error: unexpected\nhi\n" ∧
    ∃ report p t, Preload.runSource s source = (.ok report, p) ∧
      s.submitLines texts = (.ok (), t) ∧ t.evaluator.calls = p.evaluator.calls := by
  intro replies s source texts
  have heven : ∀ line ∈ texts, EvenQuotes line := by decide +kernel
  have hexit : ∀ line ∈ texts, s.config.exitKeywords.contains (trim line) = false := by
    decide +kernel
  have hends : ∀ unit ∈ (Closing.bracketsAndQuotes.cut [] texts).1,
      isCode unit = true → endsStatement unit = true := by decide +kernel
  have hleft : (Closing.bracketsAndQuotes.cut [] texts).2 = [] := by decide +kernel
  obtain ⟨report, p, t, hp, ht, hcalls, -⟩ :=
    @preload_eq_submitLines Script _ s rfl rfl rfl source heven hexit hends hleft
  exact ⟨rfl, rfl, rfl, heven, hexit, hends, hleft, by decide +kernel, by decide +kernel, report, p,
    t, hp, ht, hcalls⟩

end Session

end ScriptShell

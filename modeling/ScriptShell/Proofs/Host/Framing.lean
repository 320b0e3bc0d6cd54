import ScriptShell.Proofs.Host.Exchange

/-!
Which answer a request is given. Replies are handed out in the order in which the output holds
them, so a request is given its own frame as long as all output before it was text without the
marker; once it was not, a frame stays behind and every later request is given an older one.
-/

namespace ScriptShell

open Text Connection

/-- A host that gives answers from a list, and then the last one for ever. -/
structure AnswerQueue where
  upcoming : List Answer
  last : Answer

namespace AnswerQueue

def answer (q : AnswerQueue) : Answer × AnswerQueue :=
  match q.upcoming with
  | [] => (q.last, q)
  | a :: rest => (a, { q with upcoming := rest })

instance : HostProcess AnswerQueue := ⟨fun q _ => ((q.answer.1.bytes, false), q.answer.2)⟩

def reply (q : AnswerQueue) (past : List String) (_ : String) : Answer :=
  q.upcoming.getD past.length q.last

theorem answers_reply (q : AnswerQueue) : HostProcess.Answers q q.reply := by
  have hafter (q : AnswerQueue) (past : List String) :
      (HostProcess.after q past).answer.1 = q.upcoming.getD past.length q.last := by
    induction past generalizing q with
    | nil =>
      obtain ⟨upcoming, last⟩ := q
      cases upcoming with
      | nil => rfl
      | cons a rest => rfl
    | cons line past ih =>
      obtain ⟨upcoming, last⟩ := q
      refine (ih _).trans ?_
      cases upcoming with
      | nil => rfl
      | cons a rest => rfl
  intro past line
  exact congrArg (fun a => (a.bytes, false)) (hafter q past)

/-- The first answer comes after a byte that is no text. -/
def first : Answer where
  stray := [0xff]
  payload := "\x7b\"status\":\"ok\",\"output\":\"first\",\"generation\":1\x7d".toList
  response := .ok none ∅ "first" 1
  oneLine := by decide
  decodes := by decide

/-- The marker stands in the answer, and the text before it ends in two line endings. -/
def second : Answer where
  stray := encodeUtf8 "é\r\n\r\n".toList
  payload := "\x7b\"status\":\"ok\",\"output\":\"@@scriptify@@ \",\"generation\":1\x7d\r".toList
  response := .ok none ∅ "@@scriptify@@ " 1
  oneLine := by decide
  decodes := by decide

theorem outcomes_first :
    first.outcomes =
      [.error (.io IoError.invalidEncoding.message), .ok (first.response, "")] := by
  have hpieces : pieces 10 (first.stray ++ [10]) = [([0xff], true)] := by decide
  have hbad : outcomeAt? [] ([0xff], true) =
      some (.error (.io IoError.invalidEncoding.message)) := rfl
  rw [Answer.outcomes, Answer.pieces_bytes, hpieces, List.singleton_append, Connection.outcomes,
    hbad]
  simp only
  rw [Connection.outcomes, first.outcomeAt?_line]
  rfl

def garbled : AnswerQueue := ⟨[first], second⟩

end AnswerQueue

namespace Connection

variable {η : Type} [HostProcess η] {host : η} {reply : List String → String → Answer}
  {lines : List String} {c : Connection η}

/-- A host that answers the first request with nothing but text and a frame that says it is ready is
connected to, and no output of it is left. -/
theorem open?_of_ready (ha : HostProcess.Answers host reply) (binary : String)
    {bootstrap : Option String} {env : NameMap String} {version : String} {generation : Nat}
    {text : List Char} :
    let line := (Request.init bootstrap env).encode
    (reply [] line).response = .ready version generation → (reply [] line).HasText text →
      ∃ c, (open? host binary bootstrap env).1 = .ok c ∧ c.alive = true ∧ c.unread = [] ∧
        HostProcess.Answers c.host fun past => reply (line :: past) := by
  intro line hready htext
  have hexchange := exchange_of_alive (c := { host }) rfl (r := .init bootstrap env) (ha [] line)
  rw [List.nil_append, Answer.readFrame_of_hasText htext, hready] at hexchange
  unfold open?
  simp only [hexchange]
  exact ⟨_, rfl, rfl, rfl, fun past => ha (line :: past)⟩

/-- With nothing but text without the marker before it, a frame is read by the request that it
answers, and the text with it. -/
theorem Served.exchange_of_hasText (h : Served host reply lines c)
    (ha : HostProcess.Answers host reply)
    (hpast : ∀ a ∈ answersTo reply [] lines, ∃ text, a.HasText text) {r : Request}
    {text : List Char} (htext : (reply lines r.encode).HasText text) :
    (c.exchange r).1 = .ok ((reply lines r.encode).response, String.ofList text) := by
  have htaken := (h.exchange ha r).1
  have hlength := (length_outcomesOf_eq_iff _).mpr hpast
  rw [length_answersTo] at hlength
  rw [outcomesOf_answersTo_concat, Answer.outcomes_of_hasText htext,
    List.getElem?_append_right (Nat.le_of_eq hlength), hlength, Nat.sub_self] at htaken
  exact (Option.some.inj htaken).symm

/-- The replies that the output holds are given to the requests in their order, none of them is a
fatal failure, and the last of them is the frame of the last request. So that request is given its
own frame if and only if all output so far was text without the marker, whatever failures there
were. -/
theorem exchange_takes_next {c : Connection η} (halive : c.alive = true) (hunread : c.unread = [])
    (ha : HostProcess.Answers c.host reply) (history : List Query) (r : Request) :
    let past := c.sent history
    let answers := answersTo reply [] (past ++ [r.encode])
    (∀ q e, (c.askAll history).failure? q = some e → e.isFatal = false) ∧
    (outcomesOf answers)[past.length]? = some ((c.askAll history).exchange r).1 ∧
    (∃ text, (outcomesOf answers).getLast? = some (.ok ((reply past r.encode).response, text))) ∧
    ((outcomesOf answers).length = past.length + 1 ↔ ∀ a ∈ answers, ∃ text, a.HasText text) := by
  intro past answers
  have hserved := (served_of_unread_nil reply halive hunread).askAll ha history
  rw [List.nil_append] at hserved
  refine ⟨?_, (hserved.exchange ha r).1, ?_, ?_⟩
  · intro q e he
    exact isFatal_of_failure? (fun r e he => hserved.isFatal_of_exchange ha he) he
  · obtain ⟨text, hlast⟩ := (reply past r.encode).getLast?_outcomes
    refine ⟨text, ?_⟩
    rw [outcomesOf_answersTo_concat, List.getLast?_append, hlast, Option.some_or]
  · have hlength : answers.length = past.length + 1 := by
      rw [length_answersTo, List.length_append]
      rfl
    rw [← hlength]
    exact length_outcomesOf_eq_iff answers

theorem exchange_takes_next_garbled :
    let c : Connection AnswerQueue := { host := .garbled }
    c.alive = true ∧ c.unread = [] ∧
    HostProcess.Answers AnswerQueue.garbled AnswerQueue.garbled.reply ∧
    (outcomesOf (answersTo AnswerQueue.garbled.reply []
      (c.sent [.unit "f();" ∅] ++ [Request.symbols.encode])))[(c.sent [.unit "f();" ∅]).length]? =
        some ((c.askAll [.unit "f();" ∅]).exchange .symbols).1 := by
  intro c
  have h := exchange_takes_next (c := c) rfl rfl AnswerQueue.garbled.answers_reply
    [.unit "f();" ∅] .symbols
  exact ⟨rfl, rfl, AnswerQueue.garbled.answers_reply, h.2.1⟩

/-- One byte that is no text fails the first unit, not fatally; its frame stays behind and is given
to the second unit in place of the frame that answers that. -/
theorem evaluate_given_older_frame :
    let c : Connection AnswerQueue := { host := .garbled }
    let failure := EvalError.io IoError.invalidEncoding.message
    let d := (c.evaluate "f();" ∅).2
    (c.evaluate "f();" ∅).1 = .error failure ∧ failure.isFatal = false ∧
    (d.evaluate "g();" ∅).1 = .ok { output := "first" } ∧
    (AnswerQueue.garbled.reply [(Request.ofUnit "f();" ∅).encode]
      (Request.ofUnit "g();" ∅).encode).response = .ok none ∅ "@@scriptify@@ " 1 := by
  intro c failure d
  have ha := AnswerQueue.garbled.answers_reply
  have hserved := served_of_unread_nil AnswerQueue.garbled.reply (c := c) rfl rfl
  have hfirst := AnswerQueue.outcomes_first
  obtain ⟨htaken, hnext⟩ := hserved.exchange ha (.ofUnit "f();" ∅)
  have hwire := hnext.of_sameWire (c.evaluate_spec "f();" ∅).2
  obtain ⟨htaken', -⟩ := hwire.exchange ha (.ofUnit "g();" ∅)
  rw [outcomesOf_answersTo_concat] at htaken htaken'
  have hone : outcomesOf (answersTo AnswerQueue.garbled.reply [] []) ++
      (AnswerQueue.garbled.reply [] (Request.ofUnit "f();" ∅).encode).outcomes =
        AnswerQueue.first.outcomes := rfl
  rw [hone, hfirst] at htaken
  refine ⟨?_, rfl, ?_, rfl⟩
  · rw [(c.evaluate_spec "f();" ∅).1, ← Option.some.inj htaken]
    rfl
  · rw [List.nil_append, ← List.nil_append [(Request.ofUnit "f();" ∅).encode],
      outcomesOf_answersTo_concat, hone, hfirst] at htaken'
    rw [(d.evaluate_spec "g();" ∅).1, ← Option.some.inj htaken']
    rfl

/-- Output that is text without the marker is recovered exactly, and every request is given the
answer to it: the answer that the document spells with the text before it, and for a unit that came
to a value the text followed by the output in the answer. -/
theorem exchange_recovers {c : Connection η} (halive : c.alive = true) (hunread : c.unread = [])
    (ha : HostProcess.Answers c.host reply) {text : List String → String → List Char}
    (htext : ∀ past line, (reply past line).HasText (text past line)) (history : List Query) :
    let past := c.sent history
    (∀ r : Request, ((c.askAll history).exchange r).1 =
      .ok ((reply past r.encode).response, String.ofList (text past r.encode))) ∧
    ∀ code given result bindings output generation,
      let line := (Request.ofUnit code given).encode
      (reply past line).response = .ok result bindings output generation →
        ((c.askAll history).evaluate code given).1 =
          .ok { result, bindings, output := String.ofList (text past line) ++ output } := by
  intro past
  have hserved := (served_of_unread_nil reply halive hunread).askAll ha history
  rw [List.nil_append] at hserved
  have hall (past lines : List String) :
      ∀ a ∈ answersTo reply past lines, ∃ text, a.HasText text := by
    induction lines generalizing past with
    | nil => exact fun a h => absurd h List.not_mem_nil
    | cons line lines ih => exact List.forall_mem_cons.mpr ⟨⟨_, htext past line⟩, ih _⟩
  have hreply (r : Request) := hserved.exchange_of_hasText ha (hall [] past) (htext past r.encode)
  refine ⟨hreply, ?_⟩
  intro code given result bindings output generation line hresponse
  rw [((c.askAll history).evaluate_spec code given).1, hreply, hresponse]
  rfl

theorem exchange_recovers_second :
    let q : AnswerQueue := ⟨[], AnswerQueue.second⟩
    let c : Connection AnswerQueue := { host := q }
    let text := "é\r\n\r\n".toList
    c.alive = true ∧ c.unread = [] ∧ HostProcess.Answers q q.reply ∧
    (∀ past line, (q.reply past line).HasText text) ∧
    ((c.askAll [.unit "f();" ∅]).evaluate "g();" ∅).1 =
      .ok { output := String.ofList text ++ "@@scriptify@@ " } := by
  intro q c text
  have htext (past : List String) (line : String) : (q.reply past line).HasText text :=
    ⟨rfl, Frame.cutAt?_eq_none_iff.mp (by decide)⟩
  have h := exchange_recovers (c := c) rfl rfl q.answers_reply htext [.unit "f();" ∅]
  exact ⟨rfl, rfl, q.answers_reply, htext, h.2 "g();" ∅ none ∅ "@@scriptify@@ " 1 rfl⟩

end Connection

end ScriptShell

import ScriptShell.Proofs.Host.Framing
import ScriptShell.Proofs.Session.StandIn
import ScriptShell.Proofs.Session.Transcript

/-!
What becomes of the output of a unit that a host ran. With a value, the text before the frame and
the output in it are written before the value; with a failure neither is written.
-/

namespace ScriptShell

open Text Connection

/-- The request for a unit, and the reply to it. -/
structure Asked where
  request : Request
  reply : Outcome

/-- What the unit came to. -/
def Asked.outcome (a : Asked) : Except EvalError Evaluation := evaluationOf a.request a.reply

/-- A connection, and what it was asked to run. -/
structure Tap (η : Type) where
  connection : Connection η
  asked : List Asked := []

namespace Tap

variable {η : Type} [HostProcess η]

def evaluate (t : Tap η) (code : String) (given : Bindings) :
    Except EvalError Evaluation × Tap η :=
  let (outcome, connection) := t.connection.evaluate code given
  let request := Request.ofUnit code given
  (outcome,
    { connection, asked := t.asked ++ [{ request, reply := (t.connection.exchange request).1 }] })

def symbols (t : Tap η) : Except EvalError Symbols × Tap η :=
  let (listing, connection) := t.connection.symbols
  (listing, { t with connection })

instance : Evaluator (Tap η) := ⟨evaluate, symbols⟩

/-- The replies say what the units came to. -/
def account (η : Type) [HostProcess η] : Account (Tap η) Asked where
  log := asked
  outcome := Asked.outcome
  evaluate t code given := ⟨_, rfl, (t.connection.evaluate_spec code given).1⟩
  symbols _ := rfl

/-- The connection is asked the same and answers the same. -/
theorem standsFor (η : Type) [HostProcess η] :
    StandsFor (connection : Tap η → Connection η) where
  evaluate _ _ _ := rfl
  symbols _ := rfl

end Tap

/-- How a passage ends when there is this value: only that of a typed unit is shown. -/
def Passage.valueText {α : Type} : Passage α → Option Value → String
  | .typed _, some v => if v.isNull then "" else v.repr ++ "\n"
  | _, _ => ""

namespace Session

variable {η : Type} [HostProcess η]

/-- The same session, with a record of what its connection is asked. -/
def tapped (s : Session (Connection η)) : Session (Tap η) := s.map fun connection => { connection }

/-- The record plays no part in what is shown. -/
theorem console_tapped (s : Session (Connection η)) (ops : List Operation) :
    (s.tapped.performAll ops).console = (s.performAll ops).console :=
  (congrArg console (map_performAll (Tap.standsFor η) s.tapped ops)).symm

/-- Whatever is submitted, read or preloaded, one passage is written for each unit that the host
was asked to run, in the order of the requests. If the answer is a value, the passage is all text
that the host produced for the unit, the text before the frame and the output in it, on lines of
their own, and then the value. If the answer is a failure, the passage is the report of it alone:
that text is not written, whatever it was. -/
theorem output_written_of_value {s : Session (Connection η)} (h : s.console.closed = false)
    {ops : List Operation} (hops : ∀ op ∈ ops, op.isShown = true) :
    ∃ passages : List (Passage Asked),
      let text := Passage.text Asked.outcome s.config
      (s.performAll ops).console.written =
        s.console.written ++ String.join (passages.map text) ∧
      (s.tapped.performAll ops).evaluator.asked = passages.filterMap Passage.asked? ∧
      ∀ p ∈ passages, ∀ a, p.asked? = some a →
        (∀ result bindings output generation stray,
          a.reply = .ok (.ok result bindings output generation, stray) →
            text p = closeLine (stray ++ output) ++ p.valueText result) ∧
        ∀ failure output stray, a.reply = .ok (.error failure output, stray) →
          text p = reported s.config failure.toEvalError := by
  obtain ⟨passages, hshows⟩ := shows_performAll (A := Tap.account η) (s := s.tapped) h hops
  have hwritten := hshows.written
  rw [console_tapped] at hwritten
  refine ⟨passages, hwritten, hshows.log, ?_⟩
  intro p _ a ha
  have hvalue (result : Option Value) (bindings : Bindings) (output : String) (generation : Nat)
      (stray : String) (hr : a.reply = .ok (.ok result bindings output generation, stray)) :
      a.outcome = .ok { result, bindings, output := stray ++ output } := by
    rw [Asked.outcome, hr]
    rfl
  have hfailure (failure : Failure) (output stray : String)
      (hr : a.reply = .ok (.error failure output, stray)) :
      a.outcome = .error failure.toEvalError := by
    rw [Asked.outcome, hr]
    rfl
  cases p with
  | typed entry =>
    obtain rfl : entry = a := Option.some.inj ha
    refine ⟨?_, ?_⟩
    · intro result bindings output generation stray hr
      simp only [Passage.text, hvalue _ _ _ _ _ hr, shownAfter, displayed]
      cases result with
      | none => rfl
      | some v => rfl
    · intro failure output stray hr
      simp only [Passage.text, hfailure _ _ _ hr, shownAfter]
  | preloaded entry =>
    obtain rfl : entry = a := Option.some.inj ha
    refine ⟨?_, ?_⟩
    · intro result bindings output generation stray hr
      simp only [Passage.text, hvalue _ _ _ _ _ hr, Passage.shownPreloaded]
      exact String.append_empty.symm
    · intro failure output stray hr
      simp only [Passage.text, hfailure _ _ _ hr, Passage.shownPreloaded]
  | reported e => exact absurd ha.symm (Option.some_ne_none a)
  | endOfInput => exact absurd ha.symm (Option.some_ne_none a)

end Session

/-- A unit that printed and then failed. -/
def Answer.failing : Answer where
  stray := encodeUtf8 "one".toList
  payload := ("\x7b\"status\":\"error\"," ++
    "\"error\":\x7b\"kind\":\"Error\",\"message\":\"boom\"\x7d,\"output\":\"two\"\x7d").toList
  response := .error { kind := "Error", message := "boom" } "two"
  oneLine := by decide
  decodes := by decide

namespace Session

theorem output_written_of_value_failing :
    let s : Session (Connection AnswerQueue) :=
      { evaluator := { host := ⟨[AnswerQueue.second], .failing⟩ } }
    let ops : List Operation := [.submit "f();", .preload "g();"]
    s.console.closed = false ∧ (∀ op ∈ ops, op.isShown = true) ∧
    (s.performAll ops).console.written = "é\r\n\r\n@@scriptify@@ \nError: boom\n" ∧
    ∃ passages : List (Passage Asked),
      (s.performAll ops).console.written = "" ++
        String.join (passages.map (Passage.text Asked.outcome {})) ∧
      (s.tapped.performAll ops).evaluator.asked = passages.filterMap Passage.asked? := by
  intro s ops
  have hops : ∀ op ∈ ops, op.isShown = true := by decide
  obtain ⟨passages, hwritten, hasked, -⟩ := output_written_of_value (s := s) rfl hops
  exact ⟨rfl, hops, by decide +kernel, passages, hwritten, hasked⟩

/-- The text before the frame and the output in it, `one` and `two`, are nowhere. -/
theorem output_lost_with_failure :
    let s : Session (Connection AnswerQueue) := { evaluator := { host := ⟨[], .failing⟩ } }
    Answer.failing.HasText "one".toList ∧
    Answer.failing.response = .error { kind := "Error", message := "boom" } "two" ∧
    (s.submit "f();").2.console.written = "Error: boom\n" := by
  refine ⟨⟨rfl, Frame.cutAt?_eq_none_iff.mp (by decide)⟩, rfl, ?_⟩
  decide +kernel

end Session

end ScriptShell

import ScriptShell.Error
import ScriptShell.Value

/-!
An evaluator turns units into values. A session knows it only by these two operations, each of which
leaves it in a new state.
-/

namespace ScriptShell

/-- What a unit came to: its value, every name in scope afterwards, and what it printed. -/
structure Evaluation where
  result : Option Value := none
  bindings : Bindings := ∅
  output : String := ""
deriving DecidableEq, Inhabited

/-- The names an evaluator can call or instantiate. -/
structure Symbols where
  functions : List String := []
  classes : List String := []
deriving DecidableEq, Repr, Inhabited

class Evaluator (ε : Type) where
  evaluate : ε → String → Bindings → Except EvalError Evaluation × ε
  symbols : ε → Except EvalError Symbols × ε := fun e => (.ok {}, e)

/-- One unit given to an evaluator, the bindings it was given with, and what it came to. -/
structure EvaluatorCall where
  code : String
  given : Bindings
  outcome : Except EvalError Evaluation

/-- An evaluator and the calls that it has answered, oldest first. -/
structure Recorder (ε : Type) where
  evaluator : ε
  calls : List EvaluatorCall := []

namespace Recorder

variable {ε : Type} [Evaluator ε]

def evaluate (r : Recorder ε) (code : String) (given : Bindings) :
    Except EvalError Evaluation × Recorder ε :=
  let (outcome, evaluator) := Evaluator.evaluate r.evaluator code given
  (outcome, { evaluator, calls := r.calls ++ [{ code, given, outcome }] })

def symbols (r : Recorder ε) : Except EvalError Symbols × Recorder ε :=
  let (listing, evaluator) := Evaluator.symbols r.evaluator
  (listing, { r with evaluator })

instance : Evaluator (Recorder ε) := ⟨evaluate, symbols⟩

end Recorder

/-- The answers of a scripted evaluator to one unit. -/
structure Reply where
  result : Option Value := none
  output : String := ""
  /-- The bindings afterwards; those given to the unit when absent. -/
  bindings : Option Bindings := none
  /-- Bindings put on top of these. -/
  set : List (String × Value) := []

/-- What a reply comes to for these bindings. -/
def Reply.evaluation (r : Reply) (given : Bindings) : Evaluation :=
  { result := r.result, output := r.output
    bindings := (r.bindings.getD given).insertAll r.set }

/-- An evaluator that answers from lists. -/
structure Script where
  replies : List (Except EvalError Reply) := []
  /-- Absent when the evaluator has no listing of its own. -/
  listings : Option (List (Except EvalError Symbols)) := none
  lastListing : Symbols := {}

namespace Script

def evaluate (s : Script) (_ : String) (given : Bindings) : Except EvalError Evaluation × Script :=
  match s.replies with
  | [] => (.ok { bindings := given }, s)
  | .ok r :: rest => (.ok (r.evaluation given), { s with replies := rest })
  | .error e :: rest => (.error e, { s with replies := rest })

def symbols (s : Script) : Except EvalError Symbols × Script :=
  match s.listings with
  | none => (.ok {}, s)
  | some [] => (.ok s.lastListing, s)
  | some (.ok l :: rest) => (.ok l, { s with listings := some rest, lastListing := l })
  | some (.error e :: rest) => (.error e, { s with listings := some rest })

instance : Evaluator Script := ⟨evaluate, symbols⟩

end Script

end ScriptShell

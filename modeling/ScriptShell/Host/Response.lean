import ScriptShell.Evaluator
import ScriptShell.Json.Record
import ScriptShell.Text.Quoted

/-!
What the host answers, as it is read from a JSON document, and how an answer that nobody asked for
is shown in a diagnostic.
-/

namespace ScriptShell

/-- A failure as the host describes it; `kind` is the class of what was thrown. -/
structure Failure where
  kind : String
  message : String
  file : Option String := none
  line : Option Nat := none
deriving DecidableEq, Repr

/-- A failure to parse is told from other failures by its class alone. -/
def Failure.toEvalError (f : Failure) : EvalError :=
  if f.kind = "ParseError" then .parse f.message f.line
  else .runtime f.kind f.message f.file f.line

inductive Response where
  | ready (version : String) (generation : Nat)
  | ok (result : Option Value) (bindings : Bindings) (output : String) (generation : Nat)
  | error (failure : Failure) (output : String)
  | symbols (listing : Symbols)
deriving DecidableEq

open Json

/-- Kinds are read by name; a name may also stand as the only field of an object, with null in it
or, inside an answer, an empty object. -/
def ValueKind.ofJson? (inAnswer : Bool) : Json → Option ValueKind
  | .str name => ofName? name
  | .obj [(name, .null)] => ofName? name
  | .obj [(name, .obj [])] => if inAnswer then ofName? name else none
  | _ => none

def Value.ofJson? (inAnswer : Bool) (v : Json) : Option Value := do
  match ← record? ["handle", "kind", "repr", "class", "members"] v with
  | [handle, kind, repr, className, members] =>
    some {
      handle := ← optional? (natural? word64) handle
      kind := ← required? (ValueKind.ofJson? inAnswer) kind
      repr := ← required? text? repr
      className := ← optional? text? className
      members := ← withDefault? [] texts? members }
  | _ => none

def Bindings.ofJson? (inAnswer : Bool) (v : Json) : Option Bindings :=
  map? (Value.ofJson? inAnswer) v

def Symbols.ofJson? (v : Json) : Option Symbols := do
  match ← record? ["functions", "classes"] v with
  | [functions, classes] =>
    some {
      functions := ← withDefault? [] texts? functions
      classes := ← withDefault? [] texts? classes }
  | _ => none

def Failure.ofJson? (v : Json) : Option Failure := do
  match ← record? ["kind", "message", "file", "line"] v with
  | [kind, message, file, line] =>
    some {
      kind := ← required? text? kind
      message := ← required? text? message
      file := ← optional? text? file
      line := ← optional? (natural? word32) line }
  | _ => none

namespace Response

/-- Read an answer; `status` says which one it is. -/
def ofJson? (v : Json) : Option Response := do
  let (status, rest) ← tagged? "status" v
  match status with
  | "ready" =>
    match ← record? ["version", "generation"] rest with
    | [version, generation] =>
      some (.ready (← required? text? version) (← required? (natural? word64) generation))
    | _ => none
  | "ok" =>
    match ← record? ["result", "bindings", "output", "generation"] rest with
    | [result, bindings, output, generation] =>
      some (.ok (← optional? (Value.ofJson? true) result)
        (← withDefault? ∅ (Bindings.ofJson? true) bindings)
        (← withDefault? "" text? output) (← required? (natural? word64) generation))
    | _ => none
  | "error" =>
    match ← record? ["error", "output"] rest with
    | [failure, output] =>
      some (.error (← required? Failure.ofJson? failure) (← withDefault? "" text? output))
    | _ => none
  | "symbols" => (Symbols.ofJson? rest).map .symbols
  | _ => none

end Response

/-! How an answer is shown in a diagnostic. -/

namespace Diagnostic

def ofOption {α : Type} (f : α → String) : Option α → String
  | none => "None"
  | some a => "Some(" ++ f a ++ ")"

def ofList {α : Type} (f : α → String) (xs : List α) : String :=
  "[" ++ String.intercalate ", " (xs.map f) ++ "]"

def ofFields (name : String) (fields : List (String × String)) : String :=
  name ++ " \x7b " ++ String.intercalate ", " (fields.map fun f => f.1 ++ ": " ++ f.2) ++ " \x7d"

def ofKind : ValueKind → String
  | .null => "Null"
  | .bool => "Bool"
  | .int => "Int"
  | .float => "Float"
  | .string => "String"
  | .array => "Array"
  | .object => "Object"
  | .resource => "Resource"

def ofNat (n : Nat) : String := toString n

def ofValue (v : Value) : String :=
  ofFields "Value"
    [("handle", ofOption ofNat v.handle), ("kind", ofKind v.kind), ("repr", quoted v.repr),
     ("class", ofOption quoted v.className), ("members", ofList quoted v.members)]

def ofBindings (b : Bindings) : String :=
  "\x7b" ++ String.intercalate ", " (b.entries.map fun e => quoted e.1 ++ ": " ++ ofValue e.2) ++
    "\x7d"

def ofFailure (f : Failure) : String :=
  ofFields "ErrorFrame"
    [("kind", quoted f.kind), ("message", quoted f.message), ("file", ofOption quoted f.file),
     ("line", ofOption ofNat f.line)]

def ofResponse : Response → String
  | .ready version generation =>
    ofFields "Ready" [("version", quoted version), ("generation", ofNat generation)]
  | .ok result bindings output generation =>
    ofFields "Ok"
      [("result", ofOption ofValue result), ("bindings", ofBindings bindings),
       ("output", quoted output), ("generation", ofNat generation)]
  | .error failure output =>
    ofFields "Error" [("error", ofFailure failure), ("output", quoted output)]
  | .symbols listing =>
    ofFields "Symbols"
      [("functions", ofList quoted listing.functions), ("classes", ofList quoted listing.classes)]

end Diagnostic

end ScriptShell

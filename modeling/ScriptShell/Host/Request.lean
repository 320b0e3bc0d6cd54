import ScriptShell.Json.Printer
import ScriptShell.Value

/-!
What the host is asked, and the line that asks it.
-/

namespace ScriptShell

inductive Request where
  /-- Load the bootstrap file and export the environment. -/
  | init (bootstrap : Option String) (env : NameMap String)
  /-- Run a unit with these handles in scope. -/
  | eval (code : String) (handles : NameMap Nat)
  | symbols

namespace Request

/-- The handles among bindings, by name. -/
def handles (b : Bindings) : NameMap Nat :=
  NameMap.ofList (b.entries.filterMap fun e => e.2.handle.map fun h => (e.1, h))

/-- Ask for a unit, passing the values that the host holds. -/
def ofUnit (code : String) (b : Bindings) : Request := .eval code (handles b)

def toJson : Request → Json
  | .init bootstrap env =>
    .obj [("op", .str "init"), ("bootstrap", (bootstrap.map Json.str).getD .null),
      ("env", .obj (env.entries.map fun e => (e.1, .str e.2)))]
  | .eval code handles =>
    .obj [("op", .str "eval"), ("code", .str code),
      ("bindings", .obj (handles.entries.map fun e => (e.1, .int e.2)))]
  | .symbols => .obj [("op", .str "symbols")]

/-- The line that is sent, newline included. -/
def encode (r : Request) : String := r.toJson.render ++ "\n"

/-- The name of the request in diagnostics. -/
def name : Request → String
  | .init _ _ => "init"
  | .eval _ _ => "eval"
  | .symbols => "symbols"

end Request

end ScriptShell

/-!
Values of configuration files. Floating-point numbers and dates are kept as they are written.
-/

namespace ScriptShell

inductive Toml where
  | text (s : String)
  | integer (n : Int)
  | float (written : String)
  | boolean (b : Bool)
  | date (written : String)
  | array (items : List Toml)
  | table (entries : List (String × Toml))
deriving Inhabited

namespace Toml

/-- The fields of a record, in the order of `names`: a table, whose unknown keys do not matter, an
array of the fields in order, whose further items do not matter, or a date, which has none of
them. -/
def record? (names : List String) : Toml → Option (List (Option Toml))
  | .table entries => some (names.map fun name => entries.lookup name)
  | .date _ => some (names.map fun _ => none)
  | .array items =>
    some ((items.take names.length).map some ++ List.replicate (names.length - items.length) none)
  | _ => none

def text? : Toml → Option String
  | .text s => some s
  | _ => none

def boolean? : Toml → Option Bool
  | .boolean b => some b
  | _ => none

/-- A whole number that is not negative. -/
def natural? : Toml → Option Nat
  | .integer n => if 0 ≤ n then some n.toNat else none
  | _ => none

def texts? : Toml → Option (List String)
  | .array items => items.mapM text?
  | _ => none

/-- A field with a value of its own when absent. -/
def withDefault? {α : Type} (default : α) (read : Toml → Option α) : Option Toml → Option α
  | none => some default
  | some v => read v

end Toml

end ScriptShell

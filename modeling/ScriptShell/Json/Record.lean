import ScriptShell.Json.Basic
import ScriptShell.NameMap

/-!
Records in JSON. A record is an object, whose unknown fields do not matter and whose known ones may
not repeat, or an array of its fields in order. A field that may be absent may also be null only if
it is optional.
-/

namespace ScriptShell.Json

/-- The fields of a record, in the order of `names`. -/
def record? (names : List String) : Json → Option (List (Option Json))
  | .obj fields => names.mapM fun name =>
    match fields.filter fun f => f.1 == name with
    | [] => some none
    | [f] => some (some f.2)
    | _ => none
  | .arr items =>
    if items.length ≤ names.length then
      some (items.map some ++ List.replicate (names.length - items.length) none)
    else none
  | _ => none

/-- The tag of a tagged record and the record without it. -/
def tagged? (tag : String) : Json → Option (String × Json)
  | .obj fields =>
    match fields.filter fun f => f.1 == tag with
    | [(_, .str name)] => some (name, .obj (fields.filter fun f => f.1 != tag))
    | _ => none
  | .arr (.str name :: items) => some (name, .arr items)
  | _ => none

def text? : Json → Option String
  | .str s => some s
  | _ => none

/-- How many numbers 32 and 64 bits can hold. -/
def word32 : Nat := 4294967296
def word64 : Nat := 18446744073709551616

/-- A whole number below the bound. -/
def natural? (bound : Nat) : Json → Option Nat
  | .int n => if 0 ≤ n ∧ n < bound then some n.toNat else none
  | _ => none

def texts? : Json → Option (List String)
  | .arr items => items.mapM text?
  | _ => none

/-- The entries of an object, the last of a name winning. -/
def map? {β : Type} (read : Json → Option β) : Json → Option (NameMap β)
  | .obj fields => (fields.mapM fun f => (read f.2).map fun v => (f.1, v)).map NameMap.ofList
  | _ => none

/-- A field that has to be there. -/
def required? {β : Type} (read : Json → Option β) (field : Option Json) : Option β :=
  field.bind read

/-- A field that may be absent or null. -/
def optional? {β : Type} (read : Json → Option β) : Option Json → Option (Option β)
  | none | some .null => some none
  | some v => (read v).map some

/-- A field that has a value of its own when absent. -/
def withDefault? {β : Type} (default : β) (read : Json → Option β) : Option Json → Option β
  | none => some default
  | some v => read v

end ScriptShell.Json

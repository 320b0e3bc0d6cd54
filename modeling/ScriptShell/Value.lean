import ScriptShell.NameMap

/-!
Snapshots of values as an evaluator reports them, and bindings of names to such values.
-/

namespace ScriptShell

inductive ValueKind where
  | null
  | bool
  | int
  | float
  | string
  | array
  | object
  | resource
deriving DecidableEq, Repr, Inhabited

namespace ValueKind

def all : List ValueKind := [.null, .bool, .int, .float, .string, .array, .object, .resource]

def name : ValueKind → String
  | .null => "null"
  | .bool => "bool"
  | .int => "int"
  | .float => "float"
  | .string => "string"
  | .array => "array"
  | .object => "object"
  | .resource => "resource"

def ofName? (name : String) : Option ValueKind := all.find? fun k => k.name == name

end ValueKind

/-- What is known of a value: where the evaluator keeps it, how it reads, and what can be asked of
it. -/
structure Value where
  handle : Option Nat := none
  kind : ValueKind
  repr : String
  className : Option String := none
  members : List String := []
deriving DecidableEq, Repr, Inhabited

namespace Value

/-- A value that is no more than its text. -/
def primitive (kind : ValueKind) (repr : String) : Value := { kind, repr }

def ofInt (n : Int) : Value := primitive .int (toString n)

/-- A string value reads as its text between single quotes. -/
def ofString (s : String) : Value := primitive .string ("'" ++ s ++ "'")

/-- An object reads as the name of its class. -/
def object (className : String) (members : List String) : Value :=
  { kind := .object, repr := className, className := some className, members }

def withHandle (v : Value) (handle : Nat) : Value := { v with handle := some handle }

def isNull (v : Value) : Bool := v.kind == .null

/-- Anything but an object. -/
def isPrimitive (v : Value) : Bool := v.kind != .object

end Value

/-- Variable names, without the `$`, and their values. -/
abbrev Bindings := NameMap Value

namespace Bindings

/-- Names that the evaluator's own bookkeeping uses; they are never carried on. -/
def housekeeping : List String :=
  ["GLOBALS", "buffer", "code", "inMultiline", "lastChar", "line", "prompt", "result", "this"]

def isHousekeeping (name : String) : Bool := housekeeping.contains name

/-- The bindings that a session carries on. -/
def carried (b : Bindings) : Bindings := b.filter fun name _ => !isHousekeeping name

/-- The bindings to objects. -/
def objects (b : Bindings) : Bindings := b.filter fun _ v => !v.isPrimitive

/-- The members of the object that a name is bound to. -/
def members? (b : Bindings) (name : String) : Option (List String) := (b.get? name).map (·.members)

end Bindings

end ScriptShell

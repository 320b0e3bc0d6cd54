/-!
JSON documents. Objects keep their fields in order, repeated names included; whole numbers are kept
exactly, others as a decimal significand and exponent.
-/

namespace ScriptShell

inductive Json where
  | null
  | bool (b : Bool)
  | int (n : Int)
  /-- `significand · 10 ^ exponent`, negated if `negative`. -/
  | real (negative : Bool) (significand : Nat) (exponent : Int)
  | str (s : String)
  | arr (items : List Json)
  | obj (fields : List (String × Json))
deriving Inhabited

namespace Json

/-- The first field of a name. -/
def field? (name : String) : Json → Option Json
  | .obj fields => fields.lookup name
  | _ => none

def isNull : Json → Bool
  | .null => true
  | _ => false

end Json

end ScriptShell

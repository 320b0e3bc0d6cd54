import ScriptShell.Json.Token

/-!
Documents from tokens. The reader keeps the containers that are still open; one token either opens a
container, closes one or puts a value into the innermost.
-/

namespace ScriptShell.Json

/-- A container that waits for a value, with what it holds so far, last first. -/
inductive Hole where
  | item (before : List Json)
  | field (before : List (String × Json)) (name : String)

/-- What may come next. -/
inductive Reading where
  | value (holes : List Hole)
  | firstItem (holes : List Hole)
  | firstName (holes : List Hole)
  | name (before : List (String × Json)) (holes : List Hole)
  | colon (before : List (String × Json)) (name : String) (holes : List Hole)
  | afterItem (items : List Json) (holes : List Hole)
  | afterField (fields : List (String × Json)) (holes : List Hole)
  | done (v : Json)

/-- How deep containers may nest. -/
def maxDepth : Nat := 127

/-- Put a finished value where it belongs. -/
def deliver (v : Json) : List Hole → Reading
  | [] => .done v
  | .item before :: holes => .afterItem (v :: before) holes
  | .field before name :: holes => .afterField ((name, v) :: before) holes

/-- The reading of a value that starts with this token. -/
def startValue? (holes : List Hole) : Token → Option Reading
  | .scalar v => some (deliver v holes)
  | .openArray => if holes.length < maxDepth then some (.firstItem holes) else none
  | .openObject => if holes.length < maxDepth then some (.firstName holes) else none
  | _ => none

def step? : Reading → Token → Option Reading
  | .value holes, t => startValue? holes t
  | .firstItem holes, .closeArray => some (deliver (.arr []) holes)
  | .firstItem holes, t => startValue? (.item [] :: holes) t
  | .firstName holes, .closeObject => some (deliver (.obj []) holes)
  | .firstName holes, .scalar (.str name) => some (.colon [] name holes)
  | .name before holes, .scalar (.str name) => some (.colon before name holes)
  | .colon before name holes, .colon => some (.value (.field before name :: holes))
  | .afterItem items holes, .comma => some (.value (.item items :: holes))
  | .afterItem items holes, .closeArray => some (deliver (.arr items.reverse) holes)
  | .afterField fields holes, .comma => some (.name fields holes)
  | .afterField fields holes, .closeObject => some (deliver (.obj fields.reverse) holes)
  | _, _ => none

/-- The reading after more tokens. -/
def run? : Reading → List Token → Option Reading
  | r, [] => some r
  | r, t :: ts => (step? r t).bind fun r => run? r ts

/-- The document that a text spells; `none` for anything else. -/
def parse? (s : String) : Option Json := do
  match ← run? (.value []) (← tokens? s.toList) with
  | .done v => some v
  | _ => none

end ScriptShell.Json

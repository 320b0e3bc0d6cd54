import ScriptShell.Variables.Scan

/-!
The tracker remembers every variable name seen in a session. It only grows.
-/

namespace ScriptShell

structure Tracker where
  names : NameSet := ∅
deriving DecidableEq, Inhabited

namespace Tracker

/-- Add the names of a unit; gives the names found in it. -/
def track (t : Tracker) (unit : String) : NameSet × Tracker :=
  let found := Variables.extract unit
  (found, ⟨NameSet.union t.names found.names⟩)

def contains (t : Tracker) (name : String) : Bool := t.names.contains name

end Tracker

end ScriptShell

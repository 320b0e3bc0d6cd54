import ScriptShell.Alias.Table
import ScriptShell.Evaluator
import ScriptShell.Variables.Tracker

/-!
What a session remembers from one unit to the next.
-/

namespace ScriptShell

structure Memory where
  /-- The bindings handed to the next unit. -/
  context : Bindings := ∅
  /-- The objects among them, as of the last rebuild. -/
  objects : Bindings := ∅
  aliases : AliasTable := ∅
  tracker : Tracker := {}
  symbols : Symbols := {}
deriving DecidableEq, Inhabited

namespace Memory

/-- Take over the bindings that a unit left, housekeeping names aside. -/
def capture (m : Memory) (snapshot : Bindings) : Memory := { m with context := snapshot.carried }

/-- Bring the objects up to date with the context. -/
def rebuild (m : Memory) : Memory := { m with objects := m.context.objects }

/-- Record the imports of a unit; `true` when it holds nothing else. -/
def observe (m : Memory) (unit : String) : Bool × Memory :=
  let (absorbed, aliases) := m.aliases.observe unit
  (absorbed, { m with aliases })

/-- Write short names out and remember the variables; gives the text to run. -/
def prepare (m : Memory) (unit : String) : String × Memory :=
  let resolved := m.aliases.resolve unit
  (resolved, { m with tracker := (m.tracker.track resolved).2 })

end Memory

end ScriptShell

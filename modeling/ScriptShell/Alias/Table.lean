import ScriptShell.Alias.Import
import ScriptShell.Alias.Site

/-!
The alias table remembers imports, since every unit runs in a scope of its own, and writes short
names out in later units. Entries keep the order of their first declaration.
-/

namespace ScriptShell

/-- Short names and what they stand for. -/
structure AliasTable where
  entries : List (String × String)
  distinct : (entries.map Prod.fst).Nodup

namespace AliasTable

instance : DecidableEq AliasTable := fun a b =>
  if h : a.entries = b.entries then isTrue (by cases a; cases b; cases h; rfl)
  else isFalse fun hab => h (congrArg AliasTable.entries hab)

def empty : AliasTable := ⟨[], .nil⟩

instance : EmptyCollection AliasTable := ⟨empty⟩

instance : Inhabited AliasTable := ⟨empty⟩

/-- Replace the entry of a name where it stands, or append one. -/
def declareEntry (short qualified : String) : List (String × String) → List (String × String)
  | [] => [(short, qualified)]
  | e :: es =>
    if e.1 = short then (short, qualified) :: es else e :: declareEntry short qualified es

theorem fst_mem_declareEntry {short qualified s : String} {es : List (String × String)} :
    s ∈ (declareEntry short qualified es).map Prod.fst ↔ s = short ∨ s ∈ es.map Prod.fst := by
  induction es with
  | nil => simp [declareEntry]
  | cons e es ih =>
    by_cases h : e.1 = short
    · simp [declareEntry, h]
    · simp only [declareEntry, h, ↓reduceIte, List.map_cons, List.mem_cons, ih]
      exact or_left_comm

theorem nodup_declareEntry (short qualified : String) {es : List (String × String)}
    (h : (es.map Prod.fst).Nodup) : ((declareEntry short qualified es).map Prod.fst).Nodup := by
  induction es with
  | nil => simp [declareEntry]
  | cons e es ih =>
    obtain ⟨hn, ht⟩ := List.nodup_cons.mp h
    by_cases he : e.1 = short
    · rw [declareEntry, if_pos he, List.map_cons, ← he]
      exact h
    · simp only [declareEntry, he, ↓reduceIte, List.map_cons]
      refine List.nodup_cons.mpr ⟨fun hm => ?_, ih ht⟩
      exact (fst_mem_declareEntry.mp hm).elim he hn

/-- Bind a short name; an earlier binding is replaced and keeps its place. -/
def declare (t : AliasTable) (short qualified : String) : AliasTable :=
  ⟨declareEntry short qualified t.entries, nodup_declareEntry short qualified t.distinct⟩

/-- Record a unit's imports; `true` when the unit holds imports and nothing else but blank lines
and comments. -/
def observe (t : AliasTable) (unit : String) : Bool × AliasTable :=
  let unitLines := (Text.lines unit.toList).map UnitLine.ofLine
  let imports := unitLines.filterMap UnitLine.import?
  (!imports.isEmpty && !unitLines.contains .code,
    imports.foldl (fun t i => t.declare i.short i.qualified) t)

/-- Write out one short name, site after site. -/
def applyEntry (text : List Char) (e : String × String) : List Char :=
  Site.all.foldl (fun text site => site.rewrite e.1.toList e.2.toList text) text

/-- Write out every short name, in the order of the table. -/
def resolve (t : AliasTable) (unit : String) : String :=
  String.ofList (t.entries.foldl applyEntry unit.toList)

def get? (t : AliasTable) (short : String) : Option String := t.entries.lookup short

/-- The short names in order of declaration. -/
def shortNames (t : AliasTable) : List String := t.entries.map (·.1)

def size (t : AliasTable) : Nat := t.entries.length

def isEmpty (t : AliasTable) : Bool := t.entries.isEmpty

end AliasTable

end ScriptShell

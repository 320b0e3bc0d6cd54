/-!
Finite maps from names, kept in ascending order of their names by code point. Two maps with the
same look-ups are equal.
-/

namespace ScriptShell

namespace NameMap

/-- Put a value into an ascending list of entries, in place of an earlier one of that name. -/
def insertEntry {β : Type} (name : String) (value : β) : List (String × β) → List (String × β)
  | [] => [(name, value)]
  | e :: es =>
    if name < e.1 then (name, value) :: e :: es
    else if name = e.1 then (name, value) :: es
    else e :: insertEntry name value es

theorem mem_insertEntry {β : Type} {name : String} {value : β} {e : String × β}
    {es : List (String × β)} (h : e ∈ insertEntry name value es) : e = (name, value) ∨ e ∈ es := by
  induction es with
  | nil => simpa [insertEntry] using h
  | cons d es ih =>
    rw [insertEntry] at h
    split at h
    · simpa using h
    · split at h
      · rcases List.mem_cons.mp h with h | h
        · exact Or.inl h
        · exact Or.inr (List.mem_cons_of_mem d h)
      · rcases List.mem_cons.mp h with h | h
        · exact Or.inr (by simp [h])
        · exact (ih h).imp id (List.mem_cons_of_mem d)

theorem ascending_insertEntry {β : Type} (name : String) (value : β) {es : List (String × β)}
    (h : es.Pairwise (fun a b => a.1 < b.1)) :
    (insertEntry name value es).Pairwise (fun a b => a.1 < b.1) := by
  induction es with
  | nil => simp [insertEntry]
  | cons d es ih =>
    obtain ⟨hd, ht⟩ := List.pairwise_cons.mp h
    rw [insertEntry]
    split
    · next hlt =>
      refine List.pairwise_cons.mpr ⟨fun e he => ?_, h⟩
      rcases List.mem_cons.mp he with he | he
      · exact he ▸ hlt
      · exact String.lt_trans hlt (hd e he)
    · next hge =>
      split
      · next heq => exact List.pairwise_cons.mpr ⟨fun e he => heq ▸ hd e he, ht⟩
      · next hne =>
        refine List.pairwise_cons.mpr ⟨fun e he => ?_, ih ht⟩
        rcases mem_insertEntry he with he | he
        · subst he
          by_cases hlt : d.1 < name
          · exact hlt
          · exact absurd (String.le_antisymm (String.not_lt.mp hlt) (String.not_lt.mp hge)) hne
        · exact hd e he

end NameMap

/-- A finite map from names. -/
structure NameMap (β : Type) where
  entries : List (String × β)
  ascending : entries.Pairwise (fun a b => a.1 < b.1)

namespace NameMap

variable {β γ : Type}

instance [DecidableEq β] : DecidableEq (NameMap β) := fun a b =>
  if h : a.entries = b.entries then
    isTrue (by cases a; cases b; cases h; rfl)
  else isFalse fun hab => h (congrArg NameMap.entries hab)

/-- The map without entries. -/
def empty : NameMap β := ⟨[], .nil⟩

instance : EmptyCollection (NameMap β) := ⟨empty⟩

instance : Inhabited (NameMap β) := ⟨empty⟩

def insert (m : NameMap β) (name : String) (value : β) : NameMap β :=
  ⟨insertEntry name value m.entries, ascending_insertEntry name value m.ascending⟩

def get? (m : NameMap β) (name : String) : Option β := m.entries.lookup name

def contains (m : NameMap β) (name : String) : Bool := (m.get? name).isSome

/-- The names in ascending order. -/
def names (m : NameMap β) : List String := m.entries.map (·.1)

def size (m : NameMap β) : Nat := m.entries.length

def isEmpty (m : NameMap β) : Bool := m.entries.isEmpty

/-- The entries that satisfy `p`. -/
def filter (p : String → β → Bool) (m : NameMap β) : NameMap β :=
  ⟨m.entries.filter fun e => p e.1 e.2, m.ascending.filter _⟩

/-- Put in all entries, later ones winning. -/
def insertAll (m : NameMap β) (es : List (String × β)) : NameMap β :=
  es.foldl (fun m e => m.insert e.1 e.2) m

def ofList (es : List (String × β)) : NameMap β := empty.insertAll es

end NameMap

/-- A finite set of names. -/
abbrev NameSet := NameMap Unit

namespace NameSet

def add (s : NameSet) (name : String) : NameSet := s.insert name ()

def union (s : NameSet) (names : List String) : NameSet := names.foldl add s

def ofList (names : List String) : NameSet := union ∅ names

end NameSet

end ScriptShell

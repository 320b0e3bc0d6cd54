import ScriptShell.NameMap

/-!
Look-ups in finite maps. A map is determined by its entries, an entry by the look-up of its name,
so filters and unions can be reasoned about name by name.
-/

namespace ScriptShell

/-- Lists in the same strict order with the same members are equal. -/
theorem eq_of_pairwise_of_asymm {α : Type} {r : α → α → Prop} (hr : ∀ a b, r a b → ¬r b a)
    {xs ys : List α} (hx : xs.Pairwise r) (hy : ys.Pairwise r) (h : ∀ a, a ∈ xs ↔ a ∈ ys) :
    xs = ys := by
  have hnodup {zs : List α} (hz : zs.Pairwise r) : zs.Nodup := by
    refine hz.imp fun {a b} hab he => ?_
    rw [he] at hab
    exact hr b b hab hab
  have hperm : xs.Perm ys := (List.perm_ext_iff_of_nodup (hnodup hx) (hnodup hy)).mpr h
  exact List.Perm.eq_of_pairwise (fun a b _ _ hab hba => absurd hba (hr a b hab)) hx hy hperm

theorem eq_of_ascending {xs ys : List String} (hx : xs.Pairwise (· < ·))
    (hy : ys.Pairwise (· < ·)) (h : ∀ x, x ∈ xs ↔ x ∈ ys) : xs = ys :=
  eq_of_pairwise_of_asymm (fun _ _ => String.lt_asymm) hx hy h

namespace NameMap

variable {β : Type}

/-- Later entries have other names than the first one. -/
theorem fst_ne_of_mem_tail {e d : String × β} {es : List (String × β)}
    (h : (e :: es).Pairwise (fun a b => a.1 < b.1)) (hd : d ∈ es) : d.1 ≠ e.1 := by
  intro he
  have hlt := (List.pairwise_cons.mp h).1 d hd
  rw [he] at hlt
  exact String.lt_irrefl e.1 hlt

theorem lookup_cons_eq_ite (name : String) (e : String × β) (es : List (String × β)) :
    (e :: es).lookup name = if name = e.1 then some e.2 else es.lookup name := by
  by_cases he : name = e.1
  · have hb : (name == e.1) = true := beq_iff_eq.mpr he
    rw [List.lookup_cons, if_pos he, hb]
  · have hb : (name == e.1) = false := beq_eq_false_iff_ne.mpr he
    rw [List.lookup_cons, if_neg he, hb]

theorem lookup_eq_some_iff {name : String} {value : β} {es : List (String × β)}
    (h : es.Pairwise (fun a b => a.1 < b.1)) :
    es.lookup name = some value ↔ (name, value) ∈ es := by
  induction es with
  | nil => simp
  | cons e es ih =>
    have ht := ih (List.pairwise_cons.mp h).2
    rw [lookup_cons_eq_ite, List.mem_cons]
    by_cases he : name = e.1
    · have hn : (name, value) ∉ es := fun hm => fst_ne_of_mem_tail h hm he
      rw [if_pos he]
      constructor
      · intro hv
        exact Or.inl (Prod.ext he (Option.some.inj hv).symm)
      · rintro (hv | hv)
        · exact congrArg (some ∘ Prod.snd) hv.symm
        · exact absurd hv hn
    · rw [if_neg he, ht]
      constructor
      · exact Or.inr
      · rintro (hv | hv)
        · exact absurd (congrArg Prod.fst hv) he
        · exact hv

theorem get?_eq_some_iff {m : NameMap β} {name : String} {value : β} :
    m.get? name = some value ↔ (name, value) ∈ m.entries :=
  lookup_eq_some_iff m.ascending

/-- A filter keeps the look-ups that satisfy it. -/
theorem get?_filter_eq_some_iff {p : String → β → Bool} {m : NameMap β} {name : String}
    {value : β} :
    (m.filter p).get? name = some value ↔ m.get? name = some value ∧ p name value = true := by
  rw [get?_eq_some_iff, get?_eq_some_iff]
  exact List.mem_filter

theorem get?_filter_eq_none {p : String → β → Bool} {m : NameMap β} {name : String}
    (h : ∀ value, p name value = false) : (m.filter p).get? name = none := by
  rw [Option.eq_none_iff_forall_ne_some]
  intro value hv
  have hp := (get?_filter_eq_some_iff.mp hv).2
  rw [h value] at hp
  exact Bool.false_ne_true hp

/-- Two maps with the same look-ups are equal. -/
theorem ext_get? {m d : NameMap β} (h : ∀ name, m.get? name = d.get? name) : m = d := by
  have hmem : ∀ e, e ∈ m.entries ↔ e ∈ d.entries := by
    intro e
    have he := h e.1
    rw [← get?_eq_some_iff, ← get?_eq_some_iff, he]
  have hentries : m.entries = d.entries :=
    eq_of_pairwise_of_asymm (fun a b => String.lt_asymm) m.ascending d.ascending hmem
  cases m
  cases d
  cases hentries
  rfl

/-- The names of a map stand in ascending order, each once. -/
theorem pairwise_names (m : NameMap β) : m.names.Pairwise (· < ·) :=
  List.pairwise_map.mpr m.ascending

theorem lookup_insertEntry (name : String) (value : β) (es : List (String × β)) (x : String) :
    (insertEntry name value es).lookup x = if x = name then some value else es.lookup x := by
  induction es with
  | nil =>
    rw [insertEntry, lookup_cons_eq_ite]
  | cons e es ih =>
    rw [insertEntry]
    split
    · rw [lookup_cons_eq_ite]
    · split
      · next he =>
        rw [lookup_cons_eq_ite, lookup_cons_eq_ite, ← he]
        split
        · rfl
        · rfl
      · next he =>
        rw [lookup_cons_eq_ite, lookup_cons_eq_ite, ih]
        by_cases hx : x = e.1
        · have hn : x ≠ name := fun hxn => he (hxn.symm.trans hx)
          rw [if_pos hx, if_neg hn, if_pos hx]
        · rw [if_neg hx, if_neg hx]

theorem get?_insert (m : NameMap β) (name : String) (value : β) (x : String) :
    (m.insert name value).get? x = if x = name then some value else m.get? x :=
  lookup_insertEntry name value m.entries x

/-- Of many entries of a name the last one counts, and an earlier value only without any. -/
theorem get?_insertAll (m : NameMap β) (es : List (String × β)) (x : String) :
    (m.insertAll es).get? x = (es.reverse.lookup x).or (m.get? x) := by
  induction es generalizing m with
  | nil => rfl
  | cons e es ih =>
    have hstep : m.insertAll (e :: es) = (m.insert e.1 e.2).insertAll es := rfl
    rw [hstep, ih, get?_insert, List.reverse_cons, List.lookup_append, Option.or_assoc,
      lookup_cons_eq_ite, List.lookup_nil]
    split
    · rfl
    · rfl

/-- A map is put together from its entries. No name stands in it twice, so a look-up may start at
either end. -/
theorem ofList_entries (m : NameMap β) : ofList m.entries = m := by
  have hreverse {es : List (String × β)} (h : es.Pairwise (fun a b => a.1 < b.1)) (x : String) :
      es.reverse.lookup x = es.lookup x := by
    induction es with
    | nil => rfl
    | cons e es ih =>
      rw [List.reverse_cons, List.lookup_append, ih (List.pairwise_cons.mp h).2,
        lookup_cons_eq_ite, lookup_cons_eq_ite, List.lookup_nil]
      by_cases hx : x = e.1
      · have hnone : es.lookup x = none := by
          rw [Option.eq_none_iff_forall_ne_some]
          intro value hv
          have hmem := (lookup_eq_some_iff (List.pairwise_cons.mp h).2).mp hv
          exact fst_ne_of_mem_tail h hmem hx
        rw [if_pos hx, if_pos hx, hnone]
        rfl
      · rw [if_neg hx, if_neg hx, Option.or_none]
  apply ext_get?
  intro x
  rw [ofList, get?_insertAll, hreverse m.ascending]
  exact Option.or_none

/-- Values that are rewritten one by one leave the look-ups where they are. -/
theorem lookup_map_entries {γ : Type} (f : β → γ) (m : NameMap β) (x : String) :
    (m.entries.map fun e => (e.1, f e.2)).lookup x = (m.get? x).map f := by
  unfold get?
  induction m.entries with
  | nil => rfl
  | cons e es ih =>
    rw [List.map_cons, lookup_cons_eq_ite, lookup_cons_eq_ite, ih]
    split
    · rfl
    · rfl

/-- Maps whose rewritten entries are the same are the same, if no two values are rewritten alike. -/
theorem map_entries_injective {γ : Type} {f : β → γ} (hf : Function.Injective f) {m d : NameMap β}
    (h : m.entries.map (fun e => (e.1, f e.2)) = d.entries.map fun e => (e.1, f e.2)) : m = d := by
  apply ext_get?
  intro x
  apply Option.map_injective hf
  rw [← lookup_map_entries, ← lookup_map_entries, h]

theorem mem_names_iff {m : NameMap β} {x : String} :
    x ∈ m.names ↔ ∃ value, m.get? x = some value := by
  simp only [names, List.mem_map, get?_eq_some_iff, Prod.exists, exists_and_right, exists_eq_right]

theorem mem_names_insertAll_iff {m : NameMap β} {es : List (String × β)} {x : String} :
    x ∈ (m.insertAll es).names ↔ x ∈ es.map (·.1) ∨ x ∈ m.names := by
  rw [mem_names_iff, mem_names_iff, ← Option.isSome_iff_exists, ← Option.isSome_iff_exists,
    get?_insertAll, Option.isSome_or, Bool.or_eq_true, List.lookup_isSome_iff, List.mem_map]
  simp only [List.mem_reverse, beq_iff_eq, @eq_comm _ x]

end NameMap

namespace NameSet

theorem contains_add (s : NameSet) (name x : String) :
    (s.add name).contains x = (decide (x = name) || s.contains x) := by
  unfold NameMap.contains add
  rw [NameMap.get?_insert]
  by_cases hx : x = name
  · rw [if_pos hx, decide_eq_true hx]
    rfl
  · rw [if_neg hx, decide_eq_false hx, Bool.false_or]

theorem contains_union (s : NameSet) (names : List String) (x : String) :
    (union s names).contains x = true ↔ s.contains x = true ∨ x ∈ names := by
  induction names generalizing s with
  | nil => exact ⟨Or.inl, fun h => h.resolve_right List.not_mem_nil⟩
  | cons name names ih =>
    have hstep : union s (name :: names) = union (s.add name) names := rfl
    rw [hstep, ih, contains_add, Bool.or_eq_true, decide_eq_true_iff, List.mem_cons]
    constructor
    · rintro ((h | h) | h)
      · exact Or.inr (Or.inl h)
      · exact Or.inl h
      · exact Or.inr (Or.inr h)
    · rintro (h | h | h)
      · exact Or.inl (Or.inr h)
      · exact Or.inl (Or.inl h)
      · exact Or.inr h

theorem contains_ofList (names : List String) (x : String) :
    (ofList names).contains x = true ↔ x ∈ names := by
  rw [ofList, contains_union]
  exact ⟨fun h => h.resolve_left Bool.false_ne_true, Or.inr⟩

theorem mem_names (s : NameSet) (x : String) : x ∈ s.names ↔ s.contains x = true := by
  unfold NameMap.contains
  rw [NameMap.mem_names_iff, Option.isSome_iff_exists]

/-- Two sets with the same members are equal. -/
theorem ext_contains {s d : NameSet} (h : ∀ x, s.contains x = true ↔ d.contains x = true) :
    s = d := by
  apply NameMap.ext_get?
  intro name
  have hname := h name
  unfold NameMap.contains at hname
  cases hs : s.get? name with
  | none =>
    cases hd : d.get? name with
    | none => rfl
    | some _ =>
      rw [hs, hd] at hname
      exact absurd (hname.mpr rfl) Bool.false_ne_true
  | some _ =>
    cases hd : d.get? name with
    | none =>
      rw [hs, hd] at hname
      exact absurd (hname.mp rfl) Bool.false_ne_true
    | some _ => rfl

end NameSet

end ScriptShell

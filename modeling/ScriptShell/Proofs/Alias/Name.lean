import ScriptShell.Alias.Table
import ScriptShell.Proofs.Text.Words

/-!
The names in an alias table. Whatever the imports were, a short name is one name, and what it stands
for is such names joined by backslashes.
-/

namespace ScriptShell

open Text

def IsName (cs : List Char) : Prop :=
  ∃ c rest, cs = c :: rest ∧ isNameStart c = true ∧ ∀ d ∈ rest, isWord d = true

/-- Names joined by backslashes. -/
inductive IsQualified : List Char → Prop
  | name {cs : List Char} (h : IsName cs) : IsQualified cs
  | join {cs ds : List Char} (h : IsName cs) (h' : IsQualified ds) : IsQualified (cs ++ '\\' :: ds)

namespace IsName

variable {cs : List Char}

theorem ne_nil (h : IsName cs) : cs ≠ [] := by
  obtain ⟨c, rest, hcs, -⟩ := h
  rw [hcs]
  exact List.cons_ne_nil c rest

theorem isWord (h : IsName cs) : ∀ c ∈ cs, Text.isWord c = true := by
  obtain ⟨c, rest, hcs, hc, hrest⟩ := h
  rw [hcs]
  exact List.forall_mem_cons.mpr ⟨isWord_of_isNameStart hc, hrest⟩

/-- No mark occurs in a name. -/
theorem not_mem (h : IsName cs) {d : Char} (hd : Text.isWord d = false) : d ∉ cs :=
  fun hm => ne_of_isWord (h.isWord d hm) hd rfl

end IsName

namespace IsQualified

variable {cs : List Char}

theorem ne_nil (h : IsQualified cs) : cs ≠ [] := by
  cases h with
  | name h => exact h.ne_nil
  | join h h' => exact List.append_ne_nil_of_right_ne_nil _ (List.cons_ne_nil _ _)

/-- A first name, and a separator with a qualified name after it, if there is more. -/
theorem split_first (h : IsQualified cs) : ∃ name rest, cs = name ++ rest ∧ IsName name ∧
    (rest = [] ∨ ∃ tail, rest = '\\' :: tail ∧ IsQualified tail) := by
  cases h with
  | name h => exact ⟨cs, [], (List.append_nil cs).symm, h, Or.inl rfl⟩
  | @join name tail h h' => exact ⟨name, '\\' :: tail, rfl, h, Or.inr ⟨tail, rfl, h'⟩⟩

theorem isWord_or (h : IsQualified cs) : ∀ c ∈ cs, isWord c = true ∨ c = '\\' := by
  induction h with
  | name h => exact fun c hc => Or.inl (h.isWord c hc)
  | join h _ ih =>
    intro c hc
    rcases List.mem_append.mp hc with hc | hc
    · exact Or.inl (h.isWord c hc)
    · rcases List.mem_cons.mp hc with hc | hc
      · exact Or.inr hc
      · exact ih c hc

/-- No mark but the separator occurs in a qualified name. -/
theorem not_mem (h : IsQualified cs) {d : Char} (hd : isWord d = false) (hs : d ≠ '\\') :
    d ∉ cs := by
  intro hm
  rcases h.isWord_or d hm with hw | hw
  · exact ne_of_isWord hw hd rfl
  · exact hs hw

/-- A qualified name ends in a name, never in a separator. -/
theorem getLast?_isWord (h : IsQualified cs) : ∃ c, cs.getLast? = some c ∧ isWord c = true := by
  induction h with
  | @name cs h =>
    refine ⟨cs.getLast h.ne_nil, List.getLast?_eq_some_getLast _, ?_⟩
    exact h.isWord _ (List.getLast_mem _)
  | join h _ ih =>
    obtain ⟨c, hc, hw⟩ := ih
    refine ⟨c, ?_, hw⟩
    rw [List.getLast?_append, List.getLast?_cons, hc]
    rfl

end IsQualified

/-- The names that a qualified name joins. -/
def segments (qualified : List Char) : List (List Char) := qualified.splitOn '\\'

theorem segments_of_isName {cs : List Char} (h : IsName cs) : segments cs = [cs] := by
  apply List.splitOnP_eq_singleton
  intro c hc
  exact beq_eq_false_iff_ne.mpr (ne_of_isWord (h.isWord c hc) (by decide))

theorem segments_join {cs : List Char} (h : IsName cs) (ds : List Char) :
    segments (cs ++ '\\' :: ds) = cs :: segments ds := by
  have hsplit : segments (cs ++ '\\' :: ds) = segments cs ++ segments ds :=
    List.splitOnP_append_cons cs ds (beq_self_eq_true '\\')
  rw [hsplit, segments_of_isName h]
  rfl

theorem IsQualified.segments_ne_nil {cs : List Char} (h : IsQualified cs) : segments cs ≠ [] := by
  cases h with
  | name h =>
    rw [segments_of_isName h]
    exact List.cons_ne_nil _ _
  | join h _ =>
    rw [segments_join h]
    exact List.cons_ne_nil _ _

namespace Import

/-- What a path consists of: word characters, then nothing or a separator and a qualified name. -/
theorem takePath_eq (cs : List Char) : ∃ word tail, (takePath cs).1 = word ++ tail ∧
    (∀ c ∈ word, isWord c = true) ∧
    (tail = [] ∨ ∃ qualified, tail = '\\' :: qualified ∧ IsQualified qualified) := by
  induction cs with
  | nil => exact ⟨[], [], rfl, nofun, Or.inl rfl⟩
  | cons c cs ih =>
    obtain ⟨word, tail, hpath, hword, htail⟩ := ih
    rw [takePath]
    by_cases hc : isWord c = true
    · rw [if_pos (by rw [hc]; rfl)]
      refine ⟨c :: word, tail, congrArg (c :: ·) hpath, ?_, htail⟩
      exact List.forall_mem_cons.mpr ⟨hc, hword⟩
    · by_cases hs : (c == '\\' && cs.head?.any isNameStart) = true
      · obtain ⟨hc', hn⟩ := Bool.and_eq_true_iff.mp hs
        rw [if_pos (by rw [hs, Bool.or_true])]
        refine ⟨[], c :: (takePath cs).1, rfl, nofun, Or.inr ⟨_, by rw [beq_iff_eq.mp hc'], ?_⟩⟩
        cases cs with
        | nil => exact absurd hn Bool.false_ne_true
        | cons d cs =>
          have hd : isNameStart d = true := hn
          have hfirst : (takePath (d :: cs)).1 = d :: (takePath cs).1 := by
            rw [takePath, if_pos (by rw [isWord_of_isNameStart hd]; rfl)]
          cases word with
          | nil =>
            rw [hfirst, List.nil_append] at hpath
            rcases htail with htail | ⟨qualified, htail, -⟩
            · exact absurd (hpath.trans htail) (List.cons_ne_nil _ _)
            · have hdc : d = '\\' := (List.cons.inj (hpath.trans htail)).1
              rw [hdc] at hd
              exact absurd hd (by decide)
          | cons e word =>
            have hde : d = e := (List.cons.inj (hfirst.symm.trans hpath)).1
            have hname : IsName (e :: word) :=
              ⟨e, word, rfl, hde ▸ hd, fun x hx => hword x (List.mem_cons_of_mem e hx)⟩
            rw [hpath]
            rcases htail with htail | ⟨qualified, htail, hq⟩
            · rw [htail, List.append_nil]
              exact .name hname
            · rw [htail]
              exact .join hname hq
      · rw [if_neg (by rw [Bool.eq_false_iff.mpr hc, Bool.eq_false_iff.mpr hs]; exact nofun)]
        exact ⟨[], [], rfl, nofun, Or.inl rfl⟩

theorem isQualified_of_takeQualified? {cs qualified rest : List Char}
    (h : takeQualified? cs = some (qualified, rest)) : IsQualified qualified := by
  cases cs with
  | nil => exact absurd h nofun
  | cons c cs =>
    rw [takeQualified?] at h
    split at h
    · next hc =>
      have hq : (takePath (c :: cs)).1 = qualified := congrArg Prod.fst (Option.some.inj h)
      obtain ⟨word, tail, hpath, hword, htail⟩ := takePath_eq cs
      have hname : IsName (c :: word) := ⟨c, word, rfl, hc, hword⟩
      rw [takePath, if_pos (by rw [isWord_of_isNameStart hc]; rfl), hpath, ← List.cons_append] at hq
      rcases htail with htail | ⟨ds, htail, hds⟩
      · rw [htail, List.append_nil] at hq
        exact hq ▸ .name hname
      · rw [htail] at hq
        exact hq ▸ .join hname hds
    · exact absurd h nofun

theorem isName_of_takeName? {cs name rest : List Char} (h : takeName? cs = some (name, rest)) :
    IsName name := by
  cases cs with
  | nil => exact absurd h nofun
  | cons c cs =>
    rw [takeName?] at h
    split at h
    · next hc =>
      have hn : c :: cs.takeWhile isWord = name := congrArg Prod.fst (Option.some.inj h)
      exact ⟨c, _, hn.symm, hc, fun _ => List.mem_takeWhile_imp⟩
    · exact absurd h nofun

theorem lastName_of_isName {cs : List Char} (h : IsName cs) : lastName cs = cs := by
  have hall : ∀ c ∈ cs.reverse, (c != '\\') = true := by
    intro c hc
    exact bne_iff_ne.mpr (ne_of_isWord (h.isWord c (List.mem_reverse.mp hc)) (by decide))
  rw [lastName, List.takeWhile_eq_self_iff.mpr hall, List.reverse_reverse]

theorem lastName_append (cs ds : List Char) : lastName (cs ++ '\\' :: ds) = lastName ds := by
  have hrev : (cs ++ '\\' :: ds).reverse = ds.reverse ++ '\\' :: cs.reverse := by
    rw [List.reverse_append, List.reverse_cons, List.append_assoc]
    rfl
  rw [lastName, hrev, takeWhile_append_of_boundary _ (by rfl)]
  rfl

theorem isName_lastName {cs : List Char} (h : IsQualified cs) : IsName (lastName cs) := by
  induction h with
  | name h =>
    rw [lastName_of_isName h]
    exact h
  | join h _ ih =>
    rw [lastName_append]
    exact ih

theorem getLast?_segments {cs : List Char} (h : IsQualified cs) :
    (segments cs).getLast? = some (lastName cs) := by
  induction h with
  | name h =>
    rw [segments_of_isName h, lastName_of_isName h]
    rfl
  | join h h' ih =>
    rw [segments_join h, lastName_append, List.getLast?_cons, ih]
    rfl

/-- The short name of a clause that closes the declaration is a name. -/
theorem isName_of_takeClause? {cs short : List Char} (h : takeClause? cs = some short) :
    IsName short := by
  simp only [takeClause?, Option.bind_eq_bind, Option.bind_eq_some_iff] at h
  obtain ⟨_, _, _, _, _, _, ⟨name, rest⟩, hname, hend⟩ := h
  split at hend
  · exact Option.some.inj hend ▸ isName_of_takeName? hname
  · exact absurd hend nofun

theorem wellNamed_of_parse? {cs : List Char} {i : Import} (h : parse? cs = some i) :
    IsName i.short.toList ∧ IsQualified i.qualified.toList := by
  simp only [parse?, Option.bind_eq_bind, Option.bind_eq_some_iff] at h
  obtain ⟨_, _, _, _, ⟨qualified, rest⟩, hq, h⟩ := h
  have hqualified := isQualified_of_takeQualified? hq
  split at h
  · obtain ⟨short, hs, hi⟩ := Option.bind_eq_some_iff.mp h
    rw [← Option.some.inj hi, String.toList_ofList, String.toList_ofList, ← Option.some.inj hs]
    exact ⟨isName_lastName hqualified, hqualified⟩
  · obtain ⟨short, hs, hi⟩ := Option.bind_eq_some_iff.mp h
    rw [← Option.some.inj hi, String.toList_ofList, String.toList_ofList]
    exact ⟨isName_of_takeClause? hs, hqualified⟩

end Import

namespace AliasTable

/-- Each entry has a name and a qualified name that it stands for. -/
def WellNamed (t : AliasTable) : Prop :=
  ∀ e ∈ t.entries, IsName e.1.toList ∧ IsQualified e.2.toList

theorem wellNamed_empty : WellNamed ∅ := nofun

theorem mem_declareEntry {short qualified : String} {e : String × String}
    {es : List (String × String)} (h : e ∈ declareEntry short qualified es) :
    e = (short, qualified) ∨ e ∈ es := by
  induction es with
  | nil => exact Or.inl (List.mem_singleton.mp h)
  | cons d es ih =>
    rw [declareEntry] at h
    split at h
    · exact (List.mem_cons.mp h).imp id (List.mem_cons_of_mem d)
    · rcases List.mem_cons.mp h with h | h
      · exact Or.inr (h ▸ List.mem_cons_self)
      · exact (ih h).imp id (List.mem_cons_of_mem d)

/-- Observing a unit keeps a table well named: only declarations add entries. -/
theorem WellNamed.observe {t : AliasTable} (h : t.WellNamed) (unit : String) :
    (t.observe unit).2.WellNamed := by
  have himport : ∀ i ∈ ((Text.lines unit.toList).map UnitLine.ofLine).filterMap UnitLine.import?,
      IsName i.short.toList ∧ IsQualified i.qualified.toList := by
    intro i hi
    obtain ⟨read, hread, himport⟩ := List.mem_filterMap.mp hi
    obtain ⟨line, -, hline⟩ := List.mem_map.mp hread
    rw [← hline, UnitLine.ofLine] at himport
    split at himport
    · exact absurd himport nofun
    · split at himport
      · next j hj => exact Option.some.inj himport ▸ Import.wellNamed_of_parse? hj
      · exact absurd himport nofun
  have hfold : ∀ (imports : List Import) (t : AliasTable), t.WellNamed →
      (∀ i ∈ imports, IsName i.short.toList ∧ IsQualified i.qualified.toList) →
      (imports.foldl (fun t i => t.declare i.short i.qualified) t).WellNamed := by
    intro imports
    induction imports with
    | nil => exact fun t ht _ => ht
    | cons i imports ih =>
      intro t ht hi
      refine ih _ (fun e he => ?_) fun j hj => hi j (List.mem_cons_of_mem i hj)
      rcases mem_declareEntry he with he | he
      · rw [he]
        exact hi i List.mem_cons_self
      · exact ht e he
  exact hfold _ t h himport

/-- The table that holds the imports of these units too. -/
def observeAll (t : AliasTable) (units : List String) : AliasTable :=
  units.foldl (fun t unit => (t.observe unit).2) t

theorem WellNamed.observeAll {t : AliasTable} (h : t.WellNamed) (units : List String) :
    (t.observeAll units).WellNamed := by
  induction units generalizing t with
  | nil => exact h
  | cons unit units ih => exact ih (h.observe unit)

theorem wellNamed_observeAll (units : List String) :
    ((∅ : AliasTable).observeAll units).WellNamed :=
  wellNamed_empty.observeAll units

end AliasTable

end ScriptShell

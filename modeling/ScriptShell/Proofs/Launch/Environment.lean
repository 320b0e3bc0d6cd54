import ScriptShell.Launch.Environment
import ScriptShell.Proofs.NameMap
import ScriptShell.Proofs.Text.White

/-!
The names in an environment. A line of a service's file and an argument of the command line are cut
at their first `=`, and white space around the name is dropped. An argument is refused where nothing
is left of the name; a line is not.
-/

namespace ScriptShell

open Text

namespace Text

theorem splitOnce?_eq_some_iff {c : Char} {cs a b : List Char} :
    splitOnce? c cs = some (a, b) ↔ cs = a ++ c :: b ∧ c ∉ a := by
  induction cs generalizing a with
  | nil =>
    refine iff_of_false nofun fun h => ?_
    exact List.append_ne_nil_of_right_ne_nil a (List.cons_ne_nil c b) h.1.symm
  | cons d cs ih =>
    rw [splitOnce?]
    by_cases hd : d = c
    · rw [if_pos hd, hd]
      constructor
      · intro h
        obtain ⟨rfl, rfl⟩ := Prod.mk.inj (Option.some.inj h)
        exact ⟨rfl, List.not_mem_nil⟩
      · rintro ⟨hcs, ha⟩
        cases a with
        | nil => rw [(List.cons.inj hcs).2]
        | cons e a => exact absurd ((List.cons.inj hcs).1 ▸ List.mem_cons_self) ha
    · rw [if_neg hd, Option.map_eq_some_iff]
      constructor
      · rintro ⟨⟨front, rest⟩, hfront, h⟩
        obtain ⟨rfl, rfl⟩ := Prod.mk.inj h
        obtain ⟨hcs, hc⟩ := ih.mp hfront
        exact ⟨congrArg (d :: ·) hcs, fun hm => (List.mem_cons.mp hm).elim (Ne.symm hd) hc⟩
      · rintro ⟨hcs, ha⟩
        cases a with
        | nil => exact absurd (List.cons.inj hcs).1 hd
        | cons e a =>
          obtain ⟨rfl, hrest⟩ := List.cons.inj hcs
          exact ⟨(a, b), ih.mpr ⟨hrest, fun hm => ha (List.mem_cons_of_mem d hm)⟩, rfl⟩

end Text

namespace Environment

/-- A name that a variable can be set by. -/
structure Usable (name : String) : Prop where
  ne_empty : name ≠ ""
  isTrimmed : IsTrimmed name.toList
  no_equals : '=' ∉ name.toList

instance : DecidablePred Usable := fun name =>
  decidable_of_iff (name ≠ "" ∧ IsTrimmed name.toList ∧ '=' ∉ name.toList)
    ⟨fun ⟨h1, h2, h3⟩ => ⟨h1, h2, h3⟩, fun ⟨h1, h2, h3⟩ => ⟨h1, h2, h3⟩⟩

/-- A line that sets a value for no name: white space around it aside, it starts with `=`, or nothing
but white space stands between `export ` and its first `=`. -/
def Nameless (line : List Char) : Prop :=
  ∃ blank value, IsWhite blank ∧
    (Text.trim line = '=' :: value ∨ Text.trim line = "export ".toList ++ (blank ++ '=' :: value))

/-- A setting is what is left of a line without white space around it and without `export `, cut at
its first `=`. -/
theorem setting?_eq_some_iff {line key value : List Char} :
    setting? line = some (key, value) ↔
      Text.trim line ≠ [] ∧ (Text.trim line).head? ≠ some '#' ∧ ∃ before after,
        (dropPrefix? "export ".toList (Text.trim line)).getD (Text.trim line) = before ++ '=' :: after ∧
        '=' ∉ before ∧ Text.trim before = key ∧ unquote (Text.trim after) = value := by
  unfold setting?
  simp only [Bool.or_eq_true, List.isEmpty_iff, decide_eq_true_eq, Option.ite_none_left_eq_some,
    Option.map_eq_some_iff, not_or, Prod.exists, Prod.mk.injEq, splitOnce?_eq_some_iff, and_assoc]

theorem isTrimmed_of_setting? {line key value : List Char}
    (h : setting? line = some (key, value)) : IsTrimmed key ∧ '=' ∉ key := by
  obtain ⟨-, -, before, after, -, hno, rfl, -⟩ := setting?_eq_some_iff.mp h
  exact ⟨isTrimmed_trim before, fun hm => hno (mem_of_mem_trim hm)⟩

theorem usable_of_parsePair? {argument : String} {pair : String × String}
    (h : parsePair? argument = some pair) : Usable pair.1 := by
  unfold parsePair? at h
  split at h
  · next key value hsplit =>
    have hno := (splitOnce?_eq_some_iff.mp hsplit).2
    rw [Option.ite_none_left_eq_some, Bool.not_eq_true, List.isEmpty_eq_false_iff] at h
    obtain ⟨hne, h⟩ := h
    rw [← Option.some.inj h]
    refine ⟨fun he => hne (String.ofList_inj.mp he), ?_, ?_⟩
    · rw [String.toList_ofList]
      exact isTrimmed_trim key
    · rw [String.toList_ofList]
      exact fun hm => hno (mem_of_mem_trim hm)
  · exact absurd h nofun

/-- A line sets the empty name exactly if it is nameless. -/
theorem nameless_iff {line : List Char} :
    Nameless line ↔ ∃ value, setting? line = some ([], value) := by
  simp only [setting?_eq_some_iff]
  constructor
  · rintro ⟨blank, value, hblank, h⟩
    have hno : '=' ∉ blank := fun hm => absurd (hblank '=' hm) (by decide)
    rcases h with h | h
    · rw [h]
      exact ⟨_, nofun, nofun, [], value, rfl, List.not_mem_nil, rfl, rfl⟩
    · rw [h, dropPrefix?_append]
      exact ⟨_, nofun, nofun, blank, value, rfl, hno, trim_eq_nil_iff.mpr hblank, rfl⟩
  · rintro ⟨-, -, -, before, after, hbody, -, hwhite, -⟩
    have hblank := trim_eq_nil_iff.mp hwhite
    refine ⟨before, after, hblank, ?_⟩
    cases hp : dropPrefix? "export ".toList (Text.trim line) with
    | some rest =>
      rw [hp, Option.getD_some] at hbody
      exact Or.inr (hbody ▸ eq_append_of_dropPrefix? hp)
    | none =>
      rw [hp, Option.getD_none] at hbody
      have hfirst := (isTrimmed_trim line).1
      cases before with
      | nil => exact Or.inl hbody
      | cons c before =>
        rw [hbody] at hfirst
        exact absurd ((hblank c List.mem_cons_self).symm.trans hfirst) (Bool.noConfusion)

theorem mem_names_parse_iff {text name : String} :
    name ∈ (parse text).names ↔
      ∃ line ∈ Text.lines text.toList, ∃ value, setting? line = some (name.toList, value) := by
  have hempty : name ∉ (NameMap.empty : NameMap String).names := List.not_mem_nil
  unfold parse NameMap.ofList
  rw [NameMap.mem_names_insertAll_iff, or_iff_left hempty]
  simp only [List.map_map, List.mem_map, List.mem_filterMap, Function.comp_apply, asStrings]
  constructor
  · rintro ⟨⟨key, value⟩, ⟨line, hline, hset⟩, rfl⟩
    rw [String.toList_ofList]
    exact ⟨line, hline, value, hset⟩
  · rintro ⟨line, hline, value, hset⟩
    exact ⟨(name.toList, value), ⟨line, hline, hset⟩, String.ofList_toList⟩

/-- Every name in the environment that a service's file and the arguments make is usable, but for the
empty one, and that is there exactly if a line of the file is nameless. -/
theorem usable_names (text : String) {arguments : List String}
    {overrides : List (String × String)} (h : arguments.map parsePair? = overrides.map some) :
    (∀ name ∈ (merge (parse text) overrides).names, name ≠ "" → Usable name) ∧
    ("" ∈ (merge (parse text) overrides).names ↔
      ∃ line ∈ Text.lines text.toList, Nameless line) := by
  have hoverrides : ∀ name ∈ overrides.map (·.1), Usable name := by
    rw [List.forall_mem_map]
    intro pair hpair
    have hread : some pair ∈ arguments.map parsePair? := h ▸ List.mem_map_of_mem hpair
    obtain ⟨argument, -, hargument⟩ := List.mem_map.mp hread
    exact usable_of_parsePair? hargument
  have hempty : "" ∉ overrides.map (·.1) := fun hm => (hoverrides "" hm).ne_empty rfl
  have hnames {name : String} : name ∈ (merge (parse text) overrides).names ↔
      name ∈ overrides.map (·.1) ∨ name ∈ (parse text).names := NameMap.mem_names_insertAll_iff
  simp only [hnames, or_iff_right hempty]
  constructor
  · rintro name (hm | hm) hne
    · exact hoverrides name hm
    · obtain ⟨line, -, value, hset⟩ := mem_names_parse_iff.mp hm
      obtain ⟨htrimmed, hno⟩ := isTrimmed_of_setting? hset
      exact ⟨hne, htrimmed, hno⟩
  · rw [mem_names_parse_iff]
    simp only [nameless_iff]
    rfl

/-- A line with a name behind `export`, one without, and two arguments. -/
theorem usable_names_exported :
    let text := "# paths\nexport A = 1\nexport  =x\nB"
    let overrides := [("B", "2"), ("C", "a=b")]
    ["B=2", " C =a=b"].map parsePair? = overrides.map some ∧
    (merge (parse text) overrides).names = ["", "A", "B", "C"] ∧
    (∀ name ∈ (merge (parse text) overrides).names, name ≠ "" → Usable name) ∧
    ("" ∈ (merge (parse text) overrides).names ↔
      ∃ line ∈ Text.lines text.toList, Nameless line) := by
  intro text overrides
  have hread : ["B=2", " C =a=b"].map parsePair? = overrides.map some := by decide +kernel
  exact ⟨hread, by decide +kernel, usable_names text hread⟩

/-- Without a line or argument that names it, the empty name comes from a line that starts with `=`,
although an argument like that is refused. -/
theorem not_forall_usable :
    parsePair? "=x" = none ∧
    ¬∀ (text : String) (arguments : List String) (overrides : List (String × String)),
      arguments.map parsePair? = overrides.map some →
        ∀ name ∈ (merge (parse text) overrides).names, Usable name := by
  refine ⟨by decide +kernel, fun h => ?_⟩
  have hname : "" ∈ (merge (parse "=x") []).names := by decide +kernel
  exact (h "=x" [] [] rfl "" hname).ne_empty rfl

end Environment

end ScriptShell

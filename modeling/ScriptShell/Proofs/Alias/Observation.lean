import ScriptShell.Proofs.Alias.Declaration

/-!
What a unit tells the alias table. Each of its lines is blank, marked as a comment by its first
characters, an import as the grammar has it, or something else. Whatever their order, the imports
bind their short names, later ones over earlier ones, and anything else makes the unit one that has
to be run.
-/

namespace ScriptShell

open Text

/-- A declaration starts with a letter and ends in its semicolon. -/
theorem Import.Spells.ends {i : Import} {core : List Char} (h : i.Spells core) :
    core.head? = some 'u' ∧ core.getLast? = some ';' := by
  cases h with
  | mk =>
    refine ⟨rfl, ?_⟩
    simp only [← List.append_assoc, ← List.cons_append]
    exact List.getLast?_concat

namespace UnitLine

/-- What a line is, by the ways to write it. -/
inductive Reads : List Char → UnitLine → Prop
  | blank {line : List Char} (h : IsWhite line) : Reads line .skipped
  | marked {line mark : List Char} (h : mark ∈ commentMarks) (starts : mark <+: Text.trim line) :
      Reads line .skipped
  | declares {before core after : List Char} {i : Import} (white : IsWhite before)
      (spells : i.Spells core) (white' : IsWhite after) :
      Reads (before ++ (core ++ after)) (.declares i)

theorem isComment_iff {cs : List Char} : isComment cs = true ↔ ∃ mark ∈ commentMarks, mark <+: cs := by
  unfold isComment
  rw [List.any_eq_true]
  simp only [isSome_dropPrefix?_iff]

/-- No comment starts like a declaration. -/
theorem isComment_of_head? {cs : List Char} (h : cs.head? = some 'u') : isComment cs = false := by
  obtain ⟨rest, rfl⟩ := List.head?_eq_some_iff.mp h
  rw [Bool.eq_false_iff]
  intro hc
  obtain ⟨mark, hmark, hprefix⟩ := isComment_iff.mp hc
  have hstart : ∀ mark ∈ commentMarks, mark ≠ [] ∧ mark.head? ≠ some 'u' := by decide
  obtain ⟨hne, hno⟩ := hstart mark hmark
  obtain ⟨c, tail, rfl⟩ := List.exists_cons_of_ne_nil hne
  obtain ⟨rest', heq⟩ := hprefix
  exact hno (congrArg some (List.cons.inj heq).1)

theorem ofLine_eq (line : List Char) : ofLine line =
    if (Text.trim line).isEmpty || isComment (Text.trim line) then .skipped
    else match Import.parse? (Text.trim line) with
      | some i => .declares i
      | none => .code := rfl

theorem ofLine_of_reads {line : List Char} {l : UnitLine} (h : Reads line l) : ofLine line = l := by
  rw [ofLine_eq]
  cases h with
  | blank h =>
    rw [trim_eq_nil_iff.mpr h]
    rfl
  | marked hmark starts =>
    rw [isComment_iff.mpr ⟨_, hmark, starts⟩, Bool.or_true]
    rfl
  | @declares before core after i white spells white' =>
    obtain ⟨hfirst, hlast⟩ := spells.ends
    have hcore : Text.trim (before ++ (core ++ after)) = core := by
      refine trim_of_white_around white ?_ ?_ white'
      · rw [hfirst]
        rfl
      · rw [hlast]
        rfl
    have hne : core.isEmpty = false := by
      obtain ⟨rest, rfl⟩ := List.head?_eq_some_iff.mp hfirst
      rfl
    rw [hcore, hne, isComment_of_head? hfirst, Import.parse?_eq_some_iff.mpr spells]
    rfl

theorem reads_ofLine {line : List Char} (h : ofLine line ≠ .code) : Reads line (ofLine line) := by
  rw [ofLine_eq] at h ⊢
  split
  · next hskip =>
    rcases Bool.or_eq_true_iff.mp hskip with hempty | hcomment
    · exact .blank (trim_eq_nil_iff.mp (List.isEmpty_iff.mp hempty))
    · obtain ⟨mark, hmark, hprefix⟩ := isComment_iff.mp hcomment
      exact .marked hmark hprefix
  · next hskip =>
    rw [if_neg hskip] at h
    split
    · next i hi =>
      obtain ⟨before, after, hline, hbefore, hafter⟩ := exists_eq_append_trim line
      rw [hline]
      exact .declares hbefore (Import.parse?_eq_some_iff.mp hi) hafter
    · next hno =>
      simp only [hno] at h
      exact absurd rfl h

theorem not_reads_code {line : List Char} : ¬Reads line .code := nofun

theorem reads_iff {line : List Char} {l : UnitLine} :
    Reads line l ↔ ofLine line = l ∧ l ≠ .code := by
  constructor
  · intro h
    exact ⟨ofLine_of_reads h, fun hl => not_reads_code (hl ▸ h)⟩
  · rintro ⟨rfl, hcode⟩
    exact reads_ofLine hcode

instance (line : List Char) (l : UnitLine) : Decidable (Reads line l) :=
  decidable_of_iff _ reads_iff.symm

/-- A line that can be read in no such way is code. -/
theorem ofLine_eq_code_iff {line : List Char} : ofLine line = .code ↔ ∀ l, ¬Reads line l := by
  constructor
  · intro h l hl
    have heq := (ofLine_of_reads hl).symm.trans h
    exact not_reads_code (heq ▸ hl)
  · intro h
    by_cases hcode : ofLine line = .code
    · exact hcode
    · exact absurd (reads_ofLine hcode) (h _)

end UnitLine

namespace AliasTable

/-- What the last of these imports with this short name binds it to. -/
def lastBound (imports : List Import) (short : String) : Option String :=
  (imports.reverse.find? fun i => i.short = short).map Import.qualified

/-- The short names that are bound for the first time, each where that happens. -/
def newNames (imports : List Import) (known : List String) : List String :=
  ((imports.map Import.short).filter fun short => !known.contains short).eraseDups

def declareAll (t : AliasTable) (imports : List Import) : AliasTable :=
  imports.foldl (fun t i => t.declare i.short i.qualified) t

theorem get?_declare (t : AliasTable) (short qualified s : String) :
    (t.declare short qualified).get? s = if s = short then some qualified else t.get? s := by
  have hentry (es : List (String × String)) : (declareEntry short qualified es).lookup s =
      if s = short then some qualified else es.lookup s := by
    induction es with
    | nil =>
      by_cases hs : s = short
      · simp [declareEntry, hs]
      · simp [declareEntry, hs, List.lookup_cons, beq_eq_false_iff_ne.mpr hs]
    | cons e es ih =>
      obtain ⟨name, value⟩ := e
      by_cases hname : name = short
      · by_cases hs : s = short
        · simp [declareEntry, hname, hs]
        · simp [declareEntry, hname, hs, List.lookup_cons, beq_eq_false_iff_ne.mpr hs]
      · by_cases hs : s = name
        · have hne : s ≠ short := fun he => hname (hs.symm.trans he)
          simp [declareEntry, hname, hs]
        · simp only [declareEntry, hname, if_false, List.lookup_cons, beq_eq_false_iff_ne.mpr hs, ih]
  exact hentry t.entries

theorem shortNames_declare (t : AliasTable) (short qualified : String) :
    (t.declare short qualified).shortNames =
      if short ∈ t.shortNames then t.shortNames else t.shortNames ++ [short] := by
  have hentry (es : List (String × String)) : (declareEntry short qualified es).map Prod.fst =
      if short ∈ es.map Prod.fst then es.map Prod.fst else es.map Prod.fst ++ [short] := by
    induction es with
    | nil => rfl
    | cons e es ih =>
      by_cases he : e.1 = short
      · simp [declareEntry, he]
      · have hne : short ≠ e.1 := fun h => he h.symm
        simp only [declareEntry, he, if_false, List.map_cons, ih, List.mem_cons, hne, false_or]
        split
        · rfl
        · rfl
  exact hentry t.entries

theorem get?_declareAll (t : AliasTable) (imports : List Import) (s : String) :
    (t.declareAll imports).get? s = (lastBound imports s).or (t.get? s) := by
  induction imports generalizing t with
  | nil => rfl
  | cons i imports ih =>
    have hlast : lastBound (i :: imports) s =
        (lastBound imports s).or (if s = i.short then some i.qualified else none) := by
      unfold lastBound
      rw [List.reverse_cons, List.find?_append, Option.map_or]
      by_cases hs : s = i.short
      · simp [hs]
      · have hne : i.short ≠ s := fun h => hs h.symm
        simp [hs, hne]
    have hstep : t.declareAll (i :: imports) = (t.declare i.short i.qualified).declareAll imports :=
      rfl
    rw [hstep, ih, get?_declare, hlast, Option.or_assoc]
    congr 1
    split
    · rfl
    · rfl

/-- A new name is put behind the known ones and is no longer new for the imports after it. -/
theorem shortNames_declareAll (t : AliasTable) (imports : List Import) :
    (t.declareAll imports).shortNames = t.shortNames ++ newNames imports t.shortNames := by
  induction imports generalizing t with
  | nil => exact (List.append_nil _).symm
  | cons i imports ih =>
    have hstep : t.declareAll (i :: imports) = (t.declare i.short i.qualified).declareAll imports :=
      rfl
    rw [hstep, ih, shortNames_declare]
    unfold newNames
    by_cases hknown : i.short ∈ t.shortNames
    · rw [if_pos hknown, List.map_cons, List.filter_cons_of_neg (by simpa using hknown)]
    · have hlater : ((imports.map Import.short).filter fun short =>
          !(t.shortNames ++ [i.short]).contains short) =
            ((imports.map Import.short).filter fun short =>
              !t.shortNames.contains short).filter fun short => !short == i.short := by
        rw [List.filter_filter]
        apply List.filter_congr
        intro short _
        simp only [List.contains_eq_mem, List.mem_append, List.mem_singleton, Bool.decide_or,
          Bool.not_or, Bool.and_comm]
        rfl
      rw [if_neg hknown, List.map_cons, List.filter_cons_of_pos (by simpa using hknown),
        List.eraseDups_cons, hlater, List.append_assoc]
      rfl

/-- What observing a unit comes to, by the lines of the unit. -/
theorem observe_eq (t : AliasTable) (unit : String) : t.observe unit =
    (!(((Text.lines unit.toList).map UnitLine.ofLine).filterMap UnitLine.import?).isEmpty &&
        !((Text.lines unit.toList).map UnitLine.ofLine).contains .code,
      t.declareAll (((Text.lines unit.toList).map UnitLine.ofLine).filterMap UnitLine.import?)) :=
  rfl

/-- The imports among lines that have been read. -/
def declared (read : List (List Char × UnitLine)) : List Import :=
  read.filterMap fun p => p.2.import?

/-- Take a unit of which every line is blank, marked as a comment or an import, and at least one is
an import. It is nothing but imports; each short name that it declares is bound to what its last
declaration says and every other name to what it was; known names keep their places and new ones
follow, in the order in which they are first declared. With one more line that is none of these,
wherever it stands, the table comes out the same, but the unit has to be run. -/
theorem observe_declarations {t : AliasTable} {unit : String} {read : List (List Char × UnitLine)}
    (hlines : Text.lines unit.toList = read.map Prod.fst)
    (hread : ∀ p ∈ read, UnitLine.Reads p.1 p.2) (hsome : declared read ≠ []) :
    (t.observe unit).1 = true ∧
    (∀ short, (t.observe unit).2.get? short =
      (lastBound (declared read) short).or (t.get? short)) ∧
    (t.observe unit).2.shortNames = t.shortNames ++ newNames (declared read) t.shortNames ∧
    ∀ (mixed : String) (before after : List (List Char)) (line : List Char),
      Text.lines unit.toList = before ++ after →
      Text.lines mixed.toList = before ++ line :: after → (∀ l, ¬UnitLine.Reads line l) →
        t.observe mixed = (false, (t.observe unit).2) := by
  have hof : (Text.lines unit.toList).map UnitLine.ofLine = read.map Prod.snd := by
    rw [hlines, List.map_map]
    exact List.map_congr_left fun p hp => UnitLine.ofLine_of_reads (hread p hp)
  have himports : ((Text.lines unit.toList).map UnitLine.ofLine).filterMap UnitLine.import? =
      declared read := by
    rw [hof, List.filterMap_map]
    rfl
  have hcode : ((Text.lines unit.toList).map UnitLine.ofLine).contains .code = false := by
    rw [hof, List.contains_eq_mem, decide_eq_false_iff_not]
    intro hm
    obtain ⟨p, hp, hcode⟩ := List.mem_map.mp hm
    exact UnitLine.not_reads_code (hcode ▸ hread p hp)
  have hobserve : t.observe unit = (true, t.declareAll (declared read)) := by
    rw [observe_eq, himports, hcode, List.isEmpty_eq_false_iff.mpr hsome]
    rfl
  rw [hobserve]
  refine ⟨rfl, get?_declareAll t _, shortNames_declareAll t _, ?_⟩
  intro mixed before after line hunit hmixed hother
  have hline : UnitLine.ofLine line = .code := UnitLine.ofLine_eq_code_iff.mpr hother
  have hsame : ((Text.lines mixed.toList).map UnitLine.ofLine).filterMap UnitLine.import? =
      declared read := by
    rw [← himports, hunit, hmixed, List.map_append, List.map_append, List.map_cons, hline,
      List.filterMap_append, List.filterMap_append, List.filterMap_cons]
    rfl
  have hcontains : ((Text.lines mixed.toList).map UnitLine.ofLine).contains .code = true := by
    rw [hmixed, List.map_append, List.map_cons, hline, List.contains_eq_mem]
    exact decide_eq_true (List.mem_append_right _ List.mem_cons_self)
  rw [observe_eq, hsame, hcontains, Bool.not_true, Bool.and_false]

/-- Names that are declared again, a leading backslash, words of the grammar as names, and white
space of several kinds. -/
theorem observe_declarations_again :
    let t := (∅ : AliasTable).observeAll ["use Old\\Thing;", "use Old\\Gadget as Widget;"]
    let first := "// ones\n\tuse \\Acme\\Widget ;\n"
    let second := "\r\n#[x]\nuse\tas  as use;\nuse Foo\\Widget;\r\n * f();"
    let unit := first ++ second
    let mixed := first ++ "use as as;\n" ++ second
    let read := (Text.lines unit.toList).map fun line => (line, UnitLine.ofLine line)
    (Text.lines unit.toList = read.map Prod.fst ∧ (∀ p ∈ read, UnitLine.Reads p.1 p.2) ∧
      declared read ≠ []) ∧ (t.observe unit).1 = true ∧
      (t.observe unit).2.get? "Widget" = some "Foo\\Widget" ∧
      (t.observe unit).2.get? "Thing" = some "Old\\Thing" ∧
      (t.observe unit).2.shortNames = ["Thing", "Widget", "use"] ∧
      t.observe mixed = (false, (t.observe unit).2) := by
  intro t first second unit mixed read
  have hlines : Text.lines unit.toList = read.map Prod.fst := by decide +kernel
  have hread : ∀ p ∈ read, UnitLine.Reads p.1 p.2 := by decide +kernel
  have hsome : declared read ≠ [] := by decide +kernel
  obtain ⟨htrue, hget, hnames, hmixed⟩ := @observe_declarations t unit read hlines hread hsome
  refine ⟨⟨hlines, hread, hsome⟩, htrue, ?_, ?_, ?_, ?_⟩
  · rw [hget]
    decide +kernel
  · rw [hget]
    decide +kernel
  · rw [hnames]
    decide +kernel
  · have hline : UnitLine.ofLine "use as as;".toList = .code := by decide +kernel
    have hsplit : Text.lines unit.toList = (Text.lines unit.toList).take 2 ++
        (Text.lines unit.toList).drop 2 := (List.take_append_drop 2 _).symm
    have hinsert : Text.lines mixed.toList = (Text.lines unit.toList).take 2 ++
        "use as as;".toList :: (Text.lines unit.toList).drop 2 := by decide +kernel
    exact hmixed mixed _ _ _ hsplit hinsert (UnitLine.ofLine_eq_code_iff.mp hline)

end AliasTable

end ScriptShell

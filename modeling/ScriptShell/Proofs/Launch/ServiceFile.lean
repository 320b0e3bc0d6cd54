import Mathlib.Data.List.Basic
import ScriptShell.Proofs.Launch.Environment
import ScriptShell.Proofs.Text.Lines

/-!
Service files as they are written: a setting to a line, with its value in double quotes and with or
without `export`, and blank lines and remarks anywhere between. Every value is read back as it was
written, and of several values of a name the last one counts, those of the command line after those
of the file.
-/

namespace ScriptShell

open Text

namespace Environment

/-- A usable name that a line can start with. -/
structure Writable (key : String) : Prop extends Usable key where
  no_newline : '\n' ∉ key.toList
  no_remark : key.toList.head? ≠ some '#'
  no_export : ¬"export ".toList <+: key.toList

instance : DecidablePred Writable := fun key =>
  decidable_of_iff (Usable key ∧ '\n' ∉ key.toList ∧ key.toList.head? ≠ some '#' ∧
      ¬"export ".toList <+: key.toList)
    ⟨fun ⟨h, h1, h2, h3⟩ => ⟨h, h1, h2, h3⟩, fun ⟨h, h1, h2, h3⟩ => ⟨h, h1, h2, h3⟩⟩

/-- A line of a service's file. -/
inductive FileLine where
  | setting (exported : Bool) (key value : String)
  | other (text : String)
deriving DecidableEq, Repr

namespace FileLine

/-- How the line is written. -/
def text : FileLine → String
  | .setting exported key value =>
    (if exported then "export " else "") ++ (key ++ ("=\"" ++ (value ++ "\"")))
  | .other text => text

/-- A setting has a name that can be written and a value on one line; any other line is blank or a
remark. -/
def IsPlain : FileLine → Prop
  | .setting _ key value => Writable key ∧ '\n' ∉ value.toList
  | .other text => '\n' ∉ text.toList ∧
    (IsWhite text.toList ∨ (Text.trim text.toList).head? = some '#')

instance : DecidablePred IsPlain
  | .setting _ _ _ => inferInstanceAs (Decidable (_ ∧ _))
  | .other _ => inferInstanceAs (Decidable (_ ∧ _))

/-- The name and the value that the line is written for. -/
def pair? : FileLine → Option (String × String)
  | .setting _ key value => some (key, value)
  | .other _ => none

end FileLine

/-- The text of lines with a newline between them; after an empty last line it ends in one. -/
def fileText (fileLines : List FileLine) : String := "\n".intercalate (fileLines.map (·.text))

theorem setting?_dropReturn (line : List Char) : setting? (dropReturn line) = setting? line := by
  unfold setting?
  rw [trim_dropReturn]

/-- One pair of quotes is taken off, whatever stands between them. -/
theorem unquote_quoted (value : List Char) : unquote ('"' :: (value ++ ['"'])) = value := by
  have hlast : ('"' :: (value ++ ['"'])).getLast? = some '"' := by
    rw [← List.cons_append, List.getLast?_concat]
  unfold unquote
  rw [hlast]
  simp only [true_or, and_self, ne_eq, List.append_ne_nil_of_right_ne_nil, reduceCtorEq,
    not_false_eq_true, if_true, List.dropLast_concat]

theorem isTrimmed_quoted (before value : List Char) (h : before.head?.any isSpace = false) :
    IsTrimmed (before ++ '"' :: (value ++ ['"'])) := by
  constructor
  · cases before with
    | nil => exact (by decide : isSpace '"' = false)
    | cons c before => exact h
  · rw [← List.cons_append, ← List.append_assoc, List.getLast?_concat]
    decide

theorem setting?_other {text : String} (h : (FileLine.other text).IsPlain) :
    setting? text.toList = none := by
  rw [Option.eq_none_iff_forall_ne_some]
  rintro ⟨key, value⟩ hset
  obtain ⟨hne, hhash, -⟩ := setting?_eq_some_iff.mp hset
  rcases h.2 with hwhite | hremark
  · exact hne (trim_eq_nil_of_spaces hwhite)
  · exact hhash hremark

/-- A name that does not start like an exported one is not taken for one by what follows it. -/
theorem dropPrefix?_export {key : List Char} (h : ¬"export ".toList <+: key) (rest : List Char) :
    dropPrefix? "export ".toList (key ++ '=' :: rest) = none := by
  rw [dropPrefix?_eq_none_iff]
  rintro ⟨more, hmore⟩
  rcases List.append_eq_append_iff.mp hmore with ⟨b, hb, -⟩ | ⟨b, hb, hrest⟩
  · exact h ⟨b, hb.symm⟩
  · cases b with
    | nil => exact h (hb ▸ (List.append_nil key).symm ▸ List.prefix_refl _)
    | cons c b =>
      have hmem : '=' ∈ "export ".toList := by
        rw [hb, (List.cons.inj hrest).1]
        exact List.mem_append_right key List.mem_cons_self
      exact absurd hmem (by decide)

theorem Writable.head?_append {key : String} (h : Writable key) (rest : List Char) :
    (key.toList ++ rest).head? = key.toList.head? := by
  obtain ⟨c, tail, hkey⟩ := List.exists_cons_of_ne_nil fun hnil =>
    h.ne_empty (String.toList_inj.mp hnil)
  rw [hkey]
  rfl

/-- A setting is read as it was written. -/
theorem setting?_setting (exported : Bool) {key : String} (h : Writable key) (value : String) :
    setting? (FileLine.setting exported key value).text.toList =
      some (key.toList, value.toList) := by
  have hquoted : unquote (Text.trim ('"' :: (value.toList ++ ['"']))) = value.toList := by
    have htrim := (isTrimmed_quoted [] value.toList rfl).trim_eq
    rw [List.nil_append] at htrim
    rw [htrim, unquote_quoted]
  have hstart (more : List Char) : (key.toList ++ more).head?.any isSpace = false := by
    rw [h.head?_append]
    exact h.isTrimmed.1
  have hassigned : key.toList ++ '=' :: '"' :: (value.toList ++ ['"']) =
      (key.toList ++ ['=']) ++ '"' :: (value.toList ++ ['"']) := by
    rw [List.append_assoc, List.singleton_append]
  rw [setting?_eq_some_iff]
  cases exported with
  | true =>
    have htext : (FileLine.setting true key value).text.toList =
        "export ".toList ++ (key.toList ++ '=' :: '"' :: (value.toList ++ ['"'])) := by
      simp only [FileLine.text, if_true, String.toList_append]
      rfl
    have htrim := (isTrimmed_quoted ("export ".toList ++ (key.toList ++ ['='])) value.toList
      (by rfl)).trim_eq
    rw [List.append_assoc, ← hassigned, ← htext] at htrim
    rw [htrim, htext, dropPrefix?_append]
    exact ⟨nofun, nofun, key.toList, _, rfl, h.no_equals, h.isTrimmed.trim_eq, hquoted⟩
  | false =>
    have htext : (FileLine.setting false key value).text.toList =
        key.toList ++ '=' :: '"' :: (value.toList ++ ['"']) := by
      simp only [FileLine.text, String.toList_append]
      rfl
    have htrim := (isTrimmed_quoted (key.toList ++ ['=']) value.toList (hstart _)).trim_eq
    rw [← hassigned, ← htext] at htrim
    rw [htrim, htext, dropPrefix?_export h.no_export, h.head?_append]
    refine ⟨List.append_ne_nil_of_right_ne_nil _ nofun, h.no_remark, key.toList, _, rfl,
      h.no_equals, h.isTrimmed.trim_eq, hquoted⟩

theorem newline_not_mem_text {line : FileLine} (h : line.IsPlain) : '\n' ∉ line.text.toList := by
  cases line with
  | other text => exact h.1
  | setting exported key value =>
    obtain ⟨hkey, hvalue⟩ := h
    have hno : '\n' ∉ (if exported then "export " else "").toList := by
      cases exported with
      | true => decide
      | false => decide
    simp only [FileLine.text, String.toList_append, List.mem_append, not_or]
    exact ⟨hno, hkey.no_newline, by decide, hvalue, by decide⟩

theorem map_setting?_text {line : FileLine} (h : line.IsPlain) :
    (setting? line.text.toList).map asStrings = line.pair? := by
  cases line with
  | other text => rw [FileLine.text, setting?_other h]; rfl
  | setting exported key value =>
    rw [setting?_setting exported h.1, Option.map_some, asStrings, String.ofList_toList,
      String.ofList_toList]
    rfl

/-- A file is read as the settings that it was written for. -/
theorem parse_fileText {fileLines : List FileLine} (h : ∀ line ∈ fileLines, line.IsPlain) :
    parse (fileText fileLines) = NameMap.ofList (fileLines.filterMap (·.pair?)) := by
  have hno : ∀ text ∈ (fileLines.map (·.text)).map String.toList, '\n' ∉ text := by
    intro text htext
    rw [List.map_map] at htext
    obtain ⟨line, hline, rfl⟩ := List.mem_map.mp htext
    exact newline_not_mem_text (h line hline)
  have hlines := filterMap_lines_intercalate setting?_dropReturn rfl hno
  have hfile : (fileText fileLines).toList =
      ['\n'].intercalate ((fileLines.map (·.text)).map String.toList) := String.toList_intercalate
  rw [parse, hfile, hlines, List.map_map, List.filterMap_map, List.map_filterMap]
  refine congrArg NameMap.ofList (List.filterMap_congr fun line hline => ?_)
  exact map_setting?_text (h line hline)

/-- In the environment that a written file and overrides make, a name has the value of its last
override, or else of its last line, and there are no other names. -/
theorem get?_merge_fileText {fileLines : List FileLine} (h : ∀ line ∈ fileLines, line.IsPlain)
    (overrides : List (String × String)) (name : String) :
    (merge (parse (fileText fileLines)) overrides).get? name =
      (overrides.reverse.lookup name).or
        ((fileLines.filterMap (·.pair?)).reverse.lookup name) := by
  have hempty : (NameMap.empty : NameMap String).get? name = none := rfl
  rw [merge, parse_fileText h, NameMap.ofList, NameMap.get?_insertAll, NameMap.get?_insertAll,
    hempty, Option.or_none]

/-- A value that holds quotes, a remark sign and white space, names set twice in the file and twice
on the command line, and a name that holds the word `export`. -/
theorem get?_merge_fileText_overridden :
    let fileLines : List FileLine :=
      [.other "# worker", .setting true "APP_ENV" "production", .other " \t",
        .setting false "TOKEN" " 'a=b\"# ", .setting true "export" "", .setting false "APP_ENV" "x",
        .other ""]
    let overrides := [("DEBUG", "1"), ("TOKEN2", "y"), ("DEBUG", "2")]
    (∀ line ∈ fileLines, line.IsPlain) ∧
    fileText fileLines = "# worker\nexport APP_ENV=\"production\"\n \t\nTOKEN=\" 'a=b\"# \"\n" ++
      "export export=\"\"\nAPP_ENV=\"x\"\n" ∧
    (merge (parse (fileText fileLines)) overrides).entries =
      [("APP_ENV", "x"), ("DEBUG", "2"), ("TOKEN", " 'a=b\"# "), ("TOKEN2", "y"), ("export", "")] ∧
    ∀ name, (merge (parse (fileText fileLines)) overrides).get? name =
      (overrides.reverse.lookup name).or
        ((fileLines.filterMap (·.pair?)).reverse.lookup name) := by
  intro fileLines overrides
  have hplain : ∀ line ∈ fileLines, line.IsPlain := by decide +kernel
  refine ⟨hplain, by decide +kernel, by decide +kernel, fun name => ?_⟩
  exact get?_merge_fileText hplain overrides name

end Environment

end ScriptShell

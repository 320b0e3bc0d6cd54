import ScriptShell.Proofs.Text.Lines

/-!
Texts without their comments. A comment goes from `//`, or from a `#` that opens no attribute, to
the end of the line, or from its opening to its closing mark over any number of lines. What is left
of a text is what is left of its lines, each met outside comments or inside one.
-/

namespace ScriptShell

open Text

/-- Where a text leaves off: in no comment, in one that ends with the line, or in one that ends with
its closing mark. -/
inductive Comment where
  | outside
  | inLine
  | inBlock
deriving DecidableEq, Repr

namespace Comment

/-- A text without its comments, and where it leaves off. -/
def scan : Comment → List Char → List Char × Comment
  | s, [] => ([], s)
  | .outside, '/' :: '/' :: cs => scan .inLine cs
  | .outside, '/' :: '*' :: cs => scan .inBlock cs
  | .outside, '#' :: '[' :: cs => ('#' :: '[' :: (scan .outside cs).1, (scan .outside cs).2)
  | .outside, '#' :: cs => scan .inLine cs
  | .outside, c :: cs => (c :: (scan .outside cs).1, (scan .outside cs).2)
  | .inLine, '\n' :: cs => ('\n' :: (scan .outside cs).1, (scan .outside cs).2)
  | .inLine, _ :: cs => scan .inLine cs
  | .inBlock, '*' :: '/' :: cs => scan .outside cs
  | .inBlock, _ :: cs => scan .inBlock cs

/-- What stays of a text when its comments are removed. -/
def remains (s : Comment) (cs : List Char) : List Char := (scan s cs).1

/-- Where the next line is met when a line leaves off here. -/
def nextLine : Comment → Comment
  | .inLine => .outside
  | s => s

/-- Lines, each with where it is met. -/
def met : Comment → List (List Char) → List (Comment × List Char)
  | _, [] => []
  | s, line :: rest => (s, line) :: met (nextLine (scan s line).2) rest

/-- The text behind the closing mark of a block comment, where there is one. -/
def behindBlock : List Char → Option (List Char)
  | [] => none
  | '*' :: '/' :: cs => some cs
  | _ :: cs => behindBlock cs

/-- No mark of a comment goes over into a text that starts with none of their second characters. -/
theorem scan_append (s : Comment) (a : List Char) {b : List Char}
    (h : ∀ c, b.head? = some c → c ≠ '/' ∧ c ≠ '*' ∧ c ≠ '[') :
    scan s (a ++ b) = ((scan s a).1 ++ (scan (scan s a).2 b).1, (scan (scan s a).2 b).2) := by
  have hmark {c : Char} {cs : List Char} (hc : c = '/' ∨ c = '*' ∨ c = '[')
      (hno : ∀ tail, cs = c :: tail → False) (tail : List Char) : cs ++ b = c :: tail → False := by
    intro heq
    cases cs with
    | nil =>
      rw [List.nil_append] at heq
      obtain ⟨hslash, hstar, hbracket⟩ := h c (congrArg List.head? heq)
      exact hc.elim hslash (·.elim hstar hbracket)
    | cons d cs => exact hno cs (congrArg (· :: cs) (List.cons.inj heq).1)
  fun_induction scan s a with
  | case1 s => rfl
  | case2 cs ih => simp only [List.cons_append, scan, ih]
  | case3 cs ih => simp only [List.cons_append, scan, ih]
  | case4 cs ih => simp only [List.cons_append, scan, ih]
  | case5 cs hno ih =>
    rw [List.cons_append, scan, ih]
    exact hmark (by decide) hno
  | case6 c cs hslash hstar _ hhash ih =>
    rw [List.cons_append, scan, ih, List.cons_append]
    · exact fun tail hc => hmark (by decide) (fun tail => hslash tail hc) tail
    · exact fun tail hc => hmark (by decide) (fun tail => hstar tail hc) tail
    · exact fun _ hc _ => hhash hc
    · exact hhash
  | case7 cs ih => simp only [List.cons_append, scan, ih]
  | case8 c cs hnewline ih => rw [List.cons_append, scan, ih]; exact hnewline
  | case9 cs ih => simp only [List.cons_append, scan, ih]
  | case10 c cs hno ih =>
    rw [List.cons_append, scan, ih]
    exact fun tail hc => hmark (by decide) (fun tail => hno tail hc) tail

/-- A character that starts no mark stays outside comments. -/
theorem scan_outside_cons {c : Char} (hslash : c ≠ '/') (hhash : c ≠ '#') (cs : List Char) :
    scan .outside (c :: cs) = (c :: (scan .outside cs).1, (scan .outside cs).2) := by
  rw [scan]
  · exact fun _ hc _ => hslash hc
  · exact fun _ hc _ => hslash hc
  · exact fun _ hc _ => hhash hc
  · exact hhash

/-- A text without any mark stays as it is, or goes altogether. -/
theorem scan_of_unmarked {cs : List Char} (h : ∀ c ∈ cs, c ≠ '/' ∧ c ≠ '#' ∧ c ≠ '*') :
    scan .outside cs = (cs, .outside) ∧ scan .inBlock cs = ([], .inBlock) := by
  induction cs with
  | nil => exact ⟨rfl, rfl⟩
  | cons c cs ih =>
    obtain ⟨⟨hslash, hhash, hstar⟩, hcs⟩ := List.forall_mem_cons.mp h
    obtain ⟨houtside, hblock⟩ := ih hcs
    constructor
    · rw [scan_outside_cons hslash hhash, houtside]
    · rw [scan, hblock]
      exact fun _ hc _ => hstar hc

theorem remains_inLine {cs : List Char} (h : '\n' ∉ cs) : remains .inLine cs = [] := by
  unfold remains
  induction cs with
  | nil => rfl
  | cons c cs ih =>
    rw [List.mem_cons, not_or] at h
    rw [scan, ih h.2]
    exact fun hc => h.1 hc.symm

/-- A `#` takes the line up to its end, unless it opens an attribute. -/
theorem remains_hash {cs : List Char} (h : '\n' ∉ cs) (hno : ¬['#', '['] <+: '#' :: cs) :
    remains .outside ('#' :: cs) = [] := by
  have hscan : scan .outside ('#' :: cs) = scan .inLine cs := by
    rw [scan]
    intro rest hcs
    rw [hcs] at hno
    exact hno (List.prefix_append _ rest)
  calc remains .outside ('#' :: cs)
    _ = remains .inLine cs := congrArg Prod.fst hscan
    _ = [] := remains_inLine h

theorem remains_inBlock (cs : List Char) :
    remains .inBlock cs = ((behindBlock cs).map (remains .outside)).getD [] := by
  unfold remains
  fun_induction behindBlock cs with
  | case1 => rfl
  | case2 cs => rfl
  | case3 c cs hno ih =>
    rw [scan, ih]
    exact hno

theorem snd_mem_of_mem_met {lines : List (List Char)} {s : Comment} {p : Comment × List Char}
    (hp : p ∈ met s lines) : p.2 ∈ lines := by
  induction lines generalizing s with
  | nil => exact absurd hp List.not_mem_nil
  | cons line lines ih =>
    rcases List.mem_cons.mp hp with rfl | hp
    · exact List.mem_cons_self
    · exact List.mem_cons_of_mem line (ih hp)

/-- The end of a line takes the text to where the next line is met, and leaves at most itself. -/
theorem scan_lineEnd (s : Comment) {ending : List Char} (hend : ending = [] ∨ ending = ['\r'])
    (cs : List Char) : ∃ white, (∀ c ∈ white, isSpace c = true) ∧
      scan s (ending ++ '\n' :: cs) =
        (white ++ (scan (nextLine s) cs).1, (scan (nextLine s) cs).2) := by
  have hwhite {white : List Char} (h : white.all isSpace = true) : ∀ c ∈ white, isSpace c = true :=
    List.all_eq_true.mp h
  rcases hend with rfl | rfl
  · cases s with
    | outside => exact ⟨['\n'], hwhite rfl, rfl⟩
    | inLine => exact ⟨['\n'], hwhite rfl, rfl⟩
    | inBlock => exact ⟨[], hwhite rfl, rfl⟩
  · cases s with
    | outside => exact ⟨['\r', '\n'], hwhite rfl, rfl⟩
    | inLine => exact ⟨['\n'], hwhite rfl, rfl⟩
    | inBlock => exact ⟨[], hwhite rfl, rfl⟩

end Comment

end ScriptShell

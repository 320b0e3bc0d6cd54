import ScriptShell.Text.Char

/-!
Where the characters of source text belong: to code, to a string between quotes, to a comment, or to
the text outside of code that a closing tag starts. A comment that goes to the end of its line is
called a remark. A text leaves off in a remark exactly when a remark is opened in its code and behind
the opening neither a line ends nor the code closes.
-/

namespace ScriptShell

inductive Region where
  | code
  /-- Between single quotes. -/
  | single
  /-- Between double quotes. -/
  | double
  /-- A comment to the end of the line. -/
  | remark
  /-- A comment up to its closing mark. -/
  | block
  /-- Behind a closing tag. -/
  | outside
deriving DecidableEq, Repr

namespace Region

/-- Two characters that are read together: the region they belong to, and the one behind them. The
character after a backslash never ends a string. -/
def pair? : Region → Char → Char → Option (Region × Region)
  | .code, '/', '/' => some (.remark, .remark)
  | .code, '/', '*' => some (.block, .block)
  | .code, '#', '[' => some (.code, .code)
  | .code, '?', '>' => some (.code, .outside)
  | .remark, '?', '>' => some (.code, .outside)
  | .block, '*', '/' => some (.block, .code)
  | .outside, '<', '?' => some (.code, .code)
  | .single, '\\', _ => some (.single, .single)
  | .double, '\\', _ => some (.double, .double)
  | _, _, _ => none

/-- A character that is read alone: the region it belongs to, and the one behind it. -/
def one : Region → Char → Region × Region
  | .code, '\'' => (.single, .single)
  | .code, '"' => (.double, .double)
  | .code, '#' => (.remark, .remark)
  | .single, '\'' => (.single, .code)
  | .double, '"' => (.double, .code)
  | .remark, '\n' => (.code, .code)
  | .remark, '\r' => (.code, .code)
  | s, _ => (s, s)

/-- Every character with its region, and the region that the text leaves off in. -/
def read : Region → List Char → List (Char × Region) × Region
  | s, [] => ([], s)
  | s, [c] => ([(c, (one s c).1)], (one s c).2)
  | s, c :: d :: cs =>
    match pair? s c d with
    | some (mark, next) => ((c, mark) :: (d, mark) :: (read next cs).1, (read next cs).2)
    | none =>
      ((c, (one s c).1) :: (read (one s c).2 (d :: cs)).1, (read (one s c).2 (d :: cs)).2)

/-- The characters of a text with their regions. -/
def marked (cs : List Char) : List (Char × Region) := (read .code cs).1

/-- The region that a text leaves off in. -/
def atEnd (cs : List Char) : Region := (read .code cs).2

theorem read_of_pair {s mark next : Region} {c d : Char} (h : pair? s c d = some (mark, next))
    (cs : List Char) :
    read s (c :: d :: cs) = ((c, mark) :: (d, mark) :: (read next cs).1, (read next cs).2) := by
  rw [read, h]

/-- A character that pairs with nothing behind it is read alone. -/
theorem read_cons {s : Region} {c : Char} {cs : List Char}
    (h : ∀ d, cs.head? = some d → pair? s c d = none) :
    read s (c :: cs) = ((c, (one s c).1) :: (read (one s c).2 cs).1, (read (one s c).2 cs).2) := by
  cases cs with
  | nil => rfl
  | cons d cs => rw [read, h d rfl]

/-- The character has no meaning of its own, neither alone nor in a pair. -/
structure IsInert (c : Char) : Prop where
  alone (s : Region) : one s c = (s, s)
  before (s : Region) (d : Char) : pair? s c d = none
  behind (s : Region) (b : Char) :
    pair? s b c = none ∨ pair? s b c = some (s, s) ∧ one s b = (s, s)

/-- The characters that have a meaning of their own. -/
def meaningful : List Char :=
  ['\'', '"', '\\', '/', '*', '#', '[', '<', '?', '>', '\n', '\r']

theorem isInert_of_not_mem {c : Char} (h : c ∉ meaningful) : IsInert c := by
  simp only [meaningful, List.mem_cons, List.not_mem_nil, or_false, not_or] at h
  obtain ⟨h1, h2, h3, h4, h5, h6, h7, h8, h9, h10, h11, h12⟩ := h
  constructor
  · intro s
    unfold one
    split
    all_goals first | contradiction | rfl
  · intro s d
    unfold pair?
    split
    all_goals first | contradiction | rfl
  · intro s b
    unfold pair?
    split
    all_goals first | contradiction | exact Or.inl rfl | exact Or.inr ⟨rfl, rfl⟩

theorem isInert_of_all {cs : List Char}
    (h : (cs.all fun c => !meaningful.contains c) = true) : ∀ c ∈ cs, IsInert c := by
  intro c hc
  apply isInert_of_not_mem
  intro hm
  have hnot := List.all_eq_true.mp h c hc
  rw [List.contains_iff_mem.mpr hm] at hnot
  exact Bool.false_ne_true hnot

theorem read_cons_of_inert {c : Char} (hc : IsInert c) (s : Region) (cs : List Char) :
    read s (c :: cs) = ((c, s) :: (read s cs).1, (read s cs).2) := by
  rw [read_cons fun d _ => hc.before s d, hc.alone]

theorem read_inert_append {a : List Char} (ha : ∀ c ∈ a, IsInert c) (s : Region)
    (b : List Char) : read s (a ++ b) = (a.map (·, s) ++ (read s b).1, (read s b).2) := by
  induction a with
  | nil => rfl
  | cons c a ih =>
    obtain ⟨hc, ha⟩ := List.forall_mem_cons.mp ha
    rw [List.cons_append, read_cons_of_inert hc, ih ha]
    rfl

/-- A text can be cut in front of a character without a meaning. -/
theorem read_append_of_inert (s : Region) (a : List Char) {d : Char} (hd : IsInert d)
    (b : List Char) :
    read s (a ++ d :: b) =
      ((read s a).1 ++ (read (read s a).2 (d :: b)).1, (read (read s a).2 (d :: b)).2) := by
  fun_induction read s a with
  | case1 s => rfl
  | case2 s c =>
    rcases hd.behind s c with hnone | ⟨hpair, hone⟩
    · rw [List.singleton_append, read, hnone]
      rfl
    · rw [List.singleton_append, read_of_pair hpair, hone, read_cons_of_inert hd]
      rfl
  | case3 s c e cs mark next hpair ih =>
    rw [List.cons_append, List.cons_append, read_of_pair hpair, ih]
    rfl
  | case4 s c e cs hnone ih =>
    rw [List.cons_append, List.cons_append, read, hnone]
    simp only
    rw [← List.cons_append, ih]
    rfl

theorem read_append_inert {b : List Char} (hb : ∀ c ∈ b, IsInert c) (s : Region)
    (a : List Char) :
    read s (a ++ b) = ((read s a).1 ++ b.map (·, (read s a).2), (read s a).2) := by
  cases b with
  | nil => rw [List.append_nil, List.map_nil, List.append_nil]
  | cons d b =>
    have hown := read_inert_append hb (read s a).2 []
    rw [List.append_nil, read, List.append_nil] at hown
    rw [read_append_of_inert s a (hb d List.mem_cons_self), hown]

/-- The text starts with the mark of a remark; `#[` opens an attribute. -/
def OpensRemark (cs : List Char) : Prop :=
  ['/', '/'] <+: cs ∨ ['#'] <+: cs ∧ ¬['#', '['] <+: cs

/-- No line ends in the text, and no closing tag stands in it. -/
def StaysOpen (cs : List Char) : Prop :=
  '\n' ∉ cs ∧ '\r' ∉ cs ∧ ¬['?', '>'] <:+: cs

instance (cs : List Char) : Decidable (OpensRemark cs) :=
  inferInstanceAs (Decidable (['/', '/'] <+: cs ∨ ['#'] <+: cs ∧ ¬['#', '['] <+: cs))

instance (cs : List Char) : Decidable (StaysOpen cs) :=
  inferInstanceAs (Decidable ('\n' ∉ cs ∧ '\r' ∉ cs ∧ ¬['?', '>'] <:+: cs))

theorem staysOpen_cons {c : Char} {cs : List Char} :
    StaysOpen (c :: cs) ↔
      c ≠ '\n' ∧ c ≠ '\r' ∧ ¬(c = '?' ∧ cs.head? = some '>') ∧ StaysOpen cs := by
  have hinfix : ['?', '>'] <:+: c :: cs ↔
      (c = '?' ∧ cs.head? = some '>') ∨ ['?', '>'] <:+: cs := by
    rw [List.infix_cons_iff]
    apply or_congr_left
    constructor
    · rintro ⟨rest, hrest⟩
      obtain ⟨hc, htail⟩ := List.cons.inj hrest
      exact ⟨hc.symm, by rw [← htail]; rfl⟩
    · rintro ⟨rfl, hhead⟩
      obtain ⟨rest, rfl⟩ := List.head?_eq_some_iff.mp hhead
      exact ⟨rest, rfl⟩
  unfold StaysOpen
  rw [List.mem_cons, List.mem_cons, hinfix]
  simp only [not_or, ne_eq, eq_comm (a := c)]
  constructor
  · rintro ⟨⟨h1, h2⟩, ⟨h3, h4⟩, h5, h6⟩
    exact ⟨h1, h3, h5, h2, h4, h6⟩
  · rintro ⟨h1, h3, h5, h2, h4, h6⟩
    exact ⟨⟨h1, h2⟩, ⟨h3, h4⟩, h5, h6⟩

theorem read_remark {cs : List Char} (h : StaysOpen cs) : (read .remark cs).2 = .remark := by
  induction cs with
  | nil => rfl
  | cons c cs ih =>
    obtain ⟨hnewline, hreturn, htag, hcs⟩ := staysOpen_cons.mp h
    have hone : one .remark c = (.remark, .remark) := by
      unfold one
      split
      all_goals first | contradiction | rfl
    have hpair (d : Char) (hd : cs.head? = some d) : pair? .remark c d = none := by
      unfold pair?
      split
      all_goals first | contradiction | rfl | exact absurd ⟨rfl, hd⟩ htag
    rw [read_cons hpair, hone]
    exact ih hcs

theorem read_opened {cs : List Char} (ho : OpensRemark cs) (h : StaysOpen cs) :
    (read .code cs).2 = .remark := by
  rcases ho with ⟨rest, rfl⟩ | ⟨⟨rest, rfl⟩, hattribute⟩
  · have hrest := (staysOpen_cons.mp (staysOpen_cons.mp h).2.2.2).2.2.2
    exact read_remark hrest
  · have hpair (d : Char) (hd : rest.head? = some d) : pair? .code '#' d = none := by
      have hbracket : d ≠ '[' := by
        rintro rfl
        obtain ⟨tail, rfl⟩ := List.head?_eq_some_iff.mp hd
        exact hattribute ⟨tail, rfl⟩
      unfold pair?
      split
      all_goals first | contradiction | rfl
    have hrest := (staysOpen_cons.mp h).2.2.2
    rw [List.singleton_append, read_cons hpair]
    exact read_remark hrest

/-- What can take a character into a remark: the remark goes on, or the character opens one. -/
theorem one_eq_remark {s : Region} {c : Char} (h : (one s c).2 = .remark) :
    s = .remark ∧ c ≠ '\n' ∧ c ≠ '\r' ∨ s = .code ∧ c = '#' := by
  unfold one at h
  split at h
  case h_3 => exact Or.inr ⟨rfl, rfl⟩
  case h_8 _ _ _ hnewline hreturn =>
    refine Or.inl ⟨h, ?_, ?_⟩
    · rintro rfl
      exact hnewline h rfl
    · rintro rfl
      exact hreturn h rfl
  all_goals exact absurd h nofun

theorem pair?_eq_remark {s mark : Region} {c d : Char} (h : pair? s c d = some (mark, .remark)) :
    s = .code ∧ c = '/' ∧ d = '/' := by
  unfold pair? at h
  split at h
  all_goals first | exact ⟨rfl, rfl, rfl⟩ | exact absurd h nofun

theorem staysOpen_nil : StaysOpen [] :=
  ⟨List.not_mem_nil, List.not_mem_nil, fun h => absurd (List.infix_nil.mp h) nofun⟩

/-- A remark that is met goes on, or the character opens it. -/
theorem staysOpen_or_opens {s : Region} {c : Char} {cs : List Char}
    (hc : (one s c).2 = .remark) (hpair : ∀ d, cs.head? = some d → pair? s c d = none)
    (h : StaysOpen cs) :
    s = .remark ∧ StaysOpen (c :: cs) ∨
      s = .code ∧ OpensRemark (c :: cs) ∧ StaysOpen (c :: cs) := by
  rcases one_eq_remark hc with ⟨rfl, hnewline, hreturn⟩ | ⟨rfl, rfl⟩
  · refine Or.inl ⟨rfl, staysOpen_cons.mpr ⟨hnewline, hreturn, ?_, h⟩⟩
    rintro ⟨rfl, hhead⟩
    exact absurd (hpair '>' hhead) nofun
  · refine Or.inr ⟨rfl, Or.inr ⟨⟨cs, rfl⟩, ?_⟩, staysOpen_cons.mpr ?_⟩
    · rintro ⟨rest, hrest⟩
      have hhead : cs.head? = some '[' := by
        rw [← (List.cons.inj hrest).2]
        rfl
      exact absurd (hpair '[' hhead) nofun
    · exact ⟨by decide, by decide, fun hmark => absurd hmark.1 (by decide), h⟩

/-- Where a text leaves off in a remark, it was met in one, or opened it. -/
theorem exists_opened_of_read {s : Region} {cs : List Char} (h : (read s cs).2 = .remark) :
    s = .remark ∧ StaysOpen cs ∨ ∃ front remark, cs = front ++ remark ∧
      (read s front).2 = .code ∧ OpensRemark remark ∧ StaysOpen remark := by
  fun_induction read s cs with
  | case1 s => exact Or.inl ⟨h, staysOpen_nil⟩
  | case2 s c =>
    have hpair (d : Char) (hd : ([] : List Char).head? = some d) : pair? s c d = none :=
      absurd hd.symm (Option.some_ne_none d)
    rcases staysOpen_or_opens h hpair staysOpen_nil with hmet | ⟨rfl, hopened⟩
    · exact Or.inl hmet
    · exact Or.inr ⟨[], [c], rfl, rfl, hopened⟩
  | case3 s c d cs mark next hpair ih =>
    rcases ih h with ⟨rfl, hopen⟩ | ⟨front, remark, rfl, hfront, hopened⟩
    · obtain ⟨rfl, rfl, rfl⟩ := pair?_eq_remark hpair
      refine Or.inr ⟨[], _, rfl, rfl, Or.inl ⟨cs, rfl⟩, ?_⟩
      have hslash {cs : List Char} (hcs : StaysOpen cs) : StaysOpen ('/' :: cs) :=
        staysOpen_cons.mpr ⟨by decide, by decide, fun hmark => absurd hmark.1 (by decide), hcs⟩
      exact hslash (hslash hopen)
    · refine Or.inr ⟨c :: d :: front, remark, rfl, ?_, hopened⟩
      rw [read_of_pair hpair]
      exact hfront
  | case4 s c d cs hnone ih =>
    have hpair (e : Char) (he : (d :: cs).head? = some e) : pair? s c e = none :=
      Option.some.inj he ▸ hnone
    rcases ih h with ⟨hone, hopen⟩ | ⟨front, remark, hcs, hfront, hopened⟩
    · rcases staysOpen_or_opens hone hpair hopen with hmet | ⟨rfl, hopened⟩
      · exact Or.inl hmet
      · exact Or.inr ⟨[], _, rfl, rfl, hopened⟩
    · refine Or.inr ⟨c :: front, remark, congrArg (c :: ·) hcs, ?_, hopened⟩
      have hfirst (e : Char) (he : front.head? = some e) : pair? s c e = none := by
        apply hpair
        rw [hcs, List.head?_append, he, Option.some_or]
      rw [read_cons hfirst]
      exact hfront

theorem head?_of_opensRemark {cs : List Char} (h : OpensRemark cs) :
    cs.head? = some '/' ∨ cs.head? = some '#' := by
  rcases h with ⟨rest, rfl⟩ | ⟨⟨rest, rfl⟩, -⟩
  · exact Or.inl rfl
  · exact Or.inr rfl

/-- Of the characters that leave a text in code, only a slash pairs with the mark of a remark. -/
theorem pair?_of_one_eq_code {s : Region} {c d : Char} {found : Region × Region}
    (hone : (one s c).2 = .code) (hd : d = '/' ∨ d = '#') (h : pair? s c d = some found) :
    s = .code ∧ c = '/' ∧ d = '/' := by
  rcases hd with rfl | rfl
  · unfold pair? at h
    split at h
    all_goals first | exact ⟨rfl, rfl, rfl⟩ | contradiction
  · unfold pair? at h
    split at h
    all_goals contradiction

/-- Where a remark is opened in code, the text leaves off in a remark. A slash in front of the mark
opens it one character earlier. -/
theorem read_append_opened {s : Region} {front remark : List Char} (hs : (read s front).2 = .code)
    (ho : OpensRemark remark) (h : StaysOpen remark) : (read s (front ++ remark)).2 = .remark := by
  fun_induction read s front with
  | case1 s =>
    obtain rfl : s = .code := hs
    exact read_opened ho h
  | case2 s c =>
    have hone : (one s c).2 = .code := hs
    by_cases hpair : ∀ d, remark.head? = some d → pair? s c d = none
    · rw [List.singleton_append, read_cons hpair, hone]
      exact read_opened ho h
    · simp only [Classical.not_forall] at hpair
      obtain ⟨d, hhead, hd⟩ := hpair
      obtain ⟨found, hfound⟩ := Option.ne_none_iff_exists'.mp hd
      have hmark : d = '/' ∨ d = '#' := by
        rcases head?_of_opensRemark ho with hslash | hhash
        · exact Or.inl (Option.some.inj (hhead.symm.trans hslash))
        · exact Or.inr (Option.some.inj (hhead.symm.trans hhash))
      obtain ⟨rfl, rfl, rfl⟩ := pair?_of_one_eq_code hone hmark hfound
      obtain ⟨rest, rfl⟩ := List.head?_eq_some_iff.mp hhead
      exact read_remark (staysOpen_cons.mp h).2.2.2
  | case3 s c e cs mark next hpair ih =>
    rw [List.cons_append, List.cons_append, read_of_pair hpair]
    exact ih hs
  | case4 s c e cs hnone ih =>
    rw [List.cons_append, List.cons_append, read, hnone]
    exact ih hs

theorem atEnd_eq_remark_iff {cs : List Char} :
    atEnd cs = .remark ↔ ∃ front remark, cs = front ++ remark ∧ atEnd front = .code ∧
      OpensRemark remark ∧ StaysOpen remark := by
  constructor
  · intro h
    rcases exists_opened_of_read h with ⟨hcode, -⟩ | hopened
    · exact absurd hcode nofun
    · exact hopened
  · rintro ⟨front, remark, rfl, hfront, ho, h⟩
    exact read_append_opened hfront ho h

end Region

end ScriptShell

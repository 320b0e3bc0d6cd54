import ScriptShell.Proofs.NameMap
import ScriptShell.Proofs.Text.Words
import ScriptShell.Variables.Tracker

/-!
Where variables occur in a text: at each `$` that a name follows, up to the end of its word. The
scan for single names finds these occurrences, the scans for constructs nothing else.
-/

namespace ScriptShell.Variables

open Text

/-- The names after the `$`s of a text, without them, from left to right. -/
def named : List Char → List (List Char)
  | [] => []
  | c :: cs =>
    if c = '$' ∧ cs.head?.any isNameStart = true then cs.takeWhile isWord :: named cs else named cs

theorem named_cons_of_ne {c : Char} (h : c ≠ '$') (cs : List Char) :
    named (c :: cs) = named cs := by
  rw [named, if_neg fun hc => h hc.1]

/-- A part without a `$` can be left out at the start. -/
theorem named_append_of_not_mem {a : List Char} (h : '$' ∉ a) (b : List Char) :
    named (a ++ b) = named b := by
  induction a with
  | nil => rfl
  | cons c a ih =>
    rw [List.mem_cons, not_or] at h
    rw [List.cons_append, named_cons_of_ne (Ne.symm h.1), ih h.2]

/-- A text can be cut wherever no word goes on. -/
theorem named_append_of_boundary (a : List Char) {b : List Char} (h : b.head?.any isWord = false) :
    named (a ++ b) = named a ++ named b := by
  have hb : b.head?.any isNameStart = false := by
    cases b with
    | nil => rfl
    | cons c b =>
      rw [Bool.eq_false_iff]
      intro hc
      exact Bool.false_ne_true (h.symm.trans (isWord_of_isNameStart hc))
  induction a with
  | nil => rfl
  | cons c a ih =>
    have hhead : (a ++ b).head?.any isNameStart = a.head?.any isNameStart := by
      cases a with
      | nil => exact hb
      | cons d a => rfl
    rw [List.cons_append, named, named, hhead, takeWhile_append_of_boundary a h, ih]
    split
    · rfl
    · rfl

/-- A name that occurs in the end of a text occurs in the text. -/
theorem mem_named_of_suffix {cs b name : List Char} (hs : b <:+ cs) (h : name ∈ named b) :
    name ∈ named cs := by
  obtain ⟨a, rfl⟩ := hs
  induction a with
  | nil => exact h
  | cons c a ih =>
    rw [List.cons_append, named]
    split
    · exact List.mem_cons_of_mem _ ih
    · exact ih

/-- A variable's name is the first one of the text that it stands at the start of. -/
theorem takeVariable?_sound {cs name rest : List Char} {n : Nat}
    (h : takeVariable? cs = some (name, n, rest)) :
    cs = '$' :: (name ++ rest) ∧ n = name.length + 1 ∧ named cs = name :: named rest := by
  unfold takeVariable? at h
  split at h
  · next c after =>
    split at h
    · next hc =>
      simp only [Option.some.injEq, Prod.mk.injEq] at h
      obtain ⟨hname, hn, hrest⟩ := h
      have hword : (c :: after).takeWhile isWord = name := by
        rw [List.takeWhile_cons_of_pos (isWord_of_isNameStart hc), hname]
      have hafter : c :: after = name ++ rest := by
        rw [← hname, ← hrest, List.cons_append, List.takeWhile_append_dropWhile]
      have hsigil : '$' ∉ name := by
        intro hm
        rw [← hword] at hm
        exact ne_of_isWord (List.mem_takeWhile_imp hm) (by decide) rfl
      refine ⟨congrArg ('$' :: ·) hafter, ?_, ?_⟩
      · rw [← hn, ← hname, List.length_cons]
      · rw [named, if_pos ⟨rfl, hc⟩, hword, hafter, named_append_of_not_mem hsigil]
    · exact absurd h nofun
  · exact absurd h nofun

theorem named_cons_of_takeVariable? {c : Char} {cs : List Char}
    (h : takeVariable? (c :: cs) = none) : named (c :: cs) = named cs := by
  rw [named]
  split
  · next hc =>
    obtain ⟨rfl, hstart⟩ := hc
    cases cs with
    | nil => exact absurd hstart Bool.false_ne_true
    | cons d cs =>
      have hd : isNameStart d = true := hstart
      rw [takeVariable?, if_pos hd] at h
      exact absurd h nofun
  · rfl

/-- The scan for single names finds every occurrence. It goes on behind each name, in which no `$`
is passed over. -/
theorem scan_anyVariable (cs : List Char) : scan anyVariable cs = named cs := by
  have hfrom (prev : Option Char) (n : Nat) :
      scanFrom anyVariable prev n cs = named (cs.drop n) := by
    induction cs generalizing prev n with
    | nil =>
      rw [scanFrom, List.drop_nil]
      rfl
    | cons c cs ih =>
      cases n with
      | succ n => exact ih (some c) n
      | zero =>
        rw [List.drop_zero]
        cases hv : takeVariable? (c :: cs) with
        | none =>
          have hm : anyVariable prev (c :: cs) = none := by
            unfold anyVariable
            rw [hv]
            rfl
          rw [scanFrom, hm, named_cons_of_takeVariable? hv]
          exact ih (some c) 0
        | some found =>
          obtain ⟨name, n, rest⟩ := found
          obtain ⟨hcs, hn, hnamed⟩ := takeVariable?_sound hv
          have hm : anyVariable prev (c :: cs) = some (name, n) := by
            unfold anyVariable
            rw [hv]
            rfl
          have htail : cs.drop (n - 1) = rest := by
            rw [(List.cons.inj hcs).2, hn, Nat.add_sub_cancel, List.drop_left]
          rw [scanFrom, hm, hnamed, ← htail]
          exact congrArg (name :: ·) (ih (some c) (n - 1))
  exact hfrom none 0

theorem exists_of_mem_scanFrom {α : Type} {m : Matcher α} {prev : Option Char} {n : Nat}
    {cs : List Char} {found : α} (h : found ∈ scanFrom m prev n cs) :
    ∃ prev rest n, rest <:+ cs ∧ m prev rest = some (found, n) := by
  induction cs generalizing prev n with
  | nil => exact absurd h List.not_mem_nil
  | cons c cs ih =>
    have hlift {prev : Option Char} {n : Nat} (h : found ∈ scanFrom m prev n cs) :
        ∃ prev rest n, rest <:+ c :: cs ∧ m prev rest = some (found, n) := by
      obtain ⟨prev, rest, n, hs, hm⟩ := ih h
      exact ⟨prev, rest, n, hs.trans (List.suffix_cons c cs), hm⟩
    cases n with
    | succ n => exact hlift h
    | zero =>
      rw [scanFrom] at h
      split at h
      · next a n hm =>
        rcases List.mem_cons.mp h with h | h
        · exact ⟨prev, c :: cs, n, List.suffix_refl _, h ▸ hm⟩
        · exact hlift h
      · exact hlift h

/-- Whatever a scan finds, it found at some position of the text. -/
theorem exists_of_mem_scan {α : Type} {m : Matcher α} {cs : List Char} {found : α}
    (h : found ∈ scan m cs) : ∃ prev rest n, rest <:+ cs ∧ m prev rest = some (found, n) :=
  exists_of_mem_scanFrom h

theorem suffix_of_dropPrefix? {p cs rest : List Char} (h : dropPrefix? p cs = some rest) :
    rest <:+ cs :=
  ⟨p, (eq_append_of_dropPrefix? h).symm⟩

theorem suffix_skipMark (cs : List Char) : (skipMark cs).1 <:+ cs := by
  unfold skipMark
  split
  · exact List.suffix_cons _ _
  · exact List.suffix_refl _

theorem suffix_skipSpaces (cs : List Char) : (skipSpaces cs).1 <:+ cs := List.dropWhile_suffix _

theorem takeVariable?_mem {cs name rest : List Char} {n : Nat}
    (h : takeVariable? cs = some (name, n, rest)) : name ∈ named cs ∧ rest <:+ cs := by
  obtain ⟨hcs, -, hnamed⟩ := takeVariable?_sound h
  rw [hnamed]
  refine ⟨List.mem_cons_self, '$' :: name, ?_⟩
  rw [hcs, List.cons_append]

theorem takeReference?_mem {cs name rest : List Char} {n : Nat}
    (h : takeReference? cs = some (name, n, rest)) : name ∈ named cs ∧ rest <:+ cs := by
  simp only [takeReference?, Option.bind_eq_bind, Option.bind_eq_some_iff] at h
  obtain ⟨⟨name', n', rest'⟩, hv, hsome⟩ := h
  simp only [Option.some.injEq, Prod.mk.injEq] at hsome
  obtain ⟨rfl, -, rfl⟩ := hsome
  obtain ⟨hm, hs⟩ := takeVariable?_mem hv
  exact ⟨mem_named_of_suffix (suffix_skipMark cs) hm, hs.trans (suffix_skipMark cs)⟩

theorem assignment_mem {prev : Option Char} {cs name : List Char} {n : Nat}
    (h : assignment prev cs = some (name, n)) : name ∈ named cs := by
  simp only [assignment, Option.bind_eq_bind, Option.bind_eq_some_iff] at h
  obtain ⟨⟨name', n', rest⟩, hv, hsome⟩ := h
  split at hsome
  · have hname : name' = name := congrArg Prod.fst (Option.some.inj hsome)
    exact hname ▸ (takeVariable?_mem hv).1
  · exact absurd hsome nofun

theorem loopBinding_mem {prev : Option Char} {cs : List Char} {names : List (List Char)} {n : Nat}
    (h : loopBinding prev cs = some (names, n)) : ∀ name ∈ names, name ∈ named cs := by
  simp only [loopBinding, Option.bind_eq_bind, Option.bind_none] at h
  split at h
  · exact absurd h nofun
  obtain ⟨rest, hrest, h⟩ := Option.bind_eq_some_iff.mp h
  split at h
  · exact absurd h nofun
  obtain ⟨⟨key, k, after⟩, hkey, h⟩ := Option.bind_eq_some_iff.mp h
  have hspaces : (skipSpaces rest).1 <:+ cs :=
    (suffix_skipSpaces rest).trans (suffix_of_dropPrefix? hrest)
  obtain ⟨hk, hafter⟩ := takeReference?_mem hkey
  have hkeyed : key ∈ named cs := mem_named_of_suffix hspaces hk
  split at h
  · next value m hvalue =>
    obtain ⟨tail, htail, hvalue⟩ := Option.bind_eq_some_iff.mp hvalue
    obtain ⟨⟨name, k', last⟩, hv, hsome⟩ := Option.bind_eq_some_iff.mp hvalue
    have hname : name = value := congrArg Prod.fst (Option.some.inj hsome)
    have harrow : tail <:+ after := (suffix_of_dropPrefix? htail).trans (suffix_skipSpaces after)
    have hvalued : value ∈ named cs := by
      apply mem_named_of_suffix (harrow.trans (hafter.trans hspaces))
      apply mem_named_of_suffix (suffix_skipSpaces tail)
      exact hname ▸ (takeReference?_mem hv).1
    have hnames : [key, value] = names := congrArg Prod.fst (Option.some.inj h)
    rw [← hnames]
    exact List.forall_mem_cons.mpr ⟨hkeyed, List.forall_mem_singleton.mpr hvalued⟩
  · have hnames : [key] = names := congrArg Prod.fst (Option.some.inj h)
    rw [← hnames]
    exact List.forall_mem_singleton.mpr hkeyed

theorem splitOnce?_sound {c : Char} {cs a b : List Char} (h : splitOnce? c cs = some (a, b)) :
    cs = a ++ c :: b := by
  induction cs generalizing a with
  | nil => exact absurd h nofun
  | cons d cs ih =>
    rw [splitOnce?] at h
    split at h
    · next hd =>
      obtain ⟨rfl, rfl⟩ := Prod.mk.inj (Option.some.inj h)
      rw [hd]
      rfl
    · obtain ⟨⟨a', b'⟩, hsplit, heq⟩ := Option.map_eq_some_iff.mp h
      obtain ⟨rfl, rfl⟩ := Prod.mk.inj heq
      rw [ih hsplit]
      rfl

/-- What stands in the parentheses of a function's head is part of the text, with the closing one
behind it. -/
theorem parameterList_suffix {prev : Option Char} {cs inside : List Char} {n : Nat}
    (h : parameterList prev cs = some (inside, n)) : ∃ rest, inside ++ ')' :: rest <:+ cs := by
  simp only [parameterList, Option.bind_eq_bind, Option.bind_none] at h
  split at h
  · exact absurd h nofun
  obtain ⟨⟨word, rest⟩, hword, h⟩ := Option.bind_eq_some_iff.mp h
  split at h
  · exact absurd h nofun
  obtain ⟨list, hlist, h⟩ := Option.bind_eq_some_iff.mp h
  obtain ⟨⟨inside', after⟩, hinside, hsome⟩ := Option.bind_eq_some_iff.mp h
  have heq : inside' = inside := congrArg Prod.fst (Option.some.inj hsome)
  have hrest : rest <:+ cs := by
    obtain ⟨word', -, hdrop⟩ := List.exists_of_findSome?_eq_some hword
    obtain ⟨rest', hrest', hpair⟩ := Option.map_eq_some_iff.mp hdrop
    exact (Prod.mk.inj hpair).2 ▸ suffix_of_dropPrefix? hrest'
  refine ⟨after, ?_⟩
  rw [← heq, ← splitOnce?_sound hinside]
  apply (suffix_of_dropPrefix? hlist).trans
  apply (suffix_skipSpaces _).trans
  apply (List.drop_suffix _ _).trans
  apply (suffix_skipSpaces _).trans
  apply (suffix_skipMark _).trans
  exact (suffix_skipSpaces rest).trans hrest

/-- Every scan finds names at their occurrences, and the last one finds them all. -/
theorem mem_scanned (cs name : List Char) : name ∈ scanned cs ↔ name ∈ named cs := by
  unfold scanned
  rw [List.mem_append, List.mem_append, List.mem_append, scan_anyVariable]
  constructor
  · rintro (((h | h) | h) | h)
    · obtain ⟨prev, rest, n, hs, hm⟩ := exists_of_mem_scan h
      exact mem_named_of_suffix hs (assignment_mem hm)
    · obtain ⟨names, hnames, hname⟩ := List.mem_flatten.mp h
      obtain ⟨prev, rest, n, hs, hm⟩ := exists_of_mem_scan hnames
      exact mem_named_of_suffix hs (loopBinding_mem hm name hname)
    · obtain ⟨inside, hinside, hname⟩ := List.mem_flatMap.mp h
      obtain ⟨prev, rest, n, hs, hm⟩ := exists_of_mem_scan hinside
      obtain ⟨after, hafter⟩ := parameterList_suffix hm
      rw [scan_anyVariable] at hname
      refine mem_named_of_suffix (hafter.trans hs) ?_
      rw [named_append_of_boundary inside (by rfl)]
      exact List.mem_append_left _ hname
    · exact h
  · exact Or.inr

/-- The variables of a text are its occurrences, as a set. -/
theorem extract_eq (unit : String) :
    extract unit =
      NameSet.ofList ((named unit.toList).map fun name => String.ofList ('$' :: name)) := by
  apply NameSet.ext_contains
  intro x
  rw [extract, NameSet.contains_ofList, NameSet.contains_ofList, List.mem_map, List.mem_map]
  simp only [mem_scanned]

/-- A `$` stands in the text, with a letter or an underscore behind it, and the name is the whole
word that starts there. -/
def Occurs (name cs : List Char) : Prop :=
  ∃ before rest, cs = before ++ '$' :: rest ∧ rest.head?.any isNameStart = true ∧
    name = rest.takeWhile isWord

/-- The names of a text are its occurrences, from left to right. -/
theorem mem_named_iff_occurs {name cs : List Char} : name ∈ named cs ↔ Occurs name cs := by
  constructor
  · intro h
    induction cs with
    | nil => exact absurd h List.not_mem_nil
    | cons c cs ih =>
      have hlater (h : name ∈ named cs) : Occurs name (c :: cs) := by
        obtain ⟨before, rest, rfl, hrest⟩ := ih h
        exact ⟨c :: before, rest, rfl, hrest⟩
      rw [named] at h
      split at h
      · next hc =>
        rcases List.mem_cons.mp h with h | h
        · exact ⟨[], cs, by rw [hc.1, List.nil_append], hc.2, h⟩
        · exact hlater h
      · exact hlater h
  · rintro ⟨before, rest, rfl, hstart, rfl⟩
    apply mem_named_of_suffix (List.suffix_append before _)
    rw [named, if_pos ⟨rfl, hstart⟩]
    exact List.mem_cons_self

end ScriptShell.Variables

namespace ScriptShell.Tracker

/-- The tracker that has seen these texts too. -/
def trackAll (tracker : Tracker) (texts : List String) : Tracker :=
  texts.foldl (fun tracker text => (tracker.track text).2) tracker

theorem contains_track (tracker : Tracker) (text name : String) :
    (tracker.track text).2.contains name = true ↔
      tracker.contains name = true ∨ (Variables.extract text).contains name = true := by
  unfold contains track
  dsimp only
  rw [NameSet.contains_union, NameSet.mem_names]

theorem contains_trackAll (tracker : Tracker) (texts : List String) (name : String) :
    (tracker.trackAll texts).contains name = true ↔
      tracker.contains name = true ∨
        ∃ text ∈ texts, (Variables.extract text).contains name = true := by
  induction texts generalizing tracker with
  | nil => exact ⟨Or.inl, fun h => h.resolve_right fun ⟨_, h, _⟩ => List.not_mem_nil h⟩
  | cons text texts ih =>
    rw [trackAll, List.foldl_cons, ← trackAll, ih, contains_track, or_assoc]
    simp only [List.mem_cons, exists_eq_or_imp]

end ScriptShell.Tracker

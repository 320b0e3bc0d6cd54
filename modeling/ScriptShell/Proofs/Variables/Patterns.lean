import ScriptShell.Proofs.Text.Pattern
import ScriptShell.Proofs.Variables.Occurrence

/-!
The four scans for variables as searches for patterns. A scan takes each part of its pattern as far as
it goes and never gives anything back. It misses nothing by that: what a shorter run would leave over
cannot go on as the pattern wants, or leads to the same match. Together the searches find the
occurrences of variables and nothing else.
-/

namespace ScriptShell.Variables

open Text Text.Pattern

def spaces : Pattern := many isSpace

/-- A name: `[A-Za-z_]\w*`. -/
def namePattern : Pattern := seq (one isNameStart) (many isWord)

/-- A variable, of which the name is kept: `\$([A-Za-z_]\w*)`. -/
def variablePattern : Pattern := seq (only '$') (group namePattern)

/-- A variable, by reference or not: `&?\$([A-Za-z_]\w*)`. -/
def referencePattern : Pattern := seq (optional (only '&')) variablePattern

/-- An assignment: `\$([A-Za-z_]\w*)\s*=`. -/
def assignmentPattern : Pattern := seq variablePattern (seq spaces (only '='))

/-- The second variable of a loop: `\s*=>\s*&?\$([A-Za-z_]\w*)`. -/
def valuePattern : Pattern :=
  seq spaces (seq (literal ['=', '>']) (seq spaces referencePattern))

/-- The variables of a loop: `\bas\s+`, a variable, and a second one that may be missing. -/
def loopPattern : Pattern :=
  seq boundary (seq (literal ['a', 's'])
    (seq (one isSpace) (seq spaces (seq referencePattern (optional valuePattern)))))

/-- A parameter list, of which the inside is kept: `\(([^)]*)\)`. -/
def listPattern : Pattern := seq (only '(') (seq (group (many (· != ')'))) (only ')'))

/-- The name of a function, which may be missing, and its parameters:
`(?:[A-Za-z_]\w*)?\s*\(([^)]*)\)`. -/
def headPattern : Pattern := seq (optional namePattern) (seq spaces listPattern)

/-- What may stand behind the keyword of a function and white space: `&?\s*`, then the name and the
parameters. -/
def markedPattern : Pattern := seq (optional (only '&')) (seq spaces headPattern)

def keywordPattern : Pattern :=
  either (literal ['f', 'u', 'n', 'c', 't', 'i', 'o', 'n']) (literal ['f', 'n'])

/-- The head of a function: `\b(?:function|fn)\b\s*`, then the rest of it. -/
def parameterPattern : Pattern :=
  seq boundary (seq keywordPattern (seq boundary (seq spaces markedPattern)))

section Parts

variable {β : Type} {k : Place → Option β} {prev : Option Char} {cs : List Char} {n : Nat}
  {groups : List (List Char)}

theorem first_spaces (h : Settles isSpace k) (s : Place) :
    first spaces s k = k (s.past isSpace) :=
  first_many_of_settles h

theorem first_spaces_pos {r : Pattern} {s : Place} (h : Settles isSpace fun t => first r t k) :
    first (seq (one isSpace) (seq spaces r)) s k =
      if s.rest.head?.any isSpace = true then first r (s.past isSpace) k else none :=
  first_one_many h

theorem first_spaces_of_word (h : Settles isSpace k) {s : Place}
    (hs : s.rest.head?.any isWord = true) : first spaces s k = k s := by
  rw [first_spaces h, past_of_head]
  cases hhead : s.rest.head? with
  | none => rfl
  | some c =>
    rw [hhead, Option.any_some] at hs
    exact not_isSpace_of_isWord hs

theorem first_name (h : Spares isWord k) :
    first namePattern ⟨prev, cs, n, groups⟩ k =
      if cs.head?.any isNameStart = true then k (Place.past isWord ⟨prev, cs, n, groups⟩)
      else none := by
  rw [namePattern, first_seq]
  cases cs with
  | nil => rfl
  | cons c cs =>
    rw [first_one_cons, List.head?_cons, Option.any_some]
    split
    · next hc => rw [first_many_of_spares h, past_cons (isWord_of_isNameStart hc)]
    · rfl

theorem take_length_takeWhile (p : Char → Bool) (cs : List Char) :
    cs.take (cs.takeWhile p).length = cs.takeWhile p :=
  (List.prefix_iff_eq_take.mp (List.takeWhile_prefix p)).symm

theorem takeVariable?_of_ne {c : Char} (hc : c ≠ '$') (cs : List Char) :
    takeVariable? (c :: cs) = none := by
  rw [takeVariable?]
  exact fun _ _ he => hc (List.cons.inj he).1

theorem first_variable (h : Spares isWord k) :
    first variablePattern ⟨prev, cs, n, groups⟩ k =
      (takeVariable? cs).bind fun (name, taken, rest) =>
        k ⟨name.getLast?, rest, n + taken, groups ++ [name]⟩ := by
  rw [variablePattern, first_seq, only]
  cases cs with
  | nil => rfl
  | cons c cs =>
    rw [first_one_cons]
    by_cases hc : c = '$'
    · subst hc
      rw [if_pos (by rfl), first_group, first_name (h.keep _)]
      cases cs with
      | nil => rfl
      | cons d cs =>
        rw [takeVariable?, List.head?_cons, Option.any_some]
        by_cases hd : isNameStart d = true
        · have hword : (d :: cs).takeWhile isWord = d :: cs.takeWhile isWord :=
            List.takeWhile_cons_of_pos (isWord_of_isNameStart hd)
          have hrest : (d :: cs).dropWhile isWord = cs.dropWhile isWord :=
            List.dropWhile_cons_of_pos (isWord_of_isNameStart hd)
          have hlast : (d :: cs.takeWhile isWord).getLast?.or (some '$') =
              (d :: cs.takeWhile isWord).getLast? := by
            rw [List.getLast?_cons, Option.some_or]
          have htake := take_length_takeWhile isWord (d :: cs)
          rw [if_pos hd, if_pos hd, Place.past]
          dsimp only
          rw [Nat.add_sub_cancel_left, htake, hword, hrest, hlast, Option.bind_some,
            List.length_cons, Nat.add_assoc n 1, Nat.add_comm 1]
        · rw [if_neg hd, if_neg hd]
          rfl
    · rw [if_neg fun he => hc (eq_of_beq he), takeVariable?_of_ne hc]
      rfl

theorem first_reference (h : Spares isWord k) :
    first referencePattern ⟨prev, cs, n, groups⟩ k =
      (takeReference? cs).bind fun (name, taken, rest) =>
        k ⟨name.getLast?, rest, n + taken, groups ++ [name]⟩ := by
  rw [referencePattern, first_seq, first_optional, first_only, first_variable h, takeReference?]
  cases cs with
  | nil => rfl
  | cons c cs =>
    rw [List.head?_cons, List.tail_cons]
    by_cases hc : c = '&'
    · subst hc
      rw [if_pos rfl, first_variable h, takeVariable?_of_ne (by decide), Option.bind_none,
        Option.or_none, skipMark]
      dsimp only
      cases takeVariable? cs with
      | none => rfl
      | some found =>
        obtain ⟨name, taken, rest⟩ := found
        simp only [Option.bind_eq_bind, Option.bind_some]
        rw [Nat.add_assoc]
    · rw [if_neg fun he => hc (Option.some.inj he), Option.none_or, first_variable h,
        skipMark]
      · dsimp only
        cases takeVariable? (c :: cs) with
        | none => rfl
        | some found =>
          obtain ⟨name, taken, rest⟩ := found
          simp only [Option.bind_eq_bind, Option.bind_some]
          rw [Nat.zero_add]
      · exact fun _ he => hc (List.cons.inj he).1

end Parts

theorem assignmentPattern_matcher (prev : Option Char) (cs : List Char) :
    assignmentPattern.matcher prev cs =
      (assignment prev cs).map fun (name, n) => ([name], n) := by
  have hsettles : Settles isSpace fun t => first (only '=') t Place.found? :=
    Settles.of_head fun t ht => first_only_of_ne (by rw [ht]; decide)
  have hspares : Spares isWord fun t => first (seq spaces (only '=')) t Place.found? := by
    apply Spares.of_head
    intro t ht
    rw [first_seq, first_spaces_of_word hsettles ht, first_only_of_ne (by rw [ht]; decide)]
  rw [matcher_eq, assignmentPattern, first_seq, first_variable hspares, assignment]
  cases takeVariable? cs with
  | none => rfl
  | some found =>
    obtain ⟨name, taken, rest⟩ := found
    simp only [Option.bind_eq_bind, Option.bind_some]
    rw [first_seq, first_spaces hsettles, Place.past, first_only, skipSpaces]
    dsimp only
    rw [Nat.zero_add]
    split
    · rfl
    · rfl

theorem skipSpaces_eq_zero_iff (cs : List Char) :
    (skipSpaces cs).2 = 0 ↔ ¬cs.head?.any isSpace = true := by
  rw [skipSpaces]
  cases cs with
  | nil => exact ⟨fun _ => nofun, fun _ => rfl⟩
  | cons c cs =>
    rw [List.head?_cons, Option.any_some]
    by_cases hc : isSpace c = true
    · rw [List.takeWhile_cons_of_pos hc]
      exact ⟨nofun, fun h => absurd hc h⟩
    · rw [List.takeWhile_cons_of_neg hc]
      exact ⟨fun _ => hc, fun _ => rfl⟩

theorem first_reference_of_space {β : Type} {k : Place → Option β} {s : Place}
    (h : s.rest.head?.any isSpace = true) : first referencePattern s k = none := by
  rw [referencePattern, first_seq, first_optional, variablePattern, first_seq,
    first_only_of_ne (by rw [h]; decide), first_only_of_ne (by rw [h]; decide)]
  rfl

theorem first_value (prev : Option Char) (cs : List Char) (n : Nat) (groups : List (List Char)) :
    first valuePattern ⟨prev, cs, n, groups⟩ Place.found? =
      (dropPrefix? ['=', '>'] (skipSpaces cs).1).bind fun rest =>
        (takeReference? (skipSpaces rest).1).bind fun (name, m, _) =>
          some (groups ++ [name], n + ((skipSpaces cs).2 + 2 + (skipSpaces rest).2 + m)) := by
  have hvalue : Settles isSpace fun t => first referencePattern t Place.found? :=
    Settles.of_head fun t ht => first_reference_of_space ht
  have harrow : Settles isSpace fun t =>
      first (seq (literal ['=', '>']) (seq spaces referencePattern)) t Place.found? :=
    Settles.of_head fun t ht => by rw [first_seq, first_literal_of_ne (by rw [ht]; decide)]
  rw [valuePattern, first_seq, first_spaces harrow, Place.past, first_seq, first_literal]
  change (dropPrefix? ['=', '>'] (skipSpaces cs).1).bind _ = _
  cases dropPrefix? ['=', '>'] (skipSpaces cs).1 with
  | none => rfl
  | some rest =>
    rw [Option.bind_some, Option.bind_some, first_seq, first_spaces hvalue, Place.past,
      first_reference (Spares.found? isWord)]
    change (takeReference? (skipSpaces rest).1).bind _ = _
    cases takeReference? (skipSpaces rest).1 with
    | none => rfl
    | some found =>
      obtain ⟨name, m, last⟩ := found
      simp only [Option.bind_some, Place.found?, skipSpaces, List.length_cons, List.length_nil,
        Option.some.injEq, Prod.mk.injEq, true_and]
      omega

/-- The pattern of a loop takes what its definition takes: the second variable may be missing, so the
first one is never given back. -/
theorem loopPattern_matcher (prev : Option Char) (cs : List Char) :
    loopPattern.matcher prev cs = loopBinding prev cs := by
  have hpair : Spares isWord fun t => first (optional valuePattern) t Place.found? := by
    apply Spares.of_ne_none
    intro t ht
    rw [first_optional, Option.or_eq_none_iff] at ht
    exact absurd ht.2 nofun
  have hkey : Settles isSpace fun t =>
      first (seq referencePattern (optional valuePattern)) t Place.found? :=
    Settles.of_head fun t ht => by rw [first_seq, first_reference_of_space ht]
  have hword {s : Place} (hs : s.rest.head?.any isWord = false) (r : Pattern) :
      first (seq (literal ['a', 's']) r) s Place.found? = none := by
    rw [first_seq, first_literal_of_ne (by rw [hs]; decide)]
  rw [matcher_eq, loopPattern, first_boundary_seq fun hs => hword hs _, loopBinding]
  simp only [Option.bind_eq_bind, Option.bind_none]
  split
  · rfl
  rw [first_seq, first_literal]
  cases dropPrefix? ['a', 's'] cs with
  | none => rfl
  | some rest =>
    rw [Option.bind_some, Option.bind_some, first_spaces_pos hkey]
    split
    · next hspace =>
      rw [first_seq, Place.past, first_reference hpair,
        if_neg fun hzero => (skipSpaces_eq_zero_iff rest).mp hzero hspace]
      change (takeReference? (skipSpaces rest).1).bind _ = _
      cases takeReference? (skipSpaces rest).1 with
      | none => rfl
      | some found =>
        obtain ⟨key, n, after⟩ := found
        simp only [Option.bind_some]
        rw [first_optional, first_value]
        cases dropPrefix? ['=', '>'] (skipSpaces after).1 with
        | none => rfl
        | some tail =>
          simp only [Option.bind_some]
          cases takeReference? (skipSpaces tail).1 with
          | none => rfl
          | some found => rfl
    · next hspace =>
      rw [if_pos ((skipSpaces_eq_zero_iff rest).mpr hspace)]

theorem splitOnce?_eq (c : Char) (cs : List Char) :
    splitOnce? c cs =
      if (cs.dropWhile (· != c)).head? = some c then
        some (cs.takeWhile (· != c), (cs.dropWhile (· != c)).tail)
      else none := by
  induction cs with
  | nil => rfl
  | cons d cs ih =>
    rw [splitOnce?, ih, List.dropWhile_cons, List.takeWhile_cons]
    by_cases hd : d = c
    · subst hd
      have hstop : ¬(d != d) = true := fun hne => bne_iff_ne.mp hne rfl
      rw [if_pos rfl, if_neg hstop, if_neg hstop, if_pos (by rfl)]
      rfl
    · have hne : (d != c) = true := bne_iff_ne.mpr hd
      rw [if_neg hd, if_pos hne, if_pos hne]
      split
      · rfl
      · rfl

theorem drop_length_takeWhile (p : Char → Bool) (cs : List Char) :
    cs.drop (cs.takeWhile p).length = cs.dropWhile p := by
  induction cs with
  | nil => rfl
  | cons c cs ih =>
    rw [List.takeWhile_cons, List.dropWhile_cons]
    split
    · exact ih
    · rfl

theorem first_list (prev : Option Char) (cs : List Char) (n : Nat) (groups : List (List Char)) :
    first listPattern ⟨prev, cs, n, groups⟩ Place.found? =
      (dropPrefix? ['('] cs).bind fun rest => (splitOnce? ')' rest).map fun (inside, _) =>
        (groups ++ [inside], n + inside.length + 2) := by
  have hspares : Spares (· != ')') fun t => first (only ')') t Place.found? :=
    Spares.of_head fun t ht => first_only_of_ne (by rw [ht]; decide)
  rw [listPattern, first_seq, first_only]
  cases cs with
  | nil => rfl
  | cons c rest =>
    rw [dropPrefix?, List.head?_cons, List.tail_cons]
    by_cases hc : c = '('
    · subst hc
      rw [if_pos rfl, if_pos rfl, first_seq, first_group, first_many_of_spares (hspares.keep _),
        Place.past, first_only, dropPrefix?, Option.bind_some, splitOnce?_eq]
      dsimp only
      rw [Nat.add_sub_cancel_left, take_length_takeWhile]
      split
      · simp only [Place.found?, Option.map_some, Option.some.injEq, Prod.mk.injEq, true_and]
        omega
      · rfl
    · rw [if_neg fun he => hc (Option.some.inj he), if_neg (Ne.symm hc)]
      rfl

theorem first_list_of_ne {s : Place} {p : Char → Bool} (h : s.rest.head?.any p ≠ p '(') :
    first listPattern s Place.found? = none := by
  rw [listPattern, first_seq, first_only_of_ne h]

theorem settles_list : Settles isSpace fun t => first listPattern t Place.found? :=
  Settles.of_head fun t ht => first_list_of_ne (by rw [ht]; decide)

/-- The name at the start of a text, nothing if there is none. -/
def leadingName (cs : List Char) : List Char :=
  if cs.head?.any isNameStart then cs.takeWhile isWord else []

theorem first_head (prev : Option Char) (cs : List Char) (n : Nat) (groups : List (List Char)) :
    first headPattern ⟨prev, cs, n, groups⟩ Place.found? =
      (dropPrefix? ['('] (skipSpaces (cs.drop (leadingName cs).length)).1).bind fun rest =>
        (splitOnce? ')' rest).map fun (inside, _) =>
          (groups ++ [inside], n + (leadingName cs).length +
            (skipSpaces (cs.drop (leadingName cs).length)).2 + inside.length + 2) := by
  have hword {t : Place} (ht : t.rest.head?.any isWord = true) :
      first (seq spaces listPattern) t Place.found? = none := by
    rw [first_seq, first_spaces_of_word settles_list ht, first_list_of_ne (by rw [ht]; decide)]
  have hspaces (s : Place) : first (seq spaces listPattern) s Place.found? =
      (dropPrefix? ['('] (skipSpaces s.rest).1).bind fun rest =>
        (splitOnce? ')' rest).map fun (inside, _) =>
          (s.groups ++ [inside], s.taken + (skipSpaces s.rest).2 + inside.length + 2) := by
    rw [first_seq, first_spaces settles_list, Place.past, first_list]
    rfl
  rw [headPattern, first_seq, first_optional, first_name (Spares.of_head fun t ht => hword ht),
    leadingName]
  split
  · next hname =>
    have hnone : first (seq spaces listPattern) ⟨prev, cs, n, groups⟩ Place.found? = none := by
      apply hword
      cases cs with
      | nil => exact absurd hname Bool.false_ne_true
      | cons c cs => exact isWord_of_isNameStart hname
    rw [hnone, Option.or_none, hspaces, Place.past, drop_length_takeWhile]
  · rw [Option.none_or, hspaces]
    rfl

/-- A function's head may be looked for behind white space. -/
theorem settles_head : Settles isSpace fun t => first headPattern t Place.found? := by
  have hname (t : Place) (ht : t.rest.head?.any isSpace = true)
      (k : Place → Option (List (List Char) × Nat)) : first namePattern t k = none := by
    rw [namePattern, first_seq, first_one_of_head]
    cases hc : t.rest.head? with
    | none => rfl
    | some c =>
      rw [hc, Option.any_some] at ht
      rw [Option.any_some, Bool.eq_false_iff]
      intro hstart
      exact absurd (not_isWord_of_isSpace ht) (by rw [isWord_of_isNameStart hstart]; decide)
  simpa only [headPattern, first_seq, spaces] using settles_list.optional_many hname

theorem first_mark (prev : Option Char) (cs : List Char) (n : Nat) (groups : List (List Char)) :
    ∃ prev', first markedPattern ⟨prev, cs, n, groups⟩ Place.found? =
      first (seq spaces headPattern) ⟨prev', (skipMark cs).1, n + (skipMark cs).2, groups⟩
        Place.found? := by
  rw [markedPattern, first_seq, first_optional, first_only]
  by_cases hmark : cs.head? = some '&'
  · obtain ⟨rest, rfl⟩ := List.head?_eq_some_iff.mp hmark
    have hnone : first (seq spaces headPattern) ⟨prev, '&' :: rest, n, groups⟩ Place.found? =
        none := by
      rw [first_seq, first_spaces settles_head, past_of_head (by rfl), first_head]
      rfl
    refine ⟨some '&', ?_⟩
    rw [if_pos hmark, hnone, Option.or_none]
    rfl
  · have hskip : skipMark cs = (cs, 0) := by
      rw [skipMark]
      rintro rest rfl
      exact hmark rfl
    refine ⟨prev, ?_⟩
    rw [if_neg hmark, Option.none_or, hskip]
    rfl

/-- What the parentheses behind the keyword of a function hold, and how far behind it they end. -/
def listAfter? (rest : List Char) : Option (List Char × Nat) :=
  if rest.head?.any isWord then none
  else
    let marked := skipMark (skipSpaces rest).1
    let spaced := skipSpaces marked.1
    let name := leadingName spaced.1
    let listed := skipSpaces (spaced.1.drop name.length)
    (dropPrefix? ['('] listed.1).bind fun after => (splitOnce? ')' after).map fun (inside, _) =>
      (inside, (skipSpaces rest).2 + marked.2 + spaced.2 + name.length + listed.2 +
        inside.length + 2)

theorem parameterList_eq (prev : Option Char) (cs : List Char) :
    parameterList prev cs =
      if prev.any isWord = true then none
      else
        (functionWords.findSome? fun word => (dropPrefix? word cs).map fun rest =>
          (word, rest)).bind fun (word, rest) =>
            (listAfter? rest).map fun (inside, n) => (inside, word.length + n) := by
  rw [parameterList]
  simp only [Option.bind_eq_bind, Option.bind_none]
  split
  · rfl
  refine Option.bind_congr fun found _ => ?_
  rw [listAfter?]
  split
  · rfl
  dsimp only
  rw [Option.map_bind]
  refine Option.bind_congr fun after _ => ?_
  rw [Function.comp_apply]
  cases splitOnce? ')' after with
  | none => rfl
  | some cut =>
    simp only [Option.bind_some, Option.map_some, Nat.add_assoc]
    rfl

theorem first_afterKeyword {prev : Option Char} (hprev : prev.any isWord = true)
    (rest : List Char) (n : Nat) :
    first (seq boundary (seq spaces markedPattern)) ⟨prev, rest, n, []⟩ Place.found? =
      (listAfter? rest).map fun (inside, m) => ([inside], n + m) := by
  have hmarked : Settles isSpace fun t => first markedPattern t Place.found? := by
    have hmark (t : Place) (ht : t.rest.head?.any isSpace = true)
        (k : Place → Option (List (List Char) × Nat)) : first (only '&') t k = none :=
      first_only_of_ne (by rw [ht]; decide)
    simpa only [markedPattern, first_seq, spaces] using settles_head.optional_many hmark
  rw [first_seq, first_boundary, hprev]
  by_cases hword : rest.head?.any isWord = true
  · rw [if_pos hword.symm, listAfter?, if_pos hword]
    rfl
  · rw [if_neg fun he => hword he.symm, first_seq, first_spaces hmarked, Place.past, listAfter?,
      if_neg hword]
    obtain ⟨prev', hmark⟩ := first_mark ((rest.takeWhile isSpace).getLast?.or prev)
      (rest.dropWhile isSpace) (n + (rest.takeWhile isSpace).length) []
    dsimp only
    rw [hmark, first_seq, first_spaces settles_head, Place.past, first_head, Option.map_bind]
    refine Option.bind_congr fun after _ => ?_
    rw [Function.comp_apply]
    cases splitOnce? ')' after with
    | none => rfl
    | some cut =>
      simp only [Option.map_some, Nat.add_assoc]
      rfl

/-- The pattern of parameters takes what its definition takes: no text starts with both keywords. -/
theorem parameterPattern_matcher (prev : Option Char) (cs : List Char) :
    parameterPattern.matcher prev cs =
      (parameterList prev cs).map fun (inside, n) => ([inside], n) := by
  have hword {s : Place} (hs : s.rest.head?.any isWord = false) (r : Pattern) :
      first (seq keywordPattern r) s Place.found? = none := by
    rw [first_seq, keywordPattern, first_either, first_literal_of_ne (by rw [hs]; decide),
      first_literal_of_ne (by rw [hs]; decide)]
    rfl
  rw [matcher_eq, parameterPattern, first_boundary_seq fun hs => hword hs _, parameterList_eq]
  split
  · rfl
  rw [first_seq, keywordPattern, first_either, first_literal, first_literal, functionWords,
    List.findSome?_cons, List.findSome?_singleton]
  cases hlong : dropPrefix? ['f', 'u', 'n', 'c', 't', 'i', 'o', 'n'] cs with
  | some rest =>
    have hshort : dropPrefix? ['f', 'n'] cs = none := by
      rw [eq_append_of_dropPrefix? hlong]
      rfl
    rw [hshort, Option.bind_some, Option.bind_none, Option.or_none, first_afterKeyword (by rfl)]
    simp only [Option.map_some, Option.bind_some]
    cases listAfter? rest with
    | none => rfl
    | some list => rfl
  | none =>
    rw [Option.bind_none, Option.none_or]
    cases dropPrefix? ['f', 'n'] cs with
    | none => rfl
    | some rest =>
      rw [Option.bind_some, first_afterKeyword (by rfl)]
      simp only [Option.map_some, Option.map_none, Option.bind_some]
      cases listAfter? rest with
      | none => rfl
      | some list => rfl

theorem variablePattern_matcher (prev : Option Char) (cs : List Char) :
    variablePattern.matcher prev cs = (anyVariable prev cs).map fun (name, n) => ([name], n) := by
  rw [matcher_eq, first_variable (Spares.found? isWord), anyVariable]
  cases takeVariable? cs with
  | none => rfl
  | some found =>
    obtain ⟨name, n, rest⟩ := found
    simp only [Option.bind_eq_bind, Option.bind_some, Option.map_some, Nat.zero_add]
    rfl

/-- The names that the four patterns find. -/
def captured (cs : List Char) : List (List Char) :=
  (assignmentPattern.captures cs).flatten ++ (loopPattern.captures cs).flatten ++
    (parameterPattern.captures cs).flatten.flatMap
      (fun inside => (variablePattern.captures inside).flatten) ++
    (variablePattern.captures cs).flatten

/-- A pattern with one group gives the names that its scan gives. -/
theorem captures_flatten {r : Pattern} {m : Matcher (List Char)}
    (h : ∀ prev cs, r.matcher prev cs = (m prev cs).map fun (name, n) => ([name], n))
    (cs : List Char) : (r.captures cs).flatten = scan m cs := by
  rw [captures_eq (fun name => [name]) h, ← List.flatMap_def, List.flatMap_singleton']

theorem captured_eq (cs : List Char) : captured cs = scanned cs := by
  have hloop : (loopPattern.captures cs).flatten = (scan loopBinding cs).flatten := by
    have hmatcher : loopPattern.matcher = loopBinding :=
      funext fun prev => funext fun cs => loopPattern_matcher prev cs
    rw [captures, hmatcher]
  rw [captured, scanned, hloop, captures_flatten assignmentPattern_matcher,
    captures_flatten parameterPattern_matcher, captures_flatten variablePattern_matcher]
  simp only [captures_flatten variablePattern_matcher]

/-- The variables of a text are what the four patterns find, and these are its occurrences. The
pattern for single names finds them all, so the others add nothing. -/
theorem extract_occurrences (unit : String) :
    extract unit = NameSet.ofList ((captured unit.toList).map fun name =>
      String.ofList ('$' :: name)) ∧
    (∀ name, (extract unit).contains name = true ↔
      ∃ word, Occurs word unit.toList ∧ name = String.ofList ('$' :: word)) ∧
    ∀ word, word ∈ (variablePattern.captures unit.toList).flatten ↔ Occurs word unit.toList := by
  refine ⟨?_, fun name => ?_, fun word => ?_⟩
  · rw [captured_eq, extract]
  · rw [extract_eq, NameSet.contains_ofList, List.mem_map]
    simp only [mem_named_iff_occurs, eq_comm]
  · rw [captures_flatten variablePattern_matcher, scan_anyVariable, mem_named_iff_occurs]

end ScriptShell.Variables

import ScriptShell.Proofs.Completion.Cursor

/-!
Members on offer. After an arrow the candidates are whole names of members, while the editor
replaces the identifier before the cursor. The two fit together exactly when the typed part of the
name consists of identifier characters, which not all characters of words are.
-/

namespace ScriptShell

open Text

namespace CompletionContext

theorem objectBefore?_sound {back object : List Char} (h : objectBefore? back = some object) :
    ∃ front, back.reverse = front ++ '$' :: object := by
  unfold objectBefore? at h
  simp only at h
  split at h
  · next hsplit =>
    obtain ⟨tail, htail⟩ := List.head?_eq_some_iff.mp hsplit.1
    obtain rfl := Option.some.inj h
    refine ⟨tail.reverse, ?_⟩
    have hback := List.takeWhile_append_dropWhile (p := isWord) (l := back)
    rw [htail] at hback
    calc back.reverse = (back.takeWhile isWord ++ '$' :: tail).reverse := by rw [hback]
      _ = tail.reverse ++ '$' :: (back.takeWhile isWord).reverse := by
        rw [List.reverse_append, List.reverse_cons, List.append_assoc]
        rfl
  · exact absurd h nofun

/-- The arrow, and the one that lets null pass. -/
def arrows : List (List Char) := ["->".toList, "?->".toList]

theorem beforeArrow?_sound {back rest : List Char} (h : beforeArrow? back = some rest) :
    ∃ arrow ∈ arrows, back.reverse = rest.reverse ++ arrow := by
  unfold beforeArrow? at h
  split at h
  · obtain rfl := Option.some.inj h
    refine ⟨"?->".toList, by decide, ?_⟩
    simp only [List.reverse_cons, List.append_assoc]
    rfl
  · obtain rfl := Option.some.inj h
    refine ⟨"->".toList, by decide, ?_⟩
    simp only [List.reverse_cons, List.append_assoc]
    rfl
  · exact absurd h nofun

/-- The text ends in a `$`, the name of the object, white space if any, and an arrow. -/
def Accesses (object ahead : List Char) : Prop :=
  ∃ front gap, ∃ arrow ∈ arrows, ahead = front ++ '$' :: object ++ gap ++ arrow ∧
    ∀ c ∈ gap, isSpace c = true

theorem accessed?_sound {before object : List Char}
    (h : accessed? before.reverse = some object) : Accesses object before := by
  unfold accessed? at h
  obtain ⟨rest, harrow, hobject⟩ := Option.bind_eq_some_iff.mp h
  obtain ⟨arrow, hmem, hback⟩ := beforeArrow?_sound harrow
  obtain ⟨front, hfront⟩ := objectBefore?_sound hobject
  refine ⟨front, (rest.takeWhile isSpace).reverse, arrow, hmem, ?_, ?_⟩
  · rw [← hfront, ← List.reverse_append, List.takeWhile_append_dropWhile, ← hback,
      List.reverse_reverse]
  · intro c hc
    exact List.mem_takeWhile_imp (List.mem_reverse.mp hc)

theorem started?_sound {before object written : List Char}
    (h : started? before.reverse = some (object, written)) :
    ∃ ahead, Accesses object ahead ∧ before = ahead ++ written := by
  unfold started? at h
  simp only at h
  split at h
  · exact absurd h nofun
  · obtain ⟨rest, harrow, h⟩ := Option.bind_eq_some_iff.mp h
    obtain ⟨found, hobject, h⟩ := Option.bind_eq_some_iff.mp h
    obtain ⟨rfl, rfl⟩ := Prod.mk.inj (Option.some.inj h)
    obtain ⟨arrow, hmem, hback⟩ := beforeArrow?_sound harrow
    obtain ⟨front, hfront⟩ := objectBefore?_sound hobject
    refine ⟨front ++ '$' :: found ++ [] ++ arrow,
      ⟨front, [], arrow, hmem, rfl, List.forall_mem_nil _⟩, ?_⟩
    rw [List.append_nil, ← hfront, ← hback, ← List.reverse_append,
      List.takeWhile_append_dropWhile, List.reverse_reverse]

/-- Where a member is asked for, the text before the cursor is an access and the part of the name
that is typed. Right after an arrow, that is the word of the editor. -/
theorem memberOf_ofBefore {before typed : List Char} {object written : String}
    (h : ofBefore before typed = .memberOf object written) :
    ∃ ahead, Accesses object.toList ahead ∧
      (before = ahead ++ written.toList ∨ before = ahead ∧ written.toList = typed) := by
  unfold ofBefore at h
  simp only at h
  split at h
  · next hobject =>
    obtain ⟨rfl, rfl⟩ := CompletionContext.memberOf.inj h
    rw [String.toList_ofList, String.toList_ofList]
    exact ⟨before, accessed?_sound hobject, Or.inr ⟨rfl, rfl⟩⟩
  · split at h
    · next hstarted =>
      obtain ⟨rfl, rfl⟩ := CompletionContext.memberOf.inj h
      rw [String.toList_ofList, String.toList_ofList]
      obtain ⟨ahead, hahead, hbefore⟩ := started?_sound hstarted
      exact ⟨ahead, hahead, Or.inl hbefore⟩
    · split at h
      · exact absurd h nofun
      · split at h
        · exact absurd h nofun
        · exact absurd h nofun

end CompletionContext

namespace Completion

open CompletionContext

/-- An access ends in an arrow, which is in no identifier. -/
theorem head?_reverse_of_accesses {object ahead : List Char} (h : Accesses object ahead) :
    ahead.reverse.head?.any isIdentifier = false := by
  obtain ⟨front, gap, arrow, hmem, rfl, -⟩ := h
  have hlast : ∀ arrow ∈ arrows, ∃ start, arrow = start ++ ['>'] := by
    intro arrow hmem
    rcases List.mem_cons.mp hmem with rfl | hmem
    · exact ⟨['-'], rfl⟩
    · obtain rfl := List.mem_singleton.mp hmem
      exact ⟨['?', '-'], rfl⟩
  obtain ⟨start, rfl⟩ := hlast arrow hmem
  rw [← List.append_assoc, List.reverse_append]
  change isIdentifier '>' = false
  decide +kernel

/-- The editor's word does not reach over an arrow. -/
theorem cutWord_append_of_accesses {object ahead : List Char} (h : Accesses object ahead)
    (written : List Char) :
    cutWord (ahead ++ written) = (ahead ++ (cutWord written).1, (cutWord written).2) := by
  have htyped : (cutWord (ahead ++ written)).2 = (cutWord written).2 := by
    have hrun := takeWhile_append_of_boundary written.reverse (head?_reverse_of_accesses h)
    unfold cutWord
    rw [List.reverse_append]
    exact congrArg List.reverse hrun
  have hwhole := cutWord_append (ahead ++ written)
  have hpart := cutWord_append written
  rw [htyped] at hwhole
  apply Prod.ext
  · apply List.append_cancel_right
    rw [hwhole, List.append_assoc, hpart]
  · exact htyped

/-- The editor keeps nothing of a text exactly when the text is an identifier. -/
theorem cutWord_fst_eq_nil_iff (written : List Char) :
    (cutWord written).1 = [] ↔ ∀ c ∈ written, isIdentifier c = true := by
  rw [cutWord, List.reverse_eq_nil_iff, List.dropWhile_eq_nil_iff]
  simp only [List.mem_reverse]

/-- Where a member is asked for, the text before the cursor is an access and then the typed part of
the name, whose last identifier is what the editor replaces. -/
theorem exists_access {before : List Char} {object written : String}
    (h : ofBefore before (cutWord before).2 = .memberOf object written) :
    ∃ ahead, Accesses object.toList ahead ∧ before = ahead ++ written.toList ∧
      cutWord before =
        (ahead ++ (cutWord written.toList).1, (cutWord written.toList).2) := by
  obtain ⟨ahead, hahead, hbefore | ⟨hbefore, hwritten⟩⟩ := memberOf_ofBefore h
  · refine ⟨ahead, hahead, hbefore, ?_⟩
    rw [hbefore]
    exact cutWord_append_of_accesses hahead written.toList
  · have hcut := cutWord_append_of_accesses hahead []
    rw [List.append_nil] at hcut
    have hnil : written.toList = [] := by
      rw [hwritten, hbefore, hcut]
      rfl
    refine ⟨ahead, hahead, ?_, ?_⟩
    · rw [hnil, List.append_nil, hbefore]
    · rw [hnil, hbefore, hcut]

theorem isOffered_iff {name : String} :
    isOffered name = true ↔
      (¬∃ rest, name.toList = ['_', '_'] ++ rest) ∨ name ∈ offeredMagic := by
  unfold isOffered
  rw [Bool.or_eq_true, List.contains_iff_mem, Option.isNone_iff_eq_none,
    Option.eq_none_iff_forall_ne_some]
  apply or_congr_left
  constructor
  · rintro h ⟨rest, hname⟩
    exact h rest (by rw [hname, dropPrefix?_append])
  · intro h rest hrest
    exact h ⟨rest, eq_append_of_dropPrefix? hrest⟩

/-- The candidates are the members on offer that start with what is typed. -/
theorem mem_candidates_memberOf {m : Memory} {object written name : String} :
    name ∈ candidates m (.memberOf object written) ↔
      ∃ members, m.objects.members? object = some members ∧ name ∈ members ∧
        isOffered name = true ∧ ∃ rest, name.toList = written.toList ++ rest := by
  have hone (x : String) : candidate? (.memberOf object written) x = some name ↔
      x = name ∧ isOffered name = true ∧ startsWith written name = true := by
    rw [candidate?]
    constructor
    · intro h
      split at h
      · next hx =>
        obtain rfl := Option.some.inj h
        exact ⟨rfl, (Bool.and_eq_true _ _).mp hx⟩
      · exact absurd h nofun
    · rintro ⟨rfl, hx⟩
      rw [if_pos ((Bool.and_eq_true _ _).mpr hx)]
  rw [mem_candidates, ← startsWith_iff, pool]
  simp only [hone]
  cases m.objects.members? object with
  | none =>
    constructor
    · rintro ⟨x, hx, -⟩
      exact absurd hx List.not_mem_nil
    · rintro ⟨members, hm, -⟩
      exact absurd hm nofun
  | some members =>
    constructor
    · rintro ⟨x, hx, rfl, h⟩
      exact ⟨members, rfl, hx, h⟩
    · rintro ⟨found, hfound, hx, h⟩
      obtain rfl := Option.some.inj hfound
      exact ⟨name, hx, rfl, h⟩

/-- The line once the editor has put a candidate in the place of the text between two positions. -/
def accept? (line : List Char) (start stop : Nat) (candidate : String) : Option (List Char) := do
  let (front, _) ← splitAtByte? start line
  let (_, rest) ← splitAtByte? stop line
  some (front ++ candidate.toList ++ rest)

/-- Where a member is asked for, the candidates ascend and are the members of the object that are on
offer and start with the typed part of the name, none if the object is not known. What the editor
replaces is the last identifier of that part, so an accepted candidate follows the arrow and the
rest of the part. There is no such rest, the editor replaces just the typed part and the arrow is
directly followed by the name, exactly when all that is typed are identifier characters. -/
theorem members_after_arrow (m : Memory) (before after : List Char) :
    let line := String.ofList (before ++ after)
    let pos := byteLength before
    ∃ start names typed, completeAt? m line pos = some (start, names) ∧
      slice? start pos line.toList = some typed ∧
      ∀ object written,
        CompletionContext.classify line pos (String.ofList typed) = .memberOf object written →
          names.Pairwise (· < ·) ∧
          (∀ name, name ∈ names ↔
            ∃ members, m.objects.members? object = some members ∧ name ∈ members ∧
              ((¬∃ rest, name.toList = ['_', '_'] ++ rest) ∨ name ∈ offeredMagic) ∧
              ∃ rest, name.toList = written.toList ++ rest) ∧
          ∃ ahead rest, Accesses object.toList ahead ∧ before = ahead ++ written.toList ∧
            written.toList = rest ++ typed ∧
            (∀ name, accept? line.toList start pos name =
              some (ahead ++ rest ++ name.toList ++ after)) ∧
            (rest = [] ↔ ∀ c ∈ written.toList, isIdentifier c = true) := by
  intro line pos
  have hline : line.toList = before ++ after := String.toList_ofList
  refine ⟨_, _, (cutWord before).2, completeAt?_append m before after, ?_, ?_⟩
  · rw [hline]
    exact slice?_cutWord before after
  intro object written hmember
  have hcontext : ofBefore before (cutWord before).2 = .memberOf object written := by
    rw [← hmember, classify_append, String.toList_ofList]
  obtain ⟨ahead, hahead, hbefore, hcut⟩ := exists_access hcontext
  refine ⟨pairwise_candidates _ _, ?_, ahead, (cutWord written.toList).1, hahead, hbefore, ?_, ?_,
    cutWord_fst_eq_nil_iff _⟩
  · intro name
    rw [hcontext, mem_candidates_memberOf, isOffered_iff]
  · rw [hcut]
    exact (cutWord_append written.toList).symm
  · intro name
    have hfront : splitAtByte? (byteLength (cutWord before).1) line.toList =
        some ((cutWord before).1, (cutWord before).2 ++ after) := by
      rw [hline]
      apply splitAtByte?_eq_some_iff.mpr
      exact ⟨by rw [← List.append_assoc, cutWord_append], rfl⟩
    have hrest : splitAtByte? pos line.toList = some (before, after) := by
      rw [hline]
      exact splitAtByte?_append before after
    unfold accept?
    rw [hfront, hrest]
    simp only [Option.bind_eq_bind, Option.bind_some]
    rw [hcut]

/-- A nullsafe arrow, a letter of two bytes and text after the cursor. -/
theorem members_after_arrow_nullsafe :
    let bindings := NameMap.ofList [("o", Value.object "Shop" ["gérer", "__gé", "get", "géant"])]
    let m := (({} : Memory).capture bindings).rebuild
    let before := "f($o?->gé".toList
    let line := String.ofList (before ++ ");".toList)
    let pos := byteLength before
    completeAt? m line pos = some (7, ["géant", "gérer"]) ∧
    CompletionContext.classify line pos "gé" = .memberOf "o" "gé" ∧
    ∃ ahead rest, Accesses ['o'] ahead ∧ before = ahead ++ "gé".toList ∧
      (∀ name, accept? line.toList 7 pos name =
        some (ahead ++ rest ++ name.toList ++ ");".toList)) ∧
      (rest = [] ↔ ∀ c ∈ "gé".toList, isIdentifier c = true) := by
  intro bindings m before line pos
  have hanswer : completeAt? m line pos = some (7, ["géant", "gérer"]) := by decide +kernel
  have hslice : slice? 7 pos line.toList = some "gé".toList := by decide +kernel
  have hmember : CompletionContext.classify line pos "gé" = .memberOf "o" "gé" := by
    decide +kernel
  obtain ⟨start, names, typed, hcomplete, htyped, h⟩ := members_after_arrow m before ");".toList
  obtain ⟨rfl, rfl⟩ := Prod.mk.inj (Option.some.inj (hcomplete.symm.trans hanswer))
  obtain rfl := Option.some.inj (htyped.symm.trans hslice)
  obtain ⟨-, -, ahead, rest, hahead, hbefore, -, haccept, hrest⟩ := h "o" "gé" hmember
  exact ⟨hanswer, hmember, ahead, rest, hahead, hbefore, haccept, hrest⟩

/-- A circled letter belongs to words but to no identifier: it is typed part of the name, the editor
keeps it, and the name that is put behind it has it once more. -/
theorem member_repeats_typed :
    let bindings := NameMap.ofList [("o", Value.object "Shop" ["Ⓐb"])]
    let m := (({} : Memory).capture bindings).rebuild
    let line := "$o->Ⓐ"
    completeAt? m line 7 = some (7, ["Ⓐb"]) ∧ slice? 7 7 line.toList = some [] ∧
    CompletionContext.classify line 7 "" = .memberOf "o" "Ⓐ" ∧
    accept? line.toList 7 7 "Ⓐb" = some "$o->ⒶⒶb".toList := by
  decide +kernel

end Completion

end ScriptShell

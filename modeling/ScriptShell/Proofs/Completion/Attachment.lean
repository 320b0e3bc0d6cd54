import ScriptShell.Proofs.Completion.Members

/-!
The context at the end of a text, and what one more character makes of it. An object is attached to
the end when only its arrow and a word stand behind it. Then a member has been started or can be; the
next character goes on with it. Otherwise the next character goes on with the last word, also right
after an arrow that white space stands before, although a member is asked for there.
-/

namespace ScriptShell

open Text

namespace Text

/-- Letters and digits of ASCII and the underscore belong to words and to identifiers. -/
theorem isWord_and_isIdentifier {c : Char} (h : isAsciiWord c = true) :
    isWord c = true ∧ isIdentifier c = true := by
  have hlt : c.toNat < 128 := by
    have hc : isAsciiWord c = (decide (c.val ≥ 65 ∧ c.val ≤ 90) ||
        (decide (c.val ≥ 97) && decide (c.val ≤ 122)) ||
        (decide (c.val ≥ 48) && decide (c.val ≤ 57)) || c == '_') := rfl
    simp only [hc, Bool.or_eq_true, Bool.and_eq_true, decide_eq_true_eq, beq_iff_eq] at h
    rcases h with ((⟨-, h⟩ | ⟨-, h⟩) | ⟨-, h⟩) | rfl
    · exact Nat.lt_of_le_of_lt (UInt32.le_iff_toNat_le.mp h) (by decide)
    · exact Nat.lt_of_le_of_lt (UInt32.le_iff_toNat_le.mp h) (by decide)
    · exact Nat.lt_of_le_of_lt (UInt32.le_iff_toNat_le.mp h) (by decide)
    · decide
  have hword : isWord c = true := by
    rw [isWord, if_pos hlt]
    exact h
  have habove : (wordOnly.all fun r => 128 ≤ r.1) = true := by decide
  have hranges : inRanges c.toNat wordOnly = false := by
    rw [Bool.eq_false_iff]
    intro hany
    obtain ⟨r, hr, hin⟩ := List.any_eq_true.mp hany
    have hr := of_decide_eq_true (List.all_eq_true.mp habove r hr)
    have hin := of_decide_eq_true ((Bool.and_eq_true _ _).mp hin).1
    omega
  refine ⟨hword, ?_⟩
  rw [isIdentifier, hword, hranges]
  rfl

end Text

namespace CompletionContext

open Completion

/-- The context at the end of a text. -/
def atEnd (text : List Char) : CompletionContext :=
  classify (String.ofList text) (byteLength text) (String.ofList (cutWord text).2)

theorem atEnd_eq (text : List Char) : atEnd text = ofBefore text (cutWord text).2 := by
  have hclassify := classify_append text [] (String.ofList (cutWord text).2)
  rwa [List.append_nil, String.toList_ofList] at hclassify

/-- The context that a word gives where no member is asked for. -/
def ofWord (word typed : List Char) : CompletionContext :=
  if word.isEmpty then .empty
  else if word.head? = some '$' then
    .variableName (String.ofList word) (byteLength word - byteLength typed)
  else .globalName (String.ofList word) (byteLength word - byteLength typed)

theorem ofBefore_of_none {before typed : List Char} (ha : accessed? before.reverse = none)
    (hs : started? before.reverse = none) :
    ofBefore before typed = ofWord (wordBefore before.reverse) typed := by
  unfold ofBefore
  simp only [ha, hs]
  rfl

/-- The object of a started member, or of one that could start right here: the arrow follows the
object without white space. -/
def attached? (back : List Char) : Option (List Char) :=
  (beforeArrow? (back.dropWhile isWord)).bind objectBefore?

theorem accessed?_eq (back : List Char) :
    accessed? back = (beforeArrow? back).bind fun rest => objectBefore? (rest.dropWhile isSpace) :=
  rfl

theorem started?_eq (back : List Char) :
    started? back = if (back.takeWhile isWord).isEmpty then none
      else (attached? back).map fun object => (object, (back.takeWhile isWord).reverse) := by
  unfold started? attached?
  simp only [Option.bind_eq_bind, Option.bind_none]
  split
  · rfl
  · cases beforeArrow? (back.dropWhile isWord) with
    | none => rfl
    | some rest =>
      simp only [Option.bind_some]
      cases objectBefore? rest with
      | none => rfl
      | some object => rfl

theorem started?_cons {c : Char} (hc : isWord c = true) (back : List Char) :
    started? (c :: back) =
      (attached? back).map fun object => (object, (back.takeWhile isWord).reverse ++ [c]) := by
  have hattached : attached? (c :: back) = attached? back := by
    unfold attached?
    rw [List.dropWhile_cons_of_pos hc]
  rw [started?_eq, hattached, List.takeWhile_cons_of_pos hc, List.reverse_cons]
  rfl

theorem exists_of_beforeArrow? {back rest : List Char} (h : beforeArrow? back = some rest) :
    ∃ tail, back = '>' :: tail := by
  unfold beforeArrow? at h
  split at h
  · exact ⟨_, rfl⟩
  · exact ⟨_, rfl⟩
  · exact absurd h nofun

theorem exists_of_accessed? {back object : List Char} (h : accessed? back = some object) :
    ∃ tail, back = '>' :: tail := by
  obtain ⟨rest, harrow, -⟩ := Option.bind_eq_some_iff.mp h
  exact exists_of_beforeArrow? harrow

/-- Behind a character that ends no arrow there is no access. -/
theorem accessed?_cons {c : Char} (hc : c ≠ '>') (back : List Char) :
    accessed? (c :: back) = none := by
  rw [Option.eq_none_iff_forall_ne_some]
  intro object hobject
  obtain ⟨tail, htail⟩ := exists_of_accessed? hobject
  exact hc (List.cons.inj htail).1

/-- A name of an object ends in a character of a word. -/
theorem head?_of_objectBefore? {back object : List Char} (h : objectBefore? back = some object) :
    back.head?.any isWord = true := by
  cases back with
  | nil => exact absurd h nofun
  | cons c back =>
    by_cases hc : isWord c = true
    · exact hc
    · unfold objectBefore? at h
      simp only [List.takeWhile_cons_of_neg hc, List.getLast?_nil, Option.any_none,
        Bool.false_eq_true, and_false, ↓reduceIte] at h
      exact absurd h nofun

theorem dropWhile_isSpace_of_objectBefore? {back object : List Char}
    (h : objectBefore? back = some object) : back.dropWhile isSpace = back := by
  have hhead := head?_of_objectBefore? h
  cases back with
  | nil => rfl
  | cons c back =>
    have hc : ¬isSpace c = true := by
      rw [not_isSpace_of_isWord hhead]
      exact Bool.false_ne_true
    exact List.dropWhile_cons_of_neg hc

/-- Where no member is asked for, none can start. -/
theorem attached?_eq_none {back : List Char} (ha : accessed? back = none)
    (hs : started? back = none) : attached? back = none := by
  rw [Option.eq_none_iff_forall_ne_some]
  intro object hobject
  rw [started?_eq, hobject] at hs
  split at hs
  · next hempty =>
    have hback : back.dropWhile isWord = back := by
      have hsplit := List.takeWhile_append_dropWhile (p := isWord) (l := back)
      rwa [List.isEmpty_iff.mp hempty] at hsplit
    unfold attached? at hobject
    rw [hback] at hobject
    obtain ⟨rest, harrow, hrest⟩ := Option.bind_eq_some_iff.mp hobject
    rw [accessed?_eq, harrow, Option.bind_some, dropWhile_isSpace_of_objectBefore? hrest,
      hrest] at ha
    exact absurd ha nofun
  · exact absurd hs nofun

/-- The text ends in an arrow with white space before it. -/
def EndsSpacedArrow (text : List Char) : Prop :=
  ∃ front space, ∃ arrow ∈ arrows, text = front ++ space :: arrow ∧ isSpace space = true

theorem EndsSpacedArrow.exists_beforeArrow? {text : List Char} (h : EndsSpacedArrow text) :
    ∃ space rest, beforeArrow? text.reverse = some (space :: rest) ∧ isSpace space = true := by
  obtain ⟨front, space, arrow, harrow, rfl, hspace⟩ := h
  refine ⟨space, front.reverse, ?_, hspace⟩
  rcases List.mem_cons.mp harrow with rfl | harrow
  · have hne : space ≠ '?' := by
      rintro rfl
      exact absurd hspace (by decide)
    rw [List.reverse_append, List.reverse_cons]
    change beforeArrow? ('>' :: '-' :: space :: front.reverse) = _
    unfold beforeArrow?
    split
    · next heq =>
      simp only [List.cons.injEq, true_and] at heq
      exact absurd heq.1 hne
    · next heq => exact congrArg some (List.cons.inj (List.cons.inj heq).2).2.symm
    · next hno => exact absurd rfl (hno (space :: front.reverse))
  · obtain rfl := List.mem_singleton.mp harrow
    rw [List.reverse_append, List.reverse_cons]
    rfl

/-- Right after an arrow the object is attached, or white space stands before the arrow. -/
theorem attached?_of_accessed? {text object : List Char}
    (h : accessed? text.reverse = some object) :
    attached? text.reverse = some object ∧ ¬EndsSpacedArrow text ∨
      attached? text.reverse = none ∧ EndsSpacedArrow text := by
  rw [accessed?_eq] at h
  obtain ⟨rest, harrow, hobject⟩ := Option.bind_eq_some_iff.mp h
  have hattached : attached? text.reverse = objectBefore? rest := by
    obtain ⟨back, hback⟩ := exists_of_beforeArrow? harrow
    have hdrop : text.reverse.dropWhile isWord = text.reverse := by
      rw [hback]
      rfl
    unfold attached?
    rw [hdrop, harrow, Option.bind_some]
  rw [hattached]
  cases rest with
  | nil => exact absurd hobject nofun
  | cons c rest =>
    by_cases hc : isSpace c = true
    · refine Or.inr ⟨?_, ?_⟩
      · rw [Option.eq_none_iff_forall_ne_some]
        intro found hfound
        have hword : isWord c = true := head?_of_objectBefore? hfound
        rw [not_isWord_of_isSpace hc] at hword
        exact Bool.false_ne_true hword
      · obtain ⟨arrow, hmem, htext⟩ := beforeArrow?_sound harrow
        refine ⟨rest.reverse, c, arrow, hmem, ?_, hc⟩
        rw [List.reverse_reverse, List.reverse_cons, List.append_assoc] at htext
        exact htext
    · refine Or.inl ⟨?_, ?_⟩
      · rw [List.dropWhile_cons_of_neg hc] at hobject
        exact hobject
      · intro hspaced
        obtain ⟨space, front, hfront, hspace⟩ := hspaced.exists_beforeArrow?
        rw [harrow] at hfront
        obtain ⟨rfl, -⟩ := List.cons.inj (Option.some.inj hfront)
        exact hc hspace

/-- Where a member is asked for, its object is attached and the typed part is the word that the text
ends in, or the text ends in an arrow with white space before it. -/
theorem atEnd_memberOf_cases {text : List Char} {object written : String}
    (h : atEnd text = .memberOf object written) :
    attached? text.reverse = some object.toList ∧ ¬EndsSpacedArrow text ∧
        written.toList = (text.reverse.takeWhile isWord).reverse ∨
      attached? text.reverse = none ∧ EndsSpacedArrow text := by
  rw [atEnd_eq] at h
  unfold ofBefore at h
  simp only at h
  split at h
  · next found haccess =>
    obtain ⟨rfl, rfl⟩ := CompletionContext.memberOf.inj h
    rw [String.toList_ofList, String.toList_ofList]
    rcases attached?_of_accessed? haccess with ⟨hattached, hspaced⟩ | hspaced
    · refine Or.inl ⟨hattached, hspaced, ?_⟩
      obtain ⟨back, hback⟩ := exists_of_accessed? haccess
      have hidentifier : ¬isIdentifier '>' = true := by decide
      have hword : ¬isWord '>' = true := by decide
      change (text.reverse.takeWhile isIdentifier).reverse = _
      rw [hback, List.takeWhile_cons_of_neg hidentifier, List.takeWhile_cons_of_neg hword]
    · exact Or.inr hspaced
  · split at h
    · next found typed hstarted =>
      obtain ⟨rfl, rfl⟩ := CompletionContext.memberOf.inj h
      rw [String.toList_ofList, String.toList_ofList]
      rw [started?_eq] at hstarted
      split at hstarted
      · exact absurd hstarted nofun
      · next hword =>
        obtain ⟨object, hattached, hpair⟩ := Option.map_eq_some_iff.mp hstarted
        obtain ⟨rfl, rfl⟩ := Prod.mk.inj hpair
        refine Or.inl ⟨hattached, ?_, rfl⟩
        intro hspaced
        obtain ⟨space, rest, harrow, -⟩ := hspaced.exists_beforeArrow?
        apply hword
        obtain ⟨back, hback⟩ := exists_of_beforeArrow? harrow
        rw [hback]
        rfl
    · split at h
      · exact absurd h nofun
      · split at h
        · exact absurd h nofun
        · exact absurd h nofun

/-- A word goes on with an identifier. -/
theorem wordBefore_cons {c : Char} (hc : isWordPart c = true) (hne : c ≠ '\\') (back : List Char) :
    wordBefore (c :: back) = wordBefore back ++ [c] := by
  unfold wordBefore
  rw [List.takeWhile_cons_of_pos hc, List.dropWhile_cons_of_pos hc, List.reverse_cons]
  simp only
  split
  · rfl
  · cases (back.takeWhile isWordPart).reverse with
    | nil =>
      have hkept : dropPrefix? ['\\'] [c] = none := if_neg (Ne.symm hne)
      rw [List.nil_append, hkept]
      rfl
    | cons d word =>
      by_cases hd : '\\' = d
      · have hdropped (rest : List Char) : dropPrefix? ['\\'] (d :: rest) = some rest := if_pos hd
        rw [List.cons_append, hdropped, hdropped]
        rfl
      · have hkept (rest : List Char) : dropPrefix? ['\\'] (d :: rest) = none := if_neg hd
        rw [List.cons_append, hkept, hkept]
        rfl

theorem atEnd_of_none {text : List Char} (ha : accessed? text.reverse = none)
    (hs : started? text.reverse = none) :
    atEnd text = ofWord (wordBefore text.reverse) (cutWord text).2 := by
  rw [atEnd_eq, ofBefore_of_none ha hs]

/-- At the end of a text a member is asked for, or the context is that of the last word. -/
theorem exists_memberOf_or_none (text : List Char) :
    (∃ object written, atEnd text = .memberOf object written) ∨
      accessed? text.reverse = none ∧ started? text.reverse = none := by
  rw [atEnd_eq]
  unfold ofBefore
  simp only
  cases accessed? text.reverse with
  | some object => exact Or.inl ⟨_, _, rfl⟩
  | none =>
    cases started? text.reverse with
    | some found => exact Or.inl ⟨_, _, rfl⟩
    | none => exact Or.inr ⟨rfl, rfl⟩

theorem cutWord_concat (text : List Char) {c : Char} (hc : isIdentifier c = true) :
    cutWord (text ++ [c]) = ((cutWord text).1, (cutWord text).2 ++ [c]) := by
  simp only [cutWord, List.reverse_concat, List.takeWhile_cons_of_pos hc,
    List.dropWhile_cons_of_pos hc, List.reverse_cons]

section Typed

variable {text : List Char} {c : Char}

/-- An attached object stays the object when a member of it is started or goes on. -/
theorem atEnd_concat_of_attached {object : List Char} (hc : isAsciiWord c = true)
    (h : attached? text.reverse = some object) :
    atEnd (text ++ [c]) = .memberOf (String.ofList object)
      (String.ofList ((text.reverse.takeWhile isWord).reverse ++ [c])) := by
  have hword := (isWord_and_isIdentifier hc).1
  have harrow : c ≠ '>' := ne_of_isWord hword (by decide)
  rw [atEnd_eq]
  unfold ofBefore
  rw [List.reverse_concat]
  simp only [accessed?_cons harrow, started?_cons hword, h, Option.map_some]

/-- Without an attached object the last word goes on. -/
theorem atEnd_concat_of_not_attached (hc : isAsciiWord c = true)
    (h : attached? text.reverse = none) :
    atEnd (text ++ [c]) =
      ofWord (wordBefore text.reverse ++ [c]) ((cutWord text).2 ++ [c]) := by
  obtain ⟨hword, hidentifier⟩ := isWord_and_isIdentifier hc
  have harrow : c ≠ '>' := ne_of_isWord hword (by decide)
  have hseparator : c ≠ '\\' := ne_of_isWord hword (by decide)
  have hpart : isWordPart c = true := by rw [isWordPart, hidentifier, Bool.true_or]
  rw [atEnd_of_none, List.reverse_concat, wordBefore_cons hpart hseparator,
    cutWord_concat text hidentifier]
  · rw [List.reverse_concat, accessed?_cons harrow]
  · rw [List.reverse_concat, started?_cons hword, h]
    rfl

end Typed

end CompletionContext

end ScriptShell

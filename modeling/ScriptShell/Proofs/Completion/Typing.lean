import ScriptShell.Proofs.Completion.Attachment
import ScriptShell.Proofs.Completion.Names

/-!
Typing on. With one more character of an identifier the candidates become fewer: those remain that go
on with it. This holds wherever a name is asked for. After an arrow it holds unless white space stands
before the arrow, which an access allows and a started member does not, or the typed part of the
member has characters that the editor does not count as part of its word.
-/

namespace ScriptShell

open Text

namespace CompletionContext

open Completion

/-- How the characters of names are compared with a word: by letter but not by case where any name
is asked for. -/
def folding : CompletionContext → Char → Char
  | .globalName _ _ => Char.toLower
  | _ => id

/-- The candidate goes on like the text, as the context compares names. -/
def continues (context : CompletionContext) (typed : List Char) (name : String) : Bool :=
  match context with
  | .globalName _ _ => startsWithIgnoringCase (String.ofList typed) name
  | _ => startsWith (String.ofList typed) name

end CompletionContext

namespace Text

/-- The text begins with the word, the characters of both seen through `f`. -/
def BeginsLike (f : Char → Char) (word text : List Char) : Prop :=
  ∃ head rest, text = head ++ rest ∧ head.map f = word.map f

theorem beginsLike_id_iff {word text : List Char} :
    BeginsLike id word text ↔ ∃ rest, text = word ++ rest := by
  unfold BeginsLike
  simp only [List.map_id]
  constructor
  · rintro ⟨head, rest, htext, rfl⟩
    exact ⟨rest, htext⟩
  · rintro ⟨rest, htext⟩
    exact ⟨word, rest, htext, rfl⟩

theorem BeginsLike.of_append {f : Char → Char} {a b text : List Char}
    (h : BeginsLike f (a ++ b) text) : BeginsLike f a text := by
  obtain ⟨head, rest, rfl, hhead⟩ := h
  rw [List.map_append] at hhead
  obtain ⟨first, second, rfl, hfirst, -⟩ := List.map_eq_append_iff.mp hhead
  exact ⟨first, second ++ rest, List.append_assoc .., hfirst⟩

/-- Where the word and the text are cut at the same number of bytes, their parts are compared. -/
theorem beginsLike_append_iff {f : Char → Char} (hf : ∀ c, (f c).utf8Size = c.utf8Size)
    {head rest kept more : List Char} (hlength : byteLength head = byteLength kept) :
    BeginsLike f (kept ++ more) (head ++ rest) ↔
      head.map f = kept.map f ∧ BeginsLike f more rest := by
  constructor
  · rintro ⟨whole, last, hwhole, hmap⟩
    rw [List.map_append] at hmap
    obtain ⟨first, second, rfl, hfirst, hsecond⟩ := List.map_eq_append_iff.mp hmap
    have hsize : byteLength first = byteLength head := by
      rw [hlength, ← byteLength_map hf first, ← byteLength_map hf kept, hfirst]
    rw [List.append_assoc] at hwhole
    have hcut := splitAtByte?_append first (second ++ last)
    rw [hsize, ← hwhole, splitAtByte?_append] at hcut
    obtain ⟨rfl, rfl⟩ := Prod.mk.inj (Option.some.inj hcut)
    exact ⟨hfirst, second, last, rfl, hsecond⟩
  · rintro ⟨hhead, second, last, rfl, hsecond⟩
    refine ⟨head ++ second, last, (List.append_assoc ..).symm, ?_⟩
    rw [List.map_append, List.map_append, hhead, hsecond]

/-- One more character in the word is one more in what follows the cut. -/
theorem beginsLike_concat_iff {f : Char → Char} (hf : ∀ c, (f c).utf8Size = c.utf8Size)
    {head rest kept typed : List Char} (hlength : byteLength head = byteLength kept) (c : Char) :
    BeginsLike f (kept ++ typed ++ [c]) (head ++ rest) ↔
      BeginsLike f (kept ++ typed) (head ++ rest) ∧ BeginsLike f (typed ++ [c]) rest := by
  rw [List.append_assoc, beginsLike_append_iff hf hlength, beginsLike_append_iff hf hlength]
  constructor
  · rintro ⟨hhead, hrest⟩
    exact ⟨⟨hhead, hrest.of_append⟩, hrest⟩
  · rintro ⟨⟨hhead, -⟩, hrest⟩
    exact ⟨hhead, hrest⟩

end Text

namespace Completion

open CompletionContext

theorem utf8Size_folding (context : CompletionContext) (c : Char) :
    (context.folding c).utf8Size = c.utf8Size := by
  cases context with
  | globalName word strip => exact utf8Size_toLower c
  | memberOf object typed => rfl
  | variableName word strip => rfl
  | empty => rfl

theorem startsWith_iff_beginsLike {word name : String} :
    startsWith word name = true ↔ BeginsLike id word.toList name.toList :=
  startsWith_iff.trans beginsLike_id_iff.symm

theorem continues_iff {context : CompletionContext} {typed : List Char} {name : String} :
    context.continues typed name = true ↔ BeginsLike context.folding typed name.toList := by
  have hexact : startsWith (String.ofList typed) name = true ↔ BeginsLike id typed name.toList := by
    rw [startsWith_iff_beginsLike, String.toList_ofList]
  cases context with
  | globalName word strip =>
    rw [continues, startsWithIgnoringCase_iff, String.toList_ofList]
    rfl
  | memberOf object written => exact hexact
  | variableName word strip => exact hexact
  | empty => exact hexact

/-- Where a name is asked for, the names of the pool that begin with the word are on offer. -/
theorem mem_candidates_iff_beginsLike {m : Memory} {context : CompletionContext} {word : String}
    {strip : Nat} (h : context.word? = some (word, strip)) {x : String} :
    x ∈ candidates m context ↔ ∃ name ∈ pool m context,
      BeginsLike context.folding word.toList name.toList ∧ dropBytes? strip name = some x := by
  have hdrop {b : Bool} {name : String} :
      (if b then dropBytes? strip name else none) = some x ↔
        b = true ∧ dropBytes? strip name = some x := by
    cases b with
    | true => exact ⟨fun hx => ⟨rfl, hx⟩, fun hx => hx.2⟩
    | false => exact ⟨nofun, fun hx => absurd hx.1 nofun⟩
  rw [mem_candidates]
  cases context with
  | memberOf object typed => exact absurd h nofun
  | empty => exact absurd h nofun
  | variableName w n =>
    obtain ⟨rfl, rfl⟩ := Prod.mk.inj (Option.some.inj h)
    simp only [candidate?, hdrop, startsWith_iff_beginsLike]
    rfl
  | globalName w n =>
    obtain ⟨rfl, rfl⟩ := Prod.mk.inj (Option.some.inj h)
    simp only [candidate?, hdrop, startsWithIgnoringCase_iff]
    rfl

/-- A word with one more character offers the names that go on with it. -/
theorem candidates_concat {m : Memory} {context longer : CompletionContext}
    {kept typed : List Char} {c : Char}
    (hword : context.word? = some (String.ofList (kept ++ typed), byteLength kept))
    (hlonger : longer.word? = some (String.ofList (kept ++ typed ++ [c]), byteLength kept))
    (hpool : pool m longer = pool m context) (hfolding : longer.folding = context.folding) :
    candidates m longer = (candidates m context).filter (context.continues (typed ++ [c])) := by
  apply eq_of_ascending (pairwise_candidates m longer)
  · exact (pairwise_candidates m context).filter _
  intro x
  rw [List.mem_filter, mem_candidates_iff_beginsLike hword, mem_candidates_iff_beginsLike hlonger,
    hpool, hfolding, continues_iff, String.toList_ofList, String.toList_ofList]
  have hcut {name : String} (h : dropBytes? (byteLength kept) name = some x) :
      BeginsLike context.folding (kept ++ typed ++ [c]) name.toList ↔
        BeginsLike context.folding (kept ++ typed) name.toList ∧
          BeginsLike context.folding (typed ++ [c]) x.toList := by
    obtain ⟨head, hname, hlength⟩ := dropBytes?_eq_some_iff.mp h
    rw [hname]
    exact beginsLike_concat_iff (utf8Size_folding context) hlength c
  constructor
  · rintro ⟨name, hname, hbegins, hx⟩
    obtain ⟨hbegins, hmore⟩ := (hcut hx).mp hbegins
    exact ⟨⟨name, hname, hbegins, hx⟩, hmore⟩
  · rintro ⟨⟨name, hname, hbegins, hx⟩, hmore⟩
    exact ⟨name, hname, (hcut hx).mpr ⟨hbegins, hmore⟩, hx⟩

theorem candidates_ofWord_concat {m : Memory} {kept typed : List Char} (h : kept ++ typed ≠ [])
    (c : Char) :
    candidates m (ofWord (kept ++ typed ++ [c]) (typed ++ [c])) =
      (candidates m (ofWord (kept ++ typed) typed)).filter
        ((ofWord (kept ++ typed) typed).continues (typed ++ [c])) := by
  have hstrip (tail : List Char) :
      byteLength (kept ++ typed ++ tail) - byteLength (typed ++ tail) = byteLength kept := by
    rw [List.append_assoc, byteLength_append]
    omega
  have hstrip' : byteLength (kept ++ typed) - byteLength typed = byteLength kept := by
    rw [byteLength_append]
    omega
  have hempty (tail : List Char) : ¬(kept ++ typed ++ tail).isEmpty = true := by
    rw [List.isEmpty_iff, List.append_eq_nil_iff]
    exact fun he => h he.1
  have hempty' : ¬(kept ++ typed).isEmpty = true := fun he => h (List.isEmpty_iff.mp he)
  have hhead : (kept ++ typed ++ [c]).head? = (kept ++ typed).head? := by
    obtain ⟨d, word, hword⟩ := List.exists_cons_of_ne_nil h
    rw [hword]
    rfl
  unfold ofWord
  rw [if_neg (hempty [c]), if_neg hempty', hhead, hstrip, hstrip']
  split
  · exact candidates_concat rfl rfl rfl rfl
  · exact candidates_concat rfl rfl rfl rfl

/-- A member that has been typed further is looked for among those that start with what was typed. -/
theorem candidates_memberOf_concat (m : Memory) (object : String) (written : List Char) (c : Char) :
    candidates m (.memberOf object (String.ofList (written ++ [c]))) =
      (candidates m (.memberOf object (String.ofList written))).filter
        (startsWith (String.ofList (written ++ [c]))) := by
  apply eq_of_ascending (pairwise_candidates m _)
  · exact (pairwise_candidates m _).filter _
  intro name
  rw [List.mem_filter, mem_candidates_memberOf, mem_candidates_memberOf, startsWith_iff,
    String.toList_ofList, String.toList_ofList]
  constructor
  · rintro ⟨members, hmembers, hname, hoffered, rest, hrest⟩
    refine ⟨⟨members, hmembers, hname, hoffered, [c] ++ rest, ?_⟩, rest, hrest⟩
    rw [hrest, List.append_assoc]
  · rintro ⟨⟨members, hmembers, hname, hoffered, -⟩, hrest⟩
    exact ⟨members, hmembers, hname, hoffered, hrest⟩

/-- Of the members that start with two underscores, those on offer are identifiers. -/
theorem candidates_memberOf_eq_nil (m : Memory) (object : String) {rest : List Char} {x : Char}
    (hx : x ∈ rest) (hidentifier : isIdentifier x = false) :
    candidates m (.memberOf object (String.ofList ('_' :: '_' :: rest))) = [] := by
  apply List.eq_nil_iff_forall_not_mem.mpr
  intro name hname
  rw [mem_candidates_memberOf, String.toList_ofList] at hname
  obtain ⟨members, -, -, hoffered, tail, htail⟩ := hname
  have hmagic : (offeredMagic.all fun name => name.toList.all isIdentifier) = true := by decide
  rcases isOffered_iff.mp hoffered with hplain | hmem
  · exact hplain ⟨rest ++ tail, htail⟩
  · have hall := List.all_eq_true.mp (List.all_eq_true.mp hmagic name hmem) x (by
      rw [htail]
      exact List.mem_append_left _ (List.mem_cons_of_mem _ (List.mem_cons_of_mem _ hx)))
    rw [hidentifier] at hall
    exact Bool.false_ne_true hall

/-- A memory of one object with one member. -/
def holdingMember (object member : String) : Memory :=
  { objects := NameMap.ofList [(object, Value.object object [member])] }

theorem mem_candidates_holdingMember {object member written name : String} :
    name ∈ candidates (holdingMember object member) (.memberOf object written) ↔
      name = member ∧ isOffered name = true ∧ ∃ rest, name.toList = written.toList ++ rest := by
  have hmembers : (holdingMember object member).objects.members? object = some [member] := by
    unfold Bindings.members? NameMap.get? holdingMember NameMap.ofList NameMap.insertAll
    simp [NameMap.insert, NameMap.insertEntry, NameMap.empty, Value.object]
  rw [mem_candidates_memberOf, hmembers]
  constructor
  · rintro ⟨members, hsome, hname, h⟩
    obtain rfl := Option.some.inj hsome
    exact ⟨List.mem_singleton.mp hname, h⟩
  · rintro ⟨rfl, h⟩
    exact ⟨_, rfl, List.mem_singleton_self _, h⟩

/-- What the editor is told at the end of a text. -/
def completeAtEnd? (m : Memory) (text : List Char) : Option (Nat × List String) :=
  completeAt? m (String.ofList text) (byteLength text)

theorem completeAtEnd?_eq (m : Memory) (text : List Char) :
    completeAtEnd? m text = some (byteLength (cutWord text).1, candidates m (atEnd text)) := by
  have hanswer := completeAt?_append m text []
  rw [List.append_nil] at hanswer
  rw [completeAtEnd?, hanswer, atEnd_eq]

/-- One more character leaves the place of the word as it is, and of the candidates those that go on
with the word and the character. -/
def Narrows (m : Memory) (text : List Char) (c : Char) : Prop :=
  ∃ start typed names, slice? start (byteLength text) text = some typed ∧
    completeAtEnd? m text = some (start, names) ∧
    completeAtEnd? m (text ++ [c]) =
      some (start, names.filter ((atEnd text).continues (typed ++ [c])))

theorem completeAtEnd?_concat (m : Memory) (text : List Char) {c : Char}
    (hc : isAsciiWord c = true) :
    completeAtEnd? m (text ++ [c]) =
      some (byteLength (cutWord text).1, candidates m (atEnd (text ++ [c]))) := by
  rw [completeAtEnd?_eq, cutWord_concat text (isWord_and_isIdentifier hc).2]

theorem narrows_iff_candidates {m : Memory} {text : List Char} {c : Char}
    (hc : isAsciiWord c = true) :
    Narrows m text c ↔ candidates m (atEnd (text ++ [c])) =
      (candidates m (atEnd text)).filter ((atEnd text).continues ((cutWord text).2 ++ [c])) := by
  have hslice := slice?_cutWord text []
  rw [List.append_nil] at hslice
  constructor
  · rintro ⟨start, typed, names, htyped, hnames, hmore⟩
    rw [completeAtEnd?_eq] at hnames
    obtain ⟨rfl, rfl⟩ := Prod.mk.inj (Option.some.inj hnames)
    obtain rfl := Option.some.inj (htyped.symm.trans hslice)
    rw [completeAtEnd?_concat m text hc] at hmore
    exact (Prod.mk.inj (Option.some.inj hmore)).2
  · intro h
    refine ⟨_, _, _, hslice, completeAtEnd?_eq m text, ?_⟩
    rw [completeAtEnd?_concat m text hc, h]

/-- Where a name is asked for, every character narrows. -/
theorem narrows_of_none (m : Memory) {text : List Char} {c : Char} (hc : isAsciiWord c = true)
    (ha : accessed? text.reverse = none) (hs : started? text.reverse = none)
    (hcontext : atEnd text ≠ .empty) : Narrows m text c := by
  obtain ⟨outer, kept, -, hword⟩ := wordBefore_eq text
  rw [narrows_iff_candidates hc, atEnd_concat_of_not_attached hc (attached?_eq_none ha hs)]
  rw [atEnd_of_none ha hs] at hcontext ⊢
  rw [hword] at hcontext ⊢
  apply candidates_ofWord_concat
  intro hnil
  rw [hnil] at hcontext
  exact hcontext rfl

section Member

variable {text : List Char} {c : Char} {object written : String}

/-- Where the arrow follows the object without white space, a member that has been started goes on. -/
theorem atEnd_concat_of_memberOf (hc : isAsciiWord c = true)
    (hcontext : atEnd text = .memberOf object written) (hspaced : ¬EndsSpacedArrow text) :
    atEnd (text ++ [c]) = .memberOf object (String.ofList (written.toList ++ [c])) := by
  rcases atEnd_memberOf_cases hcontext with ⟨hattached, -, hwritten⟩ | ⟨-, hno⟩
  · rw [atEnd_concat_of_attached hc hattached, ← hwritten, String.ofList_toList]
  · exact absurd hno hspaced

/-- The word of the editor is the last identifier of what is typed of the member. -/
theorem cutWord_snd_of_memberOf (hcontext : atEnd text = .memberOf object written) :
    (cutWord text).2 = (cutWord written.toList).2 := by
  rw [atEnd_eq] at hcontext
  obtain ⟨ahead, -, -, hcut⟩ := exists_access hcontext
  rw [hcut]

theorem narrows_memberOf_iff {m : Memory} (hc : isAsciiWord c = true)
    (hcontext : atEnd text = .memberOf object written) (hspaced : ¬EndsSpacedArrow text) :
    Narrows m text c ↔
      (candidates m (.memberOf object written)).filter
          (startsWith (String.ofList (written.toList ++ [c]))) =
        (candidates m (.memberOf object written)).filter
          (startsWith (String.ofList ((cutWord written.toList).2 ++ [c]))) := by
  have hlonger := candidates_memberOf_concat m object written.toList c
  rw [String.ofList_toList] at hlonger
  rw [narrows_iff_candidates hc, atEnd_concat_of_memberOf hc hcontext hspaced, hlonger, hcontext,
    cutWord_snd_of_memberOf hcontext]
  rfl

/-- Where the word of the editor is all that is typed of the member, every character narrows. -/
theorem narrows_of_identifier (m : Memory) (hc : isAsciiWord c = true)
    (hcontext : atEnd text = .memberOf object written) (hspaced : ¬EndsSpacedArrow text)
    (hwritten : ∀ x ∈ written.toList, isIdentifier x = true) : Narrows m text c := by
  have hcut := cutWord_append written.toList
  rw [(cutWord_fst_eq_nil_iff _).mpr hwritten, List.nil_append] at hcut
  rw [narrows_memberOf_iff hc hcontext hspaced, hcut]

/-- Members that start with two underscores are on offer only if they are identifiers. -/
theorem narrows_of_hidden (m : Memory) (hc : isAsciiWord c = true)
    (hcontext : atEnd text = .memberOf object written) (hspaced : ¬EndsSpacedArrow text)
    {rest : List Char} (hrest : written.toList = '_' :: '_' :: rest) : Narrows m text c := by
  by_cases hwritten : ∀ x ∈ written.toList, isIdentifier x = true
  · exact narrows_of_identifier m hc hcontext hspaced hwritten
  · simp only [Classical.not_forall] at hwritten
    obtain ⟨x, hx, hidentifier⟩ := hwritten
    have hx : x ∈ rest := by
      have hunderscore : x ≠ '_' := by
        rintro rfl
        exact hidentifier (by decide)
      rw [hrest] at hx
      exact List.mem_of_ne_of_mem hunderscore (List.mem_of_ne_of_mem hunderscore hx)
    have hnil := candidates_memberOf_eq_nil m object hx (Bool.eq_false_iff.mpr hidentifier)
    rw [← hrest, String.ofList_toList] at hnil
    rw [narrows_memberOf_iff hc hcontext hspaced, hnil, List.filter_nil, List.filter_nil]

/-- A single member on offer tells whether a character narrows: it has to go on with what is typed
exactly if it starts with the word of the editor and the character. -/
theorem starts_iff_of_narrows {name : String} (hc : isAsciiWord c = true)
    (hcontext : atEnd text = .memberOf object written) (hspaced : ¬EndsSpacedArrow text)
    (h : Narrows (holdingMember object name) text c) (hoffered : isOffered name = true)
    (hname : ∃ rest, name.toList = written.toList ++ rest) :
    (∃ rest, name.toList = written.toList ++ [c] ++ rest) ↔
      ∃ rest, name.toList = (cutWord written.toList).2 ++ [c] ++ rest := by
  have hmem (word : List Char) : name ∈ (candidates (holdingMember object name)
      (.memberOf object written)).filter (startsWith (String.ofList word)) ↔
        ∃ rest, name.toList = word ++ rest := by
    rw [List.mem_filter, mem_candidates_holdingMember, startsWith_iff, String.toList_ofList]
    exact ⟨fun hx => hx.2, fun hx => ⟨⟨rfl, hoffered, hname⟩, hx⟩⟩
  rw [← hmem, ← hmem, (narrows_memberOf_iff hc hcontext hspaced).mp h]

/-- A name with two underscores at its start has them early. -/
theorem isOffered_concat {word : List Char} (hword : ¬∀ x ∈ word, isIdentifier x = true)
    (hplain : ¬∃ rest, word = '_' :: '_' :: rest) (tail : List Char) :
    isOffered (String.ofList (word ++ tail)) = true := by
  have hunderscore : isIdentifier '_' = true := by decide
  refine isOffered_iff.mpr (Or.inl ?_)
  rw [String.toList_ofList]
  rintro ⟨rest, hrest⟩
  match word with
  | [] => exact hword (List.forall_mem_nil _)
  | [d] =>
    have hd : d = '_' := (List.cons.inj hrest).1
    exact hword (List.forall_mem_singleton.mpr (hd ▸ hunderscore))
  | d :: e :: word =>
    have hd : d = '_' := (List.cons.inj hrest).1
    have he : e = '_' := (List.cons.inj (List.cons.inj hrest).2).1
    exact hplain ⟨word, by rw [hd, he]⟩

/-- Where the editor keeps a part of what is typed of the member, the candidates, which are whole
names, need not start with the word of the editor. -/
theorem exists_not_narrows_of_kept (hc : isAsciiWord c = true)
    (hcontext : atEnd text = .memberOf object written) (hspaced : ¬EndsSpacedArrow text)
    (hwritten : ¬∀ x ∈ written.toList, isIdentifier x = true)
    (hplain : ¬∃ rest, written.toList = '_' :: '_' :: rest) : ∃ m, ¬Narrows m text c := by
  have hoffered := isOffered_concat hwritten hplain
  have hcut := cutWord_append written.toList
  have hkept : (cutWord written.toList).1 ≠ [] := fun h =>
    hwritten ((cutWord_fst_eq_nil_iff _).mp h)
  have hstarts {name : String} (h : Narrows (holdingMember object name) text c) :=
    starts_iff_of_narrows hc hcontext hspaced h
  generalize (cutWord written.toList).1 = kept at hcut hkept
  generalize (cutWord written.toList).2 = typed at hcut hstarts
  by_cases hagain : ∃ rest, written.toList = typed ++ [c] ++ rest
  · refine ⟨holdingMember object written, fun h => ?_⟩
    have hoffered := hoffered []
    rw [List.append_nil, String.ofList_toList] at hoffered
    obtain ⟨rest, hrest⟩ := (hstarts h hoffered ⟨[], (List.append_nil _).symm⟩).mpr hagain
    have hlength := congrArg List.length hrest
    simp only [List.length_append, List.length_singleton] at hlength
    omega
  · refine ⟨holdingMember object (String.ofList (written.toList ++ [c])), fun h => ?_⟩
    have hstarts := hstarts h (hoffered [c])
    rw [String.toList_ofList] at hstarts
    obtain ⟨rest, hrest⟩ := (hstarts ⟨[c], rfl⟩).mp ⟨[], (List.append_nil _).symm⟩
    rcases List.eq_nil_or_concat rest with rfl | ⟨rest, d, rfl⟩
    · have hlength := congrArg List.length hrest
      rw [← hcut] at hlength
      simp only [List.length_append, List.length_singleton, List.length_nil] at hlength
      exact hkept (List.length_eq_zero_iff.mp (by omega))
    · rw [List.concat_eq_append, ← List.append_assoc] at hrest
      exact hagain ⟨rest, (List.append_inj' hrest rfl).1⟩

/-- Behind an arrow there is no word. -/
theorem words_eq_nil {tail : List Char} (h : text.reverse = '>' :: tail) :
    wordBefore text.reverse = [] ∧ (cutWord text).2 = [] := by
  have hpart : ¬isWordPart '>' = true := by decide
  have hidentifier : ¬isIdentifier '>' = true := by decide
  constructor
  · rw [h]
    unfold wordBefore
    rw [List.takeWhile_cons_of_neg hpart, List.dropWhile_cons_of_neg hpart]
    rfl
  · change (text.reverse.takeWhile isIdentifier).reverse = []
    rw [h, List.takeWhile_cons_of_neg hidentifier]
    rfl

/-- After an arrow with white space before it, the next character starts any name. -/
theorem atEnd_concat_of_spaced (hc : isAsciiWord c = true)
    (hcontext : atEnd text = .memberOf object written) (hspaced : EndsSpacedArrow text) :
    atEnd (text ++ [c]) = .globalName (String.ofList [c]) 0 := by
  have hsigil : c ≠ '$' := ne_of_isWord (isWord_and_isIdentifier hc).1 (by decide)
  obtain ⟨space, rest, harrow, -⟩ := hspaced.exists_beforeArrow?
  obtain ⟨tail, htail⟩ := exists_of_beforeArrow? harrow
  obtain ⟨hword, htyped⟩ := words_eq_nil htail
  rcases atEnd_memberOf_cases hcontext with ⟨-, hno, -⟩ | ⟨hattached, -⟩
  · exact absurd hspaced hno
  · rw [atEnd_concat_of_not_attached hc hattached, hword, htyped, List.nil_append]
    have hempty : ¬[c].isEmpty = true := Bool.false_ne_true
    have hhead : ¬[c].head? = some '$' := fun h => hsigil (Option.some.inj h)
    rw [ofWord, if_neg hempty, if_neg hhead, Nat.sub_self]

theorem exists_not_narrows_of_spaced (hc : isAsciiWord c = true)
    (hcontext : atEnd text = .memberOf object written) (hspaced : EndsSpacedArrow text) :
    ∃ m, ¬Narrows m text c := by
  let m : Memory := { symbols := { functions := [String.ofList [c]] } }
  refine ⟨m, fun h => ?_⟩
  have hmembers : candidates m (.memberOf object written) = [] := by
    apply List.eq_nil_iff_forall_not_mem.mpr
    intro name hname
    obtain ⟨members, hnone, -⟩ := mem_candidates_memberOf.mp hname
    exact absurd hnone nofun
  have hoffered : String.ofList [c] ∈ candidates m (.globalName (String.ofList [c]) 0) := by
    rw [mem_candidates_iff_beginsLike rfl]
    refine ⟨String.ofList [c], List.mem_append_left _ ?_, ⟨_, [], (List.append_nil _).symm, rfl⟩,
      dropBytes?_eq_some_iff.mpr ⟨[], rfl, rfl⟩⟩
    exact List.mem_append_left _ (List.mem_append_left _ (List.mem_singleton_self _))
  rw [narrows_iff_candidates hc, atEnd_concat_of_spaced hc hcontext hspaced, hcontext, hmembers,
    List.filter_nil] at h
  rw [h] at hoffered
  exact List.not_mem_nil hoffered

end Member

/-- Typing one more letter, digit or underscore of ASCII never moves the place of the word. It narrows
the candidates to those that go on with it, in every state, wherever a name is asked for. Where a
member is asked for, it does so exactly if no white space stands before the arrow that the text ends
in, and all that is typed of the member are identifier characters, or two underscores come first,
so that no member with other characters is on offer. -/
theorem typing_narrows_iff {text : List Char} {c : Char} (hc : isAsciiWord c = true)
    (hcontext : atEnd text ≠ .empty) :
    (∀ m, ∃ start names more, completeAtEnd? m text = some (start, names) ∧
      completeAtEnd? m (text ++ [c]) = some (start, more)) ∧
    ((∀ m, Narrows m text c) ↔ ∀ object written, atEnd text = .memberOf object written →
      ¬EndsSpacedArrow text ∧
        ((∀ x ∈ written.toList, isIdentifier x = true) ∨
          ∃ rest, written.toList = '_' :: '_' :: rest)) := by
  refine ⟨fun m => ⟨_, _, _, completeAtEnd?_eq m text, completeAtEnd?_concat m text hc⟩, ?_, ?_⟩
  · intro h object written hmember
    have hspaced : ¬EndsSpacedArrow text := by
      intro hspaced
      obtain ⟨m, hm⟩ := exists_not_narrows_of_spaced hc hmember hspaced
      exact hm (h m)
    refine ⟨hspaced, Classical.byContradiction fun hno => ?_⟩
    rw [not_or] at hno
    obtain ⟨m, hm⟩ := exists_not_narrows_of_kept hc hmember hspaced hno.1 hno.2
    exact hm (h m)
  · intro h m
    rcases exists_memberOf_or_none text with ⟨object, written, hmember⟩ | ⟨ha, hs⟩
    · obtain ⟨hspaced, hwritten | ⟨rest, hrest⟩⟩ := h object written hmember
      · exact narrows_of_identifier m hc hmember hspaced hwritten
      · exact narrows_of_hidden m hc hmember hspaced hrest
    · exact narrows_of_none m hc ha hs hcontext

/-- A nullsafe arrow and a letter of two bytes. -/
theorem typing_narrows_iff_nullsafe :
    let m : Memory :=
      { objects := NameMap.ofList [("o", Value.object "Shop" ["gérer", "get", "géant"])] }
    let text := "f($o?->gé".toList
    isAsciiWord 'a' = true ∧ atEnd text = .memberOf "o" "gé" ∧ Narrows m text 'a' ∧
      completeAtEnd? m (text ++ ['a']) = some (7, ["géant"]) := by
  intro m text
  have hc : isAsciiWord 'a' = true := by decide
  have hmember : atEnd text = .memberOf "o" "gé" := by decide
  refine ⟨hc, hmember, ?_, by decide⟩
  apply (typing_narrows_iff hc (by rw [hmember]; exact nofun)).2.mpr
  intro object written h
  obtain ⟨rfl, rfl⟩ := CompletionContext.memberOf.inj (hmember.symm.trans h)
  refine ⟨fun hspaced => ?_, Or.inl (List.all_eq_true.mp (by decide))⟩
  obtain ⟨space, rest, harrow, -⟩ := hspaced.exists_beforeArrow?
  obtain ⟨tail, htail⟩ := exists_of_beforeArrow? harrow
  exact absurd htail nofun

/-- With white space before the arrow the members are on offer, but none of those that start with the
next character. -/
theorem members_lost_after_space :
    let m : Memory := { objects := NameMap.ofList [("o", Value.object "Shop" ["get", "set"])] }
    let text := "$o ->".toList
    completeAtEnd? m text = some (5, ["get", "set"]) ∧
      (∃ names, completeAtEnd? m (text ++ ['g']) = some (5, names) ∧ "get" ∉ names) ∧
      ¬Narrows m text 'g' := by
  intro m text
  have hmembers : completeAtEnd? m text = some (5, ["get", "set"]) := by decide
  have hcontext : atEnd (text ++ ['g']) = .globalName "g" 0 := by decide
  have hlonger : completeAtEnd? m (text ++ ['g']) =
      some (5, candidates m (.globalName "g" 0)) := by
    rw [completeAtEnd?_eq, hcontext]
    rfl
  have hlost : "get" ∉ candidates m (.globalName "g" 0) := by
    rw [mem_candidates_of_word? rfl]
    rintro ⟨name, ⟨hname, -⟩, hdrop⟩
    have hwhole : dropBytes? 0 name = some name := dropBytes?_eq_some_iff.mpr ⟨[], rfl, rfl⟩
    obtain rfl := Option.some.inj (hwhole.symm.trans hdrop)
    rcases hname with h | h | h | h
    all_goals exact absurd h (by decide)
  refine ⟨hmembers, ⟨_, hlonger, hlost⟩, ?_⟩
  rintro ⟨start, typed, names, htyped, hnames, hmore⟩
  obtain ⟨rfl, rfl⟩ := Prod.mk.inj (Option.some.inj (hmembers.symm.trans hnames))
  have hnothing : slice? 5 (byteLength text) text = some [] := by decide
  obtain rfl := Option.some.inj (hnothing.symm.trans htyped)
  have hkept := (Prod.mk.inj (Option.some.inj (hlonger.symm.trans hmore))).2
  rw [hkept] at hlost
  exact hlost (by decide)

end Completion

end ScriptShell

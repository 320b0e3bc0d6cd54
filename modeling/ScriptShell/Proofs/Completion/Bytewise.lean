import ScriptShell.Proofs.Completion.Members
import ScriptShell.Proofs.Text.Bounds

/-!
Completion by byte positions. Here the line, its words and the names on offer are cut at byte
positions alone, and a cut that is out of range or inside a character has no result. Whatever the
cursor and the editor's word, completion makes no such cut, and it answers as for the last bound not
above the cursor. The editor's own position is not rounded: off the bounds it has no answer.
-/

namespace ScriptShell

open Text

namespace Completion

namespace Bytewise

/-! ## The cuts -/

/-- The word that a text ends in. The walk back stops in front of an identifier or separator; a sign
before it is one byte more. -/
def word? (before : List Char) : Option (List Char) := do
  let start := runStart CompletionContext.isWordPart before
  let (front, _) ← splitAtByte? start before
  let start ← if front.getLast? = some '$' then (if start = 0 then none else some (start - 1))
    else some start
  let (_, word) ← splitAtByte? start before
  some ((dropPrefix? ['\\'] word).getD word)

def classify? (line : String) (cursor : Nat) (typed : String) : Option CompletionContext := do
  let before ← before? line.toList cursor
  match CompletionContext.accessed? before.reverse with
  | some object => some (.memberOf (String.ofList object) typed)
  | none =>
    match CompletionContext.started? before.reverse with
    | some (object, written) => some (.memberOf (String.ofList object) (String.ofList written))
    | none => do
      let word ← word? before
      let strip := byteLength word - byteLength typed.toList
      some (if word.isEmpty then .empty
        else if word.head? = some '$' then .variableName (String.ofList word) strip
        else .globalName (String.ofList word) strip)

/-- The first bytes of the name are the word, up to the case of ASCII letters. The name is cut only
where it has a bound. -/
def fits? (word name : List Char) : Option Bool :=
  if byteLength word ≤ byteLength name ∧ (splitAtByte? (byteLength word) name).isSome then do
    let (start, _) ← splitAtByte? (byteLength word) name
    some (start.map Char.toLower == word.map Char.toLower)
  else some false

/-- The candidate that a name of the pool gives, if it fits. Members and variables are compared
without a cut, and what is stripped from a name may be more than it has. -/
def candidate? : CompletionContext → String → Option (Option String)
  | .globalName word strip, name => do
    let fits ← fits? word.toList name.toList
    some (if fits then dropBytes? strip name else none)
  | context, name => some (Completion.candidate? context name)

def complete? (m : Memory) (line : String) (cursor : Nat) (typed : String) :
    Option (List String) := do
  let context ← classify? line cursor typed
  let found ← (pool m context).mapM (candidate? context)
  some (NameSet.ofList (found.filterMap id)).names

def wordStart? (line : String) (pos : Nat) : Option Nat := do
  let (before, _) ← splitAtByte? pos line.toList
  some (runStart isIdentifier before)

def completeAt? (m : Memory) (line : String) (pos : Nat) : Option (Nat × List String) := do
  let start ← wordStart? line pos
  let typed ← slice? start pos line.toList
  let names ← complete? m line pos (String.ofList typed)
  some (start, names)

/-! ## Every cut has a result -/

/-- The word is cut at bounds: the sign has one byte, so there is one in front of it. -/
theorem word?_eq (before : List Char) :
    word? before = some (CompletionContext.wordBefore before.reverse) := by
  have hstart := runStart_eq CompletionContext.isWordPart before
  have hbefore : (before.reverse.dropWhile CompletionContext.isWordPart).reverse ++
      (before.reverse.takeWhile CompletionContext.isWordPart).reverse = before :=
    List.rdropWhile_append_rtakeWhile
  unfold word? CompletionContext.wordBefore
  rw [hstart]
  generalize (before.reverse.takeWhile CompletionContext.isWordPart).reverse = run at hbefore ⊢
  generalize before.reverse.dropWhile CompletionContext.isWordPart = back at hbefore ⊢
  have hcut := splitAtByte?_append back.reverse run
  rw [hbefore] at hcut
  simp only [Option.bind_eq_bind, hcut, Option.bind_some, List.getLast?_reverse]
  by_cases hsign : back.head? = some '$'
  · obtain ⟨tail, rfl⟩ : ∃ tail, back = '$' :: tail := List.head?_eq_some_iff.mp hsign
    have hlength : byteLength ('$' :: tail).reverse = byteLength tail.reverse + 1 := by
      rw [List.reverse_cons, byteLength_append]
      rfl
    have hsigned : before = tail.reverse ++ '$' :: run := by
      rw [← hbefore, List.reverse_cons, List.append_assoc]
      rfl
    have hcut' := splitAtByte?_append tail.reverse ('$' :: run)
    rw [← hsigned] at hcut'
    rw [if_pos hsign, if_pos hsign, hlength, if_neg (Nat.succ_ne_zero _), Nat.add_sub_cancel]
    simp only [Option.bind_some, hcut']
    rfl
  · rw [if_neg hsign, if_neg hsign]

theorem classify?_eq (line : String) (cursor : Nat) (typed : String) :
    classify? line cursor typed = some (.classify line cursor typed) := by
  unfold classify? CompletionContext.classify CompletionContext.ofBefore
  rw [before?_eq]
  simp only [Option.bind_eq_bind, Option.bind_some, word?_eq, String.ofList_toList]
  generalize CompletionContext.accessed? (takeBytes cursor line.toList).reverse = accessed
  generalize CompletionContext.started? (takeBytes cursor line.toList).reverse = started
  cases accessed with
  | some object => rfl
  | none =>
    cases started with
    | some found => rfl
    | none => rfl

theorem fits?_eq (word name : String) :
    fits? word.toList name.toList = some (startsWithIgnoringCase word name) := by
  unfold fits? startsWithIgnoringCase
  cases hcut : splitAtByte? (byteLength word.toList) name.toList with
  | none =>
    rw [if_neg (fun h => Bool.false_ne_true h.2)]
  | some cut =>
    have hbound : IsBound name.toList (byteLength word.toList) :=
      isSome_splitAtByte?_iff.mp (by rw [hcut]; rfl)
    rw [if_pos ⟨hbound.le_byteLength, rfl⟩]
    rfl

theorem candidate?_eq (context : CompletionContext) (name : String) :
    candidate? context name = some (Completion.candidate? context name) := by
  cases context with
  | globalName word strip =>
    rw [candidate?, fits?_eq]
    rfl
  | memberOf object typed => rfl
  | variableName word strip => rfl
  | empty => rfl

/-- Completion makes no cut without a result, and it comes to the same. -/
theorem complete?_eq (m : Memory) (line : String) (cursor : Nat) (typed : String) :
    complete? m line cursor typed = some (complete m line cursor typed) := by
  unfold complete? complete candidates
  rw [classify?_eq]
  generalize CompletionContext.classify line cursor typed = context
  have hall : candidate? context = fun name => some (Completion.candidate? context name) :=
    funext (candidate?_eq context)
  have hfound : (pool m context).mapM (candidate? context) =
      some ((pool m context).map (Completion.candidate? context)) := by
    rw [hall]
    exact List.mapM_pure
  simp only [Option.bind_eq_bind, Option.bind_some, hfound, List.filterMap_map]
  rfl

theorem wordStart?_eq (line : String) (pos : Nat) :
    wordStart? line pos = Completion.wordStart? line pos := by
  unfold wordStart? Completion.wordStart? cutWord
  cases splitAtByte? pos line.toList with
  | none => rfl
  | some cut => exact congrArg some (runStart_eq isIdentifier cut.1)

theorem completeAt?_eq (m : Memory) (line : String) (pos : Nat) :
    completeAt? m line pos = Completion.completeAt? m line pos := by
  unfold completeAt? Completion.completeAt?
  rw [wordStart?_eq, Completion.wordStart?]
  cases hcut : splitAtByte? pos line.toList with
  | none => rfl
  | some cut =>
    obtain ⟨before, after⟩ := cut
    obtain ⟨hline, rfl⟩ := splitAtByte?_eq_some_iff.mp hcut
    have hword := slice?_cutWord before after
    rw [← hline] at hword
    simp only [Option.bind_eq_bind, Option.map_some, Option.bind_some, hword, complete?_eq]

end Bytewise

/-! ## What the cuts give -/

/-- Nothing but identifier characters stands between two bounds of a line. -/
def RunsTo (line : List Char) (start pos : Nat) : Prop :=
  ∃ run, slice? start pos line = some run ∧ ∀ c ∈ run, isIdentifier c = true

/-- The editor's word is the longest run of identifier characters before its position. -/
theorem runsTo_of_wordStart? {line : String} {pos start : Nat}
    (h : wordStart? line pos = some start) :
    RunsTo line.toList start pos ∧ ∀ other, RunsTo line.toList other pos → start ≤ other := by
  obtain ⟨⟨before, after⟩, hcut, rfl⟩ := Option.map_eq_some_iff.mp h
  obtain ⟨hline, rfl⟩ := splitAtByte?_eq_some_iff.mp hcut
  rw [hline]
  refine ⟨⟨_, slice?_cutWord before after, fun c => isIdentifier_of_mem_cutWord⟩, ?_⟩
  rintro other ⟨run, hslice, hrun⟩
  obtain ⟨outer, rest, hsplit, rfl, hpos⟩ := slice?_eq_some_iff.mp hslice
  have hbefore : before = outer ++ run := by
    have hcut' := splitAtByte?_append (outer ++ run) rest
    rw [← hsplit, hpos, splitAtByte?_append] at hcut'
    exact (Prod.mk.inj (Option.some.inj hcut')).1
  have hall : ∀ c ∈ run.reverse, isIdentifier c = true :=
    fun c hc => hrun c (List.mem_reverse.mp hc)
  have hfront : (cutWord before).1 = (cutWord outer).1 := by
    simp only [cutWord]
    rw [hbefore, List.reverse_append, List.dropWhile_append_of_pos hall]
  have houter := congrArg byteLength (cutWord_append outer)
  rw [byteLength_append] at houter
  rw [hfront]
  omega

/-- Where a member is asked for, the object is a part of the line, and so is what is typed of the
member unless that is the editor's word. -/
theorem slices_of_memberOf {line typed object written : String} {cursor : Nat}
    (h : CompletionContext.classify line cursor typed = .memberOf object written) :
    (∃ start stop, slice? start stop line.toList = some object.toList) ∧
      (written = typed ∨ ∃ start stop, slice? start stop line.toList = some written.toList) := by
  obtain ⟨rest, hline⟩ := takeBytes_prefix cursor line.toList
  obtain ⟨ahead, ⟨front, gap, arrow, -, rfl, -⟩, hend⟩ := CompletionContext.memberOf_ofBefore h
  constructor
  · have hobject : ∃ tail, line.toList = (front ++ ['$']) ++ object.toList ++ tail := by
      rcases hend with hend | ⟨hend, -⟩
      · refine ⟨gap ++ arrow ++ written.toList ++ rest, ?_⟩
        rw [← hline, hend]
        simp only [List.append_assoc, List.cons_append, List.nil_append]
      · refine ⟨gap ++ arrow ++ rest, ?_⟩
        rw [← hline, hend]
        simp only [List.append_assoc, List.cons_append, List.nil_append]
    obtain ⟨tail, htail⟩ := hobject
    exact ⟨_, _, slice?_eq_some_iff.mpr ⟨_, _, htail, rfl, rfl⟩⟩
  · rcases hend with hend | ⟨-, hend⟩
    · rw [hend] at hline
      exact Or.inr ⟨_, _, slice?_eq_some_iff.mpr ⟨_, _, hline.symm, rfl, rfl⟩⟩
    · exact Or.inl (String.toList_inj.mp hend)

/-- At any cursor and for any word of the editor, every cut that completion makes lies at a bound,
also where a member's object and start are read off the line, and the answer is the one for the last
bound not above the cursor. The editor's own cuts lie at bounds exactly if its position does: beyond
the line or inside a character there is no answer, and elsewhere its word starts where the longest
run of identifier characters before the position does. -/
theorem completion_within_bounds (m : Memory) (line : String) (cursor : Nat) (typed : String) :
    Bytewise.complete? m line cursor typed = some (complete m line cursor typed) ∧
    (∀ object written, CompletionContext.classify line cursor typed = .memberOf object written →
      (∃ start stop, slice? start stop line.toList = some object.toList) ∧
        (written = typed ∨ ∃ start stop, slice? start stop line.toList = some written.toList)) ∧
    (∃ bound, IsLastBound line.toList cursor bound ∧
      complete m line cursor typed = complete m line bound typed) ∧
    ∀ pos, Bytewise.wordStart? line pos = wordStart? line pos ∧
      Bytewise.completeAt? m line pos = completeAt? m line pos ∧
      (wordStart? line pos = none ↔ byteLength line.toList < pos ∨ IsInside line.toList pos) ∧
      (completeAt? m line pos = none ↔ byteLength line.toList < pos ∨ IsInside line.toList pos) ∧
      ∀ start, wordStart? line pos = some start →
        RunsTo line.toList start pos ∧ ∀ other, RunsTo line.toList other pos → start ≤ other := by
  refine ⟨Bytewise.complete?_eq m line cursor typed, fun object written => slices_of_memberOf,
    ⟨_, isLastBound_takeBytes cursor line.toList, ?_⟩, fun pos => ⟨Bytewise.wordStart?_eq line pos,
      Bytewise.completeAt?_eq m line pos, ?_, ?_, fun start => runsTo_of_wordStart?⟩⟩
  · unfold complete CompletionContext.classify
    rw [takeBytes_of_isLastBound (isLastBound_takeBytes cursor line.toList)]
  · rw [wordStart?, Option.map_eq_none_iff, splitAtByte?_eq_none_iff]
  · rw [← splitAtByte?_eq_none_iff, completeAt?]
    cases splitAtByte? pos line.toList with
    | none => exact iff_of_true rfl rfl
    | some cut => exact iff_of_false nofun nofun

end Completion

end ScriptShell

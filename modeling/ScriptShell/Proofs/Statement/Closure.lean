import ScriptShell.Proofs.Statement.Units
import ScriptShell.Proofs.Text.White

/-!
When a statement buffer lets go of what it has gathered. Between two operations nothing is pending
or something is left open, whatever the buffer has been asked before. So the answer to a line
depends on the lines since the last reset alone, and a unit is closed by the first line that leaves
nothing open.
-/

namespace ScriptShell

open Text

/-! ## What is left open -/

/-- How often `quote` stands in a text without a backslash right before it. -/
def unescaped (quote : Char) (cs : List Char) : Nat :=
  (cs.zip (none :: cs.map some)).countP fun p => p.1 = quote ∧ p.2 ≠ some '\\'

/-- More openers than closers of one kind are there or, where quotes matter, an odd number of
unescaped quotes of one kind. -/
def Closing.LeavesOpen (mode : Closing) (text : String) : Prop :=
  text.toList.count '}' < text.toList.count '{' ∨ text.toList.count ']' < text.toList.count '[' ∨
    text.toList.count ')' < text.toList.count '(' ∨
    mode = .bracketsAndQuotes ∧
      (unescaped '\'' text.toList % 2 = 1 ∨ unescaped '"' text.toList % 2 = 1)

instance (mode : Closing) (text : String) : Decidable (mode.LeavesOpen text) :=
  inferInstanceAs (Decidable (_ ∨ _))

/-- The count by scanning, which carries the character before, is the number of quotes behind no
backslash. -/
theorem countUnescaped_eq_unescaped (quote : Char) (cs : List Char) :
    countUnescaped quote cs = unescaped quote cs := by
  have key (prev : Option Char) : countUnescapedFrom quote prev cs =
      (cs.zip (prev :: cs.map some)).countP fun p => p.1 = quote ∧ p.2 ≠ some '\\' := by
    induction cs generalizing prev with
    | nil => rfl
    | cons c cs ih =>
      rw [countUnescapedFrom, ih (some c), List.map_cons, List.zip_cons_cons, List.countP_cons,
        Nat.add_comm]
      simp only [decide_eq_true_eq]
  exact key none

namespace Balance

theorem ofChar_eq (c : Char) :
    ofChar c = ⟨(if c = '{' then 1 else 0) - (if c = '}' then 1 else 0),
      (if c = '[' then 1 else 0) - (if c = ']' then 1 else 0),
      (if c = '(' then 1 else 0) - (if c = ')' then 1 else 0)⟩ := by
  unfold ofChar
  split
  · rfl
  · rfl
  · rfl
  · rfl
  · rfl
  · rfl
  · next h1 h2 h3 h4 h5 h6 =>
    rw [if_neg h1, if_neg h2, if_neg h3, if_neg h4, if_neg h5, if_neg h6]
    rfl

theorem of_eq_counts (cs : List Char) :
    of cs = ⟨(cs.count '{' : Int) - cs.count '}', (cs.count '[' : Int) - cs.count ']',
      (cs.count '(' : Int) - cs.count ')'⟩ := by
  have hcount (d c : Char) (cs : List Char) :
      ((c :: cs).count d : Int) = (if c = d then 1 else 0) + cs.count d := by
    rw [List.count_cons]
    by_cases h : c = d
    · simp [h, Int.add_comm]
    · simp [h]
  induction cs with
  | nil => rfl
  | cons c cs ih =>
    rw [of, ih, ofChar_eq]
    ext
    · change _ - _ + (_ - _) = ((c :: cs).count '{' : Int) - (c :: cs).count '}'
      rw [hcount, hcount]
      omega
    · change _ - _ + (_ - _) = ((c :: cs).count '[' : Int) - (c :: cs).count ']'
      rw [hcount, hcount]
      omega
    · change _ - _ + (_ - _) = ((c :: cs).count '(' : Int) - (c :: cs).count ')'
      rw [hcount, hcount]
      omega

theorem anyOpen_iff (cs : List Char) : (of cs).anyOpen = true ↔
    cs.count '}' < cs.count '{' ∨ cs.count ']' < cs.count '[' ∨ cs.count ')' < cs.count '(' := by
  rw [of_eq_counts]
  simp only [anyOpen, Bool.or_eq_true, decide_eq_true_eq, or_assoc]
  omega

end Balance

namespace Closing

/-- What the buffer computes is what it should: nothing is left open. -/
theorem closed_eq_false_iff (mode : Closing) (text : String) :
    mode.closed text.toList = false ↔ mode.LeavesOpen text := by
  have hquotes (q : Char) : (countUnescaped q text.toList % 2 == 0) = false ↔
      unescaped q text.toList % 2 = 1 := by
    rw [countUnescaped_eq_unescaped, beq_eq_false_iff_ne]
    omega
  have hopen := Balance.anyOpen_iff text.toList
  unfold closed LeavesOpen
  rw [Bool.and_eq_false_iff, Bool.not_eq_false', hopen]
  cases mode with
  | bracketsOnly => simp
  | bracketsAndQuotes =>
    simp only [Bool.and_eq_false_iff, hquotes, true_and, or_assoc]

theorem closes_eq_false_iff (mode : Closing) (texts : List String) :
    mode.closes texts = false ↔ mode.LeavesOpen (gathered texts) :=
  mode.closed_eq_false_iff (gathered texts)

theorem closes_eq_true_iff (mode : Closing) (texts : List String) :
    mode.closes texts = true ↔ ¬mode.LeavesOpen (gathered texts) := by
  rw [← closes_eq_false_iff, Bool.not_eq_false]

/-- What leaves something open is not blank. -/
theorem LeavesOpen.exists_mark {mode : Closing} {text : String} (h : mode.LeavesOpen text) :
    ∃ c ∈ text.toList, isSpace c = false := by
  have hcount {c d : Char} (hc : isSpace c = false)
      (h : text.toList.count d < text.toList.count c) : ∃ c ∈ text.toList, isSpace c = false := by
    have hpos : 0 < text.toList.count c := by omega
    exact ⟨c, List.count_pos_iff.mp hpos, hc⟩
  have hquote {q : Char} (hq : isSpace q = false) (h : unescaped q text.toList % 2 = 1) :
      ∃ c ∈ text.toList, isSpace c = false := by
    have hpos : 0 < unescaped q text.toList := by omega
    obtain ⟨p, hp, hpq⟩ := List.countP_pos_iff.mp hpos
    have hmem : p.1 ∈ text.toList := (List.of_mem_zip hp).1
    rw [(of_decide_eq_true hpq).1] at hmem
    exact ⟨q, hmem, hq⟩
  rcases h with h | h | h | ⟨-, h | h⟩
  · exact hcount (by decide) h
  · exact hcount (by decide) h
  · exact hcount (by decide) h
  · exact hquote (by decide) h
  · exact hquote (by decide) h

/-- Nor does it become so by what follows. -/
theorem LeavesOpen.trim_append_ne_empty {mode : Closing} {text : String}
    (h : mode.LeavesOpen text) (more : String) : trim (text ++ more) ≠ "" := by
  obtain ⟨c, hc, hs⟩ := h.exists_mark
  intro hb
  rw [trim_eq_empty_iff, isBlank, List.all_eq_true] at hb
  have hmem : c ∈ (text ++ more).toList := by
    rw [String.toList_append]
    exact List.mem_append_left _ hc
  exact Bool.false_ne_true (hs.symm.trans (hb c hmem))

theorem LeavesOpen.trim_ne_empty {mode : Closing} {text : String} (h : mode.LeavesOpen text) :
    trim text ≠ "" := by
  have hne := h.trim_append_ne_empty ""
  rw [String.append_empty] at hne
  exact hne

end Closing

/-- No line after something that is open makes a blank text. -/
theorem trim_ne_empty_of_open {mode : Closing} {texts : List String}
    (h : mode.closes texts = false) (line : String) :
    trim (gathered (texts ++ [line])) ≠ "" := by
  rw [gathered_snoc, String.append_assoc]
  exact ((mode.closes_eq_false_iff texts).mp h).trim_append_ne_empty _

/-! ## The lines since the last reset -/

theorem gathered_cons (line : String) (texts : List String) :
    gathered (line :: texts) = line ++ "\n" ++ gathered texts := by
  have key (text : String) : texts.foldl (fun text line => text ++ line ++ "\n") text =
      text ++ gathered texts := by
    unfold gathered
    induction texts generalizing text with
    | nil => exact String.append_empty.symm
    | cons line texts ih =>
      rw [List.foldl_cons, List.foldl_cons, ih, ih ("" ++ line ++ "\n")]
      simp only [String.append_assoc, String.empty_append]
  rw [gathered, List.foldl_cons, key, String.empty_append]

theorem gathered_eq_empty_iff (texts : List String) : gathered texts = "" ↔ texts = [] := by
  constructor
  · intro h
    cases texts with
    | nil => rfl
    | cons line texts =>
      rw [gathered_cons] at h
      have hnil := congrArg String.toList h
      rw [String.toList_append, String.toList_append] at hnil
      exact absurd hnil (by simp)
  · intro h
    rw [h]
    rfl

/-- The text of lines is the lines joined by newlines, but for a newline at the end. -/
theorem trim_gathered (texts : List String) :
    trim (gathered texts) = trim ("\n".intercalate texts) := by
  have key (line : String) (texts : List String) :
      gathered (line :: texts) = "\n".intercalate (line :: texts) ++ "\n" := by
    induction texts generalizing line with
    | nil => rw [gathered_cons, String.intercalate_singleton]; exact String.append_empty
    | cons next texts ih =>
      rw [gathered_cons, ih, String.intercalate_cons_cons]
      simp only [String.append_assoc]
  cases texts with
  | nil => rfl
  | cons line texts =>
    have hspace : isSpace '\n' = true := by decide
    have hcs : (gathered (line :: texts)).toList =
        ("\n".intercalate (line :: texts)).toList ++ ['\n'] := by
      rw [key, String.toList_append]
      rfl
    rw [trim, trim, hcs, trim_concat _ hspace]

/-- Every line so far has left something open. -/
def Closing.Unclosed (mode : Closing) (texts : List String) : Prop :=
  ∀ first, first ≠ [] → first <+: texts → mode.LeavesOpen (gathered first)

namespace Closing.Unclosed

variable {mode : Closing} {texts : List String} {line : String}

theorem nil : mode.Unclosed [] := fun _ hne hpre => absurd (List.prefix_nil.mp hpre) hne

theorem concat (h : mode.Unclosed texts) (hl : mode.LeavesOpen (gathered (texts ++ [line]))) :
    mode.Unclosed (texts ++ [line]) := by
  intro first hne hpre
  rcases List.prefix_concat_iff.mp hpre with heq | hpre
  · rw [heq]
    exact hl
  · exact h first hne hpre

/-- So the next line alone decides. -/
theorem concat_iff (h : mode.Unclosed texts) :
    mode.Unclosed (texts ++ [line]) ↔ mode.LeavesOpen (gathered (texts ++ [line])) := by
  constructor
  · intro hall
    exact hall _ (List.append_ne_nil_of_right_ne_nil texts (List.cons_ne_nil line []))
      (List.prefix_refl _)
  · exact h.concat

theorem eq_nil_or (h : mode.Unclosed texts) : texts = [] ∨ mode.LeavesOpen (gathered texts) := by
  by_cases hnil : texts = []
  · exact Or.inl hnil
  · exact Or.inr (h texts hnil (List.prefix_refl texts))

/-- A text that a line leaves blank had nothing before it. -/
theorem eq_nil_of_blank (h : mode.Unclosed texts)
    (hb : trim (gathered (texts ++ [line])) = "") : texts = [] := by
  refine h.eq_nil_or.resolve_right fun hopen => ?_
  exact trim_ne_empty_of_open ((mode.closes_eq_false_iff texts).mpr hopen) line hb

end Closing.Unclosed

/-- What can be asked of a statement buffer. -/
inductive BufferStep where
  | feed (line : String)
  | clear
  | takeRemainder
deriving DecidableEq, Repr

/-- What it answers. -/
inductive BufferAnswer where
  | fed (answer : Feed)
  | cleared
  | remainder (rest : Option String)
deriving DecidableEq, Repr

namespace StatementBuffer

def step (b : StatementBuffer) : BufferStep → BufferAnswer × StatementBuffer
  | .feed line => let (answer, b) := b.feed line; (.fed answer, b)
  | .clear => (.cleared, b.clear)
  | .takeRemainder => let (rest, b) := b.takeRemainder; (.remainder rest, b)

/-- Steps one after another, each with its answer. -/
def stepAll (b : StatementBuffer) :
    List BufferStep → List (BufferStep × BufferAnswer) × StatementBuffer
  | [] => ([], b)
  | s :: rest =>
    let (answer, b) := b.step s
    let (answers, b) := stepAll b rest
    ((s, answer) :: answers, b)

/-- A line that was not enough is kept; anything else starts afresh. -/
def keep (texts : List String) : BufferStep × BufferAnswer → List String
  | (.feed line, .fed .incomplete) => texts ++ [line]
  | _ => []

/-- The lines fed since the last reset, be it a unit, a blank line, a clearing or a taking out. -/
def sinceReset (answers : List (BufferStep × BufferAnswer)) : List String := answers.foldl keep []

theorem isEmpty_holding (mode : Closing) (texts : List String) :
    (holding mode texts).isEmpty = true ↔ texts = [] := by
  rw [isEmpty, decide_eq_true_iff]
  exact gathered_eq_empty_iff texts

/-- A step leaves the lines pending that it keeps, and every one of them has left something open. -/
theorem step_holding {mode : Closing} {texts : List String} (h : mode.Unclosed texts)
    (s : BufferStep) :
    ((holding mode texts).step s).2 = holding mode (keep texts (s, ((holding mode texts).step s).1)) ∧
      mode.Unclosed (keep texts (s, ((holding mode texts).step s).1)) := by
  cases s with
  | clear => exact ⟨rfl, .nil⟩
  | takeRemainder => exact ⟨rfl, .nil⟩
  | feed line =>
    cases hc : mode.closes (texts ++ [line]) with
    | false =>
      rw [step, feed_holding_of_open hc]
      exact ⟨rfl, h.concat ((mode.closes_eq_false_iff _).mp hc)⟩
    | true =>
      rw [step, feed_holding_of_closed hc]
      by_cases hb : trim (gathered (texts ++ [line])) = ""
      · rw [if_pos hb]
        exact ⟨rfl, .nil⟩
      · rw [if_neg hb]
        exact ⟨rfl, .nil⟩

theorem stepAll_holding {mode : Closing} {texts : List String} (h : mode.Unclosed texts)
    (steps : List BufferStep) :
    ∃ pending, ((holding mode texts).stepAll steps).2 = holding mode pending ∧
      mode.Unclosed pending ∧ ((holding mode texts).stepAll steps).1.foldl keep texts = pending := by
  induction steps generalizing texts with
  | nil => exact ⟨texts, rfl, h, rfl⟩
  | cons s rest ih =>
    obtain ⟨hb, hu⟩ := step_holding h s
    obtain ⟨pending, hpending, hunclosed, hkept⟩ := ih hu
    refine ⟨pending, ?_, hunclosed, ?_⟩
    · rw [← hpending, ← hb]
      rfl
    · rw [← hkept, ← hb]
      rfl

variable {mode : Closing} {texts : List String}

theorem feed_eq_incomplete_iff (line : String) :
    ((holding mode texts).feed line).1 = .incomplete ↔
      mode.LeavesOpen (gathered (texts ++ [line])) := by
  cases hc : mode.closes (texts ++ [line]) with
  | false =>
    rw [feed_holding_of_open hc]
    exact iff_of_true rfl ((mode.closes_eq_false_iff _).mp hc)
  | true =>
    rw [feed_holding_of_closed hc]
    refine iff_of_false ?_ ((mode.closes_eq_true_iff _).mp hc)
    split
    · exact nofun
    · exact nofun

theorem feed_eq_complete_iff (line unit : String) :
    ((holding mode texts).feed line).1 = .complete unit ↔
      ¬mode.LeavesOpen (gathered (texts ++ [line])) ∧ unit ≠ "" ∧
        unit = trim ("\n".intercalate (texts ++ [line])) := by
  rw [← trim_gathered]
  cases hc : mode.closes (texts ++ [line]) with
  | false =>
    rw [feed_holding_of_open hc]
    exact iff_of_false nofun fun h => h.1 ((mode.closes_eq_false_iff _).mp hc)
  | true =>
    have hclosed := (mode.closes_eq_true_iff _).mp hc
    rw [feed_holding_of_closed hc]
    generalize trim (gathered (texts ++ [line])) = text
    by_cases hb : text = ""
    · rw [if_pos hb, hb]
      exact iff_of_false nofun fun h => h.2.1 h.2.2
    · rw [if_neg hb]
      constructor
      · intro h
        have hunit := Feed.complete.inj h
        exact ⟨hclosed, hunit ▸ hb, hunit.symm⟩
      · intro h
        rw [h.2.2]

/-- Only white space is dropped, and only where nothing was pending. -/
theorem feed_eq_blank_iff (h : mode.Unclosed texts) (line : String) :
    ((holding mode texts).feed line).1 = .blank ↔ texts = [] ∧ isBlank line = true := by
  have hblank (hnil : texts = []) :
      trim (gathered (texts ++ [line])) = "" ↔ isBlank line = true := by
    rw [trim_gathered, hnil, List.nil_append, String.intercalate_singleton, trim_eq_empty_iff]
  cases hc : mode.closes (texts ++ [line]) with
  | false =>
    rw [feed_holding_of_open hc]
    refine iff_of_false nofun fun hboth => ?_
    have hopen := (mode.closes_eq_false_iff _).mp hc
    exact hopen.trim_ne_empty ((hblank hboth.1).mpr hboth.2)
  | true =>
    rw [feed_holding_of_closed hc]
    by_cases hb : trim (gathered (texts ++ [line])) = ""
    · have hnil := h.eq_nil_of_blank hb
      rw [if_pos hb]
      exact iff_of_true rfl ⟨hnil, (hblank hnil).mp hb⟩
    · rw [if_neg hb]
      exact iff_of_false nofun fun hboth => hb ((hblank hboth.1).mpr hboth.2)

theorem isEmpty_feed {line : String} (h : ((holding mode texts).feed line).1 ≠ .incomplete) :
    ((holding mode texts).feed line).2.isEmpty = true := by
  cases hc : mode.closes (texts ++ [line]) with
  | false =>
    rw [feed_holding_of_open hc] at h
    exact absurd rfl h
  | true =>
    rw [feed_holding_of_closed hc]
    rfl

/-- What is pending is never blank, so there is nothing to take out only of an empty buffer. -/
theorem takeRemainder_eq_some_iff (h : mode.Unclosed texts) (rest : String) :
    (holding mode texts).takeRemainder.1 = some rest ↔
      texts ≠ [] ∧ rest = trim ("\n".intercalate texts) := by
  have hblank : trim (gathered texts) = "" ↔ texts = [] := by
    constructor
    · intro hb
      exact h.eq_nil_or.resolve_right fun hopen => hopen.trim_ne_empty hb
    · intro hnil
      rw [hnil]
      rfl
  rw [takeRemainder_holding, ← trim_gathered]
  by_cases hb : trim (gathered texts) = ""
  · rw [if_pos hb]
    exact iff_of_false nofun fun hboth => hboth.1 (hblank.mp hb)
  · rw [if_neg hb, Option.some.injEq]
    constructor
    · intro hrest
      exact ⟨fun hnil => hb (hblank.mpr hnil), hrest.symm⟩
    · intro hboth
      exact hboth.2.symm

/-- Take a buffer of either kind after any steps. Nothing is pending or something is left open, and
so it has been after each of the lines since the last reset. A further line is not enough as long as
it, too, leaves something open; the first one that does not gives all of these lines, joined and
trimmed, as a unit, or nothing at all if it is white space on an empty buffer, and empties the
buffer. There is nothing to take out of the buffer exactly when it is empty. -/
theorem closure_law (mode : Closing) (steps : List BufferStep) :
    let after := ({ closing := mode } : StatementBuffer).stepAll steps
    let b := after.2
    let texts := sinceReset after.1
    (b.isEmpty = true ∨ mode.LeavesOpen b.pending) ∧
    (b.isEmpty = true ↔ texts = []) ∧
    (∀ first, first ≠ [] → first <+: texts → mode.LeavesOpen (gathered first)) ∧
    (∀ line, (b.feed line).1 = .incomplete ↔
      ∀ first, first ≠ [] → first <+: texts ++ [line] → mode.LeavesOpen (gathered first)) ∧
    (∀ line unit, (b.feed line).1 = .complete unit ↔
      ¬mode.LeavesOpen (gathered (texts ++ [line])) ∧ unit ≠ "" ∧
        unit = trim ("\n".intercalate (texts ++ [line]))) ∧
    (∀ line, (b.feed line).1 = .blank ↔ b.isEmpty = true ∧ isBlank line = true) ∧
    (∀ line, (b.feed line).1 ≠ .incomplete → (b.feed line).2.isEmpty = true) ∧
    (b.takeRemainder.1 = none ↔ b.isEmpty = true) ∧
    (∀ rest, b.takeRemainder.1 = some rest ↔
      texts ≠ [] ∧ rest = trim ("\n".intercalate texts)) := by
  intro after b texts
  obtain ⟨pending, hb, hu, hkept⟩ := @stepAll_holding mode [] .nil steps
  have hbuffer : b = holding mode pending := hb
  have htexts : texts = pending := hkept
  have hempty := isEmpty_holding mode pending
  have htake := takeRemainder_eq_some_iff hu
  rw [hbuffer, htexts]
  refine ⟨?_, hempty, hu, ?_, feed_eq_complete_iff, ?_, fun line => isEmpty_feed, ?_, htake⟩
  · exact hu.eq_nil_or.imp hempty.mpr id
  · intro line
    rw [feed_eq_incomplete_iff]
    exact hu.concat_iff.symm
  · intro line
    rw [feed_eq_blank_iff hu, hempty]
  · rw [hempty]
    cases hr : (holding mode pending).takeRemainder.1 with
    | none =>
      refine iff_of_true rfl (Classical.byContradiction fun hne => ?_)
      rw [(htake _).mpr ⟨hne, rfl⟩] at hr
      exact absurd hr nofun
    | some rest => exact iff_of_false nofun ((htake rest).mp hr).1

end StatementBuffer

end ScriptShell

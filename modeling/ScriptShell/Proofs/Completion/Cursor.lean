import ScriptShell.Completion.Candidates
import ScriptShell.Proofs.NameMap
import ScriptShell.Proofs.Text.Positions
import ScriptShell.Proofs.Text.Words

/-!
The two words at a cursor: the identifier that the editor replaces, and the word to be completed,
which may reach further back. Both end at the cursor, so the second is the first with a text before
it that the editor keeps; what is stripped from the candidates is that text.
-/

namespace ScriptShell

open Text

namespace CompletionContext

/-- The word to be completed and the number of bytes of it that the editor keeps, where a name is
asked for. -/
def word? : CompletionContext → Option (String × Nat)
  | .variableName word strip => some (word, strip)
  | .globalName word strip => some (word, strip)
  | _ => none

theorem word?_ofBefore {before typed : List Char} {word : String} {strip : Nat}
    (h : (ofBefore before typed).word? = some (word, strip)) :
    word.toList = wordBefore before.reverse ∧
      strip = byteLength (wordBefore before.reverse) - byteLength typed := by
  have hnamed (w : List Char) (n : Nat) (h : some (String.ofList w, n) = some (word, strip)) :
      word.toList = w ∧ strip = n := by
    obtain ⟨rfl, rfl⟩ := Prod.mk.inj (Option.some.inj h)
    exact ⟨String.toList_ofList, rfl⟩
  unfold ofBefore at h
  simp only at h
  split at h
  · exact absurd h nofun
  · split at h
    · exact absurd h nofun
    · split at h
      · exact absurd h nofun
      · split at h
        · exact hnamed _ _ h
        · exact hnamed _ _ h

/-- A cursor between two characters. -/
theorem classify_append (before after : List Char) (typed : String) :
    classify (String.ofList (before ++ after)) (byteLength before) typed =
      ofBefore before typed.toList := by
  rw [classify, String.toList_ofList, takeBytes_append]

end CompletionContext

namespace Completion

open CompletionContext

theorem not_isIdentifier_backslash : isIdentifier '\\' = false := by decide +kernel

theorem cutWord_append (before : List Char) : (cutWord before).1 ++ (cutWord before).2 = before :=
  List.rdropWhile_append_rtakeWhile

theorem isIdentifier_of_mem_cutWord {before : List Char} {c : Char} (h : c ∈ (cutWord before).2) :
    isIdentifier c = true :=
  List.mem_takeWhile_imp (List.mem_reverse.mp h)

/-- The word to be completed ends in the word that the editor replaces. -/
theorem wordBefore_eq (before : List Char) :
    ∃ outer kept, (cutWord before).1 = outer ++ kept ∧
      wordBefore before.reverse = kept ++ (cutWord before).2 := by
  have htyped := @isIdentifier_of_mem_cutWord before
  have hrun : before.reverse = (cutWord before).2.reverse ++ (cutWord before).1.reverse := by
    rw [← List.reverse_append, cutWord_append]
  generalize (cutWord before).2 = typed at htyped hrun ⊢
  generalize (cutWord before).1 = front at hrun ⊢
  have hpart : ∀ c ∈ typed.reverse, isWordPart c = true := by
    intro c hc
    rw [isWordPart, htyped (List.mem_reverse.mp hc), Bool.true_or]
  have hfront : front = (front.reverse.dropWhile isWordPart).reverse ++
      (front.reverse.takeWhile isWordPart).reverse := List.rdropWhile_append_rtakeWhile.symm
  unfold wordBefore
  rw [hrun, List.takeWhile_append_of_pos hpart, List.dropWhile_append_of_pos hpart,
    List.reverse_append, List.reverse_reverse]
  generalize hmore : (front.reverse.takeWhile isWordPart).reverse = more at hfront ⊢
  generalize front.reverse.dropWhile isWordPart = back at hfront ⊢
  simp only
  split
  · next hdollar =>
    obtain ⟨tail, rfl⟩ : ∃ tail, back = '$' :: tail := List.head?_eq_some_iff.mp hdollar
    refine ⟨tail.reverse, '$' :: more, ?_, rfl⟩
    rw [hfront, List.reverse_cons, List.append_assoc]
    rfl
  · cases more with
    | nil =>
      refine ⟨back.reverse, [], hfront, ?_⟩
      cases typed with
      | nil => rfl
      | cons c typed =>
        have hc : '\\' ≠ c := by
          intro he
          have hid := htyped (c := c) List.mem_cons_self
          rw [← he, not_isIdentifier_backslash] at hid
          exact Bool.false_ne_true hid
        rw [List.nil_append, dropPrefix?, if_neg hc]
        rfl
    | cons c more =>
      by_cases hc : '\\' = c
      · refine ⟨back.reverse ++ [c], more, ?_, ?_⟩
        · rw [hfront, List.append_assoc]
          rfl
        · rw [List.cons_append, dropPrefix?, if_pos hc]
          rfl
      · refine ⟨back.reverse, c :: more, hfront, ?_⟩
        rw [List.cons_append, dropPrefix?, if_neg hc]
        rfl

/-- At the bound of a character the editor is given an answer. -/
theorem completeAt?_append (m : Memory) (before after : List Char) :
    completeAt? m (String.ofList (before ++ after)) (byteLength before) =
      some (byteLength (cutWord before).1,
        candidates m (ofBefore before (cutWord before).2)) := by
  unfold completeAt?
  rw [String.toList_ofList, splitAtByte?_append]
  simp only [Option.bind_eq_bind, Option.bind_some]
  rw [complete, classify_append, String.toList_ofList]

/-- What the editor replaces is the identifier before the cursor. -/
theorem slice?_cutWord (before after : List Char) :
    slice? (byteLength (cutWord before).1) (byteLength before) (before ++ after) =
      some (cutWord before).2 := by
  have hcut := cutWord_append before
  have hslice := slice?_append (cutWord before).1 (cutWord before).2 after
  rwa [← byteLength_append, hcut] at hslice

theorem pairwise_candidates (m : Memory) (context : CompletionContext) :
    (candidates m context).Pairwise (· < ·) := NameMap.pairwise_names _

theorem mem_candidates {m : Memory} {context : CompletionContext} {c : String} :
    c ∈ candidates m context ↔ ∃ name ∈ pool m context, candidate? context name = some c := by
  rw [candidates, NameSet.mem_names, NameSet.contains_ofList, List.mem_filterMap]

/-- A name starts with a word when the word stands at its front. -/
theorem startsWith_iff {word name : String} :
    startsWith word name = true ↔ ∃ rest, name.toList = word.toList ++ rest := by
  unfold startsWith
  rw [Option.isSome_iff_exists]
  constructor
  · rintro ⟨rest, h⟩
    exact ⟨rest, eq_append_of_dropPrefix? h⟩
  · rintro ⟨rest, h⟩
    exact ⟨rest, by rw [h, dropPrefix?_append]⟩

end Completion

end ScriptShell

import ScriptShell.Proofs.Completion.Attachment
import ScriptShell.Proofs.Completion.Names
import ScriptShell.Proofs.Variables.Occurrence

/-!
Variables on offer. Behind a `$` a variable is asked for, whatever stands before it: no member access
and no path reaches over the sign. So a variable that has been tracked once can be completed from each
of its prefixes.
-/

namespace ScriptShell.Completion

open Text CompletionContext

section Dollar

variable {typed : List Char}

/-- Read backwards from the cursor, the typed part comes first and then the sign. -/
theorem reverse_dollar (text typed : List Char) :
    (text ++ '$' :: typed).reverse = typed.reverse ++ '$' :: text.reverse := by
  rw [List.reverse_append, List.reverse_cons, List.append_assoc, List.singleton_append]

/-- The sign ends every run of characters that it does not belong to. -/
theorem runs_dollar {p : Char → Bool} (hp : p '$' = false) (h : ∀ c ∈ typed, p c = true)
    (text : List Char) :
    (text ++ '$' :: typed).reverse.takeWhile p = typed.reverse ∧
      (text ++ '$' :: typed).reverse.dropWhile p = '$' :: text.reverse := by
  have hback : ∀ c ∈ typed.reverse, p c = true := fun c hc => h c (List.mem_reverse.mp hc)
  have hsign : ('$' :: text.reverse).head?.any p = false := hp
  rw [reverse_dollar, takeWhile_append_of_boundary _ hsign, dropWhile_append_of_boundary _ hsign,
    List.takeWhile_eq_self_iff.mpr hback, List.dropWhile_eq_nil_iff.mpr hback]
  exact ⟨rfl, rfl⟩

theorem cutWord_dollar (h : ∀ c ∈ typed, isIdentifier c = true) (text : List Char) :
    cutWord (text ++ '$' :: typed) = (text ++ ['$'], typed) := by
  obtain ⟨htake, hdrop⟩ := runs_dollar (by decide) h text
  unfold cutWord
  simp only [htake, hdrop, List.reverse_reverse, List.reverse_cons]

theorem wordBefore_dollar (h : ∀ c ∈ typed, isIdentifier c = true) (text : List Char) :
    wordBefore (text ++ '$' :: typed).reverse = '$' :: typed := by
  have hpart : ∀ c ∈ typed, isWordPart c = true := by
    intro c hc
    rw [isWordPart, h c hc, Bool.true_or]
  obtain ⟨htake, hdrop⟩ := runs_dollar (by decide) hpart text
  unfold wordBefore
  rw [htake, hdrop, List.reverse_reverse]
  rfl

/-- Behind a sign, with the start of a word at most, no member is asked for. -/
theorem accessed?_dollar (h : ∀ c ∈ typed, isWord c = true) (text : List Char) :
    accessed? (text ++ '$' :: typed).reverse = none := by
  rw [reverse_dollar]
  cases hback : typed.reverse with
  | nil => exact accessed?_cons (by decide) _
  | cons c back =>
    have hc : isWord c = true := by
      apply h
      rw [← List.mem_reverse, hback]
      exact List.mem_cons_self
    exact accessed?_cons (ne_of_isWord hc (by decide)) _

theorem started?_dollar (h : ∀ c ∈ typed, isWord c = true) (text : List Char) :
    started? (text ++ '$' :: typed).reverse = none := by
  have hattached : attached? (text ++ '$' :: typed).reverse = none := by
    rw [attached?, (runs_dollar (by decide) h text).2]
    rfl
  rw [started?_eq, hattached]
  split
  · rfl
  · rfl

theorem ofBefore_dollar (hword : ∀ c ∈ typed, isWord c = true)
    (hidentifier : ∀ c ∈ typed, isIdentifier c = true) (text : List Char) :
    ofBefore (text ++ '$' :: typed) typed = .variableName (String.ofList ('$' :: typed)) 1 := by
  rw [ofBefore_of_none (accessed?_dollar hword text) (started?_dollar hword text),
    wordBefore_dollar hidentifier text]
  have hstrip : byteLength ('$' :: typed) - byteLength typed = 1 := by
    change byteLength (['$'] ++ typed) - byteLength typed = 1
    rw [byteLength_append, Nat.add_sub_cancel]
    rfl
  unfold ofWord
  rw [hstrip]
  rfl

end Dollar

/-- A variable that occurs in a tracked text is on offer behind every `$`, whatever stands before the
sign and behind the cursor, and however much of the name has been typed. The editor replaces what has
been typed behind the sign. -/
theorem tracked_variable_offered {texts : List String} {text : String} (htext : text ∈ texts)
    {name typed : List Char} (hname : Variables.Occurs name text.toList)
    (hidentifier : ∀ c ∈ name, isIdentifier c = true) (htyped : typed <+: name) (m : Memory)
    (before after : List Char) :
    ∃ names, completeAt? { m with tracker := m.tracker.trackAll texts }
        (String.ofList (before ++ '$' :: typed ++ after)) (byteLength (before ++ '$' :: typed)) =
          some (byteLength before + 1, names) ∧
      String.ofList name ∈ names := by
  have hword (c : Char) (hc : c ∈ name) : isWord c = true := by
    obtain ⟨-, rest, -, -, rfl⟩ := hname
    exact List.mem_takeWhile_imp hc
  have htracked : (m.tracker.trackAll texts).contains (String.ofList ('$' :: name)) = true := by
    apply (Tracker.contains_trackAll _ _ _).mpr
    refine Or.inr ⟨text, htext, ?_⟩
    rw [Variables.extract_eq, NameSet.contains_ofList, List.mem_map]
    exact ⟨name, Variables.mem_named_iff_occurs.mpr hname, rfl⟩
  have hpart (c : Char) (hc : c ∈ typed) : c ∈ name := htyped.subset hc
  have hcut := cutWord_dollar (fun c hc => hidentifier c (hpart c hc)) before
  have hcontext := ofBefore_dollar (fun c hc => hword c (hpart c hc))
    (fun c hc => hidentifier c (hpart c hc)) before
  refine ⟨candidates { m with tracker := m.tracker.trackAll texts }
    (.variableName (String.ofList ('$' :: typed)) 1), ?_, ?_⟩
  · rw [completeAt?_append, hcut, hcontext, byteLength_append]
    rfl
  · apply (mem_candidates_of_word? rfl).mpr
    refine ⟨String.ofList ('$' :: name), ⟨htracked, ?_⟩, ?_⟩
    · obtain ⟨rest, rfl⟩ := htyped
      exact ⟨rest, by rw [String.toList_ofList, String.toList_ofList, List.cons_append]⟩
    · apply dropBytes?_eq_some_iff.mpr
      refine ⟨['$'], ?_, rfl⟩
      rw [String.toList_ofList, String.toList_ofList]
      rfl

/-- Within a member access, and with a name that a later text does not mention. -/
theorem tracked_variable_offered_in_access :
    let texts := ["foreach ($xs as $kéy => $v) f();", "g();"]
    let text := "foreach ($xs as $kéy => $v) f();"
    let m : Memory := {}
    text ∈ texts ∧ Variables.Occurs "kéy".toList text.toList ∧
      (∀ c ∈ "kéy".toList, isIdentifier c = true) ∧ "ké".toList <+: "kéy".toList ∧
      ∃ names, completeAt? { m with tracker := m.tracker.trackAll texts } "$o->$ké + 1" 8 =
        some (5, names) ∧ "kéy" ∈ names := by
  intro texts text m
  have htext : text ∈ texts := List.mem_cons_self
  have hname : Variables.Occurs "kéy".toList text.toList :=
    ⟨"foreach ($xs as ".toList, "kéy => $v) f();".toList, by decide, by decide +kernel,
      by decide⟩
  have hidentifier : ∀ c ∈ "kéy".toList, isIdentifier c = true :=
    List.all_eq_true.mp (by decide)
  have htyped : "ké".toList <+: "kéy".toList := ⟨['y'], by decide⟩
  exact ⟨htext, hname, hidentifier, htyped,
    tracked_variable_offered htext hname hidentifier htyped m "$o->".toList " + 1".toList⟩

end ScriptShell.Completion

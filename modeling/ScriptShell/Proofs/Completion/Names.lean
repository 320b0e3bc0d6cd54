import ScriptShell.Proofs.Completion.Cursor

/-!
Names on offer. Where a name is asked for, every name that fits the word at the cursor is offered,
without the part of it that the editor keeps, so that accepting a candidate spells the name.
-/

namespace ScriptShell

open Text

namespace Completion

/-- The name is known and fits the word: a variable that starts with it, or any other name whose
first bytes are the word but for the case of ASCII letters. -/
def Fits (m : Memory) : CompletionContext → String → Prop
  | .variableName word _, name =>
    m.tracker.contains name = true ∧ ∃ rest, name.toList = word.toList ++ rest
  | .globalName word _, name =>
    (name ∈ m.symbols.functions ∨ name ∈ keywords ∨ name ∈ m.symbols.classes ∨
      name ∈ m.aliases.shortNames) ∧
    ∃ head rest, name.toList = head ++ rest ∧ Alike head word.toList
  | _, _ => False

theorem startsWithIgnoringCase_iff {word name : String} :
    startsWithIgnoringCase word name = true ↔
      ∃ head rest, name.toList = head ++ rest ∧ Alike head word.toList := by
  unfold startsWithIgnoringCase
  constructor
  · intro h
    cases hs : splitAtByte? (byteLength word.toList) name.toList with
    | none =>
      rw [hs] at h
      exact absurd h Bool.false_ne_true
    | some cut =>
      obtain ⟨head, rest⟩ := cut
      rw [hs] at h
      exact ⟨head, rest, (splitAtByte?_eq_some_iff.mp hs).1, beq_iff_eq.mp h⟩
  · rintro ⟨head, rest, hname, halike⟩
    have hs : splitAtByte? (byteLength word.toList) name.toList = some (head, rest) :=
      splitAtByte?_eq_some_iff.mpr ⟨hname, halike.byteLength_eq⟩
    rw [hs]
    exact beq_iff_eq.mpr halike

theorem dropBytes?_eq_some_iff {n : Nat} {name c : String} :
    dropBytes? n name = some c ↔
      ∃ head, name.toList = head ++ c.toList ∧ byteLength head = n := by
  unfold dropBytes?
  rw [Option.map_eq_some_iff]
  constructor
  · rintro ⟨⟨head, rest⟩, hs, rfl⟩
    rw [String.toList_ofList]
    exact ⟨head, splitAtByte?_eq_some_iff.mp hs⟩
  · rintro ⟨head, hname, hlength⟩
    exact ⟨(head, c.toList), splitAtByte?_eq_some_iff.mpr ⟨hname, hlength⟩, String.ofList_toList⟩

/-- Where a name is asked for, the candidates are the names that fit, less what is stripped. -/
theorem mem_candidates_of_word? {m : Memory} {context : CompletionContext} {word : String}
    {strip : Nat} (h : context.word? = some (word, strip)) {c : String} :
    c ∈ candidates m context ↔ ∃ name, Fits m context name ∧ dropBytes? strip name = some c := by
  rw [mem_candidates]
  cases context with
  | memberOf object typed => exact absurd h nofun
  | empty => exact absurd h nofun
  | variableName w n =>
    obtain ⟨rfl, rfl⟩ := Prod.mk.inj (Option.some.inj h)
    apply exists_congr
    intro name
    have hpool : name ∈ pool m (.variableName w n) ↔ m.tracker.contains name = true :=
      NameSet.mem_names m.tracker.names name
    rw [hpool, Fits, ← startsWith_iff, candidate?, and_assoc]
    cases startsWith w name with
    | true => exact and_congr_right fun _ => ⟨fun hc => ⟨rfl, hc⟩, fun hc => hc.2⟩
    | false => exact and_congr_right fun _ => ⟨nofun, fun hc => absurd hc.1 nofun⟩
  | globalName w n =>
    obtain ⟨rfl, rfl⟩ := Prod.mk.inj (Option.some.inj h)
    apply exists_congr
    intro name
    have hpool : name ∈ pool m (.globalName w n) ↔
        (name ∈ m.symbols.functions ∨ name ∈ keywords ∨ name ∈ m.symbols.classes ∨
          name ∈ m.aliases.shortNames) := by
      simp only [pool, List.mem_append, or_assoc]
    rw [hpool, Fits, ← startsWithIgnoringCase_iff, candidate?, and_assoc]
    cases startsWithIgnoringCase w name with
    | true => exact and_congr_right fun _ => ⟨fun hc => ⟨rfl, hc⟩, fun hc => hc.2⟩
    | false => exact and_congr_right fun _ => ⟨nofun, fun hc => absurd hc.1 nofun⟩

/-- A name that fits the word has it at its front, but for the case of ASCII letters; a variable
has it there letter by letter. -/
theorem Fits.exists_head {m : Memory} {context : CompletionContext} {word : String} {strip : Nat}
    (h : context.word? = some (word, strip)) {name : String} (hf : Fits m context name) :
    ∃ head rest, name.toList = head ++ rest ∧ Alike head word.toList ∧
      ((∃ w n, context = .variableName w n) → head = word.toList) := by
  cases context with
  | memberOf object typed => exact hf.elim
  | empty => exact hf.elim
  | variableName w n =>
    obtain ⟨rfl, rfl⟩ := Prod.mk.inj (Option.some.inj h)
    obtain ⟨-, rest, hname⟩ := hf
    exact ⟨w.toList, rest, hname, .refl _, fun _ => rfl⟩
  | globalName w n =>
    obtain ⟨rfl, rfl⟩ := Prod.mk.inj (Option.some.inj h)
    obtain ⟨-, head, rest, hname, halike⟩ := hf
    refine ⟨head, rest, hname, halike, ?_⟩
    rintro ⟨w, n, he⟩
    exact absurd he nofun

/-- What is kept of the word is whole characters of every name that fits, so none is lost, and the
kept part with the rest of the name is the name but for the case of letters. -/
theorem Fits.spelled {m : Memory} {context : CompletionContext} {word : String} {strip : Nat}
    (h : context.word? = some (word, strip)) {kept typed : List Char}
    (hword : word.toList = kept ++ typed) {name : String} (hf : Fits m context name) :
    ∃ c, dropBytes? (byteLength kept) name = some c ∧
      AlikeUpTo (byteLength word.toList) (kept ++ c.toList) name.toList ∧
      ((∃ w n, context = .variableName w n) → kept ++ c.toList = name.toList) := by
  obtain ⟨head, rest, hname, halike, hexact⟩ := hf.exists_head h
  rw [hword] at halike hexact
  obtain ⟨first, second, rfl, hfirst, -⟩ := halike.of_append
  have hc : (String.ofList (second ++ rest)).toList = second ++ rest := String.toList_ofList
  have hsplit : name.toList = first ++ (second ++ rest) := by
    rw [hname, List.append_assoc]
  refine ⟨String.ofList (second ++ rest), ?_, ?_, ?_⟩
  · apply dropBytes?_eq_some_iff.mpr
    exact ⟨first, by rw [hc, hsplit], hfirst.byteLength_eq⟩
  · refine ⟨kept, first, second ++ rest, by rw [hc], hsplit, hfirst.symm, ?_⟩
    rw [hword, byteLength_append]
    omega
  · intro hvariable
    have hlength : first.length = kept.length := by
      have hmap := congrArg List.length hfirst
      rwa [List.length_map, List.length_map] at hmap
    have hsame : first = kept := (List.append_inj (hexact hvariable) hlength).1
    rw [hc, hsplit, hsame]

/-- At any cursor the editor is told where the identifier before it starts. Where a name is asked
for, the word to be completed stands right before the cursor and ends in that identifier; what is
stripped is the part of the word before the identifier, to the byte. The candidates ascend, and they
are exactly the names that fit, each without its first bytes; none is lost by stripping. So what the
editor keeps of the word, followed by a candidate, is the name, but for the case of ASCII letters in
the word; for a variable it is the name itself. -/
theorem candidates_spell_names (m : Memory) (before after : List Char) :
    let line := String.ofList (before ++ after)
    let pos := byteLength before
    ∃ start names typed, completeAt? m line pos = some (start, names) ∧
      slice? start pos line.toList = some typed ∧
      ∀ word strip, let context := CompletionContext.classify line pos (String.ofList typed)
        context.word? = some (word, strip) →
          strip ≤ start ∧ strip + (pos - start) = byteLength word.toList ∧
          slice? (start - strip) pos line.toList = some word.toList ∧
          names.Pairwise (· < ·) ∧
          (∀ c, c ∈ names ↔ ∃ name, Fits m context name ∧ dropBytes? strip name = some c) ∧
          ∃ kept, slice? (start - strip) start line.toList = some kept ∧
            ∀ name, Fits m context name → ∃ c, dropBytes? strip name = some c ∧
              AlikeUpTo (byteLength word.toList) (kept ++ c.toList) name.toList ∧
              ((∃ w n, context = .variableName w n) → kept ++ c.toList = name.toList) := by
  intro line pos
  have hline : line.toList = before ++ after := String.toList_ofList
  refine ⟨_, _, (cutWord before).2, completeAt?_append m before after, ?_, ?_⟩
  · rw [hline]
    exact slice?_cutWord before after
  intro word strip context hword
  have hcontext : context = .ofBefore before (cutWord before).2 := by
    rw [← String.toList_ofList (l := (cutWord before).2)]
    exact CompletionContext.classify_append before after _
  rw [hcontext] at hword ⊢
  obtain ⟨outer, kept, hfront, hsplit⟩ := wordBefore_eq before
  obtain ⟨hwordeq, hstrip⟩ := CompletionContext.word?_ofBefore hword
  have hbefore := cutWord_append before
  have hpos : pos = byteLength before := rfl
  generalize hctx : CompletionContext.ofBefore before (cutWord before).2 = ctx at hword ⊢
  generalize (cutWord before).1 = front at hfront hbefore ⊢
  generalize (cutWord before).2 = typed at hsplit hstrip hbefore ⊢
  rw [hsplit] at hwordeq hstrip
  rw [hfront] at hbefore ⊢
  have hkept : strip = byteLength kept := by
    rw [hstrip, byteLength_append]
    omega
  have hstart : byteLength (outer ++ kept) - strip = byteLength outer := by
    rw [hkept, byteLength_append]
    omega
  have hlengths : pos = byteLength outer + byteLength kept + byteLength typed := by
    rw [hpos, ← hbefore, byteLength_append, byteLength_append]
  refine ⟨?_, ?_, ?_, pairwise_candidates m ctx, fun c => mem_candidates_of_word? hword, kept, ?_,
    ?_⟩
  · rw [hkept, byteLength_append]
    omega
  · rw [hwordeq, hkept, hlengths, byteLength_append, byteLength_append]
    omega
  · have hslice := slice?_append outer (kept ++ typed) after
    have hend : byteLength outer + byteLength (kept ++ typed) = pos := by
      rw [hlengths, byteLength_append, Nat.add_assoc]
    rwa [hend, ← List.append_assoc, hbefore, ← hline, ← hwordeq, ← hstart] at hslice
  · have hslice := slice?_append outer kept (typed ++ after)
    rwa [← byteLength_append, ← List.append_assoc, hbefore, ← hline, ← hstart] at hslice
  · intro name hfits
    rw [hkept]
    exact hfits.spelled hword hwordeq

/-- A separator that is dropped, one that is kept, capitals elsewhere and a letter of two bytes. -/
theorem candidates_spell_names_qualified :
    let m : Memory := { symbols := { functions := ["App\\mö"], classes := ["App\\Möbel"] } }
    let before := "new \\aPp\\mö".toList
    let line := String.ofList (before ++ " + 1".toList)
    let context := CompletionContext.classify line (byteLength before) "mö"
    completeAt? m line (byteLength before) = some (9, ["Möbel", "mö"]) ∧
    context.word? = some ("aPp\\mö", 4) ∧
    slice? (9 - 4) (byteLength before) line.toList = some "aPp\\mö".toList ∧
    ∀ c, c ∈ ["Möbel", "mö"] ↔ ∃ name, Fits m context name ∧ dropBytes? 4 name = some c := by
  intro m before line context
  have hanswer : completeAt? m line (byteLength before) = some (9, ["Möbel", "mö"]) := by
    decide +kernel
  have hslice : slice? 9 (byteLength before) line.toList = some "mö".toList := by decide +kernel
  have hword : context.word? = some ("aPp\\mö", 4) := by decide +kernel
  obtain ⟨start, names, typed, hcomplete, htyped, h⟩ :=
    candidates_spell_names m before " + 1".toList
  obtain ⟨rfl, rfl⟩ := Prod.mk.inj (Option.some.inj (hcomplete.symm.trans hanswer))
  obtain rfl := Option.some.inj (htyped.symm.trans hslice)
  obtain ⟨-, -, hspelled, -, hnames, -⟩ := h "aPp\\mö" 4 hword
  exact ⟨hanswer, hword, hspelled, hnames⟩

end Completion

end ScriptShell

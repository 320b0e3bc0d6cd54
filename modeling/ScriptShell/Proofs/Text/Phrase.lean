import ScriptShell.Proofs.Text.Words

/-!
Texts as words with marks between them. Both are taken as long as they go, so that every text is
some marks and then a phrase, in which only the last word may have no mark after it.
-/

namespace ScriptShell

open Text

/-- Words, each with the marks that stand after it. -/
abbrev Phrase := List (List Char × List Char)

/-- None of the characters is one of a word. -/
def IsMarks (cs : List Char) : Prop := ∀ c ∈ cs, isWord c = false

theorem IsMarks.of_all {cs : List Char} (h : (cs.all fun c => !isWord c) = true) : IsMarks cs :=
  fun c hc => (Bool.not_eq_true' _).mp (List.all_eq_true.mp h c hc)

theorem IsMarks.of_spaces {cs : List Char} (h : ∀ c ∈ cs, isSpace c = true) : IsMarks cs :=
  fun c hc => not_isWord_of_isSpace (h c hc)

theorem IsMarks.of_append {a b : List Char} (h : IsMarks (a ++ b)) : IsMarks a ∧ IsMarks b :=
  ⟨fun c hc => h c (List.mem_append_left b hc), fun c hc => h c (List.mem_append_right a hc)⟩

theorem IsMarks.head?_append {cs : List Char} (h : IsMarks cs) (hne : cs ≠ []) (rest : List Char) :
    (cs ++ rest).head?.any isWord = false := by
  obtain ⟨c, tail, rfl⟩ := List.exists_cons_of_ne_nil hne
  exact h c List.mem_cons_self

theorem IsMarks.head? {cs : List Char} (h : IsMarks cs) : cs.head?.any isWord = false := by
  cases cs with
  | nil => rfl
  | cons c cs => exact h c List.mem_cons_self

/-- A word: word characters, and at least one of them. -/
def IsRun (cs : List Char) : Prop := cs ≠ [] ∧ ∀ c ∈ cs, isWord c = true

namespace IsRun

variable {cs : List Char}

theorem head? (h : IsRun cs) (rest : List Char) : ∃ c tail, cs ++ rest = c :: tail ∧
    isWord c = true := by
  obtain ⟨c, tail, rfl⟩ := List.exists_cons_of_ne_nil h.1
  exact ⟨c, tail ++ rest, rfl, h.2 c List.mem_cons_self⟩

theorem head?_append (h : IsRun cs) (rest : List Char) :
    (cs ++ rest).head?.any (fun c => !isWord c) = false := by
  obtain ⟨c, tail, htext, hc⟩ := h.head? rest
  rw [htext, List.head?_cons, Option.any_some, hc]
  rfl

theorem getLast? (h : IsRun cs) : cs.getLast?.any isWord = true := by
  rw [List.getLast?_eq_some_getLast h.1]
  exact h.2 _ (List.getLast_mem h.1)

end IsRun

/-- A text that starts with a word is not all marks. -/
theorem IsRun.not_isMarks {cs : List Char} (h : IsRun cs) (rest : List Char) :
    ¬IsMarks (cs ++ rest) := by
  intro hmarks
  obtain ⟨c, tail, htext, hc⟩ := h.head? rest
  rw [htext] at hmarks
  exact absurd (hc.symm.trans (hmarks c List.mem_cons_self)) nofun

/-- There are no marks in front of a text that starts with a word. -/
theorem IsMarks.eq_nil_of_append {a b word rest : List Char} (ha : IsMarks a) (hword : IsRun word)
    (h : a ++ b = word ++ rest) : a = [] := by
  cases a with
  | nil => rfl
  | cons c a =>
    obtain ⟨d, tail, htext, hd⟩ := hword.head? rest
    rw [htext] at h
    rw [← (List.cons.inj h).1] at hd
    exact absurd (hd.symm.trans (ha c List.mem_cons_self)) nofun

/-- Two cuts of a text behind its first characters of one kind are the same. -/
theorem Text.append_inj_of_forall {p : Char → Bool} {a a' b b' : List Char}
    (heq : a ++ b = a' ++ b') (ha : ∀ c ∈ a, p c = true) (ha' : ∀ c ∈ a', p c = true)
    (hb : b.head?.any p = false) (hb' : b'.head?.any p = false) : a = a' ∧ b = b' := by
  have hfirst : a = a' := by
    calc a = (a ++ b).takeWhile p := by
          rw [takeWhile_append_of_boundary a hb, List.takeWhile_eq_self_iff.mpr ha]
      _ = a' := by rw [heq, takeWhile_append_of_boundary a' hb', List.takeWhile_eq_self_iff.mpr ha']
  rw [hfirst] at heq
  exact ⟨hfirst, List.append_cancel_left heq⟩

/-- The same for cuts behind the marks that a text starts with. -/
theorem IsMarks.append_inj {a a' b b' : List Char} (ha : IsMarks a) (ha' : IsMarks a')
    (heq : a ++ b = a' ++ b') (hb : b.head?.any (fun c => !isWord c) = false)
    (hb' : b'.head?.any (fun c => !isWord c) = false) : a = a' ∧ b = b' := by
  have hmark {a : List Char} (ha : IsMarks a) : ∀ c ∈ a, (!isWord c) = true :=
    fun c hc => (Bool.not_eq_true' _).mpr (ha c hc)
  exact append_inj_of_forall heq (hmark ha) (hmark ha') hb hb'

/-- Where two cuts of a text are: the second one in the first part, or behind it. -/
theorem Text.append_cases {a b a' b' : List Char} (h : a ++ b = a' ++ b') :
    (∃ tail, tail ≠ [] ∧ a = a' ++ tail ∧ b' = tail ++ b) ∨ ∃ mid, a' = a ++ mid ∧ b = mid ++ b' := by
  rcases List.append_eq_append_iff.mp h with ⟨mid, ha', hb⟩ | ⟨tail, ha, hb'⟩
  · exact Or.inr ⟨mid, ha', hb⟩
  · by_cases htail : tail = []
    · rw [htail, List.append_nil] at ha
      rw [htail, List.nil_append] at hb'
      exact Or.inr ⟨[], by rw [ha, List.append_nil], hb'.symm⟩
    · exact Or.inl ⟨tail, htail, ha, hb'⟩

namespace Text

variable {tail : List Char}

theorem head?_append_eq_some_iff {c : Char} (hc : isWord c = false) (cs : List Char)
    (htail : tail.head?.any (fun c => !isWord c) = false) :
    (cs ++ tail).head? = some c ↔ cs.head? = some c := by
  cases cs with
  | cons d cs => rfl
  | nil =>
    refine iff_of_false (fun h => ?_) nofun
    obtain ⟨rest, rfl⟩ := List.head?_eq_some_iff.mp h
    rw [List.head?_cons, Option.any_some, hc] at htail
    exact absurd htail nofun

theorem isSome_dropPrefix?_append {start : List Char} (hstart : IsMarks start) (cs : List Char)
    (htail : tail.head?.any (fun c => !isWord c) = false) :
    (dropPrefix? start (cs ++ tail)).isSome = (dropPrefix? start cs).isSome := by
  induction start generalizing cs with
  | nil => rfl
  | cons d start ih =>
    obtain ⟨hd, hstart⟩ := List.forall_mem_cons.mp hstart
    cases cs with
    | nil =>
      cases tail with
      | nil => rfl
      | cons c tail =>
        have hne : d ≠ c := by
          rintro rfl
          rw [List.head?_cons, Option.any_some, hd] at htail
          exact absurd htail nofun
        have hnone : dropPrefix? (d :: start) (c :: tail) = none := by rw [dropPrefix?, if_neg hne]
        rw [List.nil_append, hnone]
        rfl
    | cons c cs =>
      rw [List.cons_append, dropPrefix?, dropPrefix?]
      split
      · exact ih hstart cs
      · rfl

end Text

namespace Phrase

def text (ps : Phrase) : List Char := ps.flatMap fun p => p.1 ++ p.2

theorem text_cons (word marks : List Char) (ps : Phrase) :
    text ((word, marks) :: ps) = word ++ (marks ++ text ps) := by
  unfold text
  rw [List.flatMap_cons, List.append_assoc]

/-- The phrase is cut into words and marks that are as long as they can be. -/
inductive IsCut : Phrase → Prop
  | done : IsCut []
  | word {word marks : List Char} {ps : Phrase} (run : IsRun word) (isMarks : IsMarks marks)
      (apart : marks = [] → ps = []) (rest : IsCut ps) : IsCut ((word, marks) :: ps)

variable {word marks : List Char} {ps : Phrase}

/-- A phrase starts with a word, unless it is empty. -/
theorem IsCut.head?_text (h : IsCut ps) : (text ps).head?.any (fun c => !isWord c) = false := by
  cases h with
  | done => rfl
  | word run _ _ _ =>
    rw [text_cons]
    exact run.head?_append _

/-- What follows a word of a phrase does not go on with it. -/
theorem head?_marks_text (hmarks : IsMarks marks) (apart : marks = [] → ps = []) :
    (marks ++ text ps).head?.any isWord = false := by
  cases marks with
  | nil =>
    rw [apart rfl]
    rfl
  | cons c marks => exact hmarks c List.mem_cons_self

/-- A word that the text of a phrase starts with is its first word. -/
theorem IsCut.first_eq (h : IsCut ps) (hword : IsRun word) {tail : List Char}
    (htext : text ps = word ++ tail) (htail : tail.head?.any isWord = false) :
    ∃ marks rest, ps = (word, marks) :: rest ∧ tail = marks ++ text rest := by
  cases h with
  | done =>
    exact absurd (List.append_eq_nil_iff.mp htext.symm).1 hword.1
  | @word first marks rest run isMarks apart _ =>
    rw [text_cons] at htext
    obtain ⟨rfl, hmarks⟩ := append_inj_of_forall htext run.2 hword.2
      (head?_marks_text isMarks apart) htail
    exact ⟨marks, rest, rfl, hmarks.symm⟩

/-- Every text is some marks and a phrase. -/
theorem exists_isCut (cs : List Char) :
    ∃ marks ps, cs = marks ++ text ps ∧ IsMarks marks ∧ IsCut ps := by
  induction cs with
  | nil => exact ⟨[], [], rfl, nofun, .done⟩
  | cons c cs ih =>
    obtain ⟨marks, ps, hcs, hmarks, hcut⟩ := ih
    by_cases hc : isWord c = true
    · have hone : IsRun [c] := ⟨List.cons_ne_nil c [], List.forall_mem_singleton.mpr hc⟩
      by_cases hnil : marks = []
      · cases hcut with
        | done =>
          refine ⟨[], [([c], marks)], ?_, nofun, .word hone hmarks (fun _ => rfl) .done⟩
          rw [hcs, hnil]
          rfl
        | @word first after ps run isMarks apart rest =>
          have hrun : IsRun (c :: first) :=
            ⟨List.cons_ne_nil c first, List.forall_mem_cons.mpr ⟨hc, run.2⟩⟩
          refine ⟨[], (c :: first, after) :: ps, ?_, nofun, .word hrun isMarks apart rest⟩
          rw [hcs, hnil]
          rfl
      · refine ⟨[], ([c], marks) :: ps, ?_, nofun, .word hone hmarks (absurd · hnil) hcut⟩
        rw [hcs]
        rfl
    · refine ⟨c :: marks, ps, congrArg (c :: ·) hcs, ?_, hcut⟩
      exact List.forall_mem_cons.mpr ⟨Bool.eq_false_iff.mpr hc, hmarks⟩

end Phrase

end ScriptShell

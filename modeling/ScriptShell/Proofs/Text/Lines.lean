import ScriptShell.Proofs.Text.Pieces
import ScriptShell.Proofs.Text.White

/-!
The lines of a text. A line is a piece between newlines without the carriage return that belongs to
its ending, so the endings alone tell the lines; what is cut off is white space, and lines that are
joined by newlines are the lines of the text that they form.
-/

namespace ScriptShell.Text

/-- A line keeps all of its piece but the carriage return that belongs to the ending. -/
theorem eq_dropReturn_append (cs : List Char) :
    ∃ ending, cs = dropReturn cs ++ ending ∧ (ending = [] ∨ ending = ['\r']) := by
  unfold dropReturn dropSuffix?
  cases hd : dropPrefix? ['\r'].reverse cs.reverse with
  | none => exact ⟨[], (List.append_nil cs).symm, Or.inl rfl⟩
  | some rest =>
    refine ⟨['\r'], ?_, Or.inr rfl⟩
    have hreverse := congrArg List.reverse (eq_append_of_dropPrefix? hd)
    rw [List.reverse_reverse, List.reverse_append, List.reverse_reverse] at hreverse
    exact hreverse

/-- The last character is the same, whatever stands before it. -/
theorem dropReturn_cons {cs : List Char} (hne : cs ≠ []) (c : Char) :
    dropReturn (c :: cs) = c :: dropReturn cs := by
  unfold dropReturn dropSuffix?
  cases hr : cs.reverse with
  | nil => exact absurd (List.reverse_eq_nil_iff.mp hr) hne
  | cons d back =>
    have hmore : (c :: cs).reverse = d :: (back ++ [c]) := by
      rw [List.reverse_cons, hr, List.cons_append]
    rw [hmore]
    simp only [List.reverse_singleton, dropPrefix?]
    split
    · rw [Option.map_some, Option.map_some, Option.getD_some, Option.getD_some,
        List.reverse_concat]
    · rfl

theorem trim_dropReturn (cs : List Char) : trim (dropReturn cs) = trim cs := by
  obtain ⟨ending, hcs, rfl | rfl⟩ := eq_dropReturn_append cs
  · rw [List.append_nil] at hcs
    rw [← hcs]
  · have htrim := trim_concat (dropReturn cs) (c := '\r') (by decide)
    rw [← hcs] at htrim
    exact htrim.symm

/-- A text is its closed lines and what stands behind the last newline. -/
theorem exists_last_line (cs : List Char) :
    ∃ a b, cs = a ++ b ∧ Closed '\n' a ∧ '\n' ∉ b := by
  refine ⟨(cs.reverse.dropWhile (· != '\n')).reverse, (cs.reverse.takeWhile (· != '\n')).reverse,
    List.rdropWhile_append_rtakeWhile.symm, ?_, fun hm => ?_⟩
  · have hhead := List.head?_dropWhile_not (· != '\n') cs.reverse
    cases hd : cs.reverse.dropWhile (· != '\n') with
    | nil => exact closed_nil
    | cons c rest =>
      rw [hd] at hhead
      have hc : c = '\n' := by simpa using hhead
      rw [List.reverse_cons, hc]
      exact closed_concat _
  · have hne := List.mem_takeWhile_imp (List.mem_reverse.mp hm)
    exact bne_iff_ne.mp hne rfl

theorem lines_append {a : List Char} (ha : Closed '\n' a) (b : List Char) :
    lines (a ++ b) = lines a ++ lines b := by
  unfold lines
  rw [pieces_append ha, List.map_append]

theorem lines_append_newline {a : List Char} (ha : '\n' ∉ a) (b : List Char) :
    lines (a ++ '\n' :: b) = dropReturn a :: lines b := by
  unfold lines
  rw [pieces_line ha]
  rfl

theorem lines_of_not_mem {a : List Char} (ha : '\n' ∉ a) (hne : a ≠ []) : lines a = [a] := by
  have hpieces := pieces_append_of_not_mem ha hne []
  rw [List.append_nil] at hpieces
  unfold lines
  rw [hpieces]
  rfl

/-- A text is one line, or a line, its ending and the lines of the rest. -/
theorem lines_cases (cs : List Char) : cs = [] ∨ ('\n' ∉ cs ∧ lines cs = [cs]) ∨
    ∃ line ending rest, cs = line ++ (ending ++ '\n' :: rest) ∧ lines cs = line :: lines rest ∧
      (ending = [] ∨ ending = ['\r']) ∧ '\n' ∉ line := by
  by_cases hnil : cs = []
  · exact Or.inl hnil
  · refine Or.inr ?_
    by_cases hn : '\n' ∈ cs
    · obtain ⟨a, b, rfl, ha⟩ := List.eq_append_cons_of_mem hn
      obtain ⟨ending, hcut, hend⟩ := eq_dropReturn_append a
      have hline : '\n' ∉ dropReturn a := by
        rw [hcut, List.mem_append, not_or] at ha
        exact ha.1
      refine Or.inr ⟨dropReturn a, ending, b, ?_, lines_append_newline ha b, hend, hline⟩
      rw [← List.append_assoc, ← hcut]
    · exact Or.inl ⟨hn, lines_of_not_mem hn hnil⟩

theorem not_mem_of_mem_lines {cs line : List Char} (h : line ∈ lines cs) : '\n' ∉ line := by
  induction hlen : cs.length using Nat.strongRecOn generalizing cs with
  | ind len ih =>
    rcases lines_cases cs with rfl | ⟨hn, hone⟩ | ⟨first, ending, rest, hcs, hmore, -, hn⟩
    · exact absurd h List.not_mem_nil
    · rw [hone] at h
      rw [List.mem_singleton.mp h]
      exact hn
    · rw [hmore] at h
      rcases List.mem_cons.mp h with rfl | h
      · exact hn
      · refine ih rest.length ?_ h rfl
        rw [← hlen, hcs, List.length_append, List.length_append, List.length_cons]
        omega

/-- The lines of a text by their endings. A newline ends a line, together with one carriage return
right before it; behind the last newline stands a line if anything does. -/
inductive AreLines : List Char → List (List Char) → Prop
  | nil : AreLines [] []
  | last {line : List Char} (hne : line ≠ []) (hn : '\n' ∉ line) : AreLines line [line]
  | newline {line rest : List Char} {more : List (List Char)} (hn : '\n' ∉ line)
      (hr : line.getLast? ≠ some '\r') (behind : AreLines rest more) :
      AreLines (line ++ '\n' :: rest) (line :: more)
  | returnNewline {line rest : List Char} {more : List (List Char)} (hn : '\n' ∉ line)
      (behind : AreLines rest more) : AreLines (line ++ '\r' :: '\n' :: rest) (line :: more)

theorem dropReturn_concat (cs : List Char) : dropReturn (cs ++ ['\r']) = cs := by
  unfold dropReturn
  rw [dropSuffix?_append]
  rfl

theorem dropReturn_eq_self_iff {cs : List Char} :
    dropReturn cs = cs ↔ cs.getLast? ≠ some '\r' := by
  constructor
  · intro h hlast
    obtain ⟨front, rfl⟩ := List.getLast?_eq_some_iff.mp hlast
    rw [dropReturn_concat] at h
    have hlen := congrArg List.length h
    rw [List.length_append, List.length_singleton] at hlen
    omega
  · intro h
    obtain ⟨ending, hcs, rfl | rfl⟩ := eq_dropReturn_append cs
    · rw [List.append_nil] at hcs
      exact hcs.symm
    · rw [hcs, List.getLast?_concat] at h
      exact absurd rfl h

theorem areLines_lines (cs : List Char) : AreLines cs (lines cs) := by
  induction hlen : cs.length using Nat.strongRecOn generalizing cs with
  | ind len ih =>
    rcases lines_cases cs with rfl | ⟨hn, hone⟩ | ⟨line, ending, rest, rfl, hmore, hend, hn⟩
    · exact .nil
    · rw [hone]
      cases cs with
      | nil => exact absurd hone nofun
      | cons c cs => exact .last (List.cons_ne_nil c cs) hn
    · have hrest : AreLines rest (lines rest) := by
        refine ih rest.length ?_ rest rfl
        rw [← hlen, List.length_append, List.length_append, List.length_cons]
        omega
      rw [hmore]
      rcases hend with rfl | rfl
      · rw [List.nil_append, lines_append_newline hn] at hmore
        exact .newline hn (dropReturn_eq_self_iff.mp (List.cons.inj hmore).1) hrest
      · exact .returnNewline hn hrest

/-- No text has other lines than those that it is cut into. -/
theorem areLines_iff {cs : List Char} {texts : List (List Char)} :
    AreLines cs texts ↔ texts = lines cs := by
  constructor
  · intro h
    induction h with
    | nil => rfl
    | last hne hn => rw [lines_of_not_mem hn hne]
    | newline hn hr _ ih => rw [lines_append_newline hn, dropReturn_eq_self_iff.mpr hr, ih]
    | @returnNewline line rest more hn _ ih =>
      have hreturn : '\n' ∉ line ++ ['\r'] := by
        rw [List.mem_append, not_or]
        exact ⟨hn, by decide⟩
      have hcs : line ++ '\r' :: '\n' :: rest = (line ++ ['\r']) ++ '\n' :: rest := by
        rw [List.append_assoc]
        rfl
      rw [hcs, lines_append_newline hreturn, dropReturn_concat, ih]
  · intro h
    rw [h]
    exact areLines_lines cs

/-- What is read off the lines of a text, where line endings and an empty line tell nothing. -/
theorem filterMap_lines_intercalate {α : Type} {f : List Char → Option α}
    (hf : ∀ line, f (dropReturn line) = f line) (hnil : f [] = none) {texts : List (List Char)}
    (h : ∀ text ∈ texts, '\n' ∉ text) :
    (lines (['\n'].intercalate texts)).filterMap f = texts.filterMap f := by
  induction texts with
  | nil => rfl
  | cons text texts ih =>
    obtain ⟨htext, htexts⟩ := List.forall_mem_cons.mp h
    cases texts with
    | nil =>
      rw [List.intercalate_singleton]
      by_cases hne : text = []
      · rw [hne, List.filterMap_cons_none hnil]
        rfl
      · rw [lines_of_not_mem htext hne]
    | cons next texts =>
      rw [List.intercalate_cons_cons, List.append_assoc, List.singleton_append,
        lines_append_newline htext, List.filterMap_cons, List.filterMap_cons, hf, ih htexts]

end ScriptShell.Text

import ScriptShell.Proofs.Statement.Closure

/-!
What lines leave open, told from running totals. The newline behind a line parts a backslash at its
end from a quote at the start of the next, so each line adds the brackets and quotes that it has by
itself. The closing check needs five totals and no text, and the order of the lines makes no
difference to it.
-/

namespace ScriptShell

/-! ## Line by line -/

/-- Behind a newline quotes are counted afresh. -/
theorem countUnescapedFrom_append_newline {quote : Char} (hq : quote ≠ '\n') (prev : Option Char)
    (a b : List Char) :
    countUnescapedFrom quote prev (a ++ '\n' :: b) =
      countUnescapedFrom quote prev a + countUnescaped quote b := by
  induction a generalizing prev with
  | nil =>
    have hnewline : some '\n' ≠ some '\\' := by decide
    have hnone : none ≠ some '\\' := nofun
    have hskip : ¬('\n' = quote ∧ prev ≠ some '\\') := fun h => hq h.1.symm
    calc countUnescapedFrom quote prev ('\n' :: b)
      _ = countUnescapedFrom quote (some '\n') b := by
        rw [countUnescapedFrom, if_neg hskip, Nat.zero_add]
      _ = countUnescaped quote b := countUnescapedFrom_congr quote hnewline hnone b
      _ = 0 + countUnescaped quote b := (Nat.zero_add _).symm
  | cons c a ih =>
    rw [List.cons_append, countUnescapedFrom, countUnescapedFrom, ih, Nat.add_assoc]

theorem countUnescaped_append_newline {quote : Char} (hq : quote ≠ '\n') (a b : List Char) :
    countUnescaped quote (a ++ '\n' :: b) = countUnescaped quote a + countUnescaped quote b :=
  countUnescapedFrom_append_newline hq none a b

theorem Balance.of_append_newline (a b : List Char) : of (a ++ '\n' :: b) = of a + of b := by
  have hnewline : of ('\n' :: b) = of b := zero_add (of b)
  rw [of_append, hnewline]

theorem toList_gathered_cons (line : String) (texts : List String) :
    (gathered (line :: texts)).toList = line.toList ++ '\n' :: (gathered texts).toList := by
  rw [gathered_cons, String.toList_append, String.toList_append, List.append_assoc]
  rfl

/-! ## The totals -/

/-- Opening minus closing brackets of each kind, and for each kind of quote whether the unescaped
ones are odd in number. -/
structure Totals where
  balance : Balance
  oddSingle : Bool
  oddDouble : Bool
deriving DecidableEq, Repr

namespace Totals

instance : Zero Totals := ⟨⟨0, false, false⟩⟩

instance : Add Totals :=
  ⟨fun s t => ⟨s.balance + t.balance, s.oddSingle ^^ t.oddSingle, s.oddDouble ^^ t.oddDouble⟩⟩

/-- The totals of a text by itself. -/
def of (cs : List Char) : Totals :=
  ⟨Balance.of cs, countUnescaped '\'' cs % 2 == 1, countUnescaped '"' cs % 2 == 1⟩

/-- Nothing is open by these totals. -/
def closed (t : Totals) (mode : Closing) : Bool :=
  !t.balance.anyOpen &&
    match mode with
    | .bracketsOnly => true
    | .bracketsAndQuotes => !t.oddSingle && !t.oddDouble

/-- The totals after each line has added its own. -/
def running (texts : List String) : Totals := texts.foldl (fun t line => t + of line.toList) 0

@[ext] theorem ext {s t : Totals} (hb : s.balance = t.balance)
    (hs : s.oddSingle = t.oddSingle) (hd : s.oddDouble = t.oddDouble) : s = t := by
  cases s
  cases t
  simp_all

theorem zero_add (t : Totals) : 0 + t = t := by
  ext1
  · exact Balance.zero_add t.balance
  · exact Bool.false_xor t.oddSingle
  · exact Bool.false_xor t.oddDouble

theorem add_assoc (s t u : Totals) : s + t + u = s + (t + u) := by
  ext1
  · exact Balance.add_assoc s.balance t.balance u.balance
  · exact Bool.xor_assoc s.oddSingle t.oddSingle u.oddSingle
  · exact Bool.xor_assoc s.oddDouble t.oddDouble u.oddDouble

theorem add_comm (s t : Totals) : s + t = t + s := by
  ext1
  · ext
    · exact Int.add_comm s.balance.braces t.balance.braces
    · exact Int.add_comm s.balance.brackets t.balance.brackets
    · exact Int.add_comm s.balance.parens t.balance.parens
  · exact Bool.xor_comm s.oddSingle t.oddSingle
  · exact Bool.xor_comm s.oddDouble t.oddDouble

theorem add_right_comm (s t u : Totals) : s + t + u = s + u + t := by
  rw [add_assoc, add_comm t u, ← add_assoc]

/-- Two lines have the totals of the one and the totals of the other. -/
theorem of_append_newline (a b : List Char) : of (a ++ '\n' :: b) = of a + of b := by
  have hparity (m n : Nat) : ((m + n) % 2 == 1) = ((m % 2 == 1) ^^ (n % 2 == 1)) := by
    rcases Nat.mod_two_eq_zero_or_one m with hm | hm <;>
      rcases Nat.mod_two_eq_zero_or_one n with hn | hn <;> simp [Nat.add_mod, hm, hn]
  ext1
  · exact Balance.of_append_newline a b
  · unfold of
    dsimp only
    rw [countUnescaped_append_newline (by decide)]
    exact hparity _ _
  · unfold of
    dsimp only
    rw [countUnescaped_append_newline (by decide)]
    exact hparity _ _

theorem running_concat (texts : List String) (line : String) :
    running (texts ++ [line]) = running texts + of line.toList := by
  rw [running, List.foldl_append]
  rfl

/-- The totals of the text that lines form are the running totals over the lines. -/
theorem of_gathered (texts : List String) : of (gathered texts).toList = running texts := by
  have key (t : Totals) :
      t + of (gathered texts).toList = texts.foldl (fun t line => t + of line.toList) t := by
    induction texts generalizing t with
    | nil => exact (add_comm t 0).trans (zero_add t)
    | cons line texts ih =>
      rw [toList_gathered_cons, of_append_newline, ← add_assoc, ih, List.foldl_cons]
  rw [running, ← key 0, zero_add]

/-- Lines add up to the same in any order. -/
theorem running_eq_of_perm {texts others : List String} (h : texts.Perm others) :
    running texts = running others :=
  h.foldl_eq' (fun _ _ _ _ t => add_right_comm t _ _) 0

/-- The check looks at no more than the totals. -/
theorem closed_of (mode : Closing) (cs : List Char) : (of cs).closed mode = mode.closed cs := by
  have heven (n : Nat) : (!(n % 2 == 1)) = (n % 2 == 0) := by
    rcases Nat.mod_two_eq_zero_or_one n with hn | hn <;> simp [hn]
  unfold closed Closing.closed of
  cases mode with
  | bracketsOnly => rfl
  | bracketsAndQuotes =>
    dsimp only
    rw [heven, heven]

end Totals

/-- Whether lines leave nothing open, each of them closed by a newline, is told by adding up their
totals, each line taken by itself. So the order of the lines does not matter, and a further line is
not enough for a buffer exactly if its totals leave something open together with the running ones.
The lines are any texts: they may end in a backslash or have newlines in them. -/
theorem closed_gathered_eq_running (mode : Closing) (texts : List String) :
    mode.closed (gathered texts).toList = (Totals.running texts).closed mode ∧
    (∀ others : List String, texts.Perm others →
      mode.closed (gathered others).toList = mode.closed (gathered texts).toList) ∧
    ∀ line, ((StatementBuffer.holding mode texts).feed line).1 = .incomplete ↔
      (Totals.running texts + Totals.of line.toList).closed mode = false := by
  have hclosed (texts : List String) :
      mode.closed (gathered texts).toList = (Totals.running texts).closed mode := by
    rw [← Totals.closed_of, Totals.of_gathered]
  refine ⟨hclosed texts, fun others h => ?_, fun line => ?_⟩
  · rw [hclosed, hclosed, Totals.running_eq_of_perm h]
  · rw [StatementBuffer.feed_eq_incomplete_iff, ← Closing.closed_eq_false_iff, hclosed,
      Totals.running_concat]

/-- A backslash at the end of a line escapes no quote on the next one, as a quote right behind it
would be. -/
example : (Totals.running ["f('a\\", "');"]).closed .bracketsAndQuotes = true ∧
    Closing.bracketsAndQuotes.closed "f('a\\');\n".toList = false := by decide

end ScriptShell

import ScriptShell.Proofs.Alias.Respelling
import ScriptShell.Proofs.Variables.Occurrence
import ScriptShell.Statement.Balance
import ScriptShell.Statement.Expression

/-!
What no rewriting of names shows to: brackets, quotes, variables and the way a unit ends. Names hold
none of the characters that these look at, and none is next to one that matters to them.
-/

namespace ScriptShell

open Text Variables

theorem Balance.of_eq_zero {cs : List Char} (h : ∀ c ∈ cs, ofChar c = 0) : of cs = 0 := by
  induction cs with
  | nil => rfl
  | cons c cs ih =>
    obtain ⟨hc, hcs⟩ := List.forall_mem_cons.mp h
    rw [of, hc, ih hcs]
    rfl

/-- A bracket is no part of a name. -/
theorem Balance.ofChar_eq_zero {c : Char} (h : isWord c = true ∨ c = '\\') : ofChar c = 0 := by
  have hne (d : Char) (hd : isWord d = false) (hs : d ≠ '\\') : c ≠ d := by
    rcases h with h | h
    · exact ne_of_isWord h hd
    · exact fun he => hs (he.symm.trans h)
  unfold ofChar
  split
  · exact absurd rfl (hne '{' (by decide) (by decide))
  · exact absurd rfl (hne '}' (by decide) (by decide))
  · exact absurd rfl (hne '[' (by decide) (by decide))
  · exact absurd rfl (hne ']' (by decide) (by decide))
  · exact absurd rfl (hne '(' (by decide) (by decide))
  · exact absurd rfl (hne ')' (by decide) (by decide))
  · rfl

theorem countUnescapedFrom_append (quote : Char) (prev : Option Char) (a b : List Char) :
    countUnescapedFrom quote prev (a ++ b) =
      countUnescapedFrom quote prev a + countUnescapedFrom quote (lastOr prev a) b := by
  induction a generalizing prev with
  | nil => exact (Nat.zero_add _).symm
  | cons c a ih =>
    rw [List.cons_append, countUnescapedFrom, countUnescapedFrom, ih, Nat.add_assoc]
    rfl

/-- Wrapping always shows: a unit that stays as it is was not wrapped. -/
theorem wrapExpression_eq_self_iff (unit : String) :
    wrapExpression unit = unit ↔ endsStatement unit = true := by
  unfold wrapExpression
  split
  · next h => exact ⟨fun _ => h, fun _ => rfl⟩
  · next h =>
    refine ⟨fun he => ?_, fun he => absurd he h⟩
    have hlen := congrArg String.length he
    rw [String.length_append, String.length_append] at hlen
    have hwrap : "return (".length = 8 := rfl
    omega

namespace Respelled

variable {short full a b : List Char} {prev : Option Char}

theorem of_eq (hs : IsName short) (hf : IsQualified full) (h : Respelled short full prev a b) :
    Balance.of b = Balance.of a := by
  have hshort : Balance.of short = 0 :=
    Balance.of_eq_zero fun c hc => Balance.ofChar_eq_zero (Or.inl (hs.isWord c hc))
  have hfull : Balance.of full = 0 :=
    Balance.of_eq_zero fun c hc => Balance.ofChar_eq_zero (hf.isWord_or c hc)
  induction h with
  | done => rfl
  | keep _ ih => rw [Balance.of, Balance.of, ih]
  | swap _ _ _ ih => rw [Balance.of_append, Balance.of_append, hshort, hfull, ih]

/-- Both names end in a word character, which escapes nothing. -/
theorem countUnescapedFrom_eq {quote : Char} (hq : isWord quote = false) (hb : quote ≠ '\\')
    (hs : IsName short) (hf : IsQualified full) (h : Respelled short full prev a b) :
    countUnescapedFrom quote prev b = countUnescapedFrom quote prev a := by
  obtain ⟨c, hc, hword⟩ := hf.getLast?_isWord
  obtain ⟨d, hd, hword'⟩ := (IsQualified.name hs).getLast?_isWord
  have hne {c : Char} (hc : isWord c = true) : some c ≠ some '\\' := fun he =>
    ne_of_isWord hc (by decide) (Option.some.inj he)
  induction h with
  | done => rfl
  | keep _ ih => rw [countUnescapedFrom, countUnescapedFrom, ih]
  | @swap prev a b _ _ _ ih =>
    have hlast : lastOr prev full = some c := by rw [lastOr_eq_getLast? hf.ne_nil, hc]
    have hlast' (prev : Option Char) : lastOr prev short = some d := by
      rw [lastOr_eq_getLast? hs.ne_nil, hd]
    rw [hlast'] at ih
    calc
      countUnescapedFrom quote prev (full ++ b) = countUnescapedFrom quote (some c) b := by
        rw [countUnescapedFrom_append, countUnescapedFrom_eq_zero (hf.not_mem hq hb), hlast,
          Nat.zero_add]
      _ = countUnescapedFrom quote (some d) b :=
        countUnescapedFrom_congr quote (hne hword) (hne hword') b
      _ = countUnescapedFrom quote (some d) a := ih
      _ = countUnescapedFrom quote prev (short ++ a) := by
        rw [countUnescapedFrom_append, countUnescapedFrom_eq_zero (hs.not_mem hq), hlast',
          Nat.zero_add]

/-- A mark that the text ends in stays, and no other comes. -/
theorem lastOr_eq_iff {mark : Char} (hm : isWord mark = false) (hs : IsName short)
    (hf : IsQualified full) (h : Respelled short full prev a b) :
    lastOr prev b = some mark ↔ lastOr prev a = some mark := by
  have hname {cs : List Char} (hcs : IsQualified cs) (prev : Option Char) :
      lastOr prev cs ≠ some mark := by
    obtain ⟨c, hc, hword⟩ := hcs.getLast?_isWord
    rw [lastOr_eq_getLast? hcs.ne_nil, hc]
    exact fun he => ne_of_isWord hword hm (Option.some.inj he)
  have hbefore {prev prev' : Option Char} (hp : prev ≠ some mark) (hp' : prev' ≠ some mark)
      (cs : List Char) : lastOr prev cs = some mark ↔ lastOr prev' cs = some mark := by
    cases cs with
    | nil => exact ⟨fun he => absurd he hp, fun he => absurd he hp'⟩
    | cons c cs => exact Iff.rfl
  induction h with
  | done => exact Iff.rfl
  | keep _ ih => exact ih
  | swap _ _ _ ih =>
    rw [lastOr_append, lastOr_append]
    have hshort := hname (.name hs)
    exact (hbefore (hname hf _) (hshort none) _).trans
      (ih.trans (hbefore (hshort none) (hshort _) _))

/-- In the middle of a variable's name nothing is replaced. -/
theorem takeWhile_isWord_eq (h : Respelled short full prev a b) (hp : isOpen prev = false) :
    b.takeWhile isWord = a.takeWhile isWord := by
  induction h with
  | done => rfl
  | @keep prev c a b _ ih =>
    by_cases hc : isWord c = true
    · have hopen : isOpen (some c) = false := by
        unfold isOpen
        rw [Option.any_some, hc]
        rfl
      rw [List.takeWhile_cons_of_pos hc, List.takeWhile_cons_of_pos hc, ih hopen]
    · rw [List.takeWhile_cons_of_neg hc, List.takeWhile_cons_of_neg hc]
  | swap opens _ _ _ => exact absurd (hp.symm.trans opens) Bool.false_ne_true

theorem named_eq (hs : IsName short) (hf : IsQualified full) (h : Respelled short full prev a b) :
    named b = named a := by
  induction h with
  | done => rfl
  | @keep prev c a b rest ih =>
    by_cases hc : c = '$'
    · rw [hc] at rest
      have hword := rest.takeWhile_isWord_eq (by decide)
      have hstart : b.head?.any isNameStart = a.head?.any isNameStart := by
        rw [← isNameStart_head?_takeWhile, hword, isNameStart_head?_takeWhile]
      rw [named, named, hword, hstart, ih]
    · rw [named_cons_of_ne hc, named_cons_of_ne hc, ih]
  | swap _ _ _ ih =>
    rw [named_append_of_not_mem (hs.not_mem (by decide)),
      named_append_of_not_mem (hf.not_mem (by decide) (by decide)), ih]

end Respelled

namespace AliasTable

variable {t : AliasTable}

theorem balance_resolve (h : t.WellNamed) (unit : String) :
    Balance.of (t.resolve unit).toList = Balance.of unit.toList :=
  resolve_preserves Balance.of (fun hs hf hr => hr.of_eq hs hf) h unit

theorem countUnescaped_resolve (h : t.WellNamed) {quote : Char} (hq : isWord quote = false)
    (hb : quote ≠ '\\') (unit : String) :
    countUnescaped quote (t.resolve unit).toList = countUnescaped quote unit.toList :=
  resolve_preserves (countUnescaped quote) (fun hs hf hr => hr.countUnescapedFrom_eq hq hb hs hf) h
    unit

theorem extract_resolve (h : t.WellNamed) (unit : String) :
    extract (t.resolve unit) = extract unit := by
  rw [extract_eq, extract_eq, resolve_preserves named (fun hs hf hr => hr.named_eq hs hf) h]

theorem endsStatement_resolve (h : t.WellNamed) (unit : String) :
    endsStatement (t.resolve unit) = endsStatement unit := by
  have hmark (mark : Char) (hm : isWord mark = false) :
      decide ((t.resolve unit).toList.getLast? = some mark) =
        decide (unit.toList.getLast? = some mark) := by
    refine resolve_preserves (fun cs => decide (cs.getLast? = some mark)) ?_ h unit
    intro short full a b hs hf hr
    have hlast := hr.lastOr_eq_iff hm hs hf
    rw [← getLast?_or_eq_lastOr, ← getLast?_or_eq_lastOr, Option.or_none, Option.or_none] at hlast
    exact decide_eq_decide.mpr hlast
  rw [endsStatement, endsStatement, hmark ';' (by decide), hmark '}' (by decide)]

theorem wrapExpression_resolve (h : t.WellNamed) (unit : String) :
    wrapExpression (t.resolve unit) = t.resolve unit ↔ wrapExpression unit = unit := by
  rw [wrapExpression_eq_self_iff, wrapExpression_eq_self_iff, endsStatement_resolve h]

end AliasTable

end ScriptShell

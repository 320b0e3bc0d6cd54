import ScriptShell.Proofs.Alias.Respelling

/-!
Texts that no alias is about. What is replaced is always a whole word, so a text in which none of
the short names stands as a word of its own comes back as it is.
-/

namespace ScriptShell

open Text

/-- The name stands in the text as a word of its own. -/
def HasWord (name cs : List Char) : Prop :=
  ∃ before after, cs = before ++ (name ++ after) ∧ before.getLast?.any isWord = false ∧
    after.head?.any isWord = false

/-- There is a position at which the name starts and has no word character next to it. -/
theorem hasWord_iff {name cs : List Char} : HasWord name cs ↔
    ∃ n ∈ List.range (cs.length + 1), name <+: cs.drop n ∧
      (cs.take n).getLast?.any isWord = false ∧
      ((cs.drop n).drop name.length).head?.any isWord = false := by
  constructor
  · rintro ⟨before, after, rfl, hbefore, hafter⟩
    refine ⟨before.length, ?_, ?_, ?_, ?_⟩
    · rw [List.mem_range, List.length_append]
      omega
    · rw [List.drop_left]
      exact List.prefix_append name after
    · rw [List.take_left]
      exact hbefore
    · rw [List.drop_left, List.drop_left]
      exact hafter
  · rintro ⟨n, -, ⟨after, hname⟩, hbefore, hafter⟩
    refine ⟨cs.take n, after, ?_, hbefore, ?_⟩
    · rw [hname, List.take_append_drop]
    · rw [← hname, List.drop_left] at hafter
      exact hafter

instance (name cs : List Char) : Decidable (HasWord name cs) := decidable_of_iff _ hasWord_iff.symm

/-- Where the name is no word there is nothing to replace. -/
theorem Respelled.eq_self {short full a b : List Char} {prev : Option Char}
    (h : Respelled short full prev a b) {before : List Char} (hprev : before.getLast? = prev)
    (hno : ¬HasWord short (before ++ a)) : b = a := by
  induction h generalizing before with
  | done => rfl
  | @keep prev c a b _ ih =>
    have hmove : before ++ c :: a = (before ++ [c]) ++ a := by
      rw [List.append_assoc]
      rfl
    rw [hmove] at hno
    rw [ih List.getLast?_concat hno]
  | @swap prev a b opens closes _ _ =>
    refine absurd ⟨before, a, rfl, ?_, closes⟩ hno
    rw [hprev]
    cases prev with
    | none => rfl
    | some c =>
      unfold isOpen at opens
      rw [Option.any_some, Bool.not_eq_true', Bool.or_eq_false_iff] at opens
      exact opens.1

namespace AliasTable

theorem applyEntry_eq_self {e : String × String} (he : IsName e.1.toList) {text : List Char}
    (h : ¬HasWord e.1.toList text) : applyEntry text e = text := by
  have hsite (site : Site) : site.rewrite e.1.toList e.2.toList text = text :=
    @Respelled.eq_self _ _ _ _ _ (Site.respelled_rewrite site he text) [] rfl h
  unfold applyEntry
  induction Site.all with
  | nil => rfl
  | cons site sites ih =>
    rw [List.foldl_cons, hsite]
    exact ih

/-- A text with none of the short names as a word is resolved to itself, so that resolving it again
changes nothing either. -/
theorem resolve_of_absent {units : List String} {unit : String}
    (h : ∀ short ∈ ((∅ : AliasTable).observeAll units).shortNames,
      ¬HasWord short.toList unit.toList) :
    let t := (∅ : AliasTable).observeAll units
    t.resolve unit = unit ∧ t.resolve (t.resolve unit) = t.resolve unit := by
  intro t
  have hfold (es : List (String × String))
      (hes : ∀ e ∈ es, IsName e.1.toList ∧ ¬HasWord e.1.toList unit.toList) :
      es.foldl applyEntry unit.toList = unit.toList := by
    induction es with
    | nil => rfl
    | cons e es ih =>
      obtain ⟨he, hes⟩ := List.forall_mem_cons.mp hes
      rw [List.foldl_cons, applyEntry_eq_self he.1 he.2]
      exact ih hes
  have hself : t.resolve unit = unit := by
    rw [resolve, hfold t.entries, String.ofList_toList]
    intro e he
    exact ⟨(wellNamed_observeAll units e he).1, h e.1 (List.mem_map_of_mem he)⟩
  rw [hself]
  exact ⟨rfl, hself⟩

/-- Longer words, variables and accented letters do not count, also where a class name would. -/
theorem resolve_of_absent_widget :
    let t := (∅ : AliasTable).observeAll ["use Acme\\Widget;"]
    let unit := "new Widgeté(MyWidget::X, Widget_ $w); $Widgets"
    (∀ short ∈ t.shortNames, ¬HasWord short.toList unit.toList) ∧
      t.resolve unit = unit ∧ t.resolve (t.resolve unit) = t.resolve unit := by
  intro t unit
  have habsent : ∀ short ∈ t.shortNames, ¬HasWord short.toList unit.toList := by decide +kernel
  exact ⟨habsent, resolve_of_absent habsent⟩

end AliasTable

end ScriptShell

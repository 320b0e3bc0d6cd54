import ScriptShell.Proofs.Alias.Name

/-!
What a site looks for, exactly: the texts that may stand right before a short name and how far back
they reach. A text is rewritten where, and only where, the matcher finds something; as long as every
match comes to the same, it does not matter which is the first.
-/

namespace ScriptShell

open Text

/-- The character that a text ends in; the one before it when it is empty. -/
def lastOr : Option Char → List Char → Option Char
  | prev, [] => prev
  | _, c :: cs => lastOr (some c) cs

theorem lastOr_append (prev : Option Char) (a b : List Char) :
    lastOr prev (a ++ b) = lastOr (lastOr prev a) b := by
  induction a generalizing prev with
  | nil => rfl
  | cons c a ih => exact ih (some c)

theorem getLast?_or_eq_lastOr (prev : Option Char) (cs : List Char) :
    cs.getLast?.or prev = lastOr prev cs := by
  induction cs generalizing prev with
  | nil => rfl
  | cons c cs ih =>
    rw [List.getLast?_cons, lastOr, ← ih]
    cases cs.getLast? with
    | none => rfl
    | some d => rfl

/-- The end of a text that is not empty has nothing to do with what stands before it. -/
theorem lastOr_eq_getLast? {cs : List Char} (h : cs ≠ []) (prev : Option Char) :
    lastOr prev cs = cs.getLast? := by
  rw [← getLast?_or_eq_lastOr, List.getLast?_eq_some_getLast h]
  rfl

namespace Text

variable {m : Matcher (List Char)}

theorem rewriteFrom_eq_drop (m : Matcher (List Char)) (prev : Option Char) (n : Nat)
    (cs : List Char) :
    rewriteFrom m prev n cs = rewriteFrom m (lastOr prev (cs.take n)) 0 (cs.drop n) := by
  induction cs generalizing prev n with
  | nil =>
    rw [List.drop_nil, rewriteFrom, rewriteFrom]
  | cons c cs ih =>
    cases n with
    | zero => rfl
    | succ n => exact ih (some c) n

/-- After a match the rewriting goes on behind the characters that it took. -/
theorem rewriteFrom_of_match {m : Matcher (List Char)} {prev : Option Char}
    {taken rest out : List Char} (ht : taken ≠ [])
    (h : m prev (taken ++ rest) = some (out, taken.length)) :
    rewriteFrom m prev 0 (taken ++ rest) = out ++ rewriteFrom m (lastOr prev taken) 0 rest := by
  cases taken with
  | nil => exact absurd rfl ht
  | cons c taken =>
    rw [List.cons_append] at h ⊢
    have hl : (c :: taken).length - 1 = taken.length := rfl
    rw [rewriteFrom, h]
    simp only [hl]
    rw [rewriteFrom_eq_drop, List.take_left, List.drop_left]
    rfl

theorem rewriteFrom_of_none {m : Matcher (List Char)} {prev : Option Char} {c : Char}
    {cs : List Char} (h : m prev (c :: cs) = none) :
    rewriteFrom m prev 0 (c :: cs) = c :: rewriteFrom m (some c) 0 cs := by
  rw [rewriteFrom, h]

theorem getLast?_append_eq_lastOr (before cs : List Char) :
    (before ++ cs).getLast? = lastOr before.getLast? cs := by
  rw [List.getLast?_append, getLast?_or_eq_lastOr]

/-- Every character, or none, is what some text ends in. -/
theorem exists_getLast?_eq (prev : Option Char) : ∃ before : List Char, before.getLast? = prev := by
  cases prev with
  | none => exact ⟨[], rfl⟩
  | some c => exact ⟨[c], rfl⟩

/-- Where nothing matches the text stays, and the rewriting goes on behind it. -/
theorem rewriteFrom_append_of_none {before pending rest : List Char}
    (h : ∀ a b, pending = a ++ b → b ≠ [] → m (before ++ a).getLast? (b ++ rest) = none) :
    rewriteFrom m before.getLast? 0 (pending ++ rest) =
      pending ++ rewriteFrom m (before ++ pending).getLast? 0 rest := by
  induction pending generalizing before with
  | nil => rw [List.append_nil, List.nil_append, List.nil_append]
  | cons c pending ih =>
    have hnone := h [] (c :: pending) rfl (List.cons_ne_nil c pending)
    rw [List.append_nil] at hnone
    have hlast : (before ++ [c]).getLast? = some c := List.getLast?_concat
    have hmove (a : List Char) : before ++ [c] ++ a = before ++ c :: a := by
      rw [List.append_assoc, List.singleton_append]
    have hrest : rewriteFrom m (some c) 0 (pending ++ rest) =
        pending ++ rewriteFrom m (before ++ c :: pending).getLast? 0 rest := by
      rw [← hlast, ← hmove pending]
      apply ih
      intro a b hab hb
      rw [hmove]
      exact h (c :: a) b (congrArg (c :: ·) hab) hb
    calc rewriteFrom m before.getLast? 0 (c :: (pending ++ rest))
      _ = c :: rewriteFrom m (some c) 0 (pending ++ rest) := rewriteFrom_of_none hnone
      _ = c :: pending ++ rewriteFrom m (before ++ c :: pending).getLast? 0 rest :=
        congrArg (c :: ·) hrest

theorem rewriteFrom_eq_self {before cs : List Char}
    (h : ∀ a b, cs = a ++ b → m (before ++ a).getLast? b = none) :
    rewriteFrom m before.getLast? 0 cs = cs := by
  have hrest : rewriteFrom m (before ++ cs).getLast? 0 [] = [] := by rw [rewriteFrom]
  have hwhole := @rewriteFrom_append_of_none m before cs [] fun a b hab _ => by
    rw [List.append_nil]
    exact h a b hab
  rw [hrest, List.append_nil] at hwhole
  exact hwhole

/-- If all matches that start in the text go over its end and replace the same, then so does the
first one. -/
theorem rewriteFrom_append_of_match {before pending taken rest out : List Char} (hne : taken ≠ [])
    (hall : ∀ a b o n, pending = a ++ b →
      m (before ++ a).getLast? (b ++ (taken ++ rest)) = some (o, n) →
        o = b ++ out ∧ n = (b ++ taken).length)
    (hex : ∃ a b, pending = a ++ b ∧
      (m (before ++ a).getLast? (b ++ (taken ++ rest))).isSome = true) :
    rewriteFrom m before.getLast? 0 (pending ++ (taken ++ rest)) =
      pending ++ (out ++ rewriteFrom m (before ++ (pending ++ taken)).getLast? 0 rest) := by
  have hhere {before pending : List Char} {o : List Char} {n : Nat} (ho : o = pending ++ out)
      (hn : n = (pending ++ taken).length)
      (hm : m before.getLast? (pending ++ (taken ++ rest)) = some (o, n)) :
      rewriteFrom m before.getLast? 0 (pending ++ (taken ++ rest)) =
        pending ++ (out ++ rewriteFrom m (before ++ (pending ++ taken)).getLast? 0 rest) := by
    rw [ho, hn, ← List.append_assoc] at hm
    rw [← List.append_assoc,
      rewriteFrom_of_match (List.append_ne_nil_of_right_ne_nil pending hne) hm,
      ← getLast?_append_eq_lastOr, List.append_assoc]
  induction pending generalizing before with
  | nil =>
    obtain ⟨a, b, hab, hsome⟩ := hex
    obtain ⟨rfl, rfl⟩ := List.append_eq_nil_iff.mp hab.symm
    rw [List.append_nil] at hsome
    obtain ⟨⟨o, n⟩, hm⟩ := Option.isSome_iff_exists.mp hsome
    have hfound := hall [] [] o n rfl
    rw [List.append_nil] at hfound
    obtain ⟨ho, hn⟩ := hfound hm
    exact hhere ho hn hm
  | cons c pending ih =>
    cases hm : m before.getLast? (c :: pending ++ (taken ++ rest)) with
    | some found =>
      obtain ⟨o, n⟩ := found
      have hfound := hall [] (c :: pending) o n rfl
      rw [List.append_nil] at hfound
      obtain ⟨ho, hn⟩ := hfound hm
      exact hhere ho hn hm
    | none =>
      have hlast : (before ++ [c]).getLast? = some c := List.getLast?_concat
      have hmove (a : List Char) : before ++ [c] ++ a = before ++ c :: a := by
        rw [List.append_assoc, List.singleton_append]
      have hrest : rewriteFrom m (some c) 0 (pending ++ (taken ++ rest)) =
          pending ++ (out ++ rewriteFrom m (before ++ c :: (pending ++ taken)).getLast? 0 rest) := by
        rw [← hlast, ← hmove (pending ++ taken)]
        apply ih
        · intro a b o n hab hm
          rw [hmove] at hm
          exact hall (c :: a) b o n (congrArg (c :: ·) hab) hm
        · obtain ⟨a, b, hab, hsome⟩ := hex
          cases a with
          | nil =>
            rw [List.append_nil, ← hab.trans (List.nil_append b), hm] at hsome
            exact absurd hsome nofun
          | cons d a =>
            obtain ⟨hcd, hab⟩ := List.cons.inj hab
            refine ⟨a, b, hab, ?_⟩
            rw [hmove, hcd]
            exact hsome
      calc rewriteFrom m before.getLast? 0 (c :: (pending ++ (taken ++ rest)))
        _ = c :: rewriteFrom m (some c) 0 (pending ++ (taken ++ rest)) := rewriteFrom_of_none hm
        _ = _ := congrArg (c :: ·) hrest

/-- If every match comes to the same text, then so does the first one. -/
theorem rewriteFrom_eq_of_exists {before cs out : List Char}
    (hall : ∀ a b o n, cs = a ++ b → m (before ++ a).getLast? b = some (o, n) →
      ∃ taken rest, b = taken ++ rest ∧ taken ≠ [] ∧ n = taken.length ∧
        a ++ o ++ rewriteFrom m (before ++ a ++ taken).getLast? 0 rest = out)
    (hex : ∃ a b, cs = a ++ b ∧ (m (before ++ a).getLast? b).isSome = true) :
    rewriteFrom m before.getLast? 0 cs = out := by
  induction cs generalizing before out with
  | nil =>
    obtain ⟨a, b, hab, hm⟩ := hex
    obtain ⟨⟨o, n⟩, hm⟩ := Option.isSome_iff_exists.mp hm
    obtain ⟨taken, rest, hb, hne, -, -⟩ := hall a b o n hab hm
    have hnil := (List.append_eq_nil_iff.mp hab.symm).2
    exact absurd (List.append_eq_nil_iff.mp (hb.symm.trans hnil)).1 hne
  | cons c cs ih =>
    cases hm : m before.getLast? (c :: cs) with
    | some found =>
      obtain ⟨o, n⟩ := found
      have hhere := hall [] (c :: cs) o n rfl
      rw [List.append_nil] at hhere
      obtain ⟨taken, rest, hb, hne, hn, hout⟩ := hhere hm
      rw [hb, hn] at hm
      rw [hb, rewriteFrom_of_match hne hm, ← getLast?_append_eq_lastOr]
      exact hout
    | none =>
      have hlast : (before ++ [c]).getLast? = some c := List.getLast?_concat
      have hmove (a : List Char) : before ++ [c] ++ a = before ++ c :: a := by
        rw [List.append_assoc, List.singleton_append]
      obtain ⟨a, b, hab, hsome⟩ := hex
      cases a with
      | nil =>
        rw [List.append_nil, ← hab.trans (List.nil_append b), hm] at hsome
        exact absurd hsome nofun
      | cons d a =>
        obtain ⟨hcd, hab⟩ := List.cons.inj hab
        rw [← hcd] at hsome
        obtain ⟨⟨o, n⟩, hfound⟩ := Option.isSome_iff_exists.mp hsome
        obtain ⟨taken, rest, -, -, -, hout⟩ :=
          hall (c :: a) b o n (congrArg (c :: ·) hab) hfound
        have hcons : out = c :: out.tail := by
          rw [← hout]
          rfl
        rw [rewriteFrom_of_none hm, ← hlast, hcons]
        apply congrArg (c :: ·)
        apply ih
        · intro a b o n hab hm
          rw [hmove] at hm
          obtain ⟨taken, rest, hb, hne, hn, hout⟩ := hall (c :: a) b o n (congrArg (c :: ·) hab) hm
          refine ⟨taken, rest, hb, hne, hn, ?_⟩
          rw [hmove, ← hout]
          rfl
        · refine ⟨a, b, hab, ?_⟩
          rw [hmove]
          exact hsome

end Text

namespace Site

/-- White space, then at most a question mark. -/
def IsNullable (cs : List Char) : Prop :=
  ∃ spaces mark, cs = spaces ++ mark ∧ (∀ c ∈ spaces, isSpace c = true) ∧
    (mark = [] ∨ mark = ['?'])

/-- The site is reached by going over the second text, which stands after the first one. -/
inductive Reaches : Site → List Char → List Char → Prop
  | keyword {word : String} {before spaces : List Char}
      (starts : isBoundary before.getLast? (word.toList ++ spaces).head? = true)
      (apart : spaces ≠ []) (white : ∀ c ∈ spaces, isSpace c = true) :
      Reaches (.afterKeyword word) before (word.toList ++ spaces)
  | lineStart {before : List Char} (h : before = [] ∨ before.getLast? = some '\n') :
      Reaches .staticAccess before []
  | mark {before : List Char} {c : Char} (word : isWord c = false) (separator : c ≠ '\\')
      (sigil : c ≠ '$') (arrow : c ≠ '>') : Reaches .staticAccess before [c]
  | parameter {before lead : List Char} {c : Char} (opens : c = '(' ∨ c = ',')
      (nullable : IsNullable lead) : Reaches .parameterType before (c :: lead)
  | result {before spaces lead : List Char} (white : ∀ c ∈ spaces, isSpace c = true)
      (nullable : IsNullable lead) : Reaches .returnType before (')' :: (spaces ++ ':' :: lead))

/-- A short name that follows this text stands at the site. -/
def Ready (site : Site) (text : List Char) : Prop :=
  ∃ before lead, text = before ++ lead ∧ site.Reaches before lead

/-- Every split but those handed on from before takes white space and leaves the rest. -/
theorem spaceSplits_sound {shorter : List (Nat × List Char)} {n k : Nat} {cs rest : List Char}
    (h : (k, rest) ∈ spaceSplits shorter n cs) : (k, rest) ∈ shorter ∨
      ∃ spaces, cs = spaces ++ rest ∧ k = n + spaces.length ∧ ∀ c ∈ spaces, isSpace c = true := by
  induction cs generalizing shorter n with
  | nil =>
    rcases List.mem_cons.mp h with h | h
    · obtain ⟨rfl, rfl⟩ := Prod.mk.inj h
      exact Or.inr ⟨[], rfl, rfl, nofun⟩
    · exact Or.inl h
  | cons c cs ih =>
    have hhere (he : (k, rest) = (n, c :: cs)) : ∃ spaces, c :: cs = spaces ++ rest ∧
        k = n + spaces.length ∧ ∀ c ∈ spaces, isSpace c = true := by
      obtain ⟨rfl, rfl⟩ := Prod.mk.inj he
      exact ⟨[], rfl, rfl, nofun⟩
    rw [spaceSplits] at h
    split at h
    · next hc =>
      rcases ih h with h | ⟨spaces, hcs, hk, hall⟩
      · rcases List.mem_cons.mp h with h | h
        · exact Or.inr (hhere h)
        · exact Or.inl h
      · refine Or.inr ⟨c :: spaces, congrArg (c :: ·) hcs, ?_, List.forall_mem_cons.mpr ⟨hc, hall⟩⟩
        rw [hk, List.length_cons]
        omega
    · rcases List.mem_cons.mp h with h | h
      · exact Or.inr (hhere h)
      · exact Or.inl h

theorem mem_spaceSplits_iff {shorter : List (Nat × List Char)} {n k : Nat} {cs rest : List Char} :
    (k, rest) ∈ spaceSplits shorter n cs ↔ (k, rest) ∈ shorter ∨
      ∃ spaces, cs = spaces ++ rest ∧ k = n + spaces.length ∧ ∀ c ∈ spaces, isSpace c = true := by
  refine ⟨spaceSplits_sound, ?_⟩
  induction cs generalizing shorter n with
  | nil =>
    rintro (h | ⟨spaces, hcs, hk, -⟩)
    · exact List.mem_cons_of_mem _ h
    · obtain ⟨hspaces, hrest⟩ := List.append_eq_nil_iff.mp hcs.symm
      rw [hk, hspaces, hrest]
      exact List.mem_cons_self
  | cons c cs ih =>
    intro h
    rw [spaceSplits]
    split
    · next hc =>
      apply ih
      rcases h with h | ⟨spaces, hcs, hk, hall⟩
      · exact Or.inl (List.mem_cons_of_mem _ h)
      · cases spaces with
        | nil =>
          rw [List.nil_append] at hcs
          rw [hk, ← hcs]
          exact Or.inl List.mem_cons_self
        | cons d spaces =>
          obtain ⟨-, hcs⟩ := List.cons.inj hcs
          refine Or.inr ⟨spaces, hcs, ?_, fun x hx => hall x (List.mem_cons_of_mem d hx)⟩
          rw [hk, List.length_cons]
          omega
    · next hc =>
      rcases h with h | ⟨spaces, hcs, hk, hall⟩
      · exact List.mem_cons_of_mem _ h
      · cases spaces with
        | nil =>
          rw [List.nil_append] at hcs
          rw [hk, ← hcs]
          exact List.mem_cons_self
        | cons d spaces =>
          obtain ⟨hcd, -⟩ := List.cons.inj hcs
          exact absurd (hall d List.mem_cons_self) (hcd ▸ hc)

theorem mem_nullableSplits_iff {n k : Nat} {cs rest : List Char} :
    (k, rest) ∈ nullableSplits n cs ↔
      ∃ lead, cs = lead ++ rest ∧ k = n + lead.length ∧ IsNullable lead := by
  unfold nullableSplits
  rw [List.mem_flatMap]
  constructor
  · rintro ⟨⟨j, after⟩, hj, h⟩
    obtain ⟨spaces, hcs, hk, hall⟩ := (mem_spaceSplits_iff.mp hj).resolve_left List.not_mem_nil
    have hwhole (he : (k, rest) = (j, after)) :
        ∃ lead, cs = lead ++ rest ∧ k = n + lead.length ∧ IsNullable lead := by
      obtain ⟨rfl, rfl⟩ := Prod.mk.inj he
      exact ⟨spaces, hcs, hk, ⟨spaces, [], (List.append_nil _).symm, hall, Or.inl rfl⟩⟩
    dsimp only at h
    split at h
    · next tail =>
      rcases List.mem_cons.mp h with h | h
      · obtain ⟨rfl, rfl⟩ := Prod.mk.inj h
        refine ⟨spaces ++ ['?'], ?_, ?_, ⟨spaces, ['?'], rfl, hall, Or.inr rfl⟩⟩
        · rw [hcs, List.append_assoc]
          rfl
        · rw [hk, List.length_append, List.length_singleton, Nat.add_assoc]
      · exact hwhole (List.mem_singleton.mp h)
    · exact hwhole (List.mem_singleton.mp h)
  · rintro ⟨lead, hcs, hk, ⟨spaces, mark, hlead, hall, hmark⟩⟩
    rw [hlead, List.append_assoc] at hcs
    refine ⟨(n + spaces.length, mark ++ rest),
      mem_spaceSplits_iff.mpr (Or.inr ⟨spaces, hcs, rfl, hall⟩), ?_⟩
    rw [hk, hlead, List.length_append]
    rcases hmark with rfl | rfl
    · dsimp only
      split
      · exact List.mem_cons_of_mem _ List.mem_cons_self
      · exact List.mem_cons_self
    · exact List.mem_cons_self

theorem afterKeyword_leads_sound {word : String} {prev : Option Char} {n : Nat}
    {cs rest : List Char} (h : (n, rest) ∈ (Site.afterKeyword word).leads prev cs) :
    ∃ c spaces, cs = word.toList ++ c :: (spaces ++ rest) ∧ isSpace c = true ∧
      n = word.length + 1 + spaces.length ∧ ∀ c ∈ spaces, isSpace c = true := by
  simp only [leads] at h
  split at h
  · split at h
    · next c after hd =>
      split at h
      · next hc =>
        rcases spaceSplits_sound h with h | ⟨spaces, hcs, hn, hall⟩
        · exact absurd h List.not_mem_nil
        · refine ⟨c, spaces, ?_, hc, hn, hall⟩
          rw [← hcs]
          exact eq_append_of_dropPrefix? hd
      · exact absurd h List.not_mem_nil
    · exact absurd h List.not_mem_nil
  · exact absurd h List.not_mem_nil

theorem mem_leads_keyword_iff {word : String} {before cs rest : List Char} {n : Nat} :
    (n, rest) ∈ (Site.afterKeyword word).leads before.getLast? cs ↔
      ∃ lead, cs = lead ++ rest ∧ lead.length = n ∧
        (Site.afterKeyword word).Reaches before lead := by
  have hhead {spaces : List Char} (hs : spaces ≠ []) (rest : List Char) :
      (word.toList ++ spaces ++ rest).head? = (word.toList ++ spaces).head? := by
    obtain ⟨c, tail, hcs⟩ :=
      List.exists_cons_of_ne_nil (List.append_ne_nil_of_right_ne_nil word.toList hs)
    rw [hcs]
    rfl
  constructor
  · intro h
    obtain ⟨c, spaces, hcs, hc, hn, hall⟩ := afterKeyword_leads_sound h
    have hne : c :: spaces ≠ [] := List.cons_ne_nil c spaces
    have htext : cs = word.toList ++ (c :: spaces) ++ rest := by
      rw [hcs, List.append_assoc]
      rfl
    have hstarts : isBoundary before.getLast? cs.head? = true := by
      by_cases hb : isBoundary before.getLast? cs.head? = true
      · exact hb
      · rw [leads, if_neg hb] at h
        exact absurd h List.not_mem_nil
    rw [htext, hhead hne] at hstarts
    refine ⟨_, htext, ?_, .keyword hstarts hne (List.forall_mem_cons.mpr ⟨hc, hall⟩)⟩
    rw [hn, List.length_append, List.length_cons, String.length_toList]
    omega
  · rintro ⟨lead, hcs, hn, ⟨hstarts, hne, hall⟩⟩
    next spaces =>
    obtain ⟨c, spaces, rfl⟩ := List.exists_cons_of_ne_nil hne
    obtain ⟨hc, hall⟩ := List.forall_mem_cons.mp hall
    have hdrop : dropPrefix? word.toList cs = some (c :: (spaces ++ rest)) := by
      rw [hcs, List.append_assoc]
      exact dropPrefix?_append _ _
    rw [← hhead hne rest, ← hcs] at hstarts
    simp only [leads, hstarts, hdrop, hc, if_true]
    refine mem_spaceSplits_iff.mpr (Or.inr ⟨spaces, rfl, ?_, hall⟩)
    rw [← hn, List.length_append, List.length_cons, String.length_toList]
    omega

theorem mem_leads_static_iff {before cs rest : List Char} {n : Nat} :
    (n, rest) ∈ Site.staticAccess.leads before.getLast? cs ↔
      ∃ lead, cs = lead ++ rest ∧ lead.length = n ∧ Site.staticAccess.Reaches before lead := by
  have hstart : (before.getLast? = none ∨ before.getLast? = some '\n') ↔
      before = [] ∨ before.getLast? = some '\n' := by
    rw [List.getLast?_eq_none_iff]
  simp only [leads, hstart]
  rw [List.mem_append]
  constructor
  · rintro (h | h)
    · split at h
      · next hb =>
        obtain ⟨rfl, rfl⟩ := Prod.mk.inj (List.mem_singleton.mp h)
        exact ⟨[], rfl, rfl, .lineStart hb⟩
      · exact absurd h List.not_mem_nil
    · cases cs with
      | nil => exact absurd h List.not_mem_nil
      | cons c after =>
        dsimp only at h
        split at h
        · exact absurd h List.not_mem_nil
        · next hc =>
          obtain ⟨rfl, rfl⟩ := Prod.mk.inj (List.mem_singleton.mp h)
          simp only [Bool.or_eq_true, beq_iff_eq, not_or, Bool.not_eq_true] at hc
          obtain ⟨⟨⟨hword, hseparator⟩, hsigil⟩, harrow⟩ := hc
          exact ⟨[c], rfl, rfl, .mark hword hseparator hsigil harrow⟩
  · rintro ⟨lead, hcs, hn, h⟩
    cases h with
    | lineStart hb =>
      rw [if_pos hb, ← hn, hcs]
      exact Or.inl List.mem_cons_self
    | @mark _ c hword hseparator hsigil harrow =>
      have hno : ¬(isWord c || c == '\\' || c == '$' || c == '>') = true := by
        simp only [Bool.or_eq_true, beq_iff_eq, not_or, Bool.not_eq_true]
        exact ⟨⟨⟨hword, hseparator⟩, hsigil⟩, harrow⟩
      rw [hcs, ← hn]
      refine Or.inr ?_
      simp only [List.cons_append, List.nil_append, if_neg hno]
      exact List.mem_cons_self

theorem mem_leads_parameter_iff {before cs rest : List Char} {n : Nat} :
    (n, rest) ∈ Site.parameterType.leads before.getLast? cs ↔
      ∃ lead, cs = lead ++ rest ∧ lead.length = n ∧ Site.parameterType.Reaches before lead := by
  constructor
  · intro h
    cases cs with
    | nil => exact absurd h List.not_mem_nil
    | cons c after =>
      simp only [leads] at h
      split at h
      · next hc =>
        obtain ⟨lead, hafter, hn, hlead⟩ := mem_nullableSplits_iff.mp h
        rw [Bool.or_eq_true, beq_iff_eq, beq_iff_eq] at hc
        refine ⟨c :: lead, congrArg (c :: ·) hafter, ?_, .parameter hc hlead⟩
        rw [hn, List.length_cons, Nat.add_comm]
      · exact absurd h List.not_mem_nil
  · rintro ⟨lead, hcs, hn, h⟩
    cases h with
    | @parameter _ lead c hc hlead =>
      have hopens : (c == '(' || c == ',') = true := by
        rw [Bool.or_eq_true, beq_iff_eq, beq_iff_eq]
        exact hc
      rw [hcs, List.cons_append]
      simp only [leads, hopens, if_true]
      refine mem_nullableSplits_iff.mpr ⟨lead, rfl, ?_, hlead⟩
      rw [← hn, List.length_cons, Nat.add_comm]

theorem mem_leads_result_iff {before cs rest : List Char} {n : Nat} :
    (n, rest) ∈ Site.returnType.leads before.getLast? cs ↔
      ∃ lead, cs = lead ++ rest ∧ lead.length = n ∧ Site.returnType.Reaches before lead := by
  constructor
  · intro h
    unfold leads at h
    split at h
    · contradiction
    · contradiction
    · contradiction
    · next after _ =>
      split at h
      · next tail htail =>
        obtain ⟨lead, hcolon, hn, hlead⟩ := mem_nullableSplits_iff.mp h
        refine ⟨')' :: (after.takeWhile isSpace ++ ':' :: lead), ?_, ?_,
          .result (fun _ => List.mem_takeWhile_imp) hlead⟩
        · calc
            ')' :: after = ')' :: (after.takeWhile isSpace ++ after.dropWhile isSpace) := by
              rw [List.takeWhile_append_dropWhile]
            _ = ')' :: (after.takeWhile isSpace ++ ':' :: lead) ++ rest := by
              rw [htail, hcolon, List.cons_append, List.append_assoc]
              rfl
        · rw [hn, List.length_cons, List.length_append, List.length_cons]
          omega
      · exact absurd h List.not_mem_nil
    · exact absurd h List.not_mem_nil
  · rintro ⟨lead, hcs, hn, h⟩
    cases h with
    | @result _ spaces lead hall hlead =>
      have hcolon : (':' :: lead ++ rest).head?.any isSpace = false := rfl
      have htext : cs = ')' :: (spaces ++ (':' :: lead ++ rest)) := by
        rw [hcs, List.cons_append, List.append_assoc]
      have htake : (spaces ++ (':' :: lead ++ rest)).takeWhile isSpace = spaces := by
        rw [takeWhile_append_of_boundary _ hcolon, List.takeWhile_eq_self_iff.mpr hall]
      have hdrop : (spaces ++ (':' :: lead ++ rest)).dropWhile isSpace = ':' :: (lead ++ rest) := by
        rw [List.dropWhile_append_of_pos hall]
        rfl
      rw [htext]
      simp only [leads, htake, hdrop]
      refine mem_nullableSplits_iff.mpr ⟨lead, rfl, ?_, hlead⟩
      rw [← hn, List.length_cons, List.length_append, List.length_cons]
      omega

/-- The ways to go on from a position that are tried are those that reach the site. -/
theorem mem_leads_iff {site : Site} {before cs rest : List Char} {n : Nat} :
    (n, rest) ∈ site.leads before.getLast? cs ↔
      ∃ lead, cs = lead ++ rest ∧ lead.length = n ∧ site.Reaches before lead := by
  cases site with
  | afterKeyword word => exact mem_leads_keyword_iff
  | staticAccess => exact mem_leads_static_iff
  | parameterType => exact mem_leads_parameter_iff
  | returnType => exact mem_leads_result_iff

variable {site : Site} {short full before lead cs : List Char}

/-- No name and no arrow goes on where a site was reached. -/
theorem Reaches.last (h : site.Reaches before lead) {c : Char}
    (hc : (before ++ lead).getLast? = some c) :
    isWord c = false ∧ c ≠ '\\' ∧ c ≠ '$' ∧ c ≠ '>' := by
  have hspace {c : Char} (hs : isSpace c = true) :
      isWord c = false ∧ c ≠ '\\' ∧ c ≠ '$' ∧ c ≠ '>' := by
    have hne {d : Char} (hd : isSpace d = false) : c ≠ d := by
      intro he
      rw [he, hd] at hs
      exact Bool.false_ne_true hs
    exact ⟨not_isWord_of_isSpace hs, hne (by decide), hne (by decide), hne (by decide)⟩
  have hnullable {d : Char} {lead : List Char} (hlead : IsNullable lead)
      (hd : isWord d = false ∧ d ≠ '\\' ∧ d ≠ '$' ∧ d ≠ '>') {a : List Char}
      (hc : (a ++ d :: lead).getLast? = some c) :
      isWord c = false ∧ c ≠ '\\' ∧ c ≠ '$' ∧ c ≠ '>' := by
    obtain ⟨spaces, mark, hsplit, hall, hmark⟩ := hlead
    have hmem : c ∈ d :: lead := by
      rw [List.getLast?_append_of_ne_nil a (List.cons_ne_nil d lead)] at hc
      exact List.mem_of_getLast? hc
    rcases List.mem_cons.mp hmem with rfl | hmem
    · exact hd
    · rw [hsplit] at hmem
      rcases List.mem_append.mp hmem with hm | hm
      · exact hspace (hall c hm)
      · rcases hmark with rfl | rfl
        · exact absurd hm List.not_mem_nil
        · rw [List.mem_singleton.mp hm]
          decide
  cases h with
  | @keyword word _ spaces _ apart white =>
    rw [← List.append_assoc, List.getLast?_append_of_ne_nil _ apart] at hc
    exact hspace (white c (List.mem_of_getLast? hc))
  | lineStart h =>
    rw [List.append_nil] at hc
    rcases h with h | h
    · rw [h] at hc
      exact absurd hc nofun
    · rw [← Option.some.inj (h.symm.trans hc)]
      decide
  | mark word separator sigil arrow =>
    rw [List.getLast?_concat] at hc
    rw [← Option.some.inj hc]
    exact ⟨word, separator, sigil, arrow⟩
  | @parameter _ lead d opens nullable =>
    refine hnullable nullable ?_ hc
    rcases opens with rfl | rfl
    · decide
    · decide
  | @result _ spaces lead white nullable =>
    have hmove : before ++ ')' :: (spaces ++ ':' :: lead) =
        (before ++ ')' :: spaces) ++ ':' :: lead := by
      rw [List.append_assoc]
      rfl
    rw [hmove] at hc
    exact hnullable nullable (by decide) hc

theorem isBoundary_of_isWord {last next : Option Char} (hl : last.any isWord = true)
    (h : isBoundary last next = true) : next.any isWord = false := by
  unfold isBoundary at h
  rw [hl] at h
  cases hn : next.any isWord with
  | false => rfl
  | true =>
    rw [hn] at h
    exact absurd h nofun

/-- What is kept behind a parameter's type starts the text behind it: the optional parts are taken off
one by one. -/
theorem parameterTrail_sound {cs trail : List Char} (h : parameterTrail? cs = some trail) :
    (∃ rest, cs = trail ++ rest) ∧ cs.head?.any isSpace = true ∧ '$' ∈ trail := by
  have hsplit : cs.takeWhile isSpace ++ cs.dropWhile isSpace = cs := List.takeWhile_append_dropWhile
  have hmark (cs : List Char) : ∃ mark, (if cs.head? = some '&' then ['&'] else []) = mark ∧
      cs = mark ++ cs.drop mark.length := by
    split
    · next hc =>
      obtain ⟨rest, rfl⟩ := List.head?_eq_some_iff.mp hc
      exact ⟨['&'], rfl, rfl⟩
    · exact ⟨[], rfl, rfl⟩
  have hdots (cs : List Char) : ∃ dots,
      (if (dropPrefix? ['.', '.', '.'] cs).isSome then ['.', '.', '.'] else []) = dots ∧
      cs = dots ++ cs.drop dots.length := by
    split
    · next hc =>
      obtain ⟨rest, hrest⟩ := Option.isSome_iff_exists.mp hc
      refine ⟨['.', '.', '.'], rfl, ?_⟩
      rw [eq_append_of_dropPrefix? hrest]
      rfl
    · exact ⟨[], rfl, rfl⟩
  unfold parameterTrail? at h
  generalize hr : cs.dropWhile isSpace = rest at h hsplit
  obtain ⟨mark, hm, hrest⟩ := hmark rest
  simp only [hm] at h
  generalize rest.drop mark.length = afterMark at h hrest
  obtain ⟨dots, hd, hafter⟩ := hdots afterMark
  simp only [hd] at h
  split at h
  · next hc =>
    obtain ⟨hne, hsigil⟩ := Bool.and_eq_true_iff.mp hc
    obtain ⟨tail, htail⟩ := List.head?_eq_some_iff.mp (of_decide_eq_true hsigil)
    refine ⟨⟨tail, ?_⟩, ?_, ?_⟩
    · calc
        cs = cs.takeWhile isSpace ++ (mark ++ (dots ++ '$' :: tail)) := by
          rw [← htail, ← hafter, ← hrest, hsplit]
        _ = cs.takeWhile isSpace ++ mark ++ dots ++ ['$'] ++ tail := by
          simp only [List.append_assoc, List.singleton_append]
        _ = trail ++ tail := by rw [Option.some.inj h]
    · cases cs with
      | nil => exact absurd hne nofun
      | cons c cs =>
        by_cases hs : isSpace c = true
        · exact hs
        · rw [List.takeWhile_cons_of_neg hs] at hne
          exact absurd hne nofun
    · rw [← Option.some.inj h]
      exact List.mem_append_right _ List.mem_cons_self
  · exact absurd h nofun

/-- What is kept after a short name shows that the word ends there. -/
theorem trail_sound {site : Site} {last : Option Char} {cs trail : List Char}
    (hl : last.any isWord = true) (h : site.trail? last cs = some trail) :
    (∃ rest, cs = trail ++ rest) ∧ cs.head?.any isWord = false := by
  have hboundary (h : (if isBoundary last cs.head? then some [] else none) = some trail) :
      (∃ rest, cs = trail ++ rest) ∧ cs.head?.any isWord = false := by
    split at h
    · next hb => exact ⟨⟨cs, by rw [← Option.some.inj h]; rfl⟩, isBoundary_of_isWord hl hb⟩
    · exact absurd h nofun
  cases site with
  | afterKeyword word => exact hboundary h
  | returnType => exact hboundary h
  | staticAccess =>
    obtain ⟨rest, hrest, ht⟩ := Option.map_eq_some_iff.mp h
    have hcs := eq_append_of_dropPrefix? hrest
    rw [← ht, hcs]
    exact ⟨⟨rest, rfl⟩, rfl⟩
  | parameterType =>
    obtain ⟨hrest, hspace, -⟩ := parameterTrail_sound h
    refine ⟨hrest, ?_⟩
    cases cs with
    | nil => rfl
    | cons c cs => exact not_isWord_of_isSpace hspace

theorem getLast?_append_name (hs : IsName short) (lead : List Char) :
    (lead ++ short).getLast? = short.getLast? :=
  List.getLast?_append_of_ne_nil lead hs.ne_nil

theorem isWord_getLast? (hs : IsName short) : short.getLast?.any isWord = true := by
  rw [List.getLast?_eq_some_getLast hs.ne_nil]
  exact hs.isWord _ (List.getLast_mem _)

theorem matcher_eq_some (hs : IsName short) {out : List Char} {n : Nat}
    (h : site.matcher short full before.getLast? cs = some (out, n)) :
    ∃ lead trail rest, cs = lead ++ (short ++ (trail ++ rest)) ∧ out = lead ++ full ++ trail ∧
      n = (lead ++ (short ++ trail)).length ∧ site.Reaches before lead ∧
      site.trail? short.getLast? (trail ++ rest) = some trail := by
  obtain ⟨⟨k, after⟩, hlead, h⟩ := List.exists_of_findSome?_eq_some h
  obtain ⟨lead, hcs, hk, hreach⟩ := mem_leads_iff.mp hlead
  simp only [Option.bind_eq_bind, Option.bind_eq_some_iff] at h
  obtain ⟨tail, htail, trail, htrail, hout⟩ := h
  have hafter := eq_append_of_dropPrefix? htail
  have htake : cs.take k = lead := by
    rw [hcs, ← hk, List.take_left]
  rw [htake, getLast?_append_name hs] at htrail
  obtain ⟨⟨rest, hrest⟩, -⟩ := trail_sound (isWord_getLast? hs) htrail
  obtain ⟨hout, hn⟩ := Prod.mk.inj (Option.some.inj hout)
  refine ⟨lead, trail, rest, ?_, ?_, ?_, hreach, hrest ▸ htrail⟩
  · rw [hcs, hafter, hrest]
  · rw [← hout, htake]
  · rw [← hn, ← hk, List.length_append, List.length_append, Nat.add_assoc]

/-- Where a site is reached and the name ends as it should, there is a match. -/
theorem matcher_isSome (hs : IsName short) (hl : site.Reaches before lead) {tail : List Char}
    (ht : (site.trail? short.getLast? tail).isSome = true) :
    (site.matcher short full before.getLast? (lead ++ (short ++ tail))).isSome = true := by
  obtain ⟨trail, htrail⟩ := Option.isSome_iff_exists.mp ht
  have hmem : (lead.length, short ++ tail) ∈
      site.leads before.getLast? (lead ++ (short ++ tail)) := mem_leads_iff.mpr ⟨lead, rfl, rfl, hl⟩
  unfold matcher
  rw [List.findSome?_isSome_iff]
  refine ⟨_, hmem, ?_⟩
  have hname := getLast?_append_name hs lead
  simp only [dropPrefix?_append, List.take_left, hname, htrail, Option.bind_eq_bind,
    Option.bind_some, Option.isSome_some]

end Site

end ScriptShell

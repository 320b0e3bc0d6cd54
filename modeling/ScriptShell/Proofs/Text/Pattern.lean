import ScriptShell.Text.Char
import ScriptShell.Text.Scan
import ScriptShell.Text.Trim

/-!
Patterns over text. At a place a pattern matches in several ways, and these have an order: the first
of two alternatives comes before the second, a long run before a short one. A search takes the first
way, whatever has to be given back for it; `first` asks what that way leads to, so that a pattern is
read part by part.
-/

namespace ScriptShell.Text

/-- A place in a text: the character before it, the text from it on, how many characters the match
has taken so far, and which of them its groups have kept. -/
structure Place where
  prev : Option Char
  rest : List Char
  taken : Nat
  groups : List (List Char)

namespace Place

/-- The place behind the longest run of such characters. -/
def past (p : Char → Bool) (s : Place) : Place :=
  { s with
    prev := (s.rest.takeWhile p).getLast?.or s.prev
    rest := s.rest.dropWhile p
    taken := s.taken + (s.rest.takeWhile p).length }

/-- What a match that ends here has found. -/
def found? (s : Place) : Option (List (List Char) × Nat) := some (s.groups, s.taken)

end Place

inductive Pattern where
  | nothing
  /-- The edge of a word. -/
  | boundary
  | one (p : Char → Bool)
  /-- A run of characters, as long as possible. -/
  | many (p : Char → Bool)
  | seq (q r : Pattern)
  | either (q r : Pattern)
  /-- Keep what the pattern takes. -/
  | group (r : Pattern)

namespace Pattern

/-- The places behind the runs of such characters, the longest run first. -/
def runs (p : Char → Bool) (groups : List (List Char)) :
    Option Char → Nat → List Char → List Place
  | prev, taken, [] => [⟨prev, [], taken, groups⟩]
  | prev, taken, c :: cs =>
    (if p c then runs p groups (some c) (taken + 1) cs else []) ++ [⟨prev, c :: cs, taken, groups⟩]

/-- The places that a match can end at, in the order of the ways that lead there. -/
def ways : Pattern → Place → List Place
  | nothing, s => [s]
  | boundary, s => if s.prev.any isWord = s.rest.head?.any isWord then [] else [s]
  | one p, s =>
    match s.rest with
    | [] => []
    | c :: cs => if p c then [⟨some c, cs, s.taken + 1, s.groups⟩] else []
  | many p, s => runs p s.groups s.prev s.taken s.rest
  | seq q r, s => (q.ways s).flatMap r.ways
  | either q r, s => q.ways s ++ r.ways s
  | group r, s => (r.ways s).map fun t =>
    { t with groups := t.groups ++ [s.rest.take (t.taken - s.taken)] }

/-- What the groups of the first way keep. -/
def matcher (r : Pattern) : Matcher (List (List Char)) := fun prev cs =>
  (r.ways ⟨prev, cs, 0, []⟩).head?.map fun t => (t.groups, t.taken)

/-- What is kept at the matches of a text, from left to right. -/
def captures (r : Pattern) (cs : List Char) : List (List (List Char)) := scan r.matcher cs

def optional (r : Pattern) : Pattern := either r nothing

/-- A given character. -/
def only (c : Char) : Pattern := one (· == c)

def literal : List Char → Pattern
  | [] => nothing
  | c :: cs => seq (only c) (literal cs)

theorem getLast?_or_some (c : Char) (prev : Option Char) (cs : List Char) :
    (c :: cs).getLast?.or prev = cs.getLast?.or (some c) := by
  rw [List.getLast?_cons]
  cases cs.getLast? with
  | none => rfl
  | some d => rfl

/-- What a scan finds can be put another way match by match. -/
theorem scanFrom_map {α β : Type} {m : Matcher α} {m' : Matcher β} (f : α → β)
    (h : ∀ prev cs, m' prev cs = (m prev cs).map fun (a, n) => (f a, n)) (prev : Option Char)
    (n : Nat) (cs : List Char) : scanFrom m' prev n cs = (scanFrom m prev n cs).map f := by
  induction cs generalizing prev n with
  | nil =>
    rw [scanFrom, scanFrom]
    rfl
  | cons c cs ih =>
    cases n with
    | succ n => exact ih (some c) n
    | zero =>
      rw [scanFrom, scanFrom, h]
      cases m prev (c :: cs) with
      | none => exact ih (some c) 0
      | some found => exact congrArg (f found.1 :: ·) (ih (some c) (found.2 - 1))

theorem captures_eq {α : Type} {r : Pattern} {m : Matcher α} (f : α → List (List Char))
    (h : ∀ prev cs, r.matcher prev cs = (m prev cs).map fun (a, n) => (f a, n))
    (cs : List Char) : r.captures cs = (scan m cs).map f :=
  scanFrom_map f h none 0 cs

section First

variable {β : Type} {q r : Pattern} {p : Char → Bool} {s : Place} {k : Place → Option β}

/-- What the first way is to which something can be answered. -/
def first (r : Pattern) (s : Place) (k : Place → Option β) : Option β := (r.ways s).findSome? k

theorem findSome?_some_comp {α γ : Type} (f : α → γ) (l : List α) :
    l.findSome? (fun a => some (f a)) = l.head?.map f := by
  cases l with
  | nil => rfl
  | cons a l => rfl

theorem matcher_eq (r : Pattern) (prev : Option Char) (cs : List Char) :
    r.matcher prev cs = first r ⟨prev, cs, 0, []⟩ Place.found? :=
  (findSome?_some_comp _ _).symm

theorem first_nothing : first nothing s k = k s := List.findSome?_singleton

theorem first_boundary :
    first boundary s k = if s.prev.any isWord = s.rest.head?.any isWord then none else k s := by
  rw [first, ways]
  split
  · rfl
  · exact List.findSome?_singleton

theorem first_seq : first (seq q r) s k = first q s fun t => first r t k := by
  rw [first, first, ways]
  induction q.ways s with
  | nil => rfl
  | cons t ts ih =>
    rw [List.flatMap_cons, List.findSome?_append, ih, List.findSome?_cons, first]
    cases List.findSome? k (r.ways t) with
    | none => rfl
    | some b => rfl

theorem first_boundary_seq (h : s.rest.head?.any isWord = false → first r s k = none) :
    first (seq boundary r) s k = if s.prev.any isWord = true then none else first r s k := by
  rw [first_seq, first_boundary]
  cases hprev : s.prev.any isWord with
  | false =>
    cases hhead : s.rest.head?.any isWord with
    | false => rw [if_pos rfl, if_neg Bool.false_ne_true, h hhead]
    | true => rw [if_neg Bool.false_ne_true]
  | true =>
    cases hhead : s.rest.head?.any isWord with
    | false => rw [if_neg nofun, if_pos rfl, h hhead]
    | true => rw [if_pos rfl]

theorem first_either : first (either q r) s k = (first q s k).or (first r s k) :=
  List.findSome?_append

theorem first_optional : first (optional r) s k = (first r s k).or (k s) := by
  rw [optional, first_either, first_nothing]

theorem first_group : first (group r) s k = first r s fun t =>
    k { t with groups := t.groups ++ [s.rest.take (t.taken - s.taken)] } :=
  List.findSome?_map

theorem first_one_cons {prev : Option Char} {c : Char} {cs : List Char} {n : Nat}
    {groups : List (List Char)} :
    first (one p) ⟨prev, c :: cs, n, groups⟩ k =
      if p c = true then k ⟨some c, cs, n + 1, groups⟩ else none := by
  rw [first, ways]
  dsimp only
  by_cases hc : p c = true
  · rw [if_pos hc, if_pos hc]
    exact List.findSome?_singleton
  · rw [if_neg hc, if_neg hc]
    rfl

theorem first_one_of_head (h : s.rest.head?.any p = false) : first (one p) s k = none := by
  obtain ⟨prev, rest, n, groups⟩ := s
  cases rest with
  | nil => rfl
  | cons c cs => rw [first_one_cons, if_neg (Bool.eq_false_iff.mp h : ¬p c = true)]

theorem first_only {c : Char} {prev : Option Char} {cs : List Char} {n : Nat}
    {groups : List (List Char)} :
    first (only c) ⟨prev, cs, n, groups⟩ k =
      if cs.head? = some c then k ⟨some c, cs.tail, n + 1, groups⟩ else none := by
  cases cs with
  | nil => rfl
  | cons d cs =>
    rw [only, first_one_cons, List.head?_cons]
    by_cases hd : d = c
    · rw [hd, if_pos (BEq.refl c), if_pos (by rfl)]
      rfl
    · rw [if_neg fun he => hd (eq_of_beq he), if_neg fun he => hd (Option.some.inj he)]

/-- A character of one kind is not found where one of the other kind stands. -/
theorem first_only_of_ne {c : Char} (h : s.rest.head?.any p ≠ p c) : first (only c) s k = none := by
  obtain ⟨prev, cs, n, groups⟩ := s
  rw [first_only, if_neg]
  intro hhead
  apply h
  dsimp only
  rw [hhead, Option.any_some]

theorem first_literal_of_ne {c : Char} {w : List Char} (h : s.rest.head?.any p ≠ p c) :
    first (literal (c :: w)) s k = none := by
  rw [literal, first_seq, first_only_of_ne h]

theorem first_literal {w : List Char} {prev : Option Char} {cs : List Char} {n : Nat}
    {groups : List (List Char)} :
    first (literal w) ⟨prev, cs, n, groups⟩ k =
      (dropPrefix? w cs).bind fun rest => k ⟨w.getLast?.or prev, rest, n + w.length, groups⟩ := by
  induction w generalizing prev cs n with
  | nil => exact first_nothing
  | cons c w ih =>
    rw [literal, first_seq, first_only]
    cases cs with
    | nil => rfl
    | cons d cs =>
      rw [dropPrefix?, List.head?_cons]
      by_cases hd : c = d
      · subst hd
        rw [if_pos rfl, if_pos (by rfl), ih, List.length_cons, getLast?_or_some c prev,
          Nat.add_right_comm, Nat.add_assoc]
        rfl
      · rw [if_neg fun he => hd (Option.some.inj he).symm, if_neg hd]
        rfl

theorem past_of_head (h : s.rest.head?.any p = false) : s.past p = s := by
  obtain ⟨prev, rest, n, groups⟩ := s
  cases rest with
  | nil => rfl
  | cons c cs =>
    have hc : ¬p c = true := Bool.eq_false_iff.mp h
    rw [Place.past, List.takeWhile_cons_of_neg hc, List.dropWhile_cons_of_neg hc]
    rfl

theorem past_cons {prev : Option Char} {c : Char} {cs : List Char} {n : Nat}
    {groups : List (List Char)} (hc : p c = true) :
    Place.past p ⟨prev, c :: cs, n, groups⟩ = Place.past p ⟨some c, cs, n + 1, groups⟩ := by
  rw [Place.past, Place.past, List.takeWhile_cons_of_pos hc, List.dropWhile_cons_of_pos hc,
    List.length_cons, getLast?_or_some c prev, Nat.add_right_comm, Nat.add_assoc]

/-- The longest run is taken if what fails behind it fails behind the shorter ones. -/
theorem first_many
    (h : k (s.past p) = none → ∀ t, t.past p = s.past p → t.rest.head?.any p = true → k t = none) :
    first (many p) s k = k (s.past p) := by
  obtain ⟨prev, rest, n, groups⟩ := s
  rw [first, ways]
  induction rest generalizing prev n with
  | nil => exact List.findSome?_singleton
  | cons c cs ih =>
    rw [runs, List.findSome?_append, List.findSome?_singleton]
    by_cases hc : p c = true
    · rw [past_cons hc] at h ⊢
      rw [if_pos hc, ih (some c) (n + 1) h]
      cases hk : k (Place.past p ⟨some c, cs, n + 1, groups⟩) with
      | none => exact h hk _ (past_cons hc) hc
      | some b => rfl
    · have hhead : (Place.mk prev (c :: cs) n groups).rest.head?.any p = false :=
        Bool.eq_false_iff.mpr hc
      rw [if_neg hc, past_of_head hhead]
      rfl

/-- What comes behind a run fails in front of such a character, if it can fail at all. -/
def Spares (p : Char → Bool) (k : Place → Option β) : Prop :=
  ∀ t u, k t = none → u.rest.head?.any p = true → k u = none

/-- What fails behind the longest run fails wherever a shorter one ends. -/
def Settles (p : Char → Bool) (k : Place → Option β) : Prop :=
  ∀ t, k (t.past p) = none → k t = none

theorem Settles.of_head (h : ∀ t, t.rest.head?.any p = true → k t = none) : Settles p k := by
  intro t ht
  cases hp : t.rest.head?.any p with
  | true => exact h t hp
  | false =>
    rw [past_of_head hp] at ht
    exact ht

theorem Spares.of_head (h : ∀ t, t.rest.head?.any p = true → k t = none) : Spares p k :=
  fun _ u _ hu => h u hu

theorem Spares.keep (h : Spares p k) (kept : Place → List (List Char)) :
    Spares p fun t => k { t with groups := kept t } :=
  fun _ _ ht hu => h _ _ ht hu

theorem Spares.of_ne_none (h : ∀ t, k t ≠ none) : Spares p k := fun t _ ht => absurd ht (h t)

/-- A match that ends can end anywhere. -/
theorem Spares.found? (p : Char → Bool) : Spares p Place.found? :=
  Spares.of_ne_none fun _ => Option.some_ne_none _

theorem first_many_of_spares (h : Spares p k) : first (many p) s k = k (s.past p) :=
  first_many fun hk t _ ht => h _ t hk ht

theorem first_many_of_settles (h : Settles p k) : first (many p) s k = k (s.past p) :=
  first_many fun hk t ht _ => h t (ht ▸ hk)

theorem first_one_many (h : Settles p fun t => first r t k) :
    first (seq (one p) (seq (many p) r)) s k =
      if s.rest.head?.any p = true then first r (s.past p) k else none := by
  obtain ⟨prev, cs, n, groups⟩ := s
  rw [first_seq]
  cases cs with
  | nil => rfl
  | cons c cs =>
    rw [first_one_cons, List.head?_cons, Option.any_some]
    split
    · next hc => rw [first_seq, first_many_of_settles h, past_cons hc]
    · rfl

theorem Settles.many (h : Settles p k) : Settles p fun t => first (many p) t k := by
  intro t ht
  dsimp only at ht ⊢
  rw [first_many_of_settles h] at ht ⊢
  exact h _ ht

/-- In front of white space a part that cannot match there may as well be left out. -/
theorem Settles.optional_many (h : Settles p k)
    (hr : ∀ t, t.rest.head?.any p = true → ∀ k' : Place → Option β, first r t k' = none) :
    Settles p fun t => first (optional r) t fun u => first (Pattern.many p) u k := by
  intro t ht
  dsimp only at ht ⊢
  rw [first_optional, Option.or_eq_none_iff] at ht
  cases hp : t.rest.head?.any p with
  | true =>
    rw [first_optional, hr t hp, Option.none_or]
    exact h.many t ht.2
  | false =>
    rw [past_of_head hp, ← Option.or_eq_none_iff, ← first_optional] at ht
    exact ht

end First

end Pattern

end ScriptShell.Text

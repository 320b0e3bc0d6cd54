/-!
Signed bracket counts and unescaped quotes of a text. Both add up over concatenation, the quotes as
long as the first part does not end in a backslash.
-/

namespace ScriptShell

/-- Opening minus closing brackets of each kind. -/
structure Balance where
  braces : Int
  brackets : Int
  parens : Int
deriving DecidableEq, Repr

namespace Balance

instance : Zero Balance := ⟨⟨0, 0, 0⟩⟩

instance : Add Balance :=
  ⟨fun a b => ⟨a.braces + b.braces, a.brackets + b.brackets, a.parens + b.parens⟩⟩

def ofChar : Char → Balance
  | '{' => ⟨1, 0, 0⟩
  | '}' => ⟨-1, 0, 0⟩
  | '[' => ⟨0, 1, 0⟩
  | ']' => ⟨0, -1, 0⟩
  | '(' => ⟨0, 0, 1⟩
  | ')' => ⟨0, 0, -1⟩
  | _ => 0

def of : List Char → Balance
  | [] => 0
  | c :: cs => ofChar c + of cs

/-- Some kind has more openers than closers; surplus closers leave nothing open. -/
def anyOpen (b : Balance) : Bool := b.braces > 0 || b.brackets > 0 || b.parens > 0

@[ext] theorem ext {a b : Balance} (h1 : a.braces = b.braces) (h2 : a.brackets = b.brackets)
    (h3 : a.parens = b.parens) : a = b := by
  cases a; cases b; simp_all

@[simp] theorem zero_add (a : Balance) : 0 + a = a := by
  ext
  · exact Int.zero_add a.braces
  · exact Int.zero_add a.brackets
  · exact Int.zero_add a.parens

theorem add_assoc (a b c : Balance) : a + b + c = a + (b + c) := by
  ext
  · exact Int.add_assoc a.braces b.braces c.braces
  · exact Int.add_assoc a.brackets b.brackets c.brackets
  · exact Int.add_assoc a.parens b.parens c.parens

theorem of_append (a b : List Char) : of (a ++ b) = of a + of b := by
  induction a with
  | nil => exact (zero_add (of b)).symm
  | cons c a ih => rw [List.cons_append, of, of, ih, add_assoc]

end Balance

/-- The number of `quote` characters that no backslash stands right before, in a text that follows
the character `prev`. -/
def countUnescapedFrom (quote : Char) : Option Char → List Char → Nat
  | _, [] => 0
  | prev, c :: cs =>
    (if c = quote ∧ prev ≠ some '\\' then 1 else 0) + countUnescapedFrom quote (some c) cs

def countUnescaped (quote : Char) (cs : List Char) : Nat := countUnescapedFrom quote none cs

theorem countUnescapedFrom_eq_zero {quote : Char} {cs : List Char} (h : quote ∉ cs)
    (prev : Option Char) : countUnescapedFrom quote prev cs = 0 := by
  induction cs generalizing prev with
  | nil => rfl
  | cons c cs ih =>
    rw [List.mem_cons, not_or] at h
    rw [countUnescapedFrom, ih h.2, if_neg fun hc => h.1 hc.1.symm]

/-- Of the character before a text only a backslash matters. -/
theorem countUnescapedFrom_congr (quote : Char) {prev prev' : Option Char} (h : prev ≠ some '\\')
    (h' : prev' ≠ some '\\') (cs : List Char) :
    countUnescapedFrom quote prev cs = countUnescapedFrom quote prev' cs := by
  cases cs with
  | nil => rfl
  | cons c cs =>
    rw [countUnescapedFrom, countUnescapedFrom]
    simp only [ne_eq, h, h', not_false_eq_true]

end ScriptShell

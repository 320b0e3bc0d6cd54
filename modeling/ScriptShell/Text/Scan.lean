/-!
Leftmost matches that do not overlap. A matcher looks at the character before a position and at the
text from there on; it answers with what it found and how many characters that took.
-/

namespace ScriptShell.Text

/-- A matcher at a position: the character before it, the text from it on. -/
abbrev Matcher (α : Type) := Option Char → List Char → Option (α × Nat)

/-- All matches from left to right, each starting where the last one ended or later; the number
counts the characters that the last match still covers. -/
def scanFrom {α : Type} (m : Matcher α) : Option Char → Nat → List Char → List α
  | _, _, [] => []
  | _, n + 1, c :: cs => scanFrom m (some c) n cs
  | prev, 0, c :: cs =>
    match m prev (c :: cs) with
    | some (a, n) => a :: scanFrom m (some c) (n - 1) cs
    | none => scanFrom m (some c) 0 cs

def scan {α : Type} (m : Matcher α) (cs : List Char) : List α := scanFrom m none 0 cs

/-- The text with every match of `scanFrom` replaced by what the matcher gives for it. -/
def rewriteFrom (m : Matcher (List Char)) : Option Char → Nat → List Char → List Char
  | _, _, [] => []
  | _, n + 1, c :: cs => rewriteFrom m (some c) n cs
  | prev, 0, c :: cs =>
    match m prev (c :: cs) with
    | some (out, n) => out ++ rewriteFrom m (some c) (n - 1) cs
    | none => c :: rewriteFrom m (some c) 0 cs

def rewrite (m : Matcher (List Char)) (cs : List Char) : List Char := rewriteFrom m none 0 cs

theorem rewriteFrom_of_forall_none {m : Matcher (List Char)} (cs : List Char) (prev : Option Char)
    (h : ∀ p a b, cs = a ++ b → m p b = none) : rewriteFrom m prev 0 cs = cs := by
  induction cs generalizing prev with
  | nil => rfl
  | cons c cs ih =>
    rw [rewriteFrom, h prev [] (c :: cs) rfl]
    exact congrArg (c :: ·) (ih (some c) fun p a b hab => h p (c :: a) b (by simp [hab]))

end ScriptShell.Text

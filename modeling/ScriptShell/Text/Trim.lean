import ScriptShell.Text.Char

/-!
White space at the ends of a text, prefixes and suffixes.
-/

namespace ScriptShell.Text

def trimStart (cs : List Char) : List Char := cs.dropWhile isSpace

/-- The text without the longest run at its end whose characters satisfy `p`. -/
def dropEndWhile (p : Char → Bool) (cs : List Char) : List Char := (cs.reverse.dropWhile p).reverse

def trimEnd (cs : List Char) : List Char := dropEndWhile isSpace cs

/-- The text without white space at either end. -/
def trim (cs : List Char) : List Char := trimEnd (trimStart cs)

/-- What follows `start` when the text begins with it. -/
def dropPrefix? : List Char → List Char → Option (List Char)
  | [], cs => some cs
  | _ :: _, [] => none
  | p :: ps, c :: cs => if p = c then dropPrefix? ps cs else none

/-- What precedes `ending` when the text closes with it. -/
def dropSuffix? (ending cs : List Char) : Option (List Char) :=
  (dropPrefix? ending.reverse cs.reverse).map List.reverse

theorem dropPrefix?_append (p cs : List Char) : dropPrefix? p (p ++ cs) = some cs := by
  induction p with
  | nil => rfl
  | cons c p ih => simp [dropPrefix?, ih]

theorem eq_append_of_dropPrefix? {p cs rest : List Char} (h : dropPrefix? p cs = some rest) :
    cs = p ++ rest := by
  induction p generalizing cs with
  | nil => simpa [dropPrefix?] using h
  | cons c p ih =>
    cases cs with
    | nil => simp [dropPrefix?] at h
    | cons d cs =>
      by_cases hc : c = d
      · subst hc
        simp only [dropPrefix?, ↓reduceIte] at h
        simp [ih h]
      · simp [dropPrefix?, hc] at h

/-- The text before the first `c` and the text after it. -/
def splitOnce? (c : Char) : List Char → Option (List Char × List Char)
  | [] => none
  | d :: cs => if d = c then some ([], cs) else (splitOnce? c cs).map fun p => (d :: p.1, p.2)

end ScriptShell.Text

namespace ScriptShell

/-- The text without white space at either end. -/
def trim (s : String) : String := String.ofList (Text.trim s.toList)

/-- No character but white space. -/
def isBlank (s : String) : Bool := s.toList.all Text.isSpace

end ScriptShell

import ScriptShell.Text.Char
import ScriptShell.Text.ClusterTable

/-!
The visible units of a text: a character with the marks on it, a syllable of Hangul, a flag, a
joined pictograph or a conjunct of consonants.
-/

namespace ScriptShell.Text

/-- What a character contributes to a unit. -/
inductive ClusterClass where
  | carriageReturn
  | lineFeed
  | control
  /-- Marks, of which some also join what is on both sides of them. -/
  | extend
  | linker
  | nonJoiner
  | joiner
  | spacing
  | prepend
  /-- Hangul: a leading consonant, a vowel, a trailing consonant, and whole syllables. -/
  | leading
  | vowel
  | trailing
  | openSyllable
  | closedSyllable
  | regional
  | pictograph
  | consonant
  | other
deriving DecidableEq, Repr

namespace ClusterClass

/-- A syllable of Hangul by its number: every 28th one ends in its vowel. -/
def ofSyllable (n : Nat) : ClusterClass := if n % 28 = 0 then .openSyllable else .closedSyllable

/-- The class of a code point beyond ASCII. -/
def ofCodePoint (n : Nat) : ClusterClass :=
  if n = 0x200C then .nonJoiner
  else if n = 0x200D then .joiner
  else if 0xAC00 ≤ n ∧ n ≤ 0xD7A3 then ofSyllable (n - 0xAC00)
  else if 0x1F1E6 ≤ n ∧ n ≤ 0x1F1FF then .regional
  else if 0x1F3FB ≤ n ∧ n ≤ 0x1F3FF then .extend
  else if inRanges n linkerRanges then .linker
  else if inRanges n extendRanges then .extend
  else if inRanges n spacingRanges then .spacing
  else if inRanges n standingAlone then .control
  else if inRanges n prependRanges then .prepend
  else if inRanges n leadingRanges then .leading
  else if inRanges n vowelRanges then .vowel
  else if inRanges n trailingRanges then .trailing
  else if inRanges n pictographRanges then .pictograph
  else if inRanges n consonantRanges then .consonant
  else .other

def ofChar (c : Char) : ClusterClass :=
  if c = '\r' then .carriageReturn
  else if c = '\n' then .lineFeed
  else if c.toNat < 128 then
    if c.toNat < 32 ∨ c.toNat = 127 then .control else .other
  else ofCodePoint c.toNat

def isControl : ClusterClass → Bool
  | .carriageReturn | .lineFeed | .control => true
  | _ => false

def isMark : ClusterClass → Bool
  | .extend | .linker | .nonJoiner | .joiner | .spacing => true
  | _ => false

end ClusterClass

/-- How a unit ends so far, as far as that decides what may still join it. -/
inductive ClusterEnd where
  | carriageReturn
  | control
  | prepend
  | leading
  | vowel
  | trailing
  /-- A regional indicator that waits for the other half of a flag. -/
  | regional
  /-- A pictograph and marks, and the same with a joiner. -/
  | pictograph
  | joined
  /-- A consonant and marks, and the same with a linker among these. -/
  | consonant
  | linked
  | plain
deriving DecidableEq, Repr

namespace ClusterEnd

/-- The end of a unit of one character. -/
def start : ClusterClass → ClusterEnd
  | .carriageReturn => .carriageReturn
  | .lineFeed | .control => .control
  | .prepend => .prepend
  | .leading => .leading
  | .vowel | .openSyllable => .vowel
  | .trailing | .closedSyllable => .trailing
  | .regional => .regional
  | .pictograph => .pictograph
  | .consonant => .consonant
  | _ => .plain

/-- A character that is no mark belongs to the unit before it. -/
def joinsLetter : ClusterEnd → ClusterClass → Bool
  | .prepend, _ => true
  | .leading, .leading | .leading, .vowel => true
  | .leading, .openSyllable | .leading, .closedSyllable => true
  | .vowel, .vowel | .vowel, .trailing => true
  | .trailing, .trailing => true
  | .regional, .regional => true
  | .joined, .pictograph => true
  | .linked, .consonant => true
  | _, _ => false

/-- A character belongs to the unit before it. -/
def joins (e : ClusterEnd) (k : ClusterClass) : Bool :=
  if k.isControl then e = .carriageReturn && k = .lineFeed
  else if e = .carriageReturn ∨ e = .control then false
  else k.isMark || e.joinsLetter k

/-- The end of a unit after another mark. -/
def afterMark : ClusterEnd → ClusterClass → ClusterEnd
  | .pictograph, .joiner => .joined
  | .pictograph, .extend | .pictograph, .linker | .pictograph, .nonJoiner => .pictograph
  | .consonant, .linker => .linked
  | .consonant, .extend | .consonant, .joiner => .consonant
  | .linked, .linker | .linked, .extend | .linked, .joiner => .linked
  | _, _ => .plain

/-- The end of a unit after another character; a flag has two halves. -/
def next (e : ClusterEnd) (k : ClusterClass) : ClusterEnd :=
  if k.isMark then e.afterMark k
  else if e = .regional ∧ k = .regional then .plain
  else start k

end ClusterEnd

/-- The units of a text of which the first one has been started; it is given backwards. -/
def clustersFrom (e : ClusterEnd) (back : List Char) : List Char → List (List Char)
  | [] => [back.reverse]
  | c :: cs =>
    let k := ClusterClass.ofChar c
    if e.joins k then clustersFrom (e.next k) (c :: back) cs
    else back.reverse :: clustersFrom (.start k) [c] cs

/-- The visible units of a text. -/
def clusters : List Char → List (List Char)
  | [] => []
  | c :: cs => clustersFrom (.start (ClusterClass.ofChar c)) [c] cs

end ScriptShell.Text

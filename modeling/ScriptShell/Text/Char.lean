import ScriptShell.Text.ExtendTable
import ScriptShell.Text.IdentifierTable
import ScriptShell.Text.UnprintableTable
import ScriptShell.Text.WordTable

/-!
Classes of characters: white space, words, identifiers, names, and what a quoted text hides.
-/

namespace ScriptShell.Text

/-- Membership of a code point in a list of closed ranges. -/
def inRanges (n : Nat) (ranges : List (Nat × Nat)) : Bool :=
  ranges.any fun r => r.1 ≤ n && n ≤ r.2

/-- The characters with the property White_Space. -/
def spaceRanges : List (Nat × Nat) :=
  [(0x9, 0xD), (0x20, 0x20), (0x85, 0x85), (0xA0, 0xA0), (0x1680, 0x1680), (0x2000, 0x200A),
   (0x2028, 0x2029), (0x202F, 0x202F), (0x205F, 0x205F), (0x3000, 0x3000)]

def isSpace (c : Char) : Bool := inRanges c.toNat spaceRanges

/-- A letter or digit of ASCII, or the underscore. -/
def isAsciiWord (c : Char) : Bool := c.isAlphanum || c == '_'

/-- A character of a word: what a variable's or a class's name consists of. -/
def isWord (c : Char) : Bool :=
  if c.toNat < 128 then isAsciiWord c else inRanges c.toNat wordRanges

/-- A character that the line editor counts as part of the word under the cursor. -/
def isIdentifier (c : Char) : Bool :=
  (isWord c && !inRanges c.toNat wordOnly) || inRanges c.toNat identifierOnly

/-- A character that starts a name. -/
def isNameStart (c : Char) : Bool := c.isAlpha || c == '_'

/-- A character that belongs to the visible unit before it. -/
def isExtending (c : Char) : Bool := inRanges c.toNat extendRanges

/-- The halfwidth sound marks of kana, which extend a unit but are letters. -/
def isSoundMark (c : Char) : Bool := c.toNat == 0xFF9E || c.toNat == 0xFF9F

/-- A character that a quoted text shows by its code point. -/
def isUnprintable (c : Char) : Bool :=
  if c.toNat < 128 then c.toNat < 32 || c.toNat == 127
  else inRanges c.toNat unprintableRanges || isExtending c && !isSoundMark c

theorem isWord_of_isNameStart {c : Char} (h : isNameStart c = true) : isWord c = true := by
  have hlt : c.toNat < 128 := by
    have hc : isNameStart c = (decide (c.val ≥ 65 ∧ c.val ≤ 90) ||
        (decide (c.val ≥ 97) && decide (c.val ≤ 122)) || c == '_') := rfl
    simp only [hc, Bool.or_eq_true, Bool.and_eq_true, decide_eq_true_eq, beq_iff_eq] at h
    rcases h with (⟨-, h⟩ | ⟨-, h⟩) | rfl
    · exact Nat.lt_of_le_of_lt (UInt32.le_iff_toNat_le.mp h) (by decide)
    · exact Nat.lt_of_le_of_lt (UInt32.le_iff_toNat_le.mp h) (by decide)
    · decide
  simp only [isNameStart, Bool.or_eq_true] at h
  simp only [isWord, hlt, ↓reduceIte, isAsciiWord, Char.isAlphanum, Bool.or_eq_true]
  exact h.imp Or.inl id

end ScriptShell.Text

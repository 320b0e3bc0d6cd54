/-!
The range of double precision, and the double nearest to a whole number.
-/

namespace ScriptShell.Double

/-- The least number that rounds to no finite double. -/
def overflow : Nat := Nat.pow 2 1024 - Nat.pow 2 970

/-- The decimal number rounds to a finite double. -/
def isFinite (significand : Nat) (exponent : Int) : Bool :=
  significand == 0 ||
    let size : Int := (Nat.toDigits 10 significand).length + exponent
    if size ≤ 308 then true
    else if size ≥ 310 then false
    else
      if 0 ≤ exponent then significand * Nat.pow 10 exponent.toNat < overflow
      else significand < overflow * Nat.pow 10 (-exponent).toNat

/-- The double nearest to a whole number in range; halfway between two, the last of its 53 bits is
even. -/
def nearest (n : Nat) : Nat :=
  let shift := n.log2 - 52
  let kept := n >>> shift
  let twiceLost := 2 * (n - kept <<< shift)
  let unit := 1 <<< shift
  if unit < twiceLost ∨ unit = twiceLost ∧ kept % 2 = 1 then (kept + 1) <<< shift
  else kept <<< shift

/-- The largest power of ten that is a finite double. -/
def maxPowerOfTen : Nat := 308

/-- A number times a power of ten is finite when both are taken as doubles first. -/
def productIsFinite (significand : Nat) (exponent : Int) : Bool :=
  significand == 0 || exponent < 0 ||
    (exponent ≤ maxPowerOfTen &&
      nearest significand * nearest (Nat.pow 10 exponent.toNat) < overflow)

end ScriptShell.Double

import SchemaTypings.Number.Digits
import SchemaTypings.Number.Double

namespace SchemaTypings.Number

structure Numeral where
  negative : Bool
  whole : List Nat
  fraction : Option (List Nat)
  exponent : Option Int
deriving DecidableEq

def significandLimit : Nat := Nat.pow 2 64 - 1

/-- Appends digits to a significand as long as it stays within the limit, and gives the digits that
did not fit. -/
def takeDigits (significand : Nat) : List Nat → Nat × List Nat
  | [] => (significand, [])
  | d :: ds =>
    if significandLimit < significand * 10 + d then (significand, d :: ds)
    else takeDigits (significand * 10 + d) ds

namespace Numeral

def isWhole (n : Numeral) : Bool :=
  n.fraction.isNone && n.exponent.isNone

/-- The significand and the power of ten that it is scaled by. Whole digits that do not fit count
as zeros; digits after the point that do not fit are dropped. -/
def scaled (n : Numeral) : Nat × Int :=
  let (s, wholeLeft) := takeDigits 0 n.whole
  let fraction := n.fraction.getD []
  let (s, fractionLeft) := takeDigits s fraction
  (s, (wholeLeft.length : Int) - ((fraction.length : Int) - (fractionLeft.length : Int)) +
    n.exponent.getD 0)

end Numeral

def tenLimit : Nat := 308

def powerOfTen (e : Nat) : Double :=
  (Double.round (Nat.pow 10 e) 1).getD Double.zero

def divPowerOfTen (d : Double) (e : Nat) : Option Double :=
  if d.mantissa = 0 then some d
  else if e ≤ tenLimit then d.div (powerOfTen e)
  else (d.div (powerOfTen tenLimit)).bind fun d => divPowerOfTen d (e - tenLimit)
termination_by e
decreasing_by simp [tenLimit] at *; omega

/-- The magnitude of a numeral: its significand and the power of ten are rounded, and then their
product or quotient. None where that is beyond the greatest number. -/
def Numeral.magnitude (n : Numeral) : Option Double :=
  let (s, e) := n.scaled
  (Double.round s 1).bind fun d =>
    if 0 ≤ e then
      if s = 0 then some d
      else if e.toNat ≤ tenLimit then d.mul (powerOfTen e.toNat)
      else none
    else divPowerOfTen d (-e).toNat

end SchemaTypings.Number

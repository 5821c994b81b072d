namespace SchemaTypings.Number

/-- The number `mantissa * 2 ^ exponent`, with a mantissa of at most 53 bits. The mantissa has
exactly 53 bits unless the exponent is the least one. -/
structure Double where
  mantissa : Nat
  exponent : Int
deriving DecidableEq

def roundQuotient (num den : Nat) : Nat :=
  let q := num / den
  let r := num % den
  if den < 2 * r ∨ (2 * r = den ∧ q % 2 = 1) then q + 1 else q

def shiftDown (num den : Nat) (e : Int) : Nat × Nat :=
  if 0 ≤ e then (num, den * Nat.pow 2 e.toNat) else (num * Nat.pow 2 (-e).toNat, den)

def binaryOrder (num den : Nat) : Int :=
  let e : Int := (num.log2 : Int) - (den.log2 : Int)
  let f := shiftDown num den e
  if f.2 ≤ f.1 then e else e - 1

namespace Double

def leastExponent : Int := -1074

def greatestExponent : Int := 971

def zero : Double := ⟨0, leastExponent⟩

/-- The nearest number to a fraction, a half to the even mantissa; none where that is beyond the
greatest number. -/
def round (num den : Nat) : Option Double :=
  if num = 0 then some zero
  else
    let e := max (binaryOrder num den - 52) leastExponent
    let f := shiftDown num den e
    let m := roundQuotient f.1 f.2
    let d : Double := if m = Nat.pow 2 53 then ⟨Nat.pow 2 52, e + 1⟩ else ⟨m, e⟩
    if greatestExponent < d.exponent then none else some d

def ratio (d : Double) : Nat × Nat :=
  if 0 ≤ d.exponent then (d.mantissa * Nat.pow 2 d.exponent.toNat, 1)
  else (d.mantissa, Nat.pow 2 (-d.exponent).toNat)

def mul (a b : Double) : Option Double :=
  round (a.ratio.1 * b.ratio.1) (a.ratio.2 * b.ratio.2)

def div (a b : Double) : Option Double :=
  round (a.ratio.1 * b.ratio.2) (a.ratio.2 * b.ratio.1)

end Double

end SchemaTypings.Number

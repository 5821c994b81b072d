import SchemaTypings.Number.Double

namespace SchemaTypings.Number

structure Decimal where
  digits : Nat
  scale : Int

def overTens (num den : Nat) (n : Nat) (k : Int) : Nat × Nat :=
  if 0 ≤ k then (num, n * Nat.pow 10 k.toNat * den) else (num * Nat.pow 10 (-k).toNat, n * den)

def Decimal.le (a : Decimal) (f : Nat × Nat) : Bool :=
  let (l, r) := overTens f.1 f.2 a.digits a.scale
  r ≤ l

def Decimal.ge (a : Decimal) (f : Nat × Nat) : Bool :=
  let (l, r) := overTens f.1 f.2 a.digits a.scale
  l ≤ r

def Decimal.eq (a : Decimal) (f : Nat × Nat) : Bool :=
  a.le f && a.ge f

def decimalOrder (num den : Nat) : Int :=
  if den ≤ num then (Nat.toDigits 10 (num / den)).length
  else
    match (List.range 400).find? fun j => den ≤ num * Nat.pow 10 j with
    | some j => 1 - (j : Int)
    | none => -400

namespace Double

def lowerBound (d : Double) : Nat × Nat :=
  let narrow := d.mantissa = Nat.pow 2 52 ∧ leastExponent < d.exponent
  ratio ⟨4 * d.mantissa - (if narrow then 1 else 2), d.exponent - 2⟩

def upperBound (d : Double) : Nat × Nat :=
  ratio ⟨4 * d.mantissa + 2, d.exponent - 2⟩

/-- The bounds themselves round to the number just when its mantissa is even. -/
def readsAs (d : Double) (a : Decimal) : Bool :=
  a.ge d.lowerBound && a.le d.upperBound &&
    (d.mantissa % 2 == 0 || !(a.eq d.lowerBound || a.eq d.upperBound))

/-- The decimal of `n` digits that is nearest to the number, if one reads as it. -/
def nearestDecimal (d : Double) (n : Nat) : Option Decimal :=
  let (num, den) := d.ratio
  let k := decimalOrder num den - (n : Int)
  let (l, r) := overTens num den 1 k
  let below : Decimal := ⟨l / r, k⟩
  let above : Decimal := ⟨l / r + 1, k⟩
  match d.readsAs below, d.readsAs above with
  | true, true => some (if 2 * (l % r) < r ∨ (2 * (l % r) = r ∧ l / r % 2 = 0) then below else above)
  | true, false => some below
  | false, true => some above
  | false, false => none

end Double

def Decimal.dropZeros (a : Decimal) : Decimal :=
  if a.digits ≠ 0 ∧ a.digits % 10 = 0 then Decimal.dropZeros ⟨a.digits / 10, a.scale + 1⟩ else a
termination_by a.digits
decreasing_by simp_all; omega

/-- The fewest digits that read back as the number, and of those the nearest. -/
def Double.shortest (d : Double) : Decimal :=
  (((List.range 17).findSome? fun n => d.nearestDecimal (n + 1)).getD ⟨0, 0⟩).dropZeros

def exponentText (e : Int) : List Char :=
  'e' :: (if 0 ≤ e then '+' else '-') :: Nat.toDigits 10 e.natAbs

/-- Positional from `1e-5` up to `1e16`, always with a point; beyond that with an exponent. -/
def Decimal.text (a : Decimal) : List Char :=
  let ds := Nat.toDigits 10 a.digits
  let order : Int := (ds.length : Int) + a.scale
  if 0 ≤ a.scale ∧ order ≤ 16 then ds ++ List.replicate a.scale.toNat '0' ++ ['.', '0']
  else if 0 < order ∧ order ≤ 16 then ds.take order.toNat ++ ['.'] ++ ds.drop order.toNat
  else if -5 < order ∧ order ≤ 0 then ['0', '.'] ++ List.replicate (-order).toNat '0' ++ ds
  else
    match ds with
    | [d] => d :: exponentText (order - 1)
    | d :: rest => d :: '.' :: rest ++ exponentText (order - 1)
    | [] => []

def floatText (negative : Bool) (d : Double) : String :=
  let digits := if d.mantissa = 0 then ['0', '.', '0'] else d.shortest.text
  String.ofList (if negative then '-' :: digits else digits)

end SchemaTypings.Number

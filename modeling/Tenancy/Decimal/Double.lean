/-!
# Binary64 numbers

A finite binary64 number is a sign, a mantissa below `2 ^ 53` and an exponent of two that is at least
`-1074`; the mantissa has its top bit set unless the exponent is the least one. Rounding goes to the
nearest number and, half way between two, to the one with the even mantissa. Every operation here is
one exact rational followed by one rounding.
-/

namespace Tenancy

/-- A finite binary64 number, `± mantissa * 2 ^ exponent`. -/
structure Double where
  negative : Bool
  mantissa : Nat
  exponent : Int
  deriving DecidableEq, Repr, Inhabited

namespace Double

def minExponent : Int := -1074

def maxExponent : Int := 971

/-- The integer nearest to `num / den`, and the even one of two that are equally near. -/
def divideToEven (num den : Nat) : Nat :=
  let q := num / den
  let r := num % den
  if 2 * r < den then q
  else if den < 2 * r then q + 1
  else if q % 2 = 0 then q else q + 1

def twoTo (k : Nat) : Nat := Nat.pow 2 k

def tenTo (k : Nat) : Nat := Nat.pow 10 k

/-- The product `num / den * 2 ^ e` as a fraction of naturals. -/
def scale (num den : Nat) (e : Int) : Nat × Nat :=
  if 0 ≤ e then (num * twoTo e.toNat, den) else (num, den * twoTo (-e).toNat)

/-- The exponent at which `num / den` has a mantissa of 53 bits, but not below the least one. -/
def exponentFor (num den : Nat) : Int :=
  let guess : Int := (Nat.log2 num : Int) - (Nat.log2 den : Int) - 52
  let (n, d) := scale num den (-guess)
  let e := if n < d * twoTo 52 then guess - 1 else guess
  max e minExponent

/-- The binary64 number nearest to `num / den`, with a sign; none if it is too large. -/
def round? (negative : Bool) (num den : Nat) : Option Double :=
  if num = 0 then some ⟨negative, 0, minExponent⟩
  else
    let e := exponentFor num den
    let (n, d) := scale num den (-e)
    let m := divideToEven n d
    let (m, e) := if m = twoTo 53 then (twoTo 52, e + 1) else (m, e)
    if maxExponent < e then none else some ⟨negative, m, e⟩

def zero (negative : Bool) : Double := ⟨negative, 0, minExponent⟩

def isZero (x : Double) : Bool := x.mantissa = 0

/-- The number nearest to a natural number. -/
def ofNat? (negative : Bool) (n : Nat) : Option Double := round? negative n 1

/-- The size of `x` as a fraction of naturals. -/
def magnitude (x : Double) : Nat × Nat := scale x.mantissa 1 x.exponent

def toRat (x : Double) : Rat :=
  let (a, b) := x.magnitude
  let size : Rat := (a : Rat) / (b : Rat)
  if x.negative then -size else size

/-- The value of the binary64 number nearest to `q`, and `q` itself where that is too large. -/
def nearest (q : Rat) : Rat := ((round? (q < 0) q.num.natAbs q.den).map toRat).getD q

/-- The product with `10 ^ k`, where the power is itself rounded first. -/
def timesTenPower? (x : Double) (k : Nat) : Option Double := do
  let p ← round? false (tenTo k) 1
  let (a, b) := x.magnitude
  let (c, d) := p.magnitude
  round? x.negative (a * c) (b * d)

/-- The quotient by `10 ^ k`, where the power is itself rounded first. -/
def overTenPower? (x : Double) (k : Nat) : Option Double := do
  let p ← round? false (tenTo k) 1
  let (a, b) := x.magnitude
  let (c, d) := p.magnitude
  round? x.negative (a * d) (b * c)

/-- The greatest power of ten that is itself a finite number. -/
def maxTenPower : Nat := 308

/-- Apply `10 ^ e` in at most `steps` steps of at most 308 places, rounding after each. -/
def applySteps? : Nat → Double → Int → Option Double
  | 0, x, _ => some x
  | steps + 1, x, e =>
    if e.natAbs ≤ maxTenPower then
      if 0 ≤ e then x.timesTenPower? e.natAbs else x.overTenPower? e.natAbs
    else if x.isZero then some x
    else if 0 ≤ e then none
    else (x.overTenPower? maxTenPower).bind fun y => applySteps? steps y (e + maxTenPower)

/-- Apply `10 ^ e` in steps of at most 308 places, rounding after each. -/
def applyTenPower? (x : Double) (e : Int) : Option Double :=
  applySteps? (e.natAbs / maxTenPower + 1) x e

/-- The number `± significand * 10 ^ e`; none if it is too large. -/
def ofDecimal? (negative : Bool) (significand : Nat) (e : Int) : Option Double := do
  let x ← ofNat? negative significand
  x.applyTenPower? e

end Double

end Tenancy

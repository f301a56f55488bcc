import Tenancy.Decimal.Double

/-!
# The shortest decimal of a binary64 number

A number is written with the fewest digits that read back as the same number. The decimals that read
back form an interval around the number, which holds its ends when the mantissa is even. On the grid
of the decimals with `n` digits only the two neighbours of the number matter, so the first grid with
a neighbour in the interval gives the digits, and the nearer neighbour wins.
-/

namespace Tenancy.Double

/-- Whether one fraction is less than another, for positive denominators. -/
def fractionLt (x y : Nat × Nat) : Bool := x.1 * y.2 < y.1 * x.2

/-- The ends of the interval of decimals that read back as `x`. -/
def readBackInterval (x : Double) : (Nat × Nat) × (Nat × Nat) :=
  let below := if x.mantissa = twoTo 52 ∧ minExponent < x.exponent then 1 else 2
  (scale (4 * x.mantissa - below) 4 x.exponent, scale (4 * x.mantissa + 2) 4 x.exponent)

/-- Whether a decimal of size `d` reads back as the positive number `x`. -/
def readsBack (x : Double) (d : Nat × Nat) : Bool :=
  let (low, high) := x.readBackInterval
  if x.mantissa % 2 = 0 then !fractionLt d low && !fractionLt high d
  else fractionLt low d && fractionLt d high

/-- The product `n * 10 ^ k` as a fraction. -/
def tenScale (n : Nat) (k : Int) : Nat × Nat :=
  if 0 ≤ k then (n * tenTo k.toNat, 1) else (n, tenTo (-k).toNat)

/-- The number of places that a fraction below one has to move to reach one, at most `fuel`. -/
def leadingPlaces (num den : Nat) : Nat → Nat
  | 0 => 0
  | fuel + 1 => if den ≤ num * 10 then 0 else leadingPlaces (num * 10) den fuel + 1

/-- The place of the point: `x` lies below `10 ^ p` and not below `10 ^ (p - 1)`. -/
def pointPlace (x : Double) : Int :=
  let (num, den) := x.magnitude
  if den ≤ num then (Nat.toDigits 10 (num / den)).length
  else -(leadingPlaces num den 400 : Int)

/-- The neighbour of `x` on the grid of `n` digits that reads back and is nearest. -/
def onGrid? (x : Double) (n : Nat) : Option (Nat × Int) :=
  let k : Int := x.pointPlace - n
  let (num, den) := x.magnitude
  let (g, h) := tenScale 1 k
  let low := num * h / (den * g)
  let lowFits := x.readsBack (tenScale low k)
  let highFits := x.readsBack (tenScale (low + 1) k)
  -- the distance below doubled against one step of the grid
  let twice := 2 * (num * h - low * (den * g))
  if lowFits && highFits then
    if twice < den * g then some (low, k)
    else if den * g < twice then some (low + 1, k)
    else if low % 2 = 0 then some (low, k) else some (low + 1, k)
  else if lowFits then some (low, k)
  else if highFits then some (low + 1, k)
  else none

/-- Search the grids of `n`, `n + 1`, … digits; seventeen always suffice. -/
def firstGrid (x : Double) (n : Nat) : Nat → Nat × Int
  | 0 => (0, 0)
  | fuel + 1 => (x.onGrid? n).getD (x.firstGrid (n + 1) fuel)

/-- Move the zeros at the end of the digits into the exponent. -/
def dropZeros (digits : Nat) (k : Int) : Nat → Nat × Int
  | 0 => (digits, k)
  | fuel + 1 => if digits % 10 = 0 then dropZeros (digits / 10) (k + 1) fuel else (digits, k)

/-- Digits and an exponent of ten, as few digits as read back. -/
def shortest (x : Double) : Nat × Int :=
  if x.isZero then (0, 0)
  else
    let (digits, k) := x.firstGrid 1 17
    dropZeros digits k 20

/-- How shortest decimals are laid out. -/
structure Layout where
  /-- The greatest place of the point that is still written out. -/
  maxPlace : Int
  /-- The least place of the point that is still written out. -/
  minPlace : Int

/-- A number is written out as long as its point stands at most sixteen places to the right of the
first digit and at most four to the left of it. A whole number keeps `.0`, and an exponent always has
its sign. -/
def plain : Layout := ⟨16, -4⟩

/-- Digits with an exponent of ten as text. -/
def Layout.write (l : Layout) (digits : Nat) (k : Int) : List Char :=
  let ds := Nat.toDigits 10 digits
  let place : Int := ds.length + k
  if 0 ≤ k ∧ place ≤ l.maxPlace then ds ++ List.replicate k.toNat '0' ++ ['.', '0']
  else if 0 < place ∧ place ≤ l.maxPlace then
    ds.take place.toNat ++ '.' :: ds.drop place.toNat
  else if l.minPlace ≤ place ∧ place ≤ 0 then
    '0' :: '.' :: (List.replicate (-place).toNat '0' ++ ds)
  else
    let e := (if 1 ≤ place then ['+'] else []) ++ (toString (place - 1)).toList
    match ds with
    | [] => []
    | [d] => d :: 'e' :: e
    | d :: more => d :: '.' :: (more ++ 'e' :: e)

def toText (x : Double) : String :=
  let (digits, k) := x.shortest
  let text := if x.isZero then ['0', '.', '0'] else plain.write digits k
  String.ofList (if x.negative then '-' :: text else text)

end Tenancy.Double

import Tenancy.Decimal.Double

/-!
# Lengths of time on a clock

A clock keeps a length of time as a whole number of nanoseconds, and ticks once a millisecond. To
multiply a length, it is turned into seconds in binary64, and the product is turned back. So a length
that shrinks does not become ever smaller: it stays at one nanosecond, or becomes nothing.
-/

namespace Tenancy

structure Duration where
  nanoseconds : Nat
  deriving DecidableEq, Repr, Inhabited

namespace Duration

/-- The nanoseconds of a second. -/
def perSecond : Nat := 1000000000

/-- The nanoseconds of a tick. -/
def perTick : Nat := 1000000

/-- The length nearest to a number of seconds, and the even one of two that are equally near. Less than
no time is no time. -/
def ofSeconds (s : Rat) : Duration :=
  let n := s * perSecond
  ⟨Double.divideToEven n.num.toNat n.den⟩

/-- The length nearest to a number of milliseconds. -/
def ofMilliseconds (ms : Rat) : Duration := ofSeconds (ms / 1000)

/-- The seconds of a length, in binary64. The whole seconds and the rest are rounded each, and so is
their sum. -/
def seconds (d : Duration) : Rat :=
  let whole : Rat := (d.nanoseconds / perSecond : Nat)
  let rest : Rat := (d.nanoseconds % perSecond : Nat)
  Double.nearest (Double.nearest whole + Double.nearest (rest / perSecond))

/-- The seconds of a multiple of a length, in binary64. -/
def scaledSeconds (d : Duration) (factor : Rat) : Rat :=
  Double.nearest (d.seconds * Double.nearest factor)

/-- The ticks that a wait of this length takes: it ends with the tick in which its time is over. -/
def ticks (d : Duration) : Nat := (d.nanoseconds + (perTick - 1)) / perTick

end Duration

end Tenancy

import Tenancy.Duration
import Tenancy.Error

/-!
# Trying again

A failed attempt is followed by a pause and another attempt, as long as the failure is one that
another attempt may mend and the attempts are not used up. The nominal pauses grow by a factor up to a
ceiling; each actual pause is the nominal one times a draw from [1/2, 3/2), so that callers that failed
together do not come back together. The pauses can be reckoned exactly, as rational numbers of
milliseconds, or as a clock keeps them.
-/

namespace Tenancy

/-- How the pauses between attempts follow from one another, where `δ` are the lengths of time. -/
structure Timing (δ : Type) where
  /-- The nominal pause before the first retry. -/
  first : δ
  /-- The nominal pause after a given one; none if it would be negative. -/
  next? : δ → Option δ
  /-- The actual pause for a nominal one and a draw. -/
  stretch : δ → Rat → δ

/-- The nominal pause before retry `i`, counted from 0. -/
def Timing.delay? {δ : Type} (t : Timing δ) : Nat → Option δ
  | 0 => some t.first
  | i + 1 => (t.delay? i).bind t.next?

/-- How long to wait between attempts, in milliseconds, and how many attempts to make. -/
structure Backoff where
  /-- The number of attempts; zero for no limit. -/
  maxAttempts : Nat := 0
  initialDelay : Rat := 100
  maxDelay : Rat := 30000
  factor : Rat := 2
  deriving DecidableEq, Repr

namespace Backoff

def ofMaxAttempts (n : Nat) : Backoff := { maxAttempts := n }

/-- A draw that stretches or shortens a pause. -/
def IsJitter (x : Rat) : Prop := 1 / 2 ≤ x ∧ x < 3 / 2

/-- The lesser of a grown length and a limit; none if that is negative. -/
def capped? (limit grown : Rat) : Option Rat :=
  let length := if grown ≤ limit then grown else limit
  if length < 0 then none else some length

/-- The pauses reckoned exactly, in milliseconds. -/
def exactTiming (b : Backoff) : Timing Rat where
  first := b.initialDelay
  next? delay := capped? b.maxDelay (delay * b.factor)
  stretch delay draw := delay * draw

/-- The pauses as a clock keeps them. -/
def clockTiming (b : Backoff) : Timing Duration where
  first := .ofMilliseconds b.initialDelay
  next? delay := (capped? (Duration.ofMilliseconds b.maxDelay).seconds
    (delay.scaledSeconds b.factor)).map Duration.ofSeconds
  stretch delay draw := .ofSeconds (delay.scaledSeconds draw)

/-- Attempt number `n`, counted from 1, is the last one allowed. -/
def isLast (b : Backoff) (n : Nat) : Bool := 0 < b.maxAttempts && b.maxAttempts ≤ n

end Backoff

namespace Retry

/-- How a series of attempts ends. -/
inductive Ending (ε α : Type) where
  /-- The outcome of the last attempt. -/
  | outcome (r : Except ε α)
  /-- A pause would have a negative length. -/
  | negativeDelay
  /-- More attempts are to be made than there was room for. -/
  | unfinished
  deriving Repr

variable {δ ε α : Type}

/-- Another attempt follows attempt number `n` with this outcome. -/
def goesOn (b : Backoff) (retries : ε → Bool) (n : Nat) : Except ε α → Bool
  | .ok _ => false
  | .error e => retries e && !b.isLast n

/-- Attempts from number `n` on, with room for a number of them. Attempt `n` gives `outcomes n`; if it
is not the last one, a pause follows it that is nominally `delay` and drawn out by `jitter n`. The
actual pauses come first in the result. -/
def run (b : Backoff) (timing : Timing δ) (retries : ε → Bool) (jitter : Nat → Rat)
    (outcomes : Nat → Except ε α) :
    (room : Nat) → (n : Nat) → (delay : δ) → List δ × Ending ε α
  | 0, _, _ => ([], .unfinished)
  | room + 1, n, delay =>
    if goesOn b retries n (outcomes n) then
      let pause := timing.stretch delay (jitter n)
      match timing.next? delay with
      | none => ([pause], .negativeDelay)
      | some next =>
        let (pauses, ending) := run b timing retries jitter outcomes room (n + 1) next
        (pause :: pauses, ending)
    else ([], .outcome (outcomes n))

/-- Attempts of an operation from number `n` on, with room for `room` retries. -/
def attempts {m : Type → Type} [Monad m] (b : Backoff) (retries : ε → Bool) (op : m (Except ε α)) :
    (room : Nat) → (n : Nat) → m (Except ε α)
  | 0, _ => op
  | room + 1, n => do
    let r ← op
    if goesOn b retries n r then attempts b retries op room (n + 1) else pure r

/-- An operation tried as often as the limit on attempts allows. This is for limited attempts only: where
there is no limit (`maxAttempts = 0`), it would be tried just once. Nobody but the clock sees the pauses, so
they are left out. -/
def perform {m : Type → Type} [Monad m] (b : Backoff) (retries : ε → Bool)
    (op : m (Except ε α)) : m (Except ε α) :=
  attempts b retries op b.maxAttempts 1

end Retry

end Tenancy

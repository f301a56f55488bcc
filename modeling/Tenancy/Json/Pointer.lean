import Tenancy.Json.Value
import Tenancy.Text.Blank

/-!
# Pointers into a value

A pointer (RFC 6901) is empty or a list of steps, each after a slash. In a step `~1` stands for a slash
and then `~0` for a tilde. A step selects a member of an object by its key, or an item of an array by
its index, which has neither a sign nor zeros in front.
-/

namespace Tenancy.Json

/-- Put `x` in the place of every two characters `a b`. -/
def replacePair (a b x : Char) : List Char → List Char
  | [] => []
  | [c] => [c]
  | c :: d :: rest =>
    if c = a ∧ d = b then x :: replacePair a b x rest
    else c :: replacePair a b x (d :: rest)

/-- A step with its escapes resolved. -/
def pointerStep (cs : List Char) : String :=
  String.ofList (replacePair '~' '0' '~' (replacePair '~' '1' '/' cs))

/-- The index that a step spells. -/
def pointerIndex? (step : String) : Option Nat :=
  let cs := step.toList
  if cs.isEmpty || !cs.all Char.isDigit || (cs.head? = some '0' && 1 < cs.length) then none
  else some (cs.foldl (fun n c => n * 10 + (c.toNat - 48)) 0)

/-- The steps of a pointer; none if it does not start with a slash. -/
def pointerSteps? (pointer : String) : Option (List String) :=
  match pointer.toList with
  | [] => some []
  | '/' :: rest => some ((Text.cutAt '/' rest).map pointerStep)
  | _ => none

def step? (j : Json) (step : String) : Option Json :=
  match j with
  | .object members => Dict.get? members step
  | .array items => (pointerIndex? step).bind fun i => items[i]?
  | _ => none

def pointer? (j : Json) (pointer : String) : Option Json := do
  let steps ← pointerSteps? pointer
  steps.foldlM step? j

end Tenancy.Json

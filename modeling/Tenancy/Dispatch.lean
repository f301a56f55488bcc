import Tenancy.Call

/-!
# Telling hooks

When something happens to a tenant its own hooks are told in their declared order, and then the hooks
that are registered for all tenants in the order of their listing. The first blocking hook that fails
ends the round and refuses the transition. Other failures change nothing, and a listing that fails
leaves the registered hooks out.
-/

namespace Tenancy.Dispatch

/-! ## Calls -/

def post (url : String) (n : Notice) (blocking : Bool) (c : Option Credentials) : Job Nat :=
  Job.call (.hook (.post url n blocking c))

def listGlobal : Job (List Hook) := Job.call (.hook .listGlobal)

def readSecret (space name : String) : Job (Option (Dict String)) :=
  Job.call (.hook (.readSecret space name))

/-! ## One hook -/

def badSecret (ref : SecretRef) (what : String) : Error :=
  .authentication "hook" ("secret " ++ ref.space ++ "/" ++ ref.name ++ " " ++ what : String)

def credentialsFor (h : Hook) : Job (Option Credentials) :=
  match h.credentials with
  | none => pure none
  | some ref => do
    match ← readSecret ref.space ref.name with
    | none => throw (badSecret ref "not found")
    | some data =>
      match Credentials.ofSecret? data with
      | some c => return some c
      | none => throw (badSecret ref "has neither token nor username")

/-- A delivery succeeds with a status from 200 to 299. -/
def delivered (url : String) (status : Nat) : Except Error Unit :=
  if 200 ≤ status ∧ status < 300 then .ok ()
  else .error (Error.ofStatus "hook" status
    ("POST " ++ url ++ " returned " ++ toString status : String))

def tell (n : Notice) (h : Hook) : Job Unit := do
  let c ← credentialsFor h
  liftExcept (delivered h.url (← post h.url n h.blocking c))

/-- What telling a hook means for the transition: a failure counts only if the hook is blocking. -/
def verdict (h : Hook) : Except Error Unit → Except Error Unit
  | .ok _ => .ok ()
  | .error e => if h.blocking then .error (.hookRejected h.name e.message) else .ok ()

/-! ## All hooks -/

/-- Tell hooks one after the other until one refuses. -/
def tellAll (n : Notice) : List Hook → Job Unit
  | [] => pure ()
  | h :: rest => do
    if h.subscribesTo n.event then liftExcept (verdict h (← (tell n h).outcome))
    tellAll n rest

/-- Tell the hooks of a tenant and those of all tenants about an event. -/
def dispatch (spec : Spec) (event : Event) : Job Unit := do
  let n : Notice := ⟨spec, event⟩
  tellAll n spec.hooks
  match ← listGlobal.outcome with
  | .ok hooks => tellAll n hooks
  | .error _ => pure ()

end Tenancy.Dispatch

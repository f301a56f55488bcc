import Tenancy.Text.Quoted

/-!
# Errors

An error says which system failed and how: a refusal has the status the remote end answered with, an
outage has none. The status decides what is idempotent (404 for what is gone, 409 for what is there)
and the kind decides whether trying again can help. `Error.within` says what was being attempted and
keeps kind and status, so it never changes either decision: `status_within`, `isRetryable_within`.
-/

namespace Tenancy

structure Message where
  text : String
  /-- Part of the wording is that of a component outside, a transport or a reader of some format, and
  may differ from one to the next. -/
  foreign : Bool := false
  deriving DecidableEq, Repr, Inhabited

instance : Coe String Message := ⟨fun text => ⟨text, false⟩⟩

namespace Message

/-- A message that ends in foreign words. -/
def reported (text : String) : Message := ⟨text, true⟩

/-- The message with what was being attempted in front. -/
def within (m : Message) (what : String) : Message := { m with text := what ++ ": " ++ m.text }

end Message

/-- The refusal of a request by the cluster's API server. -/
structure Refusal where
  status : String
  message : String
  reason : String
  code : Nat
  deriving DecidableEq, Repr, Inhabited

namespace Refusal

def details (r : Refusal) : String :=
  "ErrorResponse \x7b status: " ++ Text.quoted r.status ++ ", message: " ++ Text.quoted r.message ++
    ", reason: " ++ Text.quoted r.reason ++ ", code: " ++ toString r.code ++ " \x7d"

def text (r : Refusal) : String :=
  "ApiError: " ++ r.message ++ ": " ++ r.reason ++ " (" ++ r.details ++ ")"

end Refusal

inductive Error where
  /-- The cluster refused a request. -/
  | refused (refusal : Refusal)
  /-- The cluster did not answer, or gave an answer that makes no sense. -/
  | clusterFailed (message : Message)
  /-- No token could be had for a system. -/
  | authentication (system : String) (message : Message)
  /-- A system could not be reached, or failed itself. -/
  | unavailable (system : String) (message : Message)
  /-- A system refused a request. -/
  | rejected (system : String) (status : Nat) (message : Message)
  /-- The declared tenant is invalid. -/
  | validation (tenant : String) (message : Message)
  /-- A blocking hook refused the transition. -/
  | hookRejected (hook : String) (message : Message)
  /-- A text or value could not be written or read. -/
  | serialization (message : Message)
  /-- Something that should not happen. -/
  | internal (place : String) (message : Message)
  deriving DecidableEq, Repr, Inhabited

namespace Error

/-- The name that stands for a tenant whose name is not known. -/
def unknownTenant : String := "unknown"

/-- The error for an answer that is no success: an outage from 500 on and for 429, where waiting
helps, and a refusal otherwise. -/
def ofStatus (system : String) (status : Nat) (message : Message) : Error :=
  if 500 ≤ status ∨ status = 429 then
    .unavailable system (message.within ("status " ++ toString status))
  else .rejected system status message

/-- The status that the remote end answered with. -/
def status : Error → Option Nat
  | .rejected _ status _ => some status
  | .refused r => some r.code
  | _ => none

def isNotFound (e : Error) : Bool := e.status == some 404

/-- What was to be made exists, or someone else changed it first. -/
def isConflict (e : Error) : Bool := e.status == some 409

/-- The error with what was being attempted in front of the message of a remote system. -/
def within (e : Error) (what : String) : Error :=
  match e with
  | .unavailable system m => .unavailable system (m.within what)
  | .rejected system status m => .rejected system status (m.within what)
  | .authentication system m => .authentication system (m.within what)
  | other => other

/-- Trying again can help without anyone changing anything. -/
def isRetryable : Error → Bool
  | .refused r => !(400 ≤ r.code && r.code < 500)
  | .clusterFailed _ => true
  | .authentication _ _ => true
  | .unavailable _ _ => true
  | .rejected _ _ _ => false
  | .validation _ _ => false
  | .hookRejected _ _ => false
  | .serialization _ => false
  | .internal _ _ => true

def message : Error → Message
  | .refused r => ⟨"kubernetes error: " ++ r.text, false⟩
  | .clusterFailed m => ⟨"kubernetes error: " ++ m.text, m.foreign⟩
  | .authentication system m => ⟨"authentication error [" ++ system ++ "]: " ++ m.text, m.foreign⟩
  | .unavailable system m => ⟨system ++ " unavailable: " ++ m.text, m.foreign⟩
  | .rejected system status m =>
    ⟨system ++ " rejected request (" ++ toString status ++ "): " ++ m.text, m.foreign⟩
  | .validation tenant m => ⟨"validation error for " ++ tenant ++ ": " ++ m.text, m.foreign⟩
  | .hookRejected hook m => ⟨"hook " ++ hook ++ " rejected transition: " ++ m.text, m.foreign⟩
  | .serialization m => ⟨"serialization error: " ++ m.text, m.foreign⟩
  | .internal place m => ⟨"internal error [" ++ place ++ "]: " ++ m.text, m.foreign⟩

@[simp] theorem status_within (e : Error) (what : String) : (e.within what).status = e.status := by
  cases e <;> rfl

@[simp] theorem isRetryable_within (e : Error) (what : String) :
    (e.within what).isRetryable = e.isRetryable := by
  cases e <;> rfl

/-- An answer that is no success can be retried exactly from 500 on and for 429. -/
theorem isRetryable_ofStatus (system : String) (status : Nat) (m : Message) :
    (ofStatus system status m).isRetryable ↔ 500 ≤ status ∨ status = 429 := by
  unfold ofStatus
  split <;> simp_all [isRetryable]

end Error

end Tenancy

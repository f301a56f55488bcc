import Tenancy.Admission
import Tenancy.Dispatch
import Tenancy.Http.Serving
import Tenancy.Json.Reader
import Tenancy.Review.Request

/-!
# Reviewing changes of tenants

A new tenant has to pass the checks of a declaration, and then the hooks must not refuse it. A change
of what is declared has to pass the checks of a change and the hooks; a change of anything else, such
as the finalizers or the request for a key update, passes at once. A deletion is told to the hooks.
No hook hears of a change that the checks refused.
-/

namespace Tenancy.Review

open Http (Incoming Served)

/-- Review what is asked; an error refuses it. -/
def review (r : Request) : Job Unit :=
  match r.operation, r.object, r.oldObject with
  | .create, some t, _ => do
    Admission.validateCreate t
    Dispatch.dispatch t.spec .create
  | .update, some t, some old =>
    if t.spec.sameDeclaration old.spec then pure ()
    else do
      Admission.validateUpdate old t
      Dispatch.dispatch t.spec .update
  | .delete, _, some old => Dispatch.dispatch old.spec .delete
  | _, _, _ => pure ()

def answered (header : Header) (uid : String) (allowed : Bool) (status : Json) : Json :=
  Json.ofMembers [("apiVersion", .string header.apiVersion), ("kind", .string header.kind),
    ("response", Json.ofMembers [("uid", .string uid), ("allowed", .bool allowed),
      ("status", status)])]

/-- The answer to an envelope without a question. -/
def unanswerable : Json :=
  answered ⟨"admission.k8s.io/v1beta1", "AdmissionReview"⟩ "" false <|
    Json.ofMembers [("status", .string "Failure"), ("reason", .string "InvalidRequest"),
      ("message", .string "failed to convert AdmissionReview into AdmissionRequest")]

/-- The answer to a question, given what the review came to. -/
def verdict (header : Header) (uid : String) : Except Error Unit → Json
  | .ok _ => answered header uid true (Json.ofMembers [])
  | .error e => answered header uid false (Json.ofMembers [("message", .string e.message.text)])

def answerEnvelope (e : Envelope) : Dialogue Services Json :=
  match e.request with
  | none => pure unanswerable
  | some r => do return verdict e.header r.uid (← (review r).run)

def path : String := "/validate/tenants"

/-- Answer a request: 404 for another path, 405 for another method, 415 for a body that is not said to
be JSON, 400 for one that is not JSON, and 422 for JSON that is no envelope. -/
def answer (r : Incoming) : Dialogue Services Served :=
  if r.path ≠ path.toList then pure ⟨404, none⟩
  else if r.method ≠ "POST" then pure ⟨405, none⟩
  else if !r.isJson then pure ⟨415, none⟩
  else match Reading.decodeText Envelope.decode r.body with
    | .error .malformed => pure ⟨400, none⟩
    | .error .mismatched => pure ⟨422, none⟩
    | .ok e => do return ⟨200, some (← answerEnvelope e)⟩

end Tenancy.Review

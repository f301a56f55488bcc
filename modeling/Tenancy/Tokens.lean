import Tenancy.Json.Pointer
import Tenancy.Options
import Tenancy.Rest

/-!
# Tokens

A token is asked for anew each time. For the hardware service it is granted to the operator's own
client, for the identity provider to an administrator, and the engine that keeps keys gives it for the
operator's service account. Whatever goes wrong, no token could be had.
-/

namespace Tenancy.Tokens

/-- The error for a token that could not be had. -/
def denied (s : System) (m : Message) : Error := .authentication s.name m

def extract (s : System) (body : Json) (pointer : String) : Except Error String :=
  match body.pointer? pointer with
  | some (.string t) =>
    if t = "" then .error (denied s ("response has no " ++ pointer : String)) else .ok t
  | _ => .error (denied s ("response has no " ++ pointer : String))

/-- The texts of the secret with the operator's credentials for a service. -/
def loadSecret (s : System) (space name : String) : WireJob (Dict String) := do
  match ← (WireJob.readSecret space name).outcome with
  | .error e => throw (denied s e.message)
  | .ok none => throw (denied s ("secret " ++ space ++ "/" ++ name ++ " not found" : String))
  | .ok (some data) => return data

/-- A text of the secret that has to be there. -/
def required (s : System) (data : Dict String) (key : String) : Except Error String :=
  match data.get? key with
  | some v => if v = "" then .error (denied s ("secret is missing " ++ key : String)) else .ok v
  | none => .error (denied s ("secret is missing " ++ key : String))

/-- The error for an answer that grants nothing. -/
def refused (s : System) (status : Nat) : Error :=
  denied s ("token endpoint returned " ++ Http.statusText status : String)

/-- The error for an answer that cannot be read. -/
def unreadable (s : System) : Error := denied s (.reported "decoding token: error decoding response body")

/-- The body of an answer that grants a token. -/
def granted (s : System) : Except Http.TransportFault Http.Reply → Except Error Json
  | .error (.cut status) =>
    .error (if Http.isSuccess status then unreadable s else refused s status)
  | .error f => .error (denied s (.reported f.text))
  | .ok r =>
    if !r.isSuccess then .error (refused s r.status)
    else if r.garbled then .error (unreadable s)
    else match Json.ofText r.body with
      | .ok j => .ok j
      | .error _ => .error (unreadable s)

/-- Ask for a token with a form. -/
def grant (s : System) (url : String) (form : List (String × String)) : WireJob String := do
  let request : Http.Outgoing :=
    { method := "POST", url := url,
      headers := [("content-type", "application/x-www-form-urlencoded")],
      body := some (Text.Percent.form form) }
  let body ← liftExcept (granted s (← WireJob.exchange request))
  liftExcept (extract s body "/access_token")

def hardwareToken (e : TokenEndpoints) : WireJob String := do
  let data ← loadSecret .hardware "default" "admin-client-auth"
  let id ← liftExcept (required .hardware data "client-id")
  let secret ← liftExcept (required .hardware data "client-secret")
  grant .hardware e.hardwareTokenUrl
    [("grant_type", "client_credentials"), ("client_id", id), ("client_secret", secret)]

def identityToken (e : TokenEndpoints) : WireJob String := do
  let data ← loadSecret .identity "services" "keycloak-master-admin-auth"
  let id ← liftExcept (required .identity data "client-id")
  let user ← liftExcept (required .identity data "user")
  let password ← liftExcept (required .identity data "password")
  grant .identity e.identityTokenUrl
    [("grant_type", "password"), ("client_id", id), ("username", user), ("password", password)]

def vaultToken (e : TokenEndpoints) : WireJob String := do
  match ← WireJob.fileText e.serviceAccountToken with
  | .error why => throw (denied .vault (.reported ("reading " ++ e.serviceAccountToken ++ ": " ++ why)))
  | .ok jwt =>
    let login := Json.ofMembers [("role", .string e.vaultRole), ("jwt", .string (Text.trim jwt))]
    let request : Http.Outgoing :=
      { method := "POST", url := e.vaultLoginUrl, headers := [("content-type", "application/json")],
        body := some login.compact }
    let body ← liftExcept (granted .vault (← WireJob.exchange request))
    liftExcept (extract .vault body "/auth/client_token")

def token (e : TokenEndpoints) : System → WireJob String
  | .hardware => hardwareToken e
  | .identity => identityToken e
  | .vault => vaultToken e

/-- Answer the question for a token by asking for one, and pass on every other question. -/
def answering (e : TokenEndpoints) : (q : WireQuery) → Dialogue Wire q.Answer
  | .token s => (token e s).run
  | .exchange r => Dialogue.query (I := Wire) (.exchange r)
  | .readSecret space name => Dialogue.query (I := Wire) (.readSecret space name)
  | .fileText path => Dialogue.query (I := Wire) (.fileText path)

/-- A job in which every token is asked for. -/
def authenticated {α : Type} (e : TokenEndpoints) (job : WireJob α) : WireJob α :=
  ExceptT.mk (Dialogue.interpret (I := Wire) (answering e) job.run)

end Tenancy.Tokens

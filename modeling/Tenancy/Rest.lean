import Tenancy.Dialogue
import Tenancy.Error
import Tenancy.Http.Exchange
import Tenancy.Json.Printer
import Tenancy.Json.Reader

/-!
# Authenticated requests for JSON

The services are asked over HTTP, each request with a token of its own. A failure on the way makes the
service unavailable; an answer that is no success is sorted by its status. `Wire` is what this needs
from outside: tokens, exchanges, and for the tokens themselves the texts of secrets and files.
-/

namespace Tenancy

/-- The services that are asked with a token. -/
inductive System where
  | hardware
  | identity
  | vault
  deriving DecidableEq, Repr, Inhabited

namespace System

def name : System → String
  | hardware => "hsm"
  | identity => "keycloak"
  | vault => "vault"

end System

/-- What requests need from outside. -/
inductive WireQuery where
  /-- A token for a service. -/
  | token (system : System)
  | exchange (request : Http.Outgoing)
  /-- The texts in a secret. -/
  | readSecret (space name : String)
  | fileText (path : String)
  deriving DecidableEq, Repr

def WireQuery.Answer : WireQuery → Type
  | token _ => Except Error String
  | exchange _ => Except Http.TransportFault Http.Reply
  | readSecret _ _ => Except Error (Option (Dict String))
  | fileText _ => Except String String

/-- The outside of requests. -/
def Wire : Interface where
  Query := WireQuery
  Answer := WireQuery.Answer

/-- A program over requests that may end in an error. -/
abbrev WireJob (α : Type) := ExceptT Error (Dialogue Wire) α

namespace WireJob

def token (system : System) : WireJob String := ExceptT.mk (Dialogue.query (I := Wire) (.token system))

/-- Send a request, if it can be sent. -/
def exchange (r : Http.Outgoing) : WireJob (Except Http.TransportFault Http.Reply) :=
  ExceptT.lift <|
    if r.isSendable then Dialogue.query (I := Wire) (.exchange r) else pure (.error .unsendable)

def readSecret (space name : String) : WireJob (Option (Dict String)) :=
  ExceptT.mk (Dialogue.query (I := Wire) (.readSecret space name))

def fileText (path : String) : WireJob (Except String String) :=
  ExceptT.lift (Dialogue.query (I := Wire) (.fileText path))

/-- The outcome of a job, which then may be an error. -/
def outcome {α : Type} (t : WireJob α) : WireJob (Except Error α) := ExceptT.lift t.run

end WireJob

namespace Rest

/-- How a token is presented. -/
inductive Scheme where
  | bearer
  | vaultToken
  deriving DecidableEq, Repr, Inhabited

namespace Scheme

def header : Scheme → String → String × String
  | bearer, token => ("authorization", "Bearer " ++ token)
  | vaultToken, token => ("x-vault-token", token)

end Scheme

structure Client where
  system : System
  baseUrl : String
  scheme : Scheme := .bearer
  deriving DecidableEq, Repr, Inhabited

/-- The error for a text that does not say what was wanted. -/
def undecodable (f : DecodeFault) : Error :=
  .serialization <| .reported <| match f with
    | .malformed => "the text is no JSON"
    | .mismatched => "the JSON has another shape"

def decodeBody {α : Type} (decode : Reading.Decoder α) (r : Http.Reply) : Except Error α :=
  match Reading.decodeText decode r.body with
  | .ok a => .ok a
  | .error f => .error (undecodable f)

namespace Client

def url (c : Client) (path : String) : String :=
  Text.trimEndOf '/' c.baseUrl ++ "/" ++ Text.trimStartOf '/' path

def request (c : Client) (token method path : String) (body : Option Json) : Http.Outgoing where
  method := method
  url := c.url path
  headers := c.scheme.header token :: (match body with
    | some _ => [("content-type", "application/json")]
    | none => [])
  body := body.map Json.compact

/-- The error for an exchange that failed. -/
def unreachable (c : Client) (method path : String) (f : Http.TransportFault) : Error :=
  .unavailable c.system.name (.reported (method ++ " " ++ c.url path ++ ": " ++ f.text))

/-- The error for an answer that is no success. -/
def failed (c : Client) (method path : String) (r : Http.Reply) : Error :=
  Error.ofStatus c.system.name r.status (method ++ " " ++ path ++ ": " ++ Text.trim r.body : String)

/-- Send a request and take the answer, whatever its status. -/
def send (c : Client) (method path : String) (body : Option Json) : WireJob Http.Reply := do
  let token ← WireJob.token c.system
  match ← WireJob.exchange (c.request token method path body) with
  | .ok r => return r
  | .error f => throw (c.unreachable method path f)

/-- Send a request that has to succeed. -/
def expect (c : Client) (method path : String) (body : Option Json) : WireJob Http.Reply := do
  let r ← c.send method path body
  if r.isSuccess then return r else throw (c.failed method path r)

/-- What an answer to a request for something to read comes to: 404 means that it is not there. -/
def found {α : Type} (c : Client) (path : String) (decode : Reading.Decoder α) (r : Http.Reply) :
    Except Error (Option α) :=
  if r.status = 404 then .ok none
  else if r.isSuccess then (decodeBody decode r).map some
  else .error (c.failed "GET" path r)

def getJson {α : Type} (c : Client) (path : String) (decode : Reading.Decoder α) :
    WireJob (Option α) := do
  liftExcept (c.found path decode (← c.send "GET" path none))

end Client

end Rest

end Tenancy

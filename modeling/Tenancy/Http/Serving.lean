import Tenancy.Http.MediaType
import Tenancy.Json.Value

/-!
# Answering requests

What a server is asked and what it answers. A route serves certain methods; asked for another one it
says so with 405. A request for the head of an answer gets the answer without its body.
-/

namespace Tenancy.Http

structure Incoming where
  method : String := "GET"
  /-- The path and the query. -/
  target : String
  contentType : Option String := none
  body : String := ""
  deriving DecidableEq, Repr, Inhabited

structure Served where
  status : Nat
  body : Option Json := none
  deriving Inhabited

namespace Incoming

/-- The path of a request, without its query. -/
def path (r : Incoming) : List Char := r.target.toList.takeWhile fun c => c ≠ '?' && c ≠ '#'

def isJson (r : Incoming) : Bool :=
  match r.contentType with
  | some t => saysJson t
  | none => false

/-- Answer a request for something to read, or for the head of it. -/
def read (r : Incoming) (served : Served) : Served :=
  if r.method = "GET" then served
  else if r.method = "HEAD" then { served with body := none }
  else { status := 405 }

/-- Answer any request, without the body if only the head is wanted. -/
def always (r : Incoming) (served : Served) : Served :=
  if r.method = "HEAD" then { served with body := none } else served

end Incoming

end Tenancy.Http

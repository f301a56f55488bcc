import Tenancy.Error

/-!
# Setting up

An operator is put together from a collaborator for each system. Those that talk to the cluster can be
made from a client of the cluster; the others have to be given.
-/

namespace Tenancy

inductive Collaborator where
  | clusterClient
  | tenantStore
  | namespaceClient
  | hardwareClient
  | identityClient
  | secretEngineClient
  | hookTransport
  | globalHooks
  | secretReader
  deriving DecidableEq, Repr, Inhabited

namespace Collaborator

def describe : Collaborator → String
  | clusterClient => "kubernetes client"
  | tenantStore => "tenant store"
  | namespaceClient => "namespace client"
  | hardwareClient => "hardware client"
  | identityClient => "identity client"
  | secretEngineClient => "secret engine client"
  | hookTransport => "hook transport"
  | globalHooks => "global hook source"
  | secretReader => "secret reader"

/-- The collaborators that can be made from a client of the cluster, in the order in which they are
looked for. -/
def fromCluster : List Collaborator := [tenantStore, namespaceClient, globalHooks, secretReader]

/-- The collaborators that have to be given, in the order in which they are looked for. -/
def needed : List Collaborator :=
  [hardwareClient, identityClient, secretEngineClient, hookTransport]

/-- The error for a collaborator that can be made neither way. -/
def missingCluster (c : Collaborator) : Error :=
  .internal "context"
    (c.describe ++ " not set and no kubernetes client to default from" : String)

def missing (c : Collaborator) : Error := .internal "context" (c.describe ++ " is required" : String)

/-- The first of some collaborators that is not given. -/
def firstMissing (given wanted : List Collaborator) : Option Collaborator :=
  wanted.find? fun c => !given.contains c

/-- Whether these collaborators are enough; if not, the first one that is missing. -/
def check (given : List Collaborator) : Except Error Unit :=
  let fromClient := if given.contains clusterClient then none else firstMissing given fromCluster
  match fromClient, firstMissing given needed with
  | some c, _ => .error c.missingCluster
  | none, some c => .error c.missing
  | none, none => .ok ()

end Collaborator

end Tenancy

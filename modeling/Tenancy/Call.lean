import Tenancy.Collection
import Tenancy.Dialogue
import Tenancy.Error
import Tenancy.IdentityGroup
import Tenancy.Notice
import Tenancy.Secret

/-!
# Calls to other systems

The operator works by calls to the systems that hold the resources: the store of tenants, the hierarchy
of namespaces, the hardware service, the identity provider, the engine that keeps keys, and the hooks.
A call is answered by a reply of its own type or by an error. A `Job` is a program over these calls
that may end in an error.
-/

namespace Tenancy

inductive StoreCall where
  | get (space name : String)
  /-- Put a status in place of the one that a copy of the tenant has. -/
  | replaceStatus (tenant : Tenant) (status : Status)
  | addFinalizer (tenant : Tenant) (finalizer : String)
  | removeFinalizer (tenant : Tenant) (finalizer : String)
  | clearKeyUpdate (tenant : Tenant)

def StoreCall.Reply : StoreCall → Type
  | get _ _ => Option Tenant
  | _ => Unit

/-- Calls to the hierarchy of namespaces and to the secrets in it. -/
inductive HierarchyCall where
  | anchorExists (parent name : String)
  | createAnchor (parent name : String)
  | deleteAnchor (parent name : String)
  | getSecret (space name : String)
  | createSecret (space : String) (secret : Secret)
  deriving DecidableEq, Repr

def HierarchyCall.Reply : HierarchyCall → Type
  | anchorExists _ _ => Bool
  | getSecret _ _ => Option Secret
  | _ => Unit

inductive HardwareCall where
  | get (kind : Kind) (name : String)
  | create (kind : Kind) (collection : Collection)
  | delete (kind : Kind) (name : String)
  | add (kind : Kind) (name member : String)
  | remove (kind : Kind) (name member : String)
  | listGroups
  | listComponents (type role : String)
  deriving DecidableEq, Repr

def HardwareCall.Reply : HardwareCall → Type
  | get _ _ => Option Collection
  | listGroups => List Collection
  | listComponents _ _ => List String
  | _ => Unit

inductive IdentityCall where
  | find (name : String)
  | create (group : IdentityGroup)
  | delete (id : String)
  deriving DecidableEq, Repr

def IdentityCall.Reply : IdentityCall → Type
  | find _ => Option IdentityGroup
  | _ => Unit

/-- Calls to the engine that keeps keys, by path. -/
inductive VaultCall where
  | read (path : String)
  | write (path : String) (body : Json)
  | delete (path : String)

def VaultCall.Reply : VaultCall → Type
  | read _ => Option Json
  | _ => Unit

inductive HookCall where
  /-- Deliver a notice; the reply is the status that comes back. -/
  | post (url : String) (notice : Notice) (blocking : Bool) (credentials : Option Credentials)
  | listGlobal
  /-- Read the texts in a secret. -/
  | readSecret (space name : String)
  deriving DecidableEq, Repr

def HookCall.Reply : HookCall → Type
  | post _ _ _ _ => Nat
  | listGlobal => List Hook
  | readSecret _ _ => Option (Dict String)

inductive Call where
  | store (c : StoreCall)
  | hierarchy (c : HierarchyCall)
  | hardware (c : HardwareCall)
  | identity (c : IdentityCall)
  | vault (c : VaultCall)
  | hook (c : HookCall)

def Call.Reply : Call → Type
  | store c => c.Reply
  | hierarchy c => c.Reply
  | hardware c => c.Reply
  | identity c => c.Reply
  | vault c => c.Reply
  | hook c => c.Reply

/-- The systems: a call is answered by its reply or by an error. -/
def Services : Interface where
  Query := Call
  Answer c := Except Error c.Reply

/-- A program over calls that may end in an error. -/
abbrev Job (α : Type) := ExceptT Error (Dialogue Services) α

namespace Job

def call (c : Call) : Job c.Reply := ExceptT.mk (Dialogue.query (I := Services) c)

/-- The outcome of a job, which then may be an error. -/
def outcome {α : Type} (t : Job α) : Job (Except Error α) := ExceptT.lift t.run

def mapError {α : Type} (f : Error → Error) (t : Job α) : Job α :=
  ExceptT.mk (Except.mapError f <$> t.run)

/-- A job whose error says what was being attempted. -/
def within {α : Type} (what : String) (t : Job α) : Job α := t.mapError fun e => e.within what

end Job

end Tenancy

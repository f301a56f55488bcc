import Tenancy.Backend.Hardware
import Tenancy.Backend.HookDelivery
import Tenancy.Backend.Identity
import Tenancy.Backend.Vault
import Tenancy.Cluster.Client
import Tenancy.Options
import Tenancy.Tokens

/-!
# The systems over the network

Every call becomes requests: to the API server of the cluster for tenants, namespaces, secrets and
registered hooks, and over HTTP for everything else. `Backend.online` turns a job over calls into a
program over requests.
-/

namespace Tenancy.Backend

inductive NetworkQuery where
  | wire (q : WireQuery)
  | cluster (r : Cluster.Request)

def NetworkQuery.Answer : NetworkQuery → Type
  | wire q => q.Answer
  | cluster _ => Except Unit Cluster.Reply

def Network : Interface where
  Query := NetworkQuery
  Answer := NetworkQuery.Answer

structure Clients where
  hardware : Rest.Client
  identity : Rest.Client
  vault : Rest.Client
  deriving DecidableEq, Repr, Inhabited

def Clients.ofOptions (o : Options) : Clients where
  hardware := ⟨.hardware, o.hardwareBaseUrl, .bearer⟩
  identity := ⟨.identity, o.identityBaseUrl, .bearer⟩
  vault := ⟨.vault, o.vaultBaseUrl, .vaultToken⟩

/-- A program over requests to the services as one over the network. -/
def overWire {α : Type} (job : WireJob α) : Dialogue Network (Except Error α) :=
  Dialogue.interpret (I := Wire) (fun q => Dialogue.query (I := Network) (.wire q)) job.run

/-- A program over requests to the cluster as one over the network. -/
def overCluster {α : Type} (job : Cluster.ServerJob α) : Dialogue Network (Except Error α) :=
  Dialogue.interpret (I := Cluster.Server) (fun r => Dialogue.query (I := Network) (.cluster r)) job.run

def hook : (c : HookCall) → Dialogue Network (Except Error c.Reply)
  | .post url n blocking c => overWire (HookDelivery.post url n blocking c)
  | .listGlobal => overCluster Cluster.listGlobalHooks
  | .readSecret space n => overCluster (Cluster.readSecret space n)

def answer (clients : Clients) : (c : Call) → Dialogue Network (Except Error c.Reply)
  | .store c => overCluster (Cluster.store c)
  | .hierarchy c => overCluster (Cluster.hierarchy c)
  | .hardware c => overWire (Hardware.perform clients.hardware c)
  | .identity c => overWire (Identity.perform clients.identity c)
  | .vault c => overWire (Vault.perform clients.vault c)
  | .hook c => hook c

/-- A job over calls as a program over the network. -/
def online {α : Type} (clients : Clients) (job : Job α) : Dialogue Network (Except Error α) :=
  Dialogue.interpret (I := Services) (answer clients) job.run

end Tenancy.Backend

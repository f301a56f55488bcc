import Tenancy.Proofs.Stages
import Tenancy.Proofs.Turns

/-!
# The order of a deploy pass

A deploy pass makes sure of namespaces, then of hardware, of the administrators and of keys; only then it
drops the children that are not declared any more, tells the hooks and records what it applied.
`DeployStep.all` lists its steps one by one, down to single namespaces and collections, as they follow
from the copy of the tenant that the pass is handed. `DeployStep.Went` says what a step does and which
calls it may make.

Whatever the systems answer, a deploy pass goes through these steps in turn (`deploys_in_turn`). A
namespace that is not there yet ends it before any call was made to a system other than the store and the
hierarchy.
-/

namespace Tenancy.Lifecycle

inductive DeployStep where
  /-- Write that a deployment is under way. -/
  | mark
  | root
  | child (name : String)
  /-- Copy the secrets that a child namespace needs. -/
  | secrets (name : String)
  /-- Delete a collection that is not declared any more. -/
  | retire (kind : Kind) (name : String)
  /-- Carry out the plan for a declared collection. -/
  | carryOut (kind : Kind) (plan : Collection.Plan)
  /-- Make sure of the administrators' group. -/
  | admin
  /-- Make sure of the encryption domain and its key. -/
  | domain
  /-- Take away the request for a key update. -/
  | clearRequest
  /-- Delete a child namespace that is not declared any more. -/
  | dropChild (name : String)
  | hooks
  /-- Record what was applied. -/
  | record

namespace DeployStep

/-- The steps up to the last namespace. -/
def namespaces (t : Tenant) : List DeployStep :=
  .mark :: .root :: t.desiredChildren.flatMap fun c => [.child c, .secrets c]

/-- The steps for the collections of a kind: all deletions, then the plans. -/
def hardware (k : Kind) (t : Tenant) : List DeployStep :=
  (Collection.retired k t.spec.resources t.recorded.resources).map (.retire k) ++
    (Collection.plans k t.spec.resources t.recorded.resources).map (.carryOut k)

def keys (t : Tenant) : List DeployStep :=
  if t.spec.keys.enabled then
    .domain :: if t.spec.requiresKeyUpdate then [.clearRequest] else []
  else []

/-- The steps that follow upon the namespaces. -/
def later (t : Tenant) : List DeployStep :=
  hardware .partition t ++ (hardware .group t ++
    (.admin :: (keys t ++ ((staleChildren t).map .dropChild ++ [.hooks, .record]))))

def all (t : Tenant) : List DeployStep := namespaces t ++ later t

/-- The calls that a step may make. -/
inductive Makes (settings : Settings) (t : Tenant) : DeployStep → Call → Prop
  | get {space name : String} : Makes settings t .mark (.store (.get space name))
  | mark {copy : Tenant} {s : Status} (h : s.phase ≠ some .deployed) :
      Makes settings t .mark (.store (.replaceStatus copy s))
  | lookRoot : Makes settings t .root (.hierarchy (.anchorExists settings.root t.name))
  | root : Makes settings t .root (.hierarchy (.createAnchor settings.root t.name))
  | lookChild {c : String} : Makes settings t (.child c) (.hierarchy (.anchorExists t.name c))
  | child {c : String} : Makes settings t (.child c) (.hierarchy (.createAnchor t.name c))
  | getSecret {c space name : String} :
      Makes settings t (.secrets c) (.hierarchy (.getSecret space name))
  | secret {c : String} {secret : Secret} :
      Makes settings t (.secrets c) (.hierarchy (.createSecret c secret))
  | retire {k : Kind} {n : String} : Makes settings t (.retire k n) (.hardware (.delete k n))
  | look {k : Kind} {p : Collection.Plan} :
      Makes settings t (.carryOut k p) (.hardware (.get k p.name))
  | make {k : Kind} {p : Collection.Plan} :
      Makes settings t (.carryOut k p) (.hardware (.create k (Collection.forPlan t.name k p)))
  | drop {k : Kind} {p : Collection.Plan} {m : String} (ho : m ∈ p.observed) (hd : m ∉ p.desired) :
      Makes settings t (.carryOut k p) (.hardware (.remove k p.name m))
  | put {k : Kind} {p : Collection.Plan} {m : String} (hd : m ∈ p.desired) (ho : m ∉ p.observed) :
      Makes settings t (.carryOut k p) (.hardware (.add k p.name m))
  | admin {c : IdentityCall} : Makes settings t .admin (.identity c)
  | domain {c : VaultCall} : Makes settings t .domain (.vault c)
  | clearRequest : Makes settings t .clearRequest (.store (.clearKeyUpdate t))
  | dropChild {c : String} : Makes settings t (.dropChild c) (.hierarchy (.deleteAnchor t.name c))
  | hooks {c : HookCall} : Makes settings t .hooks (.hook c)
  | getAgain {space name : String} : Makes settings t .record (.store (.get space name))
  | record {copy : Tenant} {s : Status} (h : s.phase = some .deployed) :
      Makes settings t .record (.store (.replaceStatus copy s))

end DeployStep

/-- The step has to wait for a namespace that is not there yet. -/
def StepEnd.ofReadiness : Except Error Readiness → StepEnd
  | .ok .ready => done
  | .ok .pending => blocked
  | .error e => failed e

/-- What the deploy pass comes to in which this was the last step. -/
def StepEnd.deployed : StepEnd → Except Error Action
  | done => .ok .await
  | blocked => .ok (.requeue 5)
  | failed e => .error e

/-- A job went in some way, and its outcome says how the step ended. -/
def Performed {σ α : Type} (R : Conduct Services σ) (j : Job α) (ending : Except Error α → StepEnd)
    (tr : List (Moment Services σ)) (x : StepEnd) : Prop :=
  ∃ s o s', j.Goes R s tr o s' ∧ x = ending o

namespace DeployStep

/-- What a step does, and what it comes to. -/
def Does {σ : Type} (R : Conduct Services σ) (settings : Settings) (fresh : Fresh) (t : Tenant) :
    DeployStep → List (Moment Services σ) → StepEnd → Prop
  | mark => Performed R (markDeploying t fresh) .of
  | root => Performed R (Hierarchy.ensureRoot settings.root t.name) .ofReadiness
  | child c => Performed R (Hierarchy.ensureChild t.name c) .ofReadiness
  | secrets c => Performed R (Hierarchy.propagateSecrets t.name c) .ofReadiness
  | retire k n => Performed R (Hardware.removeCollection k n) .of
  | carryOut k p => Performed R (Hardware.carryOut t.name k p) .of
  | admin => Performed R (Identity.ensureAdmin t.name) .of
  | domain => fun tr x => ∃ uuid recorded, Performed R
      (Encryption.ensureDomain t.name uuid t.spec.keys recorded t.spec.requiresKeyUpdate) .of tr x
  | clearRequest => Performed R (clearKeyUpdate t) .of
  | dropChild c => Performed R (Hierarchy.deleteChild t.name c) .of
  | hooks => fun tr x => ∃ event, event ≠ .delete ∧
      Performed R (Dispatch.dispatch t.spec event) .of tr x
  | record => fun tr x => ∃ keys,
      Performed R (updateStatus t (deployedStatus t keys fresh.now)) .of tr x

/-- What is asked and answered in a step, and what the step comes to. -/
def Went {σ : Type} (R : Conduct Services σ) (settings : Settings) (fresh : Fresh) (t : Tenant)
    (i : DeployStep) (tr : List (Moment Services σ)) (x : StepEnd) : Prop :=
  i.Does R settings fresh t tr x ∧ ∀ m ∈ tr, i.Makes settings t m.query

end DeployStep

open DeployStep

variable {σ α : Type} {R : Conduct Services σ} {s s' : σ} {settings : Settings} {fresh : Fresh}
  {t : Tenant} {tr : List (Moment Services σ)} {i : DeployStep} {is : List DeployStep} {x : StepEnd}

/-! ## Single steps -/

theorem performed {j : Job α} {ending : Except Error α → StepEnd} {o : Except Error α}
    (h : j.Goes R s tr o s') : Performed R j ending tr (ending o) := ⟨_, _, _, h, rfl⟩

theorem performed_discard {j : Job α} {o : Except Error Unit} (h : (discard j).Goes R s tr o s') :
    Performed R j .of tr (.of o) := by
  obtain ⟨o', hj, rfl⟩ := Job.goes_discard h
  refine ⟨_, _, _, hj, ?_⟩
  cases o' <;> rfl

theorem not_blocked_of_performed {j : Job α} : ¬ Performed R j .of tr .blocked := by
  rintro ⟨_, o, _, _, h⟩
  cases o <;> cases h

theorem makes_of_performed {j : Job α} {ending : Except Error α → StepEnd}
    (asks : j.Asks (i.Makes settings t)) (h : Performed R j ending tr x) :
    ∀ m ∈ tr, i.Makes settings t m.query := by
  obtain ⟨_, _, _, hj, _⟩ := h
  exact Dialogue.Goes.asks hj asks

theorem went_of_does (h : i.Does R settings fresh t tr x) : i.Went R settings fresh t tr x := by
  refine ⟨h, ?_⟩
  cases i with
  | mark => exact makes_of_performed (asks_markDeploying (fun _ _ => .get) fun _ _ => .mark) h
  | root => exact makes_of_performed (Hierarchy.asks_ensureAnchor .lookRoot .root) h
  | child c => exact makes_of_performed (Hierarchy.asks_ensureAnchor .lookChild .child) h
  | secrets c =>
    exact makes_of_performed
      (Hierarchy.asks_propagateSecrets (fun _ _ => .getSecret) (fun _ _ => .getSecret) fun _ => .secret) h
  | retire k n => exact makes_of_performed (Hardware.asks_removeCollection .retire) h
  | carryOut k p =>
    exact makes_of_performed (Hardware.asks_carryOut .look .make (fun _ => .drop) fun _ => .put) h
  | admin => exact makes_of_performed (Identity.asks_ensureAdmin fun _ _ => .admin) h
  | domain =>
    obtain ⟨_, _, h⟩ := h
    exact makes_of_performed (Encryption.asks_ensureDomain fun _ _ => .domain) h
  | clearRequest => exact makes_of_performed (Job.asks_call .clearRequest) h
  | dropChild c => exact makes_of_performed (Hierarchy.asks_removeAnchor .dropChild) h
  | hooks =>
    obtain ⟨_, _, h⟩ := h
    exact makes_of_performed (Dispatch.asks_dispatch fun _ _ => .hooks) h
  | record =>
    obtain ⟨_, h⟩ := h
    exact makes_of_performed (asks_updateStatus (fun _ _ => .getAgain) fun _ => .record rfl) h

/-- Nothing but a namespace makes a deploy pass wait. -/
theorem not_blocked_later (hi : i ∈ later t) : ¬ i.Does R settings fresh t tr .blocked := by
  cases i with
  | mark | root | child _ | secrets _ =>
    unfold later hardware keys at hi
    split at hi
    · split at hi <;> simp at hi
    · simp at hi
  | domain =>
    rintro ⟨_, _, h⟩
    exact not_blocked_of_performed h
  | hooks =>
    rintro ⟨_, _, h⟩
    exact not_blocked_of_performed h
  | record =>
    rintro ⟨_, h⟩
    exact not_blocked_of_performed h
  | retire _ _ | carryOut _ _ | admin | clearRequest | dropChild _ => exact not_blocked_of_performed

theorem system_of_makes {c : Call} (hi : i ∈ namespaces t) (hc : i.Makes settings t c) :
    c.system = .store ∨ c.system = .hierarchy := by
  simp only [namespaces, List.mem_cons, List.mem_flatMap, List.not_mem_nil, or_false] at hi
  rcases hi with rfl | rfl | ⟨_, _, rfl | rfl⟩
  · cases hc <;> exact .inl rfl
  all_goals cases hc <;> exact .inr rfl

/-! ## The parts of a deploy pass -/

/-- What is done after a namespace was made sure of follows upon it unless that has to wait. -/
theorem inTurn_unless_pending {j next : Job Readiness} {o : Except Error Readiness}
    (first : ∀ {s tr o s'}, j.Goes R s tr o s' → i.Does R settings fresh t tr (.ofReadiness o))
    (rest : ∀ {s tr o s'}, next.Goes R s tr o s' →
      InTurn (Does R settings fresh t) is tr (.ofReadiness o))
    (h : Job.Goes R (do
      match ← j with
      | .pending => pure .pending
      | .ready => next) s tr o s') :
    InTurn (Does R settings fresh t) (i :: is) tr (.ofReadiness o) := by
  rcases Job.goes_bind h with ⟨e, rfl, hj⟩ | ⟨r, s₁, tr₁, tr₂, hj, hrest, rfl⟩
  · exact .stopped (first hj) nofun
  · cases r with
    | pending =>
      obtain ⟨rfl, rfl, _⟩ := Job.goes_pure hrest
      rw [List.append_nil]
      exact .stopped (first hj) nofun
    | ready => exact .next (first hj) (rest hrest)

theorem inTurn_of_ensureChildren {cs : List String} {o : Except Error Readiness}
    (h : (ensureChildren t.name cs).Goes R s tr o s') :
    InTurn (Does R settings fresh t) (cs.flatMap fun c => [.child c, .secrets c]) tr
      (.ofReadiness o) := by
  induction cs generalizing s tr o s' with
  | nil =>
    obtain ⟨rfl, rfl, _⟩ := Job.goes_pure h
    exact .all
  | cons c cs ih =>
    exact inTurn_unless_pending performed (fun h => inTurn_unless_pending performed ih h) h

theorem inTurn_of_ensureNamespaces {o : Except Error Readiness}
    (h : (ensureNamespaces settings t).Goes R s tr o s') :
    InTurn (Does R settings fresh t)
      (.root :: t.desiredChildren.flatMap fun c => [.child c, .secrets c]) tr (.ofReadiness o) :=
  inTurn_unless_pending performed inTurn_of_ensureChildren h

theorem inTurn_of_converge {k : Kind} {o : Except Error Unit}
    (h : (Hardware.converge t.name k t.spec.resources t.recorded.resources).Goes R s tr o s') :
    InTurn (Does R settings fresh t) (hardware k t) tr (.of o) :=
  .of_seq (.of_forM performed_discard) (.of_forM performed) h

theorem inTurn_of_ensureKeys {uuid : String} {recorded : KeyRecord} {o : Except Error KeyRecord}
    (h : (ensureKeys t uuid recorded).Goes R s tr o s') :
    InTurn (Does R settings fresh t) (keys t) tr (.of o) := by
  unfold ensureKeys at h
  unfold keys
  split at h
  · next enabled =>
    rw [if_pos enabled]
    refine .of_bind (fun hj => ⟨_, _, performed hj⟩) (fun hrest => ?_) h
    dsimp only at hrest
    split at hrest
    · next requested =>
      rw [if_pos requested]
      refine .of_bind performed (fun hend => ?_) hrest
      obtain ⟨rfl, rfl, _⟩ := Job.goes_pure hend
      exact .all
    · next unrequested =>
      rw [if_neg unrequested]
      obtain ⟨rfl, rfl, _⟩ := Job.goes_pure hrest
      exact .all
  · next disabled =>
    rw [if_neg disabled]
    obtain ⟨rfl, rfl, _⟩ := Job.goes_pure h
    exact .all

theorem inTurn_of_applyDeclared {recorded : Status} {o : Except Error Unit}
    (h : (applyDeclared t fresh recorded).Goes R s tr o s') :
    InTurn (Does R settings fresh t) (later t) tr (.of o) := by
  refine .of_seq inTurn_of_converge ?_ h
  refine .of_seq inTurn_of_converge ?_
  refine .of_bind performed ?_
  refine .of_seq inTurn_of_ensureKeys ?_
  refine .of_seq (.of_forM performed_discard) ?_
  refine .of_bind (fun hj => ⟨_, ?_, performed hj⟩) fun hj => .single ⟨_, performed_discard hj⟩
  split <;> nofun

/-! ## Deploy passes -/

theorem inTurn_of_deploy {o : Except Error Action} (h : (deploy settings fresh t).Goes R s tr o s') :
    ∃ x, InTurn (Does R settings fresh t) (all t) tr x ∧ o = x.deployed := by
  have marked {s s' : σ} {tr : List (Moment Services σ)} {o : Except Error Status}
      (hmark : (markDeploying t fresh).Goes R s tr o s') :
      Does R settings fresh t .mark tr (.of o) := performed hmark
  have begun {s s₁ s₂ : σ} {tr₁ tr₂ : List (Moment Services σ)} {recorded : Status}
      {o : Except Error Readiness} (hmark : (markDeploying t fresh).Goes R s tr₁ (.ok recorded) s₁)
      (hspaces : (ensureNamespaces settings t).Goes R s₁ tr₂ o s₂) :
      InTurn (Does R settings fresh t) (namespaces t) (tr₁ ++ tr₂) (.ofReadiness o) :=
    .next (marked hmark) (inTurn_of_ensureNamespaces hspaces)
  rcases Job.goes_bind h with ⟨e, rfl, hmark⟩ | ⟨recorded, s₁, tr₁, _, hmark, hrest, rfl⟩
  · exact ⟨.failed e, .stopped (marked hmark) nofun, rfl⟩
  rcases Job.goes_bind hrest with ⟨e, rfl, hspaces⟩ | ⟨r, s₂, tr₂, tr₃, hspaces, hlast, rfl⟩
  · exact ⟨.failed e, (begun hmark hspaces).early nofun _, rfl⟩
  cases r with
  | pending =>
    obtain ⟨rfl, rfl, _⟩ := Job.goes_pure hlast
    rw [List.append_nil]
    exact ⟨.blocked, (begun hmark hspaces).early nofun _, rfl⟩
  | ready =>
    rw [← List.append_assoc]
    rcases Job.goes_bind hlast with ⟨e, rfl, happly⟩ | ⟨_, s₃, tr₄, tr₅, happly, hend, rfl⟩
    · exact ⟨.failed e, (begun hmark hspaces).append (inTurn_of_applyDeclared happly), rfl⟩
    · obtain ⟨rfl, rfl, _⟩ := Job.goes_pure hend
      rw [List.append_nil]
      exact ⟨.done, (begun hmark hspaces).append (inTurn_of_applyDeclared happly), rfl⟩

/-- A deploy pass goes through its steps in turn, whatever the systems answer, and its last step says how
it ends. If it has to wait, it has begun with no step that follows upon the namespaces, and all its calls
were to the store and the hierarchy. -/
theorem deploys_in_turn {o : Except Error Action} (h : (deploy settings fresh t).Goes R s tr o s') :
    ∃ x, InTurn (Went R settings fresh t) (all t) tr x ∧ o = x.deployed ∧
      (x = .blocked → InTurn (Went R settings fresh t) (namespaces t) tr x ∧
        ∀ m ∈ tr, Call.system m.query = .store ∨ Call.system m.query = .hierarchy) := by
  obtain ⟨x, turn, ho⟩ := inTurn_of_deploy h
  refine ⟨x, turn.mono fun _ _ _ => went_of_does, ho, ?_⟩
  rintro rfl
  have spaces : InTurn (Went R settings fresh t) (namespaces t) tr .blocked :=
    (turn.not_begun nofun fun _ hi _ => not_blocked_later hi).mono fun _ _ _ => went_of_does
  exact ⟨spaces, spaces.forall_mem fun i hi _ _ hw m hm => system_of_makes hi (hw.2 m hm)⟩

open Rehearsal

/-- A new tenant whose parent namespace has not been made yet. -/
def parentless : Stage where
  world := { tenant := some (Stage.newTenant (Stage.onePartition ["x1"])), hidden := ["tenants"] }

def parentlessDeploy : Job Action := deploy {} ⟨"1", "now"⟩ parentless.tenant

/-- Without its parent the root namespace cannot be made, so the pass is to be repeated before it came to
the hardware. -/
theorem deploys_in_turn_of_parentless :
    (Stage.perform parentlessDeploy parentless).1 = .ok (.requeue 5) ∧
      ∀ m ∈ Stage.story parentlessDeploy parentless,
        Call.system m.query = .store ∨ Call.system m.query = .hierarchy := by
  have plain : parentless.Plain Call.Unreachable := fun _ hf => nomatch hf
  have goes : parentlessDeploy.Goes (World.conduct (fun _ => True) Call.Unreachable) _ _ _ _ :=
    Stage.goes_perform plain _
  obtain ⟨x, _, ho, waits⟩ := deploys_in_turn goes
  have waited : (Stage.perform parentlessDeploy parentless).1 = .ok (.requeue 5) := by rfl
  refine ⟨waited, (waits ?_).2⟩
  rw [waited] at ho
  cases x with
  | blocked => rfl
  | done => cases ho
  | failed e => cases ho

end Tenancy.Lifecycle

import Tenancy.Lifecycle.Reconcile
import Tenancy.Proofs.Jobs

/-!
# What jobs ask

Every job of the operator makes calls of a few shapes only, whatever it is answered. Each lemma here
takes the calls of a job one by one as assumptions, so it serves for which system is called as well as
for which namespaces, collections and paths a call may name.
-/

namespace Tenancy

open Job

variable {p : Call → Prop}

/-! ## Namespaces -/

namespace Hierarchy

theorem asks_ensureAnchor {parent name : String} (exist : p (.hierarchy (.anchorExists parent name)))
    (make : p (.hierarchy (.createAnchor parent name))) : (ensureAnchor parent name).Asks p := by
  refine asks_bind (asks_call exist) fun found => ?_
  split
  · exact asks_pure
  · exact asks_bind (asks_outcome (asks_call make)) fun _ => asks_liftExcept

theorem asks_removeAnchor {parent name : String}
    (delete : p (.hierarchy (.deleteAnchor parent name))) : (removeAnchor parent name).Asks p :=
  asks_bind (asks_outcome (asks_call delete)) fun _ => asks_liftExcept

theorem asks_copySecret {qualified : String} {c : Copied}
    (look : p (.hierarchy (.getSecret qualified c.secret)))
    (read : p (.hierarchy (.getSecret c.source c.secret)))
    (make : ∀ secret, p (.hierarchy (.createSecret qualified secret))) :
    (copySecret qualified c).Asks p := by
  refine asks_bind (asks_call look) fun found => ?_
  split
  · exact asks_pure
  · refine asks_bind (asks_call read) fun source => ?_
    cases source with
    | none => exact asks_pure
    | some s => exact asks_bind (asks_outcome (asks_call (make _))) fun _ => asks_liftExcept

theorem asks_propagateSecrets {tenant qualified : String}
    (look : ∀ c ∈ copied, p (.hierarchy (.getSecret qualified c.secret)))
    (read : ∀ c ∈ copied, p (.hierarchy (.getSecret c.source c.secret)))
    (make : ∀ secret, p (.hierarchy (.createSecret qualified secret))) :
    (propagateSecrets tenant qualified).Asks p := by
  have copies (cs : List Copied) (h : ∀ c ∈ cs, c ∈ copied) : (copySecrets qualified cs).Asks p := by
    induction cs with
    | nil => exact asks_pure
    | cons c cs ih =>
      have hc := h c (by simp)
      refine asks_bind (asks_copySecret (look c hc) (read c hc) make) fun r => ?_
      cases r with
      | pending => exact asks_pure
      | ready => exact ih fun d hd => h d (by simp [hd])
  unfold propagateSecrets
  split
  · exact asks_pure
  · exact copies _ fun c hc => (List.mem_filter.1 hc).1

end Hierarchy

/-! ## Hardware -/

namespace Hardware

theorem asks_dropMember {kind : Kind} {name member : String}
    (remove : p (.hardware (.remove kind name member))) : (dropMember kind name member).Asks p :=
  asks_bind (asks_outcome (asks_call remove)) fun _ => asks_liftExcept

theorem asks_putMember {kind : Kind} {name member : String}
    (add : p (.hardware (.add kind name member))) : (putMember kind name member).Asks p :=
  asks_bind (asks_outcome (asks_call add)) fun _ => asks_liftExcept

theorem asks_syncMembers {kind : Kind} {name : String} {diff : MemberDiff}
    (remove : ∀ m ∈ diff.toRemove, p (.hardware (.remove kind name m)))
    (add : ∀ m ∈ diff.toAdd, p (.hardware (.add kind name m))) : (syncMembers kind name diff).Asks p :=
  asks_bind (asks_forM fun m hm => asks_dropMember (remove m hm)) fun _ =>
    asks_forM fun m hm => asks_putMember (add m hm)

theorem asks_ensureCollection {kind : Kind} {c : Collection} (get : p (.hardware (.get kind c.name)))
    (create : p (.hardware (.create kind c))) : (ensureCollection kind c).Asks p := by
  refine asks_bind (asks_call get) fun found => ?_
  split
  · exact asks_pure
  · exact asks_bind (asks_outcome (asks_call create)) fun _ => asks_liftExcept

theorem asks_removeCollection {kind : Kind} {name : String} (delete : p (.hardware (.delete kind name))) :
    (removeCollection kind name).Asks p :=
  asks_bind (asks_outcome (asks_call delete)) fun _ => asks_liftExcept

theorem asks_carryOut {tenant : String} {kind : Kind} {plan : Collection.Plan}
    (get : p (.hardware (.get kind plan.name)))
    (create : p (.hardware (.create kind (Collection.forPlan tenant kind plan))))
    (remove : ∀ m ∈ plan.observed, m ∉ plan.desired → p (.hardware (.remove kind plan.name m)))
    (add : ∀ m ∈ plan.desired, m ∉ plan.observed → p (.hardware (.add kind plan.name m))) :
    (carryOut tenant kind plan).Asks p := by
  refine asks_bind (asks_ensureCollection get create) fun _ => asks_syncMembers ?_ ?_
  · intro m hm
    obtain ⟨ho, hd⟩ := MemberDiff.mem_toRemove.1 hm
    exact remove m ho hd
  · intro m hm
    obtain ⟨hd, ho⟩ := MemberDiff.mem_toAdd.1 hm
    exact add m hd ho

/-- The calls that move the collections of a kind from what was last applied to what is declared. -/
inductive Moves (tenant : String) (kind : Kind) (desired observed : List Resource) : HardwareCall → Prop
  | retire {n : String} (hn : n ∈ Collection.targets kind observed)
      (hd : n ∉ Collection.targets kind desired) : Moves tenant kind desired observed (.delete kind n)
  | look {n : String} (hn : n ∈ Collection.targets kind desired) :
      Moves tenant kind desired observed (.get kind n)
  | make {n : String} (hn : n ∈ Collection.targets kind desired) :
      Moves tenant kind desired observed
        (.create kind (Collection.forPlan tenant kind (Collection.planFor kind desired observed n)))
  | drop {n m : String} (hn : n ∈ Collection.targets kind desired)
      (ho : m ∈ Collection.membersFor kind n observed)
      (hd : m ∉ Collection.membersFor kind n desired) :
      Moves tenant kind desired observed (.remove kind n m)
  | put {n m : String} (hn : n ∈ Collection.targets kind desired)
      (hd : m ∈ Collection.membersFor kind n desired)
      (ho : m ∉ Collection.membersFor kind n observed) : Moves tenant kind desired observed (.add kind n m)

theorem asks_converge {tenant : String} {kind : Kind} {desired observed : List Resource}
    (moves : ∀ c, Moves tenant kind desired observed c → p (.hardware c)) :
    (converge tenant kind desired observed).Asks p := by
  refine asks_bind (asks_forM fun n hn => ?_) fun _ => asks_forM fun plan hplan => ?_
  · obtain ⟨ho, hd⟩ := Names.mem_without.1 hn
    exact asks_discard (asks_removeCollection (moves _ (.retire ho hd)))
  · obtain ⟨n, hn, rfl⟩ := List.mem_map.1 hplan
    exact asks_carryOut (moves _ (.look hn)) (moves _ (.make hn))
      (fun m ho hd => moves _ (.drop hn ho hd)) fun m hd ho => moves _ (.put hn hd ho)

end Hardware

/-! ## Identity -/

namespace Identity

/-- The calls that make sure of the administrators' group. -/
inductive Ensures (tenant : String) : IdentityCall → Prop
  | look : Ensures tenant (.find (IdentityGroup.adminName tenant))
  | make : Ensures tenant (.create (IdentityGroup.admin tenant))

theorem asks_ensureAdmin {tenant : String} (ensures : ∀ c, Ensures tenant c → p (.identity c)) :
    (ensureAdmin tenant).Asks p := by
  refine asks_bind (asks_call (ensures _ .look)) fun found => ?_
  split
  · exact asks_pure
  · exact asks_bind (asks_outcome (asks_call (ensures _ .make))) fun _ => asks_liftExcept

theorem asks_removeAdmin {tenant : String} (any : ∀ c, p (.identity c)) :
    (removeAdmin tenant).Asks p := by
  refine asks_bind (asks_call (any _)) fun found => ?_
  split
  · exact asks_pure
  · exact asks_bind (asks_outcome (asks_call (any _))) fun _ => asks_liftExcept

end Identity

/-! ## Keys -/

namespace Encryption

def domainPaths (domain : String) : List String :=
  [mountPath domain, policyPath domain, rolePath domain]

theorem mountPath_mem (domain : String) : mountPath domain ∈ domainPaths domain := List.mem_cons_self

theorem steps_path (tenant domain : String) :
    (steps tenant domain).map Step.path = domainPaths domain := rfl

theorem asks_provision {tenant domain : String}
    (write : ∀ path ∈ domainPaths domain, ∀ body, p (.vault (.write path body)))
    (delete : ∀ path ∈ domainPaths domain, p (.vault (.delete path))) :
    (provision tenant domain).Asks p := by
  have back (made : List String) (h : ∀ path ∈ made, path ∈ domainPaths domain) :
      (rollBack made).Asks p := by
    induction made with
    | nil => exact asks_pure
    | cons path made ih =>
      refine asks_bind (asks_discard (asks_outcome (asks_call (delete path (h path (by simp)))))) ?_
      exact fun _ => ih fun q hq => h q (by simp [hq])
  have forth (todo : List Step) (made : List String)
      (h : ∀ path ∈ made, path ∈ domainPaths domain)
      (h' : ∀ s ∈ todo, s.path ∈ domainPaths domain) : (provisionFrom made todo).Asks p := by
    induction todo generalizing made with
    | nil => exact asks_pure
    | cons s todo ih =>
      have hs := h' s (by simp)
      refine asks_bind (asks_outcome (asks_call (write s.path hs s.body))) fun x => ?_
      cases x with
      | error e => exact asks_bind (back made h) fun _ => asks_throw
      | ok u =>
        refine ih _ (fun q hq => ?_) fun s' hs' => h' s' (by simp [hs'])
        rcases List.mem_cons.1 hq with rfl | hq
        · exact hs
        · exact h q hq
  refine forth _ [] (by simp) fun s hs => ?_
  rw [← steps_path tenant]
  exact List.mem_map_of_mem hs

theorem asks_ensureKey {path keyType : String} (read : p (.vault (.read path)))
    (write : ∀ body, p (.vault (.write path body))) : (ensureKey path keyType).Asks p := by
  refine asks_bind (asks_call read) fun found => ?_
  cases found with
  | some data => exact asks_pure
  | none =>
    refine asks_bind (asks_within (asks_call (write _))) fun _ => ?_
    refine asks_bind (asks_call read) fun found => ?_
    cases found with
    | some data => exact asks_pure
    | none => exact asks_throw

/-- The calls that make sure of a domain and its key. -/
inductive Ensures (domain : String) : VaultCall → Prop
  | look {path : String} (hp : path ∈ domainPaths domain) : Ensures domain (.read path)
  | make {path : String} {body : Json} (hp : path ∈ domainPaths domain) :
      Ensures domain (.write path body)
  | takeBack {path : String} (hp : path ∈ domainPaths domain) : Ensures domain (.delete path)
  | lookKey {k : String} : Ensures domain (.read (keyPath domain k))
  | key {k : String} {body : Json} : Ensures domain (.write (keyPath domain k) body)

theorem asks_ensureDomain {tenant uuid : String} {desired : KeySettings} {recorded : KeyRecord}
    {rotate : Bool}
    (ensures : ∀ c, Ensures (recorded.domain.getD (domainName uuid)) c → p (.vault c)) :
    (ensureDomain tenant uuid desired recorded rotate).Asks p := by
  refine asks_bind (asks_call (ensures _ (.look (mountPath_mem _)))) fun found => ?_
  dsimp only
  have rest (keyName keyType : String) : Asks p (do
      let data ← ensureKey (keyPath (recorded.domain.getD (domainName uuid)) keyName) keyType
      return { domain := some (recorded.domain.getD (domainName uuid)), keyName := some keyName,
               keyType := some keyType, publicKey := some (publicKeyOf data) : KeyRecord }) :=
    asks_bind (asks_ensureKey (ensures _ .lookKey) fun _ => ensures _ .key) fun _ => asks_pure
  split
  · exact asks_bind (asks_provision (fun _ hp _ => ensures _ (.make hp))
      fun _ hp => ensures _ (.takeBack hp)) fun _ => rest _ _
  · exact rest _ _

theorem asks_removeDomain {recorded : KeyRecord}
    (read : ∀ d ∈ recorded.domain, p (.vault (.read (mountPath d))))
    (delete : ∀ d ∈ recorded.domain, ∀ path ∈ domainPaths d, p (.vault (.delete path))) :
    (removeDomain recorded).Asks p := by
  unfold removeDomain
  split
  · exact asks_pure
  · next d hd =>
    refine asks_bind (asks_call (read d hd)) fun found => ?_
    refine asks_bind (asks_forM fun path hpath => ?_) fun _ => asks_pure
    exact asks_bind (asks_outcome (asks_call (delete d hd path hpath))) fun _ => asks_liftExcept

end Encryption

/-! ## Hooks -/

namespace Dispatch

inductive Tells (spec : Spec) (event : Event) : HookCall → Prop
  | list : Tells spec event .listGlobal
  | read {space name : String} : Tells spec event (.readSecret space name)
  | post {url : String} {blocking : Bool} {c : Option Credentials} :
      Tells spec event (.post url ⟨spec, event⟩ blocking c)

theorem asks_tell {n : Notice} {h : Hook} (tells : ∀ c, Tells n.spec n.event c → p (.hook c)) :
    (tell n h).Asks p := by
  have credentials : (credentialsFor h).Asks p := by
    unfold credentialsFor
    split
    · exact asks_pure
    · refine asks_bind (asks_call (tells _ .read)) fun data => ?_
      cases data with
      | none => exact asks_throw
      | some data =>
        dsimp only
        split
        · exact asks_pure
        · exact asks_throw
  exact asks_bind credentials fun _ => asks_bind (asks_call (tells _ .post)) fun _ => asks_liftExcept

theorem asks_tellAll {n : Notice} {hooks : List Hook} (tells : ∀ c, Tells n.spec n.event c → p (.hook c)) :
    (tellAll n hooks).Asks p := by
  induction hooks with
  | nil => exact asks_pure
  | cons h rest ih =>
    unfold tellAll
    dsimp only
    split
    · exact asks_bind (asks_outcome (asks_tell tells)) fun _ => asks_bind asks_liftExcept fun _ => ih
    · exact ih

theorem asks_dispatch {spec : Spec} {event : Event} (tells : ∀ c, Tells spec event c → p (.hook c)) :
    (dispatch spec event).Asks p := by
  refine asks_bind (asks_tellAll tells) fun _ => ?_
  refine asks_bind (asks_outcome (asks_call (tells _ .list))) fun listed => ?_
  cases listed with
  | ok hooks => exact asks_tellAll tells
  | error e => exact asks_pure

end Dispatch

/-! ## Passes -/

namespace Lifecycle

theorem asks_updateOnce {space name : String} {change : Status → Status}
    (get : p (.store (.get space name)))
    (replace : ∀ copy, p (.store (.replaceStatus copy (change copy.recorded)))) :
    (updateOnce space name change).Asks p := by
  refine asks_bind (asks_call get) fun latest => ?_
  cases latest with
  | none => exact asks_throw
  | some latest => exact asks_bind (asks_call (replace latest)) fun _ => asks_pure

theorem asks_updateStatus {t : Tenant} {change : Status → Status}
    (get : ∀ space name, p (.store (.get space name)))
    (replace : ∀ copy, p (.store (.replaceStatus copy (change copy.recorded)))) :
    (updateStatus t change).Asks p :=
  asks_attempts (t := updateOnce _ _ change) (asks_updateOnce (get _ _) replace) _ _

theorem asks_releaseFinalizer {t : Tenant} {finalizer : String}
    (get : ∀ space name, p (.store (.get space name)))
    (remove : ∀ copy, p (.store (.removeFinalizer copy finalizer))) :
    (releaseFinalizer t finalizer).Asks p := by
  refine asks_attempts (t := releaseOnce _ _ finalizer) ?_ _ _
  refine asks_bind (asks_call (get _ _)) fun latest => ?_
  cases latest with
  | none => exact asks_pure
  | some latest =>
    dsimp only
    split
    · exact asks_call (remove _)
    · exact asks_pure

theorem asks_markDeploying {t : Tenant} {fresh : Fresh}
    (get : ∀ space name, p (.store (.get space name)))
    (replace : ∀ copy s, s.phase ≠ some .deployed → p (.store (.replaceStatus copy s))) :
    (markDeploying t fresh).Asks p := by
  have last : (updateStatus t fun s => { s with
      phase := some .deploying, uuid := some (s.uuid.getD fresh.uuid) }).Asks p :=
    asks_updateStatus get fun copy => replace copy _ nofun
  unfold markDeploying
  dsimp only
  split
  · have first : (updateStatus t fun s => { s with phase := some .new }).Asks p :=
      asks_updateStatus get fun copy => replace copy _ nofun
    exact asks_bind (asks_discard first) fun _ => last
  · exact last

theorem asks_markDeleting {t : Tenant} (get : ∀ space name, p (.store (.get space name)))
    (replace : ∀ copy s, p (.store (.replaceStatus copy s))) : (markDeleting t).Asks p := by
  unfold markDeleting
  split
  · exact asks_pure
  · exact asks_updateStatus get fun copy => replace copy _

/-- The calls that make sure of the namespaces of a tenant. -/
inductive Namespaces (settings : Settings) (t : Tenant) : HierarchyCall → Prop
  | lookRoot : Namespaces settings t (.anchorExists settings.root t.name)
  | root : Namespaces settings t (.createAnchor settings.root t.name)
  | lookChild {c : String} (hc : c ∈ t.desiredChildren) : Namespaces settings t (.anchorExists t.name c)
  | child {c : String} (hc : c ∈ t.desiredChildren) : Namespaces settings t (.createAnchor t.name c)
  | lookSecret {c : String} {s : Hierarchy.Copied} (hc : c ∈ t.desiredChildren)
      (hs : s ∈ Hierarchy.copied) : Namespaces settings t (.getSecret c s.secret)
  | source {s : Hierarchy.Copied} (hs : s ∈ Hierarchy.copied) :
      Namespaces settings t (.getSecret s.source s.secret)
  | secret {c : String} {s : Secret} (hc : c ∈ t.desiredChildren) :
      Namespaces settings t (.createSecret c s)

theorem asks_ensureNamespaces {settings : Settings} {t : Tenant}
    (spaces : ∀ c, Namespaces settings t c → p (.hierarchy c)) :
    (ensureNamespaces settings t).Asks p := by
  have children (cs : List String) (h : ∀ c ∈ cs, c ∈ t.desiredChildren) :
      (ensureChildren t.name cs).Asks p := by
    induction cs with
    | nil => exact asks_pure
    | cons c cs ih =>
      have hc := h c (by simp)
      refine asks_bind (Hierarchy.asks_ensureAnchor (spaces _ (.lookChild hc)) (spaces _ (.child hc))) ?_
      intro r
      cases r with
      | pending => exact asks_pure
      | ready =>
        refine asks_bind (Hierarchy.asks_propagateSecrets (fun _ hs => spaces _ (.lookSecret hc hs))
          (fun _ hs => spaces _ (.source hs)) fun _ => spaces _ (.secret hc)) fun r => ?_
        cases r with
        | pending => exact asks_pure
        | ready => exact ih fun d hd => h d (by simp [hd])
  refine asks_bind (Hierarchy.asks_ensureAnchor (spaces _ .lookRoot) (spaces _ .root)) fun r => ?_
  cases r with
  | pending => exact asks_pure
  | ready => exact children _ fun _ hc => hc

end Lifecycle

end Tenancy

import Tenancy.Proofs.Domains
import Tenancy.Proofs.Histories
import Tenancy.Proofs.Stages

/-!
# Coming to rest

A pass that ends by waiting for a change has left nothing to do. If it wrote what it applied, then the
record agrees with the declaration in everything that the next pass compares: in the resources and
children, which are the declared ones, in the hooks, and in the keys, since a tenant that wants keys has
a public key by then and its request for a key update was taken away. The request of a tenant that wants
no keys is taken away first of all. So a pass over the tenant that is stored then makes no call at all
(`settled_after_await`).

What passes leave of the tenant on the way is said by `Tenant.Kept`, relative to whichever tenant was
stored before: a request that was taken away stays away.
-/

namespace Tenancy

open Rehearsal Rehearsal.World Encryption

theorem Resource.sameAs_refl (r : Resource) : r.sameAs r = true := by
  have members : sameMembers r.members r.members = true := sameMembers_iff.2 fun _ => .rfl
  simp [Resource.sameAs, members]

theorem Tenant.resourcesAgree_refl (rs : List Resource) : resourcesAgree rs rs = true := by
  rw [resourcesAgree, beq_self_eq_true, Bool.true_and, List.all_eq_true]
  intro r hr
  exact List.any_eq_true.2 ⟨r, hr, r.sameAs_refl⟩

/-- The tenant was tended, and no finalizer was detached. -/
def Tenant.Kept (t t' : Tenant) : Prop := t.Tended t' ∧ t.Held t'

theorem Tenant.Kept.refl (t : Tenant) : t.Kept t := ⟨.refl t, fun _ hf => hf⟩

theorem Tenant.Kept.trans {t t' t'' : Tenant} (h : t.Kept t') (h' : t'.Kept t'') : t.Kept t'' :=
  ⟨h.1.trans h'.1, fun f hf => h'.2 f (h.2 f hf)⟩

theorem StoreCall.kept_write {c : StoreCall} (hc : c.detaches = false) (t : Tenant) :
    t.Kept (c.write t) := ⟨c.tended_write t, held_write hc t⟩

namespace Lifecycle

variable {settings : Settings} {fresh : Fresh} {t u : Tenant} {recorded : Status} {w w' : World}
  {tr : List (Moment Services World)} {keys : KeyRecord}

/-! ## Settled tenants -/

theorem isSettled_withStatus {now : String} {s : Status} (tended : t.Tended u)
    (ready : t.spec.keys.enabled = true → keys.publicKey.isSome = true)
    (unrequested : u.spec.requiresKeyUpdate = false) :
    isSettled (u.withStatus (deployedStatus t keys now s)) = true := by
  have converged : (u.withStatus (deployedStatus t keys now s)).isConverged = true := by
    show (Tenant.resourcesAgree u.spec.resources t.spec.resources &&
      sameMembers u.desiredChildren t.desiredChildren && u.spec.hooks == t.spec.hooks) = true
    rw [tended.resources, tended.desiredChildren, tended.hooks, Tenant.resourcesAgree_refl,
      sameMembers_iff.2 fun _ => .rfl, beq_self_eq_true]
    rfl
  have done : keysPending (u.withStatus (deployedStatus t keys now s)) = false := by
    show (u.spec.keys.enabled && (u.spec.requiresKeyUpdate || keys.publicKey.isNone)) = false
    rw [tended.keys, unrequested, Bool.false_or]
    cases enabled : t.spec.keys.enabled with
    | false => rfl
    | true => simpa using ready enabled
  rw [isSettled, converged, done]
  rfl

theorem isSettled_of_tended (h : isSettled t = true) (tended : t.Tended u) (status : u.status = t.status)
    (unrequested : u.spec.requiresKeyUpdate = false) : isSettled u = true := by
  have recorded : u.recorded = t.recorded := by rw [Tenant.recorded, status, Tenant.recorded]
  have phase : u.phase = t.phase := by rw [Tenant.phase, recorded, Tenant.phase]
  have converged : u.isConverged = t.isConverged := by
    unfold Tenant.isConverged
    rw [status, tended.resources, tended.desiredChildren, tended.hooks]
  have pending : keysPending u = (t.spec.keys.enabled && t.recorded.keys.publicKey.isNone) := by
    rw [keysPending, tended.keys, unrequested, recorded, Bool.false_or]
  rw [isSettled, phase, converged, pending]
  unfold isSettled keysPending at h
  revert h
  cases t.spec.requiresKeyUpdate <;> simp +contextual

/-- Over a settled tenant that the finalizer holds, with no request left, a pass makes no call. -/
theorem reconcile_eq_await (alive : t.deletionRequested = false)
    (held : t.hasFinalizer tenantFinalizer = true) (settled : isSettled t = true)
    (unrequested : t.spec.requiresKeyUpdate = false) : reconcile settings fresh t = pure .await := by
  unfold reconcile maintain
  rw [alive, held, settled, unrequested]
  rfl

/-! ## What passes leave of the tenant -/

/-- A call that detaches no finalizer. -/
def Holding (c : Call) : Prop := ∀ sc, c = .store sc → sc.detaches = false

theorem Mild.holding {c : Call} (h : Mild c) : Holding c := fun sc hc => (h sc hc).2

theorem holding_of_system {c : Call} (h : c.system ≠ .store) : Holding c := (mild_of_system h).holding

theorem kept_of_asks {α : Type} {j : Job α} {o : Except Error α} (h : j.Goes soleWriter w tr o w')
    (hj : j.Asks Holding) (hw : Stored t.Kept w) : Stored t.Kept w' := by
  refine (trail_of_asks (S := fun _ _ => True) (fun _ => trivial) h hj ?_ hw).2
  intro c hc u hu
  exact ⟨trivial, hu.trans (StoreCall.kept_write (hc c rfl) u)⟩

theorem markDeploying_asks_holding : (markDeploying t fresh).Asks Holding := by
  apply asks_markDeploying
  · rintro space name _ ⟨⟩
    rfl
  · rintro copy s _ _ ⟨⟩
    rfl

theorem clearKeyUpdate_ok {copy : Tenant} (h : (clearKeyUpdate copy).Goes soleWriter w tr (.ok ()) w')
    (stored : w.tenant = some t) : w'.tenant = some ((StoreCall.clearKeyUpdate copy).write t) := by
  have done : w'.tenant = w.tenant.map _ := ((Job.goes_call h).1.2 rfl () rfl).2
  rw [stored] at done
  exact done

/-- After a deploy pass has come through all systems a tenant that wants keys has a public key, and no
request for a key update. -/
theorem keys_ready_of_prepare
    (h : (prepare settings fresh t recorded).Goes soleWriter w tr (.ok (some keys)) w')
    (hw : Stored t.Kept w) (enabled : t.spec.keys.enabled = true) :
    keys.publicKey.isSome = true ∧ Stored (fun u => u.spec.requiresKeyUpdate = false) w' := by
  have kept := kept_of_asks h ((prepare_asks_mild recorded).mono fun _ => Mild.holding) hw
  obtain ⟨w₁, w₂, w₃, _, _, _, _, spaces, partitions, groups, others, _⟩ := prepare_ok h
  obtain ⟨w₄, w₅, w₆, _, _, _, _, admin, hkeys, stale, hooks, _⟩ := applyOthers_ok others
  rcases ensureKeys_ok hkeys with ⟨disabled, _⟩ | ⟨w₇, _, _, domain, clear⟩
  · rw [enabled] at disabled
    cases disabled
  obtain ⟨data, rfl⟩ := ensureDomain_made domain
  refine ⟨rfl, ?_⟩
  by_cases requested : t.spec.requiresKeyUpdate = true
  · have there := stored_of_goes groups (stored_of_goes partitions (stored_of_goes spaces hw))
    obtain ⟨v, stored, _⟩ := stored_of_goes domain (stored_of_goes admin there)
    have cleared := clearKeyUpdate_ok (clear requested) stored
    -- nobody asks for another update while the children are dropped and the hooks are told
    have drops (c : String) : (discard (Hierarchy.deleteChild t.name c)).Asks Holding :=
      Job.asks_discard (Hierarchy.asks_removeAnchor (holding_of_system nofun))
    have dropped := kept_of_asks stale (Job.asks_forM fun c _ => drops c) ⟨_, cleared, .refl _⟩
    have told := kept_of_asks hooks (Dispatch.asks_dispatch fun _ _ => holding_of_system nofun) dropped
    exact told.mono fun u hu => hu.1.unrequested rfl
  · exact kept.mono fun u hu => hu.1.unrequested (by simpa using requested)

/-- A deploy pass that ends by waiting for a change leaves a settled tenant. -/
theorem settled_of_deploy (h : (deploy settings fresh t).Goes soleWriter w tr (.ok .await) w')
    (stored : w.tenant = some u) (kept : t.Kept u)
    (cleared : t.spec.keys.enabled = false → u.spec.requiresKeyUpdate = false) :
    Stored (fun v => t.Kept v ∧ v.spec.requiresKeyUpdate = false ∧ isSettled v = true) w' := by
  generalize ho : (.ok .await : Except Error Action) = o at h
  cases deploy_cases h with
  | unmarked => cases ho
  | failed => cases ho
  | pending => cases ho
  | @prepared w₁ w₂ _ _ _ _ recorded keys o mark middle last =>
    cases o with
    | error e => cases ho
    | ok s =>
      have marked : Stored u.Kept w₁ := kept_of_asks mark markDeploying_asks_holding ⟨u, stored, .refl u⟩
      have ready := keys_ready_of_prepare middle (marked.mono fun _ => kept.trans)
      obtain ⟨v, stored₂, kept₂⟩ : Stored u.Kept w₂ :=
        kept_of_asks middle ((prepare_asks_mild recorded).mono fun _ => Mild.holding) marked
      have unrequested : v.spec.requiresKeyUpdate = false := by
        by_cases enabled : t.spec.keys.enabled = true
        · obtain ⟨v', stored', unrequested⟩ := (ready enabled).2
          obtain rfl := Option.some.inj (stored₂.symm.trans stored')
          exact unrequested
        · exact kept₂.1.unrequested (cleared (by simpa using enabled))
      obtain ⟨_, _, written⟩ := trail_of_updateStatus (S := fun _ _ => True) (P := v.Kept)
        (fun _ => trivial) (fun x hx => ⟨trivial, hx.trans (StoreCall.kept_write
          (c := .replaceStatus x _) rfl x)⟩) last ⟨v, stored₂, .refl v⟩
      obtain ⟨_, stored', x, hx, rfl, rfl⟩ := written s rfl
      have kept' := kept.trans (kept₂.trans hx)
      refine ⟨_, stored', kept'.trans (StoreCall.kept_write (c := .replaceStatus x _) rfl x),
        hx.1.unrequested unrequested, ?_⟩
      exact isSettled_withStatus kept'.1 (fun enabled => (ready enabled).1) (hx.1.unrequested unrequested)

theorem dropRequest_ok (h : (dropRequest t).Goes soleWriter w tr (.ok ()) w') (stored : w.tenant = some t) :
    ∃ u, w'.tenant = some u ∧ t.Kept u ∧ u.status = t.status ∧
      (t.spec.keys.enabled = false → u.spec.requiresKeyUpdate = false) := by
  unfold dropRequest at h
  split at h
  · exact ⟨_, clearKeyUpdate_ok h stored, StoreCall.kept_write (c := .clearKeyUpdate t) rfl t, rfl, fun _ => rfl⟩
  · next unasked =>
    obtain ⟨_, _, rfl⟩ := Job.goes_pure h
    refine ⟨t, stored, .refl t, rfl, fun disabled => ?_⟩
    simpa [disabled] using unasked

/-- A settled tenant that wants keys has no request left. -/
theorem unrequested_of_settled (settled : isSettled t = true) (enabled : t.spec.keys.enabled = true) :
    t.spec.requiresKeyUpdate = false := by
  have done : keysPending t = false := by
    rw [isSettled, Bool.and_eq_true, Bool.not_eq_true'] at settled
    exact settled.2
  rw [keysPending, enabled, Bool.true_and, Bool.or_eq_false_iff] at done
  exact done.1

/-- A pass that ends by waiting for a change leaves a settled tenant, still held by the finalizer. -/
theorem settled_of_reconcile (stored : w.tenant = some t) (alive : t.deletionRequested = false)
    (h : (reconcile settings fresh t).Goes soleWriter w tr (.ok .await) w') :
    t.hasFinalizer tenantFinalizer = true ∧
      Stored (fun v => t.Kept v ∧ v.spec.requiresKeyUpdate = false ∧ isSettled v = true) w' := by
  generalize ho : (.ok .await : Except Error Action) = o at h
  cases reconcile_cases h with
  | gone requested =>
    rw [alive] at requested
    cases requested
  | teardown requested =>
    rw [alive] at requested
    cases requested
  | @attach _ _ o => cases o <;> cases ho
  | undropped => cases ho
  | settled _ held settled drop =>
    obtain ⟨u, stored', kept, status, cleared⟩ := dropRequest_ok drop stored
    have unrequested : u.spec.requiresKeyUpdate = false := by
      by_cases enabled : t.spec.keys.enabled = true
      · exact kept.1.unrequested (unrequested_of_settled settled enabled)
      · exact cleared (by simpa using enabled)
    exact ⟨held, u, stored', kept, unrequested, isSettled_of_tended settled kept.1 status unrequested⟩
  | deploy _ held _ drop goes =>
    subst ho
    obtain ⟨u, stored₁, kept, _, cleared⟩ := dropRequest_ok drop stored
    exact ⟨held, settled_of_deploy goes stored₁ kept cleared⟩

/-- Where a pass over the stored tenant ends by waiting for a change, the tenant that is stored then is one
over which a pass makes no call, and however many passes follow, nothing happens in them. -/
theorem settled_after_await (stored : w.tenant = some t) (alive : t.deletionRequested = false)
    (h : (reconcile settings fresh t).Goes soleWriter w tr (.ok .await) w') :
    ∃ t', w'.tenant = some t' ∧ (∀ fresh', reconcile settings fresh' t' = pure .await) ∧
      ∀ {R ms w''}, History settings R Current (fun _ _ => False) w' ms w'' → ms = [] ∧ w'' = w' := by
  obtain ⟨held, t', stored', kept, unrequested, settled⟩ := settled_of_reconcile stored alive h
  have still (fresh' : Fresh) : reconcile settings fresh' t' = pure .await :=
    reconcile_eq_await (kept.1.deletionRequested.trans alive) (kept.2 _ held) settled unrequested
  refine ⟨t', stored', still, fun history => ?_⟩
  induction history with
  | start => exact ⟨rfl, rfl⟩
  | pass _ read goes ih =>
    obtain ⟨rfl, rfl⟩ := ih
    obtain rfl := Option.some.inj (stored'.symm.trans read)
    rw [still] at goes
    obtain ⟨rfl, _, rfl⟩ := Job.goes_pure goes
    exact ⟨rfl, rfl⟩
  | edit _ _ edited => exact edited.elim

/-- A tenant that asks for its key anew, with a child and a resource declared twice. -/
def repetitive : Stage :=
  Stage.start {
    name := "blue"
    children := [" dev ", "dev"]
    resources := [{ label := "compute", members := ["x1"], group := "g-blue" },
      { label := "compute", members := ["x1", "x1"], group := "g-blue" }]
    keys := { enabled := true }
    requiresKeyUpdate := true } []

theorem settled_after_await_of_repetitive :
    (Stage.perform (reconcile {} ⟨"1", "now"⟩ repetitive.tenant) repetitive).1 = .ok .await ∧
      ∃ t', (repetitive.pass {} ⟨"1", "now"⟩).world.tenant = some t' ∧
        ∀ fresh, reconcile {} fresh t' = pure .await := by
  have waits : (Stage.perform (reconcile {} ⟨"1", "now"⟩ repetitive.tenant) repetitive).1 = .ok .await := by
    rfl
  have goes : (reconcile {} ⟨"1", "now"⟩ repetitive.tenant).Goes
      (conduct (fun _ => True) Call.Unreachable) repetitive.world _ _
        (repetitive.pass {} ⟨"1", "now"⟩).world :=
    Stage.goes_pass (s := repetitive) (Stage.plain_start _ _) rfl
  rw [waits] at goes
  obtain ⟨t', stored, still, _⟩ := settled_after_await rfl rfl
    (Dialogue.Goes.weaken (fun _ _ _ _ => soleWriter_of_conduct trivial) goes)
  exact ⟨waits, t', stored, still⟩

end Lifecycle

end Tenancy

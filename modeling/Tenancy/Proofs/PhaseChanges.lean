import Tenancy.Proofs.Rewrites
import Tenancy.Proofs.Runs

/-!
# The life of a tenant

Which phase is recorded next, and which event hooks are told of, is decided in a pass by what the copy
of the tenant says. Here the copy is what is stored, calls may fail anywhere in a pass, and between passes
something else may be declared or the deletion be requested.

Two facts carry the proofs (`LifeTracked`). A tenant that is recorded as being deleted is to be deleted, so
no deploy pass begins on it. And the time of the last deployment is recorded if a pass has written that the
tenant is deployed, and only then, so by this time a pass knows whether it is the first to come through.
-/

namespace Tenancy

open Rehearsal Rehearsal.World

/-- Which phase may follow upon which. -/
inductive Phase.Precedes : Option Phase → Option Phase → Prop
  | seen : Precedes none (some .new)
  | started : Precedes (some .new) (some .deploying)
  | retried : Precedes (some .deploying) (some .deploying)
  | finished : Precedes (some .deploying) (some .deployed)
  | renewed : Precedes (some .deployed) (some .deploying)
  | deleted {p : Option Phase} : Precedes p (some .deleting)

/-- The status is the same, or the next phase is recorded; a deployment is not forgotten. -/
structure Status.Advances (s s' : Status) : Prop where
  phase : s' = s ∨ Phase.Precedes s.phase s'.phase
  lastDeployed : s.lastDeployed.isSome = true → s'.lastDeployed.isSome = true

theorem Status.Advances.refl (s : Status) : s.Advances s := ⟨.inl rfl, id⟩

/-- The event that a hook is told of. -/
def Call.announced : Call → Option Event
  | .hook (.post _ n _ _) => some n.event
  | _ => none

theorem Call.announced_of_tells {spec : Spec} {event : Event} {c : HookCall}
    (h : Dispatch.Tells spec event c) : ∀ e ∈ (Call.hook c).announced, e = event := by
  intro e he
  cases h with
  | post => exact (Option.some.inj he).symm
  | _ => cases he

theorem Call.announced_of_store {c : Call} (h : c.system = .store) : c.announced = none := by
  cases c with
  | store _ => rfl
  | _ => cases h

/-- Another spec is declared, or the deletion is requested. -/
def Tenant.Lives (t t' : Tenant) : Prop := t.Respecified t' ∨ ∃ time, t' = t.requestDeletion time

namespace Lifecycle

variable {kept : BackingSystem → Prop} {fails : Call → Error → Prop} {settings : Settings}
  {fresh : Fresh} {t t₀ : Tenant} {s s' : Status} {w w' w₀ : World}
  {ms tr : List (Moment Services World)}

/-! ## One pass -/

/-- What the recorded phase and the recorded deployment stand for, when this has been asked and answered. -/
structure LifeTracked (ms : List (Moment Services World)) (t : Tenant) : Prop where
  deleting : t.recorded.phase = some .deleting → t.deletionRequested = true
  deployed : WritesDeployed ms ↔ t.recorded.lastDeployed.isSome = true

theorem advances_of_rewrite (tracked : LifeTracked ms t) (h : Rewrite fresh t t.recorded s s') :
    s.Advances s' := by
  cases h with
  | same => exact .refl s
  | new _ unphased =>
    refine ⟨.inr ?_, id⟩
    rw [unphased]
    exact .seen
  | deploying alive =>
    unfold begunStatus
    split
    · exact ⟨.inr .started, id⟩
    · next phased =>
      refine ⟨.inr ?_, id⟩
      show Phase.Precedes t.recorded.phase (some .deploying)
      cases hp : t.recorded.phase with
      | none =>
        rw [hp] at phased
        exact absurd rfl phased
      | some p =>
        cases p with
        | new => exact .started
        | deploying => exact .retried
        | deployed => exact .renewed
        | deleting =>
          rw [tracked.deleting hp] at alive
          cases alive
  | deployed => exact ⟨.inr .finished, fun _ => rfl⟩
  | deleting => exact ⟨.inr .deleted, id⟩

theorem tracked_of_pass (h : Pass kept fails settings fresh t w tr w') (tracked : LifeTracked ms t) :
    Stored (LifeTracked (ms ++ tr)) w' := by
  have deployed_iff (quiet : ¬ WritesDeployed tr) :
      WritesDeployed (ms ++ tr) ↔ t.recorded.lastDeployed.isSome = true := by
    rw [writesDeployed_append, or_iff_left quiet]
    exact tracked.deployed
  cases h with
  | idle quiet phase stored =>
    obtain ⟨t', stored, ⟨tended, _⟩, recorded⟩ := stored
    refine ⟨t', stored, fun hp => ?_, ?_⟩
    · rw [recorded] at hp
      rw [tended.deletionRequested]
      exact tracked.deleting (getD_new_eq_deleting.1 (phase.symm.trans (getD_new_eq_deleting.2 hp)))
    · rw [recorded]
      exact deployed_iff quiet
  | interrupted quiet _ _ _ _ _ stored =>
    obtain ⟨t', stored, _, recorded⟩ := stored
    refine ⟨t', stored, fun hp => ?_, ?_⟩
    · rw [recorded] at hp
      cases hp
    · rw [recorded]
      exact deployed_iff quiet
  | deployed writes _ _ _ _ _ stored =>
    obtain ⟨t', stored, _, recorded⟩ := stored
    refine ⟨t', stored, fun hp => ?_, ?_⟩
    · rw [recorded] at hp
      cases hp
    · rw [recorded]
      exact iff_of_true (writesDeployed_append.2 (.inr writes)) rfl
  | uncleared quiet requested _ _ _ _ stored =>
    obtain ⟨t', stored, ⟨tended, _⟩, recorded⟩ := stored
    refine ⟨t', stored, fun _ => tended.deletionRequested.trans requested, ?_⟩
    rw [recorded]
    exact deployed_iff quiet
  | released quiet requested _ _ _ _ _ stored tended recorded =>
    refine ⟨_, stored, fun _ => tended.deletionRequested.trans requested, ?_⟩
    rw [recorded]
    exact deployed_iff quiet

/-! ## What hooks are told -/

/-- Calls to the store tell hooks of nothing. -/
theorem announced_of_asks {R : Conduct Services World} {α : Type} {j : Job α} {o : Except Error α}
    (h : j.Goes R w tr o w') (hj : j.Asks fun c => c.system = .store)
    {P : Moment Services World → Event → Prop} : ∀ m ∈ tr, ∀ e ∈ m.query.announced, P m e := by
  intro m hm e he
  rw [Call.announced_of_store (Dialogue.Goes.asks h hj m hm)] at he
  cases he

theorem prepare_announces {recorded : Status} : (prepare settings fresh t recorded).Asks fun c =>
    ∀ e ∈ c.announced, e = deployEvent recorded := by
  apply asks_prepare
  case hooks => exact fun c => Call.announced_of_tells
  all_goals
    intros
    rename_i he
    cases he

theorem clear_announces {recorded : Status} : (clear settings t recorded).Asks fun c =>
    ∀ e ∈ c.announced, e = .delete := by
  apply asks_clear
  case hooks => exact fun c => Call.announced_of_tells
  all_goals
    intros
    rename_i he
    cases he

/-- A recorded deletion stays recorded while no status is written. -/
theorem deleting_of_quiet (hk : kept .store) {α : Type} {j : Job α} {o : Except Error α}
    (h : j.Goes (conduct kept fails) w tr o w') (hj : j.Asks Quiet)
    (hw : Stored (·.recorded.phase = some .deleting) w) :
    ∀ m ∈ tr, Stored (·.recorded.phase = some .deleting) m.before := by
  refine Dialogue.Goes.kept_at h hj ?_ hw
  rintro c w r w' quiet answered ⟨u, stored, hu⟩
  rcases soleWriter_cases (soleWriter_of_conduct hk answered) stored with hw' | ⟨sc, rfl, hw'⟩
  · exact ⟨u, hw', hu⟩
  · have unwritten : (sc.write u).recorded = u.recorded := StoreCall.recorded_write (quiet sc rfl) u
    exact ⟨_, hw', (congrArg Status.phase unwritten).trans hu⟩

theorem announced_of_deploy (hk : kept .store) {o : Except Error Action}
    (h : (deploy settings fresh t).Goes (conduct kept fails) w tr o w') (hw : Stores t t.recorded w) :
    ∀ m ∈ tr, ∀ e ∈ m.query.announced, e = deployEvent t.recorded := by
  have mark_store : (markDeploying t fresh).Asks fun c => c.system = .store :=
    asks_markDeploying (fun _ _ => rfl) fun _ _ _ => rfl
  -- the mark says nothing of the last deployment, so it does not change the event
  have middle_tells {tr₁ tr₂ : List (Moment Services World)} {recorded : Status} {w₁ w₂ : World}
      {o : Except Error (Option KeyRecord)}
      (mark : (markDeploying t fresh).Goes (conduct kept fails) w tr₁ (.ok recorded) w₁)
      (middle : (prepare settings fresh t recorded).Goes (conduct kept fails) w₁ tr₂ o w₂) :
      ∀ m ∈ tr₁ ++ tr₂, ∀ e ∈ m.query.announced, e = deployEvent t.recorded := by
    refine List.forall_mem_append.2 ⟨announced_of_asks mark mark_store, fun m hm e he => ?_⟩
    obtain ⟨_, ⟨hr, _⟩ | ⟨_, _, hr, _⟩⟩ := markDeploying_stores hk mark hw
    · obtain rfl := Except.ok.inj hr
      exact Dialogue.Goes.asks middle prepare_announces m hm e he
    · cases hr
  cases deploy_cases h with
  | unmarked mark => exact announced_of_asks mark mark_store
  | failed mark middle => exact middle_tells mark middle
  | pending mark middle => exact middle_tells mark middle
  | prepared mark middle last =>
    exact List.forall_mem_append.2 ⟨middle_tells mark middle,
      announced_of_asks last (asks_updateStatus (fun _ _ => rfl) fun _ => rfl)⟩

theorem announced_of_teardown (hk : kept .store) {o : Except Error Action}
    (h : (teardown settings t).Goes (conduct kept fails) w tr o w') (hw : Stores t t.recorded w) :
    ∀ m ∈ tr, ∀ e ∈ m.query.announced,
      e = .delete ∧ Stored (·.recorded.phase = some .deleting) m.before := by
  have mark_store : (markDeleting t).Asks fun c => c.system = .store :=
    asks_markDeleting (fun _ _ => rfl) fun _ _ => rfl
  have middle_tells {tr₁ tr₂ : List (Moment Services World)} {recorded : Status} {w₁ w₂ : World}
      {o : Except Error Removal}
      (mark : (markDeleting t).Goes (conduct kept fails) w tr₁ (.ok recorded) w₁)
      (middle : (clear settings t recorded).Goes (conduct kept fails) w₁ tr₂ o w₂) :
      ∀ m ∈ tr₁ ++ tr₂, ∀ e ∈ m.query.announced,
        e = .delete ∧ Stored (·.recorded.phase = some .deleting) m.before := by
    refine List.forall_mem_append.2 ⟨announced_of_asks mark mark_store, fun m hm e he => ?_⟩
    obtain ⟨_, ⟨_, u, stored, _, hu⟩ | ⟨_, hr, _⟩⟩ := markDeleting_stores hk mark hw
    · have marked : Stored (·.recorded.phase = some .deleting) w₁ := ⟨u, stored, congrArg Status.phase hu⟩
      exact ⟨Dialogue.Goes.asks middle clear_announces m hm e he,
        deleting_of_quiet hk middle clear_asks_quiet marked m hm⟩
    · cases hr
  cases teardown_cases h with
  | unmarked mark => exact announced_of_asks mark mark_store
  | failed mark middle => exact middle_tells mark middle
  | blocked mark middle => exact middle_tells mark middle
  | cleared mark middle _ release =>
    exact List.forall_mem_append.2 ⟨middle_tells mark middle,
      announced_of_asks release (asks_releaseFinalizer (fun _ _ => rfl) fun _ => rfl)⟩

/-- In a pass hooks are told of what the recorded deployment calls for, or of a deletion that is
recorded by then. -/
theorem announced_of_pass (hk : kept .store) (stored : w.tenant = some t) {o : Except Error Action}
    (h : (reconcile settings fresh t).Goes (conduct kept fails) w tr o w') :
    ∀ m ∈ tr, ∀ e ∈ m.query.announced, e = deployEvent t.recorded ∨
      e = .delete ∧ Stored (·.recorded.phase = some .deleting) m.before := by
  have hw : Stores t t.recorded w := ⟨t, stored, ⟨.refl t, fun _ => id⟩, rfl⟩
  cases reconcile_cases h with
  | gone => exact fun m hm => by cases hm
  | teardown _ _ goes => exact fun m hm e he => .inr (announced_of_teardown hk goes hw m hm e he)
  | attach _ _ goes => exact announced_of_asks goes (Job.asks_call rfl)
  | undropped _ drop => exact announced_of_asks drop dropRequest_asks_store
  | settled _ _ _ drop => exact announced_of_asks drop dropRequest_asks_store
  | deploy _ _ _ drop goes =>
    have hw₁ := (stores_of_asks hk drop dropRequest_asks_mild hw).1
    exact List.forall_mem_append.2 ⟨announced_of_asks drop dropRequest_asks_store,
      fun m hm e he => .inl (announced_of_deploy hk goes hw₁ m hm e he)⟩

/-! ## The whole life -/

/-- When hooks may be told of an event, if `ms` was asked and answered in earlier passes. -/
def Timely (ms : List (Moment Services World)) (w : World) : Event → Prop
  | .create => ¬ WritesDeployed ms
  | .update => WritesDeployed ms
  | .delete => Stored (·.recorded.phase = some .deleting) w

theorem timely_deployEvent (tracked : LifeTracked ms t) : Timely ms w (deployEvent t.recorded) := by
  unfold deployEvent
  cases hl : t.recorded.lastDeployed with
  | none =>
    show ¬ WritesDeployed ms
    rw [tracked.deployed, hl]
    exact Bool.false_ne_true
  | some now =>
    show WritesDeployed ms
    rw [tracked.deployed, hl]
    rfl

theorem life_tracked (hk : kept .store) (start : Stored (LifeTracked []) w₀)
    (history : History settings (conduct kept fails) Current Tenant.Lives w₀ ms w) :
    (w₀ :: ms.map Moment.before ++ [w]).IsChain (Evolves Status.Advances) ∧ Stored (LifeTracked ms) w := by
  refine history.evolves .refl ?_ ?_ start
  · intro ms tr w w' copy t fresh o current stored tracked goes
    obtain rfl : copy = t := Option.some.inj (current.symm.trans stored)
    have trail := trail_of_pass (goes.weaken fun _ _ _ _ => soleWriter_of_conduct hk) ⟨copy, stored, rfl⟩
    exact ⟨trail.mono fun _ _ => .mono fun _ _ => advances_of_rewrite tracked,
      tracked_of_pass (pass_of_goes hk stored goes) tracked⟩
  · rintro ms t t' (⟨spec, rfl⟩ | ⟨time, rfl⟩) tracked
    · exact ⟨rfl, tracked.deleting, tracked.deployed⟩
    · exact ⟨rfl, fun _ => rfl, tracked.deployed⟩

/-- In the life of a tenant that begins without a status, the recorded phases follow one another in this
order, and no pass tells hooks of an event before its time. -/
theorem life_in_order (hk : kept .store) (start : w₀.tenant = some t₀) (unseen : t₀.status = none)
    (history : History settings (conduct kept fails) Current Tenant.Lives w₀ ms w) :
    (w₀ :: ms.map Moment.before ++ [w]).IsChain (Evolves Status.Advances) ∧
      ∀ {t fresh tr o w'}, Current w t → (reconcile settings fresh t).Goes (conduct kept fails) w tr o w' →
        ∀ m ∈ tr, ∀ e ∈ m.query.announced, Timely ms m.before e := by
  have first : LifeTracked [] t₀ := by
    have recorded : t₀.recorded = {} := by rw [Tenant.recorded, unseen]; rfl
    refine ⟨fun hp => ?_, ?_⟩
    · rw [recorded] at hp
      cases hp
    · rw [recorded]
      exact iff_of_false (not_writesDeployed_of_nil rfl) Bool.false_ne_true
  obtain ⟨chain, t, stored, tracked⟩ := life_tracked hk ⟨t₀, start, first⟩ history
  refine ⟨chain, fun {t' fresh tr o w'} current goes m hm e he => ?_⟩
  obtain rfl : t = t' := Option.some.inj (stored.symm.trans current)
  rcases announced_of_pass hk stored goes m hm e he with rfl | ⟨rfl, deleting⟩
  · exact timely_deployEvent tracked
  · exact deleting

/-- A tenant whose deployment and whose deletion a hook is to be told of. -/
def wantsNews : Spec where
  name := "blue"
  hooks := [{ name := "audit", url := "http://audit", events := [.create, .delete] }]

/-- The tenant was deployed, and its deletion is requested. -/
def toBeDeleted : Stage := (Stage.firstPass wantsNews []).edit (·.requestDeletion ⟨0, false⟩)

theorem life_in_order_of_deleted :
    ∃ m ∈ toBeDeleted.passStory {} ⟨"2", "later"⟩, m.query.announced = some .delete ∧
      Stored (·.recorded.phase = some .deleting) m.before := by
  obtain ⟨stored, stored', m, hm, told⟩ :
      (Stage.firstPass wantsNews []).world.tenant = some (Stage.firstPass wantsNews []).tenant ∧
        toBeDeleted.world.tenant = some toBeDeleted.tenant ∧
        ∃ m ∈ toBeDeleted.passStory {} ⟨"2", "later"⟩, m.query.announced = some .delete := by
    decide +kernel
  have first : History {} (conduct (fun _ => True) Call.Unreachable) Current Tenant.Lives
      (Stage.start wantsNews []).world _ (Stage.firstPass wantsNews []).world :=
    .pass .start rfl (Stage.goes_pass (Stage.plain_start wantsNews []) rfl)
  have history := first.edit stored (.inr ⟨⟨0, false⟩, rfl⟩)
  rw [← Stage.edit_world stored (·.requestDeletion ⟨0, false⟩)] at history
  have plain : toBeDeleted.Plain Call.Unreachable :=
    Stage.plain_edit (Stage.plain_firstPass wantsNews []) _
  have timely := (life_in_order trivial rfl rfl history).2 stored' (Stage.goes_pass plain stored') m hm
  exact ⟨m, hm, told, timely .delete told⟩

end Lifecycle

end Tenancy

import Tenancy.Proofs.DeployedHardware

/-!
# Passes over stale copies

A pass is handed a copy of the tenant, and a copy may be older than what is stored. Before it changes
anything a deploy pass reads the status anew, and takes the identifier, the keys and the time of the last
deployment from what it read. What was applied to the hardware it takes from the copy. So it moves the
collections away from what an older status recorded, and they come out as declared where this older
record, together with the declaration, still accounts for what is recorded by now (`Covers`).
-/

namespace Tenancy

open Rehearsal Rehearsal.World

/-- A copy of a tenant that differs from it in nothing but the status and the version. -/
def Tenant.StaleCopy (t copy : Tenant) : Prop :=
  ∃ version status,
    copy = { t with metadata := { t.metadata with resourceVersion := version }, status := status }

namespace Tenant.StaleCopy

variable {t copy : Tenant}

theorem spec (h : t.StaleCopy copy) : copy.spec = t.spec := by
  obtain ⟨_, _, rfl⟩ := h
  rfl

end Tenant.StaleCopy

namespace Lifecycle

variable {kept : BackingSystem → Prop} {fails : Call → Error → Prop} {settings : Settings}
  {fresh : Fresh} {t : Tenant} {w w' : World} {tr : List (Moment Services World)}

/-! ## What comes before the last write -/

/-- A call by which no tenant is written to be deployed. -/
def Undeployed (c : Call) : Prop :=
  ∀ copy s, c = .store (.replaceStatus copy s) → s.phase ≠ some .deployed

theorem Mild.undeployed {c : Call} (h : Mild c) : Undeployed c := by
  rintro copy s rfl
  cases (h _ rfl).1

theorem not_writesDeployed_of_asks {σ α : Type} {R : Conduct Services σ} {j : Job α} {s s' : σ}
    {tr : List (Moment Services σ)} {o : Except Error α} (h : j.Goes R s tr o s')
    (hj : j.Asks Undeployed) : ¬ WritesDeployed tr := by
  rintro ⟨status, hmem, hphase⟩
  obtain ⟨m, hm, hwritten⟩ := List.mem_filterMap.1 hmem
  have hquery : Undeployed m.query := Dialogue.Goes.asks h hj m hm
  unfold written? at hwritten
  split at hwritten
  · cases hwritten
    exact hquery _ _ rfl hphase
  · cases hwritten

theorem markDeploying_asks_undeployed : (markDeploying t fresh).Asks Undeployed := by
  apply asks_markDeploying
  · exact fun _ _ _ _ => nofun
  · rintro copy s hs _ _ he
    cases he
    exact hs

theorem teardown_asks_undeployed : (teardown settings t).Asks Undeployed := by
  have mark : (markDeleting t).Asks Undeployed := by
    unfold markDeleting
    split
    · exact Job.asks_pure
    · apply asks_updateStatus
      · exact fun _ _ _ _ => nofun
      · rintro copy _ _ he
        cases he
        nofun
  have release : (releaseFinalizer t tenantFinalizer).Asks Undeployed :=
    asks_releaseFinalizer (fun _ _ _ _ => nofun) fun _ _ _ => nofun
  rw [teardown_eq]
  refine Job.asks_bind mark fun recorded => ?_
  refine Job.asks_bind ((clear_asks_mild recorded).mono fun _ => Mild.undeployed) fun r => ?_
  cases r with
  | blocked => exact Job.asks_pure
  | removed => exact Job.asks_bind release fun _ => Job.asks_pure
  | absent => exact Job.asks_bind release fun _ => Job.asks_pure

/-- A pass that writes that the tenant is deployed has come through all systems, whichever copy of the
tenant it is handed. Before and afterwards it made calls to the store. -/
theorem through_of_deployed {σ : Type} {R : Conduct Services σ} {s s' : σ} {tr : List (Moment Services σ)}
    {o : Except Error Action} (h : (reconcile settings fresh t).Goes R s tr o s')
    (deployed : WritesDeployed tr) :
    ∃ s₁ s₂ s₃ tr₁ tr₂ tr₃ tr₄ recorded keys o', (dropRequest t).Goes R s tr₁ (.ok ()) s₁ ∧
      (markDeploying t fresh).Goes R s₁ tr₂ (.ok recorded) s₂ ∧
      (prepare settings fresh t recorded).Goes R s₂ tr₃ (.ok (some keys)) s₃ ∧
      (updateStatus t (deployedStatus t keys fresh.now)).Goes R s₃ tr₄ o' s' := by
  have mildly {α : Type} {j : Job α} {s s' : σ} {tr : List (Moment Services σ)} {o : Except Error α}
      (h : j.Goes R s tr o s') (hj : j.Asks Mild) : ¬ WritesDeployed tr :=
    not_writesDeployed_of_asks h (hj.mono fun _ => Mild.undeployed)
  have marked {s s' : σ} {tr : List (Moment Services σ)} {o : Except Error Status}
      (h : (markDeploying t fresh).Goes R s tr o s') : ¬ WritesDeployed tr :=
    not_writesDeployed_of_asks h markDeploying_asks_undeployed
  cases reconcile_cases h with
  | gone => exact absurd deployed (not_writesDeployed_of_nil rfl)
  | teardown _ _ goes => exact absurd deployed (not_writesDeployed_of_asks goes teardown_asks_undeployed)
  | attach _ _ goes =>
    exact absurd deployed (mildly goes (Job.asks_call fun sc hc => by cases hc; exact ⟨rfl, rfl⟩))
  | undropped _ drop => exact absurd deployed (mildly drop dropRequest_asks_mild)
  | settled _ _ _ drop => exact absurd deployed (mildly drop dropRequest_asks_mild)
  | deploy _ _ _ drop goes =>
    have writes := (writesDeployed_append.1 deployed).resolve_left (mildly drop dropRequest_asks_mild)
    cases deploy_cases goes with
    | unmarked mark => exact absurd writes (marked mark)
    | failed mark middle =>
      exact absurd (writesDeployed_append.1 writes) (not_or.2 ⟨marked mark, mildly middle (prepare_asks_mild _)⟩)
    | pending mark middle =>
      exact absurd (writesDeployed_append.1 writes) (not_or.2 ⟨marked mark, mildly middle (prepare_asks_mild _)⟩)
    | prepared mark middle last => exact ⟨_, _, _, _, _, _, _, _, _, _, drop, mark, middle, last⟩

/-- All systems were come through on the way from one world to another; the store may have been written
before and after. -/
def CameThrough (kept : BackingSystem → Prop) (fails : Call → Error → Prop) (settings : Settings)
    (fresh : Fresh) (t : Tenant) (w w' : World) : Prop :=
  ∃ w₁ w₂ tr recorded keys, OthersSame kept w w₁ ∧
    (prepare settings fresh t recorded).Goes (conduct kept fails) w₁ tr (.ok (some keys)) w₂ ∧
    OthersSame kept w₂ w'

theorem cameThrough_of_goes {o : Except Error Action}
    (h : (reconcile settings fresh t).Goes (conduct kept fails) w tr o w') (deployed : WritesDeployed tr) :
    CameThrough kept fails settings fresh t w w' := by
  obtain ⟨_, w₁, w₂, _, _, tr₃, _, recorded, keys, _, drop, mark, middle, last⟩ := through_of_deployed h deployed
  have begun : OthersSame kept w w₁ := (othersSame_of_asks drop dropRequest_asks_store).trans
    (othersSame_of_asks mark (asks_markDeploying (fun _ _ => rfl) fun _ _ _ => rfl))
  have ended := othersSame_of_asks last (asks_updateStatus (fun _ _ => rfl) fun _ => rfl)
  exact ⟨w₁, w₂, tr₃, recorded, keys, begun, middle, ended⟩

end Lifecycle

/-! ## What an older record is good for -/

namespace Hardware

variable {declared recorded older : List Resource} {w w' : World}

/-- Together with the declaration the older record accounts for what is recorded: it gives no member of
a declared collection that is declared and not recorded, members that are recorded and not declared it
gives, and it knows the collections that are recorded and not declared. -/
structure Covers (declared recorded older : List Resource) : Prop where
  members : ∀ k, ∀ n ∈ Collection.targets k declared, ∀ m,
    (m ∈ Collection.membersFor k n older → m ∈ Collection.membersFor k n declared →
      m ∈ Collection.membersFor k n recorded) ∧
    (m ∈ Collection.membersFor k n recorded →
      m ∈ Collection.membersFor k n older ∨ m ∈ Collection.membersFor k n declared)
  retired : ∀ k, ∀ n ∈ Collection.targets k recorded, n ∉ Collection.targets k declared →
    n ∈ Collection.targets k older

/-- The hardware of a tenant is as declared: all declared collections are there with the declared members,
and none is left that was recorded and is not declared. -/
structure AsDeclared (declared recorded : List Resource) (w : World) : Prop where
  there : CollectionsThere declared w
  members : MembersAsDeclared declared w
  retired : ∀ k, ∀ n ∈ Collection.targets k recorded, n ∉ Collection.targets k declared →
    w.collection k n = none

theorem Covers.refl (declared recorded : List Resource) : Covers declared recorded recorded :=
  ⟨fun _ _ _ _ => ⟨fun h _ => h, .inl⟩, fun _ _ h _ => h⟩

theorem Covers.of_declared (recorded older : List Resource) : Covers recorded recorded older :=
  ⟨fun _ _ _ _ => ⟨fun _ h => h, .inr⟩, fun _ _ h hn => absurd h hn⟩

/-- Converging from an older record leaves the hardware as declared exactly if it covers what is
recorded by now and held. -/
theorem asDeclared_iff_covers (clean : Clean recorded w) (held : CollectionsThere recorded w)
    (h : ∀ k, Converged k declared older w w') :
    AsDeclared declared recorded w' ↔ Covers declared recorded older := by
  constructor
  · rintro ⟨_, members, retired⟩
    have accounted := (membersAsDeclared_iff h).1 members
    simp only [Accounted, clean.members] at accounted
    refine ⟨accounted, fun k n hr hd => ?_⟩
    by_cases ho : n ∈ Collection.targets k older
    · exact ho
    · -- nothing has touched the collection, so it is still there
      have there : (w'.collection k n).isSome = true := by
        rw [(h k).untouched n hd ho]
        exact held k n hr
      rw [retired k n hr hd] at there
      cases there
  · rintro ⟨members, retired⟩
    have accounted : Accounted declared older w := by simpa only [Accounted, clean.members] using members
    exact ⟨collectionsThere_of_converged h, (membersAsDeclared_iff h).2 accounted,
      fun k n hr hd => (h k).retired n (retired k n hr hd) hd⟩

end Hardware

namespace Lifecycle

open Hardware

variable {kept : BackingSystem → Prop} {settings : Settings} {fresh : Fresh} {t copy : Tenant}
  {w w' : World} {tr : List (Moment Services World)}

theorem converged_of_goes (hk : kept .hardware) {o : Except Error Action}
    (h : (reconcile settings fresh t).Goes (conduct kept Call.FailsPlainly) w tr o w')
    (deployed : WritesDeployed tr) (k : Kind) :
    Converged k t.spec.resources t.recorded.resources w w' := by
  obtain ⟨w₁, w₂, tr', recorded, keys, begun, middle, ended⟩ := cameThrough_of_goes h deployed
  have hw₁ := collection_congr (begun _ hk nofun)
  have hw' := collection_congr (ended _ hk nofun)
  refine (converged_of_prepare hk middle k).congr (fun n => ?_) fun n => ?_
  · rw [hw₁]
  · rw [hw']

/-! ## Passes over copies -/

/-- A pass over a copy of the tenant, whatever is stored. -/
def passOver (copy : Tenant) (s : Stage) : Stage := (Stage.perform (reconcile {} default copy) s).2

theorem plain_passOver {fails : Call → Error → Prop} {s : Stage} (hs : s.Plain fails) (copy : Tenant) :
    (passOver copy s).Plain fails := Stage.plain_perform hs _

/-- A pass by which something is applied for the first time leaves the hardware as it was applied. -/
theorem clean_passOver {s : Stage} (hs : s.Plain Call.FailsPlainly) (empty : s.world.collections = [])
    {copy : Tenant} (new : copy.recorded.resources = [])
    (deployed : WritesDeployed (Stage.story (reconcile {} default copy) s)) :
    Clean copy.spec.resources (passOver copy s).world ∧
      CollectionsThere copy.spec.resources (passOver copy s).world := by
  have goes : (reconcile {} default copy).Goes (conduct (fun _ => True) Call.FailsPlainly) _ _ _ _ :=
    Stage.goes_perform hs _
  have converged := converged_of_goes trivial goes deployed
  rw [new] at converged
  exact ⟨clean_of_converged converged ((clean_nil empty).tracked _), collectionsThere_of_converged converged⟩

def twoNodes : Tenant := Stage.newTenant (Stage.onePartition ["x1", "x2"])

/-- The two nodes were applied. -/
def applied : Stage := passOver twoNodes (Stage.start twoNodes.spec [])

/-- The second node alone was declared before any pass was made. -/
def declaredTwice : Stage :=
  (Stage.start twoNodes.spec []).edit fun t =>
    { t with spec := { t.spec with resources := (Stage.onePartition ["x2"]).resources } }

/-- The two nodes were applied all the same, by a pass over the copy that declares them. -/
def appliedLate : Stage := passOver twoNodes declaredTwice

theorem plain_start_none {fails : Call → Error → Prop} : (Stage.start twoNodes.spec []).Plain fails := by
  intro f hf
  cases hf

theorem plain_declaredTwice {fails : Call → Error → Prop} : declaredTwice.Plain fails :=
  Stage.plain_edit plain_start_none _

/-- A pass over a stale copy that writes that the tenant is deployed, where the hardware holds exactly
what is recorded, leaves the hardware as declared exactly if what the copy recorded covers what is
recorded by now. It does so when nothing was applied since the copy was read, and when what is declared
was. -/
theorem stale_pass_iff (hk : kept .hardware) (stale : t.StaleCopy copy)
    (clean : Clean t.recorded.resources w) (held : CollectionsThere t.recorded.resources w)
    {o : Except Error Action}
    (h : (reconcile settings fresh copy).Goes (conduct kept Call.FailsPlainly) w tr o w')
    (deployed : WritesDeployed tr) :
    (AsDeclared t.spec.resources t.recorded.resources w' ↔
      Covers t.spec.resources t.recorded.resources copy.recorded.resources) ∧
    (copy.recorded.resources = t.recorded.resources ∨ t.recorded.resources = t.spec.resources →
      AsDeclared t.spec.resources t.recorded.resources w') := by
  have converged := converged_of_goes hk h deployed
  rw [stale.spec] at converged
  have covers := asDeclared_iff_covers clean held converged
  refine ⟨covers, fun unchanged => covers.2 ?_⟩
  rcases unchanged with same | applied
  · rw [same]
    exact .refl _ _
  · rw [applied]
    exact .of_declared _ _

/-- Once the two nodes were applied, one more pass is made over the copy from before. -/
theorem stale_pass_of_applied :
    AsDeclared twoNodes.spec.resources twoNodes.spec.resources (passOver twoNodes applied).world := by
  have recorded : applied.tenant.recorded.resources = twoNodes.spec.resources := by decide +kernel
  have stale : applied.tenant.StaleCopy twoNodes := ⟨none, none, by decide +kernel⟩
  obtain ⟨clean, held⟩ := clean_passOver (plain_start_none) rfl rfl
    (show WritesDeployed (Stage.story (reconcile {} default twoNodes) (Stage.start twoNodes.spec [])) by
      decide +kernel)
  have again : (reconcile {} default twoNodes).Goes (conduct (fun _ => True) Call.FailsPlainly)
      applied.world _ _ _ := Stage.goes_perform (plain_passOver plain_start_none _) _
  have pass := stale_pass_iff trivial stale (recorded ▸ clean) (recorded ▸ held) again (by decide +kernel)
  have declared : applied.tenant.spec.resources = twoNodes.spec.resources := by decide +kernel
  rw [recorded, declared] at pass
  exact pass.2 (.inr rfl)

/-- The hardware need not be as declared: what the later copy recorded, which is nothing, does not cover
the node that the pass over the earlier one added, so it stays. -/
theorem dropped_member_stays :
    ∃ (w₀ w₁ w₂ : World) (a b t : Tenant) (o o' : Except Error Action)
      (tr tr' : List (Moment Services World)),
      w₀.tenant = some a ∧ a.DeclaresResources b ∧
      (reconcile {} default a).Goes (conduct (fun _ => True) fun _ _ => False)
        { w₀ with tenant := some (bump b) } tr o w₁ ∧
      w₁.tenant = some t ∧ t.StaleCopy (bump b) ∧
      Clean t.recorded.resources w₁ ∧ CollectionsThere t.recorded.resources w₁ ∧
      (reconcile {} default (bump b)).Goes (conduct (fun _ => True) fun _ _ => False) w₁ tr' o' w₂ ∧
      WritesDeployed tr' ∧ ¬ AsDeclared t.spec.resources t.recorded.resources w₂ := by
  have recorded : appliedLate.tenant.recorded.resources = twoNodes.spec.resources := by decide +kernel
  have stale : appliedLate.tenant.StaleCopy declaredTwice.tenant :=
    ⟨declaredTwice.tenant.metadata.resourceVersion, none, by decide +kernel⟩
  obtain ⟨clean, held⟩ := clean_passOver plain_declaredTwice rfl rfl
    (show WritesDeployed (Stage.story (reconcile {} default twoNodes) declaredTwice) by decide +kernel)
  refine ⟨(Stage.start twoNodes.spec []).world, appliedLate.world, _, twoNodes, _, appliedLate.tenant,
    _, _, _, _, rfl, ⟨(Stage.onePartition ["x2"]).resources, rfl⟩,
    Stage.goes_perform plain_declaredTwice _, by decide +kernel, stale, recorded ▸ clean,
    recorded ▸ held, Stage.goes_perform (plain_passOver plain_declaredTwice _) _, by decide +kernel,
    fun declared => ?_⟩
  have there : (passOver declaredTwice.tenant appliedLate).world.HasMember .partition "p-blue" "x1" := by
    decide +kernel
  have member := (declared.members .partition "p-blue" (by decide +kernel) "x1").1 there
  revert member
  decide +kernel

end Lifecycle

end Tenancy

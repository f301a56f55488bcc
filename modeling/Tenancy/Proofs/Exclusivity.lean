import Tenancy.Proofs.Admissions
import Tenancy.Proofs.DeployedHardware
import Tenancy.Proofs.Markers

/-!
# The exclusivity of a deployed tenant

A group that is declared exclusive after it was made stays without the marker. Admission is to prevent
this: it refuses to change the exclusivity of a class that is recorded as applied. But it looks at
classes and at what is recorded, and markers belong to groups that are there. A failed pass may have made
a group of which nothing is recorded, and a class may be declared for a group that other classes brought.

`exclusivity_in_force` says when a deployed tenant is as exclusive as it declares: exactly if none of the
groups was there before the pass without the marker (`NoneUnmarked`). The invariant of the runs in which
this is always so is `ExclusivityTracked`.
-/

namespace Tenancy

open Rehearsal Rehearsal.World

namespace Hardware

variable {declared observed rs rs' : List Resource} {w w' : World} {g : String}

/-- Every group that is declared exclusive is there and carries the marker. -/
def ExclusivityInForce (declared : List Resource) (w : World) : Prop :=
  ∀ r ∈ declared, r.exclusive = true → ∀ g, Kind.group.target? r = some g → w.MarkedGroup g

/-- No group that is declared exclusive is there without the marker. -/
def NoneUnmarked (declared : List Resource) (w : World) : Prop :=
  ∀ g, Collection.exclusiveFor .group g declared = true →
    ∀ c, w.collection .group g = some c → c.isTenantExclusive = true

/-- The resources name all groups. -/
def GroupsKnown (rs : List Resource) (w : World) : Prop :=
  ∀ g, (w.collection .group g).isSome = true → g ∈ Collection.targets .group rs

theorem NoneUnmarked.congr (h : NoneUnmarked declared w) (hw : w'.collections = w.collections) :
    NoneUnmarked declared w' := by
  unfold NoneUnmarked at h ⊢
  rw [collection_congr hw]
  exact h

theorem GroupsKnown.congr (h : GroupsKnown rs w) (hw : w'.collections = w.collections) :
    GroupsKnown rs w' := by
  unfold GroupsKnown at h ⊢
  rw [collection_congr hw]
  exact h

theorem mem_targets_append {k : Kind} {n : String} :
    n ∈ Collection.targets k (rs ++ rs') ↔ n ∈ Collection.targets k rs ∨ n ∈ Collection.targets k rs' := by
  simp [Collection.mem_targets, or_and_right, exists_or]

theorem GroupsKnown.append (h : GroupsKnown rs w) (rs' : List Resource) : GroupsKnown (rs ++ rs') w :=
  fun g hg => mem_targets_append.2 (.inl (h g hg))

theorem willBeMarked_of_noneUnmarked (h : NoneUnmarked declared w)
    (hg : Collection.exclusiveFor .group g declared = true) : WillBeMarked declared w g := by
  cases hc : w.collection .group g with
  | none => exact .inr ⟨hc, hg⟩
  | some c => exact (willBeMarked_iff hc).2 (h g hg c hc)

/-- Calls that keep the markers leave no group unmarked that was not. -/
theorem NoneUnmarked.of_markersKept (h : NoneUnmarked declared w) (markers : MarkersKept declared w w') :
    NoneUnmarked declared w' := fun g hg c hc =>
  (markers.marked g (Collection.mem_targets_of_exclusive hg) c hc).2 (willBeMarked_of_noneUnmarked h hg)

theorem GroupsKnown.of_markersKept (h : GroupsKnown (observed ++ declared) w)
    (markers : MarkersKept declared w w') : GroupsKnown (observed ++ declared) w' := by
  intro g hs
  by_cases hg : g ∈ Collection.targets .group declared
  · exact mem_targets_append.2 (.inr hg)
  · exact h g (markers.unmade g hg hs)

/-- Converging leaves the declared groups only. -/
theorem GroupsKnown.of_converged (h : GroupsKnown (observed ++ declared) w)
    (converged : Converged .group declared observed w w') : GroupsKnown declared w' := by
  intro g hs
  by_cases hd : g ∈ Collection.targets .group declared
  · exact hd
  · by_cases ho : g ∈ Collection.targets .group observed
    · rw [converged.retired g ho hd] at hs
      cases hs
    · rw [converged.untouched g hd ho] at hs
      exact (mem_targets_append.1 (h g hs)).resolve_left ho

/-- The declared exclusivity is in force after converging exactly if no group stood in its way. -/
theorem exclusivityInForce_iff (markers : MarkersKept declared w w')
    (converged : Converged .group declared observed w w') :
    ExclusivityInForce declared w' ↔ NoneUnmarked declared w := by
  constructor
  · intro inForce g hg c hc
    obtain ⟨r, hr, ht, he⟩ := Collection.exclusiveFor_iff.1 hg
    have marked := inForce r hr he g ht
    rw [markedGroup_of_converged markers converged (Collection.mem_targets_of_exclusive hg),
      willBeMarked_iff hc] at marked
    exact marked
  · intro none r hr he g ht
    have hg : Collection.exclusiveFor .group g declared = true :=
      Collection.exclusiveFor_iff.2 ⟨r, hr, ht, he⟩
    exact (markedGroup_of_converged markers converged (Collection.mem_targets_of_exclusive hg)).2
      (willBeMarked_of_noneUnmarked none hg)

end Hardware

/-! ## Changes that are reviewed -/

/-- Something else is declared: either no other resources, or while no deployment is under way resources
of which a class is exclusive in a group that was applied only if the class was applied in that group. -/
def Tenant.RespecifiedBetween (t t' : Tenant) : Prop :=
  t.Respecified t' ∧
    (t'.spec.resources = t.spec.resources ∨
      t.phase ≠ .deploying ∧
        ∀ r ∈ t'.spec.resources, r.exclusive = true → ∀ g, Kind.group.target? r = some g →
          g ∈ Collection.targets .group t.recorded.resources →
          ∃ a, t.recorded.resources.find? (fun a => a.label = r.label) = some a ∧
            Kind.group.target? a = some g)

namespace Lifecycle

open Hardware

/-- A pass over the stored tenant, or a change of it that is admitted where it is stored. -/
inductive ReviewedStep (settings : Settings) (kept : BackingSystem → Prop) (fails : Call → Error → Prop)
    (edits : Tenant → Tenant → Prop) : World → World → Prop
  | pass {w w' : World} {t : Tenant} {fresh : Fresh} {tr : List (Moment Services World)}
      {o : Except Error Action} (stored : w.tenant = some t)
      (goes : (reconcile settings fresh t).Goes (conduct kept fails) w tr o w') :
      ReviewedStep settings kept fails edits w w'
  | edit {w w₁ : World} {t t' : Tenant} {tr : List (Moment Services World)} (stored : w.tenant = some t)
      (edited : edits t t')
      (accepted : (Admission.validateUpdate t t').Goes (conduct kept fails) w tr (.ok ()) w₁) :
      ReviewedStep settings kept fails edits w { w with tenant := some (bump t') }

/-- Passes and admitted changes, any number of them in any order. -/
abbrev ReviewedRun (settings : Settings) (kept : BackingSystem → Prop) (fails : Call → Error → Prop)
    (edits : Tenant → Tenant → Prop) : World → World → Prop :=
  Relation.ReflTransGen (ReviewedStep settings kept fails edits)

variable {kept : BackingSystem → Prop} {fails : Call → Error → Prop} {settings : Settings} {fresh : Fresh}
  {edits : Tenant → Tenant → Prop} {t t' : Tenant} {w w' : World} {tr : List (Moment Services World)}

theorem ReviewedRun.run (run : ReviewedRun settings kept fails edits w w') :
    Run settings kept fails (fun t t' => edits t t' ∧ Admission.changeProblems t t' = []) w w' := by
  refine Relation.ReflTransGen.mono (fun w w' step => ?_) _ _ run
  cases step with
  | pass stored goes => exact .pass stored goes
  | edit stored edited accepted => exact .edit stored ⟨edited, (Admission.validateUpdate_ok accepted).1⟩

/-! ## Runs -/

/-- All groups are known and none that is declared exclusive is unmarked; unless a deployment is under way
this is so of what was applied. -/
def ExclusivityTracked : Tenant → World → Prop :=
  TracksHardware (fun declared applied w => GroupsKnown (applied ++ declared) w ∧ NoneUnmarked declared w)
    fun applied w => GroupsKnown applied w ∧ NoneUnmarked applied w

theorem exclusivityTracked_new (empty : ∀ g, w.collection .group g = none) : ExclusivityTracked t w := by
  have known (rs : List Resource) : GroupsKnown rs w := fun g hs => by
    rw [empty] at hs
    cases hs
  have none (rs : List Resource) : NoneUnmarked rs w := fun g _ c hc => by
    rw [empty] at hc
    cases hc
  exact fun _ => ⟨⟨known _, none _⟩, fun _ => ⟨known _, none _⟩⟩

theorem exclusivityTracked_of_pass (hk : kept .hardware)
    (h : Pass kept Call.FailsPlainly settings fresh t w tr w') (hw : ExclusivityTracked t w) :
    ∃ t', w'.tenant = some t' ∧ ExclusivityTracked t' w' := by
  refine tracksHardware_of_pass hk (fun same h => ⟨h.1.congr same, h.2.congr same⟩)
    (fun same h => ⟨h.1.congr same, h.2.congr same⟩) ?_ ?_ h hw
  · rintro _ _ _ _ _ middle ⟨known, none⟩
    have markers := markersKept_of_asks hk middle prepare_asks_moves
    exact ⟨known.of_markersKept markers, none.of_markersKept markers⟩
  · rintro _ _ _ _ _ middle ⟨known, none⟩
    have markers := markersKept_of_asks hk middle prepare_asks_moves
    have known := known.of_converged (converged_of_prepare hk middle .group)
    have none := none.of_markersKept markers
    exact ⟨⟨known.append _, none⟩, known, none⟩

/-- An admitted change between deployments declares no group exclusive that is there unmarked. -/
theorem exclusivityTracked_of_edit (h : t.RespecifiedBetween t')
    (unchanged : Admission.changeProblems t t' = []) (hw : ExclusivityTracked t w) :
    ExclusivityTracked (bump t') { w with tenant := some (bump t') } := by
  obtain ⟨⟨spec, rfl⟩, between⟩ := h
  intro alive
  obtain ⟨⟨known, none⟩, applied⟩ := hw alive
  refine ⟨?_, fun hp => applied hp⟩
  rcases between with same | ⟨hp, retained⟩
  · have same : spec.resources = t.spec.resources := same
    show GroupsKnown (t.recorded.resources ++ spec.resources) w ∧ NoneUnmarked spec.resources w
    rw [same]
    exact ⟨known, none⟩
  · obtain ⟨known, none⟩ := applied hp
    refine ⟨known.append _, fun g hg c hc => ?_⟩
    have hc : w.collection .group g = some c := hc
    obtain ⟨r, hr, ht, he⟩ := Collection.exclusiveFor_iff.1 hg
    have there : g ∈ Collection.targets .group t.recorded.resources := known g (by rw [hc]; rfl)
    obtain ⟨a, ha, hat⟩ := retained r hr he g ht there
    -- the class was applied in this very group, and admission has compared the two
    have hae : a.exclusive = true := (Admission.exclusive_of_unchanged unchanged hr ha).trans he
    exact none g (Collection.exclusiveFor_iff.2 ⟨a, List.mem_of_find?_eq_some ha, hat, hae⟩) c hc

/-! ## Reviewed runs on stages -/

theorem reviewed_pass {s : Stage} (hs : s.Plain fails) (fresh : Fresh) :
    ReviewedRun settings kept fails edits s.world (s.pass settings fresh).world := by
  unfold Stage.pass
  split
  · exact .refl
  · next t ht => exact .single (.pass ht (Stage.goes_perform hs _))

theorem reviewed_edit {s : Stage} (hs : s.Plain fails) {f : Tenant → Tenant}
    (stored : s.world.tenant = some s.tenant) (edited : edits s.tenant (f s.tenant))
    (accepted : (Stage.perform (Admission.validateUpdate s.tenant (f s.tenant)) s).1 = .ok ()) :
    ReviewedRun settings kept fails edits s.world (s.edit f).world := by
  have goes : (Admission.validateUpdate s.tenant (f s.tenant)).Goes (conduct kept fails) s.world _ _ _ :=
    Stage.goes_perform hs _
  rw [accepted] at goes
  rw [Stage.edit_world stored]
  exact .single (.edit stored edited goes)

def oneGroup (members : List String) (exclusive : Bool) : Spec where
  name := "blue"
  resources := [{ label := "io", members := members, group := "g-blue", exclusive := exclusive }]

/-- When a pass writes that the tenant is deployed, its declared exclusivity is in force exactly if
before the pass no group that is declared exclusive was there without the marker. In a run of passes and
admitted changes that starts without groups that is always so, if no other resources are declared while a
deployment is under way, and no class is declared exclusive in a group that was applied without it. -/
theorem exclusivity_in_force (hs : kept .store) (hk : kept .hardware) (hw : w.tenant = some t)
    {o : Except Error Action}
    (h : (reconcile settings fresh t).Goes (conduct kept Call.FailsPlainly) w tr o w')
    (deployed : WritesDeployed tr) :
    (ExclusivityInForce t.spec.resources w' ↔ NoneUnmarked t.spec.resources w) ∧
      ∀ w₀ t₀, w₀.tenant = some t₀ → (∀ g, w₀.collection .group g = none) →
        ReviewedRun settings kept Call.FailsPlainly Tenant.RespecifiedBetween w₀ w →
          ExclusivityInForce t.spec.resources w' := by
  obtain ⟨alive, inForce⟩ : t.deletionRequested = false ∧
      (ExclusivityInForce t.spec.resources w' ↔ NoneUnmarked t.spec.resources w) := by
    cases pass_of_goes hs hw h with
    | deployed _ alive _ begun middle ended _ =>
      have hw₁ := begun _ hk nofun
      have hw' := ended _ hk nofun
      have inForce := exclusivityInForce_iff (markersKept_of_asks hk middle prepare_asks_moves)
        (converged_of_prepare hk middle .group)
      refine ⟨alive, ?_⟩
      unfold ExclusivityInForce NoneUnmarked MarkedGroup at inForce ⊢
      rw [collection_congr hw', ← collection_congr hw₁]
      exact inForce
    | idle quiet => exact absurd deployed quiet
    | interrupted quiet => exact absurd deployed quiet
    | uncleared quiet => exact absurd deployed quiet
    | released quiet => exact absurd deployed quiet
  refine ⟨inForce, fun w₀ t₀ ht₀ empty run => ?_⟩
  obtain ⟨t', ht', tracked⟩ := run.run.preserves hs (P := ExclusivityTracked)
    (fun pass hP => exclusivityTracked_of_pass hk pass hP)
    (fun edit hP => exclusivityTracked_of_edit edit.1 edit.2 hP) ⟨t₀, ht₀, exclusivityTracked_new empty⟩
  obtain rfl := Option.some.inj (hw.symm.trans ht')
  exact inForce.2 (tracked alive).1.2

/-- An exclusive group was applied with one node, and is declared with two. -/
def regrouped : Stage :=
  ((Stage.start (oneGroup ["x1"] true) []).pass {} default).edit fun t =>
    { t with spec := oneGroup ["x1", "x2"] true }

/-- The second pass over the exclusive group. -/
theorem exclusivity_of_regrouped :
    ExclusivityInForce (oneGroup ["x1", "x2"] true).resources (regrouped.pass {} default).world := by
  have plain₀ : (Stage.start (oneGroup ["x1"] true) []).Plain Call.FailsPlainly := fun f hf => by cases hf
  have plain₁ : ((Stage.start (oneGroup ["x1"] true) []).pass {} default).Plain Call.FailsPlainly :=
    Stage.plain_pass plain₀ _
  have plain : regrouped.Plain Call.FailsPlainly := Stage.plain_edit plain₁ _
  have run : ReviewedRun {} (fun _ => True) Call.FailsPlainly Tenant.RespecifiedBetween
      (Stage.start (oneGroup ["x1"] true) []).world regrouped.world := by
    refine (reviewed_pass plain₀ default).trans (reviewed_edit plain₁ (by decide +kernel) ?_ rfl)
    refine ⟨⟨_, rfl⟩, .inr ⟨by decide +kernel, fun r hr _ g ht _ => ?_⟩⟩
    obtain rfl := List.mem_singleton.1 hr
    exact ⟨{ label := "io", members := ["x1"], group := "g-blue", exclusive := true },
      by decide +kernel, ht⟩
  have goes : (reconcile {} default regrouped.tenant).Goes (conduct (fun _ => True) Call.FailsPlainly)
      regrouped.world _ _ _ := Stage.goes_pass plain (by decide +kernel)
  have inForce := exclusivity_in_force trivial trivial (by decide +kernel) goes (by decide +kernel)
  exact inForce.2 _ _ rfl (fun _ => rfl) run

/-- The nodes were put in the group before it was declared exclusive, but the pass did not come to its
end. -/
def lateExclusive : Stage :=
  ((Stage.start (oneGroup ["x1"] false) ["id.find blue-tenant-admin"]).pass {} default).edit fun t =>
    { t with spec := oneGroup ["x1"] true }

/-- The declared exclusivity need not be in force: nothing is recorded of the group that a failed pass
has made, so it is admitted that it be exclusive from now on. -/
theorem lateExclusive_unmarked :
    ∃ (w₀ w w' : World) (t₀ t : Tenant) (o : Except Error Action) (tr : List (Moment Services World)),
      w₀.tenant = some t₀ ∧ t₀.status = none ∧ w₀.collections = [] ∧
      ReviewedRun {} (fun _ => True) Call.Unreachable Tenant.Respecified w₀ w ∧ w.tenant = some t ∧
      (reconcile {} default t).Goes (conduct (fun _ => True) Call.Unreachable) w tr o w' ∧
      WritesDeployed tr ∧ ¬ ExclusivityInForce t.spec.resources w' := by
  have plain₀ : (Stage.start (oneGroup ["x1"] false) ["id.find blue-tenant-admin"]).Plain
      Call.Unreachable := Stage.plain_start _ _
  have plain₁ : ((Stage.start (oneGroup ["x1"] false) ["id.find blue-tenant-admin"]).pass {}
      default).Plain Call.Unreachable := Stage.plain_pass plain₀ _
  have plain : lateExclusive.Plain Call.Unreachable := Stage.plain_edit plain₁ _
  have run : ReviewedRun {} (fun _ => True) Call.Unreachable Tenant.Respecified
      (Stage.start (oneGroup ["x1"] false) ["id.find blue-tenant-admin"]).world lateExclusive.world :=
    (reviewed_pass plain₀ default).trans
      (reviewed_edit plain₁ (by decide +kernel) ⟨_, rfl⟩ rfl)
  refine ⟨_, _, _, _, lateExclusive.tenant, _, _, rfl, rfl, rfl, run, by decide +kernel,
    Stage.goes_perform plain _, by decide +kernel, fun inForce => ?_⟩
  have marked := inForce { label := "io", members := ["x1"], group := "g-blue", exclusive := true }
    (by decide +kernel) rfl "g-blue" (by decide +kernel)
  revert marked
  decide +kernel

end Lifecycle

end Tenancy

import Mathlib.Data.Finset.Card
import Tenancy.Lifecycle.Reconcile
import Tenancy.Proofs.Convergence

/-!
# What agreement leaves undone

Whether a tenant has converged is asked of two lists of resources: they must have the same length, and every
declared resource must be the same as some recorded one. Nothing is asked of the recorded ones. If the
declaration repeats a resource, another one may be recorded that nothing declares any more, and what was applied
for it stays.

Resources are the same if they are equal once their members are put in order (`Resource.sameAs_iff`), so both
lists can be taken for sets (`Resource.different`). What a tenant that has converged has in its record is declared,
and then there is nothing to move, if and only if as many different resources are declared as are recorded
(`Tenant.agreement_of_converged`). That is so when the declaration repeats none (`Tenant.as_many_of_unrepeated`).
-/

namespace Tenancy

namespace Resource

variable {r s : Resource} {a b rs : List Resource}

/-- The resource with its members in ascending order, each once. -/
def normal (r : Resource) : Resource := { r with members := Names.ofList r.members }

theorem mem_members_normal {m : String} : m ∈ r.normal.members ↔ m ∈ r.members := Names.mem_ofList

theorem sameAs_iff : r.sameAs s = true ↔ r.normal = s.normal := by
  have members : sameMembers r.members s.members = true ↔ r.normal.members = s.normal.members := by
    rw [sameMembers_iff]
    constructor
    · intro h
      exact Names.eq_of_mem_iff (Names.pairwise_ofList _) (Names.pairwise_ofList _) fun m => by
        rw [mem_members_normal, h, mem_members_normal]
    · intro h m
      rw [← mem_members_normal, h, mem_members_normal]
  simp only [sameAs, Bool.and_eq_true, beq_iff_eq, members]
  simp only [normal, mk.injEq]
  grind

def different (rs : List Resource) : Finset Resource := (rs.map normal).toFinset

theorem normal_mem_different : r.normal ∈ different rs ↔ ∃ s ∈ rs, r.sameAs s = true := by
  rw [different, List.mem_toFinset, List.mem_map]
  exact exists_congr fun s => and_congr_right fun _ => eq_comm.trans sameAs_iff.symm

theorem different_subset_iff : different a ⊆ different b ↔ ∀ r ∈ a, ∃ s ∈ b, r.sameAs s = true := by
  constructor
  · intro h r hr
    exact normal_mem_different.1 (h (normal_mem_different.2 ⟨r, hr, sameAs_iff.2 rfl⟩))
  · intro h x hx
    obtain ⟨r, hr, rfl⟩ := List.mem_map.1 (List.mem_toFinset.1 hx)
    exact normal_mem_different.2 (h r hr)

/-! ## What the same resources ask for -/

variable {k : Kind} {n m : String}

theorem target?_eq_of_sameAs (h : r.sameAs s = true) : k.target? r = k.target? s := by
  have normal_target (r : Resource) : k.target? r.normal = k.target? r := by cases k <;> rfl
  rw [← normal_target r, sameAs_iff.1 h, normal_target]

theorem mem_members_iff_of_sameAs (h : r.sameAs s = true) : m ∈ r.members ↔ m ∈ s.members := by
  rw [← mem_members_normal, sameAs_iff.1 h, mem_members_normal]

theorem echoed_of_same (same : ∀ r ∈ a, ∃ s ∈ b, r.sameAs s = true) : Echoed k a b := by
  intro r hr
  obtain ⟨s, hs, hrs⟩ := same r hr
  have exclusive : r.normal.exclusive = s.normal.exclusive := by rw [sameAs_iff.1 hrs]
  exact ⟨s, hs, target?_eq_of_sameAs hrs, fun _ => mem_members_iff_of_sameAs hrs, exclusive⟩

end Resource

namespace Collection

variable {k : Kind} {desired observed : List Resource}

/-- No collection is to be deleted, and none is to get or to lose a member. -/
def NothingToMove (k : Kind) (desired observed : List Resource) : Prop :=
  retired k desired observed = [] ∧ ∀ p ∈ plans k desired observed, p.desired = p.observed

theorem nothingToMove_iff : NothingToMove k desired observed ↔
    (∀ n, k.Declares observed n → k.Declares desired n) ∧
      ∀ n, k.Declares desired n → ∀ m, k.Places desired n m ↔ k.Places observed n m := by
  refine and_congr ?_ ?_
  · rw [List.eq_nil_iff_forall_not_mem]
    refine forall_congr' fun n => ?_
    rw [retired, Names.mem_without, not_and_not_right, mem_targets, mem_targets]
    rfl
  · simp only [plans, List.forall_mem_map]
    refine forall_congr' fun n => imp_congr mem_targets ?_
    constructor
    · intro h m
      have same : m ∈ membersFor k n desired ↔ m ∈ membersFor k n observed := by
        rw [show membersFor k n desired = membersFor k n observed from h]
      rwa [mem_membersFor, mem_membersFor] at same
    · intro h
      exact Names.eq_of_mem_iff (Names.pairwise_ofList _) (Names.pairwise_ofList _) fun m =>
        mem_membersFor.trans ((h m).trans mem_membersFor.symm)

/-- The same resources leave nothing to move. -/
theorem nothingToMove_of_same (same : ∀ r ∈ desired, ∃ s ∈ observed, r.sameAs s = true)
    (same' : ∀ r ∈ observed, ∃ s ∈ desired, r.sameAs s = true) : NothingToMove k desired observed :=
  nothingToMove_iff.2 ⟨fun _ h => h.of_echoed (Resource.echoed_of_same same'), fun _ _ _ =>
    ⟨fun h => h.of_echoed (Resource.echoed_of_same same), fun h => h.of_echoed (Resource.echoed_of_same same')⟩⟩

end Collection

namespace Tenant

open Resource Collection

variable {t : Tenant} {s : Status}

theorem isConverged_iff (hs : t.status = some s) : t.isConverged = true ↔
    t.spec.resources.length = s.resources.length ∧
      (∀ d ∈ t.spec.resources, ∃ o ∈ s.resources, d.sameAs o = true) ∧
      (∀ c, c ∈ t.desiredChildren ↔ c ∈ s.children) ∧ t.spec.hooks = s.hooks := by
  simp [isConverged, hs, resourcesAgree, sameMembers_iff, and_assoc]

/-- A declaration that repeats no resource has as many different ones as there are entries in the record. -/
theorem as_many_of_unrepeated (hs : t.status = some s) (h : t.isConverged = true)
    (unrepeated : (t.spec.resources.map normal).Nodup) :
    (different s.resources).card ≤ (different t.spec.resources).card := by
  obtain ⟨as_long, _⟩ := (isConverged_iff hs).1 h
  calc (different s.resources).card
      ≤ (s.resources.map normal).length := List.toFinset_card_le _
    _ = (t.spec.resources.map normal).length := by rw [List.length_map, List.length_map, as_long]
    _ = (different t.spec.resources).card := (List.toFinset_card_of_nodup unrepeated).symm

/-- What is recorded leaves nothing to move if and only if what it asks for is still declared, collection by
collection. -/
theorem nothingToMove_iff_of_declared {k : Kind} {desired observed : List Resource}
    (declared : ∀ d ∈ desired, ∃ o ∈ observed, d.sameAs o = true) :
    NothingToMove k desired observed ↔ ∀ o ∈ observed, ∀ n, k.target? o = some n →
      k.Declares desired n ∧ ∀ m ∈ o.members, k.Places desired n m := by
  rw [nothingToMove_iff]
  constructor
  · rintro ⟨targets, members⟩ o ho n target
    have still : k.Declares desired n := targets n ⟨o, ho, target⟩
    exact ⟨still, fun m hm => (members n still m).2 ⟨o, ho, target, hm⟩⟩
  · intro still
    refine ⟨fun n ⟨o, ho, target⟩ => (still o ho n target).1, fun n _ m => ?_⟩
    refine ⟨fun h => h.of_echoed (echoed_of_same declared), ?_⟩
    rintro ⟨o, ho, target, hm⟩
    exact (still o ho n target).2 m hm

/-- What is known of a tenant that has converged: its declared resources are recorded, and its children and hooks
are those of the record. What is recorded is declared if as many different resources are declared as are recorded,
and only then; if it is, there is nothing to move. -/
structure Agreement (t : Tenant) (s : Status) : Prop where
  declared : ∀ d ∈ t.spec.resources, ∃ o ∈ s.resources, d.sameAs o = true
  children : ∀ c, c ∈ t.desiredChildren ↔ c ∈ s.children
  hooks : t.spec.hooks = s.hooks
  recorded_iff : (∀ o ∈ s.resources, ∃ d ∈ t.spec.resources, o.sameAs d = true) ↔
    (different s.resources).card ≤ (different t.spec.resources).card
  nothingToMove : (∀ o ∈ s.resources, ∃ d ∈ t.spec.resources, o.sameAs d = true) →
    ∀ k, NothingToMove k t.spec.resources s.resources
  nothingToMove_iff : ∀ k, NothingToMove k t.spec.resources s.resources ↔
    ∀ o ∈ s.resources, ∀ n, k.target? o = some n →
      k.Declares t.spec.resources n ∧ ∀ m ∈ o.members, k.Places t.spec.resources n m

theorem agreement_of_converged (hs : t.status = some s) (h : t.isConverged = true) : Agreement t s := by
  obtain ⟨_, declared, children, hooks⟩ := (isConverged_iff hs).1 h
  have declared_subset := different_subset_iff.2 declared
  constructor
  case declared => exact declared
  case children => exact children
  case hooks => exact hooks
  case recorded_iff =>
    constructor
    · exact fun recorded => Finset.card_le_card (different_subset_iff.2 recorded)
    · intro as_many
      exact different_subset_iff.1 (Finset.eq_of_subset_of_card_le declared_subset as_many).symm.subset
  case nothingToMove => exact fun recorded k => nothingToMove_of_same declared recorded
  case nothingToMove_iff => exact fun k => nothingToMove_iff_of_declared declared

/-! ## One partition, or two -/

def partitioned (name : String) (members : List String) : Resource :=
  { label := "compute", members := members, partition := name }

/-- A tenant that declares some resources after others were deployed. -/
def redeclared (declared applied : List Resource) : Tenant where
  metadata := { name := some "blue", space := some "tenants", finalizers := some [Lifecycle.tenantFinalizer] }
  spec := { name := "blue", resources := declared }
  status := some { phase := some .deployed, resources := applied }

/-- The same nodes in another order. -/
theorem agreement_of_reordered :
    NothingToMove .partition [partitioned "p-a" ["x2", "x1"]] [partitioned "p-a" ["x1", "x2", "x1"]] := by
  have agreement : Agreement (redeclared [partitioned "p-a" ["x2", "x1"]] [partitioned "p-a" ["x1", "x2", "x1"]])
      { phase := some .deployed, resources := [partitioned "p-a" ["x1", "x2", "x1"]] } :=
    agreement_of_converged rfl (by decide +kernel)
  exact agreement.nothingToMove (agreement.recorded_iff.2 (by decide +kernel)) .partition

/-- A resource is declared twice in place of another, whose partition was deployed. The tenant has converged and
is settled, and the partition should be deleted. -/
theorem repeated_resource_hides_another :
    ∃ (t : Tenant) (s : Status), t.status = some s ∧ t.isConverged = true ∧ Lifecycle.isSettled t = true ∧
      (∃ o ∈ s.resources, ∀ d ∈ t.spec.resources, o.sameAs d = false) ∧
      retired .partition t.spec.resources s.resources = ["p-b"] :=
  ⟨redeclared [partitioned "p-a" ["x1"], partitioned "p-a" ["x1"]]
      [partitioned "p-a" ["x1"], partitioned "p-b" ["x2"]],
    _, rfl, by decide +kernel, by decide +kernel, by decide +kernel, by decide +kernel⟩

end Tenant

end Tenancy

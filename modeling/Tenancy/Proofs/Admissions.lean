import Tenancy.Admission
import Tenancy.Proofs.Collections

/-!
# What admission has seen

A declaration is admitted when no check found a problem with it. So an admitted change has changed no
class that was applied (`exclusive_of_accepted`), and the members of an admitted exclusive resource were
in no other marked group when the groups were listed (`unshared_of_accepted`). The checks only read, so
what the hardware service keeps is the same afterwards.
-/

namespace Tenancy.Admission

open Rehearsal Rehearsal.World

section

variable {σ : Type} {R : Conduct Services σ} {s s' : σ} {tr : List (Moment Services σ)}

theorem settle_ok {tenant : String} {problems : List String}
    (h : (settle tenant problems).Goes R s tr (.ok ()) s') : problems = [] ∧ s' = s := by
  unfold settle at h
  split at h
  · next hp =>
    obtain ⟨_, _, rfl⟩ := Job.goes_pure h
    exact ⟨by simpa using hp, rfl⟩
  · obtain ⟨_, he, _⟩ := Job.goes_throw h
    cases he

theorem validateUpdate_ok {old new : Tenant} (h : (validateUpdate old new).Goes R s tr (.ok ()) s') :
    changeProblems old new = [] ∧
      ∃ tr', (hardwareProblems new.name new.spec.resources).Goes R s tr' (.ok []) s' := by
  obtain ⟨found, s₁, tr₁, tr₂, h₁, h₂, _⟩ := Job.goes_bind_ok h
  obtain ⟨hp, rfl⟩ := settle_ok h₂
  obtain ⟨hc, rfl⟩ := List.append_eq_nil_iff.1 hp
  exact ⟨hc, tr₁, h₁⟩

theorem validateCreate_ok {t : Tenant} (h : (validateCreate t).Goes R s tr (.ok ()) s') :
    ∃ tr', (hardwareProblems t.name t.spec.resources).Goes R s tr' (.ok []) s' := by
  unfold validateCreate at h
  split at h
  · obtain ⟨_, _, _, _, h₁, _⟩ := Job.goes_bind_ok h
    obtain ⟨_, he, _⟩ := Job.goes_throw h₁
    cases he
  · obtain ⟨found, s₁, tr₁, tr₂, h₁, h₂, _⟩ := Job.goes_bind_ok h
    obtain ⟨rfl, rfl⟩ := settle_ok h₂
    exact ⟨tr₁, h₁⟩

end

/-! ## Changes -/

/-- A change without problems declares every class that was applied as exclusive as it was applied. -/
theorem exclusive_of_unchanged {old new : Tenant} (h : changeProblems old new = []) {r a : Resource}
    (hr : r ∈ new.spec.resources)
    (ha : old.recorded.resources.find? (fun a => a.label = r.label) = some a) :
    a.exclusive = r.exclusive := by
  obtain ⟨_, hp⟩ := List.append_eq_nil_iff.1 h
  have hn : immutabilityProblem old.recorded.resources r = none := List.filterMap_eq_nil_iff.1 hp r hr
  simp only [immutabilityProblem, ha] at hn
  by_cases he : a.exclusive = r.exclusive
  · exact he
  · rw [if_neg he] at hn
    cases hn

/-! ## The hardware that was looked at -/

/-- The calls by which declarations are checked. -/
inductive Looks : HardwareCall → Prop
  | groups : Looks .listGroups
  | components {type role : String} : Looks (.listComponents type role)

variable {kept : BackingSystem → Prop} {fails : Call → Error → Prop} {w w' : World}
  {tr : List (Moment Services World)}

theorem asks_eligibilityProblems {p : Call → Prop}
    (components : ∀ type role, p (.hardware (.listComponents type role))) (tenant : String)
    (rs : List Resource) : (eligibilityProblems tenant rs).Asks p := by
  induction rs with
  | nil => exact Job.asks_pure
  | cons r rs ih =>
    refine Job.asks_bind ?_ fun _ => Job.asks_bind ih fun _ => Job.asks_pure
    unfold checkEligible
    split
    · exact Job.asks_pure
    · exact Job.asks_bind (Job.asks_mapError (Job.asks_call (components _ _))) fun _ => Job.asks_pure

theorem asks_hardwareProblems {p : Call → Prop}
    (components : ∀ type role, p (.hardware (.listComponents type role))) (tenant : String)
    {rs : List Resource} (groups : exclusiveTargets rs ≠ [] → p (.hardware .listGroups)) :
    (hardwareProblems tenant rs).Asks p := by
  have exclusive : (exclusivityProblems tenant rs).Asks p := by
    unfold exclusivityProblems
    split
    · exact Job.asks_pure
    · next some =>
      exact Job.asks_bind (Job.asks_mapError (Job.asks_call (groups some))) fun _ => Job.asks_pure
  exact Job.asks_bind (asks_eligibilityProblems components tenant rs) fun _ =>
    Job.asks_bind exclusive fun _ => Job.asks_pure

theorem asks_settle {p : Call → Prop} (tenant : String) (problems : List String) :
    (settle tenant problems).Asks p := by
  unfold settle
  split
  · exact Job.asks_pure
  · exact Job.asks_throw

/-- The checks of a new tenant list components, and groups only if an exclusive resource targets one. -/
theorem asks_validateCreate_of {p : Call → Prop}
    (components : ∀ type role, p (.hardware (.listComponents type role))) {t : Tenant}
    (groups : exclusiveTargets t.spec.resources ≠ [] → p (.hardware .listGroups)) :
    (validateCreate t).Asks p := by
  have checked : Job.Asks p (do settle t.name (← hardwareProblems t.name t.spec.resources)) :=
    Job.asks_bind (asks_hardwareProblems components _ groups) fun _ => asks_settle _ _
  unfold validateCreate
  split
  · exact Job.asks_bind Job.asks_throw fun _ => checked
  · exact checked

/-- So they only look at the hardware. -/
theorem asks_validateCreate {p : Call → Prop} (looks : ∀ q, Looks q → p (.hardware q)) (t : Tenant) :
    (validateCreate t).Asks p :=
  asks_validateCreate_of (fun _ _ => looks _ .components) fun _ => looks _ .groups

/-- So do the checks of a change. -/
theorem asks_validateUpdate {p : Call → Prop} (looks : ∀ q, Looks q → p (.hardware q)) (old new : Tenant) :
    (validateUpdate old new).Asks p :=
  Job.asks_bind (asks_hardwareProblems (fun _ _ => looks _ .components) _ fun _ => looks _ .groups) fun _ =>
    asks_settle _ _

theorem collections_of_looks (hk : kept .hardware) {α : Type} {j : Job α} {o : Except Error α}
    (h : j.Goes (conduct kept fails) w tr o w')
    (asks : j.Asks fun c => ∀ q : HardwareCall, c = .hardware q → Looks q) :
    w'.collections = w.collections := by
  refine kept_of_calls h hk asks (P := fun w' => w'.collections = w.collections) ?_ ?_ rfl
  · intro w₁ w₂ same hw
    exact Eq.trans same hw
  · rintro q w₁ r w₂ looks hr hw
    rcases call_cases hk hr with ⟨w₃, same, hr⟩ | ⟨e, _, _, same⟩
    · have hw₂ : w₂ = w₃ := by
        cases looks <;> exact (Prod.mk.inj hr).2
      rw [hw₂]
      exact Eq.trans same hw
    · exact Eq.trans same hw

theorem listGroups_ok (hk : kept .hardware) {groups : List Collection}
    (h : Hardware.listGroups.Goes (conduct kept fails) w tr (.ok groups) w') :
    groups = w.groups ∧ w'.collections = w.collections := by
  obtain ⟨hc, _⟩ := Job.goes_call h
  rcases call_cases hk hc with ⟨w₁, same, hr⟩ | ⟨e, _, he, _⟩
  · obtain ⟨hg, rfl⟩ := Prod.mk.inj hr
    have hw : w'.collections = w.collections := same
    refine ⟨?_, hw⟩
    rw [World.groups, ← hw]
    exact Except.ok.inj hg
  · cases he

/-- Where no problem was found, the members of exclusive resources are in no other marked group. -/
theorem unshared_of_accepted (hk : kept .hardware) {tenant : String} {rs : List Resource}
    (h : (hardwareProblems tenant rs).Goes (conduct kept fails) w tr (.ok []) w') :
    w'.collections = w.collections ∧
      ∀ r ∈ rs, r.exclusive = true → ∀ g, Kind.group.target? r = some g → ∀ m ∈ r.members,
        ∀ c ∈ w.groups, c.name ≠ g → c.isTenantExclusive = true → m ∉ c.members := by
  obtain ⟨eligible, w₁, tr₁, tr₂, h₁, hrest, _⟩ := Job.goes_bind_ok h
  obtain ⟨exclusive, w₂, tr₃, tr₄, h₂, hend, _⟩ := Job.goes_bind_ok hrest
  obtain ⟨_, ho, rfl⟩ := Job.goes_pure hend
  obtain ⟨rfl, rfl⟩ := List.append_eq_nil_iff.1 (Except.ok.inj ho).symm
  have hw₁ := collections_of_looks hk h₁
    (asks_eligibilityProblems (fun _ _ c he => by cases he; exact .components) tenant rs)
  have targeted {r : Resource} (hr : r ∈ rs) (he : r.exclusive = true) {g : String}
      (hg : Kind.group.target? r = some g) : (g, r) ∈ exclusiveTargets rs := by
    refine List.mem_filterMap.2 ⟨r, List.mem_filter.2 ⟨hr, he⟩, ?_⟩
    rw [hg]
    rfl
  unfold exclusivityProblems at h₂
  split at h₂
  · next none =>
    obtain ⟨_, _, rfl⟩ := Job.goes_pure h₂
    refine ⟨hw₁, fun r hr he g hg => ?_⟩
    have hmem := targeted hr he hg
    rw [none] at hmem
    cases hmem
  · obtain ⟨groups, w₃, tr₅, tr₆, h₃, hend, _⟩ := Job.goes_bind_ok h₂
    obtain ⟨_, ho, rfl⟩ := Job.goes_pure hend
    obtain ⟨hgroups, hw₂⟩ := listGroups_ok hk (Job.goes_mapError_ok h₃)
    have listed : groups = w.groups := by rw [hgroups, World.groups, hw₁, World.groups]
    refine ⟨hw₂.trans hw₁, fun r hr he g hg m hm c hc hn marked hmc => ?_⟩
    have free : exclusivityProblem groups g r = none :=
      List.filterMap_eq_nil_iff.1 (Except.ok.inj ho).symm (g, r) (targeted hr he hg)
    have conflict : (m, c) ∈ conflicts groups g r := by
      simp [conflicts, listed, hm, hc, hn, marked, hmc]
    unfold exclusivityProblem at free
    dsimp only at free
    split at free
    · next empty =>
      rw [List.isEmpty_iff.1 empty] at conflict
      cases conflict
    · cases free

end Tenancy.Admission

import Tenancy.Proofs.Passes
import Tenancy.Proofs.Stages

/-!
# What a pass records

The recorded children, resources, hooks and keys say what was applied, and later passes work out from
them what is left to do. They change in one write only, the last one of a deploy pass that came through
all systems. `recorded_of_pass` says so for every pass, whatever the systems answer and wherever calls
fail: either that write was done and what is recorded is what the pass was to apply, or nothing of it
has changed.
-/

namespace Tenancy

/-- Two statuses do not differ in what they say was applied. -/
structure Status.SameApplied (s s' : Status) : Prop where
  children : s'.children = s.children
  resources : s'.resources = s.resources
  hooks : s'.hooks = s.hooks
  keys : s'.keys = s.keys
  lastDeployed : s'.lastDeployed = s.lastDeployed

/-- A phase and an identifier say nothing of what was applied. -/
theorem Status.SameApplied.marked (s : Status) (p : Option Phase) (u : Option String) :
    s.SameApplied { s with phase := p, uuid := u } := ⟨rfl, rfl, rfl, rfl, rfl⟩

theorem Status.SameApplied.trans {s s' s'' : Status} (h : s.SameApplied s') (h' : s'.SameApplied s'') :
    s.SameApplied s'' := by
  constructor
  case children => exact h'.children.trans h.children
  case resources => exact h'.resources.trans h.resources
  case hooks => exact h'.hooks.trans h.hooks
  case keys => exact h'.keys.trans h.keys
  case lastDeployed => exact h'.lastDeployed.trans h.lastDeployed

namespace Lifecycle

open Rehearsal Rehearsal.World

variable {kept : BackingSystem → Prop} {fails : Call → Error → Prop} {settings : Settings}
  {fresh : Fresh} {t : Tenant} {w w' : World} {tr : List (Moment Services World)}

/-- What a pass leaves in the store, unless it writes that the tenant is deployed. -/
theorem Pass.same_applied (h : Pass kept fails settings fresh t w tr w') (quiet : ¬ WritesDeployed tr) :
    ∃ t', w'.tenant = some t' ∧ t.Tended t' ∧ t.recorded.SameApplied t'.recorded := by
  cases h with
  | idle _ _ stored _ =>
    obtain ⟨t', ht', ⟨tended, _⟩, recorded⟩ := stored
    refine ⟨t', ht', tended, ?_⟩
    rw [recorded]
    exact .marked t.recorded _ _
  | interrupted _ _ _ _ _ _ stored =>
    obtain ⟨t', ht', ⟨tended, _⟩, recorded⟩ := stored
    refine ⟨t', ht', tended, ?_⟩
    rw [recorded]
    exact .marked t.recorded _ _
  | deployed writes => exact absurd writes quiet
  | uncleared _ _ _ _ _ _ stored =>
    obtain ⟨t', ht', ⟨tended, _⟩, recorded⟩ := stored
    refine ⟨t', ht', tended, ?_⟩
    rw [recorded]
    exact .marked t.recorded _ _
  | released _ _ _ _ _ _ _ stored tended recorded =>
    refine ⟨_, stored, tended, ?_⟩
    rw [recorded]
    exact .marked t.recorded _ _

/-- What a pass leaves in the store when it writes that the tenant is deployed. -/
theorem Pass.applied (h : Pass kept fails settings fresh t w tr w') (writes : WritesDeployed tr) :
    ∃ t' keys, w'.tenant = some t' ∧ t.Tended t' ∧
      t'.recorded = deployedStatus t keys fresh.now (deployingStatus fresh t.recorded) := by
  cases h with
  | deployed _ _ _ _ _ _ stored =>
    obtain ⟨t', ht', ⟨tended, _⟩, recorded⟩ := stored
    exact ⟨t', _, ht', tended, recorded⟩
  | idle quiet => exact absurd writes quiet
  | interrupted quiet => exact absurd writes quiet
  | uncleared quiet => exact absurd writes quiet
  | released quiet => exact absurd writes quiet

/-- A pass over the stored tenant leaves the spec as it was, but perhaps for the request for a key
update. What is recorded as applied stays as it was, unless the pass writes that the tenant is deployed;
then it is what the pass was to apply. -/
theorem recorded_of_pass (hk : kept .store) (hw : w.tenant = some t) {o : Except Error Action}
    (h : (reconcile settings fresh t).Goes (conduct kept fails) w tr o w') :
    ∃ t', w'.tenant = some t' ∧
      t'.spec = { t.spec with requiresKeyUpdate := t'.spec.requiresKeyUpdate } ∧
      (t'.spec.requiresKeyUpdate = true → t.spec.requiresKeyUpdate = true) ∧
      (¬ WritesDeployed tr → t.recorded.SameApplied t'.recorded) ∧
      (WritesDeployed tr →
        t'.recorded.children = t.desiredChildren ∧ t'.recorded.resources = t.spec.resources ∧
          t'.recorded.hooks = t.spec.hooks ∧ t'.recorded.lastDeployed = some fresh.now) := by
  have pass := pass_of_goes hk hw h
  by_cases hd : WritesDeployed tr
  · obtain ⟨t', keys, ht', tended, recorded⟩ := pass.applied hd
    refine ⟨t', ht', tended.spec, tended.flag, fun quiet => absurd hd quiet, fun _ => ?_⟩
    rw [recorded]
    exact ⟨rfl, rfl, rfl, rfl⟩
  · obtain ⟨t', ht', tended, same⟩ := pass.same_applied hd
    exact ⟨t', ht', tended.spec, tended.flag, fun _ => same, fun writes => absurd writes hd⟩

/-- The first node is in the partition after the pass, but nothing is recorded of it. -/
theorem nothing_recorded_of_halfFilled :
    ((Stage.halfFilled.pass {} default).world.collections.get? "partition p-blue").map Collection.members =
        some ["x1"] ∧
      ∃ t', (Stage.halfFilled.pass {} default).world.tenant = some t' ∧
        t'.recorded.resources = [] ∧ t'.recorded.lastDeployed = none := by
  have goes : (reconcile {} default (Stage.newTenant (Stage.onePartition ["x1", "x2"]))).Goes
      (conduct (fun _ => True) Call.Unreachable) _ _ _ _ :=
    Stage.goes_perform (s := Stage.halfFilled) (Stage.plain_start _ _) _
  obtain ⟨t', ht', _, _, same, _⟩ := recorded_of_pass trivial rfl goes
  have quiet := same (by decide +kernel)
  exact ⟨by decide +kernel, t', ht', quiet.resources, quiet.lastDeployed⟩

end Lifecycle

end Tenancy

import Tenancy.Proofs.Footprints
import Tenancy.Proofs.Systems

/-!
# What becomes of the administrators' group

The identity provider is relied on here. A group is looked up by its name and deleted by its identifier,
and the provider may keep several groups of one name; so what a teardown deletes is the group that is
found. It is the last one of its name where no two groups have the same name (`removeAdmin_ok`).
-/

namespace Tenancy

open Rehearsal Rehearsal.World

namespace Rehearsal.World

variable {kept : BackingSystem → Prop} {fails : Call → Error → Prop} {w w' : World}

/-! ## Single calls -/

/-- The group that the provider finds for a name. -/
def groupNamed (w : World) (name : String) : Option IdentityGroup := w.identity.find? fun g => g.name = name

theorem findGroup_cases (hk : kept .identity) {name : String} {r : Except Error (Option IdentityGroup)}
    (h : conduct kept fails (.identity (.find name)) w r w') :
    w'.identity = w.identity ∧ ∀ found, r = .ok found → found = w.groupNamed name := by
  rcases call_cases hk h with ⟨w₁, hw₁, hr⟩ | ⟨e, _, rfl, hw'⟩
  · have hw : w₁.identity = w.identity := hw₁
    obtain ⟨rfl, rfl⟩ := Prod.mk.inj hr
    refine ⟨hw, fun found hf => ?_⟩
    rw [groupNamed, ← hw]
    exact (Except.ok.inj hf).symm
  · exact ⟨hw', nofun⟩

/-- A deletion makes no group, and it says that the group is gone only if it is. -/
theorem deleteGroup_cases (hk : kept .identity) {id : String} {r : Except Error Unit}
    (h : conduct kept Call.FailsPlainly (.identity (.delete id)) w r w') :
    (∀ g ∈ w'.identity, g ∈ w.identity) ∧
      ((r = .ok () ∧ ∀ g ∈ w'.identity, g.id ≠ some id) ∨
        ∃ e, r = .error e ∧ (e.isNotFound = true → ∀ g ∈ w'.identity, g.id ≠ some id)) := by
  rcases call_cases hk h with ⟨w₁, hw₁, hr⟩ | ⟨e, he, rfl, hw'⟩
  · have hw : w₁.identity = w.identity := hw₁
    have hr : (r, w') = (if (w₁.identity.any fun g => g.id = some id) = true then
        effect { w₁ with identity := w₁.identity.filter fun g => g.id ≠ some id }
        else w₁.refuse "keycloak" 404 "no such group" : Answer Unit) := hr
    by_cases there : (w₁.identity.any fun g => g.id = some id) = true
    · rw [if_pos there] at hr
      obtain ⟨rfl, rfl⟩ := Prod.mk.inj hr
      refine ⟨fun g hg => hw ▸ (List.mem_filter.1 hg).1, .inl ⟨rfl, fun g hg => ?_⟩⟩
      simpa using (List.mem_filter.1 hg).2
    · rw [if_neg there] at hr
      obtain ⟨rfl, rfl⟩ := Prod.mk.inj hr
      exact ⟨fun g hg => hw ▸ hg, .inr ⟨_, rfl, fun _ => by simpa using there⟩⟩
  · have hw : w'.identity = w.identity := hw'
    refine ⟨fun g hg => hw ▸ hg, .inr ⟨e, rfl, fun hn => ?_⟩⟩
    rw [he.2 rfl] at hn
    cases hn

end Rehearsal.World

namespace Identity

variable {kept : BackingSystem → Prop} {w w' : World} {tr : List (Moment Services World)} {tenant : String}

/-! ## Jobs that succeed -/

/-- After a deletion of the administrators' group there is no group that was not there, and none with
the identifier of the one that was found. -/
theorem removeAdmin_ok (hk : kept .identity) {r : Removal}
    (h : (removeAdmin tenant).Goes (conduct kept Call.FailsPlainly) w tr (.ok r) w') :
    (∀ g ∈ w'.identity, g ∈ w.identity) ∧
      ∀ found, w.groupNamed (IdentityGroup.adminName tenant) = some found → found.id.isSome = true →
        ∀ g ∈ w'.identity, g.id ≠ found.id := by
  obtain ⟨found, w₁, tr₁, tr₂, hfind, hrest, _⟩ := Job.goes_bind_ok h
  obtain ⟨hw₁, hfound⟩ := findGroup_cases hk (Job.goes_call hfind).1
  obtain rfl := hfound found rfl
  split at hrest
  · next hid =>
    obtain ⟨_, _, rfl⟩ := Job.goes_pure hrest
    refine ⟨fun g hg => hw₁ ▸ hg, fun found hf hsome => ?_⟩
    rw [hf] at hid
    have hid : found.id = none := hid
    rw [hid] at hsome
    cases hsome
  · next id hid =>
    obtain ⟨x, hx, ho⟩ := Job.goes_reading hrest
    obtain ⟨less, gone⟩ := deleteGroup_cases hk (Job.goes_call hx).1
    have gone : ∀ g ∈ w'.identity, g.id ≠ some id := by
      rcases gone with ⟨_, gone⟩ | ⟨e, rfl, gone⟩
      · exact gone
      · by_cases hn : e.isNotFound = true
        · exact gone hn
        · simp only [Hardware.deleted, if_neg hn] at ho
          cases ho
    refine ⟨fun g hg => hw₁ ▸ less g hg, fun found hf _ => ?_⟩
    rw [hf] at hid
    have hid : found.id = some id := hid
    rw [hid]
    exact gone

end Identity

end Tenancy

import Tenancy.Proofs.Rewrites
import Tenancy.Proofs.Runs

/-!
# What is assigned once

The identifier of a tenant and the name of its encryption domain are found out in a pass, from a fresh
value that every pass brings along. Still they never change: a status is written over the one that is
stored by then, and what this one has of the two is taken over. The name of the domain is computed from the
identifier that the same pass has just seen stored.

`Status.Keeps` says so of two statuses and is transitive, so it is enough to look at single writes
(`keeps_of_rewrite`). The copy that a pass is handed plays no part, be it as old as it may.
-/

namespace Tenancy

open Rehearsal Rehearsal.World

/-- The identifier and the encryption domain are still recorded, and if the domain was not recorded before,
it has its name from the identifier. -/
structure Status.Keeps (s s' : Status) : Prop where
  uuid : ∀ u, s.uuid = some u → s'.uuid = some u
  domain : ∀ d, s.keys.domain = some d → s'.keys.domain = some d
  named : s.keys.domain = none → ∀ d, s'.keys.domain = some d →
    ∃ u, s'.uuid = some u ∧ d = "cray-tenant-" ++ u

namespace Status.Keeps

theorem of_eq {s s' : Status} (uuid : s.uuid.isSome = true → s'.uuid = s.uuid)
    (domain : s'.keys.domain = s.keys.domain) : s.Keeps s' := by
  refine ⟨fun u hu => ?_, fun d hd => domain.trans hd, fun hn d hd => ?_⟩
  · rw [uuid (by rw [hu]; rfl), hu]
  · rw [domain, hn] at hd
    cases hd

theorem refl (s : Status) : s.Keeps s := of_eq (fun _ => rfl) rfl

theorem trans {s s' s'' : Status} (h : s.Keeps s') (h' : s'.Keeps s'') : s.Keeps s'' := by
  refine ⟨fun u hu => h'.uuid u (h.uuid u hu), fun d hd => h'.domain d (h.domain d hd), fun hn d hd => ?_⟩
  cases hd' : s'.keys.domain with
  | none => exact h'.named hd' d hd
  | some d' =>
    -- the domain was recorded before the last write, which has left it as it was
    obtain ⟨u, hu, rfl⟩ := h.named hn d' hd'
    obtain rfl : d = _ := Option.some.inj (hd.symm.trans (h'.domain _ hd'))
    exact ⟨u, h'.uuid u hu, rfl⟩

end Status.Keeps

namespace Lifecycle

variable {settings : Settings} {fresh : Fresh} {t t₀ : Tenant} {s s' s₀ : Status} {w w₀ : World}
  {ms : List (Moment Services World)}

theorem keeps_of_rewrite (h : Rewrite fresh t s₀ s s') : s.Keeps s' := by
  cases h with
  | same => exact .refl s
  | new => exact .of_eq (fun _ => rfl) rfl
  | deleting => exact .of_eq (fun _ => rfl) rfl
  | deploying =>
    have begun : (begunStatus t s₀).uuid = s₀.uuid ∧ (begunStatus t s₀).keys = s₀.keys := by
      unfold begunStatus
      split <;> exact ⟨rfl, rfl⟩
    refine .of_eq (fun hs => ?_) ?_
    · rw [begun.1] at hs ⊢
      obtain ⟨u, hu⟩ := Option.isSome_iff_exists.1 hs
      rw [deployingStatus, hu]
      rfl
    · rw [begun.2]
      rfl
  | @deployed keys _ named =>
    rcases named with rfl | named
    · exact .of_eq (fun _ => rfl) rfl
    · refine ⟨fun _ hu => hu, fun d hd => ?_, fun hn d hd => ⟨s₀.uuid.getD fresh.uuid, rfl, ?_⟩⟩
      · have hd : s₀.keys.domain = some d := hd
        rw [hd] at named
        exact named
      · have hn : s₀.keys.domain = none := hn
        rw [hn] at named
        exact Option.some.inj (hd.symm.trans named)

/-- In any history of passes, whatever copies they are handed, and of edits that do not touch the status,
an identifier that is stored once is stored ever after, and so is a domain, which is named after the
identifier. -/
theorem identities_kept (start : w₀.tenant = some t₀)
    (history : History settings soleWriter (fun _ _ => True) (fun t t' => t'.status = t.status) w₀ ms w) :
    (w₀ :: ms.map Moment.before ++ [w]).Pairwise (Evolves Status.Keeps) := by
  have chain : (w₀ :: ms.map Moment.before ++ [w]).IsChain (Evolves Status.Keeps) := by
    refine (history.evolves (I := fun _ _ => True) .refl ?_ ?_ ⟨t₀, start, trivial⟩).1
    · intro _ _ w _ copy t fresh _ _ stored _ goes
      have trail := trail_of_pass goes ⟨t, stored, rfl⟩
      exact ⟨trail.mono fun _ _ => .mono fun _ _ => keeps_of_rewrite,
        stored_of_goes (P := fun _ => True) goes ⟨t, stored, trivial⟩⟩
    · intro _ t t' edited _
      refine ⟨?_, trivial⟩
      rw [Tenant.recorded, edited, Tenant.recorded]
  have : Trans (Evolves Status.Keeps) (Evolves Status.Keeps) (Evolves Status.Keeps) :=
    ⟨Evolves.trans .trans⟩
  exact chain.pairwise

/-- A second pass is handed the copy with which the first one began. -/
def latePass : Stage :=
  (Stage.perform (reconcile {} ⟨"2", "later"⟩ (Stage.newTenant wantsKeys))
    (Stage.firstPass wantsKeys [])).2

theorem identities_kept_of_late :
    latePass.tenant.recorded.uuid = some "1" ∧
      latePass.tenant.recorded.keys.domain = some "cray-tenant-1" := by
  obtain ⟨stored, uuid, domain, stored'⟩ :
      (Stage.firstPass wantsKeys []).world.tenant = some (Stage.firstPass wantsKeys []).tenant ∧
        (Stage.firstPass wantsKeys []).tenant.recorded.uuid = some "1" ∧
        (Stage.firstPass wantsKeys []).tenant.recorded.keys.domain = some "cray-tenant-1" ∧
        latePass.world.tenant = some latePass.tenant := by
    decide +kernel
  have goes : (reconcile {} ⟨"2", "later"⟩ (Stage.newTenant wantsKeys)).Goes
      (conduct (fun _ => True) Call.Unreachable) (Stage.firstPass wantsKeys []).world _ _
        latePass.world := Stage.goes_perform (Stage.plain_firstPass wantsKeys []) _
  have kept := identities_kept stored
    (.pass .start trivial (Dialogue.Goes.weaken (fun _ _ _ _ => soleWriter_of_conduct trivial) goes))
  obtain ⟨t, t', ht, ht', keeps⟩ :=
    List.rel_of_pairwise_cons kept (List.mem_append_right _ (List.mem_singleton_self latePass.world))
  obtain rfl := Option.some.inj (stored.symm.trans ht)
  obtain rfl := Option.some.inj (stored'.symm.trans ht')
  exact ⟨keeps.uuid _ uuid, keeps.domain _ domain⟩

end Lifecycle

end Tenancy

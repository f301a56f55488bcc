import Tenancy.Proofs.EncryptionDomain
import Tenancy.Proofs.Histories

/-!
# What a pass writes over the status

A pass computes every status that it writes from the one that it finds stored, and while it runs nobody
else writes. So the status that is stored when it begins, the copy that it is handed and what it takes
from outside decide what it can write, and over what. `Rewrite` lists the few ways in which the stored
status may change from one call to the next, and `trail_of_pass` says that there are no others, whether
the copy is the tenant that is stored or an older one, and wherever calls fail.
-/

namespace Tenancy.Lifecycle

open Rehearsal Rehearsal.World Encryption

/-- What is recorded when a deploy pass comes to write that it is under way. -/
def begunStatus (t : Tenant) (s : Status) : Status :=
  if t.recorded.phase.isNone then { s with phase := some .new } else s

/-- What may become of the stored status from one call of a pass to the next. The pass is over the copy
`t`, and `s₀` is stored when it begins. -/
inductive Rewrite (fresh : Fresh) (t : Tenant) (s₀ : Status) : Status → Status → Prop
  | same {s : Status} : Rewrite fresh t s₀ s s
  | new (alive : t.deletionRequested = false) (unphased : t.recorded.phase = none) :
      Rewrite fresh t s₀ s₀ { s₀ with phase := some .new }
  | deploying (alive : t.deletionRequested = false) :
      Rewrite fresh t s₀ (begunStatus t s₀) (deployingStatus fresh s₀)
  | deployed {keys : KeyRecord} (alive : t.deletionRequested = false)
      (named : keys = s₀.keys ∨
        keys.domain = some (s₀.keys.domain.getD (domainName (s₀.uuid.getD fresh.uuid)))) :
      Rewrite fresh t s₀ (deployingStatus fresh s₀)
        (deployedStatus t keys fresh.now (deployingStatus fresh s₀))
  | deleting (requested : t.deletionRequested = true) : Rewrite fresh t s₀ s₀ (deletingStatus s₀)

variable {S : Status → Status → Prop} {settings : Settings} {fresh : Fresh} {t : Tenant}
  {s s₀ : Status} {w w' : World} {tr : List (Moment Services World)}

/-! ## Jobs over a stored status -/

theorem Mild.quiet {c : Call} (h : Mild c) : Quiet c := fun sc hc => (h sc hc).1

theorem clear_asks_quiet {recorded : Status} : (clear settings t recorded).Asks Quiet :=
  (clear_asks_mild recorded).mono fun _ => Mild.quiet

theorem prepare_asks_quiet {recorded : Status} : (prepare settings fresh t recorded).Asks Quiet :=
  (prepare_asks_mild recorded).mono fun _ => Mild.quiet

theorem dropRequest_asks_quiet : (dropRequest t).Asks Quiet := dropRequest_asks_mild.mono fun _ => Mild.quiet

theorem releaseFinalizer_asks_quiet {f : String} : (releaseFinalizer t f).Asks Quiet :=
  asks_releaseFinalizer (fun _ _ sc hc => by cases hc; rfl) fun _ sc hc => by cases hc; rfl

theorem trail_of_quiet (refl : ∀ s, S s s) {α : Type} {j : Job α} {o : Except Error α}
    (h : j.Goes soleWriter w tr o w') (hj : j.Asks Quiet) (hw : Stored (·.recorded = s) w) :
    Trail (Evolves S) w tr w' ∧ Stored (·.recorded = s) w' := by
  refine trail_of_asks refl h hj (fun c hc u hu => ?_) hw
  have unwritten : (c.write u).recorded = u.recorded := StoreCall.recorded_write (hc c rfl) u
  refine ⟨?_, unwritten.trans hu⟩
  rw [unwritten]
  exact refl _

/-- A change that changes nothing when it is made again. However often it is attempted, what is stored is
either the old status or the new one. -/
theorem trail_of_change (refl : ∀ s, S s s) {change : Status → Status}
    (again : change (change s) = change s) (hS : S s (change s)) {u : Tenant} {o : Except Error Status}
    (h : (updateStatus u change).Goes soleWriter w tr o w') (hw : Stored (·.recorded = s) w) :
    Trail (Evolves S) w tr w' ∧ ∀ r, o = .ok r → r = change s ∧ Stored (·.recorded = r) w' := by
  have step (v : Tenant) (hv : v.recorded = s ∨ v.recorded = change s) :
      S v.recorded (change v.recorded) ∧ change v.recorded = change s := by
    rcases hv with hv | hv
    · rw [hv]
      exact ⟨hS, rfl⟩
    · rw [hv, again]
      exact ⟨refl _, rfl⟩
  obtain ⟨trail, _, written⟩ := trail_of_updateStatus
    (P := fun v => v.recorded = s ∨ v.recorded = change s) refl
    (fun v hv => ⟨(step v hv).1, .inr (step v hv).2⟩) h (hw.mono fun _ => .inl)
  refine ⟨trail, fun r hr => ?_⟩
  obtain ⟨_, stored, v, hv, rfl, rfl⟩ := written r hr
  exact ⟨(step v hv).2, _, stored, rfl⟩

/-! ## The parts of a pass -/

theorem trail_of_markDeploying (alive : t.deletionRequested = false) {o : Except Error Status}
    (h : (markDeploying t fresh).Goes soleWriter w tr o w') (hw : Stored (·.recorded = s₀) w) :
    Trail (Evolves (Rewrite fresh t s₀)) w tr w' ∧
      ∀ r, o = .ok r → r = deployingStatus fresh s₀ ∧ Stored (·.recorded = r) w' := by
  have last {w : World} {tr : List (Moment Services World)}
      (h : (updateStatus t fun s => { s with
        phase := some .deploying, uuid := some (s.uuid.getD fresh.uuid) }).Goes soleWriter w tr o w')
      (hw : Stored (·.recorded = begunStatus t s₀) w) : Trail (Evolves (Rewrite fresh t s₀)) w tr w' ∧
        ∀ r, o = .ok r → r = deployingStatus fresh s₀ ∧ Stored (·.recorded = r) w' := by
    have begun : deployingStatus fresh (begunStatus t s₀) = deployingStatus fresh s₀ := by
      unfold begunStatus
      split <;> rfl
    have deploying : Rewrite fresh t s₀ (begunStatus t s₀) (deployingStatus fresh (begunStatus t s₀)) := by
      rw [begun]
      exact .deploying alive
    rw [← begun]
    exact trail_of_change (fun _ => .same) rfl deploying h hw
  unfold markDeploying at h
  dsimp only at h
  split at h
  · next unphased =>
    have begun : begunStatus t s₀ = { s₀ with phase := some .new } := if_pos unphased
    have new : Rewrite fresh t s₀ s₀ { s₀ with phase := some .new } :=
      .new alive (by simpa using unphased)
    rcases Job.goes_bind h with ⟨e, rfl, hfirst⟩ | ⟨_, w₁, tr₁, tr₂, hfirst, hlast, rfl⟩
    · obtain ⟨_, hfirst, _⟩ := Job.goes_discard hfirst
      exact ⟨(trail_of_change (fun _ => .same) rfl new hfirst hw).1, fun _ he => by cases he⟩
    · obtain ⟨r, hfirst⟩ := Job.goes_discard_ok hfirst
      obtain ⟨trail, written⟩ := trail_of_change (fun _ => .same) rfl new hfirst hw
      obtain ⟨rfl, hw₁⟩ := written r rfl
      obtain ⟨trail', written'⟩ := last hlast (by rwa [begun])
      exact ⟨trail.append trail', written'⟩
  · next phased =>
    have begun : begunStatus t s₀ = s₀ := if_neg phased
    exact last h (by rwa [begun])

theorem trail_of_deploy (alive : t.deletionRequested = false) {o : Except Error Action}
    (h : (deploy settings fresh t).Goes soleWriter w tr o w') (hw : Stored (·.recorded = s₀) w) :
    Trail (Evolves (Rewrite fresh t s₀)) w tr w' := by
  have through {w w' : World} {tr : List (Moment Services World)} {recorded : Status}
      {o : Except Error (Option KeyRecord)}
      (h : (prepare settings fresh t recorded).Goes soleWriter w tr o w')
      (hw : Stored (·.recorded = recorded) w) :
      Trail (Evolves (Rewrite fresh t s₀)) w tr w' ∧ Stored (·.recorded = recorded) w' :=
    trail_of_quiet (fun _ => .same) h prepare_asks_quiet hw
  cases deploy_cases h with
  | unmarked mark => exact (trail_of_markDeploying alive mark hw).1
  | failed mark middle =>
    obtain ⟨trail, marked⟩ := trail_of_markDeploying alive mark hw
    exact trail.append (through middle (marked _ rfl).2).1
  | pending mark middle =>
    obtain ⟨trail, marked⟩ := trail_of_markDeploying alive mark hw
    exact trail.append (through middle (marked _ rfl).2).1
  | prepared mark middle last =>
    obtain ⟨trail, marked⟩ := trail_of_markDeploying alive mark hw
    obtain ⟨rfl, hw₁⟩ := marked _ rfl
    obtain ⟨trail', hw₂⟩ := through middle hw₁
    have named := (domain_of_prepare middle).imp_left And.left
    exact (trail.append trail').append
      (trail_of_change (fun _ => .same) rfl (.deployed alive named) last hw₂).1

theorem trail_of_teardown (requested : t.deletionRequested = true) {o : Except Error Action}
    (h : (teardown settings t).Goes soleWriter w tr o w') (hw : Stored (·.recorded = s₀) w) :
    Trail (Evolves (Rewrite fresh t s₀)) w tr w' := by
  have marked {w' : World} {tr : List (Moment Services World)} {o : Except Error Status}
      (h : (markDeleting t).Goes soleWriter w tr o w') : Trail (Evolves (Rewrite fresh t s₀)) w tr w' := by
    unfold markDeleting at h
    split at h
    · obtain ⟨rfl, _, rfl⟩ := Job.goes_pure h
      exact .done
    · exact (trail_of_change (fun _ => .same) rfl (.deleting requested) h hw).1
  -- after the mark no status is written, so it does not matter which one is stored
  have quietly {α : Type} {j : Job α} {w w' : World} {tr : List (Moment Services World)}
      {o : Except Error α} (hj : j.Asks Quiet) (h : j.Goes soleWriter w tr o w')
      (hw : Stored (fun _ => True) w) : Trail (Evolves (Rewrite fresh t s₀)) w tr w' := by
    obtain ⟨u, stored, _⟩ := hw
    exact (trail_of_quiet (s := u.recorded) (fun _ => .same) h hj ⟨u, stored, rfl⟩).1
  cases teardown_cases h with
  | unmarked mark => exact marked mark
  | failed mark middle =>
    exact (marked mark).append (quietly clear_asks_quiet middle (stored_of_goes mark hw))
  | blocked mark middle =>
    exact (marked mark).append (quietly clear_asks_quiet middle (stored_of_goes mark hw))
  | cleared mark middle _ release =>
    have hw₁ := stored_of_goes mark hw
    exact ((marked mark).append (quietly clear_asks_quiet middle hw₁)).append
      (quietly releaseFinalizer_asks_quiet release (stored_of_goes middle hw₁))

/-- In the course of a pass the stored status changes in these ways only. -/
theorem trail_of_pass {o : Except Error Action}
    (h : (reconcile settings fresh t).Goes soleWriter w tr o w') (hw : Stored (·.recorded = s₀) w) :
    Trail (Evolves (Rewrite fresh t s₀)) w tr w' := by
  have quietly {α : Type} {j : Job α} {w' : World} {tr : List (Moment Services World)}
      {o : Except Error α} (hj : j.Asks Quiet) (h : j.Goes soleWriter w tr o w') :
      Trail (Evolves (Rewrite fresh t s₀)) w tr w' ∧ Stored (·.recorded = s₀) w' :=
    trail_of_quiet (fun _ => .same) h hj hw
  cases reconcile_cases h with
  | gone => exact .done
  | teardown requested _ goes => exact trail_of_teardown requested goes hw
  | attach _ _ goes => exact (quietly (Job.asks_call fun sc hc => by cases hc; rfl) goes).1
  | undropped _ drop => exact (quietly dropRequest_asks_quiet drop).1
  | settled _ _ _ drop => exact (quietly dropRequest_asks_quiet drop).1
  | deploy alive _ _ drop goes =>
    obtain ⟨trail, hw₁⟩ := quietly dropRequest_asks_quiet drop
    exact trail.append (trail_of_deploy alive goes hw₁)

end Tenancy.Lifecycle

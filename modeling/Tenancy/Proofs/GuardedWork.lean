import Tenancy.Proofs.PhaseChanges
import Tenancy.Proofs.Settling

/-!
# Work is guarded

Before a pass changes anything in another system it has recorded that it is under way, and the finalizer
holds the tenant. So whoever looks at the stored tenant sees that work is being done on it, and a tenant
that is to be deleted cannot go away while something is being made for it.

Others may write to the tenant at any time, also while a pass runs: its spec, its metadata, the request
for its deletion. What they leave alone is the status and the finalizers (`World.soleKeeper`). A pass
writes its phase first, and the calls in its middle write no status and detach no finalizer, so `Guarded`
is kept from the mark on (`guarded_of_asks`), and no call before it changes anything.
-/

namespace Tenancy

open Rehearsal Rehearsal.World

/-- Somebody else wrote to the tenant, and left its status and its finalizers alone. -/
structure Tenant.Edited (t t' : Tenant) : Prop where
  status : t'.status = t.status
  finalizers : t'.metadata.finalizers = t.metadata.finalizers

theorem Tenant.Edited.of_lives {t t' : Tenant} (h : t.Lives t') : t.Edited t' := by
  rcases h with ⟨spec, rfl⟩ | ⟨time, rfl⟩ <;> exact ⟨rfl, rfl⟩

/-- The call changes what a system other than the store keeps. -/
def Call.changes : Call → Bool
  | vault (.write _ _) => true
  | c => c.makes || c.removes

namespace Rehearsal.World

/-- All calls that can change another system are among those that count as changes. -/
theorem backends_of_unchanging {c : Call} (h : c.changes = false) (w : World) :
    (w.answer c).2.backends = w.backends := by
  cases c with
  | store c => exact store_backends w c
  | hierarchy c => cases c <;> first | rfl | cases h
  | hardware c => cases c <;> first | rfl | cases h
  | identity c => cases c <;> first | rfl | cases h
  | vault c => cases c <;> first | rfl | cases h
  | hook c => cases c <;> rfl

/-- What others may have done to the stored tenant by the time of a call. It goes away when no finalizer
holds it. -/
inductive Meanwhile (w w₁ : World) : Prop
  | nothing (same : w₁.tenant = w.tenant)
  | edited {t t' : Tenant} (stored : w.tenant = some t) (stored' : w₁.tenant = some t') (edit : t.Edited t')
  | gone {t : Tenant} (stored : w.tenant = some t) (free : t.metadata.finalizerList = [])
      (none_left : w₁.tenant = none)

/-- Nobody but the operator writes statuses and finalizers, and a write that the store says was done was
done. Whatever else there is of the tenant may be edited before any call. -/
def soleKeeper : Conduct Services World := fun c w r w' => ∃ w₁, Meanwhile w w₁ ∧ soleWriter c w₁ r w'

theorem soleKeeper_of_soleWriter {c : Call} {w w' : World} {r : Except Error c.Reply}
    (h : soleWriter c w r w') : soleKeeper c w r w' := ⟨w, .nothing rfl, h⟩

end Rehearsal.World

namespace Lifecycle

/-- The tenant that is stored is held by the finalizer of the operator, and has such a status. -/
def Guarded (Q : Status → Prop) : World → Prop :=
  Stored fun t => t.hasFinalizer tenantFinalizer = true ∧ Q t.recorded

/-- The phase that a pass works in. -/
def workPhase (t : Tenant) : Phase := if t.deletionRequested then .deleting else .deploying

variable {settings : Settings} {fresh : Fresh} {t : Tenant} {Q : Status → Prop} {w w₀ w₁ w' : World}
  {ms tr : List (Moment Services World)}

/-! ## What keeps the guard -/

theorem Guarded.mono {Q' : Status → Prop} (hQ : ∀ s, Q s → Q' s) (h : Guarded Q w) : Guarded Q' w :=
  Stored.mono h fun _ ht => ⟨ht.1, hQ _ ht.2⟩

theorem Guarded.meanwhile (h : Guarded Q w) (others : Meanwhile w w₁) : Guarded Q w₁ := by
  obtain ⟨t, stored, held, hQ⟩ := h
  cases others with
  | nothing same => exact ⟨t, same.trans stored, held, hQ⟩
  | @edited u t' stored' stored₁ edit =>
    obtain rfl : t = u := Option.some.inj (stored.symm.trans stored')
    refine ⟨t', stored₁, ?_, ?_⟩
    · rw [Tenant.hasFinalizer, Metadata.finalizerList, edit.finalizers]
      exact held
    · rw [Tenant.recorded, edit.status]
      exact hQ
  | @gone u stored' free =>
    obtain rfl : t = u := Option.some.inj (stored.symm.trans stored')
    rw [Tenant.hasFinalizer, free] at held
    cases held

theorem Guarded.write {c : StoreCall} {t : Tenant} (held : t.hasFinalizer tenantFinalizer = true)
    (holding : c.detaches = false) (hQ : Q (c.write t).recorded) (stored : w.tenant = some (c.write t)) :
    Guarded Q w := ⟨_, stored, StoreCall.held_write holding t _ held, hQ⟩

/-- A job keeps the guard all the time if it detaches no finalizer and writes no status of another sort. -/
theorem guarded_of_asks {α : Type} {j : Job α} {o : Except Error α} (h : j.Goes soleKeeper w tr o w')
    {p : Call → Prop} (hj : j.Asks p) (holding : ∀ c, p c → Holding c)
    (step : ∀ sc, p (.store sc) → ∀ t, Q t.recorded → Q (sc.write t).recorded) (hw : Guarded Q w) :
    Guarded Q w' ∧ ∀ m ∈ tr, Guarded Q m.before := by
  have kept (c : Services.Query) (w : World) (r : Services.Answer c) (w' : World) (hc : p c)
      (answered : soleKeeper c w r w') (hw : Guarded Q w) : Guarded Q w' := by
    obtain ⟨w₁, others, written⟩ := answered
    obtain ⟨t, stored, held, hQ⟩ := hw.meanwhile others
    rcases soleWriter_cases written stored with same | ⟨sc, rfl, stored'⟩
    · exact ⟨t, same, held, hQ⟩
    · exact .write held (holding _ hc sc rfl) (step sc hc t hQ) stored'
  exact ⟨Dialogue.Goes.kept h hj kept hw, Dialogue.Goes.kept_at h hj kept hw⟩

theorem guarded_of_mild {α : Type} {j : Job α} {o : Except Error α} (h : j.Goes soleKeeper w tr o w')
    (hj : j.Asks Mild) (hw : Guarded Q w) : Guarded Q w' ∧ ∀ m ∈ tr, Guarded Q m.before := by
  refine guarded_of_asks h hj (fun _ => Mild.holding) (fun sc mild t hQ => ?_) hw
  rw [StoreCall.recorded_write (mild sc rfl).1]
  exact hQ

/-- What keeps the finalizer is still done on a held tenant at its end. -/
theorem held_of_asks {α : Type} {j : Job α} {o : Except Error α} (h : j.Goes soleKeeper w tr o w')
    (hj : j.Asks Holding) (hw : Guarded (fun _ => True) w) : Guarded (fun _ => True) w' :=
  (guarded_of_asks h hj (fun _ => id) (fun _ _ _ _ => trivial) hw).1

/-! ## What brings it about -/

theorem guarded_of_updateOnce {space name : String} {change : Status → Status} {s : Status}
    (marks : ∀ s, Q (change s)) (h : (updateOnce space name change).Goes soleKeeper w tr (.ok s) w')
    (hw : Guarded (fun _ => True) w) : Guarded Q w' := by
  obtain ⟨found, w₁, tr₁, tr₂, get, rest, _⟩ := Job.goes_bind_ok h
  have held₁ := held_of_asks get (Job.asks_call fun sc hc => by cases hc; rfl) hw
  cases found with
  | none =>
    obtain ⟨_, ho, _⟩ := Job.goes_throw rest
    cases ho
  | some latest =>
    obtain ⟨_, w₂, tr₃, _, replace, ended, _⟩ := Job.goes_bind_ok rest
    obtain ⟨_, _, rfl⟩ := Job.goes_pure ended
    -- the status that is written is computed from an older copy, and is of this sort all the same
    obtain ⟨⟨w₃, others, written⟩, _⟩ := Job.goes_call replace
    obtain ⟨t, stored, held, _⟩ := held₁.meanwhile others
    exact .write (c := .replaceStatus latest _) held rfl (marks _) (withStatus_of_done written stored)

/-- A change of the status that came through has left a status of this sort, however often it was
attempted. -/
theorem guarded_of_updateStatus {change : Status → Status} {s : Status} (marks : ∀ s, Q (change s))
    (h : (updateStatus t change).Goes soleKeeper w tr (.ok s) w') (hw : Guarded (fun _ => True) w) :
    Guarded Q w' := by
  obtain ⟨w₁, _, _, kept, last, _⟩ := Job.goes_attempts
    (L := fun w _ w' => Guarded (fun _ => True) w → Guarded (fun _ => True) w') (fun _ => id)
    (fun left left' hw => left' (left hw))
    (fun failed hw => held_of_asks failed (asks_updateOnce (fun sc hc => by cases hc; rfl)
      fun _ sc hc => by cases hc; rfl) hw) h
  exact guarded_of_updateOnce marks last (kept hw)

theorem guarded_of_markDeploying {s : Status} (h : (markDeploying t fresh).Goes soleKeeper w tr (.ok s) w')
    (hw : Guarded (fun _ => True) w) : Guarded (·.phase = some .deploying) w' := by
  unfold markDeploying at h
  dsimp only at h
  split at h
  · obtain ⟨_, w₁, _, _, first, last, _⟩ := Job.goes_bind_ok h
    obtain ⟨_, first⟩ := Job.goes_discard_ok first
    have held : Guarded (fun _ => True) w₁ := guarded_of_updateStatus (fun _ => trivial) first hw
    exact guarded_of_updateStatus (fun _ => rfl) last held
  · exact guarded_of_updateStatus (fun _ => rfl) h hw

theorem guarded_of_markDeleting {s : Status} (h : (markDeleting t).Goes soleKeeper w tr (.ok s) w')
    (stored : w.tenant = some t) (held : t.hasFinalizer tenantFinalizer = true) :
    Guarded (·.phase = some .deleting) w' := by
  unfold markDeleting at h
  split at h
  · next marked =>
    obtain ⟨_, _, rfl⟩ := Job.goes_pure h
    exact ⟨t, stored, held, getD_new_eq_deleting.1 marked⟩
  · exact guarded_of_updateStatus (fun _ => rfl) h ⟨t, stored, held, trivial⟩

/-! ## Passes -/

/-- Whatever call of these changes another system, it is made in this phase under the guard. -/
def WorksIn (p : Phase) (tr : List (Moment Services World)) : Prop :=
  ∀ m ∈ tr, m.query.changes = true → Guarded (·.phase = some p) m.before

variable {p : Phase}

theorem WorksIn.append {tr' : List (Moment Services World)} (h : WorksIn p tr) (h' : WorksIn p tr') :
    WorksIn p (tr ++ tr') := List.forall_mem_append.2 ⟨h, h'⟩

theorem WorksIn.of_store {α : Type} {j : Job α} {o : Except Error α} (h : j.Goes soleKeeper w tr o w')
    (hj : j.Asks fun c => c.system = .store) : WorksIn p tr := by
  intro m hm changes
  obtain ⟨q, hq⟩ := Call.exists_query (Dialogue.Goes.asks h hj m hm)
  rw [hq] at changes
  cases changes

theorem WorksIn.of_mild {α : Type} {j : Job α} {o : Except Error α} (h : j.Goes soleKeeper w tr o w')
    (hj : j.Asks Mild) (hw : Guarded (·.phase = some p) w) : WorksIn p tr :=
  fun m hm _ => (guarded_of_mild h hj hw).2 m hm

theorem worksIn_of_deploy {o : Except Error Action}
    (h : (deploy settings fresh t).Goes soleKeeper w tr o w') (hw : Guarded (fun _ => True) w) :
    WorksIn .deploying tr := by
  have before {tr : List (Moment Services World)} {o : Except Error Status} {w' : World}
      (mark : (markDeploying t fresh).Goes soleKeeper w tr o w') : WorksIn .deploying tr :=
    .of_store mark (asks_markDeploying (fun _ _ => rfl) fun _ _ _ => rfl)
  have within {tr : List (Moment Services World)} {recorded : Status} {w₁ w' : World}
      {o : Except Error (Option KeyRecord)} (marked : Guarded (·.phase = some .deploying) w₁)
      (middle : (prepare settings fresh t recorded).Goes soleKeeper w₁ tr o w') : WorksIn .deploying tr :=
    .of_mild middle (prepare_asks_mild recorded) marked
  cases deploy_cases h with
  | unmarked mark => exact before mark
  | failed mark middle => exact (before mark).append (within (guarded_of_markDeploying mark hw) middle)
  | pending mark middle => exact (before mark).append (within (guarded_of_markDeploying mark hw) middle)
  | prepared mark middle last =>
    refine ((before mark).append (within (guarded_of_markDeploying mark hw) middle)).append ?_
    exact .of_store last (asks_updateStatus (fun _ _ => rfl) fun _ => rfl)

theorem worksIn_of_teardown {o : Except Error Action}
    (h : (teardown settings t).Goes soleKeeper w tr o w') (stored : w.tenant = some t)
    (held : t.hasFinalizer tenantFinalizer = true) : WorksIn .deleting tr := by
  have before {tr : List (Moment Services World)} {o : Except Error Status} {w' : World}
      (mark : (markDeleting t).Goes soleKeeper w tr o w') : WorksIn .deleting tr :=
    .of_store mark (asks_markDeleting (fun _ _ => rfl) fun _ _ => rfl)
  have within {tr tr₁ : List (Moment Services World)} {recorded : Status} {w₁ w' : World}
      {o : Except Error Removal} (mark : (markDeleting t).Goes soleKeeper w tr₁ (.ok recorded) w₁)
      (middle : (clear settings t recorded).Goes soleKeeper w₁ tr o w') : WorksIn .deleting tr :=
    .of_mild middle (clear_asks_mild recorded) (guarded_of_markDeleting mark stored held)
  cases teardown_cases h with
  | unmarked mark => exact before mark
  | failed mark middle => exact (before mark).append (within mark middle)
  | blocked mark middle => exact (before mark).append (within mark middle)
  | cleared mark middle _ release =>
    refine ((before mark).append (within mark middle)).append ?_
    exact .of_store release (asks_releaseFinalizer (fun _ _ => rfl) fun _ => rfl)

/-- In a pass over the stored tenant all work is done in the phase of the pass. -/
theorem worksIn_of_pass {o : Except Error Action} (stored : w.tenant = some t)
    (h : (reconcile settings fresh t).Goes soleKeeper w tr o w') : WorksIn (workPhase t) tr := by
  cases reconcile_cases h with
  | gone => exact fun m hm => by cases hm
  | teardown requested held goes =>
    rw [workPhase, if_pos requested]
    exact worksIn_of_teardown goes stored held
  | attach _ _ goes => exact .of_store goes (Job.asks_call rfl)
  | undropped _ drop => exact .of_store drop dropRequest_asks_store
  | settled _ _ _ drop => exact .of_store drop dropRequest_asks_store
  | deploy alive held _ drop goes =>
    rw [workPhase, alive]
    have held₁ := held_of_asks drop (dropRequest_asks_mild.mono fun _ => Mild.holding)
      ⟨t, stored, held, trivial⟩
    exact (WorksIn.of_store drop dropRequest_asks_store).append (worksIn_of_deploy goes held₁)

/-- However passes over the stored tenant and edits by others follow one another, and whatever calls fail,
another system is changed only while the finalizer holds the stored tenant and the phase that is stored is
that of the work: it says that the tenant is being deleted if the pass was made to take it down, and that
it is being deployed if not. -/
theorem work_guarded (history : History settings soleKeeper Current Tenant.Edited w₀ ms w) :
    (∀ m ∈ ms, m.query.changes = true →
        Guarded (fun s => s.phase = some .deploying ∨ s.phase = some .deleting) m.before) ∧
      ∀ {t fresh tr o w'}, Current w t → (reconcile settings fresh t).Goes soleKeeper w tr o w' →
        ∀ m ∈ tr, m.query.changes = true → Guarded (·.phase = some (workPhase t)) m.before := by
  refine ⟨?_, fun current goes => worksIn_of_pass current goes⟩
  induction history with
  | start => exact fun m hm => by cases hm
  | @pass ms tr w w' copy fresh o _ current goes ih =>
    refine List.forall_mem_append.2 ⟨ih, fun m hm changes => ?_⟩
    refine (worksIn_of_pass current goes m hm changes).mono fun s hs => ?_
    unfold workPhase at hs
    split at hs
    · exact .inr hs
    · exact .inl hs
  | edit _ _ _ ih => exact ih

/-- A tenant with one node was deployed, and its deletion is requested. -/
def retired : Stage :=
  (Stage.firstPass (Stage.onePartition ["x1"]) []).edit (·.requestDeletion ⟨0, false⟩)

theorem work_guarded_of_retired :
    (∃ m ∈ (Stage.start (Stage.onePartition ["x1"]) []).passStory {} ⟨"1", "now"⟩,
        (m.query.system = .hardware ∧ m.query.changes = true) ∧
          Guarded (fun s => s.phase = some .deploying ∨ s.phase = some .deleting) m.before) ∧
      ∃ m ∈ retired.passStory {} ⟨"2", "later"⟩,
        (m.query.system = .hardware ∧ m.query.changes = true) ∧
          Guarded (·.phase = some .deleting) m.before := by
  obtain ⟨stored, stored', ⟨m, hm, added⟩, m', hm', deleted⟩ :
      (Stage.firstPass (Stage.onePartition ["x1"]) []).world.tenant =
          some (Stage.firstPass (Stage.onePartition ["x1"]) []).tenant ∧
        retired.world.tenant = some retired.tenant ∧
        (∃ m ∈ (Stage.start (Stage.onePartition ["x1"]) []).passStory {} ⟨"1", "now"⟩,
          m.query.system = .hardware ∧ m.query.changes = true) ∧
        ∃ m ∈ retired.passStory {} ⟨"2", "later"⟩, m.query.system = .hardware ∧ m.query.changes = true := by
    decide +kernel
  have goes {s : Stage} (plain : s.Plain Call.Unreachable) (stored : s.world.tenant = some s.tenant)
      (fresh : Fresh) : (reconcile {} fresh s.tenant).Goes soleKeeper s.world (s.passStory {} fresh) _
        (s.pass {} fresh).world :=
    Dialogue.Goes.weaken (fun _ _ _ _ h => soleKeeper_of_soleWriter (soleWriter_of_steady h))
      (Stage.steady_pass plain stored)
  have first : History {} soleKeeper Current Tenant.Edited (Stage.start _ []).world _
      (Stage.firstPass (Stage.onePartition ["x1"]) []).world :=
    .pass .start rfl (goes (Stage.plain_start _ _) rfl ⟨"1", "now"⟩)
  have history := first.edit stored (.of_lives (.inr ⟨⟨0, false⟩, rfl⟩))
  rw [← Stage.edit_world stored (·.requestDeletion ⟨0, false⟩)] at history
  obtain ⟨sofar, next⟩ := work_guarded history
  have plain : retired.Plain Call.Unreachable := Stage.plain_edit (Stage.plain_firstPass _ []) _
  have guarded := next stored' (goes plain stored' ⟨"2", "later"⟩) m' hm' deleted.2
  exact ⟨⟨m, hm, added, sofar m hm added.2⟩, m', hm', deleted, guarded⟩

end Lifecycle

end Tenancy

import Tenancy.Proofs.Footprints
import Tenancy.Proofs.Systems

/-!
# What passes write to the store

The store keeps one tenant, and while a pass runs only the pass writes it. A write is done to the tenant
that is stored or it is refused (`storeCall_cases`), so what every write of a job leaves true of a tenant
the job leaves true of the stored one (`stored_of_asks`). In a change of the status the new status is
computed from the one that is replaced (`updateStatus_cases`).

* `Tenant.Tended` is what a pass may do to a tenant besides writing its status.
* `written tr` are the statuses that were written in the course of `tr`, in their order: a write counts
  when the store says that it was done.
-/

namespace Tenancy

open Rehearsal Rehearsal.World

/-! ## Tenants between writes -/

/-- Nothing about a tenant is different but its version, its finalizers, its status, and perhaps the
request for a key update, which may have been taken away. -/
structure Tenant.Tended (t t' : Tenant) : Prop where
  spec : t'.spec = { t.spec with requiresKeyUpdate := t'.spec.requiresKeyUpdate }
  flag : t'.spec.requiresKeyUpdate = true → t.spec.requiresKeyUpdate = true
  metadata : t'.metadata = { t.metadata with
    resourceVersion := t'.metadata.resourceVersion
    finalizers := t'.metadata.finalizers }

namespace Tenant.Tended

variable {t t' t'' : Tenant}

theorem refl (t : Tenant) : t.Tended t := ⟨rfl, id, rfl⟩

theorem trans (h : t.Tended t') (h' : t'.Tended t'') : t.Tended t'' := by
  refine ⟨?_, h.flag ∘ h'.flag, ?_⟩
  · rw [h'.spec, h.spec]
  · rw [h'.metadata, h.metadata]

theorem name (h : t.Tended t') : t'.name = t.name := by rw [Tenant.name, h.spec, Tenant.name]

theorem resources (h : t.Tended t') : t'.spec.resources = t.spec.resources := by rw [h.spec]

theorem keys (h : t.Tended t') : t'.spec.keys = t.spec.keys := by rw [h.spec]

theorem hooks (h : t.Tended t') : t'.spec.hooks = t.spec.hooks := by rw [h.spec]

theorem desiredChildren (h : t.Tended t') : t'.desiredChildren = t.desiredChildren := by
  rw [Tenant.desiredChildren, h.name, h.spec, Tenant.desiredChildren]

theorem unrequested (h : t.Tended t') (ht : t.spec.requiresKeyUpdate = false) :
    t'.spec.requiresKeyUpdate = false := by
  by_cases ht' : t'.spec.requiresKeyUpdate = true
  · rw [h.flag ht'] at ht
    cases ht
  · simpa using ht'

theorem deletionRequested (h : t.Tended t') : t'.deletionRequested = t.deletionRequested := by
  rw [Tenant.deletionRequested, h.metadata, Tenant.deletionRequested]

end Tenant.Tended

/-- All finalizers of a tenant are still there. -/
def Tenant.Held (t t' : Tenant) : Prop := ∀ f, t.hasFinalizer f = true → t'.hasFinalizer f = true

theorem Tenant.Held.unheld {t t' : Tenant} (h : t.Held t') {f : String}
    (hf : t'.hasFinalizer f = false) : t.hasFinalizer f = false := by
  by_cases hf' : t.hasFinalizer f = true
  · rw [h f hf'] at hf
    cases hf
  · simpa using hf'

def Tenant.withStatus (t : Tenant) (s : Status) : Tenant := bump { t with status := some s }

/-- What a call to the store makes of the tenant that is stored. -/
def StoreCall.write : StoreCall → Tenant → Tenant
  | .get _ _, t => t
  | .replaceStatus _ s, t => t.withStatus s
  | .addFinalizer _ f, t => bump (withFinalizers t fun fs => some (fs.getD [] ++ [f]))
  | .removeFinalizer _ f, t => bump (withFinalizers t fun fs => fs.map fun fs => fs.filter (· ≠ f))
  | .clearKeyUpdate _, t => bump { t with spec := { t.spec with requiresKeyUpdate := false } }

namespace StoreCall

def writesStatus : StoreCall → Bool
  | .replaceStatus _ _ => true
  | _ => false

def detaches : StoreCall → Bool
  | .removeFinalizer _ _ => true
  | _ => false

def attaches : StoreCall → Bool
  | .addFinalizer _ _ => true
  | _ => false

theorem tended_write (c : StoreCall) (t : Tenant) : t.Tended (c.write t) := by
  cases c with
  | clearKeyUpdate _ => exact ⟨rfl, nofun, rfl⟩
  | _ => exact ⟨rfl, id, rfl⟩

theorem held_write {c : StoreCall} (hc : c.detaches = false) (t : Tenant) : t.Held (c.write t) := by
  intro g hg
  cases c with
  | addFinalizer _ f =>
    have hmem : g ∈ t.metadata.finalizerList := by simpa [Tenant.hasFinalizer] using hg
    show (t.metadata.finalizerList ++ [f]).contains g = true
    simp [hmem]
  | removeFinalizer _ f => cases hc
  | _ => exact hg

theorem finalizers_write {c : StoreCall} (attaches : c.attaches = false) (detaches : c.detaches = false)
    (t : Tenant) : (c.write t).metadata.finalizers = t.metadata.finalizers := by
  cases c with
  | addFinalizer _ f => cases attaches
  | removeFinalizer _ f => cases detaches
  | _ => rfl

theorem recorded_write {c : StoreCall} (hc : c.writesStatus = false) (t : Tenant) :
    (c.write t).recorded = t.recorded := by
  cases c with
  | replaceStatus _ s => cases hc
  | _ => rfl

end StoreCall

namespace Lifecycle

/-! ## Statuses that were written -/

variable {σ α : Type}

/-- The status that was written at a moment. -/
def written? (m : Moment Services σ) : Option Status :=
  match m with
  | ⟨_, .store (.replaceStatus _ s), .ok _⟩ => some s
  | _ => none

/-- The statuses that were written, the first first. -/
def written (tr : List (Moment Services σ)) : List Status := tr.filterMap written?

@[simp] theorem written_append (tr tr' : List (Moment Services σ)) :
    written (tr ++ tr') = written tr ++ written tr' := List.filterMap_append

/-- A call that writes no status. -/
def Quiet (c : Call) : Prop := ∀ sc, c = .store sc → sc.writesStatus = false

theorem written_of_asks {R : Conduct Services σ} {t : Job α} {s s' : σ} {tr : List (Moment Services σ)}
    {o : Except Error α} (h : t.Goes R s tr o s') (ht : t.Asks Quiet) : written tr = [] := by
  refine List.filterMap_eq_nil_iff.2 fun m hm => ?_
  have hq : Quiet m.query := Dialogue.Goes.asks h ht m hm
  unfold written?
  split
  · cases hq _ rfl
  · rfl

/-! ## Calls to the store -/

variable {kept : BackingSystem → Prop} {fails : Call → Error → Prop} {w w' : World}
  {tr : List (Moment Services World)}

/-- A guarded write is done to the tenant that is stored, or it is refused and changes nothing. -/
theorem guarded_cases {copy : Tenant} {change : Tenant → Tenant} {r : Except Error Unit}
    (hw : (r, w') = w.guarded copy change) :
    (∃ stored, w.tenant = some stored ∧ r = .ok () ∧ w'.tenant = some (bump (change stored))) ∨
      (∃ e, r = .error e ∧ w'.tenant = w.tenant) := by
  unfold guarded at hw
  split at hw
  · obtain ⟨rfl, rfl⟩ := Prod.mk.inj hw
    exact .inr ⟨_, rfl, rfl⟩
  · next stored hs =>
    split at hw
    · obtain ⟨rfl, rfl⟩ := Prod.mk.inj hw
      exact .inl ⟨stored, hs, rfl, rfl⟩
    · obtain ⟨rfl, rfl⟩ := Prod.mk.inj hw
      exact .inr ⟨_, rfl, rfl⟩

/-- A write that succeeds is done to the tenant that is stored, and any other changes nothing. -/
theorem tenant_of_store (w : World) (c : StoreCall) :
    (w.store c).2.tenant = if (w.store c).1.isOk then w.tenant.map c.write else w.tenant := by
  have once (copy : Tenant) (change : Tenant → Tenant) : (w.guarded copy change).2.tenant =
      if (w.guarded copy change).1.isOk then w.tenant.map (fun t => bump (change t)) else w.tenant := by
    have answered : ((w.guarded copy change).1, (w.guarded copy change).2) = w.guarded copy change := rfl
    rcases guarded_cases answered with ⟨t, ht, hr, hw'⟩ | ⟨e, hr, hw'⟩
    · rw [hw', hr, ht]
      rfl
    · rw [hw', hr]
      rfl
  cases c with
  | get space name =>
    show w.tenant = w.tenant.map id
    rw [Option.map_id]
    rfl
  | clearKeyUpdate t => rfl
  | replaceStatus t s => exact once t _
  | addFinalizer t f => exact once t _
  | removeFinalizer t f => exact once t _

/-- The world in memory does a write to the tenant that is stored, or it refuses the write. -/
theorem store_cases {stored : Tenant} (c : StoreCall) (hw : w.tenant = some stored) :
    (w.store c).2.tenant = some stored ∨ (w.store c).2.tenant = some (c.write stored) := by
  rw [tenant_of_store, hw]
  split
  · exact .inr rfl
  · exact .inl rfl

/-- A write is done to the tenant that is stored, or it changes nothing. -/
theorem storeCall_cases (hk : kept .store) {c : StoreCall} {r : Except Error c.Reply}
    (h : conduct kept fails (.store c) w r w') {stored : Tenant} (hw : w.tenant = some stored) :
    w'.tenant = some stored ∨ w'.tenant = some (c.write stored) := by
  obtain ⟨w₁, ha, hr | ⟨e, _, rfl, rfl⟩⟩ := own_of_conduct h hk
  · have hw₁ : w₁.tenant = w.tenant := ha _ hk
    have hw' : w' = (w₁.store c).2 := congrArg Prod.snd hr
    rw [hw']
    exact store_cases c (hw₁.trans hw)
  · have hw' : w'.tenant = w.tenant := ha _ hk
    exact .inl (hw'.trans hw)

/-- What each write that a job may ask for leaves true of a tenant, the job leaves true of the stored
one. -/
theorem stored_of_asks (hk : kept .store) {t : Job α} {o : Except Error α}
    (h : t.Goes (conduct kept fails) w tr o w') {p : Call → Prop} (ht : t.Asks p)
    {P : Tenant → Prop} (step : ∀ c : StoreCall, p (.store c) → ∀ stored, P stored → P (c.write stored))
    (hw : ∃ stored, w.tenant = some stored ∧ P stored) : ∃ stored, w'.tenant = some stored ∧ P stored := by
  have calls : t.Asks fun c => ∀ q : StoreCall, c = .store q → p (.store q) :=
    ht.mono fun c hc q he => he ▸ hc
  refine kept_of_calls h hk calls (P := fun w => ∃ stored, w.tenant = some stored ∧ P stored) ?_ ?_ hw
  · rintro w w' same ⟨stored, hs, hP⟩
    have hw : w'.tenant = w.tenant := same
    exact ⟨stored, hw.trans hs, hP⟩
  · rintro c w r w' hc hr ⟨stored, hs, hP⟩
    rcases storeCall_cases hk hr hs with hs' | hs'
    · exact ⟨stored, hs', hP⟩
    · exact ⟨_, hs', step c hc stored hP⟩

theorem getTenant_cases (hk : kept .store) {space name : String} {o : Except Error (Option Tenant)}
    (h : (getTenant space name).Goes (conduct kept fails) w tr o w') :
    w'.tenant = w.tenant ∧ written tr = [] ∧ ∀ t, o = .ok (some t) → w.tenant = some t := by
  obtain ⟨hc, rfl⟩ := Job.goes_call h
  obtain ⟨w₁, ha, hr | ⟨e, _, rfl, rfl⟩⟩ := own_of_conduct hc hk
  · have hw : w₁.tenant = w.tenant := ha _ hk
    obtain ⟨rfl, rfl⟩ := Prod.mk.inj hr
    refine ⟨hw, rfl, fun t ht => ?_⟩
    rw [← hw]
    exact (Option.filter_eq_some_iff.1 (Except.ok.inj ht)).1
  · exact ⟨ha _ hk, rfl, fun t ht => by cases ht⟩

theorem replaceStatus_cases (hk : kept .store) {t : Tenant} {s : Status} {o : Except Error Unit}
    (h : (replaceStatus t s).Goes (conduct kept fails) w tr o w') :
    (∃ stored, w.tenant = some stored ∧ o = .ok () ∧ w'.tenant = some (stored.withStatus s) ∧
        written tr = [s]) ∨
      (∃ e, o = .error e ∧ w'.tenant = w.tenant ∧ written tr = []) := by
  obtain ⟨hc, rfl⟩ := Job.goes_call h
  obtain ⟨w₁, ha, hr | ⟨e, _, rfl, rfl⟩⟩ := own_of_conduct hc hk
  · have hw : w₁.tenant = w.tenant := ha _ hk
    rcases guarded_cases hr with ⟨stored, hs, rfl, hw'⟩ | ⟨e, rfl, hw'⟩
    · exact .inl ⟨stored, hw ▸ hs, rfl, hw', rfl⟩
    · exact .inr ⟨e, rfl, hw ▸ hw', rfl⟩
  · exact .inr ⟨e, rfl, ha _ hk, rfl⟩

/-! ## Changes of the status -/

/-- A change of the status is made to the status that is stored, or nothing is written. -/
theorem updateStatus_cases (hk : kept .store) {t stored : Tenant} {change : Status → Status}
    {o : Except Error Status} (h : (updateStatus t change).Goes (conduct kept fails) w tr o w')
    (hw : w.tenant = some stored) :
    (o = .ok (change stored.recorded) ∧ w'.tenant = some (stored.withStatus (change stored.recorded)) ∧
        written tr = [change stored.recorded]) ∨
      (∃ e, o = .error e ∧ w'.tenant = w.tenant ∧ written tr = []) := by
  have once {w w' : World} {tr : List (Moment Services World)} {o : Except Error Status}
      (h : (updateOnce t.metadata.spaceName t.metadata.anyName change).Goes (conduct kept fails)
        w tr o w') :
      (∃ latest, w.tenant = some latest ∧ o = .ok (change latest.recorded) ∧
          w'.tenant = some (latest.withStatus (change latest.recorded)) ∧
          written tr = [change latest.recorded]) ∨
        (∃ e, o = .error e ∧ w'.tenant = w.tenant ∧ written tr = []) := by
    rcases Job.goes_bind h with ⟨e, rfl, hg⟩ | ⟨found, w₁, tr₁, tr₂, hg, hrest, rfl⟩
    · obtain ⟨hw', htr, _⟩ := getTenant_cases hk hg
      exact .inr ⟨e, rfl, hw', htr⟩
    · obtain ⟨hw₁, htr₁, hfound⟩ := getTenant_cases hk hg
      cases found with
      | none =>
        obtain ⟨rfl, rfl, rfl⟩ := Job.goes_throw hrest
        exact .inr ⟨_, rfl, hw₁, by simpa using htr₁⟩
      | some latest =>
        have hlatest := hfound latest rfl
        rcases Job.goes_bind hrest with ⟨e, rfl, hr⟩ | ⟨u, w₂, tr₃, tr₄, hr, hend, rfl⟩
        · rcases replaceStatus_cases hk hr with ⟨_, _, he, _⟩ | ⟨e', he, hw', htr⟩
          · cases he
          · exact .inr ⟨e, rfl, hw'.trans hw₁, by simp [htr₁, htr]⟩
        · obtain ⟨rfl, rfl, rfl⟩ := Job.goes_pure hend
          rcases replaceStatus_cases hk hr with ⟨s, hs, _, hw', htr⟩ | ⟨e', he, _⟩
          · obtain rfl : latest = s := by simpa [hw₁, hlatest] using hs
            exact .inl ⟨latest, hlatest, rfl, hw', by simp [htr₁, htr]⟩
          · cases he
  obtain ⟨w₁, tr₁, tr₂, ⟨hw₁, htr₁⟩, hlast, rfl⟩ :
      ∃ w₁ tr₁ tr₂, (w₁.tenant = w.tenant ∧ written tr₁ = []) ∧
        (updateOnce t.metadata.spaceName t.metadata.anyName change).Goes (conduct kept fails)
          w₁ tr₂ o w' ∧ tr = tr₁ ++ tr₂ := by
    refine Job.goes_attempts (L := fun w tr w' => w'.tenant = w.tenant ∧ written tr = [])
      (fun _ => ⟨rfl, rfl⟩) ?_ ?_ h
    · intro _ _ _ _ _ h h'
      exact ⟨h'.1.trans h.1, by simp [h.2, h'.2]⟩
    · intro _ _ _ _ h
      rcases once h with ⟨_, _, he, _⟩ | ⟨_, _, hw, htr⟩
      · cases he
      · exact ⟨hw, htr⟩
  rcases once hlast with ⟨latest, hl, rfl, hw', htr⟩ | ⟨e, rfl, hw', htr⟩
  · obtain rfl : latest = stored := by simpa [hw₁, hw] using hl.symm
    exact .inl ⟨rfl, hw', by simp [htr₁, htr]⟩
  · exact .inr ⟨e, rfl, hw'.trans hw₁, by simp [htr₁, htr]⟩

/-! ## The release of a finalizer -/

/-- A finalizer is detached from the tenant that is stored, or nothing is written. -/
theorem releaseFinalizer_cases (hk : kept .store) {t : Tenant} {f : String} {o : Except Error Unit}
    (h : (releaseFinalizer t f).Goes (conduct kept fails) w tr o w') :
    w'.tenant = w.tenant ∨
      o = .ok () ∧ ∃ stored, w.tenant = some stored ∧
        w'.tenant = some ((StoreCall.removeFinalizer stored f).write stored) := by
  have once {w w' : World} {tr : List (Moment Services World)} {o : Except Error Unit}
      (h : (releaseOnce t.metadata.spaceName t.metadata.anyName f).Goes (conduct kept fails) w tr o w') :
      w'.tenant = w.tenant ∨
        o = .ok () ∧ ∃ stored, w.tenant = some stored ∧
          w'.tenant = some ((StoreCall.removeFinalizer stored f).write stored) := by
    rcases Job.goes_bind h with ⟨e, rfl, hg⟩ | ⟨found, w₁, tr₁, tr₂, hg, hrest, rfl⟩
    · exact .inl (getTenant_cases hk hg).1
    · obtain ⟨hw₁, _⟩ := getTenant_cases hk hg
      cases found with
      | none =>
        obtain ⟨_, _, rfl⟩ := Job.goes_pure hrest
        exact .inl hw₁
      | some latest =>
        dsimp only at hrest
        split at hrest
        · obtain ⟨hc, _⟩ := Job.goes_call hrest
          obtain ⟨w₂, ha, hr | ⟨e, _, rfl, rfl⟩⟩ := own_of_conduct hc hk
          · have hw₂ : w₂.tenant = w₁.tenant := ha _ hk
            rw [hw₁] at hw₂
            rcases guarded_cases hr with ⟨stored, hs, rfl, hw'⟩ | ⟨e, _, hw'⟩
            · exact .inr ⟨rfl, stored, hw₂ ▸ hs, hw'⟩
            · exact .inl (hw'.trans hw₂)
          · have hw' : w'.tenant = w₁.tenant := ha _ hk
            exact .inl (hw'.trans hw₁)
        · obtain ⟨_, _, rfl⟩ := Job.goes_pure hrest
          exact .inl hw₁
  obtain ⟨w₁, tr₁, tr₂, hw₁, hlast, rfl⟩ : ∃ w₁ tr₁ tr₂, w₁.tenant = w.tenant ∧
      (releaseOnce t.metadata.spaceName t.metadata.anyName f).Goes (conduct kept fails) w₁ tr₂ o w' ∧
        tr = tr₁ ++ tr₂ := by
    refine Job.goes_attempts (L := fun w _ w' => w'.tenant = w.tenant) (fun _ => rfl) ?_ ?_ h
    · intro _ _ _ _ _ h h'
      exact h'.trans h
    · intro _ _ _ _ h
      rcases once h with hw | ⟨he, _⟩
      · exact hw
      · cases he
  rw [← hw₁]
  exact once hlast

end Lifecycle

end Tenancy

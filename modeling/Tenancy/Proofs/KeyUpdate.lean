import Tenancy.Proofs.EncryptionDomain
import Tenancy.Proofs.ObservedState

/-!
# What becomes of a request for a key update

A tenant whose key is to be made anew carries a request for it. A deploy pass that finds the request
takes the wanted key in place of the recorded one, takes the request away, and records the key with its
last write. Between the two writes namespaces are deleted and hooks are told. If the pass fails there,
the request is gone and the old key is still what is recorded, so the next pass keeps the old key.

`key_adopted_iff` says when the first pass that comes to its end records the wanted key: if no pass
before it had taken the request away, or else only if the recorded key would do.
-/

namespace Tenancy

/-- The recorded key would do for the wanted one, or none is recorded. -/
def KeyRecord.Serves (keys : KeyRecord) (wanted : KeySettings) : Prop :=
  keys.keyName.getD wanted.keyName = wanted.keyName ∧
    (keys.keyName.isSome = true → keys.keyType.getD wanted.keyType = wanted.keyType)

namespace Lifecycle

open Rehearsal Rehearsal.World Encryption

variable {kept : BackingSystem → Prop} {fails : Call → Error → Prop} {settings : Settings}
  {fresh : Fresh} {t t₀ : Tenant} {w w' w₀ : World} {tr tr₀ : List (Moment Services World)}

/-! ## The request -/

/-- The request for a key update was taken away at this moment. -/
def takesRequest {σ : Type} (m : Moment Services σ) : Bool :=
  match m with
  | ⟨_, .store (.clearKeyUpdate _), .ok _⟩ => true
  | _ => false

theorem requiresKeyUpdate_write {c : StoreCall} (hc : ∀ copy, c = .clearKeyUpdate copy → False)
    (t : Tenant) : (c.write t).spec.requiresKeyUpdate = t.spec.requiresKeyUpdate := by
  cases c with
  | clearKeyUpdate copy => exact (hc copy rfl).elim
  | _ => rfl

theorem clearKeyUpdate_cases (hk : kept .store) {copy : Tenant} {r : Except Error Unit}
    (h : conduct kept fails (.store (.clearKeyUpdate copy)) w r w') (stored : w.tenant = some t) :
    r = .ok () ∧ w'.tenant = some ((StoreCall.clearKeyUpdate copy).write t) ∨
      ∃ e, r = .error e ∧ w'.tenant = some t := by
  obtain ⟨w₁, ha, hr | ⟨e, _, rfl, rfl⟩⟩ := own_of_conduct h hk
  · have hw₁ : w₁.tenant = w.tenant := ha _ hk
    obtain ⟨rfl, rfl⟩ := Prod.mk.inj hr
    refine .inl ⟨rfl, ?_⟩
    show w₁.tenant.map _ = _
    rw [hw₁, stored]
    rfl
  · have hw' : w'.tenant = w.tenant := ha _ hk
    exact .inr ⟨e, rfl, hw'.trans stored⟩

/-- A request is there after a call if it was there before and the call did not take it away. -/
theorem request_of_call (hk : kept .store) {c : Call} {r : Except Error c.Reply}
    (h : conduct kept fails c w r w') (stored : w.tenant = some t) :
    ∃ t', w'.tenant = some t' ∧
      t'.spec.requiresKeyUpdate = (t.spec.requiresKeyUpdate && !takesRequest ⟨w, c, r⟩) := by
  have other (hc : c.system ≠ .store) (hm : takesRequest (⟨w, c, r⟩ : Moment Services World) = false) :
      ∃ t', w'.tenant = some t' ∧
        t'.spec.requiresKeyUpdate = (t.spec.requiresKeyUpdate && !takesRequest ⟨w, c, r⟩) := by
    have same : w'.tenant = w.tenant := sameFor_of_conduct h hk (Ne.symm hc)
    exact ⟨t, same.trans stored, by simp [hm]⟩
  have guarded {sc : StoreCall} {r : Except Error sc.Reply} (h : conduct kept fails (.store sc) w r w')
      (hsc : ∀ copy, sc = .clearKeyUpdate copy → False) :
      ∃ t', w'.tenant = some t' ∧ t'.spec.requiresKeyUpdate = t.spec.requiresKeyUpdate := by
    rcases storeCall_cases hk h stored with hw' | hw'
    · exact ⟨t, hw', rfl⟩
    · exact ⟨_, hw', requiresKeyUpdate_write hsc t⟩
  cases c with
  | store sc =>
    cases sc with
    | clearKeyUpdate copy =>
      rcases clearKeyUpdate_cases hk h stored with ⟨rfl, hw'⟩ | ⟨e, rfl, hw'⟩
      · refine ⟨_, hw', ?_⟩
        show false = (t.spec.requiresKeyUpdate && !true)
        simp
      · exact ⟨t, hw', by simp [takesRequest]⟩
    | get space name => simpa [takesRequest] using guarded h fun _ he => by cases he
    | replaceStatus copy s => simpa [takesRequest] using guarded h fun _ he => by cases he
    | addFinalizer copy f => simpa [takesRequest] using guarded h fun _ he => by cases he
    | removeFinalizer copy f => simpa [takesRequest] using guarded h fun _ he => by cases he
  | hierarchy c => exact other nofun rfl
  | hardware c => exact other nofun rfl
  | identity c => exact other nofun rfl
  | vault c => exact other nofun rfl
  | hook c => exact other nofun rfl

/-- A request is there at the end if it was there at the beginning and was taken away at no moment. -/
theorem request_of_goes (hk : kept .store) {α : Type} {j : Job α} {o : Except Error α}
    (h : j.Goes (conduct kept fails) w tr o w') (stored : w.tenant = some t) :
    ∃ t', w'.tenant = some t' ∧
      t'.spec.requiresKeyUpdate = (t.spec.requiresKeyUpdate && !tr.any takesRequest) := by
  unfold Job.Goes at h
  generalize j.run = d at h
  induction h generalizing t with
  | done => exact ⟨t, stored, by simp⟩
  | ask answered _ ih =>
    obtain ⟨t₁, stored₁, request₁⟩ := request_of_call hk answered stored
    obtain ⟨t', stored', request'⟩ := ih stored₁
    exact ⟨t', stored', by rw [request', request₁, List.any_cons, Bool.not_or, Bool.and_assoc]⟩

/-! ## Attempts -/

/-- Passes over the stored tenant one after the other, none of which wrote that the tenant is deployed,
and what was asked and answered in them. -/
inductive Attempts (settings : Settings) (kept : BackingSystem → Prop) (fails : Call → Error → Prop) :
    World → List (Moment Services World) → World → Prop
  | none {w : World} : Attempts settings kept fails w [] w
  | more {w w₁ w' : World} {t : Tenant} {fresh : Fresh} {tr tr' : List (Moment Services World)}
      {o : Except Error Action} (before : Attempts settings kept fails w tr w₁)
      (stored : w₁.tenant = some t)
      (goes : (reconcile settings fresh t).Goes (conduct kept fails) w₁ tr' o w')
      (quiet : ¬ WritesDeployed tr') : Attempts settings kept fails w (tr ++ tr') w'

/-- Attempts leave the recorded keys as they were, and the request unless one took it away. -/
theorem keys_of_attempts (hk : kept .store) (stored₀ : w₀.tenant = some t₀)
    (h : Attempts settings kept fails w₀ tr w) :
    ∃ t, w.tenant = some t ∧ t.spec.keys = t₀.spec.keys ∧ t.recorded.keys = t₀.recorded.keys ∧
      t.spec.requiresKeyUpdate = (t₀.spec.requiresKeyUpdate && !tr.any takesRequest) := by
  induction h generalizing t₀ with
  | none => exact ⟨t₀, stored₀, rfl, rfl, by simp⟩
  | more _ stored goes quiet ih =>
    obtain ⟨t₁, stored₁, spec₁, keys₁, request₁⟩ := ih stored₀
    obtain rfl := Option.some.inj (stored₁.symm.trans stored)
    obtain ⟨t', ht', tended, same⟩ := (pass_of_goes hk stored goes).same_applied quiet
    obtain ⟨t'', ht'', request⟩ := request_of_goes hk goes stored
    obtain rfl := Option.some.inj (ht'.symm.trans ht'')
    refine ⟨t', ht', tended.keys.trans spec₁, same.keys.trans keys₁, ?_⟩
    rw [request, request₁, List.any_append, Bool.not_or, Bool.and_assoc]

theorem keep_iff {uuid : String} {wanted : KeySettings} {recorded keys : KeyRecord} {rotate : Bool}
    (h : Ensured uuid wanted recorded rotate keys) :
    keys.keyName = some wanted.keyName ∧ keys.keyType = some wanted.keyType ↔
      rotate = true ∨ recorded.Serves wanted := by
  obtain ⟨_, hname, htype⟩ := h
  rw [hname, htype, KeyRecord.Serves, Option.some.injEq, Option.some.injEq]
  unfold keep
  cases rotate with
  | true => simp
  | false =>
    cases recorded.keyName with
    | none => simp
    | some name => simp

/-- The first pass that writes that a tenant is deployed, after a request for a key update and any number
of attempts before it, records the wanted key if no attempt had taken the request away, and else only if
the recorded key would do. -/
theorem key_adopted_iff (hk : kept .store) (stored₀ : w₀.tenant = some t₀)
    (enabled : t₀.spec.keys.enabled = true) (requested : t₀.spec.requiresKeyUpdate = true)
    (before : Attempts settings kept fails w₀ tr₀ w) (stored : w.tenant = some t)
    {o : Except Error Action} (h : (reconcile settings fresh t).Goes (conduct kept fails) w tr o w')
    (writes : WritesDeployed tr) :
    ∃ t', w'.tenant = some t' ∧
      (t'.recorded.keys.keyName = some t₀.spec.keys.keyName ∧
          t'.recorded.keys.keyType = some t₀.spec.keys.keyType ↔
        (∀ m ∈ tr₀, ¬ takesRequest m) ∨ t₀.recorded.keys.Serves t₀.spec.keys) := by
  obtain ⟨t₁, stored₁, spec, keys, request⟩ := keys_of_attempts hk stored₀ before
  obtain rfl := Option.some.inj (stored.symm.trans stored₁)
  rw [requested, Bool.true_and] at request
  cases pass_of_goes hk stored h with
  | idle quiet => exact absurd writes quiet
  | interrupted quiet => exact absurd writes quiet
  | uncleared quiet => exact absurd writes quiet
  | released quiet => exact absurd writes quiet
  | deployed _ _ _ _ middle _ ends =>
    obtain ⟨t', ht', _, recorded⟩ := ends
    refine ⟨t', ht', ?_⟩
    rcases keys_of_prepare middle with ⟨_, disabled⟩ | ensured
    · rw [spec, enabled] at disabled
      cases disabled
    · rw [recorded, ← spec, ← keys]
      refine (keep_iff ensured).trans (or_congr_left ?_)
      rw [request]
      simp

/-! ## A request that is kept and one that is lost -/

/-- A tenant whose recorded key is an old one and for which the new one is asked for; a child namespace
is not declared any more. -/
def renewing : Tenant :=
  let spec : Spec := {
    name := "blue"
    keys := { enabled := true, keyName := "new" }
    requiresKeyUpdate := true }
  { Stage.newTenant spec with
    status := some {
      phase := some .deployed
      uuid := some "1"
      children := ["blue-u"]
      keys := { domain := some "d", keyName := some "old", keyType := some "rsa-3072" }
      lastDeployed := some "then" } }

/-- The tenant, and a call that is to fail once. -/
def renewal (line : String) : Stage where
  world := { tenant := some renewing }
  faults := [Stage.outage line]

/-- The stage after the first pass. -/
def renewalTried (line : String) : Stage := (renewal line).pass {} ⟨"2", "now"⟩

theorem plain_renewal (line : String) : (renewal line).Plain Call.Unreachable := by
  intro f hf
  obtain rfl := List.mem_singleton.1 hf
  exact ⟨_, rfl, fun _ => ⟨_, _, rfl⟩⟩

theorem attempts_renewal {line : String}
    (quiet : ¬ WritesDeployed ((renewal line).passStory {} ⟨"2", "now"⟩)) :
    Attempts {} (fun _ => True) Call.Unreachable (renewal line).world
      ((renewal line).passStory {} ⟨"2", "now"⟩) (renewalTried line).world :=
  .more .none rfl (Stage.goes_pass (plain_renewal line) rfl) quiet

/-- The domain cannot be read at first, and the second pass records the new key. -/
theorem key_adopted_of_unread :
    ∃ t', ((renewalTried "vault.read sys/mounts/d").pass {} ⟨"3", "later"⟩).world.tenant = some t' ∧
      t'.recorded.keys.keyName = some "new" ∧ t'.recorded.keys.keyType = some "rsa-3072" := by
  obtain ⟨quiet, stored, writes, untaken⟩ :
      ¬ WritesDeployed ((renewal "vault.read sys/mounts/d").passStory {} ⟨"2", "now"⟩) ∧
        (renewalTried "vault.read sys/mounts/d").world.tenant =
          some (renewalTried "vault.read sys/mounts/d").tenant ∧
        WritesDeployed ((renewalTried "vault.read sys/mounts/d").passStory {} ⟨"3", "later"⟩) ∧
        ∀ m ∈ (renewal "vault.read sys/mounts/d").passStory {} ⟨"2", "now"⟩, ¬ takesRequest m := by
    decide +kernel
  have plain : (renewalTried "vault.read sys/mounts/d").Plain Call.Unreachable :=
    Stage.plain_pass (plain_renewal _) _
  obtain ⟨t', ht', adopted⟩ := key_adopted_iff trivial rfl rfl rfl (attempts_renewal quiet) stored
    (Stage.goes_pass plain stored) writes
  exact ⟨t', ht', adopted.2 (.inl untaken)⟩

/-- A request can be lost: the child namespace could not be deleted at first, when the request was taken
away already, and the second pass records the old key as that of a deployed tenant. -/
theorem request_lost :
    ∃ (w₀ w w' : World) (t₀ t t' : Tenant) (fresh : Fresh) (tr₀ tr : List (Moment Services World))
      (o : Except Error Action), w₀.tenant = some t₀ ∧ t₀.spec.keys.enabled = true ∧
      t₀.spec.requiresKeyUpdate = true ∧
      Attempts {} (fun _ => True) Call.Unreachable w₀ tr₀ w ∧ w.tenant = some t ∧
      (reconcile {} fresh t).Goes (conduct (fun _ => True) Call.Unreachable) w tr o w' ∧
      WritesDeployed tr ∧ w'.tenant = some t' ∧
      t'.recorded.keys.keyName ≠ some t₀.spec.keys.keyName := by
  obtain ⟨quiet, stored, writes, stored', key⟩ :
      ¬ WritesDeployed ((renewal "ns.delete_anchor blue/blue-u").passStory {} ⟨"2", "now"⟩) ∧
        (renewalTried "ns.delete_anchor blue/blue-u").world.tenant =
          some (renewalTried "ns.delete_anchor blue/blue-u").tenant ∧
        WritesDeployed ((renewalTried "ns.delete_anchor blue/blue-u").passStory {} ⟨"3", "later"⟩) ∧
        ((renewalTried "ns.delete_anchor blue/blue-u").pass {} ⟨"3", "later"⟩).world.tenant =
          some ((renewalTried "ns.delete_anchor blue/blue-u").pass {} ⟨"3", "later"⟩).tenant ∧
        ((renewalTried "ns.delete_anchor blue/blue-u").pass {} ⟨"3", "later"⟩).tenant.recorded.keys.keyName ≠
          some "new" := by
    decide +kernel
  have plain : (renewalTried "ns.delete_anchor blue/blue-u").Plain Call.Unreachable :=
    Stage.plain_pass (plain_renewal _) _
  exact ⟨_, _, _, _, _, _, _, _, _, _, rfl, rfl, rfl, attempts_renewal quiet, stored,
    Stage.goes_pass plain stored, writes, stored', key⟩

end Lifecycle

end Tenancy

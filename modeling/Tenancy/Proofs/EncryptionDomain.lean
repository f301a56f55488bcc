import Tenancy.Proofs.Domains
import Tenancy.Proofs.Runs

/-!
# What becomes of an encryption domain

A deploy pass makes the domain of a tenant in its middle and records it with its last write. A teardown
pass deletes the recorded domain, and the finalizer is released whether one is recorded or not. So a
domain outlives its tenant exactly if it was there when the deletion was requested and no deploy pass
had come to its end by then (`domain_gone_iff`).

The invariant of all runs is `KeysTracked`: whatever is in the engine that keeps keys belongs to the one
domain that the tenant's identifier gives the name to, and the domain is recorded from the first deploy
pass that came to its end.
-/

namespace Tenancy

open Rehearsal Rehearsal.World

namespace Lifecycle

open Encryption

variable {kept : BackingSystem → Prop} {settings : Settings} {fresh : Fresh} {t t' : Tenant}
  {recorded : Status} {w w' : World} {tr : List (Moment Services World)}

/-! ## Passes -/

/-- A deploy pass touches one domain only, and none if the tenant wants no keys. -/
theorem paths_of_prepare (hk : kept .vault) {o : Except Error (Option KeyRecord)} {d : String}
    (hd : recorded.keys.domain.getD (domainName (recorded.uuid.getD fresh.uuid)) = d)
    (h : (prepare settings fresh t recorded).Goes (conduct kept Call.FailsPlainly) w tr o w') (p : String)
    (hp : w'.HasPath p) : w.HasPath p ∨ (t.spec.keys.enabled = true ∧ BelongsTo p d) := by
  have asks : (prepare settings fresh t recorded).Asks fun c =>
      ∀ q : VaultCall, c = .vault q → t.spec.keys.enabled = true ∧ Ensures d q := by
    apply asks_prepare
    case keys =>
      intro enabled c hc c' he
      cases he
      exact ⟨enabled, hd ▸ hc⟩
    all_goals
      intros
      rename_i he
      cases he
  refine kept_of_calls h hk asks (P := fun w' =>
    ∀ p, w'.HasPath p → w.HasPath p ∨ (t.spec.keys.enabled = true ∧ BelongsTo p d)) ?_ ?_
    (fun _ => .inl) p hp
  · intro w₁ w₂ same hw₁ p hp
    exact hw₁ p ((hasPath_congr same).1 hp)
  · rintro c w₁ r w₂ ⟨enabled, ensures⟩ hr hw₁ p hp
    cases ensures with
    | look => exact hw₁ p ((hasPath_congr (readPath_cases hk hr)).1 hp)
    | lookKey => exact hw₁ p ((hasPath_congr (readPath_cases hk hr)).1 hp)
    | make hmem =>
      rcases writePath_cases hk hr hp with rfl | hp
      · exact .inr ⟨enabled, .inl hmem⟩
      · exact hw₁ p hp
    | takeBack => exact hw₁ p ((deletePath_cases hk hr).1 p hp)
    | key =>
      rcases writePath_cases hk hr hp with rfl | hp
      · exact .inr ⟨enabled, .inr ⟨_, rfl⟩⟩
      · exact hw₁ p hp

/-- The keys that a deploy pass came through with are those of the domain that it made sure of, or the
recorded ones if the tenant wants none. -/
theorem keys_of_prepare {σ : Type} {R : Conduct Services σ} {s s' : σ} {tr : List (Moment Services σ)}
    {keys : KeyRecord} (h : (prepare settings fresh t recorded).Goes R s tr (.ok (some keys)) s') :
    keys = recorded.keys ∧ t.spec.keys.enabled = false ∨
      Ensured (recorded.uuid.getD fresh.uuid) t.spec.keys recorded.keys t.spec.requiresKeyUpdate keys := by
  obtain ⟨_, _, _, _, _, _, _, _, _, _, others, _⟩ := prepare_ok h
  obtain ⟨_, _, _, _, _, _, _, _, hkeys, _⟩ := applyOthers_ok others
  rcases ensureKeys_ok hkeys with ⟨disabled, rfl⟩ | ⟨_, _, _, hdomain, _⟩
  · exact .inl ⟨rfl, disabled⟩
  · exact .inr (ensureDomain_ok hdomain)

/-- The keys that a deploy pass came through with have the domain, if the tenant wants keys. -/
theorem domain_of_prepare {σ : Type} {R : Conduct Services σ} {s s' : σ} {tr : List (Moment Services σ)}
    {keys : KeyRecord} (h : (prepare settings fresh t recorded).Goes R s tr (.ok (some keys)) s') :
    keys = recorded.keys ∧ t.spec.keys.enabled = false ∨
      keys.domain = some (recorded.keys.domain.getD (domainName (recorded.uuid.getD fresh.uuid))) :=
  (keys_of_prepare h).imp_right And.left

/-- A teardown pass only takes away, and nothing if no domain is recorded. -/
theorem paths_of_clear (hk : kept .vault) {o : Except Error Removal}
    (h : (clear settings t recorded).Goes (conduct kept Call.FailsPlainly) w tr o w') :
    (∀ p, w'.HasPath p → w.HasPath p) ∧
      (recorded.keys.domain = none → ∀ p, w.HasPath p → w'.HasPath p) := by
  have asks : (clear settings t recorded).Asks fun c => ∀ q : VaultCall, c = .vault q →
      (∃ p, q = .read p) ∨ (∃ p, q = .delete p) ∧ recorded.keys.domain ≠ none := by
    apply asks_clear
    case read =>
      intro d _ vc he
      cases he
      exact .inl ⟨_, rfl⟩
    case keys =>
      intro d hd p _ vc he
      cases he
      refine .inr ⟨⟨p, rfl⟩, ?_⟩
      rw [hd]
      exact nofun
    all_goals
      intros
      rename_i he
      cases he
  have same {w₁ w₂ : World} (hw : w₂.vault = w₁.vault) (h : (∀ p, w₁.HasPath p → w.HasPath p) ∧
      (recorded.keys.domain = none → ∀ p, w.HasPath p → w₁.HasPath p)) :
      (∀ p, w₂.HasPath p → w.HasPath p) ∧
        (recorded.keys.domain = none → ∀ p, w.HasPath p → w₂.HasPath p) := by
    refine ⟨fun p hp => h.1 p ((hasPath_congr hw).1 hp), fun hd p hp => ?_⟩
    exact (hasPath_congr hw).2 (h.2 hd p hp)
  refine kept_of_calls h hk asks (P := fun w' => (∀ p, w'.HasPath p → w.HasPath p) ∧
    (recorded.keys.domain = none → ∀ p, w.HasPath p → w'.HasPath p)) same ?_ ⟨fun _ => id, fun _ _ => id⟩
  rintro c w₁ r w₂ hc hr hw₁
  rcases hc with ⟨p, rfl⟩ | ⟨⟨p, rfl⟩, hd⟩
  · exact same (readPath_cases hk hr) hw₁
  · refine ⟨fun q hq => hw₁.1 q ((deletePath_cases hk hr).1 q hq), fun hd' => absurd hd' hd⟩

/-- A teardown pass that is not blocked has deleted the recorded domain. -/
theorem domain_of_clear (hk : kept .vault) {r : Removal}
    (h : (clear settings t recorded).Goes (conduct kept Call.FailsPlainly) w tr (.ok r) w')
    (unblocked : r ≠ .blocked) : ∀ d ∈ recorded.keys.domain, ∀ p ∈ domainPaths d, ¬ w'.HasPath p := by
  obtain ⟨_, _, _, _, h⟩ := clear_ok h unblocked
  obtain ⟨_, _, _, w₁, _, _, _, _, _, _, _, _, _, _, hdomain, hdispatch⟩ := clearOthers_ok h
  have hw : w'.vault = w₁.vault := sameFor_of_asks hdispatch hk (Dispatch.asks_dispatch fun _ => nofun)
  intro d hd p hp hpath
  exact (removeDomain_ok hk hdomain).2 d hd p hp ((hasPath_congr hw).1 hpath)

/-! ## Runs -/

/-- Whatever is in the engine that keeps keys belongs to the domain of the tenant, which is recorded
from the first complete deploy pass on. -/
structure KeysTracked (t : Tenant) (w : World) : Prop where
  owned : ∀ p, w.HasPath p → ∃ u, t.recorded.uuid = some u ∧ BelongsTo p (domainName u)
  recorded : ∀ d, t.recorded.keys.domain = some d →
    ∃ u, t.recorded.uuid = some u ∧ d = domainName u
  disabled : t.spec.keys.enabled = false → ∀ p, ¬ w.HasPath p
  applied : t.recorded.lastDeployed.isSome = true → t.spec.keys.enabled = true →
    t.recorded.keys.domain.isSome = true
  unapplied : t.recorded.lastDeployed = none → t.recorded.keys.domain = none
  unheld : t.hasFinalizer tenantFinalizer = false → t.deletionRequested = false → ∀ p, ¬ w.HasPath p
  released : t.hasFinalizer tenantFinalizer = false → t.recorded.lastDeployed.isSome = true → NoDomain w

theorem keysTracked_new (new : t.status = none) (empty : w.vault = []) : KeysTracked t w := by
  have hrec : t.recorded = {} := by simp [Tenant.recorded, new]
  have hnone (p : String) : ¬ w.HasPath p := by simp [HasPath, empty, Dict.contains]
  refine ⟨fun p hp => absurd hp (hnone p), ?_, fun _ => hnone, ?_, ?_, fun _ _ => hnone, ?_⟩
  all_goals rw [hrec]
  · intro d hd
    cases hd
  · intro deployed
    cases deployed
  · intro _
    rfl
  · intro _ deployed
    cases deployed

/-- What only takes away, and leaves of the record all that matters here, keeps the keys tracked; where
the finalizer is gone afterwards and was not before, no domain may be left of a tenant that was
deployed. -/
theorem KeysTracked.less (h : KeysTracked t w) (tended : t.Tended t')
    (held : t'.hasFinalizer tenantFinalizer = false → t.hasFinalizer tenantFinalizer = false ∨
      t.deletionRequested = true ∧ (t.recorded.lastDeployed.isSome = true → NoDomain w'))
    (uuid : t'.recorded.uuid = t.recorded.uuid) (keys : t'.recorded.keys = t.recorded.keys)
    (deployed : t'.recorded.lastDeployed = t.recorded.lastDeployed)
    (less : ∀ p, w'.HasPath p → w.HasPath p) : KeysTracked t' w' := by
  constructor
  · intro p hp
    rw [uuid]
    exact h.owned p (less p hp)
  · rw [uuid, keys]
    exact h.recorded
  · rw [tended.keys]
    exact fun hd p hp => h.disabled hd p (less p hp)
  · rw [tended.keys, keys, deployed]
    exact h.applied
  · rw [keys, deployed]
    exact h.unapplied
  · intro hf alive p hp
    rw [tended.deletionRequested] at alive
    rcases held hf with hf | ⟨requested, _⟩
    · exact h.unheld hf alive p (less p hp)
    · rw [alive] at requested
      cases requested
  · intro hf hd d p hp hp'
    rw [deployed] at hd
    rcases held hf with hf | ⟨_, gone⟩
    · exact h.released hf hd d p hp (less p hp')
    · exact gone hd d p hp hp'

theorem KeysTracked.congr (h : KeysTracked t w) (hw : w'.vault = w.vault) : KeysTracked t w' :=
  h.less (.refl t) .inl rfl rfl rfl fun _ hp => (hasPath_congr hw).1 hp

/-- Where the domain of a deploy pass comes from, it has the name that the identifier gives. -/
theorem KeysTracked.domain_eq (h : KeysTracked t w) :
    ((deployingStatus fresh t.recorded).keys.domain.getD
      (domainName ((deployingStatus fresh t.recorded).uuid.getD fresh.uuid))) =
        domainName (t.recorded.uuid.getD fresh.uuid) := by
  cases hd : t.recorded.keys.domain with
  | none => simp [deployingStatus, hd]
  | some d =>
    obtain ⟨u, hu, rfl⟩ := h.recorded d hd
    simp [deployingStatus, hd, hu]

/-- What a deploy pass made belongs to the domain of the tenant. -/
theorem KeysTracked.owned_of_prepare (hk : kept .vault) (h : KeysTracked t w)
    {o : Except Error (Option KeyRecord)}
    (middle : (prepare settings fresh t (deployingStatus fresh t.recorded)).Goes
      (conduct kept Call.FailsPlainly) w tr o w') (p : String) (hp : w'.HasPath p) :
    BelongsTo p (domainName (t.recorded.uuid.getD fresh.uuid)) ∧ t.spec.keys.enabled = true := by
  rcases paths_of_prepare hk h.domain_eq middle p hp with hp | ⟨enabled, hp⟩
  · obtain ⟨u, hu, hp'⟩ := h.owned p hp
    rw [hu]
    refine ⟨hp', ?_⟩
    by_cases enabled : t.spec.keys.enabled = true
    · exact enabled
    · exact absurd hp (h.disabled (by simpa using enabled) p)
  · exact ⟨hp, enabled⟩

/-- A deploy pass keeps the keys tracked, whether it came to its end or not. -/
theorem KeysTracked.of_prepare (hk : kept .vault) (h : KeysTracked t w) (tended : t.Tended t')
    (held : t'.hasFinalizer tenantFinalizer = true) {o : Except Error (Option KeyRecord)}
    (middle : (prepare settings fresh t (deployingStatus fresh t.recorded)).Goes
      (conduct kept Call.FailsPlainly) w tr o w')
    (uuid : t'.recorded.uuid = some (t.recorded.uuid.getD fresh.uuid))
    (recorded : ∀ d, t'.recorded.keys.domain = some d →
      d = domainName (t.recorded.uuid.getD fresh.uuid))
    (applied : t'.recorded.lastDeployed.isSome = true → t.spec.keys.enabled = true →
      t'.recorded.keys.domain.isSome = true)
    (unapplied : t'.recorded.lastDeployed = none → t'.recorded.keys.domain = none) :
    KeysTracked t' w' := by
  have owned := h.owned_of_prepare hk middle
  refine ⟨fun p hp => ⟨_, uuid, (owned p hp).1⟩, fun d hd => ⟨_, uuid, recorded d hd⟩, ?_, ?_, unapplied,
    fun hf => ?_, fun hf => ?_⟩
  · intro disabled p hp
    rw [tended.keys, (owned p hp).2] at disabled
    cases disabled
  · rw [tended.keys]
    exact applied
  · rw [held] at hf
    cases hf
  · rw [held] at hf
    cases hf

/-- A teardown pass that is not blocked leaves no domain of a tenant that was deployed. -/
theorem KeysTracked.noDomain_of_clear (hk : kept .vault) (h : KeysTracked t w) {r : Removal}
    (middle : (clear settings t (deletingStatus t.recorded)).Goes (conduct kept Call.FailsPlainly) w tr
      (.ok r) w') (unblocked : r ≠ .blocked) (deployed : t.recorded.lastDeployed.isSome = true) :
    NoDomain w' := by
  intro d p hp hpath
  have hbefore := (paths_of_clear hk middle).1 p hpath
  by_cases enabled : t.spec.keys.enabled = true
  · obtain ⟨d', hd'⟩ := Option.isSome_iff_exists.1 (h.applied deployed enabled)
    obtain ⟨u, hu, rfl⟩ := h.recorded d' hd'
    obtain ⟨u', hu', belongs⟩ := h.owned p hbefore
    obtain rfl : u = u' := Option.some.inj (hu.symm.trans hu')
    exact domain_of_clear hk middle unblocked _ hd' p (mem_domainPaths_of_belongsTo hp belongs) hpath
  · exact h.disabled (by simpa using enabled) p hbefore

theorem keysTracked_of_pass (hk : kept .vault)
    (h : Pass kept Call.FailsPlainly settings fresh t w tr w') (hw : KeysTracked t w) :
    ∃ t', w'.tenant = some t' ∧ KeysTracked t' w' := by
  cases h with
  | idle _ _ stored others =>
    obtain ⟨t', ht', ⟨tended, held⟩, hrec⟩ := stored
    refine ⟨t', ht', hw.less tended (fun hf => .inl (held.unheld hf)) ?_ ?_ ?_ ?_⟩
    · rw [hrec]
    · rw [hrec]
    · rw [hrec]
    · exact fun p hp => (hasPath_congr (others _ hk nofun)).1 hp
  | interrupted _ _ hasIt begun middle ended stored =>
    obtain ⟨t', ht', ⟨tended, held⟩, hrec⟩ := stored
    refine ⟨t', ht', .congr ?_ (ended _ hk nofun)⟩
    refine (hw.congr (begun _ hk nofun)).of_prepare hk tended (held _ hasIt) middle ?_ ?_ ?_ ?_
    · rw [hrec]
      rfl
    · intro d hd
      rw [hrec] at hd
      obtain ⟨u, hu, rfl⟩ := hw.recorded d hd
      rw [hu]
      rfl
    · rw [hrec]
      exact hw.applied
    · rw [hrec]
      exact hw.unapplied
  | deployed _ _ hasIt begun middle ended stored =>
    obtain ⟨t', ht', ⟨tended, held⟩, hrec⟩ := stored
    have hdomain := domain_of_prepare middle
    rw [hw.domain_eq] at hdomain
    refine ⟨t', ht', .congr ?_ (ended _ hk nofun)⟩
    refine (hw.congr (begun _ hk nofun)).of_prepare hk tended (held _ hasIt) middle ?_ ?_ ?_ ?_
    · rw [hrec]
      rfl
    · intro d hd
      rw [hrec] at hd
      have hd : _ = some d := hd
      rcases hdomain with ⟨hkeys, _⟩ | hdomain
      · obtain ⟨u, hu, rfl⟩ := hw.recorded d (hkeys ▸ hd)
        rw [hu]
        rfl
      · exact Option.some.inj (hd.symm.trans hdomain)
    · intro _ enabled
      rcases hdomain with ⟨_, disabled⟩ | hdomain
      · rw [enabled] at disabled
        cases disabled
      · rw [hrec, deployedStatus, hdomain]
        rfl
    · rw [hrec]
      exact nofun
  | uncleared _ _ _ begun middle ended stored =>
    obtain ⟨t', ht', ⟨tended, held⟩, hrec⟩ := stored
    refine ⟨t', ht', .congr ?_ (ended _ hk nofun)⟩
    refine (hw.congr (begun _ hk nofun)).less tended
      (fun hf => .inl (held.unheld hf)) ?_ ?_ ?_ (paths_of_clear hk middle).1
    · rw [hrec, deletingStatus]
    · rw [hrec, deletingStatus]
    · rw [hrec, deletingStatus]
  | released _ requested _ begun middle unblocked ended stored tended hrec =>
    have hw₁ := hw.congr (begun _ hk nofun)
    refine ⟨_, stored, .congr ?_ (ended _ hk nofun)⟩
    refine hw₁.less tended (fun _ => .inr ⟨requested, hw₁.noDomain_of_clear hk middle unblocked⟩) ?_ ?_ ?_
      (paths_of_clear hk middle).1
    · rw [hrec, deletingStatus]
    · rw [hrec, deletingStatus]
    · rw [hrec, deletingStatus]

/-- A request for deletion keeps the keys tracked. -/
theorem KeysTracked.requestDeletion (h : KeysTracked t w) (time : Instant) :
    KeysTracked (bump (t.requestDeletion time)) { w with tenant := some (bump (t.requestDeletion time)) } := by
  refine ⟨h.owned, h.recorded, h.disabled, h.applied, h.unapplied, fun _ alive => ?_, h.released⟩
  cases alive

/-- What a request for deletion finds of a tenant that never was deployed stays; what it finds not is
never made. -/
structure KeysLeft (w₀ : World) (t₀ t : Tenant) (w : World) : Prop where
  requested : t.deletionRequested = true
  deployed : t.recorded.lastDeployed = t₀.recorded.lastDeployed
  keys : t.recorded.keys = t₀.recorded.keys
  less : ∀ p, w.HasPath p → w₀.HasPath p
  more : t₀.recorded.keys.domain = none → ∀ p, w₀.HasPath p → w.HasPath p

theorem keysLeft_of_pass (hk : kept .vault) {w₀ : World} {t₀ : Tenant}
    (h : Pass kept Call.FailsPlainly settings fresh t w tr w') (hw : KeysLeft w₀ t₀ t w) :
    ∃ t', w'.tenant = some t' ∧ KeysLeft w₀ t₀ t' w' := by
  have dead {P : Prop} (alive : t.deletionRequested = false) : P := by
    rw [hw.requested] at alive
    cases alive
  have cleared {w₁ w₂ : World} {tr : List (Moment Services World)} {o : Except Error Removal} {t' : Tenant}
      (begun : OthersSame kept w w₁)
      (middle : (clear settings t (deletingStatus t.recorded)).Goes (conduct kept Call.FailsPlainly)
        w₁ tr o w₂)
      (ended : OthersSame kept w₂ w') (tended : t.Tended t')
      (hrec : t'.recorded = deletingStatus t.recorded) : KeysLeft w₀ t₀ t' w' := by
    have hv₁ := begun _ hk nofun
    have hv := ended _ hk nofun
    obtain ⟨less, more⟩ := paths_of_clear hk middle
    refine ⟨tended.deletionRequested.trans hw.requested, ?_, ?_, fun p hp => ?_, fun hd p hp => ?_⟩
    · rw [hrec]
      exact hw.deployed
    · rw [hrec]
      exact hw.keys
    · exact hw.less p ((hasPath_congr hv₁).1 (less p ((hasPath_congr hv).1 hp)))
    · have hnone : (deletingStatus t.recorded).keys.domain = none := by
        rw [deletingStatus, hw.keys]
        exact hd
      exact (hasPath_congr hv).2 (more hnone p ((hasPath_congr hv₁).2 (hw.more hd p hp)))
  cases h with
  | idle _ _ stored others =>
    obtain ⟨t', ht', ⟨tended, _⟩, hrec⟩ := stored
    have hv := others _ hk nofun
    refine ⟨t', ht', tended.deletionRequested.trans hw.requested, ?_, ?_, fun p hp => ?_, fun hd p hp => ?_⟩
    · rw [hrec]
      exact hw.deployed
    · rw [hrec]
      exact hw.keys
    · exact hw.less p ((hasPath_congr hv).1 hp)
    · exact (hasPath_congr hv).2 (hw.more hd p hp)
  | interrupted _ alive => exact dead alive
  | deployed _ alive => exact dead alive
  | uncleared _ _ _ begun middle ended stored =>
    obtain ⟨t', ht', ⟨tended, _⟩, hrec⟩ := stored
    exact ⟨t', ht', cleared begun middle ended tended hrec⟩
  | released _ _ _ begun middle _ ended stored tended hrec =>
    exact ⟨_, stored, cleared begun middle ended tended hrec⟩

/-- In a run over a fixed spec, from a new tenant and with nothing in the engine that keeps keys, no
domain is left when the finalizer has been released, if and only if, when the deletion was requested, a
deploy pass had come to its end or there was no domain. -/
theorem domain_gone_iff (hs : kept .store) (hk : kept .vault) {w₀ w₁ w : World} {t₀ t₁ t : Tenant}
    {time : Instant} (start : w₀.tenant = some t₀) (new : t₀.status = none) (empty : w₀.vault = [])
    (before : Run settings kept Call.FailsPlainly (fun _ _ => False) w₀ w₁)
    (stored₁ : w₁.tenant = some t₁)
    (after : Run settings kept Call.FailsPlainly (fun _ _ => False)
      { w₁ with tenant := some (bump (t₁.requestDeletion time)) } w)
    (stored : w.tenant = some t) (released : t.hasFinalizer tenantFinalizer = false) :
    NoDomain w ↔ t₁.recorded.lastDeployed.isSome = true ∨ NoDomain w₁ := by
  obtain ⟨_, ht₁, tracked₁⟩ := before.preserves hs (P := KeysTracked)
    (fun pass hP => keysTracked_of_pass hk pass hP) (fun edit _ => edit.elim)
    ⟨t₀, start, keysTracked_new new empty⟩
  obtain rfl := Option.some.inj (stored₁.symm.trans ht₁)
  obtain ⟨_, ht, tracked⟩ := after.preserves hs (P := KeysTracked)
    (fun pass hP => keysTracked_of_pass hk pass hP) (fun edit _ => edit.elim)
    ⟨_, rfl, tracked₁.requestDeletion time⟩
  obtain rfl := Option.some.inj (stored.symm.trans ht)
  obtain ⟨_, ht, left⟩ := after.preserves hs (P := KeysLeft w₁ t₁)
    (fun pass hP => keysLeft_of_pass hk pass hP) (fun edit _ => edit.elim)
    ⟨_, rfl, rfl, rfl, rfl, fun _ => id, fun _ _ => id⟩
  obtain rfl := Option.some.inj (stored.symm.trans ht)
  constructor
  · intro gone
    by_cases deployed : t₁.recorded.lastDeployed.isSome = true
    · exact .inl deployed
    · have hnone := tracked₁.unapplied (by simpa using deployed)
      exact .inr fun d p hp hpath => gone d p hp (left.more hnone p hpath)
  · rintro (deployed | gone)
    · refine tracked.released released ?_
      rw [left.deployed]
      exact deployed
    · exact fun d p hp hpath => gone d p hp (left.less p hpath)

def wantsKeys : Spec where
  name := "blue"
  keys := { enabled := true }

theorem domain_gone_of_takenDown : NoDomain (Stage.firstPass wantsKeys []).takenDown.world := by
  have plain := (Stage.plain_firstPass wantsKeys []).mono fun _ _ => Call.failsPlainly_of_unreachable
  obtain ⟨stored₁, deployed, stored, released⟩ :
      (Stage.firstPass wantsKeys []).world.tenant = some (Stage.firstPass wantsKeys []).tenant ∧
        (Stage.firstPass wantsKeys []).tenant.recorded.lastDeployed.isSome = true ∧
        (Stage.firstPass wantsKeys []).takenDown.world.tenant =
          some (Stage.firstPass wantsKeys []).takenDown.tenant ∧
        (Stage.firstPass wantsKeys []).takenDown.tenant.hasFinalizer tenantFinalizer = false := by
    decide +kernel
  have before : Run {} (fun _ => True) Call.FailsPlainly (fun _ _ => False) _ _ :=
    (Stage.run_firstPass wantsKeys []).weaken fun _ _ => Call.failsPlainly_of_unreachable
  exact (domain_gone_iff trivial trivial rfl rfl rfl before stored₁
    (Stage.run_takenDown plain stored₁) stored released).2 (.inl deployed)

/-- The key of a domain cannot be made at first. -/
def keyFails : List String := ["vault.write cray-tenant-*"]

/-- A domain can outlive its tenant: the pass that made it could not make the key, so it never recorded
the domain, and the next pass had only the deletion of the tenant to do. -/
theorem unrecorded_domain_stays :
    ∃ (w₀ w₁ w : World) (t₀ t₁ t : Tenant) (time : Instant),
      w₀.tenant = some t₀ ∧ t₀.status = none ∧ w₀.vault = [] ∧
      Run {} (fun _ => True) Call.Unreachable (fun _ _ => False) w₀ w₁ ∧ w₁.tenant = some t₁ ∧
      Run {} (fun _ => True) Call.Unreachable (fun _ _ => False)
        { w₁ with tenant := some (bump (t₁.requestDeletion time)) } w ∧
      w.tenant = some t ∧ t.hasFinalizer tenantFinalizer = false ∧ ¬ NoDomain w := by
  obtain ⟨stored₁, stored, released, there⟩ :
      (Stage.firstPass wantsKeys keyFails).world.tenant =
          some (Stage.firstPass wantsKeys keyFails).tenant ∧
        (Stage.firstPass wantsKeys keyFails).takenDown.world.tenant =
          some (Stage.firstPass wantsKeys keyFails).takenDown.tenant ∧
        (Stage.firstPass wantsKeys keyFails).takenDown.tenant.hasFinalizer tenantFinalizer = false ∧
        (Stage.firstPass wantsKeys keyFails).takenDown.world.HasPath (mountPath (domainName "1")) := by
    decide +kernel
  exact ⟨_, _, _, _, _, _, _, rfl, rfl, rfl, Stage.run_firstPass wantsKeys keyFails, stored₁,
    Stage.run_takenDown (Stage.plain_firstPass wantsKeys keyFails) stored₁, stored, released, fun gone =>
      gone (domainName "1") _ (by simp [domainPaths]) there⟩

end Lifecycle

end Tenancy

import Tenancy.Proofs.DeployedHardware
import Tenancy.Proofs.Namespaces

/-!
# What a teardown leaves

The last pass over a tenant deletes the collections that the tenant mentions, that is, those that it
declares and those that are recorded as applied, and the finalizer is released once it has done so. A
collection that a pass made for resources which were declared only for a while is recorded if that pass
came to its end, and else it is not mentioned any more: it outlives the tenant. Namespaces do not,
because the hierarchy holds a root namespace as long as there is a child in it.

`nothing_left_iff` puts the two together. Its invariants are `AnchorsTracked` for the namespaces,
`CollectionsHeld` for the collections before the deletion of the tenant is requested, and
`CollectionsLeft` for them after that.
-/

namespace Tenancy

open Rehearsal Rehearsal.World

/-- The tenant declares the collection, or it is recorded as applied. -/
def Tenant.Mentions (t : Tenant) (k : Kind) (n : String) : Prop :=
  n ∈ Collection.targets k t.spec.resources ∨ n ∈ Collection.targets k t.recorded.resources

namespace Rehearsal.World

def NoCollections (w : World) : Prop := ∀ k n, w.collection k n = none

/-- Nothing has happened to the collections but that some with these names are gone. -/
def Trimmed (names : Kind → String → Prop) (w w' : World) : Prop :=
  ∀ k n, w'.collection k n = w.collection k n ∨ names k n ∧ w'.collection k n = none

variable {kept : BackingSystem → Prop} {names : Kind → String → Prop} {w w' w'' : World}

theorem Trimmed.of_eq (h : w'.collections = w.collections) : Trimmed names w w' := by
  intro k n
  rw [collection_congr h]
  exact .inl rfl

theorem Trimmed.trans (h : Trimmed names w w') (h' : Trimmed names w' w'') : Trimmed names w w'' := by
  intro k n
  rcases h' k n with same | gone
  · rw [same]
    exact h k n
  · exact .inr gone

theorem NoCollections.trimmed (h : NoCollections w) (hw : Trimmed names w w') : NoCollections w' := by
  intro k n
  rcases hw k n with same | ⟨_, gone⟩
  · rw [same, h k n]
  · exact gone

theorem NoCollections.congr (h : NoCollections w) (hw : w'.collections = w.collections) :
    NoCollections w' := by
  intro k n
  rw [collection_congr hw]
  exact h k n

theorem noCollections_nil (h : w.collections = []) : NoCollections w := by
  intro k n
  rw [collection, h]
  rfl

theorem trimmed_of_delete (hk : kept .hardware) {k : Kind} {n : String} {r : Except Error Unit}
    (h : conduct kept Call.FailsPlainly (.hardware (.delete k n)) w r w') (hn : names k n) :
    Trimmed names w w' := by
  obtain ⟨other, ⟨_, own⟩ | ⟨_, _, hw', _⟩⟩ := delete_cases hk h
  · intro k' n'
    by_cases he : k' = k ∧ n' = n
    · obtain ⟨rfl, rfl⟩ := he
      exact .inr ⟨hn, own⟩
    · exact .inl (other k' n' fun hk' hn' => he ⟨hk', hn'⟩)
  · exact .of_eq hw'

end Rehearsal.World

namespace Lifecycle

open Hardware

variable {kept : BackingSystem → Prop} {settings : Settings} {fresh : Fresh} {t t₁ : Tenant}
  {w w' w₁ : World} {tr : List (Moment Services World)}

/-! ## Teardown passes -/

/-- Wherever a teardown pass ends, it has deleted nothing but collections that the tenant mentions. -/
theorem trimmed_of_clear (hk : kept .hardware) {o : Except Error Removal}
    (h : (clear settings t (deletingStatus t.recorded)).Goes (conduct kept Call.FailsPlainly) w tr o w') :
    Trimmed t.Mentions w w' := by
  have asks : (clear settings t (deletingStatus t.recorded)).Asks fun c =>
      ∀ q : HardwareCall, c = .hardware q → ∃ k n, q = .delete k n ∧ t.Mentions k n := by
    apply asks_clear
    case collections =>
      intro k n hn hc he
      cases he
      exact ⟨k, n, rfl, Collection.mem_namesOf.1 hn⟩
    all_goals
      intros
      rename_i he
      cases he
  refine kept_of_calls h hk asks (P := Trimmed t.Mentions w) ?_ ?_ (.of_eq rfl)
  · intro w₁ w₂ same hw₁
    exact hw₁.trans (.of_eq same)
  · rintro c w₁ r w₂ ⟨k, n, rfl, hn⟩ hr hw₁
    exact hw₁.trans (trimmed_of_delete hk hr hn)

/-- A teardown pass that is not blocked leaves no collection that the tenant mentions. -/
theorem mentioned_gone_of_clear (hk : kept .hardware) {r : Removal}
    (h : (clear settings t (deletingStatus t.recorded)).Goes (conduct kept Call.FailsPlainly) w tr
      (.ok r) w') (unblocked : r ≠ .blocked) {k : Kind} {n : String} (hn : t.Mentions k n) :
    w'.collection k n = none := by
  obtain ⟨_, _, _, _, h⟩ := clear_ok h unblocked
  obtain ⟨w₁, w₂, w₃, w₄, _, _, _, _, _, _, _, hpartitions, hgroups, hadmin, hkeys, hhooks⟩ :=
    clearOthers_ok h
  obtain ⟨partitions, _⟩ := removeCollections_ok hk hpartitions
  obtain ⟨groups, others⟩ := removeCollections_ok hk hgroups
  have hw' : w'.collections = w₂.collections := by
    have h₃ : w₃.collections = w₂.collections :=
      sameFor_of_asks hadmin hk (Identity.asks_removeAdmin fun _ => nofun)
    have h₄ : w₄.collections = w₃.collections :=
      sameFor_of_asks hkeys hk (Encryption.asks_removeDomain (fun _ _ => nofun) fun _ _ _ _ => nofun)
    have h₅ : w'.collections = w₄.collections :=
      sameFor_of_asks hhooks hk (Dispatch.asks_dispatch fun _ => nofun)
    rw [h₅, h₄, h₃]
  rw [collection_congr hw']
  have hn : n ∈ Collection.namesOf k [t.spec.resources, t.recorded.resources] :=
    Collection.mem_namesOf.2 hn
  cases k with
  | partition =>
    rw [others .partition n nofun]
    exact partitions n hn
  | group => exact groups n hn

/-! ## Runs -/

/-- Where there are collections, the finalizer is attached and the deletion of the tenant is not
requested yet. -/
def CollectionsHeld (t : Tenant) (w : World) : Prop :=
  t.hasFinalizer tenantFinalizer = false ∨ t.deletionRequested = true → NoCollections w

theorem collectionsHeld_of_pass (hk : kept .hardware)
    (h : Pass kept Call.FailsPlainly settings fresh t w tr w') (hw : CollectionsHeld t w) :
    ∃ t', w'.tenant = some t' ∧ CollectionsHeld t' w' := by
  have working {t' : Tenant} (alive : t.deletionRequested = false)
      (held : t.hasFinalizer tenantFinalizer = true) (tended : t.Tended t') (still : t.Held t') :
      CollectionsHeld t' w' := by
    rintro (unheld | requested)
    · rw [still _ held] at unheld
      cases unheld
    · rw [tended.deletionRequested, alive] at requested
      cases requested
  have clearing {w₁ w₂ : World} {tr : List (Moment Services World)} {o : Except Error Removal}
      (requested : t.deletionRequested = true) (begun : OthersSame kept w w₁)
      (middle : (clear settings t (deletingStatus t.recorded)).Goes (conduct kept Call.FailsPlainly)
        w₁ tr o w₂)
      (ended : OthersSame kept w₂ w') : NoCollections w' := by
    have h₁ : Trimmed t.Mentions w w₁ := .of_eq (begun _ hk nofun)
    have h₂ : Trimmed t.Mentions w₁ w₂ := trimmed_of_clear hk middle
    have h₃ : Trimmed t.Mentions w₂ w' := .of_eq (ended _ hk nofun)
    exact (hw (.inr requested)).trimmed ((h₁.trans h₂).trans h₃)
  cases h with
  | idle _ _ stored others =>
    obtain ⟨t', ht', ⟨tended, held⟩, _⟩ := stored
    refine ⟨t', ht', fun h => ?_⟩
    have empty : NoCollections w := by
      rcases h with unheld | requested
      · exact hw (.inl (held.unheld unheld))
      · exact hw (.inr (tended.deletionRequested ▸ requested))
    exact empty.congr (others _ hk nofun)
  | interrupted _ alive held _ _ _ stored =>
    obtain ⟨t', ht', ⟨tended, still⟩, _⟩ := stored
    exact ⟨t', ht', working alive held tended still⟩
  | deployed _ alive held _ _ _ stored =>
    obtain ⟨t', ht', ⟨tended, still⟩, _⟩ := stored
    exact ⟨t', ht', working alive held tended still⟩
  | uncleared _ requested _ begun middle ended stored =>
    obtain ⟨t', ht', _⟩ := stored
    exact ⟨t', ht', fun _ => clearing requested begun middle ended⟩
  | released _ requested _ begun middle _ ended stored =>
    exact ⟨_, stored, fun _ => clearing requested begun middle ended⟩

/-- After a request for deletion only collections go that the tenant mentioned then, and these are gone
when the finalizer is. -/
structure CollectionsLeft (t₁ : Tenant) (w₁ : World) (t : Tenant) (w : World) : Prop where
  requested : t.deletionRequested = true
  mentions : t.Mentions = t₁.Mentions
  trimmed : Trimmed t₁.Mentions w₁ w
  unheld : t.hasFinalizer tenantFinalizer = false → ∀ k n, t₁.Mentions k n → w.collection k n = none

theorem mentions_congr {t t' : Tenant} (declared : t'.spec.resources = t.spec.resources)
    (recorded : t'.recorded.resources = t.recorded.resources) : t'.Mentions = t.Mentions := by
  funext k n
  rw [Tenant.Mentions, declared, recorded, Tenant.Mentions]

theorem collectionsLeft_of_pass (hk : kept .hardware)
    (h : Pass kept Call.FailsPlainly settings fresh t w tr w') (hw : CollectionsLeft t₁ w₁ t w) :
    ∃ t', w'.tenant = some t' ∧ CollectionsLeft t₁ w₁ t' w' := by
  have same {w w' : World} (h : OthersSame kept w w') : w'.collections = w.collections := h _ hk nofun
  have cleared {w₂ w₃ : World} {tr : List (Moment Services World)} {o : Except Error Removal}
      (begun : OthersSame kept w w₂)
      (middle : (clear settings t (deletingStatus t.recorded)).Goes (conduct kept Call.FailsPlainly)
        w₂ tr o w₃)
      (ended : OthersSame kept w₃ w') : Trimmed t₁.Mentions w₁ w' := by
    have h₂ := hw.trimmed.trans (.of_eq (same begun))
    have h₃ := h₂.trans (hw.mentions ▸ trimmed_of_clear hk middle)
    exact h₃.trans (.of_eq (same ended))
  have dead {P : Prop} (alive : t.deletionRequested = false) : P := by
    rw [hw.requested] at alive
    cases alive
  cases h with
  | idle _ _ stored others =>
    obtain ⟨t', ht', ⟨tended, held⟩, hrec⟩ := stored
    refine ⟨t', ht', tended.deletionRequested.trans hw.requested, ?_, ?_, fun unheld k n hn => ?_⟩
    · rw [mentions_congr tended.resources (by rw [hrec]), hw.mentions]
    · exact hw.trimmed.trans (.of_eq (same others))
    · rw [collection_congr (same others)]
      exact hw.unheld (held.unheld unheld) k n hn
  | interrupted _ alive => exact dead alive
  | deployed _ alive => exact dead alive
  | uncleared _ _ held begun middle ended stored =>
    obtain ⟨t', ht', ⟨tended, still⟩, hrec⟩ := stored
    refine ⟨t', ht', tended.deletionRequested.trans hw.requested, ?_, cleared begun middle ended,
      fun unheld => ?_⟩
    · rw [mentions_congr tended.resources (by rw [hrec, deletingStatus]), hw.mentions]
    · rw [still _ held] at unheld
      cases unheld
  | released _ _ _ begun middle unblocked ended stored tended hrec =>
    refine ⟨_, stored, tended.deletionRequested.trans hw.requested, ?_, cleared begun middle ended,
      fun _ k n hn => ?_⟩
    · rw [mentions_congr tended.resources (by rw [hrec, deletingStatus]), hw.mentions]
    · rw [collection_congr (same ended)]
      exact mentioned_gone_of_clear hk middle unblocked (hw.mentions ▸ hn)

theorem collectionsHeld_of_declares {t' : Tenant} (h : t.Declares t') (hw : CollectionsHeld t w) :
    CollectionsHeld (bump t') { w with tenant := some (bump t') } := by
  obtain ⟨children, resources, rfl⟩ := h
  exact hw

theorem CollectionsHeld.requestDeletion (hw : CollectionsHeld t w) (time : Instant) :
    CollectionsLeft t w (bump (t.requestDeletion time))
      { w with tenant := some (bump (t.requestDeletion time)) } := by
  refine ⟨rfl, rfl, .of_eq rfl, fun unheld k n _ => ?_⟩
  exact hw (.inl unheld) k n

/-- Without the finalizer the collections are gone exactly if the tenant mentioned all of them when its
deletion was requested. -/
theorem CollectionsLeft.noCollections_iff (h : CollectionsLeft t₁ w₁ t w)
    (released : t.hasFinalizer tenantFinalizer = false) :
    NoCollections w ↔ ∀ k n, (w₁.collection k n).isSome = true → t₁.Mentions k n := by
  constructor
  · intro empty k n hsome
    rcases h.trimmed k n with same | ⟨hn, _⟩
    · rw [← same, empty k n] at hsome
      cases hsome
    · exact hn
  · intro mentioned k n
    by_cases hn : t₁.Mentions k n
    · exact h.unheld released k n hn
    · have absent : w₁.collection k n = none := by
        by_cases hsome : (w₁.collection k n).isSome = true
        · exact absurd (mentioned k n hsome) hn
        · simpa using hsome
      rcases h.trimmed k n with same | ⟨_, gone⟩
      · rw [same, absent]
      · exact gone

/-- While hardware is tracked, a tenant mentions all collections that there are. -/
theorem mentioned_of_hardwareTracked (hw : HardwareTracked t w) (alive : t.deletionRequested = false)
    {k : Kind} {n : String} (hn : (w.collection k n).isSome = true) : t.Mentions k n :=
  ((hw alive).1.known k n hn).symm

/-- In a run from a new tenant for which there is nothing, over whatever children and resources are
declared in its course, no anchor is left when the finalizer has been released, and no collection
exactly if the tenant mentioned all that there were when its deletion was requested. If resources were
declared only between deployments, none is left. -/
theorem nothing_left_iff (hs : kept .store) (hh : kept .hierarchy) (hk : kept .hardware)
    {w₀ : World} {t₀ : Tenant} {time : Instant} (start : w₀.tenant = some t₀) (new : t₀.status = none)
    (noAnchors : w₀.anchors = []) (noCollections : w₀.collections = [])
    (before : Run settings kept Call.FailsPlainly Tenant.Declares w₀ w₁)
    (stored₁ : w₁.tenant = some t₁)
    (after : Run settings kept Call.FailsPlainly (fun _ _ => False)
      { w₁ with tenant := some (bump (t₁.requestDeletion time)) } w)
    (stored : w.tenant = some t) (released : t.hasFinalizer tenantFinalizer = false) :
    w.anchors = [] ∧
      (NoCollections w ↔ ∀ k n, (w₁.collection k n).isSome = true → t₁.Mentions k n) ∧
      (Run settings kept Call.FailsPlainly Tenant.DeclaresBetween w₀ w₁ → NoCollections w) := by
  obtain ⟨_, ht₁, anchors₁⟩ := before.preserves hs (P := AnchorsTracked settings)
    (fun pass hP => anchorsTracked_of_pass hh pass hP)
    (fun edit hP => anchorsTracked_of_declares edit hP) ⟨t₀, start, anchorsTracked_nil noAnchors⟩
  obtain rfl := Option.some.inj (stored₁.symm.trans ht₁)
  obtain ⟨_, ht, anchors⟩ := after.preserves hs (P := AnchorsTracked settings)
    (fun pass hP => anchorsTracked_of_pass hh pass hP) (fun edit _ => edit.elim)
    ⟨_, rfl, anchors₁.requestDeletion time⟩
  obtain rfl := Option.some.inj (stored.symm.trans ht)
  obtain ⟨_, ht₁, held⟩ := before.preserves hs (P := CollectionsHeld)
    (fun pass hP => collectionsHeld_of_pass hk pass hP)
    (fun edit hP => collectionsHeld_of_declares edit hP)
    ⟨t₀, start, fun _ => noCollections_nil noCollections⟩
  obtain rfl := Option.some.inj (stored₁.symm.trans ht₁)
  obtain ⟨_, ht, left⟩ := after.preserves hs (P := CollectionsLeft t₁ w₁)
    (fun pass hP => collectionsLeft_of_pass hk pass hP) (fun edit _ => edit.elim)
    ⟨_, rfl, held.requestDeletion time⟩
  obtain rfl := Option.some.inj (stored.symm.trans ht)
  refine ⟨anchors.unheld released, left.noCollections_iff released, fun between => ?_⟩
  obtain ⟨_, ht₁, tracked⟩ := between.preserves hs (P := HardwareTracked)
    (fun pass hP => hardwareTracked_of_pass hk pass hP)
    (fun edit hP => hardwareTracked_of_edit edit hP) ⟨t₀, start, hardwareTracked_new new noCollections⟩
  obtain rfl := Option.some.inj (stored₁.symm.trans ht₁)
  refine (left.noCollections_iff released).2 fun k n hn => ?_
  -- the hardware is tracked only until a first request, but after one there is nothing to track
  by_cases requested : t₁.deletionRequested = true
  · rw [held (.inr requested) k n] at hn
    cases hn
  · exact mentioned_of_hardwareTracked tracked (by simpa using requested) hn

/-- A tenant with one partition is deployed, and then it is taken down. -/
theorem nothing_left_of_takenDown :
    (Stage.firstPass (Stage.onePartition ["x1"]) []).takenDown.world.anchors = [] ∧
      NoCollections (Stage.firstPass (Stage.onePartition ["x1"]) []).takenDown.world := by
  have plain := (Stage.plain_firstPass (Stage.onePartition ["x1"]) []).mono fun _ _ =>
    Call.failsPlainly_of_unreachable
  obtain ⟨stored₁, stored, released⟩ :
      (Stage.firstPass (Stage.onePartition ["x1"]) []).world.tenant =
          some (Stage.firstPass (Stage.onePartition ["x1"]) []).tenant ∧
        (Stage.firstPass (Stage.onePartition ["x1"]) []).takenDown.world.tenant =
          some (Stage.firstPass (Stage.onePartition ["x1"]) []).takenDown.tenant ∧
        (Stage.firstPass (Stage.onePartition ["x1"]) []).takenDown.tenant.hasFinalizer
          tenantFinalizer = false := by
    decide +kernel
  have before (edits : Tenant → Tenant → Prop) : Run {} (fun _ => True) Call.FailsPlainly edits _ _ :=
    (Stage.run_firstPass (Stage.onePartition ["x1"]) []).weaken fun _ _ =>
      Call.failsPlainly_of_unreachable
  obtain ⟨anchors, _, collections⟩ := nothing_left_iff trivial trivial trivial rfl rfl rfl rfl
    (before _) stored₁ (Stage.run_takenDown plain stored₁) stored released
  exact ⟨anchors, collections (before _)⟩

/-- The partition is made and filled, but the pass does not come to its end, and then no resources are
declared any more. -/
def partitionForgotten : Stage :=
  (Stage.firstPass (Stage.onePartition ["x1"]) ["id.find blue-tenant-admin"]).edit fun t =>
    { t with spec := { t.spec with resources := [] } }

/-- A collection can outlive its tenant: the pass that made it failed later on, so the collection was
never recorded, and nothing declared it any more when the deletion was requested. -/
theorem forgotten_collection_stays :
    ∃ (w₀ w₁ w : World) (t₀ t₁ t : Tenant) (time : Instant),
      w₀.tenant = some t₀ ∧ t₀.status = none ∧ w₀.anchors = [] ∧ w₀.collections = [] ∧
      Run {} (fun _ => True) Call.Unreachable Tenant.DeclaresResources w₀ w₁ ∧
      w₁.tenant = some t₁ ∧
      Run {} (fun _ => True) Call.Unreachable (fun _ _ => False)
        { w₁ with tenant := some (bump (t₁.requestDeletion time)) } w ∧
      w.tenant = some t ∧ t.hasFinalizer tenantFinalizer = false ∧ ¬ NoCollections w := by
  have plain := Stage.plain_firstPass (Stage.onePartition ["x1"]) ["id.find blue-tenant-admin"]
  have plain₁ : partitionForgotten.Plain Call.Unreachable := Stage.plain_edit plain _
  obtain ⟨stored₁, stored, released, there⟩ :
      partitionForgotten.world.tenant = some partitionForgotten.tenant ∧
        partitionForgotten.takenDown.world.tenant = some partitionForgotten.takenDown.tenant ∧
        partitionForgotten.takenDown.tenant.hasFinalizer tenantFinalizer = false ∧
        (partitionForgotten.takenDown.world.collection .partition "p-blue").isSome = true := by
    decide +kernel
  have before : Run {} (fun _ => True) Call.Unreachable Tenant.DeclaresResources _
      partitionForgotten.world :=
    (Stage.run_firstPass (Stage.onePartition ["x1"]) ["id.find blue-tenant-admin"]).trans
      (Stage.run_edit fun _ => ⟨_, rfl⟩)
  refine ⟨_, _, _, _, _, _, _, rfl, rfl, rfl, rfl, before, stored₁, Stage.run_takenDown plain₁ stored₁,
    stored, released, fun empty => ?_⟩
  rw [empty] at there
  cases there

end Lifecycle

end Tenancy

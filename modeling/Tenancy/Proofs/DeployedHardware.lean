import Tenancy.Proofs.Collections
import Tenancy.Proofs.Runs

/-!
# The hardware of a deployed tenant

A deploy pass never asks which members a collection has. It adds what is declared and not recorded as
applied, and removes what is recorded and not declared. So it reaches the declared members exactly from
where these two lists tell the truth about what is there (`Accounted`), and a pass that failed after it
changed some members can leave a collection of which they do not: what it did was for a declaration
that is not recorded, and the declaration may be another one by the next pass.

`deployed_members` says both. The invariant behind it is `Tracked`: what is there lies between what was
applied and what is declared. Every call that a pass may make keeps it (`tracked_of_moves`), and a pass
that comes to its end leaves exactly what is declared (`clean_of_converged`).
-/

namespace Tenancy

open Rehearsal Rehearsal.World

namespace Hardware

/-! ## What is there, what was applied and what is declared -/

/-- What was applied and what is declared account for the members of the declared collections: members
that both give are there, and none are there that neither gives. -/
def Accounted (desired observed : List Resource) (w : World) : Prop :=
  ∀ k, ∀ n ∈ Collection.targets k desired, ∀ m,
    (m ∈ Collection.membersFor k n observed → m ∈ Collection.membersFor k n desired →
      w.HasMember k n m) ∧
    (w.HasMember k n m →
      m ∈ Collection.membersFor k n observed ∨ m ∈ Collection.membersFor k n desired)

/-- What is there lies between what was applied and what is declared. -/
structure Tracked (desired observed : List Resource) (w : World) : Prop where
  known : ∀ k n, (w.collection k n).isSome = true →
    n ∈ Collection.targets k observed ∨ n ∈ Collection.targets k desired
  accounted : Accounted desired observed w

/-- What is there is what was applied. -/
structure Clean (applied : List Resource) (w : World) : Prop where
  known : ∀ k n, (w.collection k n).isSome = true → n ∈ Collection.targets k applied
  members : ∀ k n m, w.HasMember k n m ↔ m ∈ Collection.membersFor k n applied

def CollectionsThere (desired : List Resource) (w : World) : Prop :=
  ∀ k, ∀ n ∈ Collection.targets k desired, (w.collection k n).isSome = true

/-- The declared collections have the declared members and no others. -/
def MembersAsDeclared (desired : List Resource) (w : World) : Prop :=
  ∀ k, ∀ n ∈ Collection.targets k desired, ∀ m,
    w.HasMember k n m ↔ m ∈ Collection.membersFor k n desired

variable {desired observed : List Resource} {kept : BackingSystem → Prop} {w w' : World} {k : Kind}

theorem Tracked.congr (h : Tracked desired observed w) (hw : w'.collections = w.collections) :
    Tracked desired observed w' := by
  obtain ⟨known, accounted⟩ := h
  unfold Accounted HasMember at accounted
  rw [← collection_congr hw] at known accounted
  exact ⟨known, accounted⟩

theorem Clean.congr {applied : List Resource} (h : Clean applied w)
    (hw : w'.collections = w.collections) : Clean applied w' := by
  obtain ⟨known, members⟩ := h
  unfold HasMember at members
  rw [← collection_congr hw] at known members
  exact ⟨known, members⟩

/-- Whatever is declared next, what was applied accounts for what is there. -/
theorem Clean.tracked (h : Clean observed w) (desired : List Resource) : Tracked desired observed w := by
  refine ⟨fun k n hn => .inl (h.known k n hn), fun k n _ m => ⟨fun ho _ => ?_, fun hm => ?_⟩⟩
  · exact (h.members k n m).2 ho
  · exact .inl ((h.members k n m).1 hm)

theorem clean_nil (h : w.collections = []) : Clean [] w := by
  refine ⟨fun k n hn => ?_, fun k n m => ⟨fun hm => ?_, fun hm => ?_⟩⟩
  · simp [collection, h] at hn
  · obtain ⟨c, hc, _⟩ := hm
    simp [collection, h] at hc
  · obtain ⟨r, hr, _⟩ := Collection.mem_membersFor.1 hm
    cases hr

/-! ## One call -/

/-- A call about one collection keeps track of the others. -/
theorem Tracked.of_sameElse {n : String} (h : Tracked desired observed w) (other : SameElse k n w w')
    (known : (w'.collection k n).isSome = true →
      n ∈ Collection.targets k observed ∨ n ∈ Collection.targets k desired)
    (members : n ∈ Collection.targets k desired → ∀ m,
      (m ∈ Collection.membersFor k n observed → m ∈ Collection.membersFor k n desired →
        w'.HasMember k n m) ∧
      (w'.HasMember k n m →
        m ∈ Collection.membersFor k n observed ∨ m ∈ Collection.membersFor k n desired)) :
    Tracked desired observed w' := by
  refine ⟨fun k' n' hs => ?_, fun k' n' hn => ?_⟩
  · by_cases he : k' = k ∧ n' = n
    · obtain ⟨rfl, rfl⟩ := he
      exact known hs
    · rw [other k' n' fun hk' hn' => he ⟨hk', hn'⟩] at hs
      exact h.known k' n' hs
  · by_cases he : k' = k ∧ n' = n
    · obtain ⟨rfl, rfl⟩ := he
      exact members hn
    · have hsame := other k' n' fun hk' hn' => he ⟨hk', hn'⟩
      have hold := h.accounted k' n' hn
      unfold HasMember at hold ⊢
      rw [hsame]
      exact hold

/-- A call that moves collections from what was applied to what is declared keeps them tracked. -/
theorem tracked_of_moves (hk : kept .hardware) {tenant : String} {c : HardwareCall}
    (hc : Moves tenant k desired observed c)
    {r : Except Error (Call.hardware c).Reply}
    (h : conduct kept Call.FailsPlainly (.hardware c) w r w') (hw : Tracked desired observed w) :
    Tracked desired observed w' := by
  cases hc with
  | @retire n hn hd =>
    obtain ⟨other, ⟨_, own⟩ | ⟨e, _, hw', _⟩⟩ := delete_cases hk h
    · refine hw.of_sameElse other (fun hs => ?_) fun hn => absurd hn hd
      rw [own] at hs
      cases hs
    · exact hw.congr hw'
  | look hn => exact hw.congr (get_cases hk h).1
  | @make n hn =>
    obtain ⟨other, ⟨_, absent, own⟩ | ⟨e, _, hw', _⟩⟩ := create_cases hk h
    · refine hw.of_sameElse other (fun _ => .inr hn) fun _ m => ⟨fun ho hd => ?_, fun hm => ?_⟩
      · obtain ⟨c', hc', _⟩ := (hw.accounted k n hn m).1 ho hd
        cases absent.symm.trans hc'
      · obtain ⟨c', hc', hm⟩ := hm
        cases own.symm.trans hc'
        cases hm
    · exact hw.congr hw'
  | @drop n m hn ho hd =>
    obtain ⟨other, ⟨_, c, hs, own⟩ | ⟨e, _, hw', _⟩⟩ := remove_cases hk h
    · have members (m' : String) : w'.HasMember k n m' ↔ w.HasMember k n m' ∧ m' ≠ m := by
        simp [HasMember, own, hs]
      refine hw.of_sameElse other (fun _ => .inr hn) fun _ m' => ?_
      obtain ⟨there, given⟩ := hw.accounted k n hn m'
      rw [members]
      refine ⟨fun ho' hd' => ⟨there ho' hd', fun he => hd (he ▸ hd')⟩, fun hm => given hm.1⟩
    · exact hw.congr hw'
  | @put n m hn hd ho =>
    obtain ⟨other, ⟨_, c, hs, own⟩ | ⟨e, _, hw', _⟩⟩ := add_cases hk h
    · have members (m' : String) : w'.HasMember k n m' ↔ w.HasMember k n m' ∨ m' = m := by
        simp [HasMember, own, hs]
      refine hw.of_sameElse other (fun _ => .inr hn) fun _ m' => ?_
      obtain ⟨there, given⟩ := hw.accounted k n hn m'
      rw [members]
      refine ⟨fun ho' hd' => .inl (there ho' hd'), fun hm => ?_⟩
      rcases hm with hm | rfl
      · exact given hm
      · exact .inr hd
    · exact hw.congr hw'

/-! ## What converging leaves -/

/-- The members come out as declared exactly where they were accounted for. -/
theorem membersAsDeclared_iff (h : ∀ k, Converged k desired observed w w') :
    MembersAsDeclared desired w' ↔ Accounted desired observed w := by
  refine forall_congr' fun k => forall_congr' fun n => forall_congr' fun hn => forall_congr' fun m => ?_
  -- one member of one collection, in terms of where it was before and which of the lists give it
  rw [((h k).moved n hn).2 m]
  grind

theorem collectionsThere_of_converged (h : ∀ k, Converged k desired observed w w') :
    CollectionsThere desired w' := fun k n hn => ((h k).moved n hn).1

/-- Where all was tracked, there is afterwards what is declared and nothing else. -/
theorem clean_of_converged (h : ∀ k, Converged k desired observed w w')
    (hw : Tracked desired observed w) : Clean desired w' := by
  have known (k : Kind) (n : String) (hs : (w'.collection k n).isSome = true) :
      n ∈ Collection.targets k desired := by
    by_cases hd : n ∈ Collection.targets k desired
    · exact hd
    · by_cases ho : n ∈ Collection.targets k observed
      · rw [(h k).retired n ho hd] at hs
        cases hs
      · rw [(h k).untouched n hd ho] at hs
        exact (hw.known k n hs).resolve_left ho
  refine ⟨known, fun k n m => ⟨fun hm => ?_, fun hm => ?_⟩⟩
  · obtain ⟨c, hc, _⟩ := id hm
    exact ((membersAsDeclared_iff h).2 hw.accounted k n (known k n (by rw [hc]; rfl)) m).1 hm
  · exact ((membersAsDeclared_iff h).2 hw.accounted k n (mem_targets_of_member hm) m).2 hm

end Hardware

namespace Lifecycle

open Hardware

variable {kept : BackingSystem → Prop} {settings : Settings} {fresh : Fresh} {t : Tenant}
  {recorded : Status} {w w' : World} {tr : List (Moment Services World)}

/-! ## Deploy passes -/

/-- Wherever a deploy pass ends, what is there is tracked. -/
theorem tracked_of_prepare (hk : kept .hardware) {o : Except Error (Option KeyRecord)}
    (h : (prepare settings fresh t recorded).Goes (conduct kept Call.FailsPlainly) w tr o w')
    (hw : Tracked t.spec.resources t.recorded.resources w) :
    Tracked t.spec.resources t.recorded.resources w' := by
  refine kept_of_calls h hk prepare_asks_moves (P := Tracked t.spec.resources t.recorded.resources) ?_ ?_ hw
  · intro w w' same tracked
    exact tracked.congr same
  · rintro c w r w' ⟨k, moves⟩ hr tracked
    exact tracked_of_moves hk moves hr tracked

/-- A deploy pass that came through all systems has converged both kinds. -/
theorem converged_of_prepare (hk : kept .hardware) {keys : KeyRecord}
    (h : (prepare settings fresh t recorded).Goes (conduct kept Call.FailsPlainly) w tr
      (.ok (some keys)) w') (k : Kind) : Converged k t.spec.resources t.recorded.resources w w' := by
  obtain ⟨w₁, w₂, w₃, _, _, _, _, h₁, h₂, h₃, h₄, _⟩ := prepare_ok h
  have hw₁ : w₁.collections = w.collections :=
    sameFor_of_asks h₁ hk (asks_ensureNamespaces fun _ _ => nofun)
  have hw' : w'.collections = w₃.collections := by
    refine sameFor_of_asks h₄ hk (asks_applyOthers ?_ ?_ ?_ ?_ ?_)
    all_goals intros; nofun
  obtain ⟨partitions, others⟩ := converge_ok hk h₂
  obtain ⟨groups, others'⟩ := converge_ok hk h₃
  have hsame := collection_congr hw₁
  have hsame' := collection_congr hw'
  cases k with
  | partition =>
    refine partitions.congr (fun n => by rw [hsame]) fun n => ?_
    rw [hsame', others' .partition n nofun]
  | group =>
    refine groups.congr (fun n => ?_) fun n => by rw [hsame']
    rw [others .group n nofun, hsame]

/-! ## Runs -/

/-- While a tenant is not to be deleted, its hardware is tracked, and unless a deployment is under way
it is what was applied. -/
def HardwareTracked (t : Tenant) (w : World) : Prop :=
  t.deletionRequested = false →
    Tracked t.spec.resources t.recorded.resources w ∧
      (t.phase ≠ .deploying → Clean t.recorded.resources w)

theorem hardwareTracked_new (new : t.status = none) (empty : w.collections = []) :
    HardwareTracked t w := by
  have hr : t.recorded.resources = [] := by simp [Tenant.recorded, new]
  intro _
  rw [hr]
  exact ⟨(clean_nil empty).tracked _, fun _ => clean_nil empty⟩

theorem hardwareTracked_of_pass (hk : kept .hardware)
    (h : Pass kept Call.FailsPlainly settings fresh t w tr w') (hw : HardwareTracked t w) :
    ∃ t', w'.tenant = some t' ∧ HardwareTracked t' w' := by
  refine tracksHardware_of_pass hk (fun same tracked => tracked.congr same)
    (fun same clean => clean.congr same) (tracked_of_prepare hk) (fun middle tracked => ?_) h hw
  have clean := clean_of_converged (converged_of_prepare hk middle) tracked
  exact ⟨clean.tracked _, clean⟩

/-- An edit between deployments keeps the hardware tracked, whatever is declared from then on. -/
theorem hardwareTracked_of_edit {t' : Tenant} (h : t.DeclaresBetween t') (hw : HardwareTracked t w) :
    HardwareTracked (bump t') { w with tenant := some (bump t') } := by
  obtain ⟨⟨children, resources, rfl⟩, between⟩ := h
  intro alive
  obtain ⟨tracked, clean⟩ := hw alive
  refine ⟨?_, fun hp => (clean hp).congr rfl⟩
  by_cases hp : t.phase = .deploying
  · have hres : resources = t.spec.resources := between hp
    subst hres
    exact tracked.congr rfl
  · exact ((clean hp).tracked resources).congr rfl

/-- When a pass writes that the tenant is deployed, all declared collections are there, and they have
the declared members exactly if what was applied and what is declared accounted for their members
before the pass. In a run from a new tenant without hardware in which resources are declared only
between deployments, that is always so. -/
theorem deployed_members (hs : kept .store) (hk : kept .hardware) (hw : w.tenant = some t)
    {o : Except Error Action}
    (h : (reconcile settings fresh t).Goes (conduct kept Call.FailsPlainly) w tr o w')
    (deployed : WritesDeployed tr) :
    CollectionsThere t.spec.resources w' ∧
      (MembersAsDeclared t.spec.resources w' ↔ Accounted t.spec.resources t.recorded.resources w) ∧
      ∀ w₀ t₀, w₀.tenant = some t₀ → t₀.status = none → w₀.collections = [] →
        Run settings kept Call.FailsPlainly Tenant.DeclaresBetween w₀ w →
          MembersAsDeclared t.spec.resources w' := by
  have hpass := pass_of_goes hs hw h
  obtain ⟨alive, converged⟩ : t.deletionRequested = false ∧
      ∀ k, Converged k t.spec.resources t.recorded.resources w w' := by
    cases hpass with
    | deployed _ alive _ begun middle ended _ =>
      have hw₁ := collection_congr (begun _ hk nofun)
      have hw' := collection_congr (ended _ hk nofun)
      refine ⟨alive, fun k => (converged_of_prepare hk middle k).congr (fun n => ?_) fun n => ?_⟩
      · rw [hw₁]
      · rw [hw']
    | idle quiet => exact absurd deployed quiet
    | interrupted quiet => exact absurd deployed quiet
    | uncleared quiet => exact absurd deployed quiet
    | released quiet => exact absurd deployed quiet
  refine ⟨collectionsThere_of_converged converged, membersAsDeclared_iff converged, ?_⟩
  intro w₀ t₀ ht₀ new empty run
  obtain ⟨t', ht', tracked⟩ := run.preserves hs (P := HardwareTracked)
    (fun pass hP => hardwareTracked_of_pass hk pass hP)
    (fun edit hP => hardwareTracked_of_edit edit hP) ⟨t₀, ht₀, hardwareTracked_new new empty⟩
  obtain rfl := Option.some.inj (hw.symm.trans ht')
  exact (membersAsDeclared_iff converged).2 (tracked alive).1.accounted

/-- The first pass over a new tenant with two nodes, nothing failing. -/
theorem deployed_members_of_twoNodes :
    CollectionsThere (Stage.onePartition ["x1", "x2"]).resources
        ((Stage.start (Stage.onePartition ["x1", "x2"]) []).pass {} default).world ∧
      MembersAsDeclared (Stage.onePartition ["x1", "x2"]).resources
        ((Stage.start (Stage.onePartition ["x1", "x2"]) []).pass {} default).world := by
  have plain : (Stage.start (Stage.onePartition ["x1", "x2"]) []).Plain Call.FailsPlainly :=
    (Stage.plain_start _ _).mono fun _ _ => Call.failsPlainly_of_unreachable
  have goes : (reconcile {} default (Stage.newTenant (Stage.onePartition ["x1", "x2"]))).Goes
      (conduct (fun _ => True) Call.FailsPlainly) _ _ _ _ := Stage.goes_perform plain _
  obtain ⟨there, _, members⟩ := deployed_members trivial trivial rfl goes (by decide +kernel)
  exact ⟨there, members _ _ rfl rfl rfl .refl⟩

/-- The second node of the half filled partition is declared alone. -/
def secondAlone : Stage :=
  (Stage.halfFilled.pass {} default).edit fun t =>
    { t with spec := { t.spec with resources := (Stage.onePartition ["x2"]).resources } }

/-- The members need not be the declared ones: after the pass over the half filled partition, the first
node is not declared any more, but it was never recorded as applied, so it stays. -/
theorem halfFilled_member_stays :
    ∃ (w₀ w w' : World) (t₀ t : Tenant) (o : Except Error Action) (tr : List (Moment Services World)),
      w₀.tenant = some t₀ ∧ t₀.status = none ∧ w₀.collections = [] ∧
      Run {} (fun _ => True) Call.Unreachable Tenant.DeclaresResources w₀ w ∧ w.tenant = some t ∧
      (reconcile {} default t).Goes (conduct (fun _ => True) Call.Unreachable) w tr o w' ∧
      WritesDeployed tr ∧ ¬ MembersAsDeclared t.spec.resources w' := by
  have plain₀ : Stage.halfFilled.Plain Call.Unreachable := Stage.plain_start _ _
  have plain : secondAlone.Plain Call.Unreachable := Stage.plain_edit (Stage.plain_pass plain₀ _) _
  have run : Run {} (fun _ => True) Call.Unreachable Tenant.DeclaresResources
      Stage.halfFilled.world secondAlone.world :=
    (Stage.run_pass plain₀ default).trans (Stage.run_edit fun _ => ⟨_, rfl⟩)
  refine ⟨_, _, _, _, secondAlone.tenant, _, _, rfl, rfl, rfl, run, by decide +kernel,
    Stage.goes_perform plain _, by decide +kernel, fun members => ?_⟩
  have there : (Stage.perform (reconcile {} default secondAlone.tenant)
      secondAlone).2.world.HasMember .partition "p-blue" "x1" := by decide +kernel
  have declared := (members .partition "p-blue" (by decide +kernel) "x1").1 there
  revert declared
  decide +kernel

end Lifecycle

end Tenancy

import Tenancy.Proofs.Collections

/-!
# The markers of groups

A group is given its marker in the call that makes it, and no call writes the marker of a group that is
there. So the marker that a declared group has after its members were moved was decided before: it is
the one that the group had, or the declared one if there was no group (`WillBeMarked`). `MarkersKept` is
what one call leaves of this, and `markedGroup_of_converged` what it comes to.
-/

namespace Tenancy

open Rehearsal Rehearsal.World

namespace Rehearsal.World

/-- There is a group with this name, and it carries the marker of the groups of tenants. -/
def MarkedGroup (w : World) (g : String) : Prop :=
  ∃ c, w.collection .group g = some c ∧ c.isTenantExclusive = true

instance (w : World) (g : String) : Decidable (w.MarkedGroup g) :=
  decidable_of_iff ((w.collection .group g).any Collection.isTenantExclusive) <| by
    cases hc : w.collection .group g <;> simp [MarkedGroup, hc]

end Rehearsal.World

namespace Collection

theorem exclusiveFor_iff {k : Kind} {n : String} {rs : List Resource} :
    exclusiveFor k n rs = true ↔ ∃ r ∈ rs, k.target? r = some n ∧ r.exclusive = true := by
  simp [exclusiveFor, targeting]

theorem mem_targets_of_exclusive {k : Kind} {n : String} {rs : List Resource}
    (h : exclusiveFor k n rs = true) : n ∈ targets k rs := by
  obtain ⟨r, hr, ht, _⟩ := exclusiveFor_iff.1 h
  exact mem_targets.2 ⟨r, hr, ht⟩

theorem isTenantExclusive_forPlan {tenant : String} {desired observed : List Resource} {n : String} :
    (forPlan tenant .group (planFor .group desired observed n)).isTenantExclusive =
      exclusiveFor .group n desired := by
  show ((if _ then _ else _ : Option String) == _) = _
  cases h : exclusiveFor .group n desired <;> simp [planFor, h]

end Collection

namespace Hardware

variable {desired observed : List Resource} {start w w' : World} {k : Kind} {g : String}

/-- The group carries the marker, or it is not there and will be made with one. -/
def WillBeMarked (desired : List Resource) (w : World) (g : String) : Prop :=
  w.MarkedGroup g ∨ (w.collection .group g = none ∧ Collection.exclusiveFor .group g desired = true)

theorem willBeMarked_iff {c : Collection} (hc : w.collection .group g = some c) :
    WillBeMarked desired w g ↔ c.isTenantExclusive = true := by
  simp [WillBeMarked, MarkedGroup, hc]

theorem WillBeMarked.congr (hw : w'.collections = w.collections) :
    WillBeMarked desired w' g ↔ WillBeMarked desired w g := by
  simp only [WillBeMarked, MarkedGroup, collection_congr hw]

/-! ## One call -/

/-- No declared group has gone, each is marked if it was to be, and no other group was made. -/
structure MarkersKept (desired : List Resource) (start w : World) : Prop where
  there : ∀ g ∈ Collection.targets .group desired,
    (start.collection .group g).isSome = true → (w.collection .group g).isSome = true
  marked : ∀ g ∈ Collection.targets .group desired, ∀ c, w.collection .group g = some c →
    (c.isTenantExclusive = true ↔ WillBeMarked desired start g)
  unmade : ∀ g, g ∉ Collection.targets .group desired →
    (w.collection .group g).isSome = true → (start.collection .group g).isSome = true

theorem MarkersKept.refl (desired : List Resource) (w : World) : MarkersKept desired w w :=
  ⟨fun _ _ h => h, fun _ _ _ hc => (willBeMarked_iff hc).symm, fun _ _ h => h⟩

theorem MarkersKept.congr (h : MarkersKept desired start w) (hw : w'.collections = w.collections) :
    MarkersKept desired start w' := by
  obtain ⟨there, marked, unmade⟩ := h
  rw [← collection_congr hw] at there marked unmade
  exact ⟨there, marked, unmade⟩

/-- Only the group that a call is about need be looked at. -/
theorem MarkersKept.of_sameElse {n : String} (h : MarkersKept desired start w)
    (other : SameElse k n w w')
    (declared : k = .group → n ∈ Collection.targets .group desired →
      ∃ c, w'.collection .group n = some c ∧ (c.isTenantExclusive = true ↔ WillBeMarked desired start n))
    (undeclared : k = .group → n ∉ Collection.targets .group desired →
      w'.collection .group n = none) : MarkersKept desired start w' := by
  have same (g : String) (hg : ¬ (k = .group ∧ g = n)) :
      w'.collection .group g = w.collection .group g := other .group g fun hk hn => hg ⟨hk.symm, hn⟩
  refine ⟨fun g hg hs => ?_, fun g hg c hc => ?_, fun g hg hs => ?_⟩
  all_goals by_cases hn : k = .group ∧ g = n
  · obtain ⟨hk, rfl⟩ := hn
    obtain ⟨c, hc, _⟩ := declared hk hg
    rw [hc]
    rfl
  · rw [same g hn]
    exact h.there g hg hs
  · obtain ⟨hk, rfl⟩ := hn
    obtain ⟨c', hc', marked⟩ := declared hk hg
    obtain rfl := Option.some.inj (hc.symm.trans hc')
    exact marked
  · rw [same g hn] at hc
    exact h.marked g hg c hc
  · obtain ⟨hk, rfl⟩ := hn
    rw [undeclared hk hg] at hs
    cases hs
  · rw [same g hn] at hs
    exact h.unmade g hg hs

variable {kept : BackingSystem → Prop} {tr : List (Moment Services World)}

/-- A call that moves collections from what was applied to what is declared keeps the markers. -/
theorem markersKept_of_moves (hk : kept .hardware) {tenant : String} {c : HardwareCall}
    (hc : Moves tenant k desired observed c) {r : Except Error (Call.hardware c).Reply}
    (h : conduct kept Call.FailsPlainly (.hardware c) w r w') (hw : MarkersKept desired start w) :
    MarkersKept desired start w' := by
  -- other members are given to a group that is there
  have members {n : String} {c : Collection} (hs : w.collection k n = some c) (ms : List String)
      (own : w'.collection k n = some { c with members := ms }) (hn : n ∈ Collection.targets k desired)
      (other : SameElse k n w w') : MarkersKept desired start w' := by
    refine hw.of_sameElse other (fun hg hn => ?_) fun hg hd => ?_
    · subst hg
      exact ⟨_, own, hw.marked n hn c hs⟩
    · subst hg
      exact absurd hn hd
  cases hc with
  | @retire n _ hd =>
    obtain ⟨other, ⟨_, own⟩ | ⟨e, _, hw', _⟩⟩ := delete_cases hk h
    · refine hw.of_sameElse other (fun hg hn => ?_) fun hg _ => ?_
      · subst hg
        exact absurd hn hd
      · subst hg
        exact own
    · exact hw.congr hw'
  | look hn => exact hw.congr (get_cases hk h).1
  | @make n hn =>
    obtain ⟨other, ⟨_, absent, own⟩ | ⟨e, _, hw', _⟩⟩ := create_cases hk h
    · refine hw.of_sameElse (n := n) other (fun hg hn => ?_) fun hg hd => ?_
      · subst hg
        have absent : w.collection .group n = none := absent
        have gone : start.collection .group n = none := by
          cases hs : start.collection .group n with
          | none => rfl
          | some c =>
            have there := hw.there n hn (by rw [hs]; rfl)
            rw [absent] at there
            cases there
        refine ⟨_, own, ?_⟩
        rw [Collection.isTenantExclusive_forPlan]
        simp [WillBeMarked, MarkedGroup, gone]
      · subst hg
        exact absurd hn hd
    · exact hw.congr hw'
  | @drop n m hn ho hd =>
    obtain ⟨other, ⟨_, c, hs, own⟩ | ⟨e, _, hw', _⟩⟩ := remove_cases hk h
    · exact members hs _ own hn other
    · exact hw.congr hw'
  | @put n m hn hd ho =>
    obtain ⟨other, ⟨_, c, hs, own⟩ | ⟨e, _, hw', _⟩⟩ := add_cases hk h
    · exact members hs _ own hn other
    · exact hw.congr hw'

/-! ## Converging -/

/-- A job that makes no calls to the hardware service but such ones keeps the markers. -/
theorem markersKept_of_asks (hk : kept .hardware) {α : Type} {j : Job α} {o : Except Error α}
    {tenant : String} (h : j.Goes (conduct kept Call.FailsPlainly) w tr o w')
    (asks : j.Asks fun c => ∀ q : HardwareCall, c = .hardware q →
      ∃ k, Moves tenant k desired observed q) : MarkersKept desired w w' := by
  refine kept_of_calls h hk asks (P := MarkersKept desired w) ?_ ?_ (.refl _ _)
  · intro w₁ w₂ same markers
    exact markers.congr same
  · rintro c w₁ r w₂ ⟨k, moves⟩ hr markers
    exact markersKept_of_moves hk moves hr markers

theorem markersKept_of_converge (hk : kept .hardware) {tenant : String} {o : Except Error Unit}
    (h : (converge tenant k desired observed).Goes (conduct kept Call.FailsPlainly) w tr o w') :
    MarkersKept desired w w' := by
  have asks : (converge tenant k desired observed).Asks fun c =>
      ∀ q : HardwareCall, c = .hardware q → ∃ k, Moves tenant k desired observed q := by
    refine asks_converge ?_
    rintro c moves q he
    cases he
    exact ⟨k, moves⟩
  exact markersKept_of_asks hk h asks

/-- A declared group is marked after converging exactly if it was to be. -/
theorem markedGroup_of_converged (markers : MarkersKept desired w w')
    (h : Converged .group desired observed w w') (hg : g ∈ Collection.targets .group desired) :
    w'.MarkedGroup g ↔ WillBeMarked desired w g := by
  obtain ⟨c, hc⟩ := Option.isSome_iff_exists.1 (h.moved g hg).1
  rw [← markers.marked g hg c hc]
  simp [MarkedGroup, hc]

end Hardware

end Tenancy

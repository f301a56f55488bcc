import Tenancy.Proofs.HardwareRetries
import Tenancy.Proofs.Markers

/-!
# What convergence comes to

Collections are moved from what was last applied to what is declared without a look at their members, so
what comes out depends on what the service held. When no call fails, every declared collection has the
members that it had, without those that were applied and are not declared, and with those that are declared
and were not applied (`Effect.members`). A node that someone else put into a collection stays there unless it
was applied once, and one that someone else took out stays out if it was applied already. All other
attributes are those from before, or those that a new collection is made with.

Here the declaration is read resource by resource: `Kind.Declares` and `Kind.Places` say what the resources
of a list ask for, whatever is computed from them. A list that is echoed by another one asks for nothing that
the other does not ask for (`Resource.Echoed`).
-/

namespace Tenancy

open Rehearsal Rehearsal.World

namespace Kind

/-- Some resource targets the collection. -/
def Declares (k : Kind) (rs : List Resource) (n : String) : Prop := ∃ r ∈ rs, k.target? r = some n

/-- Some resource that targets the collection has the node. -/
def Places (k : Kind) (rs : List Resource) (n m : String) : Prop :=
  ∃ r ∈ rs, k.target? r = some n ∧ m ∈ r.members

/-- The collection is to be exclusive: only groups can be, and some resource that targets it asks for it. -/
def Excludes (k : Kind) (rs : List Resource) (n : String) : Prop :=
  k = .group ∧ ∃ r ∈ rs, k.target? r = some n ∧ r.exclusive = true

end Kind

namespace Resource

variable {k : Kind} {r s u : Resource} {a b c rs : List Resource}

/-- The resources ask for the same where collections of a kind are concerned. -/
structure Echoes (k : Kind) (r s : Resource) : Prop where
  target : k.target? r = k.target? s
  members : ∀ m, m ∈ r.members ↔ m ∈ s.members
  exclusive : r.exclusive = s.exclusive

theorem Echoes.refl (k : Kind) (r : Resource) : r.Echoes k r := ⟨rfl, fun _ => .rfl, rfl⟩

theorem Echoes.symm (h : r.Echoes k s) : s.Echoes k r := ⟨h.target.symm, fun m => (h.members m).symm, h.exclusive.symm⟩

theorem Echoes.trans (h : r.Echoes k s) (h' : s.Echoes k u) : r.Echoes k u :=
  ⟨h.target.trans h'.target, fun m => (h.members m).trans (h'.members m), h.exclusive.trans h'.exclusive⟩

/-- What a resource of the first list asks for, one of the second asks for as well. -/
def Echoed (k : Kind) (a b : List Resource) : Prop := ∀ r ∈ a, ∃ s ∈ b, r.Echoes k s

theorem Echoed.of_subset (h : a ⊆ b) : Echoed k a b := fun r hr => ⟨r, h hr, .refl k r⟩

theorem Echoed.cons (h : r.Echoes k s) : Echoed k (r :: rs) (s :: rs) := by
  intro x hx
  rcases List.mem_cons.1 hx with rfl | hx
  · exact ⟨s, List.mem_cons_self, h⟩
  · exact ⟨x, List.mem_cons_of_mem _ hx, .refl k x⟩

theorem Echoed.trans (h : Echoed k a b) (h' : Echoed k b c) : Echoed k a c := by
  intro r hr
  obtain ⟨s, hs, hrs⟩ := h r hr
  obtain ⟨u, hu, hsu⟩ := h' s hs
  exact ⟨u, hu, hrs.trans hsu⟩

end Resource

namespace Kind

variable {k : Kind} {a b : List Resource} {n m : String}

theorem Declares.of_echoed (same : Resource.Echoed k a b) (h : k.Declares a n) : k.Declares b n := by
  obtain ⟨r, hr, target⟩ := h
  obtain ⟨s, hs, hrs⟩ := same r hr
  exact ⟨s, hs, hrs.target ▸ target⟩

theorem Places.of_echoed (same : Resource.Echoed k a b) (h : k.Places a n m) : k.Places b n m := by
  obtain ⟨r, hr, target, hm⟩ := h
  obtain ⟨s, hs, hrs⟩ := same r hr
  exact ⟨s, hs, hrs.target ▸ target, (hrs.members m).1 hm⟩

end Kind

namespace Collection

variable {tenant : String} {k : Kind} {desired observed : List Resource} {n : String}

theorem marker_forPlan_of_excludes (h : k.Excludes desired n) :
    (forPlan tenant k (planFor k desired observed n)).marker = some exclusiveMarker := by
  obtain ⟨rfl, exclusive⟩ := h
  have wanted : exclusiveFor .group n desired = true := exclusiveFor_iff.2 exclusive
  simp [forPlan, planFor, wanted]

theorem marker_forPlan_of_not_excludes (h : ¬ k.Excludes desired n) :
    (forPlan tenant k (planFor k desired observed n)).marker = none := by
  have unwanted : ¬ (k = .group ∧ exclusiveFor k n desired = true) := fun ⟨hk, he⟩ =>
    h ⟨hk, exclusiveFor_iff.1 he⟩
  simpa [forPlan, planFor] using unwanted

end Collection

namespace Hardware

/-- What has become of the collections when those of a kind were moved and no call failed. -/
structure Effect (tenant : String) (k : Kind) (desired observed : List Resource) (w w' : World) : Prop where
  retired : ∀ n, k.Declares observed n → ¬ k.Declares desired n → w'.collection k n = none
  members : ∀ n, k.Declares desired n → ∃ c, w'.collection k n = some c ∧ ∀ m, m ∈ c.members ↔
    (w.HasMember k n m ∧ ¬ (k.Places observed n m ∧ ¬ k.Places desired n m)) ∨
      (k.Places desired n m ∧ ¬ k.Places observed n m)
  kept : ∀ n c c', k.Declares desired n → w.collection k n = some c → w'.collection k n = some c' →
    c'.name = c.name ∧ c'.description = c.description ∧ c'.tags = c.tags ∧ c'.marker = c.marker
  made : ∀ n c', k.Declares desired n → w.collection k n = none → w'.collection k n = some c' →
    c'.name = n ∧ c'.description = k.name ++ " for tenant " ++ tenant ∧ c'.tags = [tenant] ∧
      (k.Excludes desired n → c'.marker = some Collection.exclusiveMarker) ∧
      (¬ k.Excludes desired n → c'.marker = none)
  untouched : ∀ k' n, (k' = k → ¬ k.Declares desired n ∧ ¬ k.Declares observed n) →
    w'.collection k' n = w.collection k' n

variable {tenant : String} {k : Kind} {desired observed : List Resource} {n : String}
  {w w' : World}

/-- When no call fails, the run is one that moves collections only, and so leaves each of them on its way. -/
theorem attempted_of_after {o : Except Error Unit}
    (h : w.after (converge tenant k desired observed) = (o, w')) (k' : Kind) (n : String) :
    Attempted tenant k' desired observed n w w' := by
  obtain ⟨_, goes⟩ := steady_of_after h
  refine Attempted.of_goes (asks_converge fun c moves q hq => ?_) goes (fun k n => .refl tenant k _ _ n w) k' n
  cases hq
  exact ⟨k, moves⟩

theorem Converged.members_iff (h : Converged k desired observed w w') (hn : k.Declares desired n) :
    ∃ c, w'.collection k n = some c ∧ ∀ m, m ∈ c.members ↔
      (w.HasMember k n m ∧ ¬ (k.Places observed n m ∧ ¬ k.Places desired n m)) ∨
        (k.Places desired n m ∧ ¬ k.Places observed n m) := by
  obtain ⟨there, members⟩ := h.moved n (Collection.mem_targets.2 hn)
  obtain ⟨c, hc⟩ := Option.isSome_iff_exists.1 there
  refine ⟨c, hc, fun m => ?_⟩
  have held : w'.HasMember k n m ↔ m ∈ c.members := by simp [HasMember, hc]
  rw [← held, members m, Collection.mem_membersFor, Collection.mem_membersFor]
  rfl

/-- The attributes that a collection has apart from its members are those of the collection that was there, or
those that a new one is made with. -/
theorem Attempted.bare_eq {c' : Collection} (h : Attempted tenant k desired observed n w w')
    (hn : k.Declares desired n) (hc' : w'.collection k n = some c') :
    c'.bare = ((w.collection k n).getD
      (Collection.forPlan tenant k (Collection.planFor k desired observed n))).bare :=
  h.attributes (Collection.mem_targets.2 hn) c' hc'

theorem attributes_of_bare_eq {c c' : Collection} (h : c'.bare = c.bare) :
    c'.name = c.name ∧ c'.description = c.description ∧ c'.tags = c.tags ∧ c'.marker = c.marker := by
  cases c
  cases c'
  simpa [Collection.bare] using h

/-- Whatever the service held, and whatever was applied before: to converge comes to its end, retired
collections are gone, declared ones are there with exactly these members, and all else is as it was. -/
theorem exact_effect (w : World) (tenant : String) (k : Kind) (desired observed : List Resource) :
    ∃ w', w.after (converge tenant k desired observed) = (.ok (), w') ∧
      Effect tenant k desired observed w w' := by
  obtain ⟨w', done⟩ := after_converge w tenant k desired observed
  obtain ⟨_, goes⟩ := goes_of_after done
  obtain ⟨converged, others⟩ := converge_ok trivial goes
  refine ⟨w', done, ?_⟩
  constructor
  case retired =>
    intro n ho hd
    exact converged.retired n (Collection.mem_targets.2 ho) fun hn => hd (Collection.mem_targets.1 hn)
  case members => exact fun n hn => converged.members_iff hn
  case kept =>
    intro n c c' hn hc hc'
    have bare := (attempted_of_after done k n).bare_eq hn hc'
    rw [hc] at bare
    exact attributes_of_bare_eq bare
  case made =>
    intro n c' hn absent hc'
    have bare := (attempted_of_after done k n).bare_eq hn hc'
    rw [absent] at bare
    obtain ⟨name, description, tags, marker⟩ := attributes_of_bare_eq bare
    exact ⟨name, description, tags, fun he => marker.trans (Collection.marker_forPlan_of_excludes he),
      fun he => marker.trans (Collection.marker_forPlan_of_not_excludes he)⟩
  case untouched =>
    intro k' n hn
    by_cases hk : k' = k
    · subst hk
      obtain ⟨hd, ho⟩ := hn rfl
      exact converged.untouched n (fun h => hd (Collection.mem_targets.1 h))
        fun h => ho (Collection.mem_targets.1 h)
    · exact others k' n hk

end Hardware

end Tenancy

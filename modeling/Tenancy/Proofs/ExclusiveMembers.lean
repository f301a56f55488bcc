import Tenancy.Proofs.Admissions
import Tenancy.Proofs.Markers
import Tenancy.Proofs.Stages

/-!
# The members of exclusive groups

The members of a group that carries the marker may be in no other group that does. Admission compares the
members of every exclusive resource with the groups that there are. It compares nothing with the other
resources of the declaration, and not the members of resources that are not exclusive themselves; but a
group is made exclusive for all of its members if one of the resources that target it is.

`InMarked` after a tenant was filled in is put in terms of what was there and what is declared by
`inMarked_of_converged`. What admission has ruled out is one of the four ways in which a node can come to
be in two marked groups (`not_inMarked_of_admitted`), and `DeclaresApart` the two that are left open.
-/

namespace Tenancy

open Rehearsal Rehearsal.World

namespace Hardware

variable {rs : List Resource} {w w₁ w' : World} {g m : String}

/-- A node is in a group, and the group carries the marker. -/
def InMarked (w : World) (g m : String) : Prop := w.MarkedGroup g ∧ w.HasMember .group g m

instance (w : World) (g m : String) : Decidable (InMarked w g m) :=
  inferInstanceAs (Decidable (_ ∧ _))

/-- A node is in two groups that carry the marker. -/
def DoublyMarked (w : World) (m : String) : Prop := ∃ g g', g ≠ g' ∧ InMarked w g m ∧ InMarked w g' m

/-- Every group is kept under its own name. -/
def GroupsNamed (w : World) : Prop := ∀ g c, w.collection .group g = some c → c.name = g

/-- No node is declared for two groups that will carry the marker, and none that a resource without
exclusivity puts into such a group is in another one already. -/
structure DeclaresApart (rs : List Resource) (w : World) : Prop where
  among : ∀ m g g', g ≠ g' → m ∈ Collection.membersFor .group g rs →
    m ∈ Collection.membersFor .group g' rs → WillBeMarked rs w g → ¬ WillBeMarked rs w g'
  beside : ∀ r ∈ rs, r.exclusive = false → ∀ g, Kind.group.target? r = some g → WillBeMarked rs w g →
    ∀ m ∈ r.members, ∀ g', g' ≠ g → ¬ InMarked w g' m

theorem WillBeMarked.inMarked (h : WillBeMarked rs w g) (hm : w.HasMember .group g m) :
    InMarked w g m := by
  obtain ⟨c, hc, _⟩ := id hm
  exact ⟨⟨c, hc, (willBeMarked_iff hc).1 h⟩, hm⟩

theorem mem_groups_of_collection {c : Collection} (h : w.collection .group g = some c) : c ∈ w.groups := by
  obtain ⟨⟨key, c'⟩, hp, rfl⟩ := Option.map_eq_some_iff.1 h
  have hkey : key = collectionKey .group g := by simpa using List.find?_some hp
  have prefixed : (Text.dropStart? "group ".toList key.toList).isSome = true := by
    have hl : key.toList = "group ".toList ++ g.toList := by
      rw [hkey, collectionKey, String.toList_append]
      rfl
    rw [hl, Text.dropStart?_append]
    rfl
  exact List.mem_map.2 ⟨_, List.mem_filter.2 ⟨List.mem_of_find?_eq_some hp, prefixed⟩, rfl⟩

/-! ## What converging comes to -/

/-- After a tenant of which nothing was applied was filled in, a node is in a marked group exactly if the
group was to be marked and the node was in it or is declared for it. -/
theorem inMarked_of_converged (markers : MarkersKept rs w w') (h : Converged .group rs [] w w') :
    InMarked w' g m ↔
      WillBeMarked rs w g ∧ (w.HasMember .group g m ∨ m ∈ Collection.membersFor .group g rs) := by
  by_cases hg : g ∈ Collection.targets .group rs
  · have none : m ∉ Collection.membersFor .group g [] := by simp [Collection.mem_membersFor]
    rw [InMarked, markedGroup_of_converged markers h hg, (h.moved g hg).2 m]
    simp [none]
  · have undeclared : Collection.exclusiveFor .group g rs = false :=
      Bool.eq_false_iff.2 fun he => hg (Collection.mem_targets_of_exclusive he)
    have unmembered : m ∉ Collection.membersFor .group g rs := fun hm => hg (mem_targets_of_member hm)
    have same := h.untouched g hg (by simp [Collection.mem_targets])
    simp [InMarked, MarkedGroup, HasMember, WillBeMarked, same, undeclared, unmembered]

end Hardware

namespace Admission

open Hardware

variable {kept : BackingSystem → Prop} {fails : Call → Error → Prop} {w w₁ w' : World}
  {tr tr' : List (Moment Services World)} {t : Tenant}

/-- A member that an admitted tenant declares for a group that will be marked is in no other marked
group, unless it is declared by a resource without exclusivity. -/
theorem not_inMarked_of_admitted (hk : kept .hardware) (named : GroupsNamed w)
    (accepted : (validateCreate t).Goes (conduct kept fails) w tr (.ok ()) w₁) {r : Resource}
    (hr : r ∈ t.spec.resources) (he : r.exclusive = true) {g g' m : String}
    (hg : Kind.group.target? r = some g) (hm : m ∈ r.members) (hne : g' ≠ g) : ¬ InMarked w g' m := by
  rintro ⟨⟨c, hc, marked⟩, c', hc', hmc⟩
  obtain rfl := Option.some.inj (hc.symm.trans hc')
  obtain ⟨tr', problems⟩ := validateCreate_ok accepted
  obtain ⟨_, unshared⟩ := unshared_of_accepted hk problems
  have other : c.name ≠ g := by
    rw [named g' c hc]
    exact hne
  exact unshared r hr he g hg m hm c (mem_groups_of_collection hc) other marked hmc

/-! ## Admissions on stages -/

/-- A hardware service that keeps one group. -/
def hall (c : Collection) : Stage where
  world := { collections := Dict.insert [] (collectionKey .group c.name) c }

theorem collection_hall {c c' : Collection} {g : String}
    (h : (hall c).world.collection .group g = some c') : g = c.name ∧ c' = c := by
  obtain ⟨own, other⟩ := collection_insert {} .group c.name c
  by_cases hg : g = c.name
  · subst hg
    exact ⟨rfl, Option.some.inj (h.symm.trans own)⟩
  · have none : (hall c).world.collection .group g = none := other .group g fun _ => hg
    rw [none] at h
    cases h

theorem groupsNamed_hall (c : Collection) : GroupsNamed (hall c).world := by
  intro g c' h
  obtain ⟨rfl, rfl⟩ := collection_hall h
  rfl

theorem not_doublyMarked_hall (c : Collection) (m : String) : ¬ DoublyMarked (hall c).world m := by
  rintro ⟨g, g', hne, ⟨⟨_, hg, _⟩, _⟩, ⟨_, hg', _⟩, _⟩
  exact hne ((collection_hall hg).1.trans (collection_hall hg').1.symm)

theorem plain_hall (c : Collection) : (hall c).Plain fails := fun f hf => by cases hf

def checked (t : Tenant) (s : Stage) : Stage := (Stage.perform (validateCreate t) s).2

theorem plain_checked {s : Stage} (hs : s.Plain fails) (t : Tenant) : (checked t s).Plain fails :=
  Stage.plain_perform hs _

/-- A stage after the groups of a tenant were filled in on it. -/
def filledIn (t : Tenant) (s : Stage) : Stage :=
  (Stage.perform (converge t.name .group t.spec.resources []) s).2

/-- An exclusive group of another tenant. -/
def taken : Collection where
  name := "c"
  members := ["x9"]
  marker := some Collection.exclusiveMarker

/-- A class with one node and an exclusive group for it. -/
def exclusively (label group : String) : Resource where
  label := label
  members := ["x1"]
  group := group
  exclusive := true

def declaring (rs : List Resource) : Tenant := Stage.newTenant { name := "blue", resources := rs }

/-- When an admitted tenant is filled in where no node was in two marked groups, no node that it declares
is in two of them afterwards exactly if it declares its nodes apart. -/
theorem exclusive_members_iff (hk : kept .hardware) (named : GroupsNamed w)
    (single : ∀ m, ¬ DoublyMarked w m)
    (accepted : (validateCreate t).Goes (conduct kept Call.FailsPlainly) w tr (.ok ()) w₁)
    (filled : (converge t.name .group t.spec.resources []).Goes (conduct kept Call.FailsPlainly) w₁ tr'
      (.ok ()) w') :
    (∀ r ∈ t.spec.resources, ∀ m ∈ r.members, ¬ DoublyMarked w' m) ↔
      DeclaresApart t.spec.resources w := by
  obtain ⟨_, problems⟩ := validateCreate_ok accepted
  obtain ⟨same, _⟩ := unshared_of_accepted hk problems
  have markers := markersKept_of_converge hk filled
  obtain ⟨converged, _⟩ := converge_ok hk filled
  have after (g m : String) : InMarked w' g m ↔ WillBeMarked t.spec.resources w g ∧
      (w.HasMember .group g m ∨ m ∈ Collection.membersFor .group g t.spec.resources) := by
    rw [inMarked_of_converged markers converged, WillBeMarked.congr same]
    simp only [HasMember, collection_congr same]
  constructor
  · intro apart
    refine ⟨fun m g g' hne hm hm' hg hg' => ?_, fun r hr _ g ht hg m hm g' hne marked => ?_⟩
    · obtain ⟨r, hr, _, hmr⟩ := Collection.mem_membersFor.1 hm
      exact apart r hr m hmr ⟨g, g', hne, (after g m).2 ⟨hg, .inr hm⟩, (after g' m).2 ⟨hg', .inr hm'⟩⟩
    · have declared : m ∈ Collection.membersFor .group g t.spec.resources :=
        Collection.mem_membersFor.2 ⟨r, hr, ht, hm⟩
      exact apart r hr m hm ⟨g', g, hne, (after g' m).2 ⟨.inl marked.1, .inl marked.2⟩,
        (after g m).2 ⟨hg, .inr declared⟩⟩
  · rintro ⟨among, beside⟩ _ _ m _ ⟨g, g', hne, hg, hg'⟩
    -- a node that was there and is declared elsewhere
    have mixed {g g' : String} (hne : g' ≠ g) (hg : WillBeMarked t.spec.resources w g)
        (hm : m ∈ Collection.membersFor .group g t.spec.resources) : ¬ InMarked w g' m := by
      obtain ⟨r, hr, ht, hmr⟩ := Collection.mem_membersFor.1 hm
      cases he : r.exclusive with
      | false => exact beside r hr he g ht hg m hmr g' hne
      | true => exact not_inMarked_of_admitted hk named accepted hr he ht hmr hne
    obtain ⟨hg, there | declared⟩ := (after g m).1 hg
    · obtain ⟨hg', there' | declared'⟩ := (after g' m).1 hg'
      · exact single m ⟨g, g', hne, hg.inMarked there, hg'.inMarked there'⟩
      · exact mixed hne hg' declared' (hg.inMarked there)
    · obtain ⟨hg', there' | declared'⟩ := (after g' m).1 hg'
      · exact mixed (Ne.symm hne) hg declared (hg'.inMarked there')
      · exact among m g g' hne declared declared' hg hg'

/-- One node in one group, beside a group of another tenant. -/
theorem exclusive_members_beside_taken :
    ¬ DoublyMarked (filledIn (declaring [exclusively "io" "a"])
      (checked (declaring [exclusively "io" "a"]) (hall taken))).world "x1" := by
  have plain : (checked (declaring [exclusively "io" "a"]) (hall taken)).Plain Call.FailsPlainly :=
    plain_checked (plain_hall taken) _
  have accepted : (validateCreate (declaring [exclusively "io" "a"])).Goes
      (conduct (fun _ => True) Call.FailsPlainly) (hall taken).world _ (.ok ()) _ :=
    Stage.goes_perform (plain_hall taken) _
  have filled : (converge "blue" .group [exclusively "io" "a"] []).Goes
      (conduct (fun _ => True) Call.FailsPlainly) _ _ (.ok ()) _ := Stage.goes_perform plain _
  have apart : DeclaresApart [exclusively "io" "a"] (hall taken).world := by
    have only {g m : String} (hm : m ∈ Collection.membersFor .group g [exclusively "io" "a"]) :
        some "a" = some g := by
      obtain ⟨r, hr, ht, _⟩ := Collection.mem_membersFor.1 hm
      obtain rfl := List.mem_singleton.1 hr
      exact ht
    refine ⟨fun m g g' hne hm hm' _ _ => ?_, fun r hr he => ?_⟩
    · exact hne (Option.some.inj ((only hm).symm.trans (only hm')))
    · obtain rfl := List.mem_singleton.1 hr
      cases he
  have members := exclusive_members_iff trivial (groupsNamed_hall taken) (not_doublyMarked_hall taken)
    accepted filled
  exact members.2 apart (exclusively "io" "a") (by decide) "x1" (by decide)

/-- A declaration may put a node into two exclusive groups of its own: each of its resources is compared
with the groups that there are, and neither group is there yet. -/
theorem doublyMarked_of_declared_twice :
    ∃ (w w₁ w' : World) (t : Tenant) (tr tr' : List (Moment Services World)),
      GroupsNamed w ∧ (∀ m, ¬ DoublyMarked w m) ∧
      (validateCreate t).Goes (conduct (fun _ => True) fun _ _ => False) w tr (.ok ()) w₁ ∧
      (converge t.name .group t.spec.resources []).Goes (conduct (fun _ => True) fun _ _ => False) w₁ tr'
        (.ok ()) w' ∧
      ∃ r ∈ t.spec.resources, ∃ m ∈ r.members, DoublyMarked w' m := by
  have doubly : DoublyMarked (filledIn (declaring [exclusively "io" "a", exclusively "net" "b"])
      (checked (declaring [exclusively "io" "a", exclusively "net" "b"]) (hall taken))).world "x1" :=
    ⟨"a", "b", by decide, by decide +kernel, by decide +kernel⟩
  exact ⟨_, _, _, declaring [exclusively "io" "a", exclusively "net" "b"], _, _, groupsNamed_hall taken,
    not_doublyMarked_hall taken, Stage.goes_perform (plain_hall taken) _,
    Stage.goes_perform (plain_checked (plain_hall taken) _) _, exclusively "io" "a", by decide, "x1",
    by decide, doubly⟩

end Admission

end Tenancy

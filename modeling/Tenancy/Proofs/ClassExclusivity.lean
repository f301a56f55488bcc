import Tenancy.Proofs.Checks
import Tenancy.Proofs.Markers

/-!
# Exclusivity by class and by group

Admission compares the exclusivity of a class with that of the first resource of the class in what was
applied. What the hardware service marks are groups, and a group is exclusive if some resource that targets
it is. So an accepted change may give exclusivity to a group by a class that was first applied elsewhere
(`Gains`), and take it by leaving the group to classes that are not exclusive (`Loses`); a group that does
neither is as exclusive as it was, and one that keeps its classes does neither if no class was applied both
ways (`class_exclusivity`). What was applied itself is refused exactly if some class was.
-/

namespace Tenancy.Admission

open Rehearsal
open Collection (exclusiveFor exclusiveFor_iff)

variable {σ : Type} {R : Conduct Services σ} {s s' : σ} {tr : List (Moment Services σ)}
  {recorded declared : List Resource} {g : String}

/-! ## Classes -/

/-- The resource that admission looks at for what was applied of a class. -/
def firstOf (recorded : List Resource) (label : String) : Option Resource :=
  recorded.find? fun a => a.label = label

/-- Whatever was applied of a class that is declared was applied with the same exclusivity. -/
def ClassesKept (recorded declared : List Resource) : Prop :=
  ∀ r ∈ declared, ∀ a, firstOf recorded r.label = some a → a.exclusive = r.exclusive

/-- No class is exclusive in one resource and not in another. -/
def Unmixed (rs : List Resource) : Prop :=
  ∀ a ∈ rs, ∀ b ∈ rs, a.label = b.label → a.exclusive = b.exclusive

/-- The same classes are declared for a group as were applied in it. -/
def SameClasses (recorded declared : List Resource) (g : String) : Prop :=
  ∀ label, (∃ r ∈ declared, r.label = label ∧ Kind.group.target? r = some g) ↔
    ∃ a ∈ recorded, a.label = label ∧ Kind.group.target? a = some g

/-- A group that was not exclusive is declared for an exclusive resource, of a class that was not applied or
first applied elsewhere. -/
def Gains (recorded declared : List Resource) (g : String) : Prop :=
  exclusiveFor .group g recorded = false ∧
    ∃ r ∈ declared, Kind.group.target? r = some g ∧ r.exclusive = true ∧
      ∀ a, firstOf recorded r.label = some a → Kind.group.target? a ≠ some g

/-- A group that was exclusive is declared only for classes that were first applied without exclusivity, and
for classes that were not applied and are not exclusive. -/
def Loses (recorded declared : List Resource) (g : String) : Prop :=
  exclusiveFor .group g recorded = true ∧
    ∀ r ∈ declared, Kind.group.target? r = some g →
      (firstOf recorded r.label = none ∧ r.exclusive = false) ∨
        ∃ a, firstOf recorded r.label = some a ∧ a.exclusive = false

theorem firstOf_mem {label : String} {a : Resource} (h : firstOf recorded label = some a) :
    a ∈ recorded ∧ a.label = label :=
  ⟨List.mem_of_find?_eq_some h, by simpa using List.find?_some h⟩

theorem exists_firstOf {a : Resource} (ha : a ∈ recorded) :
    ∃ b, firstOf recorded a.label = some b ∧ b ∈ recorded ∧ b.label = a.label := by
  obtain ⟨b, hb⟩ := Option.isSome_iff_exists.1
    (List.find?_isSome.2 ⟨a, ha, by simp⟩ : (firstOf recorded a.label).isSome = true)
  exact ⟨b, hb, firstOf_mem hb⟩

theorem immutabilityProblem_eq_none_iff {r : Resource} : immutabilityProblem recorded r = none ↔
    ∀ a, firstOf recorded r.label = some a → a.exclusive = r.exclusive := by
  unfold immutabilityProblem firstOf
  cases recorded.find? fun a => a.label = r.label with
  | none => simp
  | some a => simp

theorem classesKept_iff :
    declared.filterMap (immutabilityProblem recorded) = [] ↔ ClassesKept recorded declared := by
  simp only [List.filterMap_eq_nil_iff, immutabilityProblem_eq_none_iff, ClassesKept]

/-- What was applied keeps the exclusivity of its classes if it is the same for all resources of a class, and
only then. -/
theorem classesKept_self_iff : ClassesKept recorded recorded ↔ Unmixed recorded := by
  constructor
  · intro keeps a ha b hb same
    obtain ⟨c, hc, _⟩ := exists_firstOf ha
    exact (keeps a ha c hc).symm.trans (keeps b hb c (same ▸ hc))
  · intro unmixed r hr a hf
    obtain ⟨ha, label⟩ := firstOf_mem hf
    exact unmixed a ha r hr label

/-! ## Groups -/

theorem exclusiveFor_eq_iff (keeps : ClassesKept recorded declared) :
    exclusiveFor .group g declared = exclusiveFor .group g recorded ↔
      ¬ Gains recorded declared g ∧ ¬ Loses recorded declared g := by
  constructor
  · intro same
    refine ⟨fun ⟨unmarked, r, hr, ht, he, _⟩ => ?_, fun ⟨marked, others⟩ => ?_⟩
    · have marked := exclusiveFor_iff.2 ⟨r, hr, ht, he⟩
      cases (marked.symm.trans same).trans unmarked
    · obtain ⟨r, hr, ht, he⟩ := exclusiveFor_iff.1 (same.trans marked)
      rcases others r hr ht with ⟨_, plain⟩ | ⟨a, ha, plain⟩
      · cases he.symm.trans plain
      · cases (he.symm.trans (keeps r hr a ha).symm).trans plain
  · rintro ⟨gainless, lossless⟩
    cases before : exclusiveFor .group g recorded with
    | false =>
      -- an exclusive resource would be of a class that was first applied in this group, as it is declared
      cases after : exclusiveFor .group g declared with
      | false => rfl
      | true =>
        obtain ⟨r, hr, ht, he⟩ := exclusiveFor_iff.1 after
        refine absurd ⟨before, r, hr, ht, he, fun a ha hat => ?_⟩ gainless
        cases before.symm.trans (exclusiveFor_iff.2 ⟨a, (firstOf_mem ha).1, hat, (keeps r hr a ha).trans he⟩)
    | true =>
      cases after : exclusiveFor .group g declared with
      | true => rfl
      | false =>
        refine absurd ⟨before, fun r hr ht => ?_⟩ lossless
        have plain : r.exclusive = false := by
          cases he : r.exclusive with
          | false => rfl
          | true => cases after.symm.trans (exclusiveFor_iff.2 ⟨r, hr, ht, he⟩)
        cases hf : firstOf recorded r.label with
        | none => exact .inl ⟨rfl, plain⟩
        | some a => exact .inr ⟨a, rfl, (keeps r hr a hf).trans plain⟩

/-- A group that keeps its classes is as exclusive as it was, if no class was applied both ways. -/
theorem exclusiveFor_eq_of_sameClasses (keeps : ClassesKept recorded declared) (unmixed : Unmixed recorded)
    (same : SameClasses recorded declared g) :
    exclusiveFor .group g declared = exclusiveFor .group g recorded := by
  have agree {r a : Resource} (hr : r ∈ declared) (ha : a ∈ recorded) (label : a.label = r.label) :
      a.exclusive = r.exclusive := by
    obtain ⟨b, hb, hmem, hlabel⟩ := exists_firstOf ha
    exact (unmixed a ha b hmem hlabel.symm).trans (keeps r hr b (label ▸ hb))
  rw [Bool.eq_iff_iff, exclusiveFor_iff, exclusiveFor_iff]
  constructor
  · rintro ⟨r, hr, ht, he⟩
    obtain ⟨a, ha, label, hat⟩ := (same r.label).1 ⟨r, hr, rfl, ht⟩
    exact ⟨a, ha, hat, (agree hr ha label).trans he⟩
  · rintro ⟨a, ha, hat, he⟩
    obtain ⟨r, hr, label, ht⟩ := (same a.label).2 ⟨a, ha, rfl, hat⟩
    exact ⟨r, hr, ht, (agree hr ha label.symm).symm.trans he⟩

/-! ## Changes -/

/-- An accepted change keeps the exclusivity of classes. A group is as exclusive as it was applied exactly if
the change neither gives it exclusivity by a class from elsewhere nor leaves it to classes without, and so if
it keeps its classes and no class was applied both ways. What was applied itself is never refused for its
exclusivity if no class was, and always otherwise. -/
theorem class_exclusivity {old new : Tenant} {o : Except Error Unit}
    (h : (validateUpdate old new).Goes R s tr o s') :
    (o = .ok () → ∀ g,
      (exclusiveFor .group g new.spec.resources = exclusiveFor .group g old.recorded.resources ↔
        ¬ Gains old.recorded.resources new.spec.resources g ∧
          ¬ Loses old.recorded.resources new.spec.resources g) ∧
      (Unmixed old.recorded.resources → SameClasses old.recorded.resources new.spec.resources g →
        exclusiveFor .group g new.spec.resources = exclusiveFor .group g old.recorded.resources)) ∧
    (new.spec.resources = old.recorded.resources →
      (Unmixed old.recorded.resources →
        (∃ f : Findings, f.Of new.spec.resources tr ∧
          Settled new.name ((nameProblem old new).toList ++ f.report new.spec.resources) o) ∨
          ∃ e, o = .error (unverified new.name e) ∧ Fails tr e) ∧
      (¬ Unmixed old.recorded.resources → o ≠ .ok ())) := by
  have decided := checked_goes (changeProblems old new) h
  have keeps (accepted : o = .ok ()) : ClassesKept old.recorded.resources new.spec.resources := by
    subst accepted
    exact classesKept_iff.1 (List.append_eq_nil_iff.1 (validateUpdate_ok h).1).2
  refine ⟨fun accepted g => ⟨exclusiveFor_eq_iff (keeps accepted),
    fun unmixed same => exclusiveFor_eq_of_sameClasses (keeps accepted) unmixed same⟩,
    fun same => ⟨fun unmixed => ?_, fun mixed accepted => ?_⟩⟩
  · have kept : ClassesKept old.recorded.resources new.spec.resources := by
      rw [same]
      exact classesKept_self_iff.2 unmixed
    have known : changeProblems old new = (nameProblem old new).toList := by
      rw [changeProblems, classesKept_iff.2 kept, List.append_nil]
    rwa [known] at decided
  · have kept := keeps accepted
    rw [same] at kept
    exact mixed (classesKept_self_iff.1 kept)

def classIn (label member group : String) (exclusive : Bool) : Resource where
  label := label
  members := [member]
  group := group
  exclusive := exclusive

/-- A tenant that declares resources of which others were applied. -/
def changing (recorded declared : List Resource) : Tenant :=
  { Stage.newTenant { name := "blue", resources := declared } with status := some { resources := recorded } }

/-- The class stays in its group, with another node. -/
theorem class_exclusivity_of_moved_node :
    let before := changing [classIn "io" "x1" "g" true] []
    let after := changing [] [classIn "io" "x2" "g" true]
    (Stage.perform (validateUpdate before after) {}).1 = .ok () ∧
      exclusiveFor .group "g" after.spec.resources = exclusiveFor .group "g" before.recorded.resources := by
  intro before after
  have accepted : (Stage.perform (validateUpdate before after) {}).1 = .ok () := by rfl
  have ran : (validateUpdate before after).Goes (World.steady fun _ _ => False) _ _ _ _ := Stage.goes_undisturbed {} _
  obtain ⟨kept, -⟩ := class_exclusivity ran
  obtain ⟨-, same⟩ := kept accepted "g"
  have unmixed : Unmixed before.recorded.resources := fun a ha b hb _ => by
    rw [List.mem_singleton.1 ha, List.mem_singleton.1 hb]
  refine ⟨accepted, same unmixed fun label => ⟨?_, ?_⟩⟩
  · rintro ⟨r, hr, rfl, _⟩
    exact ⟨_, List.mem_singleton_self _, by rw [List.mem_singleton.1 hr]; rfl, by rfl⟩
  · rintro ⟨a, ha, rfl, _⟩
    exact ⟨_, List.mem_singleton_self _, by rw [List.mem_singleton.1 ha]; rfl, by rfl⟩

/-- What was applied in a group may lose its exclusivity to a class that was not applied, and what was
applied both ways is refused although nothing is changed. -/
theorem exclusivity_lost_and_kept_refused :
    (∃ before after : Tenant, (Stage.perform (validateUpdate before after) {}).1 = .ok () ∧
      (∃ a ∈ before.recorded.resources, Kind.group.target? a = some "g") ∧
      (∃ r ∈ after.spec.resources, Kind.group.target? r = some "g") ∧
      exclusiveFor .group "g" after.spec.resources ≠ exclusiveFor .group "g" before.recorded.resources) ∧
    ∃ before after : Tenant, after.spec.resources = before.recorded.resources ∧
      (Stage.perform (validateUpdate before after) {}).1 =
        .error (.validation "blue" "enforceexclusivehsmgroups is immutable for io resources") := by
  constructor
  · exact ⟨changing [classIn "compute" "x1" "g" true] [], changing [] [classIn "io" "x1" "g" false], by rfl,
      ⟨_, List.mem_singleton_self _, by rfl⟩, ⟨_, List.mem_singleton_self _, by rfl⟩, by decide +kernel⟩
  · exact ⟨changing [classIn "io" "x1" "g" true, classIn "io" "x2" "h" false] [],
      changing [] [classIn "io" "x1" "g" true, classIn "io" "x2" "h" false], by rfl, by rfl⟩

end Tenancy.Admission

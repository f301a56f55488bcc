import Tenancy.Proofs.Admissions
import Tenancy.Proofs.Stages

/-!
# What the checks of a new tenant come to

The hardware service may give any answers, other ones each time it is asked. `Findings` are the answers
that a declaration needs: the nodes for each resource whose members have to be nodes, and the groups if an
exclusive resource targets one. If all of them are given, the checks come to the report of these findings;
if one is not, to an error which says so (`checks_hardwareProblems`). What was asked determines the findings
(`Findings.Of.unique`), so a tenant is accepted exactly if all that was needed was found and nothing is wrong
with it (`validateCreate_decides`).
-/

namespace Tenancy.Admission

open Rehearsal

variable {σ : Type} {R : Conduct Services σ} {s s' : σ} {tr : List (Moment Services σ)}

/-! ## Roles -/

/-- The label is this name, whatever the case of its letters is. -/
def SameLabel (label name : String) : Prop := String.ofList (label.toList.map Char.toLower) = name

instance (label name : String) : Decidable (SameLabel label name) := inferInstanceAs (Decidable (_ = _))

/-- The members of a class with this label have to be nodes with a role. -/
inductive Needs (label : String) : String → Prop
  | compute (h : SameLabel label "compute") : Needs label "Compute"
  | application (h : SameLabel label "application") : Needs label "Application"

theorem needs_iff {label role : String} : Needs label role ↔ requiredRole label = some role := by
  unfold requiredRole
  dsimp only
  constructor
  · intro h
    cases h with
    | compute h => exact if_pos h
    | application h =>
      have other : ¬ SameLabel label "compute" := fun h' => absurd (h.symm.trans h') (by decide)
      exact (if_neg other).trans (if_pos h)
  · intro h
    split at h
    · next compute =>
      cases h
      exact .compute compute
    · split at h
      · next application =>
        cases h
        exact .application application
      · cases h

theorem not_needs {label : String} (h : requiredRole label = none) (role : String) : ¬ Needs label role :=
  fun needed => by cases (needs_iff.1 needed).symm.trans h

/-! ## Findings -/

/-- What is found out about the resources of a declaration. -/
structure Findings where
  /-- The resources whose members have to be nodes, each with the nodes that it may have. -/
  nodes : List (Resource × List String)
  groups : List Collection

/-- The nodes for each resource that needs some are listed, one resource after the other. -/
inductive Inventoried : List Resource → List (Moment Services σ) → List (Resource × List String) → Prop
  | nil : Inventoried [] [] []
  | skip {r : Resource} {rs : List Resource} {tr : List (Moment Services σ)}
      {found : List (Resource × List String)} (unneeded : ∀ role, ¬ Needs r.label role)
      (rest : Inventoried rs tr found) : Inventoried (r :: rs) tr found
  | list {r : Resource} {rs : List Resource} {tr : List (Moment Services σ)}
      {found : List (Resource × List String)} {role : String} {nodes : List String} {s : σ}
      (needed : Needs r.label role) (rest : Inventoried rs tr found) :
      Inventoried (r :: rs) (⟨s, .hardware (.listComponents "Node" role), .ok nodes⟩ :: tr)
        ((r, nodes) :: found)

/-- Some exclusive resource targets a group. -/
def TargetsExclusively (rs : List Resource) : Prop :=
  ∃ r ∈ rs, r.exclusive = true ∧ ∃ g, Kind.group.target? r = some g

/-- The groups are listed if some exclusive resource targets one. -/
inductive Grouped (rs : List Resource) : List (Moment Services σ) → List Collection → Prop
  | unasked (none : ¬ TargetsExclusively rs) : Grouped rs [] []
  | asked {s : σ} {groups : List Collection} (some : TargetsExclusively rs) :
      Grouped rs [⟨s, .hardware .listGroups, .ok groups⟩] groups

/-- Some call is answered by the error. -/
def Fails (tr : List (Moment Services σ)) (e : Error) : Prop :=
  ∃ s c, (⟨s, c, .error e⟩ : Moment Services σ) ∈ tr

namespace Findings

/-- These are the calls by which the findings were made: all that was needed was asked and answered, and
nothing else. -/
def Of (f : Findings) (rs : List Resource) (tr : List (Moment Services σ)) : Prop :=
  ∃ tr₁ tr₂, tr = tr₁ ++ tr₂ ∧ Inventoried rs tr₁ f.nodes ∧ Grouped rs tr₂ f.groups

/-- What is said of a list, unless it is empty. -/
def said {α : Type} (say : List α → String) (l : List α) : Option String :=
  if l = [] then none else some (say l)

/-- The members of a resource that are not among the nodes. -/
def strangers (r : Resource) (nodes : List String) : List String := r.members.filter fun m => m ∉ nodes

/-- The members of a resource that are in a marked group other than the target, each with that group. -/
def shared (groups : List Collection) (target : String) (r : Resource) : List (String × Collection) :=
  r.members.flatMap fun m =>
    (groups.filter fun c => c.name ≠ target ∧ c.isTenantExclusive = true ∧ m ∈ c.members).map fun c => (m, c)

/-- What is reported of the findings, resource by resource. -/
def report (f : Findings) (rs : List Resource) : List String :=
  (f.nodes.filterMap fun p => said (fun ms => "not " ++ p.1.label ++ " nodes: " ++ String.intercalate ", " ms)
      (strangers p.1 p.2)) ++
    (exclusiveTargets rs).filterMap fun t =>
      said (fun l => "members already in another exclusive group: " ++
        String.intercalate ", " (l.map fun p => p.1 ++ " (in " ++ p.2.name ++ ")")) (shared f.groups t.1 t.2)

structure Clean (f : Findings) (rs : List Resource) : Prop where
  nodes : ∀ p ∈ f.nodes, ∀ m ∈ p.1.members, m ∈ p.2
  unshared : ∀ r ∈ rs, r.exclusive = true → ∀ g, Kind.group.target? r = some g → ∀ m ∈ r.members,
    ∀ c ∈ f.groups, c.name ≠ g → c.isTenantExclusive = true → m ∉ c.members

end Findings

theorem mem_exclusiveTargets {rs : List Resource} {g : String} {r : Resource} :
    (g, r) ∈ exclusiveTargets rs ↔ r ∈ rs ∧ r.exclusive = true ∧ Kind.group.target? r = some g := by
  simp only [exclusiveTargets, List.mem_filterMap, List.mem_filter, Option.map_eq_some_iff, Prod.mk.injEq]
  constructor
  · rintro ⟨_, ⟨hr, he⟩, _, hg, rfl, rfl⟩
    exact ⟨hr, he, hg⟩
  · rintro ⟨hr, he, hg⟩
    exact ⟨r, ⟨hr, he⟩, g, hg, rfl, rfl⟩

theorem targetsExclusively_iff {rs : List Resource} : TargetsExclusively rs ↔ exclusiveTargets rs ≠ [] := by
  constructor
  · rintro ⟨r, hr, he, g, hg⟩
    exact List.ne_nil_of_mem (mem_exclusiveTargets.2 ⟨hr, he, hg⟩)
  · intro some
    obtain ⟨⟨g, r⟩, h⟩ := List.exists_mem_of_ne_nil _ some
    obtain ⟨hr, he, hg⟩ := mem_exclusiveTargets.1 h
    exact ⟨r, hr, he, g, hg⟩

/-- What the check finds wrong with the members of resources. -/
def unsuited (found : List (Resource × List String)) : List String :=
  found.filterMap fun p => eligibilityProblem p.2 p.1

/-- What the check finds wrong with the groups of resources. -/
def unfree (groups : List Collection) (rs : List Resource) : List String :=
  (exclusiveTargets rs).filterMap fun t => exclusivityProblem groups t.1 t.2

namespace Findings

theorem said_eq_none_iff {α : Type} {say : List α → String} {l : List α} : said say l = none ↔ l = [] := by
  simp [said]

theorem eligibilityProblem_eq (nodes : List String) (r : Resource) : eligibilityProblem nodes r =
    said (fun ms => "not " ++ r.label ++ " nodes: " ++ String.intercalate ", " ms) (strangers r nodes) := by
  have same : ineligible nodes r = strangers r nodes := by simp [ineligible, strangers]
  simp only [eligibilityProblem, said, same, List.isEmpty_iff]

theorem exclusivityProblem_eq (groups : List Collection) (target : String) (r : Resource) :
    exclusivityProblem groups target r = said (fun l => "members already in another exclusive group: " ++
      String.intercalate ", " (l.map fun p => p.1 ++ " (in " ++ p.2.name ++ ")")) (shared groups target r) := by
  have same : conflicts groups target r = shared groups target r := by simp [conflicts, shared, Bool.and_assoc]
  simp only [exclusivityProblem, said, same, List.isEmpty_iff]

/-- What the two checks find wrong is what is reported. -/
theorem report_eq (f : Findings) (rs : List Resource) : f.report rs = unsuited f.nodes ++ unfree f.groups rs := by
  simp only [report, unsuited, unfree, eligibilityProblem_eq, exclusivityProblem_eq]

theorem strangers_eq_nil_iff {r : Resource} {nodes : List String} :
    strangers r nodes = [] ↔ ∀ m ∈ r.members, m ∈ nodes := by
  simp [strangers]

theorem shared_eq_nil_iff {groups : List Collection} {target : String} {r : Resource} :
    shared groups target r = [] ↔ ∀ m ∈ r.members, ∀ c ∈ groups, c.name ≠ target →
      c.isTenantExclusive = true → m ∉ c.members := by
  simp [shared]

theorem report_eq_nil_iff {f : Findings} {rs : List Resource} : f.report rs = [] ↔ f.Clean rs := by
  simp only [report, List.append_eq_nil_iff, List.filterMap_eq_nil_iff, said_eq_none_iff,
    strangers_eq_nil_iff, shared_eq_nil_iff]
  constructor
  · rintro ⟨nodes, unshared⟩
    exact ⟨nodes, fun r hr he g hg => unshared (g, r) (mem_exclusiveTargets.2 ⟨hr, he, hg⟩)⟩
  · rintro ⟨nodes, unshared⟩
    refine ⟨nodes, fun ⟨g, r⟩ ht => ?_⟩
    obtain ⟨hr, he, hg⟩ := mem_exclusiveTargets.1 ht
    exact unshared r hr he g hg

/-! ### Findings and calls -/

theorem nodes_unique {rs : List Resource} {tr₁ tr₁' tr₂ tr₂' : List (Moment Services σ)}
    {found found' : List (Resource × List String)} (h : Inventoried rs tr₁ found)
    (h' : Inventoried rs tr₁' found') (same : tr₁ ++ tr₂ = tr₁' ++ tr₂') : found = found' ∧ tr₂ = tr₂' := by
  induction h generalizing tr₁' found' with
  | nil =>
    cases h'
    exact ⟨rfl, same⟩
  | skip unneeded _ ih =>
    cases h' with
    | skip _ rest => exact ih rest same
    | list needed _ => exact absurd needed (unneeded _)
  | list needed _ ih =>
    cases h' with
    | skip unneeded _ => exact absurd needed (unneeded _)
    | list _ rest =>
      obtain ⟨first, others⟩ := List.cons.inj same
      obtain ⟨rfl, rfl⟩ := ih rest others
      cases first
      exact ⟨rfl, rfl⟩

theorem groups_unique {rs : List Resource} {tr : List (Moment Services σ)} {groups groups' : List Collection}
    (h : Grouped rs tr groups) (h' : Grouped rs tr groups') : groups = groups' := by
  cases h <;> cases h' <;> rfl

/-- What was asked and answered determines the findings. -/
theorem Of.unique {f f' : Findings} {rs : List Resource} (h : f.Of rs tr) (h' : f'.Of rs tr) : f = f' := by
  obtain ⟨tr₁, tr₂, rfl, nodes, groups⟩ := h
  obtain ⟨tr₁', tr₂', same, nodes', groups'⟩ := h'
  obtain ⟨equal, rfl⟩ := nodes_unique nodes nodes' same
  cases f
  cases f'
  cases equal
  cases groups_unique groups groups'
  rfl

theorem nodes_answered {rs : List Resource} {found : List (Resource × List String)} {e : Error}
    (h : Inventoried rs tr found) : ¬ Fails tr e := by
  rintro ⟨s, c, hm⟩
  induction h with
  | nil => cases hm
  | skip _ _ ih => exact ih hm
  | list _ _ ih =>
    rcases List.mem_cons.1 hm with first | hm
    · cases first
    · exact ih hm

theorem groups_answered {rs : List Resource} {groups : List Collection} {e : Error}
    (h : Grouped rs tr groups) : ¬ Fails tr e := by
  rintro ⟨s, c, hm⟩
  cases h with
  | unasked _ => cases hm
  | asked _ => cases List.mem_singleton.1 hm

/-- All calls by which findings were made were answered. -/
theorem Of.answered {f : Findings} {rs : List Resource} {e : Error} (h : f.Of rs tr) : ¬ Fails tr e := by
  obtain ⟨tr₁, tr₂, rfl, nodes, groups⟩ := h
  rintro ⟨s, c, hm⟩
  rcases List.mem_append.1 hm with hm | hm
  · exact nodes_answered nodes ⟨s, c, hm⟩
  · exact groups_answered groups ⟨s, c, hm⟩

end Findings

/-! ## Checks -/

theorem Fails.append_right {tr₁ tr₂ : List (Moment Services σ)} {e : Error} (h : Fails tr₂ e) :
    Fails (tr₁ ++ tr₂) e := by
  obtain ⟨s, c, hm⟩ := h
  exact ⟨s, c, List.mem_append_right _ hm⟩

/-- A check comes to what `P` says about its calls, or one of them fails and this refuses the declaration. -/
def Checks {α : Type} (R : Conduct Services σ) (tenant : String) (P : List (Moment Services σ) → α → Prop)
    (j : Job α) : Prop :=
  ∀ ⦃s tr o s'⦄, j.Goes R s tr o s' →
    (∃ a, o = .ok a ∧ P tr a) ∨ ∃ e, o = .error (unverified tenant e) ∧ Fails tr e

section

variable {α β : Type} {tenant : String} {P : List (Moment Services σ) → α → Prop}
  {S : List (Moment Services σ) → β → Prop}

theorem checks_pure {a : α} (h : P [] a) : Checks R tenant P (pure a) := by
  intro s tr o s' hg
  obtain ⟨rfl, rfl, _⟩ := Job.goes_pure hg
  exact .inl ⟨a, rfl, h⟩

theorem checks_listing {c : Call} {P : List (Moment Services σ) → c.Reply → Prop}
    (h : ∀ s a, P [⟨s, c, .ok a⟩] a) : Checks R tenant P ((Job.call c).mapError (unverified tenant)) := by
  intro s tr o s' hg
  obtain ⟨x, hc, rfl⟩ := Job.goes_mapError hg
  obtain ⟨_, rfl⟩ := Job.goes_call hc
  cases x with
  | ok a => exact .inl ⟨a, rfl, h s a⟩
  | error e => exact .inr ⟨e, rfl, s, c, List.mem_singleton_self _⟩

theorem checks_bind {j : Job α} {f : α → Job β} {Q : α → List (Moment Services σ) → β → Prop}
    (hj : Checks R tenant P j) (hf : ∀ a, Checks R tenant (Q a) (f a))
    (joined : ∀ {tr₁ tr₂ a b}, P tr₁ a → Q a tr₂ b → S (tr₁ ++ tr₂) b) :
    Checks R tenant S (j >>= f) := by
  intro s tr o s' hg
  rcases Job.goes_bind hg with ⟨e, rfl, first⟩ | ⟨a, s₁, tr₁, tr₂, first, second, rfl⟩
  · rcases hj first with ⟨_, ho, _⟩ | ⟨e', ho, failed⟩
    · cases ho
    · cases ho
      exact .inr ⟨e', rfl, failed⟩
  · rcases hj first with ⟨_, ho, hP⟩ | ⟨_, ho, _⟩
    · cases ho
      rcases hf a second with ⟨b, rfl, hQ⟩ | ⟨e, ho, failed⟩
      · exact .inl ⟨b, rfl, joined hP hQ⟩
      · exact .inr ⟨e, ho, failed.append_right⟩
    · cases ho

/-- A result that is made of that of a check. -/
theorem checks_map {j : Job α} {f : α → β} (hj : Checks R tenant P j)
    (made : ∀ {tr a}, P tr a → S tr (f a)) : Checks R tenant S (do return f (← j)) :=
  checks_bind (Q := fun a tr b => tr = [] ∧ b = f a) hj (fun _ => checks_pure ⟨rfl, rfl⟩) (by
    rintro tr _ a _ h ⟨rfl, rfl⟩
    rw [List.append_nil]
    exact made h)

end

/-- The check of one resource puts what it finds in front of what is found for the others. -/
theorem checks_checkEligible (tenant : String) (r : Resource) :
    Checks R tenant (fun tr problem => ∀ {rs tr' found}, Inventoried rs tr' found →
      ∃ found', Inventoried (r :: rs) (tr ++ tr') found' ∧
        unsuited found' = problem.toList ++ unsuited found) (checkEligible tenant r) := by
  unfold checkEligible
  split
  · next unneeded => exact checks_pure fun rest => ⟨_, .skip (not_needs unneeded) rest, rfl⟩
  · next role needed =>
    refine checks_map (P := fun tr nodes => ∃ s, tr = [⟨s, .hardware (.listComponents "Node" role), .ok nodes⟩])
      (checks_listing fun s _ => ⟨s, rfl⟩) ?_
    rintro _ nodes ⟨s, rfl⟩ rs tr' found rest
    refine ⟨(r, nodes) :: found, .list (needs_iff.2 needed) rest, ?_⟩
    cases hp : eligibilityProblem nodes r <;> simp [unsuited, hp]

theorem checks_eligibilityProblems (tenant : String) (rs : List Resource) :
    Checks R tenant (fun tr problems => ∃ found, Inventoried rs tr found ∧ problems = unsuited found)
      (eligibilityProblems tenant rs) := by
  induction rs with
  | nil => exact checks_pure ⟨[], .nil, rfl⟩
  | cons r rs ih =>
    refine checks_bind (checks_checkEligible tenant r) (fun problem => checks_map ih
      (S := fun tr problems => ∃ found, Inventoried rs tr found ∧
        problems = problem.toList ++ unsuited found) ?_) ?_
    · rintro tr _ ⟨found, inventoried, rfl⟩
      exact ⟨found, inventoried, rfl⟩
    · rintro tr₁ tr₂ problem _ extend ⟨found, inventoried, rfl⟩
      obtain ⟨found', inventoried', equal⟩ := extend inventoried
      exact ⟨found', inventoried', equal.symm⟩

theorem checks_exclusivityProblems (tenant : String) (rs : List Resource) :
    Checks R tenant (fun tr problems => ∃ groups, Grouped rs tr groups ∧ problems = unfree groups rs)
      (exclusivityProblems tenant rs) := by
  unfold exclusivityProblems
  split
  · next none =>
    refine checks_pure ⟨[], .unasked fun some => targetsExclusively_iff.1 some none, ?_⟩
    rw [unfree, none, List.filterMap_nil]
  · next some =>
    refine checks_map (P := fun tr groups => ∃ s, tr = [⟨s, .hardware .listGroups, .ok groups⟩])
      (checks_listing fun s _ => ⟨s, rfl⟩) ?_
    rintro _ groups ⟨s, rfl⟩
    exact ⟨groups, .asked (targetsExclusively_iff.2 some), rfl⟩

/-- The checks come to the report of what was found out. -/
theorem checks_hardwareProblems (tenant : String) (rs : List Resource) :
    Checks R tenant (fun tr problems => ∃ f : Findings, f.Of rs tr ∧ problems = f.report rs)
      (hardwareProblems tenant rs) := by
  refine checks_bind (checks_eligibilityProblems tenant rs) (fun eligible =>
    checks_map (checks_exclusivityProblems tenant rs)
      (S := fun tr problems => ∃ groups, Grouped rs tr groups ∧ problems = eligible ++ unfree groups rs) ?_) ?_
  · rintro tr _ ⟨groups, grouped, rfl⟩
    exact ⟨groups, grouped, rfl⟩
  · rintro tr₁ tr₂ _ _ ⟨found, inventoried, rfl⟩ ⟨groups, grouped, rfl⟩
    exact ⟨⟨found, groups⟩, ⟨tr₁, tr₂, rfl, inventoried, grouped⟩, (Findings.report_eq ⟨found, groups⟩ rs).symm⟩

/-! ## Decisions -/

/-- The calls that the checks need. -/
inductive Needed (rs : List Resource) : Call → Prop
  | components {type role : String} : Needed rs (.hardware (.listComponents type role))
  | groups (some : TargetsExclusively rs) : Needed rs (.hardware .listGroups)

theorem Needed.changes_nothing {rs : List Resource} {c : Call} (h : Needed rs c) :
    c.makes = false ∧ c.removes = false := by
  cases h <;> exact ⟨rfl, rfl⟩

/-- What is decided once the problems are known: none is accepted, and any are what the refusal says. -/
inductive Settled (tenant : String) (problems : List String) : Except Error Unit → Prop
  | accepted (none : problems = []) : Settled tenant problems (.ok ())
  | refused (some : problems ≠ []) : Settled tenant problems (.error (refusal tenant problems))

theorem settle_goes {tenant : String} {problems : List String} {o : Except Error Unit}
    (h : (settle tenant problems).Goes R s tr o s') : tr = [] ∧ Settled tenant problems o := by
  unfold settle at h
  split at h
  · next none =>
    obtain ⟨rfl, rfl, _⟩ := Job.goes_pure h
    exact ⟨rfl, .accepted (List.isEmpty_iff.1 none)⟩
  · next some =>
    obtain ⟨rfl, rfl, _⟩ := Job.goes_throw h
    exact ⟨rfl, .refused fun none => some (List.isEmpty_iff.2 none)⟩

/-- Where checks are followed by a decision about what they found, it is that about the report of what was
found out, after the problems that were known before; or some call of the checks failed. -/
theorem checked_goes (known : List String) {tenant : String} {rs : List Resource} {o : Except Error Unit}
    (h : Job.Goes R (do settle tenant (known ++ (← hardwareProblems tenant rs))) s tr o s') :
    (∃ f : Findings, f.Of rs tr ∧ Settled tenant (known ++ f.report rs) o) ∨
      ∃ e, o = .error (unverified tenant e) ∧ Fails tr e := by
  rcases Job.goes_bind h with ⟨e, rfl, checked⟩ | ⟨problems, s₁, tr₁, tr₂, checked, settled, rfl⟩
  · rcases checks_hardwareProblems _ _ checked with ⟨_, ho, _⟩ | ⟨e', ho, failed⟩
    · cases ho
    · cases ho
      exact .inr ⟨e', rfl, failed⟩
  · rcases checks_hardwareProblems _ _ checked with ⟨_, ho, f, made, rfl⟩ | ⟨_, ho, _⟩
    · cases ho
      obtain ⟨rfl, decided⟩ := settle_goes settled
      exact .inl ⟨f, by rwa [List.append_nil], decided⟩
    · cases ho

def unnamed : Error := .validation Error.unknownTenant "tenantname must not be empty"

theorem validateCreate_goes {t : Tenant} {o : Except Error Unit} (h : (validateCreate t).Goes R s tr o s') :
    (Text.trim t.name = "" ∧ tr = [] ∧ o = .error unnamed) ∨
      Text.trim t.name ≠ "" ∧
        ((∃ f : Findings, f.Of t.spec.resources tr ∧ Settled t.name (f.report t.spec.resources) o) ∨
          ∃ e, o = .error (unverified t.name e) ∧ Fails tr e) := by
  unfold validateCreate at h
  split at h
  · next blank =>
    rcases Job.goes_bind h with ⟨e, rfl, thrown⟩ | ⟨_, _, _, _, thrown, _⟩
    · obtain ⟨rfl, ho, _⟩ := Job.goes_throw thrown
      cases ho
      exact .inl ⟨blank, rfl, rfl⟩
    · obtain ⟨_, ho, _⟩ := Job.goes_throw thrown
      cases ho
  · next named => exact .inr ⟨named, checked_goes [] h⟩

/-- The decision about a new tenant, whatever the hardware service answers. It is accepted exactly if it has
a name, all that its checks need was found out, and nothing is wrong with that; otherwise the error says that
it is invalid. If it has a name and all was found out, the error is the report of it; if something could not
be found out, the error says which call failed. Groups are listed only if an exclusive resource targets one,
and no call changes anything. -/
theorem validateCreate_decides {t : Tenant} {o : Except Error Unit}
    (h : (validateCreate t).Goes R s tr o s') :
    (o = .ok () ↔ Text.trim t.name ≠ "" ∧
      ∃ f : Findings, f.Of t.spec.resources tr ∧ f.Clean t.spec.resources) ∧
    (∀ e, o = .error e → ∃ tenant what, e = .validation tenant what) ∧
    (Text.trim t.name = "" → o = .error unnamed ∧ tr = []) ∧
    (Text.trim t.name ≠ "" → ∀ f : Findings, f.Of t.spec.resources tr → ¬ f.Clean t.spec.resources →
      o = .error (refusal t.name (f.report t.spec.resources))) ∧
    (Text.trim t.name ≠ "" → (∀ f : Findings, ¬ f.Of t.spec.resources tr) →
      ∃ e, o = .error (unverified t.name e) ∧ Fails tr e) ∧
    ∀ m ∈ tr, Needed t.spec.resources m.query ∧ m.query.makes = false ∧ m.query.removes = false := by
  have needed : ∀ m ∈ tr, Needed t.spec.resources m.query :=
    Dialogue.Goes.asks h (asks_validateCreate_of (fun _ _ => .components) fun some =>
      .groups (targetsExclusively_iff.2 some))
  have calls : ∀ m ∈ tr, Needed t.spec.resources m.query ∧ m.query.makes = false ∧ m.query.removes = false :=
    fun m hm => ⟨needed m hm, (needed m hm).changes_nothing⟩
  rcases validateCreate_goes h with ⟨blank, rfl, rfl⟩ | ⟨named, ⟨f, made, decided⟩ | ⟨e, rfl, failed⟩⟩
  · refine ⟨⟨nofun, fun h => absurd blank h.1⟩, fun e he => ?_, fun _ => ⟨rfl, rfl⟩, fun named => absurd blank named,
      fun named => absurd blank named, calls⟩
    cases he
    exact ⟨_, _, rfl⟩
  · have only {f' : Findings} (made' : f'.Of t.spec.resources tr) : f' = f := made'.unique made
    cases decided with
    | accepted none =>
      have clean : f.Clean t.spec.resources := Findings.report_eq_nil_iff.1 none
      refine ⟨⟨fun _ => ⟨named, f, made, clean⟩, fun _ => rfl⟩, nofun, fun blank => absurd blank named,
        fun _ f' made' unclean => ?_, fun _ unmade => absurd made (unmade f), calls⟩
      rw [only made'] at unclean
      exact absurd clean unclean
    | refused some =>
      have unclean : ¬ f.Clean t.spec.resources := fun clean => some (Findings.report_eq_nil_iff.2 clean)
      refine ⟨⟨nofun, fun ⟨_, f', made', clean⟩ => ?_⟩, fun e he => ?_, fun blank => absurd blank named,
        fun _ f' made' _ => by rw [only made'], fun _ unmade => absurd made (unmade f), calls⟩
      · rw [only made'] at clean
        exact absurd clean unclean
      · cases he
        exact ⟨_, _, rfl⟩
  · have unmade (f : Findings) : ¬ f.Of t.spec.resources tr := fun made => made.answered failed
    refine ⟨⟨nofun, fun ⟨_, f, made, _⟩ => absurd made (unmade f)⟩, fun e' he => ?_, fun blank => absurd blank named,
      fun _ f made => absurd made (unmade f), fun _ _ => ⟨e, rfl, failed⟩, calls⟩
    cases he
    exact ⟨_, _, rfl⟩

/-- One node, and a marked group with something else in it. -/
def oneNode : Stage where
  world := {
    components := [("Node/Compute", ["x1"])]
    collections := [("group c", { name := "c", members := ["x9"], marker := some Collection.exclusiveMarker })] }

/-- A tenant that declares the node and the other thing, as a class with a capital letter. -/
def declaringBoth : Tenant :=
  Stage.newTenant {
    name := "blue"
    resources := [{ label := "Compute", members := ["x1", "x9"], group := some " a ", exclusive := true }] }

/-- What is no node, and is in the marked group, is refused on both grounds. -/
theorem validateCreate_decides_declaringBoth :
    (Stage.perform (validateCreate declaringBoth) oneNode).1 = .error (.validation "blue"
      "not Compute nodes: x9; members already in another exclusive group: x9 (in c)") := by
  have plain : oneNode.Plain Call.Unreachable := fun f hf => by cases hf
  have ran : (validateCreate declaringBoth).Goes (World.conduct (fun _ => True) Call.Unreachable) _ _ _ _ :=
    Stage.goes_perform plain _
  obtain ⟨-, -, -, refused, -, -⟩ := validateCreate_decides ran
  let found : Findings := ⟨declaringBoth.spec.resources.map fun r => (r, ["x1"]), oneNode.world.groups⟩
  have targeted : TargetsExclusively declaringBoth.spec.resources :=
    ⟨_, List.mem_singleton_self _, rfl, "a", by decide +kernel⟩
  have made : found.Of declaringBoth.spec.resources (Stage.story (validateCreate declaringBoth) oneNode) :=
    ⟨[_], [_], rfl, .list (.compute (by decide +kernel)) .nil, .asked targeted⟩
  have unclean : ¬ found.Clean declaringBoth.spec.resources := fun clean =>
    absurd (clean.nodes _ (List.mem_singleton_self _) "x9" (by decide)) (by decide)
  rw [refused (by decide +kernel) found made unclean]
  exact congrArg Except.error (by decide +kernel)

end Tenancy.Admission

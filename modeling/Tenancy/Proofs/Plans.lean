import Mathlib.Data.List.TakeWhile
import Tenancy.Proofs.Addresses
import Tenancy.Proofs.Convergence
import Tenancy.Proofs.Courses

/-!
# Plans that lose and invent nothing

A resource names a collection as a text, in which blanks around the name do not count (`Kind.target?_eq_some_iff`).
The plans say of each collection that is declared what all resources that name it ask for, and the names of those
that were applied and are not declared any more are kept beside them.

* `Collection.planned_iff`: the plans and the retired names are the only ones that account for both lists.
* `Collection.plans_of_reworded`: it does not matter in which order things stand, how often they are said, or
  which blanks are around the names.
* `Collection.gather_eq`: one pass over each list is enough to find them. What is known is kept in ascending order;
  a declared resource changes the plan of its collection or puts one in its place, an applied one changes the plan
  that is there or retires its collection.
-/

namespace Tenancy

/-! ## Names with blanks around them -/

namespace Text

variable {p : Char → Bool} {s t before after : List Char}

/-- The text neither begins nor ends with a character that has the property. -/
structure Bare (p : Char → Bool) (s : List Char) : Prop where
  first : ∀ c ∈ s.head?, p c = false
  last : ∀ c ∈ s.getLast?, p c = false

def Blank (s : String) : Prop := ∀ c ∈ s.toList, isBlank c = true

theorem head?_dropWhile (p : Char → Bool) (s : List Char) : ∀ c ∈ (s.dropWhile p).head?, p c = false := by
  intro c hc
  have first := List.head?_dropWhile_not p s
  rw [Option.mem_def.1 hc] at first
  exact first

theorem exists_trimBy_append (p : Char → Bool) (s : List Char) :
    ∃ after, (∀ c ∈ after, p c = true) ∧ s.dropWhile p = trimBy p s ++ after := by
  refine ⟨((s.dropWhile p).reverse.takeWhile p).reverse, ?_, ?_⟩
  · exact fun c hc => List.mem_takeWhile_imp (List.mem_reverse.1 hc)
  · rw [trimBy, ← List.reverse_append, List.takeWhile_append_dropWhile, List.reverse_reverse]

/-- What is cut off at the ends has the property. -/
theorem exists_trimBy (p : Char → Bool) (s : List Char) : ∃ before after,
    (∀ c ∈ before, p c = true) ∧ (∀ c ∈ after, p c = true) ∧ s = before ++ trimBy p s ++ after := by
  obtain ⟨after, ha, rest⟩ := exists_trimBy_append p s
  refine ⟨s.takeWhile p, after, fun c hc => List.mem_takeWhile_imp hc, ha, ?_⟩
  rw [List.append_assoc, ← rest, List.takeWhile_append_dropWhile]

theorem bare_trimBy (p : Char → Bool) (s : List Char) : Bare p (trimBy p s) := by
  constructor
  case first =>
    obtain ⟨after, _, rest⟩ := exists_trimBy_append p s
    intro c hc
    refine head?_dropWhile p s c ?_
    rw [rest, List.head?_append, Option.mem_def.1 hc]
    rfl
  case last =>
    intro c hc
    rw [trimBy, List.getLast?_reverse] at hc
    exact head?_dropWhile p _ c hc

theorem trimBy_append (hb : ∀ c ∈ before, p c = true) (ha : ∀ c ∈ after, p c = true) :
    trimBy p (before ++ s ++ after) = trimBy p s := by
  have back : ∀ c ∈ after.reverse, p c = true := fun c hc => ha c (List.mem_reverse.1 hc)
  rw [trimBy, trimBy, List.append_assoc, List.dropWhile_append_of_pos hb, List.dropWhile_append]
  by_cases blank : s.dropWhile p = []
  · have nothing : after.dropWhile p = [] := List.dropWhile_eq_nil_iff.2 ha
    simp [blank, nothing]
  · rw [if_neg (by simpa using blank), List.reverse_append, List.dropWhile_append_of_pos back]

theorem trim_append {before after : String} (hb : Blank before) (ha : Blank after) (s : String) :
    trim (before ++ s ++ after) = trim s := by
  rw [trim, String.toList_append, String.toList_append, trimBy_append hb ha, trim]

/-- A trimmed text is what stands between the blanks. -/
theorem trim_eq_iff {s t : String} :
    trim s = t ↔ Bare isBlank t.toList ∧ ∃ before after, Blank before ∧ Blank after ∧ s = before ++ t ++ after := by
  constructor
  · rintro rfl
    have toList_trim : (trim s).toList = trimBy isBlank s.toList := String.toList_ofList
    obtain ⟨before, after, hb, ha, whole⟩ := exists_trimBy isBlank s.toList
    refine ⟨toList_trim ▸ bare_trimBy isBlank s.toList, String.ofList before, String.ofList after, ?_, ?_, ?_⟩
    · rwa [Blank, String.toList_ofList]
    · rwa [Blank, String.toList_ofList]
    · rw [← String.toList_inj, String.toList_append, String.toList_append, String.toList_ofList,
        String.toList_ofList, toList_trim]
      exact whole
  · rintro ⟨bare, before, after, hb, ha, rfl⟩
    rw [trim_append hb ha, trim, trimBy_eq_self bare.first bare.last, String.ofList_toList]

end Text

open Text (Bare Blank isBlank)

namespace Kind

/-- The resource names the collection, maybe with blanks around the name, which has none at its ends itself. -/
structure Means (k : Kind) (r : Resource) (n : String) : Prop where
  ne_empty : n ≠ ""
  bare : Bare isBlank n.toList
  declared : ∃ before after, Blank before ∧ Blank after ∧ k.declared r = some (before ++ n ++ after)

theorem target?_eq_some_iff {k : Kind} {r : Resource} {n : String} : k.target? r = some n ↔ k.Means r n := by
  have cut : k.target? r = some n ↔ n ≠ "" ∧ ∃ t, k.declared r = some t ∧ Text.trim t = n := by
    simp only [target?, Option.filter_eq_some_iff, Option.map_eq_some_iff, decide_eq_true_eq]
    exact and_comm
  rw [cut]
  constructor
  · rintro ⟨ne, t, ht, trimmed⟩
    obtain ⟨bare, before, after, hb, ha, rfl⟩ := Text.trim_eq_iff.1 trimmed
    exact ⟨ne, bare, before, after, hb, ha, ht⟩
  · rintro ⟨ne, bare, before, after, hb, ha, ht⟩
    exact ⟨ne, _, ht, Text.trim_eq_iff.2 ⟨bare, before, after, hb, ha, rfl⟩⟩

end Kind

/-! ## The same in other words -/

namespace Resource

variable {k : Kind} {r s u : Resource} {a b rs : List Resource} {n m : String}

/-- The resource with blanks around the names of its partition and its group. -/
def padded (r : Resource) (p p' g g' : String) : Resource :=
  { r with partition := r.partition.map (p ++ · ++ p'), group := r.group.map (g ++ · ++ g') }

/-- The lists say the same, in another order, more or fewer times, or with other blanks around the names. -/
inductive Reworded : List Resource → List Resource → Prop where
  | order {a b : List Resource} (same : a.Perm b) : Reworded a b
  | again {r : Resource} {rs : List Resource} (said : r ∈ rs) : Reworded rs (r :: rs)
  | members {r : Resource} {rs : List Resource} {ms : List String} (same : ∀ m, m ∈ ms ↔ m ∈ r.members) :
      Reworded (r :: rs) ({ r with members := ms } :: rs)
  | blanks {r : Resource} {rs : List Resource} {p p' g g' : String} (hp : Blank p) (hp' : Blank p') (hg : Blank g)
      (hg' : Blank g') : Reworded (r :: rs) (r.padded p p' g g' :: rs)
  | symm {a b : List Resource} : Reworded a b → Reworded b a
  | trans {a b c : List Resource} : Reworded a b → Reworded b c → Reworded a c

theorem echoes_padded {p p' g g' : String} (hp : Blank p) (hp' : Blank p') (hg : Blank g) (hg' : Blank g') :
    r.Echoes k (r.padded p p' g g') := by
  refine ⟨?_, fun _ => .rfl, rfl⟩
  have partition : Text.trim ∘ (p ++ · ++ p') = Text.trim := funext fun t => Text.trim_append hp hp' t
  have group : Text.trim ∘ (g ++ · ++ g') = Text.trim := funext fun t => Text.trim_append hg hg' t
  cases k with
  | partition => rw [Kind.target?, Kind.target?, Kind.declared, Kind.declared, padded, Option.map_map, partition]
  | group => rw [Kind.target?, Kind.target?, Kind.declared, Kind.declared, padded, Option.map_map, group]

theorem echoed_of_reworded (h : Reworded a b) (k : Kind) : Echoed k a b ∧ Echoed k b a := by
  induction h with
  | order same => exact ⟨.of_subset same.subset, .of_subset same.symm.subset⟩
  | again said =>
    refine ⟨.of_subset (List.subset_cons_self _ _), .of_subset ?_⟩
    exact List.cons_subset.2 ⟨said, List.Subset.refl _⟩
  | @members r rs ms same =>
    have echoes : Echoes k { r with members := ms } r := ⟨by cases k <;> rfl, same, rfl⟩
    exact ⟨.cons echoes.symm, .cons echoes⟩
  | @blanks r rs p p' g g' hp hp' hg hg' =>
    have echoes : r.Echoes k (r.padded p p' g g') := echoes_padded hp hp' hg hg'
    exact ⟨.cons echoes, .cons echoes.symm⟩
  | symm _ ih => exact ih.symm
  | trans _ _ ih ih' => exact ⟨ih.1.trans ih'.1, ih'.2.trans ih.2⟩

end Resource

namespace Collection

open Resource (Reworded Echoed)

variable {k : Kind} {a b desired observed rs ds os : List Resource} {d o r : Resource} {n m : String}

theorem ascending_targets (k : Kind) (rs : List Resource) : (targets k rs).Pairwise (· < ·) := Names.pairwise_ofList _

theorem ascending_retired (k : Kind) (desired observed : List Resource) :
    (retired k desired observed).Pairwise (· < ·) :=
  Names.pairwise_without _ (ascending_targets k observed)

theorem targets_of_reworded (h : Reworded a b) : targets k a = targets k b := by
  obtain ⟨there, back⟩ := Resource.echoed_of_reworded h k
  have declares (n : String) : k.Declares a n ↔ k.Declares b n :=
    ⟨fun h => h.of_echoed there, fun h => h.of_echoed back⟩
  exact Names.eq_of_mem_iff (ascending_targets k a) (ascending_targets k b) fun n =>
    mem_targets.trans ((declares n).trans mem_targets.symm)

theorem membersFor_of_reworded (h : Reworded a b) : membersFor k n a = membersFor k n b := by
  obtain ⟨there, back⟩ := Resource.echoed_of_reworded h k
  have places (m : String) : k.Places a n m ↔ k.Places b n m :=
    ⟨fun h => h.of_echoed there, fun h => h.of_echoed back⟩
  exact Names.eq_of_mem_iff (Names.pairwise_ofList _) (Names.pairwise_ofList _) fun m =>
    mem_membersFor.trans ((places m).trans mem_membersFor.symm)

theorem exclusiveFor_of_echoed (h : Echoed k a b) (exclusive : exclusiveFor k n a = true) :
    exclusiveFor k n b = true := by
  obtain ⟨r, hr, target, exclusive⟩ := exclusiveFor_iff.1 exclusive
  obtain ⟨s, hs, hrs⟩ := h r hr
  exact exclusiveFor_iff.2 ⟨s, hs, hrs.target ▸ target, hrs.exclusive ▸ exclusive⟩

theorem exclusiveFor_of_reworded (h : Reworded a b) : exclusiveFor k n a = exclusiveFor k n b := by
  obtain ⟨there, back⟩ := Resource.echoed_of_reworded h k
  exact Bool.eq_iff_iff.2 ⟨exclusiveFor_of_echoed there, exclusiveFor_of_echoed back⟩

/-- Neither the order nor repetitions nor blanks around names change the plans. -/
theorem plans_of_reworded {desired' observed' : List Resource} (hd : Reworded desired desired')
    (ho : Reworded observed observed') : plans k desired' observed' = plans k desired observed := by
  rw [plans, plans, targets_of_reworded hd]
  refine List.map_congr_left fun n _ => ?_
  rw [planFor, planFor, membersFor_of_reworded hd, membersFor_of_reworded ho, exclusiveFor_of_reworded hd]

theorem retired_of_reworded {desired' observed' : List Resource} (hd : Reworded desired desired')
    (ho : Reworded observed observed') : retired k desired' observed' = retired k desired observed := by
  rw [retired, retired, targets_of_reworded hd, targets_of_reworded ho]

/-! ## One pass over each list -/

/-- What is known after some resources were read: the plans, in ascending order of their names, and the names of
the collections that are retired. -/
structure Gathered where
  plans : List Plan
  retired : Names
  deriving DecidableEq, Repr

namespace Plan

/-- The plan for a collection of which nothing is known yet. -/
def empty (n : String) : Plan := ⟨n, [], [], false⟩

/-- A declared resource names the collection. -/
def declare (r : Resource) (p : Plan) : Plan :=
  { p with desired := p.desired.union r.members, exclusive := p.exclusive || r.exclusive }

/-- An applied resource names the collection. -/
def apply (r : Resource) (p : Plan) : Plan := { p with observed := p.observed.union r.members }

end Plan

/-- Change the plan with a name; where there is none, begin with an empty one and put it in its place. -/
def upsert (n : String) (change : Plan → Plan) : List Plan → List Plan
  | [] => [change (.empty n)]
  | p :: ps =>
    if n = p.name then change p :: ps
    else if n < p.name then change (.empty n) :: p :: ps
    else p :: upsert n change ps

def readDeclared (k : Kind) (ps : List Plan) (r : Resource) : List Plan :=
  match k.target? r with
  | none => ps
  | some n => upsert n (Plan.declare r) ps

def readApplied (k : Kind) (known : Gathered) (r : Resource) : Gathered :=
  match k.target? r with
  | none => known
  | some n =>
    if known.plans.any fun p => p.name = n then
      { known with plans := known.plans.map fun p => if p.name = n then p.apply r else p }
    else { known with retired := known.retired.insert n }

/-- Read all declared resources, and then all applied ones. -/
def gather (k : Kind) (desired observed : List Resource) : Gathered :=
  observed.foldl (readApplied k) ⟨desired.foldl (readDeclared k) [], []⟩

/-! ### One more resource -/

theorem targets_concat_none (h : k.target? r = none) : targets k (rs ++ [r]) = targets k rs := by
  rw [targets, targets, List.filterMap_append, List.filterMap_cons_none h, List.filterMap_nil, List.append_nil]

theorem targets_concat_some (h : k.target? r = some n) : targets k (rs ++ [r]) = (targets k rs).insert n := by
  refine Names.eq_of_mem_iff (ascending_targets k _) (Names.pairwise_insert (ascending_targets k rs)) fun x => ?_
  rw [Names.mem_insert, targets, Names.mem_ofList, List.filterMap_append, List.filterMap_cons_some h,
    List.filterMap_nil, List.mem_append, List.mem_singleton, targets, Names.mem_ofList]
  exact or_comm

theorem targeting_concat :
    targeting k n (rs ++ [r]) = targeting k n rs ++ if k.target? r = some n then [r] else [] := by
  rw [targeting, targeting, List.filter_append]
  by_cases target : k.target? r = some n <;> simp [target]

theorem membersFor_concat : membersFor k n (rs ++ [r]) =
    if k.target? r = some n then (membersFor k n rs).union r.members else membersFor k n rs := by
  rw [membersFor, targeting_concat]
  split
  · refine Names.eq_of_mem_iff (Names.pairwise_ofList _) (Names.pairwise_ofList _) fun m => ?_
    rw [Names.union, Names.mem_ofList, Names.mem_ofList, List.flatMap_append, List.mem_append, List.mem_append,
      membersFor, Names.mem_ofList, List.flatMap_singleton]
  · rw [List.append_nil, membersFor]

theorem exclusiveFor_concat : exclusiveFor k n (rs ++ [r]) =
    if k.target? r = some n then exclusiveFor k n rs || r.exclusive else exclusiveFor k n rs := by
  rw [exclusiveFor, targeting_concat]
  split
  · rw [List.any_append, List.any_cons, List.any_nil, Bool.or_false, exclusiveFor]
  · rw [List.append_nil, exclusiveFor]

theorem planFor_concat_declared : planFor k (ds ++ [d]) os n =
    if k.target? d = some n then (planFor k ds os n).declare d else planFor k ds os n := by
  rw [planFor, membersFor_concat, exclusiveFor_concat]
  split <;> rfl

theorem planFor_concat_applied : planFor k ds (os ++ [o]) n =
    if k.target? o = some n then (planFor k ds os n).apply o else planFor k ds os n := by
  rw [planFor, membersFor_concat]
  split <;> rfl

theorem retired_concat_declared (h : k.target? o = some n) (declared : n ∈ targets k ds) :
    retired k ds (os ++ [o]) = retired k ds os := by
  refine Names.eq_of_mem_iff (ascending_retired k ds _) (ascending_retired k ds os) fun x => ?_
  rw [retired, retired, Names.mem_without, Names.mem_without, targets_concat_some h, Names.mem_insert]
  constructor
  · rintro ⟨rfl | hx, undeclared⟩
    · exact absurd declared undeclared
    · exact ⟨hx, undeclared⟩
  · exact fun ⟨hx, undeclared⟩ => ⟨.inr hx, undeclared⟩

theorem retired_concat_undeclared (h : k.target? o = some n) (undeclared : n ∉ targets k ds) :
    retired k ds (os ++ [o]) = (retired k ds os).insert n := by
  refine Names.eq_of_mem_iff (ascending_retired k ds _) (Names.pairwise_insert (ascending_retired k ds os)) fun x => ?_
  rw [retired, Names.mem_without, targets_concat_some h, Names.mem_insert, Names.mem_insert, retired,
    Names.mem_without, or_and_right]
  refine or_congr_left (and_iff_left_of_imp ?_)
  rintro rfl
  exact undeclared

theorem planFor_of_not_mem (h : n ∉ targets k ds) : planFor k ds [] n = .empty n := by
  have nothing : targeting k n ds = [] := List.filter_eq_nil_iff.2 fun r hr target =>
    h (mem_targets.2 ⟨r, hr, of_decide_eq_true target⟩)
  rw [planFor, membersFor, nothing, exclusiveFor, nothing]
  rfl

theorem ite_some_eq_some {p q : Plan} : (if some n = some m then p else q) = if m = n then p else q := by
  by_cases same : m = n
  · rw [if_pos same, if_pos (congrArg some same.symm)]
  · rw [if_neg same, if_neg fun h => same (Option.some.inj h).symm]

theorem any_plans_iff : ((plans k ds os).any fun p => p.name = n) = true ↔ n ∈ targets k ds := by
  rw [List.any_eq_true]
  constructor
  · rintro ⟨p, hp, named⟩
    obtain ⟨m, hm, rfl⟩ := List.mem_map.1 hp
    exact (of_decide_eq_true named : m = n) ▸ hm
  · intro hn
    exact ⟨planFor k ds os n, List.mem_map_of_mem hn, decide_eq_true rfl⟩

/-- If plans are kept for some names, one of which is changed or begun, there are plans for these names and it. -/
theorem upsert_map {ns : Names} {f : String → Plan} {change : Plan → Plan} (named : ∀ m, (f m).name = m)
    (ascending : ns.Pairwise (· < ·)) (absent : n ∉ ns → f n = .empty n) :
    upsert n change (ns.map f) = (ns.insert n).map fun m => if m = n then change (f m) else f m := by
  have others {ms : List String} (h : ∀ m ∈ ms, m ≠ n) :
      (ms.map fun m => if m = n then change (f m) else f m) = ms.map f :=
    List.map_congr_left fun m hm => if_neg (h m hm)
  induction ns with
  | nil => simp [upsert, Names.insert, absent]
  | cons m rest ih =>
    obtain ⟨above, ascending⟩ := List.pairwise_cons.1 ascending
    rw [List.map_cons, upsert, Names.insert, named]
    by_cases same : n = m
    · subst same
      rw [if_pos rfl, if_pos rfl, List.map_cons, if_pos rfl, others fun x hx => ?_]
      rintro rfl
      exact String.lt_irrefl x (above x hx)
    rw [if_neg same, if_neg same]
    by_cases before : n < m
    · -- the names ascend, so a name before the first one is nowhere among them
      have higher : ∀ x ∈ m :: rest, x ≠ n := by
        rintro x hx rfl
        rcases List.mem_cons.1 hx with rfl | hx
        · exact same rfl
        · exact String.lt_asymm before (above x hx)
      rw [if_pos before, if_pos before, List.map_cons, if_pos rfl, others higher, List.map_cons,
        absent fun hn => higher n hn rfl]
    · rw [if_neg before, if_neg before, List.map_cons, if_neg (Ne.symm same), ih ascending fun hn => absent ?_]
      exact List.not_mem_cons_of_ne_of_not_mem same hn

/-- The plans are right for one more declared resource. -/
theorem readDeclared_plans : readDeclared k (plans k ds []) d = plans k (ds ++ [d]) [] := by
  rw [readDeclared]
  cases target : k.target? d with
  | none =>
    rw [plans, plans, targets_concat_none target]
    refine List.map_congr_left fun n _ => ?_
    rw [planFor_concat_declared, if_neg (by simp [target])]
  | some n =>
    show upsert n _ _ = _
    rw [plans, upsert_map (fun _ => rfl) (ascending_targets k ds) planFor_of_not_mem, plans, targets_concat_some target]
    refine List.map_congr_left fun m _ => ?_
    rw [planFor_concat_declared, target, ite_some_eq_some]

/-- The plans and the retired names are right for one more applied resource. -/
theorem readApplied_plans : readApplied k ⟨plans k ds os, retired k ds os⟩ o =
    ⟨plans k ds (os ++ [o]), retired k ds (os ++ [o])⟩ := by
  rw [readApplied]
  cases target : k.target? o with
  | none =>
    have same : plans k ds (os ++ [o]) = plans k ds os := List.map_congr_left fun n _ => by
      rw [planFor_concat_applied, if_neg (by simp [target])]
    rw [same, retired, retired, targets_concat_none target]
  | some n =>
    show (if _ then _ else _) = _
    by_cases declared : n ∈ targets k ds
    · rw [if_pos (any_plans_iff.2 declared), retired_concat_declared target declared, Gathered.mk.injEq]
      refine ⟨?_, rfl⟩
      rw [plans, List.map_map, plans]
      refine List.map_congr_left fun m _ => ?_
      rw [planFor_concat_applied, target, ite_some_eq_some]
      rfl
    · rw [if_neg fun h => declared (any_plans_iff.1 h), retired_concat_undeclared target declared, Gathered.mk.injEq]
      refine ⟨List.map_congr_left fun m hm => ?_, rfl⟩
      rw [planFor_concat_applied, target, if_neg]
      rintro ⟨⟩
      exact declared hm

/-! ### All of them -/

-- Both inductions are on what is left to read. What is known is right for what was read before, so that is general.

theorem foldl_readDeclared (done rest : List Resource) :
    rest.foldl (readDeclared k) (plans k done []) = plans k (done ++ rest) [] := by
  induction rest generalizing done with
  | nil => rw [List.foldl_nil, List.append_nil]
  | cons d rest ih => rw [List.foldl_cons, readDeclared_plans, ih, List.append_assoc, List.singleton_append]

theorem foldl_readApplied (done rest : List Resource) :
    rest.foldl (readApplied k) ⟨plans k ds done, retired k ds done⟩ =
      ⟨plans k ds (done ++ rest), retired k ds (done ++ rest)⟩ := by
  induction rest generalizing done with
  | nil => rw [List.foldl_nil, List.append_nil]
  | cons o rest ih => rw [List.foldl_cons, readApplied_plans, ih, List.append_assoc, List.singleton_append]

/-- One pass over each list is enough. -/
theorem gather_eq : gather k desired observed = ⟨plans k desired observed, retired k desired observed⟩ := by
  have begun : desired.foldl (readDeclared k) [] = plans k desired [] := foldl_readDeclared [] desired
  have nothing_retired : retired k desired [] = [] := rfl
  rw [gather, begun, ← nothing_retired]
  exact foldl_readApplied [] observed

/-! ## All that the lists say, and nothing else -/

/-- The plans and the retired names account for what is declared and what was applied: every collection that a
resource names is in one of them, and each plan has what the resources say that name its collection. -/
structure Planned (k : Kind) (desired observed : List Resource) (ps : List Plan) (gone : Names) : Prop where
  ascending : (ps.map (·.name)).Pairwise (· < ·)
  mem_names : ∀ n, n ∈ ps.map (·.name) ↔ ∃ r ∈ desired, k.Means r n
  retired_ascending : gone.Pairwise (· < ·)
  mem_retired : ∀ n, n ∈ gone ↔ (∃ r ∈ observed, k.Means r n) ∧ ¬ ∃ r ∈ desired, k.Means r n
  disjoint : (ps.map (·.name)).Disjoint gone
  together : (ps.map (·.name) ++ gone).Perm (namesOf k [desired, observed])
  wanted : ∀ p ∈ ps, p.desired.Pairwise (· < ·) ∧
    ∀ m, m ∈ p.desired ↔ ∃ r ∈ desired, k.Means r p.name ∧ m ∈ r.members
  given : ∀ p ∈ ps, p.observed.Pairwise (· < ·) ∧
    ∀ m, m ∈ p.observed ↔ ∃ r ∈ observed, k.Means r p.name ∧ m ∈ r.members
  marked : ∀ p ∈ ps, p.exclusive = true ↔ ∃ r ∈ desired, k.Means r p.name ∧ r.exclusive = true

theorem mem_targets_iff_means : n ∈ targets k rs ↔ ∃ r ∈ rs, k.Means r n := by
  simp only [mem_targets, Kind.target?_eq_some_iff]

theorem mem_membersFor_iff_means : m ∈ membersFor k n rs ↔ ∃ r ∈ rs, k.Means r n ∧ m ∈ r.members := by
  simp only [mem_membersFor, Kind.target?_eq_some_iff]

theorem exclusiveFor_iff_means : exclusiveFor k n rs = true ↔ ∃ r ∈ rs, k.Means r n ∧ r.exclusive = true := by
  simp only [exclusiveFor_iff, Kind.target?_eq_some_iff]

theorem plans_planned (k : Kind) (desired observed : List Resource) :
    Planned k desired observed (plans k desired observed) (retired k desired observed) := by
  have names : (plans k desired observed).map (·.name) = targets k desired := Hardware.plans_name desired observed
  have disjoint : (targets k desired).Disjoint (retired k desired observed) :=
    fun _ hn gone => (Names.mem_without.1 gone).2 hn
  constructor
  case ascending => exact names ▸ ascending_targets k desired
  case mem_names => exact fun n => names ▸ mem_targets_iff_means
  case retired_ascending => exact ascending_retired k desired observed
  case mem_retired =>
    intro n
    rw [retired, Names.mem_without, mem_targets_iff_means, mem_targets_iff_means]
  case disjoint => exact names ▸ disjoint
  case together =>
    rw [names]
    have once : (targets k desired ++ retired k desired observed).Nodup :=
      List.nodup_append'.2 ⟨Hardware.nodup_of_ascending (ascending_targets k desired),
        Hardware.nodup_of_ascending (ascending_retired k desired observed), disjoint⟩
    have all_once : (namesOf k [desired, observed]).Nodup := Hardware.nodup_of_ascending (ascending_targets k _)
    refine (List.perm_ext_iff_of_nodup once all_once).2 fun n => ?_
    rw [List.mem_append, retired, Names.mem_without, mem_namesOf, or_and_left]
    exact and_iff_left (Classical.em _)
  case wanted =>
    intro p hp
    obtain ⟨n, _, rfl⟩ := List.mem_map.1 hp
    exact ⟨Names.pairwise_ofList _, fun m => mem_membersFor_iff_means⟩
  case given =>
    intro p hp
    obtain ⟨n, _, rfl⟩ := List.mem_map.1 hp
    exact ⟨Names.pairwise_ofList _, fun m => mem_membersFor_iff_means⟩
  case marked =>
    intro p hp
    obtain ⟨n, _, rfl⟩ := List.mem_map.1 hp
    exact exclusiveFor_iff_means

/-- No other plans and retired names account for the lists. -/
theorem planned_iff {ps : List Plan} {gone : Names} :
    Planned k desired observed ps gone ↔ ps = plans k desired observed ∧ gone = retired k desired observed := by
  constructor
  · intro h
    have names : ps.map (·.name) = targets k desired :=
      Names.eq_of_mem_iff h.ascending (ascending_targets k desired) fun n =>
        (h.mem_names n).trans mem_targets_iff_means.symm
    have each : ∀ p ∈ ps, planFor k desired observed p.name = p := by
      intro p hp
      have wanted : membersFor k p.name desired = p.desired :=
        Names.eq_of_mem_iff (Names.pairwise_ofList _) (h.wanted p hp).1 fun m =>
          mem_membersFor_iff_means.trans ((h.wanted p hp).2 m).symm
      have given : membersFor k p.name observed = p.observed :=
        Names.eq_of_mem_iff (Names.pairwise_ofList _) (h.given p hp).1 fun m =>
          mem_membersFor_iff_means.trans ((h.given p hp).2 m).symm
      have marked : exclusiveFor k p.name desired = p.exclusive :=
        Bool.eq_iff_iff.2 (exclusiveFor_iff_means.trans (h.marked p hp).symm)
      rw [planFor, wanted, given, marked]
    constructor
    · calc ps = ps.map id := (List.map_id ps).symm
        _ = ps.map fun p => planFor k desired observed p.name := (List.map_congr_left each).symm
        _ = (ps.map (·.name)).map (planFor k desired observed) := by rw [List.map_map]; rfl
        _ = plans k desired observed := by rw [names, plans]
    · exact Names.eq_of_mem_iff h.retired_ascending (ascending_retired k desired observed) fun n =>
        (h.mem_retired n).trans ((plans_planned k desired observed).mem_retired n).symm
  · rintro ⟨rfl, rfl⟩
    exact plans_planned k desired observed

/-- The plans and the retired names account for all that is declared and was applied and for nothing else, and no
others do. They are found in one pass over each list, and are the same for lists that say the same in other words. -/
theorem plans_faithful (k : Kind) (desired observed : List Resource) :
    (∀ ps gone, Planned k desired observed ps gone ↔
      ps = plans k desired observed ∧ gone = retired k desired observed) ∧
    gather k desired observed = ⟨plans k desired observed, retired k desired observed⟩ ∧
    ∀ desired' observed', Reworded desired desired' → Reworded observed observed' →
      plans k desired' observed' = plans k desired observed ∧
        retired k desired' observed' = retired k desired observed :=
  ⟨fun _ _ => planned_iff, gather_eq, fun _ _ hd ho => ⟨plans_of_reworded hd ho, retired_of_reworded hd ho⟩⟩

/-- Two classes of nodes share a partition. -/
def twoClasses : List Resource :=
  [{ label := "compute", members := ["x1"], partition := "p-blue" },
    { label := "application", members := ["x9"], partition := "p-blue", exclusive := true }]

/-- The first class is said twice, and the second one with blanks around the partition and with its node repeated. -/
def twoClassesRetold : List Resource :=
  [{ label := "compute", members := ["x1"], partition := "p-blue" },
    { label := "application", members := ["x9", "x9"], partition := " p-blue\t", exclusive := true },
    { label := "compute", members := ["x1"], partition := "p-blue" }]

/-- What was applied before: more nodes in the partition, and another partition. -/
def earlier : List Resource :=
  [{ label := "compute", members := ["x1", "x2"], partition := "p-blue" },
    { label := "io", members := ["x3"], partition := "p-old" }]

/-- With the applied resources in another order as well, nothing is lost or invented. -/
theorem plans_faithful_of_retold : Reworded twoClasses twoClassesRetold ∧ Reworded earlier earlier.reverse ∧
    plans .partition twoClassesRetold earlier.reverse = [⟨"p-blue", ["x1", "x9"], ["x1", "x2"], true⟩] ∧
    retired .partition twoClassesRetold earlier.reverse = ["p-old"] := by
  have blank (c : Char) (h : Text.isBlank c = true) : Blank (String.singleton c) := by
    intro d hd
    rw [String.toList_singleton, List.mem_singleton] at hd
    rwa [hd]
  have no_blank : Blank "" := fun _ hc => absurd hc List.not_mem_nil
  have doubled : ∀ m, m ∈ ["x9", "x9"] ↔ m ∈ ["x9"] := by simp
  have swapped : Reworded twoClasses twoClasses.reverse := .order (List.reverse_perm twoClasses).symm
  have blanks : Reworded twoClasses.reverse _ := .blanks (blank ' ' rfl) (blank '\t' rfl) no_blank no_blank
  have repeated : Reworded twoClassesRetold.tail twoClassesRetold := .again (List.mem_cons_of_mem _ List.mem_cons_self)
  have retold : Reworded twoClasses twoClassesRetold := (swapped.trans blanks).trans (.trans (.members doubled) repeated)
  have reversed : Reworded earlier earlier.reverse := .order (List.reverse_perm earlier).symm
  obtain ⟨_, _, same⟩ := plans_faithful .partition twoClasses earlier
  obtain ⟨plans_same, retired_same⟩ := same _ _ retold reversed
  refine ⟨retold, reversed, ?_, ?_⟩
  · rw [plans_same]
    decide +kernel
  · rw [retired_same]
    decide +kernel

end Collection

end Tenancy

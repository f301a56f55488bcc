import Tenancy.Proofs.Convergence
import Tenancy.Proofs.Stages

/-!
# Nodes that move

A node should be in one collection of a kind at a time. Within a collection all removals come before the
additions, and collections that nothing declares any more are deleted before anything else happens. Between
two collections that stay there is only the order of their names: the collections are carried out in that
order, one after the other. So a node that moves to a collection with a later name leaves its old one first,
and a node that moves to one with an earlier name is in both for a while.

`one_place_iff_forward` says that this is all. No node may be in two collections of what was applied, or of
what is declared, and the service holds what was applied; then no node is ever in two of these collections if
and only if no node moves from one that stays to one with an earlier name. What carries the one direction is
known of each member while collections are carried out (`Standing`): one that is done has members that are
declared for it, and one that is not done yet has members that were applied. In the other direction the two
collections are seen when the earlier one is done and the later one is not (`in_two_places`).
-/

namespace Tenancy

open Rehearsal Rehearsal.World

namespace Kind

/-- No node belongs to two collections. -/
def Apart (k : Kind) (rs : List Resource) : Prop := ∀ n n' m, k.Places rs n m → k.Places rs n' m → n = n'

/-- The collection is named in one of two lists of resources. -/
def Mentions (k : Kind) (rs rs' : List Resource) (n : String) : Prop := k.Declares rs n ∨ k.Declares rs' n

/-- No node moves from a collection that stays to one with an earlier name. -/
def Forward (k : Kind) (desired observed : List Resource) : Prop :=
  ∀ n n' m, k.Declares desired n → k.Places observed n m → k.Places desired n' m → ¬ n' < n

variable {k : Kind} {rs : List Resource} {n m : String}

theorem Places.declares (h : k.Places rs n m) : k.Declares rs n := by
  obtain ⟨r, hr, target, _⟩ := h
  exact ⟨r, hr, target⟩

end Kind

namespace Rehearsal.World

variable {kept : BackingSystem → Prop} {w w' : World} {k : Kind} {n m : String}

/-- Every member of a collection of the kind is one that may be there. -/
def Placed (k : Kind) (may : String → String → Prop) (w : World) : Prop :=
  ∀ n m, w.HasMember k n m → may n m

/-- A call adds only members that may be there, and makes only empty collections. -/
def Gives (k : Kind) (may : String → String → Prop) : Call → Prop
  | .hardware (.add k' n m) => k' = k → may n m
  | .hardware (.create _ c) => c.members = []
  | .hardware _ => True
  | _ => False

theorem Placed.of_call (hk : kept .hardware) {may : String → String → Prop} {c : Call}
    {r : Except Error c.Reply} (gives : Gives k may c) (h : conduct kept Call.FailsPlainly c w r w')
    (hw : Placed k may w) : Placed k may w' := by
  intro n m hm
  cases c with
  | hardware c =>
    rcases hasMember_of_call hk h hm with before | rfl | ⟨made, rfl, _, hmade⟩
    · exact hw n m before
    · exact gives rfl
    · rw [show made.members = [] from gives] at hmade
      cases hmade
  | store | hierarchy | identity | vault | hook => exact gives.elim

theorem along_placed {α : Type} (hk : kept .hardware) {may : String → String → Prop} {C : World → Prop}
    {t : Job α} (asks : t.Asks (Gives k may)) (all : ∀ w, Placed k may w → C w) :
    Job.Along (conduct kept Call.FailsPlainly) (Placed k may) C t (Placed k may) :=
  Job.along_of_asks asks (fun _ _ _ _ gives h hw => hw.of_call hk gives h) all

end Rehearsal.World

namespace Hardware

/-- Every node is in one at most of the collections that are declared or were applied. -/
def InOnePlace (k : Kind) (desired observed : List Resource) (w : World) : Prop :=
  ∀ n n' m, k.Mentions desired observed n → k.Mentions desired observed n' → w.HasMember k n m →
    w.HasMember k n' m → n = n'

/-- The collections that are declared or were applied have the members that were applied. -/
def HoldsApplied (k : Kind) (desired observed : List Resource) (w : World) : Prop :=
  ∀ n m, k.Mentions desired observed n → (w.HasMember k n m ↔ k.Places observed n m)

/-- What a member of a collection is when some collections are done: in one of these it is declared, and one
that is not done yet is still declared and has it from before. -/
def Standing (k : Kind) (desired observed : List Resource) (done : List String) (n m : String) : Prop :=
  k.Mentions desired observed n → (n ∈ done → k.Places desired n m) ∧
    (n ∉ done → k.Declares desired n ∧ k.Places observed n m)

variable {kept : BackingSystem → Prop} {tenant : String} {k : Kind} {desired observed : List Resource}
  {w w' : World} {tr : List (Moment Services World)}

/-! ## Moves to later names -/

theorem inOnePlace_of_applied (apart : k.Apart observed)
    (hw : Placed k (fun n m => k.Mentions desired observed n → k.Places observed n m) w) :
    InOnePlace k desired observed w := fun n n' m hn hn' hm hm' =>
  apart n n' m (hw n m hm hn) (hw n' m hm' hn')

theorem inOnePlace_of_standing (apart : k.Apart desired) (apart' : k.Apart observed)
    (forward : k.Forward desired observed) {done rest : List String}
    (split : Collection.targets k desired = done ++ rest)
    (hw : Placed k (Standing k desired observed done) w) : InOnePlace k desired observed w := by
  have ordered : (done ++ rest).Pairwise (· < ·) := split ▸ Names.pairwise_ofList _
  -- the names of the collections that are done are before those of the others
  have mixed {n n' m : String} (hn : k.Mentions desired observed n) (hn' : k.Mentions desired observed n')
      (hd : n ∉ done) (hd' : n' ∈ done) (hm : w.HasMember k n m) (hm' : w.HasMember k n' m) : False := by
    obtain ⟨declared, was⟩ := (hw n m hm hn).2 hd
    have there : n ∈ done ++ rest := split ▸ Collection.mem_targets.2 declared
    have later : n ∈ rest := (List.mem_append.1 there).resolve_left hd
    have earlier : n' < n := (List.pairwise_append.1 ordered).2.2 n' hd' n later
    exact forward n n' m declared was ((hw n' m hm' hn').1 hd') earlier
  intro n n' m hn hn' hm hm'
  by_cases hd : n ∈ done <;> by_cases hd' : n' ∈ done
  · exact apart n n' m ((hw n m hm hn).1 hd) ((hw n' m hm' hn').1 hd')
  · exact (mixed hn' hn hd' hd hm' hm).elim
  · exact (mixed hn hn' hd hd' hm hm').elim
  · exact apart' n n' m ((hw n m hm hn).2 hd).2 ((hw n' m hm' hn').2 hd').2

theorem along_retire (hk : kept .hardware) (apart : k.Apart observed) :
    Job.Along (conduct kept Call.FailsPlainly)
      (Placed k fun n m => k.Mentions desired observed n → k.Places observed n m)
      (InOnePlace k desired observed)
      ((Collection.retired k desired observed).forM fun n => discard (removeCollection k n))
      (Placed k (Standing k desired observed [])) := by
  refine Job.along_ok (along_placed hk ?_ fun w => inOnePlace_of_applied apart) ?_
  · exact Job.asks_forM fun n _ => Job.asks_discard (asks_removeCollection trivial)
  · intro w tr _ w' _ hg hw' n m hm hn
    refine ⟨fun h => (by cases h), fun _ => ⟨?_, hw' n m hm hn⟩⟩
    -- a collection that still has a member was not deleted
    refine hn.elim id fun ho => Classical.byContradiction fun hd => ?_
    have gone := (removeCollections_ok hk hg).1 n (Names.mem_without.2
      ⟨Collection.mem_targets.2 ho, fun h => hd (Collection.mem_targets.1 h)⟩)
    obtain ⟨c, hc, _⟩ := hm
    cases gone.symm.trans hc

/-- When what is not declared has been dropped from a collection, it is done. -/
theorem standing_of_dropped {done : List String} {n : String} {ms : List String}
    (dropped : ∀ m, k.Places observed n m → ¬ k.Places desired n m → m ∈ ms)
    (members : ∀ m, w'.HasMember k n m ↔ w.HasMember k n m ∧ m ∉ ms) (other : SameElse k n w w')
    (hw : Placed k (Standing k desired observed done) w) :
    Placed k (Standing k desired observed (done ++ [n])) w' := by
  intro n' m hm hn'
  by_cases he : n' = n
  · subst he
    obtain ⟨before, left⟩ := (members m).1 hm
    have isDone : n' ∈ done ++ [n'] := List.mem_append_right done List.mem_cons_self
    refine ⟨fun _ => ?_, fun h => absurd isDone h⟩
    by_cases hd : n' ∈ done
    · exact (hw n' m before hn').1 hd
    · exact Classical.byContradiction fun hp => left (dropped m ((hw n' m before hn').2 hd).2 hp)
  · have before : w.HasMember k n' m := (other.hasMember hm).resolve_left fun h => he h.2
    obtain ⟨isDone, isNot⟩ := hw n' m before hn'
    exact ⟨fun h => isDone (by simpa [he] using h), fun h => isNot fun hd => h (by simp [hd])⟩

theorem along_carryOut (hk : kept .hardware) (apart : k.Apart desired) (apart' : k.Apart observed)
    (forward : k.Forward desired observed) {done rest : List String} {n : String}
    (split : Collection.targets k desired = done ++ n :: rest) :
    Job.Along (conduct kept Call.FailsPlainly) (Placed k (Standing k desired observed done))
      (InOnePlace k desired observed) (carryOut tenant k (Collection.planFor k desired observed n))
      (Placed k (Standing k desired observed (done ++ [n]))) := by
  have before (w : World) := inOnePlace_of_standing (w := w) apart apart' forward split
  have after (w : World) := inOnePlace_of_standing (w := w) apart apart' forward
    (split.trans (List.append_cons done n rest))
  refine Job.along_bind (along_placed hk (asks_ensureCollection trivial rfl) before) fun _ =>
    Job.along_bind (Job.along_ok (along_placed hk ?_ before) ?_) fun _ => along_placed hk ?_ after
  · exact Job.asks_forM fun m _ => asks_dropMember trivial
  · intro w tr _ w' hw hg _
    obtain ⟨members, _, other⟩ := dropMembers_ok hk hg
    refine standing_of_dropped (fun m was isNot => MemberDiff.mem_toRemove.2 ?_) members other hw
    exact ⟨Collection.mem_membersFor.2 was, fun h => isNot (Collection.mem_membersFor.1 h)⟩
  · have isDone : n ∈ done ++ [n] := List.mem_append_right done List.mem_cons_self
    refine Job.asks_forM fun m hm => asks_putMember fun _ _ => ⟨fun _ => ?_, fun h => absurd isDone h⟩
    exact Collection.mem_membersFor.1 (MemberDiff.mem_toAdd.1 hm).1

/-- If no node moves to an earlier name, no node is in two collections on the way, whatever calls fail. -/
theorem along_converge (hk : kept .hardware) (apart : k.Apart desired) (apart' : k.Apart observed)
    (forward : k.Forward desired observed) :
    Job.Along (conduct kept Call.FailsPlainly)
      (Placed k fun n m => k.Mentions desired observed n → k.Places observed n m)
      (InOnePlace k desired observed) (converge tenant k desired observed)
      (Placed k (Standing k desired observed (Collection.targets k desired))) := by
  refine Job.along_bind (along_retire hk apart') fun _ => ?_
  rw [Collection.plans, List.forM_eq_forM, List.forM_map]
  exact Job.along_forM (fun w => inOnePlace_of_standing apart apart' forward (List.append_nil _).symm)
    fun done n rest split => along_carryOut hk apart apart' forward split

/-! ## Moves to earlier names -/

/-- A node that moves from a collection that stays to one with an earlier name is in both when the earlier one is
done and the later one is not. -/
theorem in_two_places (hk : kept .hardware) (apart : k.Apart observed)
    (held : HoldsApplied k desired observed w) {n n' m : String} (stays : k.Declares desired n)
    (was : k.Places observed n m) (will : k.Places desired n' m) (earlier : n' < n)
    (h : (converge tenant k desired observed).Goes (conduct kept Call.FailsPlainly) w tr (.ok ()) w') :
    ∃ w₁, ((∃ mo ∈ tr, mo.before = w₁) ∨ w' = w₁) ∧ w₁.HasMember k n m ∧ w₁.HasMember k n' m := by
  obtain ⟨_, w₁, tr₁, tr₂, retire, carry, rfl⟩ := Job.goes_bind_ok h
  obtain ⟨before, after, split⟩ := List.append_of_mem (Collection.mem_targets.2 stays)
  have ordered : (before ++ n :: after).Pairwise (· < ·) := split ▸ Names.pairwise_ofList _
  obtain ⟨_, ordered', across⟩ := List.pairwise_append.1 ordered
  have fresh : n ∉ before := fun hb => String.lt_irrefl n (across n hb n List.mem_cons_self)
  have done : n' ∈ before := by
    have there : n' ∈ before ++ n :: after := split ▸ Collection.mem_targets.2 will.declares
    refine (List.mem_append.1 there).resolve_right fun hr => ?_
    rcases List.mem_cons.1 hr with rfl | hr
    · exact String.lt_irrefl _ earlier
    · exact String.lt_irrefl _ (String.lt_trans earlier ((List.pairwise_cons.1 ordered').1 n' hr))
  rw [Collection.plans, List.forM_eq_forM, List.forM_map, split] at carry
  obtain ⟨w₂, tr₃, tr₄, first, rest, rfl⟩ := Job.goes_forM_append_ok carry
  obtain ⟨moved, others⟩ := carryOuts_ok hk first
  refine ⟨w₂, ?_, ?_, ?_⟩
  · rcases rest.first_or_end with ⟨mo, hmo, rfl⟩ | last
    · exact .inl ⟨mo, by simp [hmo], rfl⟩
    · exact .inr last
  · have unretired : w₁.collection k n = w.collection k n := (removeCollections_ok hk retire).2 k n fun _ hr =>
      (Names.mem_without.1 hr).2 (Collection.mem_targets.2 stays)
    rw [HasMember, others k n fun _ => fresh, unretired]
    exact (held n m (.inl stays)).2 was
  · refine ((moved n' done).2 m).2 (.inr ⟨Collection.mem_membersFor.2 will, fun ho => ?_⟩)
    obtain rfl := apart n n' m was (Collection.mem_membersFor.1 ho)
    exact String.lt_irrefl _ earlier

/-! ## All moves -/

/-- When no call fails, no node is in two collections at any time if and only if no node moves from a
collection that stays to one with an earlier name. -/
theorem one_place_iff_forward (apart : k.Apart desired) (apart' : k.Apart observed)
    (held : HoldsApplied k desired observed w) {o : Except Error Unit}
    (h : (converge tenant k desired observed).Goes (steady fun _ _ => False) w tr o w') :
    ((∀ mo ∈ tr, InOnePlace k desired observed mo.before) ∧ InOnePlace k desired observed w') ↔
      k.Forward desired observed := by
  have goes : (converge tenant k desired observed).Goes (conduct (fun _ => True) Call.FailsPlainly) w tr o w' :=
    conduct_of_goes (h.weaken fun _ _ _ _ => steady_mono fun _ _ => False.elim)
  constructor
  · rintro ⟨along, last⟩ n n' m stays was will earlier
    obtain ⟨_, done⟩ := after_converge w tenant k desired observed
    obtain rfl : o = .ok () := congrArg Prod.fst ((after_of_steady h).symm.trans done)
    obtain ⟨w₁, passed, there, there'⟩ := in_two_places trivial apart' held stays was will earlier goes
    have single : InOnePlace k desired observed w₁ := by
      rcases passed with ⟨mo, hmo, rfl⟩ | rfl
      · exact along mo hmo
      · exact last
    obtain rfl := single n n' m (.inl stays) (.inl will.declares) there there'
    exact String.lt_irrefl _ earlier
  · intro forward
    obtain ⟨along, last, _⟩ := along_converge trivial apart apart' forward
      (fun n m hm hn => (held n m hn).1 hm) goes
    exact ⟨along, last⟩

/-! ## Two partitions -/

/-- Two partitions with these nodes. -/
def halves (a b : List String) : List Resource :=
  [{ label := "first", members := a, partition := "a" }, { label := "second", members := b, partition := "b" }]

/-- A service that holds the two partitions. -/
def twoPartitions (a b : List String) : World where
  collections :=
    [("partition a", { name := "a", members := a }), ("partition b", { name := "b", members := b })]

theorem places_halves {a b : List String} {n m : String} :
    Kind.partition.Places (halves a b) n m ↔ (n = "a" ∧ m ∈ a) ∨ (n = "b" ∧ m ∈ b) := by
  have first : Kind.partition.target? { label := "first", members := a, partition := "a" } = some "a" := rfl
  have second : Kind.partition.target? { label := "second", members := b, partition := "b" } = some "b" := rfl
  simp [Kind.Places, halves, first, second, eq_comm]

theorem declares_halves {a b : List String} {n : String} :
    Kind.partition.Declares (halves a b) n ↔ n = "a" ∨ n = "b" := by
  have first : Kind.partition.target? { label := "first", members := a, partition := "a" } = some "a" := rfl
  have second : Kind.partition.target? { label := "second", members := b, partition := "b" } = some "b" := rfl
  simp [Kind.Declares, halves, first, second, eq_comm]

theorem apart_halves {a b : List String} (h : ∀ m ∈ a, m ∉ b) : Kind.partition.Apart (halves a b) := by
  intro n n' m hm hm'
  rcases places_halves.1 hm with ⟨rfl, ha⟩ | ⟨rfl, hb⟩ <;>
    rcases places_halves.1 hm' with ⟨rfl, ha'⟩ | ⟨rfl, hb'⟩
  · rfl
  · exact absurd hb' (h m ha)
  · exact absurd hb (h m ha')
  · rfl

theorem holdsApplied_twoPartitions (a b a' b' : List String) :
    HoldsApplied .partition (halves a' b') (halves a b) (twoPartitions a b) := by
  intro n m hn
  have here : (twoPartitions a b).collection .partition "a" = some { name := "a", members := a } := rfl
  have there : (twoPartitions a b).collection .partition "b" = some { name := "b", members := b } := rfl
  obtain rfl | rfl : n = "a" ∨ n = "b" := hn.elim declares_halves.1 declares_halves.1
  · simp [HasMember, here, places_halves]
  · simp [HasMember, there, places_halves]

def inFirst : List Resource := halves ["x1", "x3"] ["x2"]

def inSecond : List Resource := halves ["x3"] ["x1", "x2"]

/-- A node moves from the first partition to the second. -/
theorem one_place_of_forward_move :
    ∃ tr w', (converge "blue" .partition inSecond inFirst).Goes (steady fun _ _ => False)
        (twoPartitions ["x1", "x3"] ["x2"]) tr (.ok ()) w' ∧
      (∀ mo ∈ tr, InOnePlace .partition inSecond inFirst mo.before) ∧
      InOnePlace .partition inSecond inFirst w' ∧ w'.HasMember .partition "b" "x1" := by
  have goes : (converge "blue" .partition inSecond inFirst).Goes (steady fun _ _ => False)
      (twoPartitions ["x1", "x3"] ["x2"]) _ (.ok ()) _ := Stage.goes_undisturbed _ _
  have forward : Kind.partition.Forward inSecond inFirst := by
    intro n n' m _ was will
    rcases places_halves.1 was with ⟨rfl, hm⟩ | ⟨rfl, hm⟩ <;>
      rcases places_halves.1 will with ⟨rfl, hm'⟩ | ⟨rfl, hm'⟩
    · decide
    · decide
    · obtain rfl := List.mem_singleton.1 hm
      exact absurd hm' (by decide)
    · decide
  obtain ⟨along, last⟩ := (one_place_iff_forward (apart_halves (by decide)) (apart_halves (by decide))
    (holdsApplied_twoPartitions _ _ _ _) goes).2 forward
  exact ⟨_, _, goes, along, last, by decide +kernel⟩

/-- A node moves from the second partition to the first: it is added there before it is removed where it was. -/
theorem two_places_of_backward_move :
    ∃ tr w', (converge "blue" .partition inFirst inSecond).Goes (steady fun _ _ => False)
        (twoPartitions ["x3"] ["x1", "x2"]) tr (.ok ()) w' ∧
      Kind.partition.Apart inFirst ∧ Kind.partition.Apart inSecond ∧
      HoldsApplied .partition inFirst inSecond (twoPartitions ["x3"] ["x1", "x2"]) ∧
      ∃ mo ∈ tr, mo.before.HasMember .partition "a" "x1" ∧ mo.before.HasMember .partition "b" "x1" := by
  have goes : (converge "blue" .partition inFirst inSecond).Goes (steady fun _ _ => False)
      (twoPartitions ["x3"] ["x1", "x2"]) _ (.ok ()) _ := Stage.goes_undisturbed _ _
  exact ⟨_, _, goes, apart_halves (by decide), apart_halves (by decide), holdsApplied_twoPartitions _ _ _ _,
    by decide +kernel⟩

end Hardware

end Tenancy

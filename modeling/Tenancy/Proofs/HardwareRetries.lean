import Tenancy.Proofs.Collections
import Tenancy.Proofs.Steady

/-!
# Moving collections again

A pass works out how to move the collections from what was last applied and what is declared, and it never
looks at their members. So a pass that repeats one that failed makes the same calls again. Wherever the
first one failed, and whatever its calls were answered, each collection is somewhere on its way
(`Attempted`): it has the members that are to stay, perhaps some that are to be removed, and perhaps some of
those that are to be added. Every call keeps this, and when no call fails the way is gone to its end
(`after_converge`), which is the same one for all (`sameCollection_of_converged`).
-/

namespace Tenancy

open Rehearsal Rehearsal.World

/-- A collection but for its members. -/
def Collection.bare (c : Collection) : Collection := { c with members := [] }

namespace Hardware

/-- A collection is on its way from what was applied to what is declared: from where it was in one world
to where it is in another. -/
structure Attempted (tenant : String) (k : Kind) (desired observed : List Resource) (n : String)
    (w w' : World) : Prop where
  untouched : n ∉ Collection.targets k desired → n ∉ Collection.targets k observed →
    w'.collection k n = w.collection k n
  retired : n ∉ Collection.targets k desired →
    w'.collection k n = w.collection k n ∨ w'.collection k n = none
  there : n ∈ Collection.targets k desired → (w.collection k n).isSome = true →
    (w'.collection k n).isSome = true
  attributes : n ∈ Collection.targets k desired → ∀ c, w'.collection k n = some c →
    c.bare = ((w.collection k n).getD
      (Collection.forPlan tenant k (Collection.planFor k desired observed n))).bare
  held : n ∈ Collection.targets k desired → ∀ m, w.HasMember k n m →
    ¬ (m ∈ Collection.membersFor k n observed ∧ m ∉ Collection.membersFor k n desired) →
    w'.HasMember k n m
  given : n ∈ Collection.targets k desired → ∀ m, w'.HasMember k n m → w.HasMember k n m ∨
    (m ∈ Collection.membersFor k n desired ∧ m ∉ Collection.membersFor k n observed)

variable {tenant : String} {k : Kind} {desired observed : List Resource} {n : String}
  {w w₁ w₂ : World} {fails : Call → Error → Prop}

theorem Attempted.refl (tenant : String) (k : Kind) (desired observed : List Resource) (n : String)
    (w : World) : Attempted tenant k desired observed n w w := by
  constructor
  case untouched => exact fun _ _ => rfl
  case retired => exact fun _ => .inl rfl
  case there => exact fun _ => id
  case attributes =>
    intro _ c hc
    rw [hc]
    rfl
  case held => exact fun _ _ hm _ => hm
  case given => exact fun _ _ hm => .inl hm

theorem Attempted.congr (h : Attempted tenant k desired observed n w w₁)
    (same : w₂.collection k n = w₁.collection k n) : Attempted tenant k desired observed n w w₂ := by
  obtain ⟨untouched, retired, there, attributes, held, given⟩ := h
  unfold HasMember at held given
  rw [← same] at untouched retired there attributes held given
  exact ⟨untouched, retired, there, attributes, held, given⟩

/-! ## One call -/

/-- A call that moves collections, if it succeeds, leaves each of them on its way. -/
theorem Attempted.of_answer {k' : Kind} {c : HardwareCall} (moves : Moves tenant k' desired observed c)
    {r : Except Error (Call.hardware c).Reply} (hr : (r, w₂) = w₁.answer (.hardware c))
    (h : ∀ k n, Attempted tenant k desired observed n w w₁) :
    ∀ k n, Attempted tenant k desired observed n w w₂ := by
  have hk : (fun _ : BackingSystem => True) .hardware := trivial
  have hc : conduct (fun _ => True) Call.FailsPlainly (.hardware c) w₁ r w₂ :=
    conduct_of_steady (.inl hr)
  have on {n : String} (other : SameElse k' n w₁ w₂)
      (own : Attempted tenant k' desired observed n w w₂) :
      ∀ k n, Attempted tenant k desired observed n w w₂ := by
    intro k n'
    by_cases he : k = k' ∧ n' = n
    · obtain ⟨rfl, rfl⟩ := he
      exact own
    · exact (h k n').congr (other k n' fun hk hn => he ⟨hk, hn⟩)
  have unchanged (hw : w₂.collections = w₁.collections) :
      ∀ k n, Attempted tenant k desired observed n w w₂ :=
    fun k n => (h k n).congr (by rw [collection_congr hw])
  cases moves with
  | @retire n ho hd =>
    obtain ⟨other, ⟨_, gone⟩ | ⟨e, _, hw, _⟩⟩ := delete_cases hk hc
    · refine on other ⟨fun _ hn => absurd ho hn, fun _ => .inr gone, ?_, ?_, ?_, ?_⟩
      all_goals exact fun hn => absurd hn hd
    · exact unchanged hw
  | look hn => exact unchanged (get_cases hk hc).1
  | @make n hn =>
    obtain ⟨other, ⟨_, absent, own⟩ | ⟨e, _, hw, _⟩⟩ := create_cases hk hc
    · have other : SameElse k' n w₁ w₂ := other
      have absent : w₁.collection k' n = none := absent
      have own : w₂.collection k' n = some _ := own
      have before : w.collection k' n = none := by
        cases hb : w.collection k' n with
        | none => rfl
        | some c =>
          have there := (h k' n).there hn (by rw [hb]; rfl)
          rw [absent] at there
          cases there
      refine on other ⟨fun hd => absurd hn hd, fun hd => absurd hn hd, fun _ _ => ?_, fun _ c hc => ?_,
        fun _ m hm _ => ?_, fun _ m hm => ?_⟩
      · rw [own]
        rfl
      · rw [before]
        cases own.symm.trans hc
        rfl
      · obtain ⟨c, hc, _⟩ := hm
        cases before.symm.trans hc
      · obtain ⟨c, hc, hm⟩ := hm
        cases own.symm.trans hc
        cases hm
    · exact unchanged hw
  | @drop n m hn ho hd =>
    obtain ⟨other, ⟨_, c, hs, own⟩ | ⟨e, _, hw, _⟩⟩ := remove_cases hk hc
    · have members (m' : String) : w₂.HasMember k' n m' ↔ w₁.HasMember k' n m' ∧ m' ≠ m := by
        simp [HasMember, own, hs]
      refine on other ⟨fun hd => absurd hn hd, fun hd => absurd hn hd, fun _ _ => ?_, fun _ c' hc' => ?_,
        fun _ m' hm' hstays => ?_, fun _ m' hm' => ?_⟩
      · rw [own]
        rfl
      · cases own.symm.trans hc'
        exact (h k' n).attributes hn c hs
      · refine (members m').2 ⟨(h k' n).held hn m' hm' hstays, ?_⟩
        rintro rfl
        exact hstays ⟨ho, hd⟩
      · exact (h k' n).given hn m' ((members m').1 hm').1
    · exact unchanged hw
  | @put n m hn hd ho =>
    obtain ⟨other, ⟨_, c, hs, own⟩ | ⟨e, _, hw, _⟩⟩ := add_cases hk hc
    · have members (m' : String) : w₂.HasMember k' n m' ↔ w₁.HasMember k' n m' ∨ m' = m := by
        simp [HasMember, own, hs]
      refine on other ⟨fun hd => absurd hn hd, fun hd => absurd hn hd, fun _ _ => ?_, fun _ c' hc' => ?_,
        fun _ m' hm' hstays => ?_, fun _ m' hm' => ?_⟩
      · rw [own]
        rfl
      · cases own.symm.trans hc'
        exact (h k' n).attributes hn c hs
      · exact (members m').2 (.inl ((h k' n).held hn m' hm' hstays))
      · rcases (members m').1 hm' with hm' | rfl
        · exact (h k' n).given hn m' hm'
        · exact .inr ⟨hd, ho⟩
    · exact unchanged hw

/-- Wherever it ends, a job that moves collections leaves each of them on its way. -/
theorem Attempted.of_goes {α : Type} {j : Job α} (hj : j.Asks fun c => ∀ q : HardwareCall,
      c = .hardware q → ∃ k, Moves tenant k desired observed q) {tr : List (Moment Services World)}
    {o : Except Error α} (hg : j.Goes (steady fails) w₁ tr o w₂)
    (h : ∀ k n, Attempted tenant k desired observed n w w₁) :
    ∀ k n, Attempted tenant k desired observed n w w₂ := by
  refine Dialogue.Goes.kept (P := fun w₂ => ∀ k n, Attempted tenant k desired observed n w w₂) hg hj ?_ h
  intro c w₁ r w₂ hc hr h
  rcases hr with hr | ⟨_, _, _, rfl⟩
  · by_cases hs : c.system = .hardware
    · obtain ⟨q, rfl⟩ := Call.exists_query hs
      obtain ⟨k, moves⟩ := hc q rfl
      exact .of_answer moves hr h
    · have same : w₂.collections = w₁.collections := by
        rw [show w₂ = (w₁.answer c).2 from congrArg Prod.snd hr]
        exact answer_same w₁ c (Ne.symm hs)
      exact fun k n => (h k n).congr (by rw [collection_congr same])
  · exact h

/-! ## To the end -/

/-- What was on its way and is converged is converged from where it set out. -/
theorem Converged.of_attempted (h : ∀ n, Attempted tenant k desired observed n w w₁)
    (h' : Converged k desired observed w₁ w₂) : Converged k desired observed w w₂ := by
  constructor
  case moved =>
    intro n hn
    refine ⟨(h'.moved n hn).1, fun m => ?_⟩
    have held := (h n).held hn m
    have given := (h n).given hn m
    rw [(h'.moved n hn).2 m]
    -- one member of one collection, in terms of where it is and which of the lists give it
    grind
  case retired => exact h'.retired
  case untouched =>
    intro n hd ho
    rw [h'.untouched n hd ho, (h n).untouched hd ho]

/-- A call comes to what is wanted: it succeeds, or it is refused because all is so already. -/
def Agrees (agrees : Error → Bool) (r : Except Error Unit) : Prop :=
  r = .ok () ∨ ∃ e, r = .error e ∧ agrees e = true

theorem Agrees.agreeing {agrees : Error → Bool} {r : Except Error Unit} (h : Agrees agrees r)
    (what : String) : agreeing agrees what r = .ok () := by
  rcases h with rfl | ⟨e, rfl, he⟩
  · rfl
  · exact if_pos he

theorem agrees_ite {p : Prop} [Decidable p] {agrees : Error → Bool} {x y : Answer Unit}
    (hx : Agrees agrees x.1) (hy : Agrees agrees y.1) : Agrees agrees (if p then x else y).1 := by
  split
  · exact hx
  · exact hy

theorem after_removeCollection (w : World) (k : Kind) (n : String) :
    ∃ r w', w.after (removeCollection k n) = (.ok r, w') := by
  have answer : Agrees Error.isNotFound (w.after (deleteCollection k n)).1 :=
    agrees_ite (.inl rfl) (.inr ⟨_, rfl, rfl⟩)
  have read := after_reading (w := w) (deleteCollection k n) (deleted ("deleting " ++ k.name ++ " " ++ n))
  rcases answer with hr | ⟨e, hr, he⟩
  · rw [hr] at read
    exact ⟨_, _, read⟩
  · rw [hr, deleted, if_pos he] at read
    exact ⟨_, _, read⟩

theorem after_dropMember (w : World) (k : Kind) (n m : String) :
    ∃ w', w.after (dropMember k n m) = (.ok (), w') := by
  have answer : Agrees Error.isNotFound (w.after (removeMember k n m)).1 := by
    show Agrees _ (w.hardware (.remove k n m)).1
    cases hc : w.collections.get? (collectionKey k n) with
    | none =>
      simp only [hardware, hc]
      exact .inr ⟨_, rfl, rfl⟩
    | some c =>
      simp only [hardware, hc]
      exact agrees_ite (.inl rfl) (.inr ⟨_, rfl, rfl⟩)
  have read := after_reading (w := w) (removeMember k n m)
    (agreeing Error.isNotFound ("removing member " ++ m ++ " from " ++ k.name ++ " " ++ n))
  rw [answer.agreeing] at read
  exact ⟨_, read⟩

theorem after_putMember (m : String) (there : (w.collection k n).isSome = true) :
    ∃ w', w.after (putMember k n m) = (.ok (), w') := by
  have answer : Agrees Error.isConflict (w.after (addMember k n m)).1 := by
    show Agrees _ (w.hardware (.add k n m)).1
    obtain ⟨c, hc⟩ := Option.isSome_iff_exists.1 there
    have hc : w.collections.get? (collectionKey k n) = some c := hc
    simp only [hardware, hc]
    exact agrees_ite (.inr ⟨_, rfl, rfl⟩) (.inl rfl)
  have read := after_reading (w := w) (addMember k n m)
    (agreeing Error.isConflict ("adding member " ++ m ++ " to " ++ k.name ++ " " ++ n))
  rw [answer.agreeing] at read
  exact ⟨_, read⟩

theorem after_ensureCollection (w : World) (k : Kind) (c : Collection) :
    ∃ w', w.after (ensureCollection k c) = (.ok (), w') := by
  have seen : w.after (getCollection k c.name) = (.ok (w.collection k c.name), w) := rfl
  by_cases there : (w.collection k c.name).isSome = true
  · refine ⟨w, (after_bind_ok seen).trans ?_⟩
    rw [if_pos there]
    rfl
  · have answer : Agrees Error.isConflict (w.after (createCollection k c)).1 :=
      agrees_ite (.inr ⟨_, rfl, rfl⟩) (.inl rfl)
    have read := after_reading (w := w) (createCollection k c)
      (agreeing Error.isConflict ("creating " ++ k.name ++ " " ++ c.name))
    rw [answer.agreeing] at read
    refine ⟨(w.after (createCollection k c)).2, (after_bind_ok seen).trans ?_⟩
    rw [if_neg there]
    exact read

theorem after_carryOut (w : World) (tenant : String) (k : Kind) (p : Collection.Plan) :
    ∃ w', w.after (carryOut tenant k p) = (.ok (), w') := by
  obtain ⟨w₁, made⟩ := after_ensureCollection w k (Collection.forPlan tenant k p)
  obtain ⟨_, goes⟩ := goes_of_after made
  have there : (w₁.collection k p.name).isSome = true := (ensureCollection_ok trivial rfl goes).2.1
  let diff := MemberDiff.between p.desired p.observed
  obtain ⟨w₂, dropped, there⟩ : ∃ w₂, w₁.after (diff.toRemove.forM (dropMember k p.name)) = (.ok (), w₂) ∧
      (w₂.collection k p.name).isSome = true := by
    refine after_forM (P := fun w => (w.collection k p.name).isSome = true) (fun m _ w there => ?_) there
    obtain ⟨w', done⟩ := after_dropMember w k p.name m
    obtain ⟨_, goes⟩ := goes_of_after done
    exact ⟨w', done, (dropMember_ok trivial goes).2.1.trans there⟩
  obtain ⟨w₃, put, _⟩ : ∃ w₃, w₂.after (diff.toAdd.forM (putMember k p.name)) = (.ok (), w₃) ∧
      (w₃.collection k p.name).isSome = true := by
    refine after_forM (P := fun w => (w.collection k p.name).isSome = true) (fun m _ w there => ?_) there
    obtain ⟨w', done⟩ := after_putMember m there
    obtain ⟨_, goes⟩ := goes_of_after done
    exact ⟨w', done, (putMember_ok trivial goes).2.1.trans there⟩
  have sync : w₁.after (syncMembers k p.name diff) = (.ok (), w₃) := (after_bind_ok dropped).trans put
  exact ⟨w₃, (after_bind_ok made).trans sync⟩

/-- When no call fails, collections are moved to the end. -/
theorem after_converge (w : World) (tenant : String) (k : Kind) (desired observed : List Resource) :
    ∃ w', w.after (converge tenant k desired observed) = (.ok (), w') := by
  obtain ⟨w₁, retired, _⟩ : ∃ w₁, w.after ((Collection.retired k desired observed).forM fun name =>
      discard (removeCollection k name)) = (.ok (), w₁) ∧ True := by
    refine after_forM (P := fun _ => True) (fun n _ w _ => ?_) trivial
    obtain ⟨r, w', done⟩ := after_removeCollection w k n
    refine ⟨w', (after_map _ _).trans ?_, trivial⟩
    rw [done]
    rfl
  obtain ⟨w₂, carried, _⟩ : ∃ w₂, w₁.after ((Collection.plans k desired observed).forM
      (carryOut tenant k)) = (.ok (), w₂) ∧ True := by
    refine after_forM (P := fun _ => True) (fun p _ w _ => ?_) trivial
    obtain ⟨w', done⟩ := after_carryOut w tenant k p
    exact ⟨w', done, trivial⟩
  exact ⟨w₂, (after_bind_ok retired).trans carried⟩

/-- When no call fails, partitions and then groups are moved to the end. -/
theorem after_converge_both (w : World) (tenant : String) (desired observed : List Resource) :
    ∃ w₁ w₂, w.after (converge tenant .partition desired observed) = (.ok (), w₁) ∧
      w₁.after (converge tenant .group desired observed) = (.ok (), w₂) ∧
      ∀ k, Converged k desired observed w w₂ := by
  obtain ⟨w₁, partitions⟩ := after_converge w tenant .partition desired observed
  obtain ⟨w₂, groups⟩ := after_converge w₁ tenant .group desired observed
  obtain ⟨_, goes₁⟩ := goes_of_after partitions
  obtain ⟨_, goes₂⟩ := goes_of_after groups
  obtain ⟨moved₁, others₁⟩ := converge_ok trivial goes₁
  obtain ⟨moved₂, others₂⟩ := converge_ok trivial goes₂
  refine ⟨w₁, w₂, partitions, groups, fun k => ?_⟩
  cases k with
  | partition => exact moved₁.congr (fun _ => rfl) fun n => others₂ .partition n nofun
  | group => exact moved₂.congr (fun n => others₁ .group n nofun) fun _ => rfl

/-! ## One end for all -/

/-- Two worlds do not differ in a collection: its attributes are the same, and the same are its members. -/
def SameCollection (k : Kind) (n : String) (w w' : World) : Prop :=
  (w'.collection k n).map Collection.bare = (w.collection k n).map Collection.bare ∧
    ∀ m, w'.HasMember k n m ↔ w.HasMember k n m

/-- However collections came to the end of their way, it is the same end. -/
theorem sameCollection_of_converged (h₁ : Attempted tenant k desired observed n w w₁)
    (h₂ : Attempted tenant k desired observed n w w₂) (c₁ : Converged k desired observed w w₁)
    (c₂ : Converged k desired observed w w₂) : SameCollection k n w₁ w₂ := by
  by_cases hd : n ∈ Collection.targets k desired
  · obtain ⟨there₁, members₁⟩ := c₁.moved n hd
    obtain ⟨there₂, members₂⟩ := c₂.moved n hd
    obtain ⟨b₁, hb₁⟩ := Option.isSome_iff_exists.1 there₁
    obtain ⟨b₂, hb₂⟩ := Option.isSome_iff_exists.1 there₂
    refine ⟨?_, fun m => (members₂ m).trans (members₁ m).symm⟩
    rw [hb₁, hb₂, Option.map_some, Option.map_some, h₁.attributes hd b₁ hb₁, h₂.attributes hd b₂ hb₂]
  · have same : w₂.collection k n = w₁.collection k n := by
      by_cases ho : n ∈ Collection.targets k observed
      · rw [c₁.retired n ho hd, c₂.retired n ho hd]
      · rw [c₁.untouched n hd ho, c₂.untouched n hd ho]
    refine ⟨by rw [same], fun m => ?_⟩
    rw [HasMember, same, HasMember]

end Hardware

end Tenancy

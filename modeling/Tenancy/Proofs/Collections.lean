import Tenancy.Proofs.Footprints
import Tenancy.Proofs.Systems

/-!
# What becomes of collections

The hardware service is relied on here: a call to it does what it does in the world in memory, or it
fails plainly and has no effect. The first part says what one call comes to, and the second what a job
that moves collections comes to when it succeeds. Such a job is given what was last applied and what is
declared, and never asks which members a collection has; so what it makes of a collection is described
in terms of the members that were there (`Moved`).
-/

namespace Tenancy

namespace Rehearsal.World

/-! ## Collections and their members -/

def collection (w : World) (k : Kind) (n : String) : Option Collection :=
  w.collections.get? (collectionKey k n)

def HasMember (w : World) (k : Kind) (n m : String) : Prop :=
  ∃ c, w.collection k n = some c ∧ m ∈ c.members

instance (w : World) (k : Kind) (n m : String) : Decidable (w.HasMember k n m) :=
  decidable_of_iff ((w.collection k n).any fun c => decide (m ∈ c.members)) <| by
    cases hc : w.collection k n <;> simp [HasMember, hc]

/-- All collections but one are as they were. -/
def SameElse (k : Kind) (n : String) (w w' : World) : Prop :=
  ∀ k' n', (k' = k → n' ≠ n) → w'.collection k' n' = w.collection k' n'

theorem collectionKey_inj {k k' : Kind} {n n' : String}
    (h : collectionKey k n = collectionKey k' n') : k = k' ∧ n = n' := by
  have hl : (k.name ++ " ").toList ++ n.toList = (k'.name ++ " ").toList ++ n'.toList := by
    rw [← String.toList_append, ← String.toList_append]
    exact congrArg String.toList h
  -- the names of the kinds differ in their first letters
  have hk : k = k' := by
    cases k <;> cases k'
    · rfl
    · have hc : some 'p' = some 'g' := congrArg List.head? hl
      cases hc
    · have hc : some 'g' = some 'p' := congrArg List.head? hl
      cases hc
    · rfl
  subst hk
  exact ⟨rfl, String.toList_inj.1 (List.append_cancel_left hl)⟩

theorem contains_collection (w : World) (k : Kind) (n : String) :
    w.collections.contains (collectionKey k n) = (w.collection k n).isSome :=
  Dict.contains_eq_isSome _ _

theorem collection_congr {w w' : World} (h : w'.collections = w.collections) :
    w'.collection = w.collection := by
  funext k n
  rw [collection, h, collection]

theorem SameElse.of_eq {k : Kind} {n : String} {w w' : World} (h : w'.collections = w.collections) :
    SameElse k n w w' := fun k' n' _ => by rw [collection_congr h]

theorem SameElse.trans {k : Kind} {n : String} {w w' w'' : World} (h : SameElse k n w w')
    (h' : SameElse k n w' w'') : SameElse k n w w'' := fun k' n' hn => (h' k' n' hn).trans (h k' n' hn)

theorem collection_insert (w : World) (k : Kind) (n : String) (c : Collection) :
    ({ w with collections := w.collections.insert (collectionKey k n) c } : World).collection k n =
        some c ∧
      SameElse k n w { w with collections := w.collections.insert (collectionKey k n) c } := by
  refine ⟨Dict.get?_insert_self _ _ _, fun k' n' hn => Dict.get?_insert_of_ne _ _ fun he => ?_⟩
  obtain ⟨hk, hn'⟩ := collectionKey_inj he
  exact hn hk hn'

theorem collection_erase (w : World) (k : Kind) (n : String) :
    ({ w with collections := w.collections.erase (collectionKey k n) } : World).collection k n = none ∧
      SameElse k n w { w with collections := w.collections.erase (collectionKey k n) } := by
  refine ⟨Dict.get?_erase_self _ _, fun k' n' hn => Dict.get?_erase_of_ne _ fun he => ?_⟩
  obtain ⟨hk, hn'⟩ := collectionKey_inj he
  exact hn hk hn'

/-! ## Single calls -/

variable {kept : BackingSystem → Prop} {w w' : World} {k : Kind} {n m : String}

theorem get_cases (hk : kept .hardware) {r : Except Error (Option Collection)}
    (h : conduct kept Call.FailsPlainly (.hardware (.get k n)) w r w') :
    w'.collections = w.collections ∧ ∀ found, r = .ok found → found = w.collection k n := by
  rcases call_cases hk h with ⟨w₁, hw₁, hr⟩ | ⟨e, _, rfl, hw'⟩
  · obtain ⟨rfl, rfl⟩ := Prod.mk.inj hr
    refine ⟨hw₁, fun found hf => ?_⟩
    rw [collection, ← hw₁]
    exact (Except.ok.inj hf).symm
  · exact ⟨hw', fun _ hf => by cases hf⟩

theorem create_cases (hk : kept .hardware) {c : Collection} {r : Except Error Unit}
    (h : conduct kept Call.FailsPlainly (.hardware (.create k c)) w r w') :
    SameElse k c.name w w' ∧
      ((r = .ok () ∧ w.collection k c.name = none ∧ w'.collection k c.name = some c) ∨
        ∃ e, r = .error e ∧ w'.collections = w.collections ∧
          (e.isConflict = true → (w.collection k c.name).isSome = true)) := by
  rcases call_cases hk h with ⟨w₁, hw₁, hr⟩ | ⟨e, he, rfl, hw'⟩
  · have hw := collection_congr hw₁
    have hr : (r, w') = (if w₁.collections.contains (collectionKey k c.name) = true then
        w₁.refuse "hsm" 409 "collection already exists" else effect _ : Answer Unit) := hr
    rw [contains_collection, hw] at hr
    by_cases hs : (w.collection k c.name).isSome = true
    · rw [if_pos hs] at hr
      obtain ⟨rfl, rfl⟩ := Prod.mk.inj hr
      exact ⟨.of_eq hw₁, .inr ⟨_, rfl, hw₁, fun _ => hs⟩⟩
    · rw [if_neg hs] at hr
      obtain ⟨rfl, rfl⟩ := Prod.mk.inj hr
      obtain ⟨own, other⟩ := collection_insert w₁ k c.name c
      refine ⟨fun k' n' hn => (other k' n' hn).trans (by rw [hw]), .inl ⟨rfl, ?_, own⟩⟩
      simpa using hs
  · refine ⟨.of_eq hw', .inr ⟨e, rfl, hw', fun hc => ?_⟩⟩
    rw [he.1 rfl] at hc
    cases hc

theorem delete_cases (hk : kept .hardware) {r : Except Error Unit}
    (h : conduct kept Call.FailsPlainly (.hardware (.delete k n)) w r w') :
    SameElse k n w w' ∧
      ((r = .ok () ∧ w'.collection k n = none) ∨
        ∃ e, r = .error e ∧ w'.collections = w.collections ∧
          (e.isNotFound = true → w.collection k n = none)) := by
  rcases call_cases hk h with ⟨w₁, hw₁, hr⟩ | ⟨e, he, rfl, hw'⟩
  · have hw := collection_congr hw₁
    have hr : (r, w') = (if w₁.collections.contains (collectionKey k n) = true then effect _ else
        w₁.refuse "hsm" 404 "no such collection" : Answer Unit) := hr
    rw [contains_collection, hw] at hr
    by_cases hs : (w.collection k n).isSome = true
    · rw [if_pos hs] at hr
      obtain ⟨rfl, rfl⟩ := Prod.mk.inj hr
      obtain ⟨own, other⟩ := collection_erase w₁ k n
      exact ⟨fun k' n' hn => (other k' n' hn).trans (by rw [hw]), .inl ⟨rfl, own⟩⟩
    · rw [if_neg hs] at hr
      obtain ⟨rfl, rfl⟩ := Prod.mk.inj hr
      exact ⟨.of_eq hw₁, .inr ⟨_, rfl, hw₁, fun _ => by simpa using hs⟩⟩
  · refine ⟨.of_eq hw', .inr ⟨e, rfl, hw', fun hc => ?_⟩⟩
    rw [he.2 rfl] at hc
    cases hc

theorem add_cases (hk : kept .hardware) {r : Except Error Unit}
    (h : conduct kept Call.FailsPlainly (.hardware (.add k n m)) w r w') :
    SameElse k n w w' ∧
      ((r = .ok () ∧ ∃ c, w.collection k n = some c ∧
          w'.collection k n = some { c with members := c.members ++ [m] }) ∨
        ∃ e, r = .error e ∧ w'.collections = w.collections ∧
          (e.isConflict = true → w.HasMember k n m)) := by
  rcases call_cases hk h with ⟨w₁, hw₁, hr⟩ | ⟨e, he, rfl, hw'⟩
  · have hw := collection_congr hw₁
    have hc : w₁.collections.get? (collectionKey k n) = w.collection k n := by rw [← hw, collection]
    have hr : (r, w') = w₁.hardware (.add k n m) := hr
    cases hs : w.collection k n with
    | none =>
      simp only [hardware, hc, hs] at hr
      obtain ⟨rfl, rfl⟩ := Prod.mk.inj hr
      refine ⟨.of_eq hw₁, .inr ⟨_, rfl, hw₁, ?_⟩⟩
      intro hconflict
      cases hconflict
    | some c =>
      simp only [hardware, hc, hs] at hr
      have hr : (r, w') = (if c.members.contains m = true then
          w₁.refuse "hsm" 409 "member already exists" else effect _ : Answer Unit) := hr
      by_cases hm : c.members.contains m = true
      · rw [if_pos hm] at hr
        obtain ⟨rfl, rfl⟩ := Prod.mk.inj hr
        exact ⟨.of_eq hw₁, .inr ⟨_, rfl, hw₁, fun _ => ⟨c, hs, by simpa using hm⟩⟩⟩
      · rw [if_neg hm] at hr
        obtain ⟨rfl, rfl⟩ := Prod.mk.inj hr
        obtain ⟨own, other⟩ := collection_insert w₁ k n { c with members := c.members ++ [m] }
        exact ⟨fun k' n' hn => (other k' n' hn).trans (by rw [hw]), .inl ⟨rfl, c, rfl, own⟩⟩
  · refine ⟨.of_eq hw', .inr ⟨e, rfl, hw', fun hc => ?_⟩⟩
    rw [he.1 rfl] at hc
    cases hc

theorem remove_cases (hk : kept .hardware) {r : Except Error Unit}
    (h : conduct kept Call.FailsPlainly (.hardware (.remove k n m)) w r w') :
    SameElse k n w w' ∧
      ((r = .ok () ∧ ∃ c, w.collection k n = some c ∧
          w'.collection k n = some { c with members := c.members.filter (· ≠ m) }) ∨
        ∃ e, r = .error e ∧ w'.collections = w.collections ∧
          (e.isNotFound = true → ¬ w.HasMember k n m)) := by
  rcases call_cases hk h with ⟨w₁, hw₁, hr⟩ | ⟨e, he, rfl, hw'⟩
  · have hw := collection_congr hw₁
    have hc : w₁.collections.get? (collectionKey k n) = w.collection k n := by rw [← hw, collection]
    have hr : (r, w') = w₁.hardware (.remove k n m) := hr
    cases hs : w.collection k n with
    | none =>
      simp only [hardware, hc, hs] at hr
      obtain ⟨rfl, rfl⟩ := Prod.mk.inj hr
      refine ⟨.of_eq hw₁, .inr ⟨_, rfl, hw₁, ?_⟩⟩
      rintro _ ⟨c, hc, _⟩
      rw [hs] at hc
      cases hc
    | some c =>
      simp only [hardware, hc, hs] at hr
      have hr : (r, w') = (if c.members.contains m = true then effect _ else
          w₁.refuse "hsm" 404 "no such member" : Answer Unit) := hr
      by_cases hm : c.members.contains m = true
      · rw [if_pos hm] at hr
        obtain ⟨rfl, rfl⟩ := Prod.mk.inj hr
        obtain ⟨own, other⟩ := collection_insert w₁ k n { c with members := c.members.filter (· ≠ m) }
        exact ⟨fun k' n' hn => (other k' n' hn).trans (by rw [hw]), .inl ⟨rfl, c, rfl, own⟩⟩
      · rw [if_neg hm] at hr
        obtain ⟨rfl, rfl⟩ := Prod.mk.inj hr
        refine ⟨.of_eq hw₁, .inr ⟨_, rfl, hw₁, ?_⟩⟩
        rintro _ ⟨c', hc', hm'⟩
        rw [hs] at hc'
        cases hc'
        exact hm (by simpa using hm')
  · refine ⟨.of_eq hw', .inr ⟨e, rfl, hw', fun hc => ?_⟩⟩
    rw [he.2 rfl] at hc
    cases hc

theorem SameElse.hasMember {k' : Kind} {n' : String} (h : SameElse k' n' w w') (hm : w'.HasMember k n m) :
    (k = k' ∧ n = n') ∨ w.HasMember k n m := by
  by_cases hc : k = k' ∧ n = n'
  · exact .inl hc
  · rw [HasMember, h k n fun hk hn => hc ⟨hk, hn⟩] at hm
    exact .inr hm

/-- A member of a collection was there, or is the one that the call adds, or the collection is made with it. -/
theorem hasMember_of_call (hk : kept .hardware) {c : HardwareCall} {r : Except Error c.Reply}
    (h : conduct kept Call.FailsPlainly (.hardware c) w r w') (hm : w'.HasMember k n m) :
    w.HasMember k n m ∨ c = .add k n m ∨ ∃ made, c = .create k made ∧ made.name = n ∧ m ∈ made.members := by
  have same (hw : w'.collections = w.collections) : w.HasMember k n m := by
    rwa [HasMember, collection_congr hw] at hm
  have seen {q : HardwareCall} {r : Except Error q.Reply} (answered : ∀ w₁ : World, (w₁.hardware q).2 = w₁)
      (h : conduct kept Call.FailsPlainly (.hardware q) w r w') : w.HasMember k n m := by
    rcases call_cases hk h with ⟨w₁, hw₁, hr⟩ | ⟨_, _, _, hw'⟩
    · have hw' : w' = w₁ := (congrArg Prod.snd hr).trans (answered w₁)
      exact same (hw' ▸ hw₁)
    · exact same hw'
  cases c with
  | get k' n' => exact .inl (seen (fun _ => rfl) h)
  | listGroups => exact .inl (seen (fun _ => rfl) h)
  | listComponents type role => exact .inl (seen (fun _ => rfl) h)
  | create k' made =>
    obtain ⟨other, ⟨_, _, own⟩ | ⟨_, _, hw', _⟩⟩ := create_cases hk h
    · rcases other.hasMember hm with ⟨rfl, rfl⟩ | before
      · obtain ⟨c, hc, hm⟩ := hm
        obtain rfl := Option.some.inj (own.symm.trans hc)
        exact .inr (.inr ⟨made, rfl, rfl, hm⟩)
      · exact .inl before
    · exact .inl (same hw')
  | delete k' n' =>
    obtain ⟨other, ⟨_, own⟩ | ⟨_, _, hw', _⟩⟩ := delete_cases hk h
    · rcases other.hasMember hm with ⟨rfl, rfl⟩ | before
      · obtain ⟨c, hc, _⟩ := hm
        cases own.symm.trans hc
      · exact .inl before
    · exact .inl (same hw')
  | add k' n' m' =>
    obtain ⟨other, ⟨_, c, hc, own⟩ | ⟨_, _, hw', _⟩⟩ := add_cases hk h
    · rcases other.hasMember hm with ⟨rfl, rfl⟩ | before
      · obtain ⟨c', hc', hm⟩ := hm
        obtain rfl := Option.some.inj (own.symm.trans hc')
        rcases List.mem_append.1 hm with hm | hm
        · exact .inl ⟨c, hc, hm⟩
        · exact .inr (.inl (by rw [List.mem_singleton.1 hm]))
      · exact .inl before
    · exact .inl (same hw')
  | remove k' n' m' =>
    obtain ⟨other, ⟨_, c, hc, own⟩ | ⟨_, _, hw', _⟩⟩ := remove_cases hk h
    · rcases other.hasMember hm with ⟨rfl, rfl⟩ | before
      · obtain ⟨c', hc', hm⟩ := hm
        obtain rfl := Option.some.inj (own.symm.trans hc')
        exact .inl ⟨c, hc, (List.mem_filter.1 hm).1⟩
      · exact .inl before
    · exact .inl (same hw')

end Rehearsal.World

namespace Hardware

open Rehearsal Rehearsal.World

variable {kept : BackingSystem → Prop} {w w' : World} {k : Kind} {n m : String}
  {tr : List (Moment Services World)}

/-! ## Jobs that succeed -/

theorem removeCollection_ok (hk : kept .hardware) {r : Removal}
    (h : (removeCollection k n).Goes (conduct kept Call.FailsPlainly) w tr (.ok r) w') :
    w'.collection k n = none ∧ SameElse k n w w' := by
  obtain ⟨x, hx, ho⟩ := Job.goes_reading h
  obtain ⟨hc, _⟩ := Job.goes_call hx
  obtain ⟨other, ⟨rfl, own⟩ | ⟨e, rfl, hw', absent⟩⟩ := delete_cases hk hc
  · exact ⟨own, other⟩
  · by_cases he : e.isNotFound = true
    · exact ⟨by rw [collection_congr hw', absent he], other⟩
    · simp only [deleted, if_neg he] at ho
      cases ho

/-- All of the collections are gone, and nothing else has changed. -/
theorem removeCollections_ok (hk : kept .hardware) {ns : List String}
    (h : (ns.forM fun n => discard (removeCollection k n)).Goes (conduct kept Call.FailsPlainly) w tr
      (.ok ()) w') :
    (∀ n ∈ ns, w'.collection k n = none) ∧
      ∀ k' n, (k' = k → n ∉ ns) → w'.collection k' n = w.collection k' n := by
  refine Job.goes_forM_ok (P := fun done w₁ => (∀ n ∈ done, w₁.collection k n = none) ∧
    ∀ k' n, (k' = k → n ∉ done) → w₁.collection k' n = w.collection k' n) ?_ ?_ h
  · rintro x done w₁ _ w₂ hx ⟨gone, other⟩
    obtain ⟨r, hx⟩ := Job.goes_discard_ok hx
    obtain ⟨own, rest⟩ := removeCollection_ok hk hx
    refine ⟨fun n hn => ?_, fun k' n hn => ?_⟩
    · by_cases hnx : n = x
      · rw [hnx, own]
      · rw [rest k n fun _ => hnx]
        exact gone n (by simpa [hnx] using hn)
    · rw [rest k' n fun e hnx => hn e (by simp [hnx])]
      exact other k' n fun e hd => hn e (by simp [hd])
  · exact ⟨by simp, fun _ _ _ => rfl⟩

/-- The member is gone, and nothing else has changed. -/
theorem dropMember_ok (hk : kept .hardware)
    (h : (dropMember k n m).Goes (conduct kept Call.FailsPlainly) w tr (.ok ()) w') :
    (∀ m', w'.HasMember k n m' ↔ w.HasMember k n m' ∧ m' ≠ m) ∧
      (w'.collection k n).isSome = (w.collection k n).isSome ∧ SameElse k n w w' := by
  obtain ⟨x, hx, ho⟩ := Job.goes_reading h
  obtain ⟨hc, _⟩ := Job.goes_call hx
  obtain ⟨other, ⟨rfl, c, hs, own⟩ | ⟨e, rfl, hw', absent⟩⟩ := remove_cases hk hc
  · refine ⟨fun m' => ?_, by rw [own, hs]; rfl, other⟩
    simp [HasMember, own, hs]
  · rcases agreeing_eq_ok ho.symm with he | ⟨e', he', hagrees⟩
    · cases he
    · cases he'
      refine ⟨fun m' => ?_, by rw [collection_congr hw'], other⟩
      rw [HasMember, collection_congr hw']
      exact ⟨fun hm => ⟨hm, fun hmm => absent hagrees (hmm ▸ hm)⟩, fun hm => hm.1⟩

/-- The member is there, and nothing else has changed. -/
theorem putMember_ok (hk : kept .hardware)
    (h : (putMember k n m).Goes (conduct kept Call.FailsPlainly) w tr (.ok ()) w') :
    (∀ m', w'.HasMember k n m' ↔ w.HasMember k n m' ∨ m' = m) ∧
      (w'.collection k n).isSome = (w.collection k n).isSome ∧ SameElse k n w w' := by
  obtain ⟨x, hx, ho⟩ := Job.goes_reading h
  obtain ⟨hc, _⟩ := Job.goes_call hx
  obtain ⟨other, ⟨rfl, c, hs, own⟩ | ⟨e, rfl, hw', present⟩⟩ := add_cases hk hc
  · refine ⟨fun m' => ?_, by rw [own, hs]; rfl, other⟩
    simp [HasMember, own, hs]
  · rcases agreeing_eq_ok ho.symm with he | ⟨e', he', hagrees⟩
    · cases he
    · cases he'
      refine ⟨fun m' => ?_, by rw [collection_congr hw'], other⟩
      rw [HasMember, collection_congr hw']
      exact ⟨fun hm => .inl hm, fun hm => hm.elim id fun hmm => hmm ▸ present hagrees⟩

/-- The collection is there, and it has the members that it had. -/
theorem ensureCollection_ok (hk : kept .hardware) {c : Collection} (empty : c.members = [])
    (h : (ensureCollection k c).Goes (conduct kept Call.FailsPlainly) w tr (.ok ()) w') :
    (∀ m, w'.HasMember k c.name m ↔ w.HasMember k c.name m) ∧
      (w'.collection k c.name).isSome = true ∧ SameElse k c.name w w' := by
  obtain ⟨found, w₁, tr₁, tr₂, hget, hrest, rfl⟩ := Job.goes_bind_ok h
  obtain ⟨hw₁, hfound⟩ := get_cases hk (Job.goes_call hget).1
  have hfound := hfound found rfl
  have hw := collection_congr hw₁
  split at hrest
  · next hs =>
    obtain ⟨_, _, rfl⟩ := Job.goes_pure hrest
    rw [hfound] at hs
    exact ⟨fun m => by rw [HasMember, hw, HasMember], by rw [hw]; exact hs, .of_eq hw₁⟩
  · obtain ⟨x, hx, ho⟩ := Job.goes_reading hrest
    obtain ⟨hc, _⟩ := Job.goes_call hx
    obtain ⟨other, ⟨rfl, absent, own⟩ | ⟨e, rfl, hw', present⟩⟩ := create_cases hk hc
    · rw [hw] at absent
      refine ⟨fun m => ?_, by rw [own]; rfl, (SameElse.of_eq hw₁).trans other⟩
      simp [HasMember, own, absent, empty]
    · rcases agreeing_eq_ok ho.symm with he | ⟨e', he', hagrees⟩
      · cases he
      · cases he'
        have hw'' := (collection_congr hw').trans hw
        refine ⟨fun m => by rw [HasMember, hw'', HasMember], ?_, (SameElse.of_eq hw₁).trans other⟩
        rw [hw'', ← hw]
        exact present hagrees

/-- The members are gone, and nothing else has changed. -/
theorem dropMembers_ok (hk : kept .hardware) {ms : List String}
    (h : (ms.forM (dropMember k n)).Goes (conduct kept Call.FailsPlainly) w tr (.ok ()) w') :
    (∀ m, w'.HasMember k n m ↔ w.HasMember k n m ∧ m ∉ ms) ∧
      (w'.collection k n).isSome = (w.collection k n).isSome ∧ SameElse k n w w' := by
  refine Job.goes_forM_ok (P := fun done w₁ =>
    (∀ m, w₁.HasMember k n m ↔ w.HasMember k n m ∧ m ∉ done) ∧
      (w₁.collection k n).isSome = (w.collection k n).isSome ∧ SameElse k n w w₁) ?_ ?_ h
  · rintro x done w₁ _ w₂ hx ⟨members, there, other⟩
    obtain ⟨members', there', other'⟩ := dropMember_ok hk hx
    refine ⟨fun m => ?_, there'.trans there, other.trans other'⟩
    rw [members', members]
    simp [and_assoc]
  · exact ⟨by simp, rfl, .of_eq rfl⟩

/-- The members are there, and nothing else has changed. -/
theorem putMembers_ok (hk : kept .hardware) {ms : List String}
    (h : (ms.forM (putMember k n)).Goes (conduct kept Call.FailsPlainly) w tr (.ok ()) w') :
    (∀ m, w'.HasMember k n m ↔ w.HasMember k n m ∨ m ∈ ms) ∧
      (w'.collection k n).isSome = (w.collection k n).isSome ∧ SameElse k n w w' := by
  refine Job.goes_forM_ok (P := fun done w₁ =>
    (∀ m, w₁.HasMember k n m ↔ w.HasMember k n m ∨ m ∈ done) ∧
      (w₁.collection k n).isSome = (w.collection k n).isSome ∧ SameElse k n w w₁) ?_ ?_ h
  · rintro x done w₁ _ w₂ hx ⟨members, there, other⟩
    obtain ⟨members', there', other'⟩ := putMember_ok hk hx
    refine ⟨fun m => ?_, there'.trans there, other.trans other'⟩
    rw [members', members]
    simp [or_assoc]
  · exact ⟨by simp, rfl, .of_eq rfl⟩

/-- What syncing makes of the members of a collection. -/
theorem syncMembers_ok (hk : kept .hardware) {diff : MemberDiff}
    (h : (syncMembers k n diff).Goes (conduct kept Call.FailsPlainly) w tr (.ok ()) w') :
    (∀ m, w'.HasMember k n m ↔ (w.HasMember k n m ∧ m ∉ diff.toRemove) ∨ m ∈ diff.toAdd) ∧
      (w'.collection k n).isSome = (w.collection k n).isSome ∧ SameElse k n w w' := by
  obtain ⟨_, w₁, tr₁, tr₂, h₁, h₂, rfl⟩ := Job.goes_bind_ok h
  obtain ⟨dropped, there₁, other₁⟩ := dropMembers_ok hk h₁
  obtain ⟨put, there₂, other₂⟩ := putMembers_ok hk h₂
  refine ⟨fun m => ?_, there₂.trans there₁, other₁.trans other₂⟩
  rw [put, dropped]

/-- What a pass makes of a collection that is declared: it is there; members that were applied and are
not declared are gone, members that are declared and were not applied are there, and about others
nothing has changed. -/
def Moved (k : Kind) (desired observed : List Resource) (n : String) (w w' : World) : Prop :=
  (w'.collection k n).isSome = true ∧
    ∀ m, w'.HasMember k n m ↔
      (w.HasMember k n m ∧
        ¬ (m ∈ Collection.membersFor k n observed ∧ m ∉ Collection.membersFor k n desired)) ∨
      (m ∈ Collection.membersFor k n desired ∧ m ∉ Collection.membersFor k n observed)

variable {desired observed : List Resource}

theorem mem_targets_of_member {rs : List Resource} (h : m ∈ Collection.membersFor k n rs) :
    n ∈ Collection.targets k rs := by
  obtain ⟨r, hr, ht, _⟩ := Collection.mem_membersFor.1 h
  exact Collection.mem_targets.2 ⟨r, hr, ht⟩

theorem Moved.congr {w₁ w₂ w₁' w₂' : World} (h : Moved k desired observed n w₁ w₂)
    (h₁ : w₁'.collection k n = w₁.collection k n) (h₂ : w₂'.collection k n = w₂.collection k n) :
    Moved k desired observed n w₁' w₂' := by
  unfold Moved HasMember at h ⊢
  rw [h₁, h₂]
  exact h

/-- To move what was moved already changes nothing. -/
theorem Moved.again {w₁ w₂ : World} (h : Moved k desired observed n w w₁)
    (h' : Moved k desired observed n w₁ w₂) : Moved k desired observed n w w₂ := by
  refine ⟨h'.1, fun m => ?_⟩
  rw [h'.2, h.2]
  grind

theorem carryOut_ok (hk : kept .hardware) {tenant : String}
    (h : (carryOut tenant k (Collection.planFor k desired observed n)).Goes
      (conduct kept Call.FailsPlainly) w tr (.ok ()) w') :
    Moved k desired observed n w w' ∧ SameElse k n w w' := by
  obtain ⟨_, w₁, tr₁, tr₂, h₁, h₂, rfl⟩ := Job.goes_bind_ok h
  obtain ⟨members, there, other⟩ := ensureCollection_ok hk rfl h₁
  obtain ⟨members', there', other'⟩ := syncMembers_ok hk h₂
  refine ⟨⟨there'.trans there, fun m => ?_⟩, other.trans other'⟩
  refine (members' m).trans ?_
  rw [MemberDiff.mem_toRemove, MemberDiff.mem_toAdd]
  exact or_congr_left (and_congr_left fun _ => members m)

/-- What converging makes of the collections of a kind. -/
structure Converged (k : Kind) (desired observed : List Resource) (w w' : World) : Prop where
  moved : ∀ n ∈ Collection.targets k desired, Moved k desired observed n w w'
  retired : ∀ n ∈ Collection.targets k observed, n ∉ Collection.targets k desired →
    w'.collection k n = none
  untouched : ∀ n, n ∉ Collection.targets k desired → n ∉ Collection.targets k observed →
    w'.collection k n = w.collection k n

theorem Converged.congr {w₁ w₂ w₁' w₂' : World} (h : Converged k desired observed w₁ w₂)
    (h₁ : ∀ n, w₁.collection k n = w₁'.collection k n)
    (h₂ : ∀ n, w₂'.collection k n = w₂.collection k n) : Converged k desired observed w₁' w₂' := by
  refine ⟨fun n hn => (h.moved n hn).congr (h₁ n).symm (h₂ n), fun n ho hd => ?_, fun n hd ho => ?_⟩
  · rw [h₂, h.retired n ho hd]
  · rw [h₂, h.untouched n hd ho, h₁]

/-- All of the collections are moved, and nothing else has changed. -/
theorem carryOuts_ok (hk : kept .hardware) {tenant : String} {ns : List String}
    (h : (ns.forM fun n => carryOut tenant k (Collection.planFor k desired observed n)).Goes
      (conduct kept Call.FailsPlainly) w tr (.ok ()) w') :
    (∀ n ∈ ns, Moved k desired observed n w w') ∧
      ∀ k' n, (k' = k → n ∉ ns) → w'.collection k' n = w.collection k' n := by
  refine Job.goes_forM_ok (P := fun done w₁ => (∀ n ∈ done, Moved k desired observed n w w₁) ∧
    ∀ k' n, (k' = k → n ∉ done) → w₁.collection k' n = w.collection k' n) ?_ ?_ h
  · rintro x done w₁ _ w₂ hx ⟨moved, other⟩
    obtain ⟨own, rest⟩ := carryOut_ok hk hx
    refine ⟨fun n hn => ?_, fun k' n hn => ?_⟩
    · by_cases hnx : n = x
      · subst hnx
        -- moving a collection once more from the same record changes nothing
        by_cases hd : n ∈ done
        · exact (moved n hd).again own
        · exact own.congr (other k n fun _ => hd).symm rfl
      · exact (moved n (by simpa [hnx] using hn)).congr rfl (rest k n fun _ => hnx)
    · rw [rest k' n fun e hnx => hn e (by simp [hnx])]
      exact other k' n fun e hd => hn e (by simp [hd])
  · exact ⟨by simp, fun _ _ _ => rfl⟩

theorem converge_ok (hk : kept .hardware) {tenant : String}
    (h : (converge tenant k desired observed).Goes (conduct kept Call.FailsPlainly) w tr (.ok ()) w') :
    Converged k desired observed w w' ∧
      ∀ k' n, k' ≠ k → w'.collection k' n = w.collection k' n := by
  obtain ⟨_, w₁, tr₁, tr₂, h₁, h₂, rfl⟩ := Job.goes_bind_ok h
  obtain ⟨gone, other⟩ := removeCollections_ok hk h₁
  rw [Collection.plans, List.forM_eq_forM, List.forM_map] at h₂
  obtain ⟨moved, other'⟩ := carryOuts_ok hk h₂
  refine ⟨⟨fun n hn => ?_, fun n ho hd => ?_, fun n hd ho => ?_⟩, fun k' n hk' => ?_⟩
  · refine (moved n hn).congr (other k n fun _ hr => ?_).symm rfl
    exact (Names.mem_without.1 hr).2 hn
  · rw [other' k n fun _ => hd]
    exact gone n (Names.mem_without.2 ⟨ho, hd⟩)
  · rw [other' k n fun _ => hd]
    exact other k n fun _ hr => ho (Names.mem_without.1 hr).1
  · rw [other' k' n fun e => absurd e hk']
    exact other k' n fun e => absurd e hk'

end Hardware

end Tenancy

import Mathlib.Data.List.Nodup
import Mathlib.Logic.Function.Basic
import Tenancy.Hardware
import Tenancy.Proofs.Stages

/-!
# Calls in their order, up to the first that is refused

What is done to the hardware service is done call by call. An answer can be an error and still let the work
go on, if it says that the remote end agrees: what is to go is gone, or what is to be there is there. Any
other error ends the work. A `Course` is what is asked and answered in this way of calls that are planned.
It is built as the work goes, so each part of the work has a lemma that says which course it runs, and what
holds of all courses is said once (`Course.order`, `Course.passes_dropLast`, `Course.ok_iff`,
`Course.refused`).

The error that the work ends with is that of the last call, with what was attempted in front of its
message. `Error.Prefixed` says what that changes.
-/

namespace Tenancy

/-! ## What is put in front of an error -/

namespace Error

inductive Kind where
  | refused
  | clusterFailed
  | authentication
  | unavailable
  | rejected
  | validation
  | hookRejected
  | serialization
  | internal
  deriving DecidableEq, Repr

def kind : Error → Kind
  | .refused _ => .refused
  | .clusterFailed _ => .clusterFailed
  | .authentication _ _ => .authentication
  | .unavailable _ _ => .unavailable
  | .rejected _ _ _ => .rejected
  | .validation _ _ => .validation
  | .hookRejected _ _ => .hookRejected
  | .serialization _ => .serialization
  | .internal _ _ => .internal

/-- What is said of a remote system, or of a token for it. -/
def remoteText? : Error → Option String
  | .unavailable _ m => some m.text
  | .rejected _ _ m => some m.text
  | .authentication _ m => some m.text
  | _ => none

/-- The error is its cause, with these words in front of what is said of a remote system. -/
structure Prefixed (e : Error) (what : String) (cause : Error) : Prop where
  kind_eq : e.kind = cause.kind
  status_eq : e.status = cause.status
  text_eq : e.remoteText? = cause.remoteText?.map (what ++ ": " ++ ·)
  eq_of_none : cause.remoteText? = none → e = cause

theorem prefixed_within (e : Error) (what : String) : (e.within what).Prefixed what e := by
  cases e with
  | unavailable | rejected | authentication => exact ⟨rfl, rfl, rfl, nofun⟩
  | refused | clusterFailed | validation | hookRejected | serialization | internal =>
    exact ⟨rfl, rfl, rfl, fun _ => rfl⟩

end Error

namespace Hardware

open Rehearsal

variable {σ β : Type} {R : Conduct Services σ} {s s' : σ} {tr tr' : List (Moment Services σ)}
  {o : Except Error Unit} {m : Moment Services σ} {e : Error} {plan plan' : List Call} {kind : Kind}
  {name : String} {diff : MemberDiff}

/-! ## Single calls -/

/-- The error says that the remote end agrees with the call. -/
def agrees : Call → Error → Bool
  | .hardware (.remove _ _ _), e | .hardware (.delete _ _), e => e.isNotFound
  | .hardware (.add _ _ _), e | .hardware (.create _ _), e => e.isConflict
  | _, _ => false

/-- What is attempted by a call that changes something. -/
def attempt : Call → Option String
  | .hardware (.remove k n m) => some ("removing member " ++ m ++ " from " ++ k.name ++ " " ++ n)
  | .hardware (.add k n m) => some ("adding member " ++ m ++ " to " ++ k.name ++ " " ++ n)
  | .hardware (.create k c) => some ("creating " ++ k.name ++ " " ++ c.name)
  | .hardware (.delete k n) => some ("deleting " ++ k.name ++ " " ++ n)
  | _ => none

/-- The answer lets the work go on. -/
def Passes (m : Moment Services σ) : Prop := ∀ cause, m.failure? = some cause → agrees m.call cause = true

/-- The answer ends the work, with this error. -/
def Refuses (m : Moment Services σ) (e : Error) : Prop :=
  ∃ cause, m.failure? = some cause ∧ agrees m.call cause = false ∧
    e = (attempt m.call).elim cause cause.within

theorem Refuses.not_passes (h : Refuses m e) : ¬ Passes m := by
  obtain ⟨cause, failed, disagrees, _⟩ := h
  intro passes
  cases disagrees.symm.trans (passes cause failed)

/-- What the work comes to if this is its last call. -/
def verdict (m : Moment Services σ) : Except Error Unit :=
  match m.failure? with
  | none => .ok ()
  | some cause =>
    if agrees m.call cause then .ok () else .error ((attempt m.call).elim cause cause.within)

/-! ## Courses -/

/-- What is asked and answered when planned calls are made in their order, and what that comes to: it ends
with the first call that is refused. -/
inductive Course : List Call → List (Moment Services σ) → Except Error Unit → Prop
  | done : Course [] [] (.ok ())
  | next {m : Moment Services σ} {plan : List Call} {tr : List (Moment Services σ)} {o : Except Error Unit}
      (passes : Passes m) (rest : Course plan tr o) : Course (m.call :: plan) (m :: tr) o
  | stop {m : Moment Services σ} {plan : List Call} {e : Error} (refuses : Refuses m e) :
      Course (m.call :: plan) [m] (.error e)

namespace Course

/-- The calls are made as planned, as far as they are made. -/
theorem order (h : Course plan tr o) : tr.map Moment.call <+: plan := by
  induction h with
  | done => exact List.prefix_rfl
  | next _ _ ih => exact (List.prefix_cons_inj _).2 ih
  | stop _ => exact (List.prefix_cons_inj _).2 List.nil_prefix

theorem mem_plan (h : Course plan tr o) (hm : m ∈ tr) : m.call ∈ plan :=
  h.order.subset (List.mem_map_of_mem hm)

theorem passes_dropLast (h : Course plan tr o) : ∀ m ∈ tr.dropLast, Passes m := by
  induction h with
  | done => exact List.forall_mem_nil _
  | @next m _ tr _ passes _ ih =>
    cases tr with
    | nil => exact List.forall_mem_nil _
    | cons m' tr => exact List.forall_mem_cons.2 ⟨passes, ih⟩
  | stop _ => exact List.forall_mem_nil _

theorem ok_iff (h : Course plan tr o) : o = .ok () ↔ ∀ m ∈ tr, Passes m := by
  induction h with
  | done => exact iff_of_true rfl (List.forall_mem_nil _)
  | next passes _ ih => rw [ih, List.forall_mem_cons, and_iff_right passes]
  | stop refuses => exact iff_of_false nofun fun all => refuses.not_passes (all _ List.mem_cons_self)

theorem complete (h : Course plan tr o) (ho : o = .ok ()) : tr.map Moment.call = plan := by
  induction h with
  | done => rfl
  | next _ _ ih => exact congrArg _ (ih ho)
  | stop _ => cases ho

theorem refused (h : Course plan tr o) (ho : o = .error e) : ∃ m, tr.getLast? = some m ∧ Refuses m e := by
  induction h with
  | done => cases ho
  | next _ _ ih =>
    obtain ⟨m, last, refuses⟩ := ih ho
    exact ⟨m, by rw [List.getLast?_cons, last]; rfl, refuses⟩
  | stop refuses =>
    cases ho
    exact ⟨_, rfl, refuses⟩

theorem append (h : Course plan tr (.ok ())) (h' : Course plan' tr' o) :
    Course (plan ++ plan') (tr ++ tr') o := by
  generalize ho : (.ok () : Except Error Unit) = x at h
  induction h with
  | done => exact h'
  | next passes _ ih => exact .next passes (ih ho)
  | stop _ => cases ho

/-- What was planned after the call that is refused does not matter. -/
theorem cut (h : Course plan tr (.error e)) : Course (plan ++ plan') tr (.error e) := by
  generalize ho : (.error e : Except Error Unit) = x at h
  induction h with
  | done => cases ho
  | next passes _ ih => exact .next passes (ih ho)
  | stop refuses => exact .stop refuses

theorem single (m : Moment Services σ) : Course [m.call] [m] (verdict m) := by
  unfold verdict
  split
  · next none =>
    exact .next (fun cause failed => by cases none.symm.trans failed) .done
  · next cause failed =>
    split
    · next agrees =>
      refine .next (fun cause' failed' => ?_) .done
      obtain rfl := Option.some.inj (failed.symm.trans failed')
      exact agrees
    · next disagrees => exact .stop ⟨cause, failed, by simpa using disagrees, rfl⟩

end Course

/-! ## Courses of jobs -/

/-- The calls that make a difference, all removals before all additions. -/
def moves (kind : Kind) (name : String) (diff : MemberDiff) : List Call :=
  diff.toRemove.map (fun member => .hardware (.remove kind name member)) ++
    diff.toAdd.map fun member => .hardware (.add kind name member)

theorem course_bind {t : Job Unit} {f : Unit → Job Unit}
    (first : ∀ {tr o s'}, t.Goes R s tr o s' → Course plan tr o)
    (rest : ∀ {s tr o s'}, (f ()).Goes R s tr o s' → Course plan' tr o) (h : (t >>= f).Goes R s tr o s') :
    Course (plan ++ plan') tr o := by
  rcases Job.goes_bind h with ⟨e, rfl, h₁⟩ | ⟨⟨⟩, s₁, tr₁, tr₂, h₁, h₂, rfl⟩
  · exact (first h₁).cut
  · exact (first h₁).append (rest h₂)

theorem course_forM {f : β → Job Unit} {calls : β → List Call} {xs : List β}
    (step : ∀ x ∈ xs, ∀ {s tr o s'}, (f x).Goes R s tr o s' → Course (calls x) tr o)
    (h : Job.Goes R (xs.forM f) s tr o s') : Course (xs.flatMap calls) tr o := by
  induction xs generalizing s tr o s' with
  | nil =>
    obtain ⟨rfl, rfl, _⟩ := Job.goes_forM_nil h
    exact .done
  | cons x xs ih =>
    rw [List.flatMap_cons]
    exact course_bind (f := fun _ => xs.forM f) (step x List.mem_cons_self)
      (ih fun y hy => step y (List.mem_cons_of_mem _ hy)) h

/-- A call whose outcome is read as the work reads it is a course of its own. -/
theorem course_reading {c : Call} {read : Except Error c.Reply → Except Error Unit}
    (reads : ∀ s x, read x = verdict (⟨s, c, x⟩ : Moment Services σ))
    (h : Job.Goes R ((Job.call c).outcome >>= fun x => liftExcept (read x)) s tr o s') : Course [c] tr o := by
  obtain ⟨x, hx, rfl⟩ := Job.goes_reading h
  obtain ⟨_, rfl⟩ := Job.goes_call hx
  rw [reads s x]
  exact .single ⟨s, c, x⟩

theorem course_dropMember {member : String} (h : (dropMember kind name member).Goes R s tr o s') :
    Course [.hardware (.remove kind name member)] tr o :=
  course_reading (fun _ x => by cases x <;> rfl) h

theorem course_putMember {member : String} (h : (putMember kind name member).Goes R s tr o s') :
    Course [.hardware (.add kind name member)] tr o :=
  course_reading (fun _ x => by cases x <;> rfl) h

theorem course_syncMembers (h : (syncMembers kind name diff).Goes R s tr o s') :
    Course (moves kind name diff) tr o := by
  rw [moves, List.map_eq_flatMap, List.map_eq_flatMap]
  exact course_bind (course_forM fun _ _ => course_dropMember) (course_forM fun _ _ => course_putMember) h

/-! ## Members -/

/-- The members are named in ascending order, each once. -/
structure Ascending (diff : MemberDiff) : Prop where
  toRemove : diff.toRemove.Pairwise (· < ·)
  toAdd : diff.toAdd.Pairwise (· < ·)

theorem ascending_between (desired observed : List String) : Ascending (MemberDiff.between desired observed) :=
  ⟨Names.pairwise_without _ (Names.pairwise_ofList _), Names.pairwise_without _ (Names.pairwise_ofList _)⟩

theorem nodup_of_ascending {names : Names} (h : names.Pairwise (· < ·)) : names.Nodup := by
  refine h.imp fun {a b} hlt => ?_
  rintro rfl
  exact String.lt_irrefl a hlt

theorem nodup_moves (h : Ascending diff) : (moves kind name diff).Nodup := by
  refine List.nodup_append.2 ⟨(nodup_of_ascending h.toRemove).map ?_, (nodup_of_ascending h.toAdd).map ?_, ?_⟩
  · rintro _ _ ⟨⟩
    rfl
  · rintro _ _ ⟨⟩
    rfl
  · intro c removal c' addition same
    obtain ⟨_, _, rfl⟩ := List.mem_map.1 removal
    obtain ⟨_, _, rfl⟩ := List.mem_map.1 addition
    cases same

theorem attempt_of_mem_moves {c : Call} (h : c ∈ moves kind name diff) : ∃ what, attempt c = some what := by
  rcases List.mem_append.1 h with h | h <;> obtain ⟨_, _, rfl⟩ := List.mem_map.1 h <;> exact ⟨_, rfl⟩

/-- However the service answers, a difference is made by its removals and then its additions, each of them once
and in ascending order, up to the first answer that is neither a success nor says that the service agrees. The
outcome is a success exactly if there is no such answer, and then all calls were made; otherwise it is the
error of the last call, which says which member was to be moved where. -/
theorem syncMembers_calls (ascending : Ascending diff) (h : (syncMembers kind name diff).Goes R s tr o s') :
    (tr.map Moment.call <+: moves kind name diff ∧ (tr.map Moment.call).Nodup) ∧
      (∀ m ∈ tr.dropLast, Passes m) ∧
      (o = .ok () ↔ ∀ m ∈ tr, Passes m) ∧
      (o = .ok () → tr.map Moment.call = moves kind name diff) ∧
      ∀ e, o = .error e → ∃ m cause what, tr.getLast? = some m ∧ m.failure? = some cause ∧
        agrees m.call cause = false ∧ attempt m.call = some what ∧ e.Prefixed what cause := by
  have course := course_syncMembers h
  have distinct : (moves kind name diff).Nodup := nodup_moves ascending
  refine ⟨⟨course.order, distinct.sublist course.order.sublist⟩, course.passes_dropLast, course.ok_iff,
    course.complete, fun e he => ?_⟩
  obtain ⟨m, last, cause, failed, disagrees, rfl⟩ := course.refused he
  obtain ⟨what, attempts⟩ := attempt_of_mem_moves (course.mem_plan (List.mem_of_getLast? last))
  rw [attempts]
  exact ⟨m, cause, what, last, failed, disagrees, attempts, Error.prefixed_within cause what⟩

/-- A member to be removed, and two to be added. -/
def exchanged : MemberDiff where
  toAdd := ["x3", "x4"]
  toRemove := ["x1"]

/-- The partition is not there. So the member that is to be removed is gone already, but none can be added. -/
theorem syncMembers_calls_absent : ∃ (tr : List (Moment Services World)) (w : World) (e cause : Error),
    Ascending exchanged ∧
      (syncMembers .partition "p" exchanged).Goes (World.conduct (fun _ => True) Call.Unreachable) {} tr
        (.error e) w ∧
      tr.map Moment.call = [.hardware (.remove .partition "p" "x1"), .hardware (.add .partition "p" "x3")] ∧
      cause.isNotFound = true ∧ e.Prefixed "adding member x3 to partition p" cause := by
  have ascending : Ascending exchanged := ⟨by decide, by decide⟩
  have plain : (Stage.mk {} [] []).Plain Call.Unreachable := fun f hf => by cases hf
  have ran : (syncMembers .partition "p" exchanged).Goes (World.conduct (fun _ => True) Call.Unreachable) _ _ _ _ :=
    Stage.goes_perform plain _
  have calls : (Stage.story (syncMembers .partition "p" exchanged) (Stage.mk {} [] [])).map Moment.call =
      [.hardware (.remove .partition "p" "x1"), .hardware (.add .partition "p" "x3")] := rfl
  obtain ⟨e, refused⟩ : ∃ e, (Stage.perform (syncMembers .partition "p" exchanged) (Stage.mk {} [] [])).1 =
      .error e := ⟨_, rfl⟩
  rw [refused] at ran
  obtain ⟨-, -, -, -, failed⟩ := syncMembers_calls ascending ran
  obtain ⟨m, cause, what, last, failed, -, attempts, prefixed⟩ := failed e rfl
  cases last
  cases failed
  cases attempts
  exact ⟨_, _, e, _, ascending, ran, calls, rfl, prefixed⟩

/-! ## Collections -/

def finds : Moment Services σ → Bool
  | ⟨_, .hardware (.get _ _), .ok (some _)⟩ => true
  | _ => false

/-- The calls that make sure of a collection: it is made unless it is there. -/
def securing (kind : Kind) (c : Collection) (there : Bool) : List Call :=
  .hardware (.get kind c.name) :: if there then [] else [.hardware (.create kind c)]

/-- The calls that carry out a plan. -/
def errand (tenant : String) (kind : Kind) (there : String → Bool) (p : Collection.Plan) : List Call :=
  securing kind (Collection.forPlan tenant kind p) (there p.name) ++
    moves kind p.name (MemberDiff.between p.desired p.observed)

/-- The calls that move the collections of a kind to what is declared, when these are there already. -/
def itinerary (tenant : String) (kind : Kind) (desired observed : List Resource) (there : String → Bool) :
    List Call :=
  (Collection.retired kind desired observed).map (fun n => .hardware (.delete kind n)) ++
    (Collection.plans kind desired observed).flatMap (errand tenant kind there)

/-- What is there is what is found to be. -/
def Found (kind : Kind) (there : String → Bool) (tr : List (Moment Services σ)) : Prop :=
  ∀ m ∈ tr, ∀ n, m.call = .hardware (.get kind n) → there n = finds m

theorem found_append {there : String → Bool} :
    Found kind there (tr ++ tr') ↔ Found kind there tr ∧ Found kind there tr' := List.forall_mem_append

/-- Nothing is found in calls among which there is no look. -/
theorem Course.found {there : String → Bool} (h : Course plan tr o)
    (looks : ∀ n, Call.hardware (.get kind n) ∉ plan) : Found kind there tr := by
  intro m hm n look
  exact absurd (h.mem_plan hm) (look ▸ looks n)

theorem not_mem_moves {n : String} : Call.hardware (.get kind n) ∉ moves kind name diff := by
  simp [moves]

theorem course_ensureCollection {c : Collection} (h : (ensureCollection kind c).Goes R s tr o s') :
    ∃ there : Bool, Course (securing kind c there) tr o ∧ Found kind (fun _ => there) tr := by
  rcases Job.goes_bind h with ⟨e, rfl, look⟩ | ⟨found, s₁, tr₁, tr₂, look, rest, rfl⟩
  · obtain ⟨_, rfl⟩ := Job.goes_call look
    have refuses : Refuses (⟨s, .hardware (.get kind c.name), .error e⟩ : Moment Services σ) e :=
      ⟨e, rfl, rfl, rfl⟩
    exact ⟨false, .stop refuses, fun m hm n _ => by rw [List.mem_singleton.1 hm]; rfl⟩
  · obtain ⟨_, rfl⟩ := Job.goes_call look
    have passes : Passes (⟨s, .hardware (.get kind c.name), .ok found⟩ : Moment Services σ) := nofun
    have looked {there : Bool} (seen : there = finds ⟨s, .hardware (.get kind c.name), .ok found⟩) :
        Found kind (fun _ => there) [⟨s, .hardware (.get kind c.name), .ok found⟩] :=
      fun m hm n _ => by rw [List.mem_singleton.1 hm, seen]
    cases found with
    | some c' =>
      obtain ⟨rfl, rfl, _⟩ := Job.goes_pure rest
      exact ⟨true, .next passes .done, looked rfl⟩
    | none =>
      have made : Course [.hardware (.create kind c)] tr₂ o :=
        course_reading (fun _ x => by cases x <;> rfl) rest
      exact ⟨false, .next passes made, found_append.2 ⟨looked rfl, made.found (by simp)⟩⟩

theorem course_carryOut {tenant : String} {p : Collection.Plan}
    (h : (carryOut tenant kind p).Goes R s tr o s') :
    ∃ there : Bool, Course (errand tenant kind (fun _ => there) p) tr o ∧ Found kind (fun _ => there) tr := by
  rcases Job.goes_bind h with ⟨e, rfl, first⟩ | ⟨_, s₁, tr₁, tr₂, first, rest, rfl⟩
  · obtain ⟨there, course, found⟩ := course_ensureCollection first
    exact ⟨there, course.cut, found⟩
  · obtain ⟨there, course, found⟩ := course_ensureCollection first
    have moved := course_syncMembers rest
    exact ⟨there, course.append moved, found_append.2 ⟨found, moved.found fun _ => not_mem_moves⟩⟩

theorem course_removeCollection {n : String}
    (h : (discard (removeCollection kind n)).Goes R s tr o s') : Course [.hardware (.delete kind n)] tr o := by
  obtain ⟨o', removal, rfl⟩ := Job.goes_discard h
  obtain ⟨x, hx, rfl⟩ := Job.goes_reading removal
  obtain ⟨_, rfl⟩ := Job.goes_call hx
  have reads (what : String) (e : Error) : (discard (deleted what (.error e)) : Except Error Unit) =
      if e.isNotFound then .ok () else .error (e.within what) := by
    show discard (if e.isNotFound then .ok .absent else .error (e.within what) : Except Error Removal) = _
    split <;> rfl
  rw [show discard (deleted _ x) = verdict (⟨s, .hardware (.delete kind n), x⟩ : Moment Services σ) by
    cases x with
    | ok _ => rfl
    | error e => exact reads _ e]
  exact .single ⟨s, .hardware (.delete kind n), x⟩

/-- The look at the collection of a plan is the only one in its errand. -/
theorem eq_of_mem_errand {tenant n : String} {there : String → Bool} {p : Collection.Plan}
    (h : Call.hardware (.get kind n) ∈ errand tenant kind there p) : n = p.name := by
  rcases List.mem_append.1 h with h | h
  · rcases List.mem_cons.1 h with h | h
    · cases h
      rfl
    · split at h <;> simp at h
  · exact absurd h not_mem_moves

theorem errand_congr {tenant : String} {there there' : String → Bool} {p : Collection.Plan}
    (h : there' p.name = there p.name) : errand tenant kind there' p = errand tenant kind there p := by
  rw [errand, errand, h]

theorem course_plans {tenant : String} {ps : List Collection.Plan} (distinct : (ps.map (·.name)).Nodup)
    (h : Job.Goes R (ps.forM (carryOut tenant kind)) s tr o s') :
    ∃ there : String → Bool, Course (ps.flatMap (errand tenant kind there)) tr o ∧ Found kind there tr := by
  induction ps generalizing s tr with
  | nil =>
    obtain ⟨rfl, rfl, _⟩ := Job.goes_forM_nil h
    exact ⟨fun _ => false, .done, List.forall_mem_nil _⟩
  | cons p ps ih =>
    obtain ⟨unlike, distinct⟩ := List.nodup_cons.1 distinct
    rcases Job.goes_bind (f := fun _ => ps.forM (carryOut tenant kind)) h with
      ⟨e, rfl, first⟩ | ⟨_, s₁, tr₁, tr₂, first, rest, rfl⟩
    · obtain ⟨there, course, found⟩ := course_carryOut first
      exact ⟨fun _ => there, course.cut, found⟩
    · obtain ⟨there, course, found⟩ := course_carryOut first
      obtain ⟨there', course', found'⟩ := ih distinct rest
      -- the plans after it look at other collections, so what is found for this one can be put in
      have others (q : Collection.Plan) (hq : q ∈ ps) :
          Function.update there' p.name there q.name = there' q.name :=
        Function.update_of_ne (fun same => unlike (List.mem_map.2 ⟨q, hq, same⟩)) _ _
      refine ⟨Function.update there' p.name there, ?_,
        found_append.2 ⟨fun m hm n look => ?_, fun m hm n look => ?_⟩⟩
      · have own : errand tenant kind (Function.update there' p.name there) p =
            errand tenant kind (fun _ => there) p :=
          errand_congr (Function.update_self _ _ _)
        rw [List.flatMap_cons, own, List.flatMap_congr fun q hq => errand_congr (others q hq)]
        exact course.append course'
      · have planned := course.mem_plan hm
        rw [look] at planned
        rw [eq_of_mem_errand planned, Function.update_self]
        exact found m hm n look
      · have planned := course'.mem_plan hm
        rw [look] at planned
        obtain ⟨q, hq, planned⟩ := List.mem_flatMap.1 planned
        obtain rfl := eq_of_mem_errand planned
        rw [others q hq]
        exact found' m hm _ look

/-- All planned calls are for the hardware service. -/
theorem exists_of_mem_itinerary {tenant : String} {desired observed : List Resource} {there : String → Bool}
    {c : Call} (h : c ∈ itinerary tenant kind desired observed there) : ∃ call, c = .hardware call := by
  rcases List.mem_append.1 h with h | h
  · obtain ⟨n, _, rfl⟩ := List.mem_map.1 h
    exact ⟨_, rfl⟩
  · obtain ⟨p, _, h⟩ := List.mem_flatMap.1 h
    rcases List.mem_append.1 h with h | h
    · rcases List.mem_cons.1 h with rfl | h
      · exact ⟨_, rfl⟩
      · split at h
        · cases h
        · exact ⟨_, List.mem_singleton.1 h⟩
    · rcases List.mem_append.1 h with h | h <;> obtain ⟨_, _, rfl⟩ := List.mem_map.1 h <;> exact ⟨_, rfl⟩

theorem plans_name (desired observed : List Resource) :
    (Collection.plans kind desired observed).map (·.name) = Collection.targets kind desired := by
  simp [Collection.plans, Function.comp_def, Collection.planFor]

/-- However the service answers, collections are moved to what is declared in a course: those that are no longer
declared are deleted, and then plan after plan is carried out. -/
theorem course_converge {tenant : String} {desired observed : List Resource}
    (h : (converge tenant kind desired observed).Goes R s tr o s') :
    ∃ there : String → Bool, Course (itinerary tenant kind desired observed there) tr o ∧ Found kind there tr := by
  have retired {s tr o s'} (h : Job.Goes R ((Collection.retired kind desired observed).forM fun name =>
      discard (removeCollection kind name)) s tr o s') :
      Course ((Collection.retired kind desired observed).map fun n => Call.hardware (.delete kind n)) tr o := by
    rw [List.map_eq_flatMap]
    exact course_forM (fun _ _ => course_removeCollection) h
  have distinct : ((Collection.plans kind desired observed).map (·.name)).Nodup := by
    rw [plans_name]
    exact nodup_of_ascending (Names.pairwise_ofList _)
  rcases Job.goes_bind h with ⟨e, rfl, first⟩ | ⟨_, s₁, tr₁, tr₂, first, rest, rfl⟩
  · exact ⟨fun _ => false, (retired first).cut, (retired first).found (by simp)⟩
  · obtain ⟨there, course, found⟩ := course_plans distinct rest
    exact ⟨there, (retired first).append course, found_append.2 ⟨(retired first).found (by simp), found⟩⟩

end Hardware

end Tenancy

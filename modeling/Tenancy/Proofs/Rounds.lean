import Tenancy.Dispatch
import Tenancy.Proofs.Stages

/-!
# Who is told about an event

The systems may give any answers, other ones each time they are asked. An `Attempt` is what is asked and
answered to tell one hook, with what it comes to. In a `Round` hooks are attempted in their order, up to the
first that refuses: a blocking hook whose attempt fails. `dispatch_tells` is about all calls of an
announcement. They are a round of the tenant's own hooks; and if none of these refuses one listing, and a
round of the hooks in it.
-/

namespace Tenancy.Dispatch

open Rehearsal

variable {σ : Type} {R : Conduct Services σ} {s s' : σ} {tr : List (Moment Services σ)} {n : Notice}

/-! ## One hook -/

/-- The credentials in the secret that a hook names, as it was read. -/
def credentialsIn (ref : SecretRef) : Except Error (Option (Dict String)) → Except Error Credentials
  | .error e => .error e
  | .ok none => .error (badSecret ref "not found")
  | .ok (some data) =>
    match Credentials.ofSecret? data with
    | some c => .ok c
    | none => .error (badSecret ref "has neither token nor username")

/-- What is asked and answered to tell a hook, and what it comes to. A hook is posted to once; but if its
credentials cannot be had, it is not, and the reason is what the attempt comes to. -/
inductive Told (n : Notice) (h : Hook) : List (Moment Services σ) → Except Error Unit → Prop
  | bare {s : σ} {status : Except Error Nat} (asks : h.credentials = none) :
      Told n h [⟨s, .hook (.post h.url n h.blocking none), status⟩] (status >>= delivered h.url)
  | withheld {s : σ} {ref : SecretRef} {read : Except Error (Option (Dict String))} {e : Error}
      (asks : h.credentials = some ref) (had : credentialsIn ref read = .error e) :
      Told n h [⟨s, .hook (.readSecret ref.space ref.name), read⟩] (.error e)
  | signed {s s₁ : σ} {ref : SecretRef} {read : Except Error (Option (Dict String))} {c : Credentials}
      {status : Except Error Nat} (asks : h.credentials = some ref) (had : credentialsIn ref read = .ok c) :
      Told n h [⟨s, .hook (.readSecret ref.space ref.name), read⟩,
        ⟨s₁, .hook (.post h.url n h.blocking (some c)), status⟩] (status >>= delivered h.url)

theorem post_goes {h : Hook} {c : Option Credentials} {o : Except Error Unit}
    (hg : Job.Goes R (do liftExcept (delivered h.url (← post h.url n h.blocking c))) s tr o s') :
    ∃ status : Except Error Nat, tr = [⟨s, .hook (.post h.url n h.blocking c), status⟩] ∧
      o = (status >>= delivered h.url) := by
  rcases Job.goes_bind hg with ⟨e, rfl, posted⟩ | ⟨status, s₁, tr₁, tr₂, posted, answered, rfl⟩
  · obtain ⟨_, rfl⟩ := Job.goes_call posted
    exact ⟨.error e, rfl, rfl⟩
  · obtain ⟨_, rfl⟩ := Job.goes_call posted
    obtain ⟨rfl, rfl, _⟩ := Job.goes_liftExcept answered
    exact ⟨.ok status, rfl, rfl⟩

theorem credentialsFor_goes {h : Hook} {o : Except Error (Option Credentials)}
    (hg : (credentialsFor h).Goes R s tr o s') :
    (h.credentials = none ∧ tr = [] ∧ o = .ok none) ∨
      ∃ (ref : SecretRef) (read : Except Error (Option (Dict String))), h.credentials = some ref ∧
        tr = [⟨s, .hook (.readSecret ref.space ref.name), read⟩] ∧ o = some <$> credentialsIn ref read := by
  unfold credentialsFor at hg
  split at hg
  · next none =>
    obtain ⟨rfl, rfl, _⟩ := Job.goes_pure hg
    exact .inl ⟨none, rfl, rfl⟩
  · next ref asks =>
    refine .inr ⟨ref, ?_⟩
    rcases Job.goes_bind hg with ⟨e, rfl, read⟩ | ⟨found, s₁, tr₁, tr₂, read, rest, rfl⟩
    · obtain ⟨_, rfl⟩ := Job.goes_call read
      exact ⟨.error e, asks, rfl, rfl⟩
    · obtain ⟨_, rfl⟩ := Job.goes_call read
      refine ⟨.ok found, asks, ?_⟩
      cases found with
      | none =>
        obtain ⟨rfl, rfl, _⟩ := Job.goes_throw rest
        exact ⟨rfl, rfl⟩
      | some data =>
        dsimp only at rest
        split at rest
        · next c hc =>
          obtain ⟨rfl, rfl, _⟩ := Job.goes_pure rest
          exact ⟨rfl, by simp only [credentialsIn, hc]; rfl⟩
        · next hc =>
          obtain ⟨rfl, rfl, _⟩ := Job.goes_throw rest
          exact ⟨rfl, by simp only [credentialsIn, hc]; rfl⟩

theorem tell_goes {h : Hook} {o : Except Error Unit} (hg : (tell n h).Goes R s tr o s') : Told n h tr o := by
  rcases Job.goes_bind hg with ⟨e, rfl, resolved⟩ | ⟨c, s₁, tr₁, tr₂, resolved, posted, rfl⟩
  · rcases credentialsFor_goes resolved with ⟨_, _, ho⟩ | ⟨ref, read, asks, rfl, ho⟩
    · cases ho
    · cases had : credentialsIn ref read with
      | error e' =>
        rw [had] at ho
        cases ho
        exact .withheld asks had
      | ok c =>
        rw [had] at ho
        cases ho
  · obtain ⟨status, rfl, rfl⟩ := post_goes posted
    rcases credentialsFor_goes resolved with ⟨asks, rfl, ho⟩ | ⟨ref, read, asks, rfl, ho⟩
    · cases ho
      exact .bare asks
    · cases had : credentialsIn ref read with
      | error e' =>
        rw [had] at ho
        cases ho
      | ok c =>
        rw [had] at ho
        cases ho
        exact .signed asks had

/-! ## Rounds -/

structure Attempt (σ : Type) where
  hook : Hook
  moments : List (Moment Services σ)
  outcome : Except Error Unit

namespace Attempt

/-- The hook has nothing against the transition: it heard of it, or it need not. -/
def Passes (a : Attempt σ) : Prop := a.hook.blocking = true → a.outcome = .ok ()

/-- The hook refuses the transition, with this error. -/
def Refuses (a : Attempt σ) (e : Error) : Prop :=
  a.hook.blocking = true ∧ ∃ cause, a.outcome = .error cause ∧ e = .hookRejected a.hook.name cause.message

theorem Refuses.not_passes {a : Attempt σ} {e : Error} (h : a.Refuses e) : ¬ a.Passes := by
  obtain ⟨blocking, cause, failed, _⟩ := h
  intro passes
  cases failed.symm.trans (passes blocking)

end Attempt

/-- The hooks that want to hear of the event are attempted in their order; all of them, or up to the first
that refuses. -/
structure Round (n : Notice) (hooks : List Hook) (told : List (Attempt σ)) : Prop where
  made : ∀ a ∈ told, Told n a.hook a.moments a.outcome
  order : told.map Attempt.hook <+: hooks.filter fun h => h.subscribesTo n.event
  last : ∀ a ∈ told.dropLast, a.Passes
  complete : (∀ a ∈ told, a.Passes) → told.map Attempt.hook = hooks.filter fun h => h.subscribesTo n.event

/-- What attempts come to: an error if one of them refuses. -/
inductive Verdict (told : List (Attempt σ)) : Except Error Unit → Prop
  | passed (all : ∀ a ∈ told, a.Passes) : Verdict told (.ok ())
  | refused {a : Attempt σ} {e : Error} (ha : a ∈ told) (refuses : a.Refuses e) : Verdict told (.error e)

namespace Verdict

variable {told told' : List (Attempt σ)} {o : Except Error Unit}

theorem ok_iff (h : Verdict told o) : o = .ok () ↔ ∀ a ∈ told, a.Passes := by
  cases h with
  | passed all => exact iff_of_true rfl all
  | refused ha refuses => exact iff_of_false nofun fun all => refuses.not_passes (all _ ha)

theorem of_error {e : Error} (h : Verdict told (.error e)) : ∃ a ∈ told, a.Refuses e := by
  cases h with
  | refused ha refuses => exact ⟨_, ha, refuses⟩

/-- Attempts come to the same after others that do not refuse. -/
theorem after (h : Verdict told' o) (all : ∀ a ∈ told, a.Passes) : Verdict (told ++ told') o := by
  cases h with
  | passed all' => exact .passed (List.forall_mem_append.2 ⟨all, all'⟩)
  | refused ha refuses => exact .refused (List.mem_append_right _ ha) refuses

end Verdict

theorem verdict_cases {a : Attempt σ} {o : Except Error Unit} (h : verdict a.hook a.outcome = o) :
    (o = .ok () ∧ a.Passes) ∨ ∃ e, o = .error e ∧ a.Refuses e := by
  subst h
  obtain ⟨hook, moments, outcome⟩ := a
  cases outcome with
  | ok u => exact .inl ⟨rfl, fun _ => rfl⟩
  | error e =>
    cases blocking : hook.blocking with
    | true => exact .inr ⟨_, by simp [verdict, blocking], blocking, e, rfl, rfl⟩
    | false => exact .inl ⟨by simp [verdict, blocking], fun h => by cases h.symm.trans blocking⟩

namespace Round

variable {h : Hook} {rest : List Hook} {a : Attempt σ} {told : List (Attempt σ)}

theorem nil : Round n [] ([] : List (Attempt σ)) :=
  ⟨List.forall_mem_nil _, List.prefix_rfl, List.forall_mem_nil _, fun _ => rfl⟩

theorem of_nil (r : Round n [] told) : told = [] := by simpa using r.order

theorem skip (deaf : h.subscribesTo n.event = false) (r : Round n rest told) : Round n (h :: rest) told := by
  have same : (h :: rest).filter (fun h => h.subscribesTo n.event) = rest.filter fun h => h.subscribesTo n.event :=
    List.filter_cons_of_neg (by simp [deaf])
  exact ⟨r.made, same ▸ r.order, r.last, same ▸ r.complete⟩

/-- A round that ends with its first attempt. -/
theorem stop (hears : a.hook.subscribesTo n.event = true) (made : Told n a.hook a.moments a.outcome)
    (refuses : ¬ a.Passes) : Round n (a.hook :: rest) [a] := by
  have first : (a.hook :: rest).filter (fun h => h.subscribesTo n.event) =
      a.hook :: rest.filter fun h => h.subscribesTo n.event := List.filter_cons_of_pos hears
  refine ⟨fun b hb => ?_, ?_, List.forall_mem_nil _, fun all => absurd (all a (List.mem_singleton_self a)) refuses⟩
  · rwa [List.mem_singleton.1 hb]
  · rw [first]
    exact ⟨_, rfl⟩

/-- A round that goes on after its first attempt. -/
theorem next (hears : a.hook.subscribesTo n.event = true) (made : Told n a.hook a.moments a.outcome)
    (passes : a.Passes) (r : Round n rest told) : Round n (a.hook :: rest) (a :: told) := by
  have first : (a.hook :: rest).filter (fun h => h.subscribesTo n.event) =
      a.hook :: rest.filter fun h => h.subscribesTo n.event := List.filter_cons_of_pos hears
  refine ⟨List.forall_mem_cons.2 ⟨made, r.made⟩, ?_, ?_, fun all => ?_⟩
  · rw [first]
    exact List.prefix_cons_inj _ |>.2 r.order
  · cases told with
    | nil => exact List.forall_mem_nil _
    | cons b told => exact List.forall_mem_cons.2 ⟨passes, r.last⟩
  · rw [first, List.map_cons, r.complete fun b hb => all b (List.mem_cons_of_mem _ hb)]

end Round

theorem tellAll_goes {hooks : List Hook} {o : Except Error Unit} (hg : (tellAll n hooks).Goes R s tr o s') :
    ∃ told : List (Attempt σ), Round n hooks told ∧ tr = told.flatMap Attempt.moments ∧ Verdict told o := by
  induction hooks generalizing s tr with
  | nil =>
    obtain ⟨rfl, rfl, _⟩ := Job.goes_pure hg
    exact ⟨[], .nil, rfl, .passed (List.forall_mem_nil _)⟩
  | cons h rest ih =>
    unfold tellAll at hg
    dsimp only at hg
    split at hg
    · next hears =>
      obtain ⟨outcome, s₁, tr₁, tr₂, told, judged, rfl⟩ := Job.goes_bind_outcome hg
      have made := tell_goes told
      rcases Job.goes_bind judged with ⟨e, rfl, refused⟩ | ⟨u, s₂, tr₃, tr₄, passed, others, rfl⟩
      · obtain ⟨rfl, ho, _⟩ := Job.goes_liftExcept refused
        rcases verdict_cases (a := ⟨h, tr₁, outcome⟩) ho.symm with ⟨ho, _⟩ | ⟨e', ho, refuses⟩
        · cases ho
        · cases ho
          exact ⟨[⟨h, tr₁, outcome⟩], .stop hears made refuses.not_passes, rfl,
            .refused (List.mem_singleton_self _) refuses⟩
      · obtain ⟨rfl, ho, _⟩ := Job.goes_liftExcept passed
        rcases verdict_cases (a := ⟨h, tr₁, outcome⟩) ho.symm with ⟨_, passes⟩ | ⟨_, ho, _⟩
        · obtain ⟨told, round, rfl, verdict⟩ := ih others
          have all : ∀ a ∈ [(⟨h, tr₁, outcome⟩ : Attempt σ)], a.Passes := List.forall_mem_singleton.2 passes
          exact ⟨⟨h, tr₁, outcome⟩ :: told, .next hears made passes round, rfl, verdict.after all⟩
        · cases ho
    · next deaf =>
      obtain ⟨told, round, trace, verdict⟩ := ih hg
      exact ⟨told, .skip (by simpa using deaf) round, trace, verdict⟩

/-! ## Announcements -/

/-- The hooks in a listing; a listing that failed has none. -/
def listed : Except Error (List Hook) → List Hook
  | .ok hooks => hooks
  | .error _ => []

/-- All that is asked when hooks are told about an event, whatever the answers are. The tenant's own hooks are
attempted in a round; if one of them refuses, nothing else is asked, and otherwise the registered hooks are
listed, once, and attempted in another round. The outcome is a success exactly if no attempted hook refuses,
and else the error of one that does. If the listing fails, no registered hook is attempted. -/
theorem dispatch_tells {spec : Spec} {event : Event} {o : Except Error Unit}
    (h : (dispatch spec event).Goes R s tr o s') :
    ∃ own registered : List (Attempt σ), Round ⟨spec, event⟩ spec.hooks own ∧
      (o = .ok () ↔ ∀ a ∈ own ++ registered, a.Passes) ∧
      (∀ e, o = .error e → ∃ a ∈ own ++ registered, a.Refuses e) ∧
      ((∃ a ∈ own, ¬ a.Passes) ∧ registered = [] ∧ tr = own.flatMap Attempt.moments ∨
        (∀ a ∈ own, a.Passes) ∧ ∃ (s₁ : σ) (listing : Except Error (List Hook)),
          Round ⟨spec, event⟩ (listed listing) registered ∧ (∀ e, listing = .error e → registered = []) ∧
            tr = own.flatMap Attempt.moments ++
              ⟨s₁, .hook .listGlobal, listing⟩ :: registered.flatMap Attempt.moments) := by
  rcases Job.goes_bind h with ⟨e, rfl, first⟩ | ⟨_, s₁, tr₁, tr₂, first, rest, rfl⟩
  · obtain ⟨own, round, rfl, verdict⟩ := tellAll_goes first
    obtain ⟨a, ha, refuses⟩ := verdict.of_error
    rw [← List.append_nil own] at verdict
    refine ⟨own, [], round, verdict.ok_iff, fun e' he => ?_, .inl ⟨⟨a, ha, refuses.not_passes⟩, rfl, rfl⟩⟩
    cases he
    exact verdict.of_error
  · obtain ⟨own, round, rfl, verdict⟩ := tellAll_goes first
    have passed := verdict.ok_iff.1 rfl
    rcases Job.goes_bind rest with ⟨e, rfl, asked⟩ | ⟨listing, s₂, tr₃, tr₄, asked, others, rfl⟩
    · obtain ⟨_, ho, _⟩ := Job.goes_outcome asked
      cases ho
    · obtain ⟨_, ho, asked⟩ := Job.goes_outcome asked
      cases ho
      obtain ⟨_, rfl⟩ := Job.goes_call asked
      obtain ⟨registered, round', rfl, verdict'⟩ : ∃ registered : List (Attempt σ),
          Round ⟨spec, event⟩ (listed listing) registered ∧ tr₄ = registered.flatMap Attempt.moments ∧
            Verdict registered o := by
        cases listing with
        | ok hooks => exact tellAll_goes others
        | error e =>
          obtain ⟨rfl, rfl, _⟩ := Job.goes_pure others
          exact ⟨[], .nil, rfl, .passed (List.forall_mem_nil _)⟩
      have all := verdict'.after passed
      refine ⟨own, registered, round, all.ok_iff, fun e he => ?_, .inr ⟨passed, s₁, listing, round', ?_, rfl⟩⟩
      · subst he
        exact all.of_error
      · rintro e rfl
        exact round'.of_nil

/-- A tenant with a hook that only watches, and two that may refuse. -/
def guarded : Spec where
  name := "blue"
  hooks := [
    { name := "watch", url := "http://watch", events := [.create] },
    { name := "gate", url := "http://gate", events := [.create, .delete], blocking := true },
    { name := "late", url := "http://late", events := [.create], blocking := true }]

/-- Systems in which the first two of these hooks fail. -/
def closedGate : Stage where
  world := { hookStatus := [("http://gate", 403), ("http://watch", 500)] }

/-- The failure of the first hook changes nothing, and after the second nobody is asked. -/
theorem dispatch_tells_guarded :
    ∃ told : List (Attempt World), Round ⟨guarded, .create⟩ guarded.hooks told ∧
      (∃ a ∈ told, ∃ m, a.Refuses (.hookRejected "gate" m)) ∧
      Stage.story (dispatch guarded .create) closedGate = told.flatMap Attempt.moments := by
  have plain : closedGate.Plain Call.Unreachable := fun f hf => by cases hf
  have ran : (dispatch guarded .create).Goes (World.conduct (fun _ => True) Call.Unreachable) _ _ _ _ :=
    Stage.goes_perform plain _
  obtain ⟨m, refused⟩ : ∃ m, (Stage.perform (dispatch guarded .create) closedGate).1 =
      .error (.hookRejected "gate" m) := ⟨_, rfl⟩
  have calls : (Stage.story (dispatch guarded .create) closedGate).map Moment.query =
      [.hook (.post "http://watch" ⟨guarded, .create⟩ false none),
        .hook (.post "http://gate" ⟨guarded, .create⟩ true none)] := rfl
  obtain ⟨own, registered, round, -, failed, ⟨-, rfl, trace⟩ | ⟨-, s₁, listing, -, -, trace⟩⟩ := dispatch_tells ran
  · obtain ⟨a, ha, refuses⟩ := failed _ refused
    exact ⟨own, round, ⟨a, by simpa using ha, m, refuses⟩, trace⟩
  · have asked : Call.hook .listGlobal ∈ (Stage.story (dispatch guarded .create) closedGate).map Moment.query := by
      rw [trace]
      exact List.mem_map.2 ⟨⟨s₁, .hook .listGlobal, listing⟩, by simp, rfl⟩
    rw [calls] at asked
    rcases List.mem_cons.1 asked with first | rest
    · cases first
    · cases List.mem_singleton.1 rest

end Tenancy.Dispatch

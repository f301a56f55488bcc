import Mathlib.Algebra.Order.Field.Rat
import Mathlib.Algebra.Order.Ring.Unbundled.Rat
import Mathlib.Order.Bounds.Basic
import Mathlib.Tactic.NormNum
import Tenancy.Lifecycle.StatusWrite
import Tenancy.Proofs.Jobs

/-!
# How a series of attempts ends

A series ends with its first final attempt: one that succeeds, one whose failure no other attempt may
mend, or the last one allowed. `Retry.Ends` says what has been done by then.

* `Backoff.next?_nominal`: the nominal pauses have a closed form. The first one is as it was set, each
  later one is the first one times a power of the factor, up to the ceiling.
* `Retry.run_eq`, `Retry.attempts_eq`: as long as attempts go on there is a pause after each, and the
  first attempt that is not followed by another one gives the outcome.
* `Job.failures_of_attempts`: a job that is repeated while it is refused ends with a refusal only if
  every attempt that it may have was refused, one right after the other.
-/

namespace Tenancy

/-! ## Nominal pauses -/

namespace Backoff

variable {b : Backoff}

/-- No pause is negative, and pauses do not shrink before the ceiling. -/
structure Grows (b : Backoff) : Prop where
  initial : 0 ≤ b.initialDelay
  ceiling : 0 ≤ b.maxDelay
  factor : 1 ≤ b.factor

/-- The nominal pause before retry `i`, counted from 1. -/
def nominal (b : Backoff) (i : Nat) : Rat :=
  if i = 1 then b.initialDelay else min (b.initialDelay * b.factor ^ (i - 1)) b.maxDelay

theorem capped?_of_nonneg {limit grown : Rat} (hl : 0 ≤ limit) (hg : 0 ≤ grown) :
    capped? limit grown = some (min grown limit) := by
  have length : (if grown ≤ limit then grown else limit) = min grown limit := (min_def _ _).symm
  have nonneg : ¬ min grown limit < 0 := not_lt.2 (le_min hg hl)
  simp only [capped?, length, if_neg nonneg]

theorem Grows.nominal_nonneg (h : b.Grows) (i : Nat) : 0 ≤ b.nominal i := by
  have factor : 0 ≤ b.factor := le_trans zero_le_one h.factor
  unfold nominal
  split
  · exact h.initial
  · exact le_min (mul_nonneg h.initial (pow_nonneg factor _)) h.ceiling

/-- The next nominal pause. -/
theorem next?_nominal (h : b.Grows) {i : Nat} (hi : 1 ≤ i) :
    b.exactTiming.next? (b.nominal i) = some (b.nominal (i + 1)) := by
  have factor : 0 ≤ b.factor := le_trans zero_le_one h.factor
  have closed : min (b.nominal i * b.factor) b.maxDelay = b.nominal (i + 1) := by
    obtain ⟨j, rfl⟩ : ∃ j, i = j + 1 := ⟨i - 1, by omega⟩
    have later : b.nominal (j + 1 + 1) = min (b.initialDelay * b.factor ^ (j + 1)) b.maxDelay := by
      rw [nominal, if_neg (by omega)]
      rfl
    rw [later]
    cases j with
    | zero => rw [nominal, if_pos rfl, pow_one]
    | succ j =>
      -- what was cut off at the ceiling before is above it again
      have above : b.maxDelay ≤ b.maxDelay * b.factor := le_mul_of_one_le_right h.ceiling h.factor
      rw [nominal, if_neg (by omega), min_mul_of_nonneg _ _ factor, min_assoc, min_eq_right above, mul_assoc,
        ← pow_succ]
      rfl
  rw [← closed]
  exact capped?_of_nonneg h.ceiling (mul_nonneg (h.nominal_nonneg i) factor)

end Backoff

/-! ## Series of attempts -/

namespace Retry

variable {δ ε α : Type} {b : Backoff} {retries : ε → Bool} {jitter : Nat → Rat}
  {outcomes : Nat → Except ε α} {timing : Timing δ} {delays : Nat → δ} {n k : Nat}

/-- No attempt follows attempt number `n`: it succeeds, or its error is not one to retry, or it is the
last one allowed. -/
def Final (b : Backoff) (retries : ε → Bool) (outcomes : Nat → Except ε α) (n : Nat) : Prop :=
  (∃ a, outcomes n = .ok a) ∨ (∃ e, outcomes n = .error e ∧ retries e = false) ∨
    (0 < b.maxAttempts ∧ n = b.maxAttempts)

/-- Attempt number `n`, counted from 1, is the first final one. -/
def FirstFinal (b : Backoff) (retries : ε → Bool) (outcomes : Nat → Except ε α) (n : Nat) : Prop :=
  IsLeast {i | 1 ≤ i ∧ Final b retries outcomes i} n

theorem exists_firstFinal (h : 1 ≤ k ∧ Final b retries outcomes k) :
    ∃ n, n ≤ k ∧ FirstFinal b retries outcomes n := by
  classical
  have some_final : ∃ i, 1 ≤ i ∧ Final b retries outcomes i := ⟨k, h⟩
  exact ⟨Nat.find some_final, Nat.find_min' some_final h, Nat.find_spec some_final,
    fun i hi => Nat.find_min' some_final hi⟩

theorem goesOn_of_not_final (h : ∀ i, 1 ≤ i → i ≤ n → ¬ Final b retries outcomes i) (hn : 1 ≤ n) :
    goesOn b retries n (outcomes n) = true := by
  have unlimited : b.isLast n = false := by
    by_contra last
    simp only [Backoff.isLast, Bool.not_eq_false, Bool.and_eq_true, decide_eq_true_eq] at last
    exact h b.maxAttempts last.1 last.2 (.inr (.inr ⟨last.1, rfl⟩))
  cases outcome : outcomes n with
  | ok a => exact absurd (.inl ⟨a, outcome⟩) (h n hn le_rfl)
  | error e =>
    have mendable : retries e = true := by
      by_contra other
      exact h n hn le_rfl (.inr (.inl ⟨e, outcome, by simpa using other⟩))
    simp [goesOn, mendable, unlimited]

theorem not_goesOn_of_final (h : Final b retries outcomes n) : goesOn b retries n (outcomes n) = false := by
  rcases h with ⟨a, outcome⟩ | ⟨e, outcome, other⟩ | ⟨limited, rfl⟩
  · rw [outcome]
    rfl
  · simp [goesOn, outcome, other]
  · have last : b.isLast b.maxAttempts = true := by simp [Backoff.isLast, limited]
    cases outcomes b.maxAttempts with
    | ok a => rfl
    | error e => simp [goesOn, last]

theorem FirstFinal.goesOn (h : FirstFinal b retries outcomes n) {i : Nat} (hi : 1 ≤ i) (hin : i < n) :
    goesOn b retries i (outcomes i) = true := by
  refine goesOn_of_not_final (fun j hj hji final => ?_) hi
  have least : n ≤ j := h.2 ⟨hj, final⟩
  omega

/-- A pause follows each attempt until the first one that ends the series. -/
theorem run_eq (stops : goesOn b retries n (outcomes n) = false)
    (next : ∀ i, k ≤ i → timing.next? (delays i) = some (delays (i + 1))) {room : Nat}
    (enough : n < k + room) (hk : k ≤ n)
    (goes : ∀ i, k ≤ i → i < n → goesOn b retries i (outcomes i) = true) :
    run b timing retries jitter outcomes room k (delays k) =
      ((List.range' k (n - k)).map fun i => timing.stretch (delays i) (jitter i), .outcome (outcomes n)) := by
  induction room generalizing k with
  | zero => omega
  | succ room ih =>
    by_cases last : k = n
    · subst last
      simp [run, stops]
    · have rest := ih (k := k + 1) (fun i hi => next i (by omega)) (by omega) (by omega)
        fun i hi => goes i (by omega)
      have pauses : n - k = (n - (k + 1)) + 1 := by omega
      rw [run, if_pos (goes k le_rfl (by omega)), next k le_rfl]
      simp only [rest, pauses, List.range'_succ, List.map_cons]

/-- If no attempt ends the series, it goes on for as long as there is room. -/
theorem run_unfinished (next : ∀ i, k ≤ i → timing.next? (delays i) = some (delays (i + 1)))
    (goes : ∀ i, k ≤ i → goesOn b retries i (outcomes i) = true) (room : Nat) :
    run b timing retries jitter outcomes room k (delays k) =
      ((List.range' k room).map fun i => timing.stretch (delays i) (jitter i), .unfinished) := by
  induction room generalizing k with
  | zero => rfl
  | succ room ih =>
    have rest := ih (k := k + 1) (fun i hi => next i (by omega)) fun i hi => goes i (by omega)
    rw [run, if_pos (goes k le_rfl), next k le_rfl]
    simp only [rest, List.range'_succ, List.map_cons]

/-- An operation with given outcomes, which counts its calls. -/
def counted (outcomes : Nat → Except ε α) : StateM Nat (Except ε α) :=
  fun calls => (outcomes (calls + 1), calls + 1)

/-- The operation is called once for each attempt, up to the first one that ends the series. -/
theorem attempts_eq (stops : goesOn b retries n (outcomes n) = false) {room : Nat}
    (enough : n ≤ k + 1 + room) (hk : k < n)
    (goes : ∀ i, k < i → i < n → goesOn b retries i (outcomes i) = true) :
    (attempts b retries (counted outcomes) room (k + 1)).run k = (outcomes n, n) := by
  induction room generalizing k with
  | zero =>
    obtain rfl : k + 1 = n := by omega
    rfl
  | succ room ih =>
    show (if goesOn b retries (k + 1) (outcomes (k + 1)) then
      attempts b retries (counted outcomes) room (k + 1 + 1) else pure (outcomes (k + 1))).run (k + 1) = _
    by_cases last : k + 1 = n
    · rw [last, stops]
      rfl
    · rw [if_pos (goes (k + 1) (by omega) (by omega))]
      exact ih (by omega) (by omega) fun i hi => goes i (by omega)

end Retry

/-! ## Refusals one after the other -/

namespace Job

variable {σ α : Type} {R : Conduct Services σ} {s s' : σ} {tr : List (Moment Services σ)} {e : Error}

/-- A job is attempted again and again and fails with these errors, each attempt from the state in which
the one before ended. -/
inductive Failures (R : Conduct Services σ) (t : Job α) :
    σ → List (Moment Services σ) → List Error → σ → Prop
  | none (s : σ) : Failures R t s [] [] s
  | more {s s₁ s₂ : σ} {tr tr₁ : List (Moment Services σ)} {e : Error} {es : List Error}
      (failed : t.Goes R s tr (.error e) s₁) (rest : Failures R t s₁ tr₁ es s₂) :
      Failures R t s (tr ++ tr₁) (e :: es) s₂

/-- Exactly so many attempts were made, every one of them was refused because someone else wrote first,
and this is the refusal of the last one. -/
def Refused (R : Conduct Services σ) (t : Job α) (times : Nat) (s : σ) (tr : List (Moment Services σ))
    (e : Error) (s' : σ) : Prop :=
  ∃ es, Failures R t s tr es s' ∧ es.length = times ∧ (∀ x ∈ es, x.isConflict = true) ∧
    es.getLast? = some e

/-- What is repeated while it may be mended ends with such an error only when no attempt is left. -/
theorem failures_of_attempts {b : Backoff} {retries : Error → Bool} {t : Job α} {room n : Nat}
    (h : Dialogue.Goes R (Retry.attempts b retries t.run room n) s tr (.error e) s')
    (mendable : retries e = true) (hn : 1 ≤ n ∧ n ≤ b.maxAttempts) (enough : b.maxAttempts ≤ n + room) :
    ∃ es, Failures R t s tr es s' ∧ es.length = b.maxAttempts + 1 - n ∧ (∀ x ∈ es, retries x = true) ∧
      es.getLast? = some e := by
  have single {s s' : σ} {tr : List (Moment Services σ)} (h : t.Goes R s tr (.error e) s') :
      Failures R t s tr [e] s' := by
    have one := Failures.more h (.none s')
    rwa [List.append_nil] at one
  induction room generalizing s tr n with
  | zero =>
    refine ⟨[e], single h, ?_, ?_, rfl⟩
    · simp only [List.length_singleton]
      omega
    · simpa using mendable
  | succ room ih =>
    obtain ⟨x, s₁, tr₁, tr₂, first, rest, rfl⟩ := Dialogue.Goes.of_bind h
    split at rest
    · next again =>
      cases x with
      | ok a => simp [Retry.goesOn] at again
      | error e₁ =>
        simp only [Retry.goesOn, Backoff.isLast, Bool.and_eq_true, Bool.not_eq_true',
          Bool.and_eq_false_iff, decide_eq_false_iff_not] at again
        obtain ⟨es, failures, length, all, last⟩ := ih rest (by omega) (by omega)
        refine ⟨e₁ :: es, .more first failures, ?_, ?_, ?_⟩
        · simp only [List.length_cons, length]
          omega
        · exact List.forall_mem_cons.2 ⟨again.1, all⟩
        · rw [List.getLast?_cons, last]
          rfl
    · next ended =>
      obtain ⟨rfl, rfl, rfl⟩ := Dialogue.Goes.of_done rest
      simp only [Retry.goesOn, mendable, Bool.true_and, Backoff.isLast, Bool.not_eq_true', Bool.not_eq_false,
        Bool.and_eq_true, decide_eq_true_eq] at ended
      refine ⟨[e], ?_, ?_, ?_, rfl⟩
      · rw [List.append_nil]
        exact single first
      · simp only [List.length_singleton]
        omega
      · simpa using mendable

end Job

namespace Lifecycle

theorem refused_of_untilUncontested {σ α : Type} {R : Conduct Services σ} {t : Job α} {s s' : σ}
    {tr : List (Moment Services σ)} {e : Error} (h : (untilUncontested t).Goes R s tr (.error e) s')
    (conflict : e.isConflict = true) : Job.Refused R t 5 s tr e s' :=
  Job.failures_of_attempts h conflict (by decide) (by decide)

end Lifecycle

/-! ## The end of a series -/

namespace Retry

variable {ε α : Type}

/-- A series of attempts ends with attempt number `n`. -/
structure Ends (b : Backoff) (retries : ε → Bool) (jitter : Nat → Rat) (outcomes : Nat → Except ε α) (n : Nat) :
    Prop where
  /-- The operation has been called `n` times, and its last outcome is the result. -/
  calls (room : Nat) (enough : n ≤ room + 1) :
    (attempts b retries (counted outcomes) room 1).run 0 = (outcomes n, n)
  /-- There was a pause before each of the `n - 1` retries, stretched from the nominal one by its draw. -/
  pauses (room : Nat) (enough : n ≤ room) :
    run b b.exactTiming retries jitter outcomes room 1 b.exactTiming.first =
      ((List.range' 1 (n - 1)).map fun i => b.nominal i * jitter i, .outcome (outcomes n))
  /-- No pause is less than half the nominal one, and none but an empty one is as long as one and a half
  of it. -/
  spread (i : Nat) : b.nominal i * (1 / 2) ≤ b.nominal i * jitter i ∧
    (0 < b.nominal i → b.nominal i * jitter i < b.nominal i * (3 / 2))

end Retry

open Lifecycle Retry

/-- A series of attempts ends with its first final attempt, if there is one, and otherwise goes on for
ever; there is one whenever the attempts are limited. A guarded write ends with a conflict only after
five attempts in a row that met one. -/
theorem Retry.series_ends {ε α : Type} {b : Backoff} (grows : b.Grows) (retries : ε → Bool)
    {jitter : Nat → Rat} (drawn : ∀ i, Backoff.IsJitter (jitter i)) (outcomes : Nat → Except ε α) :
    (∀ n, FirstFinal b retries outcomes n → Ends b retries jitter outcomes n) ∧
    (0 < b.maxAttempts → ∃ n, n ≤ b.maxAttempts ∧ FirstFinal b retries outcomes n ∧
      (perform b retries (counted outcomes)).run 0 = (outcomes n, n)) ∧
    ((∀ i, 1 ≤ i → ¬ Final b retries outcomes i) → ∀ room,
      run b b.exactTiming retries jitter outcomes room 1 b.exactTiming.first =
        ((List.range' 1 room).map fun i => b.nominal i * jitter i, .unfinished)) ∧
    (∀ {σ : Type} {R : Conduct Services σ} {t : Tenant} {change : Status → Status} {s s' : σ}
      {tr : List (Moment Services σ)} {e : Error},
      (updateStatus t change).Goes R s tr (.error e) s' → e.isConflict = true →
        Job.Refused R (updateOnce t.metadata.spaceName t.metadata.anyName change) 5 s tr e s') ∧
    (∀ {σ : Type} {R : Conduct Services σ} {t : Tenant} {finalizer : String} {s s' : σ}
      {tr : List (Moment Services σ)} {e : Error},
      (releaseFinalizer t finalizer).Goes R s tr (.error e) s' → e.isConflict = true →
        Job.Refused R (releaseOnce t.metadata.spaceName t.metadata.anyName finalizer) 5 s tr e s') := by
  have next (i : Nat) (hi : 1 ≤ i) := Backoff.next?_nominal grows hi
  have calls {n : Nat} (first : FirstFinal b retries outcomes n) (room : Nat) (enough : n ≤ room + 1) :
      (attempts b retries (counted outcomes) room 1).run 0 = (outcomes n, n) := by
    refine attempts_eq (not_goesOn_of_final first.1.2) (by omega) first.1.1 ?_
    exact fun i hi hin => first.goesOn hi hin
  refine ⟨fun n first => ⟨calls first, fun room enough => ?_, fun i => ?_⟩, fun limited => ?_, ?_, ?_, ?_⟩
  · have start : b.exactTiming.first = b.nominal 1 := rfl
    rw [start]
    refine run_eq (not_goesOn_of_final first.1.2) next (by omega) first.1.1 ?_
    exact fun i hi hin => first.goesOn hi hin
  · have nonneg := grows.nominal_nonneg i
    obtain ⟨low, high⟩ := drawn i
    exact ⟨mul_le_mul_of_nonneg_left low nonneg, fun pos => mul_lt_mul_of_pos_left high pos⟩
  · have last : Final b retries outcomes b.maxAttempts := .inr (.inr ⟨limited, rfl⟩)
    obtain ⟨n, hn, first⟩ := exists_firstFinal ⟨limited, last⟩
    exact ⟨n, hn, first, calls first _ (by omega)⟩
  · intro never room
    refine run_unfinished next (fun i hi => goesOn_of_not_final (fun j hj _ => never j hj) hi) room
  · intro σ R t change s s' tr e h conflict
    exact refused_of_untilUncontested h conflict
  · intro σ R t finalizer s s' tr e h conflict
    exact refused_of_untilUncontested h conflict

/-- The services when someone else always writes first: the tenant is found, and nothing can be written. -/
def contested (t : Tenant) : (q : Services.Query) → Unit → Services.Answer q × Unit
  | .store (.get _ _), s => (.ok (some t), s)
  | _, s => (.error (.refused ⟨"Failure", "the object has been modified", "Conflict", 409⟩), s)

/-- Four attempts of something that is always busy: the third pause is cut off at the ceiling. Where someone
else always writes first, five attempts at a status are refused. -/
theorem Retry.series_ends_of_busy :
    let b : Backoff := { maxAttempts := 4, initialDelay := 2, maxDelay := 5 }
    let busy : Nat → Except String Unit := fun _ => .error "busy"
    b.Grows ∧ FirstFinal b (fun _ => true) busy 4 ∧
      run b b.exactTiming (fun _ => true) (fun _ => 1) busy 4 1 b.exactTiming.first =
        ([2, 4, 5], .outcome (.error "busy")) ∧
      (perform b (fun _ => true) (counted busy)).run 0 = (.error "busy", 4) ∧
      ∃ tr e, Job.Refused (fun q s r s' => (r, s') = contested default q s) (updateOnce "" "" id) 5 () tr e () := by
  intro b busy
  have grows : b.Grows := ⟨by norm_num [b], by norm_num [b], by norm_num [b]⟩
  have drawn : Backoff.IsJitter 1 := ⟨by norm_num, by norm_num⟩
  have last (i : Nat) (final : Final b (fun _ => true) busy i) : i = 4 := by
    rcases final with ⟨a, ok⟩ | ⟨e, _, other⟩ | ⟨_, rfl⟩
    · cases ok
    · cases other
    · rfl
  have first : FirstFinal b (fun _ => true) busy 4 :=
    ⟨⟨by decide, .inr (.inr ⟨by decide, rfl⟩)⟩, fun i hi => (last i hi.2).ge⟩
  obtain ⟨ends, limited, _, updates, _⟩ := series_ends grows (fun _ => true) (fun _ => drawn) busy
  refine ⟨grows, first, ?_, ?_, ?_⟩
  · rw [(ends 4 first).pauses 4 le_rfl]
    norm_num [List.range'_succ, Backoff.nominal, b, busy]
  · obtain ⟨n, _, least, performed⟩ := limited (by decide)
    rw [performed, last n least.1.2]
  · let R : Conduct Services Unit := fun q s r s' => (r, s') = contested default q s
    have given (q : Services.Query) (s : Unit) (_ : True) :
        R q (id s) (contested default q s).1 (id (contested default q s).2) ∧ True := ⟨rfl, trivial⟩
    have ran := Dialogue.goes_run given (updateStatus default id) trivial (t := ())
    obtain ⟨e, failed, conflict⟩ : ∃ e, (Dialogue.run (contested default) (updateStatus default id) ()).1 = .error e ∧
        e.isConflict = true := ⟨_, rfl, rfl⟩
    rw [failed] at ran
    exact ⟨_, e, updates ran conflict⟩

end Tenancy

import Tenancy.Proofs.Deletions

/-!
# Steps in turn

A pass is a series of steps, and none of them is begun before the one before is done. `InTurn` says that
steps were gone through in this way, up to the one with which the pass ended. A job that is made of
others, one after the other, goes in turn if they do (`InTurn.of_bind`, `InTurn.of_seq`,
`InTurn.of_forM`).
-/

namespace Tenancy.Lifecycle

variable {σ ι : Type} {went : ι → List (Moment Services σ) → StepEnd → Prop}
  {tr tr' : List (Moment Services σ)} {x : StepEnd} {i : ι} {is is' : List ι}

/-- Steps are gone through in their order, each only when the one before was done; the last one that was
gone through says how it ends. -/
inductive InTurn (went : ι → List (Moment Services σ) → StepEnd → Prop) :
    List ι → List (Moment Services σ) → StepEnd → Prop
  | all : InTurn went [] [] .done
  | next {i : ι} {is : List ι} {tr tr' : List (Moment Services σ)} {x : StepEnd}
      (first : went i tr .done) (rest : InTurn went is tr' x) : InTurn went (i :: is) (tr ++ tr') x
  | stopped {i : ι} {is : List ι} {tr : List (Moment Services σ)} {x : StepEnd} (last : went i tr x)
      (unfinished : x ≠ .done) : InTurn went (i :: is) tr x

namespace InTurn

theorem single (h : went i tr x) : InTurn went [i] tr x := by
  by_cases hx : x = .done
  · subst hx
    simpa using InTurn.next h .all
  · exact .stopped h hx

theorem append (h : InTurn went is tr .done) (h' : InTurn went is' tr' x) :
    InTurn went (is ++ is') (tr ++ tr') x := by
  generalize hy : StepEnd.done = y at h
  induction h with
  | all => exact h'
  | next first _ ih =>
    rw [List.append_assoc]
    exact .next first (ih hy)
  | stopped _ unfinished => exact absurd hy.symm unfinished

theorem early (h : InTurn went is tr x) (unfinished : x ≠ .done) (is' : List ι) :
    InTurn went (is ++ is') tr x := by
  induction h with
  | all => exact absurd rfl unfinished
  | next first _ ih => exact .next first (ih unfinished)
  | stopped last hx => exact .stopped last hx

/-- The step that a pass ended with before its end is one of those that were to be gone through. -/
theorem last (h : InTurn went is tr x) (unfinished : x ≠ .done) : ∃ i ∈ is, ∃ tr', went i tr' x := by
  induction h with
  | all => exact absurd rfl unfinished
  | next _ _ ih =>
    obtain ⟨i, hi, h⟩ := ih unfinished
    exact ⟨i, List.mem_cons_of_mem _ hi, h⟩
  | stopped last _ => exact ⟨_, List.mem_cons_self, _, last⟩

/-- A pass that ended in a way in which none of the later steps can end has not begun with them. -/
theorem not_begun (h : InTurn went (is ++ is') tr x) (unfinished : x ≠ .done)
    (none : ∀ i ∈ is', ∀ tr', ¬ went i tr' x) : InTurn went is tr x := by
  induction is generalizing tr with
  | nil =>
    obtain ⟨i, hi, tr', hw⟩ := h.last unfinished
    exact absurd hw (none i hi tr')
  | cons i is ih =>
    cases h with
    | next first rest => exact .next first (ih rest)
    | stopped last _ => exact .stopped last unfinished

theorem mono {went' : ι → List (Moment Services σ) → StepEnd → Prop}
    (hw : ∀ i tr x, went i tr x → went' i tr x) (h : InTurn went is tr x) : InTurn went' is tr x := by
  induction h with
  | all => exact .all
  | next first _ ih => exact .next (hw _ _ _ first) ih
  | stopped last unfinished => exact .stopped (hw _ _ _ last) unfinished

/-- What is so in every step is so throughout. -/
theorem forall_mem {p : Moment Services σ → Prop} (h : InTurn went is tr x)
    (hp : ∀ i ∈ is, ∀ tr x, went i tr x → ∀ m ∈ tr, p m) : ∀ m ∈ tr, p m := by
  induction h with
  | all => simp
  | next first _ ih =>
    intro m hm
    rcases List.mem_append.1 hm with hm | hm
    · exact hp _ (by simp) _ _ first m hm
    · exact ih (fun i hi => hp i (by simp [hi])) m hm
  | stopped last _ => exact hp _ (by simp) _ _ last

/-! ## Jobs that go in turn -/

section

variable {R : Conduct Services σ} {s s' : σ} {α β : Type}

/-- A job followed by another goes in turn if both do. -/
theorem of_seq {j : Job α} {f : α → Job β} {o : Except Error β}
    (first : ∀ {s tr o s'}, j.Goes R s tr o s' → InTurn went is tr (.of o))
    (rest : ∀ {a s tr o s'}, (f a).Goes R s tr o s' → InTurn went is' tr (.of o))
    (h : (j >>= f).Goes R s tr o s') : InTurn went (is ++ is') tr (.of o) := by
  rcases Job.goes_bind h with ⟨e, rfl, hj⟩ | ⟨a, s₁, tr₁, tr₂, hj, hf, rfl⟩
  · exact (first hj).early nofun _
  · exact (first hj).append (rest hf)

/-- A job followed by another goes in turn if the first is a step and the second goes in turn. -/
theorem of_bind {j : Job α} {f : α → Job β} {o : Except Error β}
    (first : ∀ {s tr o s'}, j.Goes R s tr o s' → went i tr (.of o))
    (rest : ∀ {a s tr o s'}, (f a).Goes R s tr o s' → InTurn went is tr (.of o))
    (h : (j >>= f).Goes R s tr o s') : InTurn went (i :: is) tr (.of o) :=
  of_seq (fun hj => .single (first hj)) rest h

/-- A loop goes in turn if what it repeats is a step. -/
theorem of_forM {f : β → Job Unit} {step : β → ι} {xs : List β} {o : Except Error Unit}
    (one : ∀ {x s tr o s'}, (f x).Goes R s tr o s' → went (step x) tr (.of o))
    (h : Job.Goes R (xs.forM f) s tr o s') : InTurn went (xs.map step) tr (.of o) := by
  induction xs generalizing s tr o s' with
  | nil =>
    obtain ⟨rfl, rfl, _⟩ := Job.goes_pure h
    exact .all
  | cons x xs ih => exact of_bind one ih h

end

end InTurn

end Tenancy.Lifecycle

import Tenancy.Dialogue

/-!
# How a dialogue can go

`Dialogue.run` lets a function of the state give the answers. A world in which calls fail at any time,
or which others change, is not such a function. A `Conduct` says which answers a question may get in a
state, and which states may follow; `Dialogue.Goes` is the relation between the state at the start,
all that is asked and answered, and the end.

* `Goes.of_bind`: a sequence goes by going its two parts, one after the other.
* `Asks p`: whatever the answers are, all questions have `p`. This is a property of the tree alone, so
  it holds under every conduct. `Goes.kept`: what every question with `p` leaves true stays true.
* `goes_run`: a function whose answers the conduct allows shows one way in which the dialogue can go.
* `Goes.of_interpret`: when programs find the answers, the dialogue goes question by question, and a `Leg` is
  a question with all that was asked for it.
-/

namespace Tenancy

/-- Which answers a question may get in a state, and which states may follow. -/
abbrev Conduct (I : Interface) (σ : Type) := (q : I.Query) → σ → I.Answer q → σ → Prop

/-- A question with its answer, and the state in which it was asked. -/
structure Moment (I : Interface) (σ : Type) where
  before : σ
  query : I.Query
  answer : I.Answer query

namespace Dialogue

variable {I J : Interface} {σ τ α β : Type} {R : Conduct I σ}

/-- A way in which a dialogue can go: from a state, through what is asked and answered, to its result
and the state at its end. -/
inductive Goes (R : Conduct I σ) : Dialogue I α → σ → List (Moment I σ) → α → σ → Prop
  | done {a : α} {s : σ} : Goes R (.done a) s [] a s
  | ask {q : I.Query} {next : I.Answer q → Dialogue I α} {s s' s'' : σ} {r : I.Answer q}
      {tr : List (Moment I σ)} {a : α} (answered : R q s r s') (rest : Goes R (next r) s' tr a s'') :
      Goes R (.ask q next) s (⟨s, q, r⟩ :: tr) a s''

namespace Goes

theorem of_done {a b : α} {s s' : σ} {tr : List (Moment I σ)}
    (h : Goes R (.done a : Dialogue I α) s tr b s') : tr = [] ∧ b = a ∧ s' = s := by
  cases h
  exact ⟨rfl, rfl, rfl⟩

theorem of_query {q : I.Query} {s s' : σ} {tr : List (Moment I σ)} {r : I.Answer q}
    (h : (query q).Goes R s tr r s') : tr = [⟨s, q, r⟩] := by
  cases h with
  | ask _ rest =>
    obtain ⟨rfl, rfl, _⟩ := of_done rest
    rfl

/-- Every answer is one that the conduct allows. -/
theorem allowed {d : Dialogue I α} {s s' : σ} {tr : List (Moment I σ)} {a : α} (h : d.Goes R s tr a s') :
    ∀ m ∈ tr, ∃ s₁, R m.query m.before m.answer s₁ := by
  induction h with
  | done => exact List.forall_mem_nil _
  | ask answered _ ih => exact List.forall_mem_cons.2 ⟨⟨_, answered⟩, ih⟩

/-- The state at the start is the one in which the first question is asked, if any is. -/
theorem first_or_end {d : Dialogue I α} {s s' : σ} {tr : List (Moment I σ)} {a : α}
    (h : d.Goes R s tr a s') : (∃ m ∈ tr, m.before = s) ∨ s' = s := by
  cases h with
  | done => exact .inr rfl
  | ask _ _ => exact .inl ⟨_, List.mem_cons_self, rfl⟩

/-- A sequence goes by going its first part and then, with the result of that, its second. -/
theorem of_bind {d : Dialogue I α} {f : α → Dialogue I β} {s s'' : σ} {tr : List (Moment I σ)} {b : β}
    (h : (d >>= f).Goes R s tr b s'') :
    ∃ a s' tr₁ tr₂, d.Goes R s tr₁ a s' ∧ (f a).Goes R s' tr₂ b s'' ∧ tr = tr₁ ++ tr₂ := by
  induction d generalizing s tr with
  | done a => exact ⟨a, s, [], tr, .done, h, rfl⟩
  | ask q next ih =>
    rw [ask_bind] at h
    cases h with
    | ask answered rest =>
      obtain ⟨a, s', tr₁, tr₂, h₁, h₂, rfl⟩ := ih _ rest
      exact ⟨a, s', _ :: tr₁, tr₂, .ask answered h₁, h₂, rfl⟩

/-- A sequence that may end in an error ends with one of its first part, or goes on with the result of
that. -/
theorem of_bind_except {ε : Type} {t : ExceptT ε (Dialogue I) α} {f : α → ExceptT ε (Dialogue I) β}
    {o : Except ε β} {s s' : σ} {tr : List (Moment I σ)} (h : Goes R (t >>= f).run s tr o s') :
    (∃ e, o = .error e ∧ Goes R t.run s tr (.error e) s') ∨
      ∃ a s₁ tr₁ tr₂, Goes R t.run s tr₁ (.ok a) s₁ ∧ Goes R (f a).run s₁ tr₂ o s' ∧
        tr = tr₁ ++ tr₂ := by
  obtain ⟨x, s₁, tr₁, tr₂, h₁, h₂, rfl⟩ := of_bind h
  cases x with
  | error e =>
    obtain ⟨rfl, rfl, rfl⟩ := of_done h₂
    rw [List.append_nil]
    exact .inl ⟨e, rfl, h₁⟩
  | ok a => exact .inr ⟨a, s₁, tr₁, tr₂, h₁, h₂, rfl⟩

/-- From any moment on, what is left of a dialogue goes from the state of that moment. -/
theorem from_moment {d : Dialogue I α} {s s' : σ} {tr₁ tr₂ : List (Moment I σ)} {m : Moment I σ} {a : α}
    (h : d.Goes R s (tr₁ ++ m :: tr₂) a s') : ∃ rest : Dialogue I α, rest.Goes R m.before (m :: tr₂) a s' := by
  induction tr₁ generalizing d s with
  | nil =>
    cases h with
    | ask answered rest => exact ⟨_, .ask answered rest⟩
  | cons _ tr₁ ih =>
    cases h with
    | ask _ rest => exact ih rest

/-- A dialogue goes in the same way under another conduct that allows each of its answers. -/
theorem weaken_at {R' : Conduct I σ} {P : Moment I σ → Prop}
    (h : ∀ q s r s', P ⟨s, q, r⟩ → R q s r s' → R' q s r s') {d : Dialogue I α} {s s' : σ}
    {tr : List (Moment I σ)} {a : α} (hd : d.Goes R s tr a s') (hP : ∀ m ∈ tr, P m) :
    d.Goes R' s tr a s' := by
  induction hd with
  | done => exact .done
  | ask answered _ ih =>
    obtain ⟨first, rest⟩ := List.forall_mem_cons.1 hP
    exact .ask (h _ _ _ _ first answered) (ih rest)

theorem weaken {R' : Conduct I σ} (h : ∀ q s r s', R q s r s' → R' q s r s') {d : Dialogue I α}
    {s s' : σ} {tr : List (Moment I σ)} {a : α} (hd : d.Goes R s tr a s') : d.Goes R' s tr a s' :=
  hd.weaken_at (P := fun _ => True) (fun q s r s' _ => h q s r s') fun _ _ => trivial

end Goes

/-! ## What a dialogue may ask -/

/-- Whatever the answers are, all questions have the property. -/
def Asks (p : I.Query → Prop) : Dialogue I α → Prop
  | .done _ => True
  | .ask q next => p q ∧ ∀ r, (next r).Asks p

variable {p p' : I.Query → Prop}

theorem Asks.bind {d : Dialogue I α} {f : α → Dialogue I β} (h : d.Asks p) (g : ∀ a, (f a).Asks p) :
    (d >>= f).Asks p := by
  induction d with
  | done a => exact g a
  | ask q next ih => exact ⟨h.1, fun r => ih r (h.2 r)⟩

theorem Asks.bind_except {ε : Type} {t : ExceptT ε (Dialogue I) α} {f : α → ExceptT ε (Dialogue I) β}
    (h : t.run.Asks p) (g : ∀ a, (f a).run.Asks p) : (t >>= f).run.Asks p := by
  refine Asks.bind h fun x => ?_
  cases x with
  | error e => trivial
  | ok a => exact g a

theorem asks_any (d : Dialogue I α) : d.Asks fun _ => True := by
  induction d with
  | done a => trivial
  | ask q next ih => exact ⟨trivial, ih⟩

theorem Asks.mono {d : Dialogue I α} (hp : ∀ q, p q → p' q) (h : d.Asks p) : d.Asks p' := by
  induction d with
  | done a => trivial
  | ask q next ih => exact ⟨hp q h.1, fun r => ih r (h.2 r)⟩

namespace Goes

theorem asks {d : Dialogue I α} {s s' : σ} {tr : List (Moment I σ)} {a : α} (h : d.Goes R s tr a s')
    (hd : d.Asks p) : ∀ m ∈ tr, p m.query := by
  induction h with
  | done => simp
  | ask _ _ ih =>
    intro m hm
    rcases List.mem_cons.1 hm with rfl | hm
    · exact hd.1
    · exact ih (hd.2 _) m hm

/-- What each question that a dialogue may ask leaves true, the whole dialogue leaves true. -/
theorem kept {d : Dialogue I α} {s s' : σ} {tr : List (Moment I σ)} {a : α} (h : d.Goes R s tr a s')
    (hd : d.Asks p) {P : σ → Prop} (step : ∀ q s r s', p q → R q s r s' → P s → P s')
    (hs : P s) : P s' := by
  induction h with
  | done => exact hs
  | ask answered _ ih => exact ih (hd.2 _) (step _ _ _ _ hd.1 answered hs)

/-- What each question that a dialogue may ask leaves true is true whenever one is asked. -/
theorem kept_at {d : Dialogue I α} {s s' : σ} {tr : List (Moment I σ)} {a : α} (h : d.Goes R s tr a s')
    (hd : d.Asks p) {P : σ → Prop} (step : ∀ q s r s', p q → R q s r s' → P s → P s')
    (hs : P s) : ∀ m ∈ tr, P m.before := by
  induction h with
  | done => simp
  | ask answered _ ih =>
    intro m hm
    rcases List.mem_cons.1 hm with rfl | hm
    · exact hs
    · exact ih (hd.2 _) (step _ _ _ _ hd.1 answered hs) m hm

end Goes

/-! ## Answers that programs find -/

/-- A question with its answer, and all that was asked and answered to find the answer. -/
structure Leg (I J : Interface) (σ : Type) where
  moment : Moment I σ
  inner : List (Moment J σ)

/-- The answers that programs over other questions find. -/
def answered (R : Conduct J σ) (answer : (q : I.Query) → Dialogue J (I.Answer q)) : Conduct I σ :=
  fun q s r s' => ∃ tr, (answer q).Goes R s tr r s'

/-- A dialogue whose answers programs find goes question by question. -/
theorem Goes.of_interpret {R : Conduct J σ} {answer : (q : I.Query) → Dialogue J (I.Answer q)}
    {d : Dialogue I α} {s s' : σ} {tr : List (Moment J σ)} {a : α} (h : (d.interpret answer).Goes R s tr a s') :
    ∃ legs : List (Leg I J σ), d.Goes (answered R answer) s (legs.map Leg.moment) a s' ∧
      tr = legs.flatMap Leg.inner ∧
      ∀ leg ∈ legs, ∃ s₁, (answer leg.moment.query).Goes R leg.moment.before leg.inner leg.moment.answer s₁ := by
  induction d generalizing s tr with
  | done b =>
    obtain ⟨rfl, rfl, rfl⟩ := of_done h
    exact ⟨[], .done, rfl, List.forall_mem_nil _⟩
  | ask q next ih =>
    obtain ⟨r, s₁, tr₁, tr₂, first, rest, rfl⟩ := of_bind h
    obtain ⟨legs, goes, rfl, all⟩ := ih r rest
    exact ⟨⟨⟨s, q, r⟩, tr₁⟩ :: legs, .ask ⟨tr₁, first⟩ goes, rfl, List.forall_mem_cons.2 ⟨⟨s₁, first⟩, all⟩⟩

/-! ## Runs as ways to go -/

/-- All that is asked and answered when a function gives the answers; `view` is what is looked at of
its states. -/
def story (answer : (q : I.Query) → τ → I.Answer q × τ) (view : τ → σ) (d : Dialogue I α) (t : τ) :
    List (Moment I σ) :=
  match d with
  | .done _ => []
  | .ask q next => ⟨view t, q, (answer q t).1⟩ :: (next (answer q t).1).story answer view (answer q t).2

theorem run_kept {answer : (q : I.Query) → τ → I.Answer q × τ} {P : τ → Prop}
    (step : ∀ q t, P t → P (answer q t).2) (d : Dialogue I α) {t : τ} (ht : P t) :
    P (d.run answer t).2 := by
  induction d generalizing t with
  | done a => exact ht
  | ask q next ih => exact ih _ (step q t ht)

/-- A function whose answers the conduct allows shows one way in which a dialogue can go. -/
theorem goes_run {answer : (q : I.Query) → τ → I.Answer q × τ} {view : τ → σ} {P : τ → Prop}
    (allowed : ∀ q t, P t → R q (view t) (answer q t).1 (view (answer q t).2) ∧ P (answer q t).2)
    (d : Dialogue I α) {t : τ} (ht : P t) :
    d.Goes R (view t) (d.story answer view t) (d.run answer t).1 (view (d.run answer t).2) := by
  induction d generalizing t with
  | done a => exact .done
  | ask q next ih => exact .ask (allowed q t ht).1 (ih _ (allowed q t ht).2)

end Dialogue

end Tenancy

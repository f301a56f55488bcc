import Tenancy.Call
import Tenancy.Proofs.Conduct
import Tenancy.Retry

/-!
# How a job can go

A job is a dialogue whose result may be an error, so each way of building a job has a lemma that says
how the whole can go in terms of how its parts can. The error of a part ends a sequence
(`goes_bind`), an outcome that is looked at does not (`goes_outcome`). `Job.Asks` is carried through
the same ways of building.
-/

namespace Tenancy

/-! ## Errors of parts -/

namespace Error

/-- The error that something came to, if it did. -/
def of? {α : Type} : Except Error α → Option Error
  | .ok _ => none
  | .error e => some e

@[simp] theorem of?_map {α β : Type} (f : α → β) (x : Except Error α) : of? (f <$> x) = of? x := by
  cases x <;> rfl

@[simp] theorem of?_discard {α : Type} (x : Except Error α) : of? (discard x) = of? x := by
  cases x <;> rfl

end Error

namespace Moment

variable {σ : Type}

def call (m : Moment Services σ) : Call := m.query

/-- The error that a call was answered with, if it was. -/
def failure? (m : Moment Services σ) : Option Error := Error.of? m.answer

end Moment

namespace Job

variable {σ α β : Type} {R : Conduct Services σ} {s s' : σ} {tr : List (Moment Services σ)}

/-- A way in which a job can go: its outcome is a result or an error. -/
def Goes (R : Conduct Services σ) (t : Job α) (s : σ) (tr : List (Moment Services σ))
    (o : Except Error α) (s' : σ) : Prop :=
  Dialogue.Goes R t.run s tr o s'

/-- All calls of a job have the property, whatever the answers are. -/
def Asks (p : Call → Prop) (t : Job α) : Prop := Dialogue.Asks (I := Services) p t.run

/-! ## Going -/

theorem goes_pure {a : α} {o : Except Error α} (h : Goes R (pure a) s tr o s') :
    tr = [] ∧ o = .ok a ∧ s' = s := Dialogue.Goes.of_done h

theorem goes_throw {e : Error} {o : Except Error α} (h : Goes R (throw e) s tr o s') :
    tr = [] ∧ o = .error e ∧ s' = s := Dialogue.Goes.of_done h

theorem goes_liftExcept {x o : Except Error α} (h : Goes R (liftExcept x) s tr o s') :
    tr = [] ∧ o = x ∧ s' = s := by
  cases x <;> exact Dialogue.Goes.of_done h

theorem goes_call {c : Call} {o : Except Error c.Reply} (h : Goes R (call c) s tr o s') :
    R c s o s' ∧ tr = [⟨s, c, o⟩] := by
  cases h with
  | ask answered rest =>
    obtain ⟨rfl, rfl, rfl⟩ := Dialogue.Goes.of_done rest
    exact ⟨answered, rfl⟩

/-- A sequence ends with an error of its first part, or goes on with the result of that. -/
theorem goes_bind {t : Job α} {f : α → Job β} {o : Except Error β} (h : Goes R (t >>= f) s tr o s') :
    (∃ e, o = .error e ∧ t.Goes R s tr (.error e) s') ∨
      ∃ a s₁ tr₁ tr₂, t.Goes R s tr₁ (.ok a) s₁ ∧ (f a).Goes R s₁ tr₂ o s' ∧ tr = tr₁ ++ tr₂ :=
  Dialogue.Goes.of_bind_except h

/-- A sequence that ends with a result has gone through both parts. -/
theorem goes_bind_ok {t : Job α} {f : α → Job β} {b : β} (h : Goes R (t >>= f) s tr (.ok b) s') :
    ∃ a s₁ tr₁ tr₂, t.Goes R s tr₁ (.ok a) s₁ ∧ (f a).Goes R s₁ tr₂ (.ok b) s' ∧ tr = tr₁ ++ tr₂ := by
  rcases goes_bind h with ⟨e, he, _⟩ | h
  · cases he
  · exact h

theorem goes_map {t : Job α} {f : α → β} {o : Except Error β} (h : Goes R (f <$> t) s tr o s') :
    ∃ o', t.Goes R s tr o' s' ∧ o = f <$> o' := by
  obtain ⟨x, s₁, tr₁, tr₂, h₁, h₂, rfl⟩ := Dialogue.Goes.of_bind h
  rw [show tr₂ = [] by cases x <;> exact (Dialogue.Goes.of_done h₂).1, List.append_nil]
  cases x <;> obtain ⟨-, rfl, rfl⟩ := Dialogue.Goes.of_done h₂ <;> exact ⟨_, h₁, rfl⟩

theorem goes_discard {t : Job α} {o : Except Error Unit} (h : Goes R (discard t) s tr o s') :
    ∃ o', t.Goes R s tr o' s' ∧ o = discard o' := goes_map h

theorem goes_discard_ok {t : Job α} (h : Goes R (discard t) s tr (.ok ()) s') :
    ∃ a, t.Goes R s tr (.ok a) s' := by
  obtain ⟨o, ht, ho⟩ := goes_discard h
  cases o with
  | error e => cases ho
  | ok a => exact ⟨a, ht⟩

theorem goes_outcome {t : Job α} {o : Except Error (Except Error α)}
    (h : Goes R t.outcome s tr o s') : ∃ o', o = .ok o' ∧ t.Goes R s tr o' s' := by
  obtain ⟨x, s₁, tr₁, tr₂, h₁, h₂, rfl⟩ := Dialogue.Goes.of_bind h
  obtain ⟨rfl, rfl, rfl⟩ := Dialogue.Goes.of_done h₂
  rw [List.append_nil]
  exact ⟨x, rfl, h₁⟩

theorem goes_mapError {f : Error → Error} {t : Job α} {o : Except Error α}
    (h : Goes R (t.mapError f) s tr o s') : ∃ o', t.Goes R s tr o' s' ∧ o = Except.mapError f o' := by
  obtain ⟨x, s₁, tr₁, tr₂, h₁, h₂, rfl⟩ := Dialogue.Goes.of_bind h
  obtain ⟨rfl, rfl, rfl⟩ := Dialogue.Goes.of_done h₂
  rw [List.append_nil]
  exact ⟨x, h₁, rfl⟩

theorem goes_mapError_ok {f : Error → Error} {t : Job α} {a : α}
    (h : Goes R (t.mapError f) s tr (.ok a) s') : t.Goes R s tr (.ok a) s' := by
  obtain ⟨o', ht, ho⟩ := goes_mapError h
  cases o' with
  | error e => cases ho
  | ok b =>
    cases ho
    exact ht

/-- What comes after an outcome that is looked at goes on with it, be it a result or an error. -/
theorem goes_bind_outcome {t : Job α} {f : Except Error α → Job β} {o : Except Error β}
    (h : Goes R (t.outcome >>= f) s tr o s') :
    ∃ x s₁ tr₁ tr₂, t.Goes R s tr₁ x s₁ ∧ (f x).Goes R s₁ tr₂ o s' ∧ tr = tr₁ ++ tr₂ := by
  rcases goes_bind h with ⟨e, rfl, h₁⟩ | ⟨x, s₁, tr₁, tr₂, h₁, h₂, rfl⟩
  · obtain ⟨o', ho, _⟩ := goes_outcome h₁
    cases ho
  · obtain ⟨o', ho, ht⟩ := goes_outcome h₁
    cases ho
    exact ⟨x, s₁, tr₁, tr₂, ht, h₂, rfl⟩

/-- A job that reads the outcome of another as a result or an error goes as that one does. -/
theorem goes_reading {t : Job α} {f : Except Error α → Except Error β} {o : Except Error β}
    (h : Goes R (t.outcome >>= fun x => liftExcept (f x)) s tr o s') :
    ∃ x, t.Goes R s tr x s' ∧ o = f x := by
  obtain ⟨x, s₁, tr₁, tr₂, ht, h₂, rfl⟩ := goes_bind_outcome h
  obtain ⟨rfl, rfl, rfl⟩ := goes_liftExcept h₂
  rw [List.append_nil]
  exact ⟨x, ht, rfl⟩

/-- Wherever a job ends, it leaves true what was true. -/
def Keeps (R : Conduct Services σ) (P : σ → Prop) (t : Job α) : Prop :=
  ∀ {s tr o s'}, t.Goes R s tr o s' → P s → P s'

theorem keeps_pure {P : σ → Prop} {a : α} : Keeps R P (pure a) := by
  intro s tr o s' h hs
  obtain ⟨_, _, rfl⟩ := goes_pure h
  exact hs

theorem keeps_bind {P : σ → Prop} {t : Job α} {f : α → Job β} (h : Keeps R P t)
    (h' : ∀ a, Keeps R P (f a)) : Keeps R P (t >>= f) := by
  intro s tr o s' hg hs
  rcases goes_bind hg with ⟨_, _, ht⟩ | ⟨a, s₁, tr₁, tr₂, ht, hf, _⟩
  · exact h ht hs
  · exact h' a hf (h ht hs)

theorem goes_forM_nil {f : β → Job Unit} {o : Except Error Unit} (h : Goes R ([].forM f) s tr o s') :
    tr = [] ∧ o = .ok () ∧ s' = s := goes_pure h

theorem goes_forM_cons_ok {f : β → Job Unit} {x : β} {xs : List β}
    (h : Goes R ((x :: xs).forM f) s tr (.ok ()) s') :
    ∃ s₁ tr₁ tr₂, (f x).Goes R s tr₁ (.ok ()) s₁ ∧ Goes R (xs.forM f) s₁ tr₂ (.ok ()) s' ∧
      tr = tr₁ ++ tr₂ := by
  obtain ⟨_, s₁, tr₁, tr₂, first, rest, rfl⟩ := goes_bind_ok (f := fun _ => xs.forM f) h
  exact ⟨s₁, tr₁, tr₂, first, rest, rfl⟩

/-- What each part of a loop comes to when it succeeds, the loop comes to part after part; `P` is told
which parts are done. -/
theorem goes_forM_ok {f : β → Job Unit} {P : List β → σ → Prop} {xs : List β}
    (step : ∀ {x done s tr s'}, (f x).Goes R s tr (.ok ()) s' → P done s → P (done ++ [x]) s')
    (hs : P [] s) (h : Goes R (xs.forM f) s tr (.ok ()) s') : P xs s' := by
  have rest (todo done : List β) (s : σ) (tr : List (Moment Services σ)) (hs : P done s)
      (h : Goes R (todo.forM f) s tr (.ok ()) s') : P (done ++ todo) s' := by
    induction todo generalizing done s tr with
    | nil =>
      obtain ⟨_, _, rfl⟩ := goes_forM_nil h
      rw [List.append_nil]
      exact hs
    | cons x todo ih =>
      obtain ⟨s₁, tr₁, tr₂, h₁, h₂, rfl⟩ := goes_forM_cons_ok h
      rw [List.append_cons]
      exact ih _ _ _ (step h₁ hs) h₂
  exact rest xs [] s tr hs h

/-- A loop over two lists that succeeds has gone over the one and then over the other. -/
theorem goes_forM_append_ok {f : β → Job Unit} {xs ys : List β}
    (h : Goes R ((xs ++ ys).forM f) s tr (.ok ()) s') :
    ∃ s₁ tr₁ tr₂, Goes R (xs.forM f) s tr₁ (.ok ()) s₁ ∧ Goes R (ys.forM f) s₁ tr₂ (.ok ()) s' ∧
      tr = tr₁ ++ tr₂ := by
  have split : (xs ++ ys).forM f = (xs.forM f >>= fun _ => ys.forM f) := List.forM_append
  rw [split] at h
  obtain ⟨_, s₁, tr₁, tr₂, first, rest, rfl⟩ := goes_bind_ok h
  exact ⟨s₁, tr₁, tr₂, first, rest, rfl⟩

/-- What every failed attempt leaves behind is there when the last attempt begins. -/
theorem goes_attempts {b : Backoff} {retries : Error → Bool} {t : Job α}
    {L : σ → List (Moment Services σ) → σ → Prop} (none_left : ∀ s, L s [] s)
    (left_append : ∀ {s tr s₁ tr₁ s₂}, L s tr s₁ → L s₁ tr₁ s₂ → L s (tr ++ tr₁) s₂)
    (failed : ∀ {s tr e s'}, t.Goes R s tr (.error e) s' → L s tr s') {room n : Nat}
    {o : Except Error α}
    (h : Dialogue.Goes R (Retry.attempts b retries t.run room n) s tr o s') :
    ∃ s₁ tr₁ tr₂, L s tr₁ s₁ ∧ t.Goes R s₁ tr₂ o s' ∧ tr = tr₁ ++ tr₂ := by
  -- the attempt that is looked at is the last one, or the rest are attempts after it
  induction room generalizing s tr n with
  | zero => exact ⟨s, [], tr, none_left s, h, rfl⟩
  | succ room ih =>
    obtain ⟨x, s₁, tr₁, tr₂, h₁, h₂, rfl⟩ := Dialogue.Goes.of_bind h
    split at h₂
    · next hx =>
      cases x with
      | ok a => simp [Retry.goesOn] at hx
      | error e =>
        obtain ⟨s₂, tr₃, tr₄, hl, hg, rfl⟩ := ih h₂
        exact ⟨s₂, tr₁ ++ tr₃, tr₄, left_append (failed h₁) hl, hg, by simp⟩
    · obtain ⟨rfl, rfl, rfl⟩ := Dialogue.Goes.of_done h₂
      exact ⟨s, [], tr₁, none_left s, h₁, by simp⟩

/-! ## Triples -/

/-- Whatever way a job goes from a state with `I`, every moment has `P`, its result has `Q`, and it ends in a
state with `I'`. -/
def Triple (R : Conduct Services σ) (I : σ → Prop) (P : Moment Services σ → Prop) (t : Job α)
    (Q : α → Prop) (I' : σ → Prop) : Prop :=
  ∀ ⦃s tr o s'⦄, I s → t.Goes R s tr o s' → (∀ m ∈ tr, P m) ∧ (∀ a, o = .ok a → Q a) ∧ I' s'

section

variable {I I' I'' : σ → Prop} {P : Moment Services σ → Prop} {Q : α → Prop} {Q' : β → Prop}

theorem triple_of_done {t : Job α} {x : Except Error α} (done : t.run = .done x) (hx : ∀ a, x = .ok a → Q a)
    (hI : ∀ s, I s → I' s) : Triple R I P t Q I' := by
  intro s tr o s' hs h
  unfold Goes at h
  rw [done] at h
  obtain ⟨rfl, rfl, rfl⟩ := Dialogue.Goes.of_done h
  exact ⟨List.forall_mem_nil P, hx, hI _ hs⟩

theorem triple_pure {a : α} (ha : Q a) (hI : ∀ s, I s → I' s) : Triple R I P (pure a) Q I' :=
  triple_of_done rfl (fun b hb => by cases hb; exact ha) hI

theorem triple_throw {e : Error} (hI : ∀ s, I s → I' s) : Triple R I P (throw e : Job α) Q I' :=
  triple_of_done rfl (fun b hb => by cases hb) hI

theorem triple_call {c : Call} {Q : c.Reply → Prop}
    (h : ∀ s r s', I s → R c s r s' → P ⟨s, c, r⟩ ∧ (∀ a, r = .ok a → Q a) ∧ I' s') :
    Triple R I P (call c) Q I' := by
  intro s tr o s' hs hg
  obtain ⟨answered, rfl⟩ := goes_call hg
  obtain ⟨hP, hQ, hI⟩ := h s o s' hs answered
  exact ⟨fun m hm => by rw [List.mem_singleton.1 hm]; exact hP, hQ, hI⟩

theorem triple_bind {t : Job α} {f : α → Job β} (h : Triple R I P t Q I')
    (h' : ∀ a, Q a → Triple R I' P (f a) Q' I'') (failed : ∀ s, I' s → I'' s) :
    Triple R I P (t >>= f) Q' I'' := by
  intro s tr o s' hs hg
  rcases goes_bind hg with ⟨e, rfl, ht⟩ | ⟨a, s₁, tr₁, tr₂, ht, hf, rfl⟩
  · obtain ⟨hP, _, hI⟩ := h hs ht
    exact ⟨hP, fun a ha => (by cases ha), failed _ hI⟩
  · obtain ⟨hP, hQ, hI⟩ := h hs ht
    obtain ⟨hP', hQ', hI'⟩ := h' a (hQ a rfl) hI hf
    exact ⟨List.forall_mem_append.2 ⟨hP, hP'⟩, hQ', hI'⟩

theorem triple_discard {t : Job α} (h : Triple R I P t Q I') : Triple R I P (discard t) (fun _ => True) I' := by
  intro s tr o s' hs hg
  obtain ⟨o', ht, _⟩ := goes_discard hg
  obtain ⟨hP, _, hI⟩ := h hs ht
  exact ⟨hP, fun _ _ => trivial, hI⟩

theorem triple_outcome {t : Job α} (h : Triple R I P t Q I') : Triple R I P t.outcome (fun _ => True) I' := by
  intro s tr o s' hs hg
  obtain ⟨o', _, ht⟩ := goes_outcome hg
  obtain ⟨hP, _, hI⟩ := h hs ht
  exact ⟨hP, fun _ _ => trivial, hI⟩

theorem triple_of_asks {p : Call → Prop} {t : Job α} (asks : t.Asks p) (made : ∀ m, p m.query → P m)
    (kept : ∀ c s r s', p c → R c s r s' → I s → I s') : Triple R I P t (fun _ => True) I := by
  intro s tr o s' hs hg
  exact ⟨fun m hm => made m (Dialogue.Goes.asks hg asks m hm), fun _ _ => trivial,
    Dialogue.Goes.kept hg asks kept hs⟩

theorem triple_attempts {b : Backoff} {retries : Error → Bool} {t : Job α} (h : Triple R I P t Q I)
    (room n : Nat) : Triple R I P (ExceptT.mk (Retry.attempts b retries t.run room n)) Q I := by
  intro s tr o s' hs hg
  obtain ⟨s₁, tr₁, tr₂, left, last, rfl⟩ := goes_attempts
    (L := fun s tr s₁ => I s → (∀ m ∈ tr, P m) ∧ I s₁) (fun s hs => ⟨List.forall_mem_nil P, hs⟩)
    (fun l l' hs => ⟨List.forall_mem_append.2 ⟨(l hs).1, (l' (l hs).2).1⟩, (l' (l hs).2).2⟩)
    (fun ht hs => ⟨(h hs ht).1, (h hs ht).2.2⟩) hg
  obtain ⟨hP, hs₁⟩ := left hs
  obtain ⟨hP', hQ, hI⟩ := h hs₁ last
  exact ⟨List.forall_mem_append.2 ⟨hP, hP'⟩, hQ, hI⟩

end

/-! ## Along the way -/

/-- Whatever way a job goes from a state with `I`, all states on the way have `C`: those in which it makes a
call, and the one in which it ends. If it succeeds, that one has `I'`. -/
def Along (R : Conduct Services σ) (I C : σ → Prop) (t : Job α) (I' : σ → Prop) : Prop :=
  ∀ ⦃s tr o s'⦄, I s → t.Goes R s tr o s' → (∀ m ∈ tr, C m.before) ∧ C s' ∧ ∀ a, o = .ok a → I' s'

section

variable {I I' I'' C : σ → Prop}

theorem along_of_asks {p : Call → Prop} {t : Job α} (asks : t.Asks p)
    (step : ∀ c s r s', p c → R c s r s' → I s → I s') (all : ∀ s, I s → C s) : Along R I C t I := by
  intro s tr o s' hs h
  have last : I s' := Dialogue.Goes.kept h asks step hs
  exact ⟨fun m hm => all _ (Dialogue.Goes.kept_at h asks step hs m hm), all _ last, fun _ _ => last⟩

/-- What is known of a success may be put in place of what is known all along. -/
theorem along_ok {t : Job α} (h : Along R I C t I')
    (ok : ∀ {s tr a s'}, I s → t.Goes R s tr (.ok a) s' → I' s' → I'' s') : Along R I C t I'' := by
  intro s tr o s' hs hg
  obtain ⟨along, last, done⟩ := h hs hg
  refine ⟨along, last, fun a ha => ?_⟩
  subst ha
  exact ok hs hg (done a rfl)

theorem along_bind {t : Job α} {f : α → Job β} (h : Along R I C t I')
    (h' : ∀ a, Along R I' C (f a) I'') : Along R I C (t >>= f) I'' := by
  intro s tr o s' hs hg
  rcases goes_bind hg with ⟨e, rfl, ht⟩ | ⟨a, s₁, tr₁, tr₂, ht, hf, rfl⟩
  · obtain ⟨along, last, _⟩ := h hs ht
    exact ⟨along, last, fun b hb => by cases hb⟩
  · obtain ⟨along, _, done⟩ := h hs ht
    obtain ⟨along', last, done'⟩ := h' a (done a rfl) hf
    exact ⟨List.forall_mem_append.2 ⟨along, along'⟩, last, done'⟩

/-- A loop goes on from part to part; `I` is told which parts are done. -/
theorem along_forM {f : β → Job Unit} {I : List β → σ → Prop} {xs : List β} (all : ∀ s, I xs s → C s)
    (step : ∀ done x rest, xs = done ++ x :: rest → Along R (I done) C (f x) (I (done ++ [x]))) :
    Along R (I []) C (xs.forM f) (I xs) := by
  have rest (done todo : List β) (split : xs = done ++ todo) : Along R (I done) C (todo.forM f) (I xs) := by
    induction todo generalizing done with
    | nil =>
      obtain rfl : xs = done := by simpa using split
      intro s tr o s' hs hg
      obtain ⟨rfl, rfl, rfl⟩ := goes_forM_nil hg
      exact ⟨List.forall_mem_nil _, all _ hs, fun _ _ => hs⟩
    | cons x todo ih =>
      exact along_bind (step done x todo split) fun _ => ih (done ++ [x]) (by simp [split])
  exact rest [] xs rfl

end

/-! ## Asking -/

variable {p : Call → Prop}

theorem asks_pure {a : α} : Asks p (pure a) := trivial

theorem asks_throw {e : Error} : Asks p (throw e : Job α) := trivial

theorem asks_liftExcept {x : Except Error α} : Asks p (liftExcept x : Job α) := by
  cases x <;> trivial

theorem asks_call {c : Call} (h : p c) : Asks p (call c) := ⟨h, fun _ => trivial⟩

theorem asks_bind {t : Job α} {f : α → Job β} (h : t.Asks p) (g : ∀ a, (f a).Asks p) :
    Asks p (t >>= f) := Dialogue.Asks.bind_except h g

theorem asks_map {t : Job α} {f : α → β} (h : t.Asks p) : Asks p (f <$> t) := by
  refine Dialogue.Asks.bind h fun x => ?_
  cases x <;> trivial

theorem asks_discard {t : Job α} (h : t.Asks p) : Asks p (discard t) := asks_map h

theorem asks_outcome {t : Job α} (h : t.Asks p) : Asks p t.outcome :=
  Dialogue.Asks.bind h fun _ => trivial

theorem asks_mapError {t : Job α} {f : Error → Error} (h : t.Asks p) : Asks p (t.mapError f) :=
  Dialogue.Asks.bind h fun _ => trivial

theorem asks_within {t : Job α} {what : String} (h : t.Asks p) : Asks p (t.within what) :=
  asks_mapError h

theorem asks_forM {xs : List β} {f : β → Job Unit} (h : ∀ x ∈ xs, (f x).Asks p) :
    Asks p (xs.forM f) := by
  induction xs with
  | nil => exact asks_pure
  | cons x xs ih =>
    show Asks p (f x >>= fun _ => xs.forM f)
    exact asks_bind (h x (by simp)) fun _ => ih fun y hy => h y (by simp [hy])

theorem asks_attempts {b : Backoff} {retries : Error → Bool} {t : Job α} (h : t.Asks p)
    (room n : Nat) : Dialogue.Asks (I := Services) p (Retry.attempts b retries t.run room n) := by
  induction room generalizing n with
  | zero => exact h
  | succ room ih =>
    refine Dialogue.Asks.bind h fun x => ?_
    split
    · exact ih (n + 1)
    · trivial

theorem Asks.mono {p' : Call → Prop} {t : Job α} (h : t.Asks p) (hp : ∀ c, p c → p' c) :
    t.Asks p' := Dialogue.Asks.mono hp h

end Job

end Tenancy

import Tenancy.Proofs.Systems

/-!
# Worlds in which nothing happens by itself

What a pass makes of a world that only the operator changes can be compared with what another one makes of
it. Here every system does what it does in the world in memory, or a call fails and has no effect
(`World.steady`). `World.after` is what a job comes to when no call fails.

The store is the one system that every pass writes to. `World.backends` is the rest of a world, and a job
that makes no call to the store goes in the rest as it goes in the whole (`goes_backends`).
-/

namespace Tenancy

namespace Rehearsal.World

/-- A call is answered as in the world in memory, or it fails as `fails` allows and has no effect. Nothing
else ever changes. -/
def steady (fails : Call → Error → Prop) : Conduct Services World := fun (c : Call) w r w' =>
  (r, w') = w.answer c ∨ ∃ e, fails c e ∧ r = .error e ∧ w' = w

/-- The answer to a call that does not fail. -/
def answering (c : Services.Query) (w : World) : Services.Answer c × World := answer w c

/-- What a job comes to when no call fails. -/
def after {α : Type} (w : World) (j : Job α) : Except Error α × World := Dialogue.run answering j.run w

/-- The world but for the tenant. -/
def backends (w : World) : World := { w with tenant := none }

variable {α β : Type} {fails fails' : Call → Error → Prop} {kept : BackingSystem → Prop} {w w' : World}
  {tr : List (Moment Services World)}

/-! ## Steady worlds -/

theorem conduct_of_steady {c : Call} {r : Except Error c.Reply} (h : steady fails c w r w') :
    conduct kept fails c w r w' := by
  refine ⟨w, fun s _ => .refl s w, ?_⟩
  by_cases hk : kept c.system
  · exact .inl ⟨hk, h⟩
  · refine .inr ⟨hk, fun s hs => ?_⟩
    rcases h with h | ⟨_, _, _, rfl⟩
    · have hne : s ≠ c.system := fun e => hk (e ▸ hs)
      have hw' : w' = (w.answer c).2 := congrArg Prod.snd h
      exact hw' ▸ answer_same w c hne
    · exact .refl s w'

theorem steady_mono {c : Call} {r : Except Error c.Reply} (hf : ∀ c e, fails c e → fails' c e)
    (h : steady fails c w r w') : steady fails' c w r w' :=
  h.imp_right fun ⟨e, failed, same⟩ => ⟨e, hf c e failed, same⟩

theorem conduct_of_goes {j : Job α} {o : Except Error α} (h : j.Goes (steady fails) w tr o w') :
    j.Goes (conduct (fun _ => True) fails) w tr o w' :=
  Dialogue.Goes.weaken (fun _ _ _ _ => conduct_of_steady) h

/-- That no call fails is one way in which a job can go. -/
theorem goes_after (w : World) (j : Job α) :
    ∃ tr, j.Goes (steady fails) w tr (w.after j).1 (w.after j).2 := by
  unfold after Job.Goes
  generalize j.run = d
  induction d generalizing w with
  | done a => exact ⟨[], .done⟩
  | ask c next ih =>
    obtain ⟨tr, rest⟩ := ih (answering c w).1 (answering c w).2
    exact ⟨_, .ask (.inl rfl) rest⟩

theorem steady_of_after {j : Job α} {o : Except Error α} (h : w.after j = (o, w')) :
    ∃ tr, j.Goes (steady fun _ _ => False) w tr o w' := by
  obtain ⟨tr, hg⟩ := goes_after w j
  rw [h] at hg
  exact ⟨tr, hg⟩

/-- If no call can fail, a job goes in one way only. -/
theorem after_of_steady {j : Job α} {o : Except Error α} (h : j.Goes (steady fun _ _ => False) w tr o w') :
    w.after j = (o, w') := by
  unfold Job.Goes at h
  unfold after
  generalize j.run = d at h
  induction h with
  | done => rfl
  | @ask q next s s' _ r _ _ answered _ ih =>
    rcases answered with answered | ⟨_, failed, _⟩
    · show Dialogue.run answering (next (answering q s).1) (answering q s).2 = _
      rw [show answering q s = (r, s') from answered.symm]
      exact ih
    · cases failed

theorem goes_of_after {j : Job α} {o : Except Error α} (h : w.after j = (o, w')) :
    ∃ tr, j.Goes (conduct (fun _ => True) Call.FailsPlainly) w tr o w' := by
  obtain ⟨tr, hg⟩ := goes_after w j
  rw [h] at hg
  exact ⟨tr, conduct_of_goes hg⟩

/-- What a job leaves true wherever it ends is true when no call fails. -/
theorem keeps_after {j : Job α} {P : World → Prop} (keeps : j.Keeps (steady fun _ _ => False) P)
    {o : Except Error α} (h : w.after j = (o, w')) (hw : P w) : P w' := by
  obtain ⟨_, hg⟩ := steady_of_after h
  exact keeps hg hw

/-- A job that begins with a look ends there if the look fails, and goes on with what is seen. -/
theorem goes_look {c : Call} {a : c.Reply} {f : c.Reply → Job β} {o : Except Error β}
    (seen : w.answer c = (.ok a, w)) (h : (Job.call c >>= f).Goes (steady fails) w tr o w') :
    (w' = w ∧ ∃ e, o = .error e) ∨ ∃ tr', (f a).Goes (steady fails) w tr' o w' := by
  rcases Job.goes_bind h with ⟨e, rfl, hc⟩ | ⟨a', w₁, tr₁, tr₂, hc, hrest, _⟩
  · rcases (Job.goes_call hc).1 with hr | ⟨_, _, _, rfl⟩
    · cases hr.trans seen
    · exact .inl ⟨rfl, e, rfl⟩
  · rcases (Job.goes_call hc).1 with hr | ⟨_, _, he, _⟩
    · obtain ⟨ha, rfl⟩ := Prod.mk.inj (hr.trans seen)
      obtain rfl := Except.ok.inj ha
      exact .inr ⟨tr₂, hrest⟩
    · cases he

/-! ## Jobs in which no call fails -/

theorem after_liftExcept (x : Except Error α) : w.after (liftExcept x : Job α) = (x, w) := by
  cases x <;> rfl

theorem after_bind_ok {t : Job α} {f : α → Job β} {a : α} (h : w.after t = (.ok a, w')) :
    w.after (t >>= f) = w'.after (f a) := by
  unfold after at h
  refine (Dialogue.run_bind answering t.run _ w).trans ?_
  rw [h]
  rfl

theorem after_bind_error {t : Job α} {f : α → Job β} {e : Error} (h : w.after t = (.error e, w')) :
    w.after (t >>= f) = (.error e, w') := by
  unfold after at h
  refine (Dialogue.run_bind answering t.run _ w).trans ?_
  rw [h]
  rfl

theorem after_bind_congr {t t' : Job α} {f : α → Job β} (h : w'.after t' = w.after t) :
    w'.after (t' >>= f) = w.after (t >>= f) := by
  rcases ht : w.after t with ⟨e | a, w₁⟩
  · exact (after_bind_error (h.trans ht)).trans (after_bind_error ht).symm
  · exact (after_bind_ok (h.trans ht)).trans (after_bind_ok ht).symm

theorem after_outcome (t : Job α) : w.after t.outcome = (.ok (w.after t).1, (w.after t).2) :=
  Dialogue.run_bind _ _ _ _

/-- What is read from the outcome of a job. -/
theorem after_reading (t : Job α) (f : Except Error α → Except Error β) :
    w.after (t.outcome >>= fun x => liftExcept (f x)) = (f (w.after t).1, (w.after t).2) := by
  rw [after_bind_ok (after_outcome t), after_liftExcept]

theorem after_map (t : Job α) (f : α → β) : w.after (f <$> t) = (f <$> (w.after t).1, (w.after t).2) := by
  rcases h : w.after t with ⟨o, w₁⟩
  cases o with
  | error e => exact after_bind_error h
  | ok a => exact after_bind_ok h

/-- What each part of a loop comes through with, the loop comes through with. -/
theorem after_forM {xs : List β} {f : β → Job Unit} {P : World → Prop}
    (step : ∀ x ∈ xs, ∀ w, P w → ∃ w', w.after (f x) = (.ok (), w') ∧ P w') (hw : P w) :
    ∃ w', w.after (xs.forM f) = (.ok (), w') ∧ P w' := by
  induction xs generalizing w with
  | nil => exact ⟨w, rfl, hw⟩
  | cons x xs ih =>
    obtain ⟨w₁, done, hw₁⟩ := step x (by simp) w hw
    obtain ⟨w', rest, hw'⟩ := ih (fun y hy => step y (by simp [hy])) hw₁
    exact ⟨w', (after_bind_ok (f := fun _ => xs.forM f) done).trans rest, hw'⟩

/-! ## The world but for the tenant -/

theorem answer_backends {c : Call} (h : c.system ≠ .store) :
    w.backends.answer c = ((w.answer c).1, (w.answer c).2.backends) := by
  have split {β : Type} {p : Prop} [Decidable p] {x y x' y' : Answer β} (hx : x' = (x.1, x.2.backends))
      (hy : y' = (y.1, y.2.backends)) : (if p then x' else y') =
        ((if p then x else y).1, (if p then x else y).2.backends) := by
    split <;> assumption
  cases c with
  | store c => exact absurd rfl h
  | hierarchy c =>
    cases c with
    | anchorExists p n => rfl
    | createAnchor p n => exact split rfl rfl
    | deleteAnchor p n => exact split rfl (split rfl rfl)
    | getSecret space n => rfl
    | createSecret space s => exact split rfl rfl
  | hardware c =>
    cases c with
    | get k n => rfl
    | create k c => exact split rfl rfl
    | delete k n => exact split rfl rfl
    | add k n m =>
      show w.backends.hardware (.add k n m) = ((w.hardware _).1, (w.hardware _).2.backends)
      cases hc : w.collections.get? (collectionKey k n) with
      | none => simp only [hardware, backends, hc]; rfl
      | some c => simp only [hardware, backends, hc]; exact split rfl rfl
    | remove k n m =>
      show w.backends.hardware (.remove k n m) = ((w.hardware _).1, (w.hardware _).2.backends)
      cases hc : w.collections.get? (collectionKey k n) with
      | none => simp only [hardware, backends, hc]; rfl
      | some c => simp only [hardware, backends, hc]; exact split rfl rfl
    | listGroups => rfl
    | listComponents type role => rfl
  | identity c =>
    cases c with
    | find n => rfl
    | create g => rfl
    | delete id => exact split rfl rfl
  | vault c =>
    cases c with
    | read p => rfl
    | write p body => rfl
    | delete p => exact split rfl rfl
  | hook c => cases c <;> rfl

/-- A job that makes no call to the store goes in the other systems as it goes in the whole world. -/
theorem goes_backends {j : Job α} (hj : j.Asks fun c => c.system ≠ .store) {o : Except Error α}
    (h : j.Goes (steady fails) w tr o w') : ∃ tr', j.Goes (steady fails) w.backends tr' o w'.backends := by
  unfold Job.Asks at hj
  unfold Job.Goes at h ⊢
  generalize j.run = d at h hj
  induction h with
  | done => exact ⟨[], .done⟩
  | @ask c next w w₁ w' r tr a answered _ ih =>
    obtain ⟨tr', rest⟩ := ih (hj.2 _)
    refine ⟨_, .ask ?_ rest⟩
    rcases answered with hr | ⟨e, he, hr, rfl⟩
    · refine .inl ((answer_backends hj.1).trans ?_).symm
      rw [← hr]
      rfl
    · exact .inr ⟨e, he, hr, rfl⟩

theorem after_backends {j : Job α} (hj : j.Asks fun c => c.system ≠ .store) :
    w.backends.after j = ((w.after j).1, (w.after j).2.backends) := by
  unfold Job.Asks at hj
  unfold after
  generalize j.run = d at hj
  induction d generalizing w with
  | done a => rfl
  | ask c next ih =>
    have hr := answer_backends (w := w) hj.1
    show Dialogue.run answering (next (w.backends.answer c).1) (w.backends.answer c).2 = _
    rw [hr]
    exact ih _ (hj.2 _)

theorem store_backends (w : World) (c : StoreCall) : (w.store c).2.backends = w.backends := by
  have guarded_same (copy : Tenant) (change : Tenant → Tenant) :
      (w.guarded copy change).2.backends = w.backends := by
    unfold guarded
    split
    · rfl
    · split <;> rfl
  cases c with
  | get space name => rfl
  | replaceStatus t s => exact guarded_same t _
  | addFinalizer t f => exact guarded_same t _
  | removeFinalizer t f => exact guarded_same t _
  | clearKeyUpdate t => rfl

/-- A job that calls only the store leaves the other systems as they were. -/
theorem backends_of_store {j : Job α} (hj : j.Asks fun c => c.system = .store) {o : Except Error α}
    (h : j.Goes (steady fails) w tr o w') : w'.backends = w.backends := by
  refine Dialogue.Goes.kept (P := fun w' => w'.backends = w.backends) h hj ?_ rfl
  intro c w₁ r w₂ hc hr hw₁
  rcases hr with hr | ⟨_, _, _, rfl⟩
  · rw [← hw₁, show w₂ = (w₁.answer c).2 from congrArg Prod.snd hr]
    obtain ⟨q, rfl⟩ := Call.exists_query hc
    exact store_backends w₁ q
  · exact hw₁

theorem backends_of_after {j : Job α} (hj : j.Asks fun c => c.system = .store) {o : Except Error α}
    (h : w.after j = (o, w')) : w'.backends = w.backends := by
  obtain ⟨_, hg⟩ := steady_of_after h
  exact backends_of_store hj hg

end Rehearsal.World

end Tenancy

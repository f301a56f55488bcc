import Mathlib.Data.List.Chain
import Tenancy.Proofs.Passes
import Tenancy.Proofs.Steady

/-!
# Histories

A history is what has happened to a tenant so far, with all that was asked and answered: passes, one after
the other, each over some copy of the tenant, and edits of it in between. Which copies a pass may be
handed, and what may be edited, is left to the statements.

Here nobody but the operator writes statuses and finalizers while a pass runs, and what the store says was
done was done. A write that failed may have been done all the same, and the other systems may answer
anything (`World.soleWriter`). `Trail S` says how the world goes from state to state in the course of a
job, and `World.Evolves S` that the stored statuses do. The rules for jobs that write to the store
(`trail_of_asks`, `trail_of_updateStatus`) reckon with one stored tenant at a time, and `History.evolves`
puts the passes together.
-/

namespace Tenancy

open Rehearsal Rehearsal.World

namespace Rehearsal.World

/-- Nobody but the operator writes the tenant, and a write that the store says was done was done. -/
def soleWriter : Conduct Services World := fun (c : Call) w r w' =>
  (w'.tenant = w.tenant ∨ w'.tenant = (w.answer c).2.tenant) ∧
    (c.system = .store → ∀ a, r = .ok a → (w.answer c).1 = .ok a ∧ w'.tenant = (w.answer c).2.tenant)

/-- The tenant is stored in both worlds, and its statuses stand in this relation. -/
def Evolves (S : Status → Status → Prop) (w w' : World) : Prop :=
  ∃ t t', w.tenant = some t ∧ w'.tenant = some t' ∧ S t.recorded t'.recorded

variable {S : Status → Status → Prop} {w w' w'' : World} {t : Tenant}

theorem Evolves.trans (hS : ∀ {s s' s''}, S s s' → S s' s'' → S s s'') (h : Evolves S w w')
    (h' : Evolves S w' w'') : Evolves S w w'' := by
  obtain ⟨t, t₁, ht, ht₁, hs⟩ := h
  obtain ⟨t₂, t', ht₂, ht', hs'⟩ := h'
  obtain rfl := Option.some.inj (ht₁.symm.trans ht₂)
  exact ⟨t, t', ht, ht', hS hs hs'⟩

theorem Evolves.mono {S' : Status → Status → Prop} (hS : ∀ s s', S s s' → S' s s')
    (h : Evolves S w w') : Evolves S' w w' := by
  obtain ⟨t, t', ht, ht', hs⟩ := h
  exact ⟨t, t', ht, ht', hS _ _ hs⟩

/-! ## Calls where nobody else writes -/

/-- After any call the tenant is as it was, or the write was done that was asked for. -/
theorem soleWriter_cases {c : Call} {r : Except Error c.Reply} (h : soleWriter c w r w')
    (stored : w.tenant = some t) :
    w'.tenant = some t ∨ ∃ sc, c = .store sc ∧ w'.tenant = some (sc.write t) := by
  rcases h.1 with same | answered
  · exact .inl (same.trans stored)
  · by_cases hc : c.system = .store
    · obtain ⟨sc, rfl⟩ : ∃ sc, c = .store sc := Call.exists_query hc
      rcases Lifecycle.store_cases sc stored with hw | hw
      · exact .inl (answered.trans hw)
      · exact .inr ⟨sc, rfl, answered.trans hw⟩
    · have same : (w.answer c).2.tenant = w.tenant := answer_same w c (Ne.symm hc)
      exact .inl ((answered.trans same).trans stored)

/-- A store that is relied on is written by nobody else. -/
theorem soleWriter_of_conduct {kept : BackingSystem → Prop} {fails : Call → Error → Prop}
    (hk : kept .store) {c : Call} {r : Except Error c.Reply} (h : conduct kept fails c w r w') :
    soleWriter c w r w' := by
  by_cases hc : c.system = .store
  · obtain ⟨sc, rfl⟩ : ∃ sc, c = .store sc := Call.exists_query hc
    obtain ⟨w₁, ha, hr | ⟨e, _, rfl, rfl⟩⟩ := own_of_conduct h hk
    · obtain ⟨reply, tenant⟩ := store_congr (ha _ hk) sc
      have hr₁ : r = (w₁.store sc).1 := congrArg Prod.fst hr
      have hw : w'.tenant = (w.store sc).2.tenant := by
        rw [← tenant]
        exact congrArg (·.2.tenant) hr
      refine ⟨.inr hw, fun _ a ha => ⟨?_, hw⟩⟩
      rw [← ha, hr₁]
      exact reply.symm
    · exact ⟨.inl (ha _ hk), fun _ a ha => by cases ha⟩
  · have same : w'.tenant = w.tenant := sameFor_of_conduct h hk (Ne.symm hc)
    exact ⟨.inl same, fun hs => absurd hs hc⟩

theorem soleWriter_of_steady {fails : Call → Error → Prop} {c : Call} {r : Except Error c.Reply}
    (h : steady fails c w r w') : soleWriter c w r w' := by
  have reliable : conduct (fun _ => True) fails c w r w' := conduct_of_steady h
  exact soleWriter_of_conduct trivial reliable

/-- A tenant of which this is true is stored. -/
def Stored (P : Tenant → Prop) (w : World) : Prop := ∃ t, w.tenant = some t ∧ P t

theorem Stored.mono {P Q : Tenant → Prop} (h : Stored P w) (hPQ : ∀ t, P t → Q t) : Stored Q w := by
  obtain ⟨t, stored, hP⟩ := h
  exact ⟨t, stored, hPQ t hP⟩

/-- A call leaves the statuses related if the write does that it may ask for. -/
theorem evolves_of_call (refl : ∀ s, S s s) {c : Call} {r : Except Error c.Reply}
    (h : soleWriter c w r w') {P : Tenant → Prop} (hP : P t) (stored : w.tenant = some t)
    (step : ∀ sc, c = .store sc → S t.recorded (sc.write t).recorded ∧ P (sc.write t)) :
    Evolves S w w' ∧ Stored P w' := by
  rcases soleWriter_cases h stored with hw | ⟨sc, rfl, hw⟩
  · exact ⟨⟨t, t, stored, hw, refl _⟩, t, hw, hP⟩
  · obtain ⟨hS, hP⟩ := step sc rfl
    exact ⟨⟨t, _, stored, hw, hS⟩, _, hw, hP⟩

end Rehearsal.World

/-! ## Trails -/

/-- The states follow one another by `S`, from each one in which something was asked to the next. -/
inductive Trail {I : Interface} {σ : Type} (S : σ → σ → Prop) : σ → List (Moment I σ) → σ → Prop
  | done {s : σ} : Trail S s [] s
  | next {s s' s'' : σ} {q : I.Query} {r : I.Answer q} {tr : List (Moment I σ)} (step : S s s')
      (rest : Trail S s' tr s'') : Trail S s (⟨s, q, r⟩ :: tr) s''

namespace Trail

variable {I : Interface} {σ : Type} {S : σ → σ → Prop} {s s' s'' : σ} {tr tr' : List (Moment I σ)}

theorem append (h : Trail S s tr s') (h' : Trail S s' tr' s'') : Trail S s (tr ++ tr') s'' := by
  induction h with
  | done => exact h'
  | next step _ ih => exact .next step (ih h')

theorem mono {S' : σ → σ → Prop} (hS : ∀ s s', S s s' → S' s s') (h : Trail S s tr s') :
    Trail S' s tr s' := by
  induction h with
  | done => exact .done
  | next step _ ih => exact .next (hS _ _ step) ih

/-- What led up to the first state leads on to the last one. -/
theorem isChain_append {l : List σ} (h : Trail S s tr s') (hl : (l ++ [s]).IsChain S) :
    (l ++ tr.map Moment.before ++ [s']).IsChain S := by
  induction h generalizing l with
  | done => simpa using hl
  | @next s s₁ _ q r tr step _ ih =>
    have hl₁ : (l ++ [s] ++ [s₁]).IsChain S := by
      refine List.isChain_append.2 ⟨hl, .singleton s₁, fun x hx y hy => ?_⟩
      obtain rfl : s = x := by simpa using hx
      obtain rfl : s₁ = y := by simpa using hy
      exact step
    simpa using ih hl₁

end Trail

namespace Lifecycle

variable {S : Status → Status → Prop} {P : Tenant → Prop} {w w' : World}
  {tr : List (Moment Services World)} {t : Tenant}

/-! ## Jobs that write to the store -/

/-- What each write that a job may ask for leaves true of a tenant, the job leaves true of the stored
one, and each state of its follows upon the one before. -/
theorem trail_of_asks (refl : ∀ s, S s s) {α : Type} {j : Job α} {o : Except Error α}
    (h : j.Goes soleWriter w tr o w') {p : Call → Prop} (hj : j.Asks p)
    (step : ∀ c : StoreCall, p (.store c) → ∀ t, P t → S t.recorded (c.write t).recorded ∧ P (c.write t))
    (hw : Stored P w) : Trail (Evolves S) w tr w' ∧ Stored P w' := by
  unfold Job.Goes at h
  unfold Job.Asks at hj
  generalize j.run = d at h hj
  induction h with
  | done => exact ⟨.done, hw⟩
  | ask answered _ ih =>
    obtain ⟨t, stored, hP⟩ := hw
    obtain ⟨evolves, hw₁⟩ := evolves_of_call refl answered hP stored fun sc hc => step sc (hc ▸ hj.1) t hP
    obtain ⟨trail, hw'⟩ := ih hw₁ (hj.2 _)
    exact ⟨.next evolves trail, hw'⟩

/-- A tenant that is stored stays stored, whatever is asked. -/
theorem stored_of_goes {α : Type} {j : Job α} {o : Except Error α} (h : j.Goes soleWriter w tr o w')
    (hw : Stored P w) : Stored (fun _ => True) w' :=
  (trail_of_asks (S := fun _ _ => True) (fun _ => trivial) h (Dialogue.asks_any _)
    (fun _ _ _ _ => ⟨trivial, trivial⟩) (hw.mono fun _ _ => trivial)).2

theorem trail_of_getTenant (refl : ∀ s, S s s) {space name : String} {o : Except Error (Option Tenant)}
    (h : (getTenant space name).Goes soleWriter w tr o w') (stored : w.tenant = some t) :
    Trail (Evolves S) w tr w' ∧ w'.tenant = some t ∧ ∀ latest, o = .ok (some latest) → latest = t := by
  obtain ⟨hc, rfl⟩ := Job.goes_call h
  obtain ⟨evolves, _, stored', rfl⟩ := evolves_of_call (P := (· = t)) refl hc rfl stored
    fun sc e => by cases e; exact ⟨refl _, rfl⟩
  refine ⟨.next evolves .done, stored', fun latest ho => ?_⟩
  -- what is found is what is stored, since nobody else writes
  have found : w.tenant.filter _ = some latest := Except.ok.inj (hc.2 rfl _ ho).1
  exact Option.some.inj ((Option.filter_eq_some_iff.1 found).1.symm.trans stored)

/-- A status is stored once the store says that it was written. -/
theorem withStatus_of_done {copy : Tenant} {s : Status}
    (h : soleWriter (.store (.replaceStatus copy s)) w (.ok ()) w') (stored : w.tenant = some t) :
    w'.tenant = some (t.withStatus s) := by
  obtain ⟨hok, done⟩ := h.2 rfl () rfl
  have answered : ((w.store (.replaceStatus copy s)).1, (w.store (.replaceStatus copy s)).2) =
      w.guarded copy fun u => { u with status := some s } := rfl
  rcases guarded_cases answered with ⟨u, hu, _, hw⟩ | ⟨e, he, _⟩
  · obtain rfl : t = u := Option.some.inj (stored.symm.trans hu)
    exact done.trans hw
  · cases he.symm.trans hok

theorem trail_of_replaceStatus (refl : ∀ s, S s s) {copy : Tenant} {s : Status} {o : Except Error Unit}
    (h : (replaceStatus copy s).Goes soleWriter w tr o w') (stored : w.tenant = some t) (hP : P t)
    (hS : S t.recorded s) (hP' : P (t.withStatus s)) :
    Trail (Evolves S) w tr w' ∧ Stored P w' ∧ (o = .ok () → w'.tenant = some (t.withStatus s)) := by
  obtain ⟨hc, rfl⟩ := Job.goes_call h
  obtain ⟨evolves, hw'⟩ := evolves_of_call refl hc hP stored fun sc e => by cases e; exact ⟨hS, hP'⟩
  refine ⟨.next evolves .done, hw', ?_⟩
  rintro rfl
  exact withStatus_of_done hc stored

theorem trail_of_updateOnce (refl : ∀ s, S s s) {space name : String} {change : Status → Status}
    {o : Except Error Status}
    (step : ∀ u, P u → S u.recorded (change u.recorded) ∧ P (u.withStatus (change u.recorded)))
    (h : (updateOnce space name change).Goes soleWriter w tr o w') (hw : Stored P w) :
    Trail (Evolves S) w tr w' ∧ Stored P w' ∧
      ∀ s, o = .ok s → Stored (fun t => ∃ u, P u ∧ s = change u.recorded ∧ t = u.withStatus s) w' := by
  obtain ⟨t, stored, hP⟩ := hw
  rcases Job.goes_bind h with ⟨e, rfl, hg⟩ | ⟨found, w₁, tr₁, tr₂, hg, hrest, rfl⟩
  · obtain ⟨trail, stored₁, _⟩ := trail_of_getTenant refl hg stored
    exact ⟨trail, ⟨t, stored₁, hP⟩, fun s hs => by cases hs⟩
  · obtain ⟨trail, stored₁, found_eq⟩ := trail_of_getTenant refl hg stored
    cases found with
    | none =>
      obtain ⟨rfl, rfl, rfl⟩ := Job.goes_throw hrest
      rw [List.append_nil]
      exact ⟨trail, ⟨t, stored₁, hP⟩, fun s hs => by cases hs⟩
    | some latest =>
      obtain rfl := found_eq latest rfl
      obtain ⟨hS, hP'⟩ := step latest hP
      rcases Job.goes_bind hrest with ⟨e, rfl, hr⟩ | ⟨_, w₂, tr₃, tr₄, hr, hend, rfl⟩
      · obtain ⟨trail', hw', _⟩ := trail_of_replaceStatus refl hr stored₁ hP hS hP'
        exact ⟨trail.append trail', hw', fun s hs => by cases hs⟩
      · obtain ⟨rfl, rfl, rfl⟩ := Job.goes_pure hend
        obtain ⟨trail', hw', stored'⟩ := trail_of_replaceStatus refl hr stored₁ hP hS hP'
        rw [List.append_nil]
        refine ⟨trail.append trail', hw', fun s hs => ?_⟩
        cases hs
        exact ⟨_, stored' rfl, latest, hP, rfl, rfl⟩

/-- A change of the status, however often it is attempted, starts out from tenants of which `P` is
true. -/
theorem trail_of_updateStatus (refl : ∀ s, S s s) {change : Status → Status} {o : Except Error Status}
    (step : ∀ u, P u → S u.recorded (change u.recorded) ∧ P (u.withStatus (change u.recorded)))
    (h : (updateStatus t change).Goes soleWriter w tr o w') (hw : Stored P w) :
    Trail (Evolves S) w tr w' ∧ Stored P w' ∧
      ∀ s, o = .ok s → Stored (fun t => ∃ u, P u ∧ s = change u.recorded ∧ t = u.withStatus s) w' := by
  obtain ⟨w₁, tr₁, tr₂, left, hlast, rfl⟩ := Job.goes_attempts
    (L := fun w tr w' => Stored P w → Trail (Evolves S) w tr w' ∧ Stored P w')
    (fun _ hw => ⟨.done, hw⟩)
    (fun left left' hw => by
      obtain ⟨trail, hw₁⟩ := left hw
      obtain ⟨trail', hw₂⟩ := left' hw₁
      exact ⟨trail.append trail', hw₂⟩)
    (fun failed hw => by
      obtain ⟨trail, hw', _⟩ := trail_of_updateOnce refl step failed hw
      exact ⟨trail, hw'⟩) h
  obtain ⟨trail, hw₁⟩ := left hw
  obtain ⟨trail', hw', written⟩ := trail_of_updateOnce refl step hlast hw₁
  exact ⟨trail.append trail', hw', written⟩

/-! ## Histories -/

/-- What has happened since a world `w₀`: passes over copies that they may be `handed`, and `edits` of the
tenant. It is kept with all that was asked and answered, the first first. -/
inductive History (settings : Settings) (R : Conduct Services World) (handed : World → Tenant → Prop)
    (edits : Tenant → Tenant → Prop) (w₀ : World) : List (Moment Services World) → World → Prop
  | start : History settings R handed edits w₀ [] w₀
  | pass {ms tr : List (Moment Services World)} {w w' : World} {copy : Tenant} {fresh : Fresh}
      {o : Except Error Action} (before : History settings R handed edits w₀ ms w) (read : handed w copy)
      (goes : (reconcile settings fresh copy).Goes R w tr o w') :
      History settings R handed edits w₀ (ms ++ tr) w'
  | edit {ms : List (Moment Services World)} {w : World} {t t' : Tenant}
      (before : History settings R handed edits w₀ ms w) (stored : w.tenant = some t)
      (edited : edits t t') : History settings R handed edits w₀ ms { w with tenant := some (bump t') }

/-- The copy is what is stored. -/
def Current (w : World) (copy : Tenant) : Prop := w.tenant = some copy

variable {settings : Settings} {R : Conduct Services World} {handed : World → Tenant → Prop}
  {edits : Tenant → Tenant → Prop} {w₀ : World} {ms : List (Moment Services World)}

/-- If the statuses follow one another by `S` in every pass, and no edit touches them, they do so in the
whole history. Of the stored tenant `I` stays true, which is told what has happened. -/
theorem History.evolves {I : List (Moment Services World) → Tenant → Prop} (refl : ∀ s, S s s)
    (pass : ∀ {ms tr w w' copy t fresh} {o : Except Error Action}, handed w copy → w.tenant = some t →
      I ms t → (reconcile settings fresh copy).Goes R w tr o w' →
      Trail (Evolves S) w tr w' ∧ Stored (I (ms ++ tr)) w')
    (edit : ∀ {ms t t'}, edits t t' → I ms t → t'.recorded = t.recorded ∧ I ms (bump t'))
    (history : History settings R handed edits w₀ ms w) (start : Stored (I []) w₀) :
    (w₀ :: ms.map Moment.before ++ [w]).IsChain (Evolves S) ∧ Stored (I ms) w := by
  induction history with
  | start =>
    obtain ⟨t, stored, hI⟩ := start
    exact ⟨.cons_cons ⟨t, t, stored, stored, refl _⟩ (.singleton _), t, stored, hI⟩
  | pass before read goes ih =>
    obtain ⟨chain, t, stored, hI⟩ := ih
    obtain ⟨trail, hI'⟩ := pass read stored hI goes
    refine ⟨?_, hI'⟩
    rw [List.map_append, ← List.cons_append]
    exact trail.isChain_append chain
  | @edit ms w t t' before stored edited ih =>
    obtain ⟨chain, t₁, stored₁, hI⟩ := ih
    obtain rfl : t = t₁ := Option.some.inj (stored.symm.trans stored₁)
    obtain ⟨recorded, hI'⟩ := edit edited hI
    refine ⟨?_, _, rfl, hI'⟩
    obtain ⟨earlier, _, last⟩ := List.isChain_append.1 chain
    refine List.isChain_append.2 ⟨earlier, .singleton _, fun x hx y hy => ?_⟩
    obtain ⟨u, u', hu, hu', hS⟩ := last x hx w (by simp)
    obtain rfl : t = u' := Option.some.inj (stored.symm.trans hu')
    obtain rfl : _ = y := by simpa using hy
    refine ⟨u, _, hu, rfl, ?_⟩
    show S u.recorded t'.recorded
    rw [recorded]
    exact hS

end Lifecycle

end Tenancy

import Mathlib.Logic.Relation
import Tenancy.Proofs.DeployRetries

/-!
# Retries

A pass that fails or has to wait is repeated. What the repetitions come to in the end is what a single pass
would have come to (`retries_confluent`): between the first attempt and the pass that goes through, each
attempt leaves the deployment under way from where the first one found the systems (`Retried.step`), and
from wherever it is under way a pass in which no call fails comes to the same.

Two things are needed for this. An attempt to make an anchor or a copy of a secret must not be answered by a
conflict while nothing is there: a pass takes this for the word that the thing is there, and goes on to the
hardware where it should have waited (`conflict_skips_wait`). And no stale child may have a slash in its
name: the deletion of one could empty the namespace of another that was passed over before
(`slash_empties_namespace`).
-/

namespace Tenancy

open Rehearsal Rehearsal.World

namespace Lifecycle

open Hierarchy

variable {fails : Call → Error → Prop} {settings : Settings} {fresh : Fresh} {t t' t₀ : Tenant} {s : Status}
  {w w' w₀ b₀ : World} {tr : List (Moment Services World)}

/-! ## Writes that do not fail, and writes that cannot succeed -/

/-- The store gives a tenant with a name to those who ask for it. -/
theorem found_of_stores {n : String} (named : t.metadata.name = some n) (hw : Stores t s w) :
    ∃ stored, w.tenant = some stored ∧ stored.recorded = s ∧
      w.after (getTenant t.metadata.spaceName t.metadata.anyName) = (.ok (some stored), w) := by
  obtain ⟨stored, hs, ⟨tended, _⟩, recorded⟩ := hw
  refine ⟨stored, hs, recorded, ?_⟩
  have space : stored.metadata.spaceName = t.metadata.spaceName := by
    rw [Metadata.spaceName, tended.metadata, Metadata.spaceName]
  have name : stored.metadata.name = some t.metadata.anyName := by
    rw [tended.metadata, Metadata.anyName, named]
    rfl
  show (Except.ok (w.tenant.filter _), w) = _
  rw [hs, Option.filter_some, if_pos (by simp [space, name])]

theorem after_untilUncontested {α : Type} {j : Job α} {a : α} (h : w.after j = (.ok a, w')) :
    w.after (untilUncontested j) = (.ok a, w') := by
  unfold World.after at h
  refine (Dialogue.run_bind answering j.run _ w).trans ?_
  rw [h]
  rfl

/-- When no call fails, the status of a tenant with a name is written. -/
theorem after_updateStatus {n : String} (named : t.metadata.name = some n) (hw : Stores t s w)
    (change : Status → Status) :
    ∃ w', w.after (updateStatus t change) = (.ok (change s), w') ∧ Stores t (change s) w' := by
  obtain ⟨stored, hs, rfl, found⟩ := found_of_stores named hw
  have written : w.after (replaceStatus stored (change stored.recorded)) =
      (.ok (), { w with tenant := some (stored.withStatus (change stored.recorded)) }) := by
    show w.guarded stored _ = _
    rw [guarded, hs]
    exact if_pos rfl
  have once : w.after (updateOnce t.metadata.spaceName t.metadata.anyName change) =
      (.ok (change stored.recorded), { w with tenant := some (stored.withStatus (change stored.recorded)) }) := by
    refine (after_bind_ok found).trans ?_
    exact after_bind_ok written
  -- what is stored by now is known of every way in which the change can go
  have done := after_untilUncontested once
  obtain ⟨_, goes⟩ := goes_of_after done
  rcases updateStatus_stores trivial goes hw with ⟨_, stored, _⟩ | ⟨_, failed, _⟩
  · exact ⟨_, done, stored⟩
  · cases failed

/-- When no call fails, a tenant with a name is marked as being deployed. -/
theorem after_markDeploying {n : String} (named : t.metadata.name = some n) (hw : Stores t t.recorded w)
    (fresh : Fresh) : ∃ w', w.after (markDeploying t fresh) = (.ok (deployingStatus fresh t.recorded), w') ∧
      Stores t (deployingStatus fresh t.recorded) w' := by
  unfold markDeploying
  dsimp only
  split
  · obtain ⟨w₁, first, stored⟩ := after_updateStatus named hw fun s => { s with phase := some .new }
    obtain ⟨w₂, second, stored'⟩ := after_updateStatus named stored (deployingStatus fresh)
    have first' : w.after (discard (updateStatus t fun s => { s with phase := some .new })) = (.ok (), w₁) :=
      (after_map _ _).trans (by rw [first]; rfl)
    exact ⟨w₂, (after_bind_ok first').trans second, stored'⟩
  · exact after_updateStatus named hw (deployingStatus fresh)

/-- The status of a tenant without a name is not written. -/
theorem updateStatus_unnamed (unnamed : t.metadata.name = none) {stored : Tenant}
    (hw : w.tenant = some stored) (tended : t.Tended stored) {change : Status → Status}
    {o : Except Error Status} (h : (updateStatus t change).Goes (steady fails) w tr o w') :
    ∃ e, o = .error e := by
  -- an attempt that finds no tenant of this name leaves the world to the next attempt as it was
  have once {w₁ w₂ : World} {tr : List (Moment Services World)} {o : Except Error Status}
      (hw₁ : w₁.tenant = some stored)
      (h : (updateOnce t.metadata.spaceName t.metadata.anyName change).Goes (steady fails) w₁ tr o w₂) :
      w₂ = w₁ ∧ ∃ e, o = .error e := by
    have missing : w₁.answer (.store (.get t.metadata.spaceName t.metadata.anyName)) = (.ok none, w₁) := by
      have name : stored.metadata.name = none := by rw [tended.metadata]; exact unnamed
      show (Except.ok (w₁.tenant.filter _), w₁) = _
      rw [hw₁, Option.filter_some, if_neg (by simp [name])]
      rfl
    rcases goes_look missing h with ⟨rfl, failed⟩ | ⟨tr', hrest⟩
    · exact ⟨rfl, failed⟩
    · obtain ⟨_, rfl, rfl⟩ := Job.goes_throw hrest
      exact ⟨rfl, _, rfl⟩
  obtain ⟨w₁, tr₁, tr₂, same, last, _⟩ : ∃ w₁ tr₁ tr₂, (w.tenant = some stored → w₁ = w) ∧
      (updateOnce t.metadata.spaceName t.metadata.anyName change).Goes (steady fails) w₁ tr₂ o w' ∧
        tr = tr₁ ++ tr₂ := by
    refine Job.goes_attempts (L := fun w _ w' => w.tenant = some stored → w' = w) (fun _ _ => rfl) ?_ ?_ h
    · intro w tr w₁ tr₁ w₂ h h' hw
      obtain rfl := h hw
      exact h' hw
    · intro w tr e w' h hw
      exact (once hw h).1
  obtain rfl := same hw
  exact (once hw last).2

theorem markDeploying_unnamed (unnamed : t.metadata.name = none) (hw : Stores t s w)
    {o : Except Error Status} (h : (markDeploying t fresh).Goes (steady fails) w tr o w') :
    ∃ e, o = .error e := by
  obtain ⟨stored, hs, ⟨tended, _⟩, _⟩ := hw
  unfold markDeploying at h
  dsimp only at h
  split at h
  · rcases Job.goes_bind h with ⟨e, rfl, _⟩ | ⟨_, _, _, _, h₁, _, _⟩
    · exact ⟨e, rfl⟩
    · obtain ⟨r, h₁⟩ := Job.goes_discard_ok h₁
      obtain ⟨_, he⟩ := updateStatus_unnamed unnamed hs tended h₁
      cases he
  · exact updateStatus_unnamed unnamed hs tended h

/-! ## Passes over a tenant that is to stay -/

/-- A tenant has no keys, it has the finalizer, and it is not to be deleted. -/
structure Staying (t : Tenant) : Prop where
  keyless : t.spec.keys.enabled = false
  held : t.hasFinalizer tenantFinalizer = true
  alive : t.deletionRequested = false

/-- The ways in which a pass can go over a tenant that is to stay, for what it leaves in the store and in the
other systems. -/
inductive StayingPass (settings : Settings) (fails : Call → Error → Prop) (t : Tenant) (w w' : World) :
    Except Error Action → Prop
  /-- Nothing was done to other systems than the store. -/
  | idle {o : Except Error Action} {p : Option Phase} (phase : p.getD .new = t.phase)
      (stored : Stores t { t.recorded with phase := p } w') (still : w'.backends = w.backends) :
      StayingPass settings fails t w w' o
  /-- Work was done, but it was not recorded. -/
  | begun {o : Except Error Action} {fresh : Fresh} {x : Except Error Readiness}
      {tr : List (Moment Services World)} (named : t.metadata.name ≠ none) (unsettled : isSettled t = false)
      (stored : Stores t (deployingStatus fresh t.recorded) w')
      (worked : (work settings t (announce t)).Goes (steady fails) w.backends tr x w'.backends) :
      StayingPass settings fails t w w' o
  /-- All work was done and recorded. -/
  | deployed (named : t.metadata.name ≠ none) (unsettled : isSettled t = false) :
      StayingPass settings fails t w w' (.ok .await)

theorem stayingPass_of_deploy (keyless : t.spec.keys.enabled = false) (unsettled : isSettled t = false)
    (hw : Stores t t.recorded w) {o : Except Error Action}
    (h : (deploy settings fresh t).Goes (steady fails) w tr o w') :
    StayingPass settings fails t w w' o := by
  have marked {w₁ : World} {tr : List (Moment Services World)} {r : Status}
      (h : (markDeploying t fresh).Goes (steady fails) w tr (.ok r) w₁) :
      t.metadata.name ≠ none ∧ r = deployingStatus fresh t.recorded ∧
        Stores t (deployingStatus fresh t.recorded) w₁ ∧ w₁.backends = w.backends := by
    obtain ⟨_, ⟨he, stored⟩ | ⟨_, _, he, _⟩⟩ := markDeploying_stores trivial (conduct_of_goes h) hw
    · refine ⟨fun unnamed => ?_, Except.ok.inj he, stored, ?_⟩
      · obtain ⟨_, he⟩ := markDeploying_unnamed unnamed hw h
        cases he
      · exact backends_of_store (asks_markDeploying (fun _ _ => rfl) fun _ _ _ => rfl) h
    · cases he
  have through {w₁ w₂ : World} {tr : List (Moment Services World)} {o : Except Error (Option KeyRecord)}
      (h : (prepare settings fresh t (deployingStatus fresh t.recorded)).Goes (steady fails) w₁ tr o w₂)
      (stored : Stores t (deployingStatus fresh t.recorded) w₁) (same : w₁.backends = w.backends) :
      Stores t (deployingStatus fresh t.recorded) w₂ ∧
        ∃ x tr', (work settings t (announce t)).Goes (steady fails) w.backends tr' x w₂.backends := by
    refine ⟨(stores_of_asks trivial (conduct_of_goes h) (prepare_asks_mild _) stored).1, ?_⟩
    rw [prepare_eq keyless fresh (deployingStatus fresh t.recorded) rfl] at h
    obtain ⟨x, hx, _⟩ := Job.goes_map h
    obtain ⟨tr', hx⟩ := goes_backends asks_work hx
    exact ⟨x, tr', same ▸ hx⟩
  cases deploy_cases h with
  | unmarked mark =>
    obtain ⟨_, ⟨he, _⟩ | ⟨_, p, _, phase, stored⟩⟩ := markDeploying_stores trivial (conduct_of_goes mark) hw
    · cases he
    · exact .idle phase stored (backends_of_store (asks_markDeploying (fun _ _ => rfl) fun _ _ _ => rfl) mark)
  | failed mark middle =>
    obtain ⟨named, rfl, stored, same⟩ := marked mark
    obtain ⟨stored, _, _, worked⟩ := through middle stored same
    exact .begun named unsettled stored worked
  | pending mark middle =>
    obtain ⟨named, rfl, stored, same⟩ := marked mark
    obtain ⟨stored, _, _, worked⟩ := through middle stored same
    exact .begun named unsettled stored worked
  | prepared mark middle last =>
    obtain ⟨named, rfl, stored, same⟩ := marked mark
    obtain ⟨stored, _, _, worked⟩ := through middle stored same
    rcases updateStatus_stores trivial (conduct_of_goes last) stored with ⟨rfl, _⟩ | ⟨_, rfl, stored, _⟩
    · exact .deployed named unsettled
    · have same := backends_of_store (asks_updateStatus (fun _ _ => rfl) fun _ => rfl) last
      exact .begun named unsettled stored (same ▸ worked)

theorem reconcile_eq (staying : Staying t) :
    reconcile settings fresh t = maintain settings fresh t := by
  unfold reconcile
  rw [staying.alive, staying.held]
  rfl

theorem stayingPass_of_goes (staying : Staying t) (hw : w.tenant = some t) {o : Except Error Action}
    (h : (reconcile settings fresh t).Goes (steady fails) w tr o w') :
    StayingPass settings fails t w w' o := by
  have stored : Stores t t.recorded w := ⟨t, hw, ⟨.refl t, fun _ => id⟩, rfl⟩
  have dropped {w₁ : World} {tr : List (Moment Services World)} {o : Except Error Unit}
      (drop : (dropRequest t).Goes (steady fails) w tr o w₁) :
      Stores t t.recorded w₁ ∧ w₁.backends = w.backends :=
    ⟨(stores_of_asks trivial (conduct_of_goes drop) dropRequest_asks_mild stored).1,
      backends_of_store dropRequest_asks_store drop⟩
  cases reconcile_cases h with
  | gone requested =>
    rw [staying.alive] at requested
    cases requested
  | teardown requested =>
    rw [staying.alive] at requested
    cases requested
  | attach _ unheld =>
    rw [staying.held] at unheld
    cases unheld
  | undropped _ drop =>
    obtain ⟨stored, same⟩ := dropped drop
    exact .idle (p := t.recorded.phase) rfl stored same
  | settled _ _ _ drop =>
    obtain ⟨stored, same⟩ := dropped drop
    exact .idle (p := t.recorded.phase) rfl stored same
  | deploy _ _ unsettled drop goes =>
    obtain ⟨stored, same⟩ := dropped drop
    cases stayingPass_of_deploy staying.keyless unsettled stored goes with
    | idle phase stored still => exact .idle phase stored (still.trans same)
    | begun named unsettled stored worked => exact .begun named unsettled stored (same ▸ worked)
    | deployed named unsettled => exact .deployed named unsettled

/-! ## Retries -/

/-- A pass over the stored tenant that ends with an error, or asks to be called again. Calls fail as `fails`
allows, without an effect. -/
inductive Retry (settings : Settings) (fails : Call → Error → Prop) (w w' : World) : Prop
  | pass {t : Tenant} {fresh : Fresh} {tr : List (Moment Services World)} {o : Except Error Action}
      (stored : w.tenant = some t) (goes : (reconcile settings fresh t).Goes (steady fails) w tr o w')
      (unfinished : o ≠ .ok .await) : Retry settings fails w w'

/-- Any number of such passes. -/
abbrev Retries (settings : Settings) (fails : Call → Error → Prop) : World → World → Prop :=
  Relation.ReflTransGen (Retry settings fails)

/-- Whether a tenant without keys is settled depends on its phase, on what it declares and on what was
applied. -/
theorem isSettled_congr (keyless : t.spec.keys.enabled = false) (same : SameWork t t')
    (phase : t'.phase = t.phase) : isSettled t' = isSettled t := by
  -- a tenant without a status is new, so it is not settled whatever it declares
  have eq {t : Tenant} (keyless : t.spec.keys.enabled = false) : isSettled t =
      (t.phase == .deployed && (Tenant.resourcesAgree t.spec.resources t.recorded.resources &&
        sameMembers t.desiredChildren t.recorded.children && t.spec.hooks == t.recorded.hooks)) := by
    cases hs : t.status with
    | none =>
      have new : t.phase = .new := by simp [Tenant.phase, Tenant.recorded, hs]
      rw [isSettled, new]
      rfl
    | some s => simp [isSettled, keysPending, keyless, Tenant.isConverged, Tenant.recorded, hs]
  have keyless' : t'.spec.keys.enabled = false := by rw [same.spec]; exact keyless
  rw [eq keyless, eq keyless', phase, same.desiredChildren, same.applied.resources, same.applied.children,
    same.applied.hooks, same.spec]

/-- What retries have made of a tenant and of the systems, which were `b₀` at first. -/
structure Retried (settings : Settings) (t₀ : Tenant) (b₀ : World) (t : Tenant) (w : World) : Prop where
  tended : t₀.Tended t
  held : t₀.Held t
  applied : t₀.recorded.SameApplied t.recorded
  settled : isSettled t = isSettled t₀
  underway : Underway settings t₀ b₀ w.backends
  still : isSettled t₀ = true ∨ t₀.metadata.name = none → w.backends = b₀

theorem Retried.refl (settings : Settings) (t : Tenant) (w : World) : Retried settings t w.backends t w :=
  ⟨.refl t, fun _ => id, .marked t.recorded _ _, rfl, .refl _ _ _, fun _ => rfl⟩

theorem Retried.staying (h : Retried settings t₀ b₀ t w) (staying : Staying t₀) : Staying t := by
  refine ⟨?_, h.held _ staying.held, h.tended.deletionRequested.trans staying.alive⟩
  rw [h.tended.keys]
  exact staying.keyless

theorem Retried.same (h : Retried settings t₀ b₀ t w) : SameWork t₀ t := ⟨h.tended.spec, h.applied⟩

/-- A pass that is to be repeated leaves the deployment under way. -/
theorem Retried.step (h : Retried settings t₀ b₀ t w) (staying : Staying t₀)
    (plain : ∀ s ∈ staleChildren t₀, '/' ∉ s.toList) (honest : Honest fails) (hw : w.tenant = some t)
    {o : Except Error Action} (hg : (reconcile settings fresh t).Goes (steady fails) w tr o w')
    (unfinished : o ≠ .ok .await) : ∃ t', w'.tenant = some t' ∧ Retried settings t₀ b₀ t' w' := by
  cases stayingPass_of_goes (h.staying staying) hw hg with
  | idle phase stored still =>
    obtain ⟨t', ht', ⟨tended, held'⟩, recorded⟩ := stored
    have applied : t.recorded.SameApplied t'.recorded := by
      rw [recorded]
      exact .marked t.recorded _ _
    have same_phase : t'.phase = t.phase := by rw [Tenant.phase, recorded]; exact phase
    refine ⟨t', ht', h.tended.trans tended, fun f hf => held' f (h.held f hf), h.applied.trans applied, ?_,
      still ▸ h.underway, fun hs => still.trans (h.still hs)⟩
    exact (isSettled_congr (h.staying staying).keyless ⟨tended.spec, applied⟩ same_phase).trans h.settled
  | begun named unsettled stored worked =>
    obtain ⟨t', ht', ⟨tended, held'⟩, recorded⟩ := stored
    have applied : t.recorded.SameApplied t'.recorded := by
      rw [recorded]
      exact .marked t.recorded _ _
    have unsettled₀ : isSettled t₀ = false := h.settled.symm.trans unsettled
    have named₀ : t₀.metadata.name ≠ none := by
      rw [h.tended.metadata] at named
      exact named
    rw [work_congr h.same] at worked
    refine ⟨t', ht', h.tended.trans tended, fun f hf => held' f (h.held f hf), h.applied.trans applied, ?_,
      keeps_work honest plain Dispatch.world_of_dispatch worked h.underway, ?_⟩
    · have deploying : t'.phase = .deploying := by rw [Tenant.phase, recorded]; rfl
      rw [unsettled₀, isSettled, deploying]
      rfl
    · rintro (settled | unnamed)
      · cases unsettled₀.symm.trans settled
      · exact absurd unnamed named₀
  | deployed => exact absurd rfl unfinished

theorem retried_of_retries (stored : w₀.tenant = some t₀) (staying : Staying t₀)
    (plain : ∀ s ∈ staleChildren t₀, '/' ∉ s.toList) (honest : Honest fails)
    (retries : Retries settings fails w₀ w) :
    ∃ t, w.tenant = some t ∧ Retried settings t₀ w₀.backends t w := by
  induction retries with
  | refl => exact ⟨t₀, stored, .refl settings t₀ w₀⟩
  | tail _ retry ih =>
    obtain ⟨t, ht, retried⟩ := ih
    obtain ⟨ht', goes, unfinished⟩ := retry
    obtain rfl := Option.some.inj (ht.symm.trans ht')
    exact retried.step staying plain honest ht goes unfinished

/-! ## The pass in which no call fails -/

/-- A pass over the stored tenant in which no call fails. -/
def clearPass (settings : Settings) (fresh : Fresh) (w : World) : World :=
  match w.tenant with
  | none => w
  | some t => (w.after (reconcile settings fresh t)).2

/-- A pass over a tenant that is settled or has no name does nothing to other systems than the store, and
records nothing. -/
theorem clearPass_idle (settings : Settings) (staying : Staying t) (hw : w.tenant = some t)
    (idle : isSettled t = true ∨ t.metadata.name = none) (fresh : Fresh) :
    (clearPass settings fresh w).backends = w.backends ∧
      ∃ t', (clearPass settings fresh w).tenant = some t' ∧ t.recorded.SameApplied t'.recorded := by
  rcases hpass : w.after (reconcile settings fresh t) with ⟨o, w'⟩
  have pass : clearPass settings fresh w = w' := by
    unfold clearPass
    rw [hw]
    exact congrArg Prod.snd hpass
  obtain ⟨_, hg⟩ := steady_of_after hpass
  rw [pass]
  have contradiction (named : t.metadata.name ≠ none) (unsettled : isSettled t = false) : False := by
    rcases idle with settled | unnamed
    · cases unsettled.symm.trans settled
    · exact named unnamed
  cases stayingPass_of_goes staying hw hg with
  | idle _ stored still =>
    obtain ⟨t', ht', _, recorded⟩ := stored
    refine ⟨still, t', ht', ?_⟩
    rw [recorded]
    exact .marked t.recorded _ _
  | begun named unsettled => exact (contradiction named unsettled).elim
  | deployed named unsettled => exact (contradiction named unsettled).elim

/-- When no call fails, a deploy pass does all the work, and records what it applied unless the work came to
an error or has to wait. -/
theorem after_deploy (settings : Settings) {n : String} (named : t.metadata.name = some n)
    (keyless : t.spec.keys.enabled = false) (hw : Stores t t.recorded w) (fresh : Fresh)
    {x : Except Error Readiness} {b : World}
    (worked : w.backends.after (work settings t (announce t)) = (x, b)) :
    ∃ o w', w.after (deploy settings fresh t) = (o, w') ∧ w'.backends = b ∧
      (x = .ok .ready → Stores t (deployedStatus t t.recorded.keys fresh.now
        (deployingStatus fresh t.recorded)) w') ∧
      (x ≠ .ok .ready → Stores t (deployingStatus fresh t.recorded) w') := by
  obtain ⟨w₁, mark, stored⟩ := after_markDeploying named hw fresh
  have same := backends_of_after (asks_markDeploying (fun _ _ => rfl) fun _ _ _ => rfl) mark
  rcases hwork : w₁.after (work settings t (announce t)) with ⟨y, w₂⟩
  obtain ⟨rfl, rfl⟩ : x = y ∧ b = w₂.backends := by
    have asks : (work settings t (announce t)).Asks fun c => c.system ≠ .store := asks_work
    have hb : w₁.backends.after (work settings t (announce t)) = _ := after_backends asks
    rw [same, worked, hwork] at hb
    exact Prod.mk.inj hb
  have middle : w₁.after (prepare settings fresh t (deployingStatus fresh t.recorded)) =
      (keysWhen (deployingStatus fresh t.recorded) <$> x, w₂) := by
    rw [prepare_eq keyless fresh (deployingStatus fresh t.recorded) rfl, after_map, hwork]
  have stored' : Stores t (deployingStatus fresh t.recorded) w₂ := by
    obtain ⟨_, hg⟩ := goes_of_after middle
    exact (stores_of_asks trivial hg (prepare_asks_mild _) stored).1
  rw [deploy_eq, after_bind_ok mark]
  cases x with
  | error e => exact ⟨_, w₂, after_bind_error middle, rfl, nofun, fun _ => stored'⟩
  | ok r =>
    rw [after_bind_ok middle]
    cases r with
    | pending => exact ⟨_, w₂, rfl, rfl, nofun, fun _ => stored'⟩
    | ready =>
      obtain ⟨w₃, last, stored''⟩ := after_updateStatus named stored'
        (deployedStatus t t.recorded.keys fresh.now)
      have same' := backends_of_after (asks_updateStatus (fun _ _ => rfl) fun _ => rfl) last
      have last' : w₂.after (discard (updateStatus t (deployedStatus t t.recorded.keys fresh.now))) =
          (.ok (), w₃) := (after_map _ _).trans (by rw [last]; rfl)
      exact ⟨_, w₃, after_bind_ok last', same', fun _ => stored'', fun h => absurd rfl h⟩

theorem after_reconcile (settings : Settings) (staying : Staying t) (hw : w.tenant = some t)
    (unsettled : isSettled t = false) (fresh : Fresh) :
    ∃ w₁, Stores t t.recorded w₁ ∧ w₁.backends = w.backends ∧
      w.after (reconcile settings fresh t) = w₁.after (deploy settings fresh t) := by
  have stored : Stores t t.recorded w := ⟨t, hw, ⟨.refl t, fun _ => id⟩, rfl⟩
  have rest (w₁ : World) : w₁.after (do
      if isSettled t then return .await
      deploy settings fresh t) = w₁.after (deploy settings fresh t) := by
    rw [unsettled]
    rfl
  rw [reconcile_eq staying]
  unfold maintain
  dsimp only
  split
  · have done : w.after (clearKeyUpdate t) = (.ok (), (w.after (clearKeyUpdate t)).2) := rfl
    obtain ⟨_, goes⟩ := goes_of_after done
    have stored₁ := (stores_of_asks trivial goes clearKeyUpdate_asks_mild stored).1
    exact ⟨_, stored₁, backends_of_after (Job.asks_call rfl) done, (after_bind_ok done).trans (rest _)⟩
  · exact ⟨w, stored, rfl, rest w⟩

/-- A pass over a tenant with a name that is not settled does all the work. -/
theorem clearPass_work (settings : Settings) {n : String} (staying : Staying t) (hw : w.tenant = some t)
    (named : t.metadata.name = some n) (unsettled : isSettled t = false) (fresh : Fresh) :
    (clearPass settings fresh w).backends = (w.backends.after (work settings t (announce t))).2 ∧
      ∃ t', (clearPass settings fresh w).tenant = some t' ∧
        ((w.backends.after (work settings t (announce t))).1 = .ok .ready →
          t'.recorded.children = t.desiredChildren ∧ t'.recorded.resources = t.spec.resources ∧
            t'.recorded.hooks = t.spec.hooks) ∧
        ((w.backends.after (work settings t (announce t))).1 ≠ .ok .ready →
          t.recorded.SameApplied t'.recorded) := by
  obtain ⟨w₁, cleared, same, begun⟩ := after_reconcile settings staying hw unsettled fresh
  have pass : clearPass settings fresh w = (w₁.after (deploy settings fresh t)).2 := by
    rw [clearPass, hw, ← begun]
  obtain ⟨o, w', hdeploy, hb, hready, hunready⟩ :=
    after_deploy settings named staying.keyless cleared fresh rfl
  rw [pass, hdeploy, hb, same]
  rw [same] at hready hunready
  refine ⟨rfl, ?_⟩
  by_cases ready : (w.backends.after (work settings t (announce t))).1 = .ok .ready
  · obtain ⟨t', ht', _, recorded⟩ := hready ready
    refine ⟨t', ht', fun _ => ?_, fun unready => absurd ready unready⟩
    rw [recorded]
    exact ⟨rfl, rfl, rfl⟩
  · obtain ⟨t', ht', _, recorded⟩ := hunready ready
    refine ⟨t', ht', fun ready' => absurd ready' ready, fun _ => ?_⟩
    rw [recorded]
    exact .marked t.recorded _ _

/-! ## Whatever failed before -/

/-- Two worlds do not differ in what the systems of a tenant keep, and in what is recorded as applied. -/
structure SameOutcome (w w' : World) : Prop extends SameSystems w w' where
  recorded : ∃ t t', w.tenant = some t ∧ w'.tenant = some t' ∧
    t'.recorded.children = t.recorded.children ∧ t'.recorded.resources = t.recorded.resources ∧
      t'.recorded.hooks = t.recorded.hooks

theorem SameSystems.of_backends (h : SameSystems w.backends w'.backends) : SameSystems w w' :=
  ⟨h.anchors, h.secrets, h.collections, h.identity⟩

/-- Whatever passes failed or had to wait before it, and wherever they did, a pass in which no call fails
comes to what it would have come to at first. The tenant is any one without keys that has the finalizer and
is not to be deleted, and the systems hold anything. -/
theorem retries_confluent (settings : Settings) (stored : w₀.tenant = some t₀)
    (staying : Staying t₀) (plain : ∀ s ∈ staleChildren t₀, '/' ∉ s.toList) (honest : Honest fails)
    (retries : Retries settings fails w₀ w) (fresh₀ fresh : Fresh) :
    SameOutcome (clearPass settings fresh₀ w₀) (clearPass settings fresh w) := by
  obtain ⟨t, ht, retried⟩ := retried_of_retries stored staying plain honest retries
  have staying' := retried.staying staying
  have same_name : t.metadata.name = t₀.metadata.name := by rw [retried.tended.metadata]
  have unrecorded {u₀ u : Tenant} (applied₀ : t₀.recorded.SameApplied u₀.recorded)
      (applied : t.recorded.SameApplied u.recorded) : u.recorded.children = u₀.recorded.children ∧
        u.recorded.resources = u₀.recorded.resources ∧ u.recorded.hooks = u₀.recorded.hooks := by
    rw [applied.children, applied.resources, applied.hooks, applied₀.children, applied₀.resources,
      applied₀.hooks]
    exact ⟨retried.applied.children, retried.applied.resources, retried.applied.hooks⟩
  by_cases idle : isSettled t₀ = true ∨ t₀.metadata.name = none
  · have idle' : isSettled t = true ∨ t.metadata.name = none := by rwa [retried.settled, same_name]
    obtain ⟨still₀, u₀, hu₀, applied₀⟩ := clearPass_idle settings staying stored idle fresh₀
    obtain ⟨still, u, hu, applied⟩ := clearPass_idle settings staying' ht idle' fresh
    have systems : SameSystems (clearPass settings fresh₀ w₀).backends
        (clearPass settings fresh w).backends := by
      rw [still₀, still, retried.still idle]
      exact .refl _
    exact ⟨.of_backends systems, u₀, u, hu₀, hu, unrecorded applied₀ applied⟩
  · -- both passes do all the work, and the same deployment is under way where they set out
    have unsettled₀ : isSettled t₀ = false := by simpa using fun h => idle (.inl h)
    have unsettled : isSettled t = false := retried.settled.trans unsettled₀
    obtain ⟨n, named₀⟩ := Option.ne_none_iff_exists'.1 fun h => idle (.inr h)
    have named : t.metadata.name = some n := same_name.trans named₀
    obtain ⟨worked₀, u₀, hu₀, ready₀, unready₀⟩ :=
      clearPass_work settings staying stored named₀ unsettled₀ fresh₀
    obtain ⟨worked, u, hu, ready, unready⟩ :=
      clearPass_work settings staying' ht named unsettled fresh
    obtain ⟨same_end, systems⟩ := after_work plain retried.underway (alike_announce retried.same)
    rw [work_congr retried.same] at worked ready unready
    rw [same_end] at ready unready
    rw [← worked₀, ← worked] at systems
    refine ⟨.of_backends systems, u₀, u, hu₀, hu, ?_⟩
    by_cases done : (w₀.backends.after (work settings t₀ (announce t₀))).1 = .ok .ready
    · obtain ⟨children₀, resources₀, hooks₀⟩ := ready₀ done
      obtain ⟨children, resources, hooks⟩ := ready done
      rw [children, resources, hooks, children₀, resources₀, hooks₀, retried.same.desiredChildren,
        retried.tended.spec]
      exact ⟨rfl, rfl, rfl⟩
    · exact unrecorded (unready₀ done) (unready done)

theorem retries_of_pass {s : Stage} (hs : s.Plain fails) (stored : s.world.tenant = some s.tenant)
    (fresh : Fresh)
    (unfinished : (Stage.perform (reconcile settings fresh s.tenant) s).1.toOption ≠ some .await) :
    Retries settings fails s.world (s.pass settings fresh).world := by
  refine .single (.pass stored (Stage.steady_pass hs stored) fun await => unfinished ?_)
  rw [await]
  rfl

/-- That the hierarchy cannot be reached is an honest failure. -/
theorem honest_unreachable : Honest Call.Unreachable := by
  rintro c e ⟨system, m, rfl⟩ _
  rfl

/-- The pass over the half filled partition left it with its first node, and the next one fills it as a
single pass would have done. -/
theorem halfFilled_confluent :
    (Stage.halfFilled.pass {} default).world.HasMember .partition "p-blue" "x1" ∧
      SameOutcome (clearPass {} ⟨"2", "later"⟩ Stage.halfFilled.world)
        (clearPass {} default (Stage.halfFilled.pass {} default).world) := by
  have plain : Stage.halfFilled.Plain Call.Unreachable := Stage.plain_start _ _
  have retries : Retries {} Call.Unreachable Stage.halfFilled.world
      (Stage.halfFilled.pass {} default).world :=
    retries_of_pass plain rfl default (by decide +kernel)
  refine ⟨by decide +kernel, ?_⟩
  exact retries_confluent {} rfl ⟨rfl, rfl, rfl⟩ (by decide +kernel) honest_unreachable retries _ _

/-! ## Where retries differ -/

/-- The namespace of the tenants has not been made yet; the anchor in it is refused by a conflict at first,
and the identity provider cannot be reached. -/
def refused : Stage where
  world := { tenant := some (Stage.newTenant (Stage.onePartition ["x1"])), hidden := ["tenants"] }
  faults := [
    { pattern := "ns.create_anchor tenants/blue"
      mode := .before (.rejected "kubernetes" 409 ("conflict" : String))
      times := some 1 },
    Stage.outage "id.find blue-tenant-admin"]

/-- A tenant of whose recorded children none is declared any more; the namespace of the first holds the
anchor of the second, and the third cannot be deleted at first. -/
def nested : Stage where
  world := {
    tenant := some { Stage.newTenant { name := "blue" } with
      status := some { phase := some .deployed, children := ["blue/u", "u/x", "z"] } }
    anchors := ["blue/blue/u", "blue/u/x", "tenants/blue"] }
  faults := [Stage.outage "ns.delete_anchor blue/z"]

/-- A conflict is taken for the word that the anchor is there, and the pass goes on to the hardware before it
fails. A pass in which no call fails waits for the namespace of the tenants. -/
theorem conflict_skips_wait :
    Retries {} (fun _ _ => True) refused.world (refused.pass {} default).world ∧
      ¬ SameOutcome (clearPass {} default refused.world)
        (clearPass {} default (refused.pass {} default).world) := by
  have plain : refused.Plain fun _ _ => True := by
    intro f hf
    rcases List.mem_cons.1 hf with rfl | hf
    · exact ⟨_, rfl, fun _ => trivial⟩
    · obtain rfl := List.mem_singleton.1 hf
      exact ⟨_, rfl, fun _ => trivial⟩
  refine ⟨retries_of_pass plain rfl default (by decide +kernel), fun same => ?_⟩
  have waits : (clearPass {} default refused.world).collection .partition "p-blue" = none := by
    decide +kernel
  have made : ((clearPass {} default (refused.pass {} default).world).collection .partition
      "p-blue").isSome = true := by decide +kernel
  have there := (same.collections .partition "p-blue").1
  rw [waits] at there
  rw [Option.map_eq_none_iff.1 there] at made
  cases made

/-- The deletion of one stale child empties the namespace of another, whose turn has been before. -/
theorem slash_empties_namespace :
    Retries {} Call.Unreachable nested.world (nested.pass {} default).world ∧
      ¬ SameOutcome (clearPass {} default nested.world)
        (clearPass {} default (nested.pass {} default).world) := by
  have plain : nested.Plain Call.Unreachable := by
    intro f hf
    obtain rfl := List.mem_singleton.1 hf
    exact ⟨_, rfl, fun _ => ⟨_, _, rfl⟩⟩
  refine ⟨retries_of_pass plain rfl default (by decide +kernel), fun same => ?_⟩
  have left : "blue/blue/u" ∈ (clearPass {} default nested.world).anchors := by decide +kernel
  have gone : "blue/blue/u" ∉ (clearPass {} default (nested.pass {} default).world).anchors := by
    decide +kernel
  exact gone ((same.anchors _).2 left)

/-- It is not enough that no stale child has a slash in its name, and not that failures are honest. -/
theorem retries_differ :
    (¬ ∀ (fails : Call → Error → Prop) (w₀ w : World) (t₀ : Tenant), w₀.tenant = some t₀ → Staying t₀ →
      (∀ s ∈ staleChildren t₀, '/' ∉ s.toList) → Retries {} fails w₀ w →
        SameOutcome (clearPass {} default w₀) (clearPass {} default w)) ∧
    ¬ ∀ (fails : Call → Error → Prop) (w₀ w : World) (t₀ : Tenant), w₀.tenant = some t₀ → Staying t₀ →
      Honest fails → Retries {} fails w₀ w →
        SameOutcome (clearPass {} default w₀) (clearPass {} default w) := by
  constructor
  · intro confluent
    obtain ⟨retries, differ⟩ := conflict_skips_wait
    exact differ (confluent _ _ _ refused.tenant rfl ⟨rfl, rfl, rfl⟩ (by decide +kernel) retries)
  · intro confluent
    obtain ⟨retries, differ⟩ := slash_empties_namespace
    exact differ (confluent _ _ _ nested.tenant rfl ⟨rfl, rfl, rfl⟩ honest_unreachable retries)

end Lifecycle

end Tenancy

import Mathlib.Logic.Relation
import Tenancy.Proofs.Passes
import Tenancy.Proofs.Stages

/-!
# Runs

In a run the operator makes passes over the tenant that is stored, and between them the tenant is
edited. `Run.preserves` is the rule for facts about runs: what every way in which a pass can go and every
edit leaves true stays true. `Tenant.Declares` is an edit of what is declared, and
`Tenant.DeclaresBetween` one that does not come between a deploy pass that failed and the next one.
-/

namespace Tenancy

open Rehearsal Rehearsal.World

/-! ## Edits -/

/-- Other children or other resources are declared. -/
def Tenant.Declares (t t' : Tenant) : Prop :=
  ∃ children resources,
    t' = { t with spec := { t.spec with children := children, resources := resources } }

/-- Something else is declared. -/
def Tenant.Respecified (t t' : Tenant) : Prop := ∃ spec, t' = { t with spec := spec }

def Tenant.DeclaresResources (t t' : Tenant) : Prop :=
  ∃ resources, t' = { t with spec := { t.spec with resources := resources } }

/-- Other children are declared, or other resources, but these not while a deployment is under way. -/
def Tenant.DeclaresBetween (t t' : Tenant) : Prop :=
  t.Declares t' ∧ (t.phase = .deploying → t'.spec.resources = t.spec.resources)

def Tenant.requestDeletion (t : Tenant) (time : Instant) : Tenant :=
  { t with metadata := { t.metadata with deletionTimestamp := some time } }

namespace Lifecycle

/-- A pass over the stored tenant, or an edit of it. -/
inductive Step (settings : Settings) (kept : BackingSystem → Prop) (fails : Call → Error → Prop)
    (edits : Tenant → Tenant → Prop) : World → World → Prop
  | pass {w w' : World} {t : Tenant} {fresh : Fresh} {tr : List (Moment Services World)}
      {o : Except Error Action} (stored : w.tenant = some t)
      (goes : (reconcile settings fresh t).Goes (conduct kept fails) w tr o w') :
      Step settings kept fails edits w w'
  | edit {w : World} {t t' : Tenant} (stored : w.tenant = some t) (edited : edits t t') :
      Step settings kept fails edits w { w with tenant := some (bump t') }

/-- Passes and edits, any number of them in any order. -/
abbrev Run (settings : Settings) (kept : BackingSystem → Prop) (fails : Call → Error → Prop)
    (edits : Tenant → Tenant → Prop) : World → World → Prop :=
  Relation.ReflTransGen (Step settings kept fails edits)

variable {settings : Settings} {kept : BackingSystem → Prop} {fails : Call → Error → Prop}
  {edits : Tenant → Tenant → Prop} {w w' : World}

/-- A run in which calls fail in some ways is one in which they may fail in more. -/
theorem Run.weaken {fails' : Call → Error → Prop} (h : ∀ c e, fails c e → fails' c e)
    (run : Run settings kept fails edits w w') : Run settings kept fails' edits w w' := by
  refine Relation.ReflTransGen.mono (fun w w' step => ?_) _ _ run
  cases step with
  | pass stored goes => exact .pass stored (goes.weaken fun _ _ _ _ => conduct_mono h)
  | edit stored edited => exact .edit stored edited

/-- What all passes and all edits leave true of the stored tenant and the world stays true. -/
theorem Run.preserves (hk : kept .store) {P : Tenant → World → Prop}
    (pass : ∀ {fresh : Fresh} {t : Tenant} {w w' : World} {tr : List (Moment Services World)},
      Pass kept fails settings fresh t w tr w' → P t w → ∃ t', w'.tenant = some t' ∧ P t' w')
    (edit : ∀ {t t' : Tenant} {w : World}, edits t t' → P t w →
      P (bump t') { w with tenant := some (bump t') })
    (run : Run settings kept fails edits w w') (start : ∃ t, w.tenant = some t ∧ P t w) :
    ∃ t', w'.tenant = some t' ∧ P t' w' := by
  induction run with
  | refl => exact start
  | tail _ step ih =>
    obtain ⟨t, ht, hP⟩ := ih
    cases step with
    | pass stored goes =>
      obtain rfl := Option.some.inj (ht.symm.trans stored)
      exact pass (pass_of_goes hk stored goes) hP
    | edit stored edited =>
      obtain rfl := Option.some.inj (ht.symm.trans stored)
      exact ⟨_, rfl, edit edited hP⟩

/-- What is known of the hardware of a tenant that is not to be deleted: always `Mid`, of what is declared
and what was applied, and `Done`, of what was applied, unless a deployment is under way. -/
def TracksHardware (Mid : List Resource → List Resource → World → Prop)
    (Done : List Resource → World → Prop) (t : Tenant) (w : World) : Prop :=
  t.deletionRequested = false →
    Mid t.spec.resources t.recorded.resources w ∧ (t.phase ≠ .deploying → Done t.recorded.resources w)

/-- Every pass leaves this true if a deploy pass leaves `Mid` true wherever it ends, and `Done` true of
what it applied where it comes through. -/
theorem tracksHardware_of_pass {Mid : List Resource → List Resource → World → Prop}
    {Done : List Resource → World → Prop} {fresh : Fresh} {t : Tenant}
    {tr : List (Moment Services World)} (hk : kept .hardware)
    (mid_same : ∀ {ds rs w w'}, w'.collections = w.collections → Mid ds rs w → Mid ds rs w')
    (done_same : ∀ {rs w w'}, w'.collections = w.collections → Done rs w → Done rs w')
    (begun : ∀ {recorded w tr o w'}, (prepare settings fresh t recorded).Goes (conduct kept fails) w tr o w' →
      Mid t.spec.resources t.recorded.resources w → Mid t.spec.resources t.recorded.resources w')
    (through : ∀ {recorded keys w tr w'},
      (prepare settings fresh t recorded).Goes (conduct kept fails) w tr (.ok (some keys)) w' →
      Mid t.spec.resources t.recorded.resources w →
      Mid t.spec.resources t.spec.resources w' ∧ Done t.spec.resources w')
    (h : Pass kept fails settings fresh t w tr w') (hw : TracksHardware Mid Done t w) :
    ∃ t', w'.tenant = some t' ∧ TracksHardware Mid Done t' w' := by
  cases h with
  | idle _ phase stored others =>
    obtain ⟨t', ht', ⟨tended, _⟩, hrec⟩ := stored
    have hw' : w'.collections = w.collections := others _ hk nofun
    have hphase : t'.phase = t.phase := by rw [Tenant.phase, hrec]; exact phase
    refine ⟨t', ht', fun alive => ?_⟩
    obtain ⟨mid, done⟩ := hw (tended.deletionRequested ▸ alive)
    rw [tended.resources, hphase, hrec]
    exact ⟨mid_same hw' mid, fun hp => done_same hw' (done hp)⟩
  | interrupted _ alive _ first middle last stored =>
    obtain ⟨t', ht', ⟨tended, _⟩, hrec⟩ := stored
    have hphase : t'.phase = .deploying := by rw [Tenant.phase, hrec]; rfl
    have mid := begun middle (mid_same (first _ hk nofun) (hw alive).1)
    refine ⟨t', ht', fun _ => ⟨?_, fun hp => absurd hphase hp⟩⟩
    rw [tended.resources, hrec]
    exact mid_same (last _ hk nofun) mid
  | deployed _ alive _ first middle last stored =>
    obtain ⟨t', ht', ⟨tended, _⟩, hrec⟩ := stored
    have hw' := last _ hk nofun
    obtain ⟨mid, done⟩ := through middle (mid_same (first _ hk nofun) (hw alive).1)
    refine ⟨t', ht', fun _ => ?_⟩
    rw [tended.resources, hrec]
    exact ⟨mid_same hw' mid, fun _ => done_same hw' done⟩
  | uncleared _ requested _ _ _ _ stored =>
    obtain ⟨t', ht', ⟨tended, _⟩, _⟩ := stored
    refine ⟨t', ht', fun alive => ?_⟩
    rw [tended.deletionRequested, requested] at alive
    cases alive
  | released _ requested _ _ _ _ _ stored tended _ =>
    refine ⟨_, stored, fun alive => ?_⟩
    rw [tended.deletionRequested, requested] at alive
    cases alive

end Lifecycle

namespace Rehearsal.Stage

open Lifecycle

variable {settings : Settings} {kept : BackingSystem → Prop} {fails : Call → Error → Prop}
  {edits : Tenant → Tenant → Prop}

/-! ## Runs on stages -/

theorem run_pass {s : Stage} (hs : s.Plain fails) (fresh : Fresh) :
    Run settings kept fails edits s.world (s.pass settings fresh).world := by
  unfold pass
  split
  · exact .refl
  · next t ht => exact .single (.pass ht (goes_perform hs _))

theorem run_edit {s : Stage} {f : Tenant → Tenant} (h : ∀ t, edits t (f t)) :
    Run settings kept fails edits s.world (s.edit f).world := by
  unfold edit
  split
  · exact .refl
  · next t ht => exact .single (.edit ht (h t))

def firstPass (spec : Spec) (lines : List String) : Stage := (start spec lines).pass {} ⟨"1", "now"⟩

theorem plain_firstPass (spec : Spec) (lines : List String) :
    (firstPass spec lines).Plain Call.Unreachable := plain_pass (plain_start spec lines) _

theorem run_firstPass (spec : Spec) (lines : List String) :
    Run {} kept Call.Unreachable edits (start spec lines).world (firstPass spec lines).world :=
  run_pass (plain_start spec lines) _

/-- The deletion of the tenant is requested, and the next pass takes it down. -/
def takenDown (s : Stage) : Stage := (s.edit (·.requestDeletion ⟨0, false⟩)).pass {} ⟨"2", "now"⟩

theorem run_takenDown {s : Stage} (hs : s.Plain fails) {t : Tenant} (stored : s.world.tenant = some t) :
    Run {} kept fails edits
      { s.world with tenant := some (bump (t.requestDeletion ⟨0, false⟩)) } s.takenDown.world := by
  rw [← edit_world stored (·.requestDeletion ⟨0, false⟩)]
  exact run_pass (plain_edit hs _) _

end Rehearsal.Stage

end Tenancy

import Tenancy.Lifecycle.Reconcile
import Tenancy.Proofs.Steady
import Tenancy.Rehearsal.Faults

/-!
# Stages as ways to go

On a stage whose faults are plain failures every system does what it does in the world in memory or
fails without an effect. So the run of a job on such a stage is one of the ways in which the job can go
(`goes_perform`), whichever systems are relied on, and a fact about all ways to go can be looked at in a
single run.
-/

namespace Tenancy.Rehearsal

open World

namespace Stage

variable {fails : Call → Error → Prop}

/-- Every fault of the stage makes calls fail without an effect, and with an error that any call may
fail with. -/
def Plain (fails : Call → Error → Prop) (s : Stage) : Prop :=
  ∀ f ∈ s.faults, ∃ e, f.mode = .before e ∧ ∀ c, fails c e

theorem Plain.mono {fails' : Call → Error → Prop} {s : Stage} (h : ∀ c e, fails c e → fails' c e)
    (hs : s.Plain fails) : s.Plain fails' := by
  intro f hf
  obtain ⟨e, he, hfails⟩ := hs f hf
  exact ⟨e, he, fun c => h c e (hfails c)⟩

/-- What a script says of a line is what one of its faults does, and the script keeps to these. -/
theorem pick_cases (line : String) (fs : List Fault) :
    (∀ m, (Fault.pick line fs).1 = some m → ∃ f ∈ fs, f.mode = m) ∧
      ∀ f ∈ (Fault.pick line fs).2, ∃ f' ∈ fs, f'.mode = f.mode := by
  induction fs with
  | nil => exact ⟨by simp [Fault.pick], by simp [Fault.pick]⟩
  | cons f rest ih =>
    obtain ⟨hmode, hrest⟩ := ih
    by_cases ha : f.applies line = true
    · simp only [Fault.pick, if_pos ha]
      refine ⟨fun m hm => ⟨f, by simp, Option.some.inj hm⟩, fun g hg => ?_⟩
      rcases List.mem_cons.1 hg with rfl | hg
      · exact ⟨f, by simp, rfl⟩
      · exact ⟨g, by simp [hg], rfl⟩
    · simp only [Fault.pick, if_neg ha]
      refine ⟨fun m hm => ?_, fun g hg => ?_⟩
      · obtain ⟨f', hf', hm'⟩ := hmode m hm
        exact ⟨f', by simp [hf'], hm'⟩
      · rcases List.mem_cons.1 hg with rfl | hg
        · exact ⟨g, by simp, rfl⟩
        · obtain ⟨f', hf', hm'⟩ := hrest g hg
          exact ⟨f', by simp [hf'], hm'⟩

theorem plain_answer {s : Stage} (hs : s.Plain fails) (c : Call) : (s.answer c).2.Plain fails := by
  intro f hf
  have hf : f ∈ (Fault.pick c.label s.faults).2 := by
    unfold answer at hf
    rcases hp : (Fault.pick c.label s.faults).1 with _ | m
    · simpa only [hp] using hf
    · cases m <;> simpa only [hp] using hf
  obtain ⟨f', hf', hm⟩ := (pick_cases c.label s.faults).2 f hf
  obtain ⟨e, he, hfails⟩ := hs f' hf'
  exact ⟨e, hm ▸ he, hfails⟩

/-- A call on a plain stage is answered as in a steady world that has the faults for failures. -/
theorem steady_answer {s : Stage} (hs : s.Plain fails) (c : Call) :
    steady fails c s.world (s.answer c).1 (s.answer c).2.world := by
  unfold answer
  rcases hp : (Fault.pick c.label s.faults).1 with _ | m
  · refine .inl ?_
    simp only [hp]
    rfl
  · obtain ⟨f, hf, hm⟩ := (pick_cases c.label s.faults).1 m hp
    obtain ⟨e, he, hfails⟩ := hs f hf
    obtain rfl : m = .before e := hm.symm.trans he
    refine .inr ⟨e, hfails c, ?_, ?_⟩
    · simp only [hp]
      rfl
    · simp only [hp]

/-- What is asked and answered when a job is performed on a stage. -/
def story {α : Type} (t : Job α) (s : Stage) : List (Moment Services World) :=
  Dialogue.story (I := Services) answer world t.run s

theorem steady_perform {α : Type} {s : Stage} (hs : s.Plain fails) (t : Job α) :
    t.Goes (steady fails) s.world (story t s) (perform t s).1 (perform t s).2.world :=
  Dialogue.goes_run (I := Services) (P := Plain fails)
    (fun c _ ht => ⟨steady_answer ht c, plain_answer ht c⟩) t.run hs

/-- A run on a stage without faults is one of the ways in which the job can go when no call fails. -/
theorem goes_undisturbed {α : Type} (w : World) (t : Job α) :
    t.Goes (steady fails) w (story t { world := w }) (perform t { world := w }).1
      (perform t { world := w }).2.world :=
  steady_perform (s := { world := w }) (fun f hf => by cases hf) t

theorem plain_perform {α : Type} {s : Stage} (hs : s.Plain fails) (t : Job α) :
    (perform t s).2.Plain fails :=
  Dialogue.run_kept (I := Services) (P := Plain fails) (fun c _ h => plain_answer h c) _ hs

/-- A run on a plain stage is one of the ways in which the job can go. -/
theorem goes_perform {α : Type} {kept : BackingSystem → Prop} {s : Stage} (hs : s.Plain fails)
    (t : Job α) :
    t.Goes (conduct kept fails) s.world (story t s) (perform t s).1 (perform t s).2.world :=
  (steady_perform hs t).weaken fun _ _ _ _ => conduct_of_steady

/-! ## Passes and edits -/

def tenant (s : Stage) : Tenant := s.world.tenant.getD default

def pass (settings : Lifecycle.Settings) (fresh : Lifecycle.Fresh) (s : Stage) : Stage :=
  match s.world.tenant with
  | none => s
  | some t => (perform (Lifecycle.reconcile settings fresh t) s).2

def passStory (settings : Lifecycle.Settings) (fresh : Lifecycle.Fresh) (s : Stage) :
    List (Moment Services World) := story (Lifecycle.reconcile settings fresh s.tenant) s

theorem steady_pass {s : Stage} (hs : s.Plain fails) {settings : Lifecycle.Settings}
    {fresh : Lifecycle.Fresh} (stored : s.world.tenant = some s.tenant) :
    (Lifecycle.reconcile settings fresh s.tenant).Goes (steady fails) s.world
      (s.passStory settings fresh) (perform (Lifecycle.reconcile settings fresh s.tenant) s).1
      (s.pass settings fresh).world := by
  have hpass : s.pass settings fresh = (perform (Lifecycle.reconcile settings fresh s.tenant) s).2 := by
    unfold pass
    rw [stored]
  rw [hpass]
  exact steady_perform hs _

theorem goes_pass {kept : BackingSystem → Prop} {s : Stage} (hs : s.Plain fails)
    {settings : Lifecycle.Settings} {fresh : Lifecycle.Fresh} (stored : s.world.tenant = some s.tenant) :
    (Lifecycle.reconcile settings fresh s.tenant).Goes (conduct kept fails) s.world
      (s.passStory settings fresh) (perform (Lifecycle.reconcile settings fresh s.tenant) s).1
      (s.pass settings fresh).world :=
  (steady_pass hs stored).weaken fun _ _ _ _ => conduct_of_steady

def edit (f : Tenant → Tenant) (s : Stage) : Stage :=
  match s.world.tenant with
  | none => s
  | some t => { s with world := { s.world with tenant := some (bump (f t)) } }

theorem edit_world {s : Stage} {t : Tenant} (h : s.world.tenant = some t) (f : Tenant → Tenant) :
    (s.edit f).world = { s.world with tenant := some (bump (f t)) } := by
  simp only [edit, h]

theorem plain_pass {settings : Lifecycle.Settings} {s : Stage} (hs : s.Plain fails) (fresh : Lifecycle.Fresh) :
    (s.pass settings fresh).Plain fails := by
  unfold pass
  split
  · exact hs
  · exact plain_perform hs _

theorem plain_edit {s : Stage} (hs : s.Plain fails) (f : Tenant → Tenant) : (s.edit f).Plain fails := by
  unfold edit
  split
  · exact hs
  · exact hs

/-! ## Where runs start -/

/-- A tenant to which nothing has happened but that the finalizer was attached. -/
def newTenant (spec : Spec) : Tenant where
  metadata := {
    name := some spec.name
    space := some "tenants"
    finalizers := some [Lifecycle.tenantFinalizer] }
  spec := spec

/-- A system cannot be reached for the next call with this line. -/
def outage (line : String) : Fault where
  pattern := line
  mode := .before (.unavailable "peer" ("connection refused" : String))
  times := some 1

/-- A new tenant in a world in which nothing was made for it, and the calls that are to fail once. -/
def start (spec : Spec) (lines : List String) : Stage where
  world := { tenant := some (newTenant spec) }
  faults := lines.map outage

theorem plain_start (spec : Spec) (lines : List String) :
    (start spec lines).Plain Call.Unreachable := by
  intro f hf
  obtain ⟨line, _, rfl⟩ := List.mem_map.1 hf
  exact ⟨_, rfl, fun _ => ⟨_, _, rfl⟩⟩

/-- A tenant that declares one partition with these members. -/
def onePartition (members : List String) : Spec where
  name := "blue"
  resources := [{ label := "compute", members := members, partition := "p-blue" }]

/-- A new tenant with two nodes, the second of which cannot be added at first. -/
def halfFilled : Stage := start (onePartition ["x1", "x2"]) ["hsm.add partition p-blue x2"]

end Stage

end Tenancy.Rehearsal

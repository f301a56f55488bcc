import Mathlib.Data.List.Basic
import Mathlib.Logic.Function.Basic
import Mathlib.Logic.Relation
import Tenancy.Proofs.StoreWrites

/-!
# Writers side by side

Any number of errands, each to change the status of one tenant or to detach a finalizer from it, are run
side by side, and others write the tenant as well. A store gives every write a version that was never
given out before, and it refuses a write that was computed from another version than the one it keeps.
The errands take their steps in any order (`Advance`), and a write that is accepted stores the copy that
it was computed from with the change done to it; so an errand that wrote over a newer tenant would undo
what others did.

None does. `replay` does the changes of a history one after the other, each to the tenant that the one
before left, and `writes_in_order` says that this is what is stored at the end; that every errand has
written once if it succeeded and not at all otherwise; and that its change was computed from the tenant
that it replaced (`InOrder`). The proof has two parts. `Careful` is what a single errand keeps to,
whatever it is answered: it writes only what it computed from the copy that it read last. `Sound` is what
all steps keep: a copy that was read is the tenant that is stored, as long as their versions are the same.
-/

namespace Tenancy

/-- The tenant with another version. -/
def Tenant.stamped (t : Tenant) (v : String) : Tenant :=
  { t with metadata := { t.metadata with resourceVersion := some v } }

/-- The copy of a tenant that a guarded write was computed from. -/
def StoreCall.copy? : StoreCall → Option Tenant
  | .replaceStatus t _ | .addFinalizer t _ | .removeFinalizer t _ => some t
  | .get _ _ | .clearKeyUpdate _ => none

namespace Lifecycle

/-! ## Errands -/

/-- What is to be done to a tenant; each errand has a copy of it, of whatever age. -/
inductive Errand where
  | update (t : Tenant) (change : Status → Status)
  | release (t : Tenant) (finalizer : String)

/-- The rest of an errand: all ways in which it can go on. -/
abbrev Program := Dialogue Services (Except Error (Option Status))

namespace Errand

/-- The errand as a job; the result is the status that was written, if one was. -/
def job : Errand → Job (Option Status)
  | update t change => some <$> updateStatus t change
  | release t f => (fun _ => none) <$> releaseFinalizer t f

/-- The write that the errand computes from a copy. -/
def write : Errand → Tenant → StoreCall
  | update _ change, copy => .replaceStatus copy (change copy.recorded)
  | release _ f, copy => .removeFinalizer copy f

/-- The result of the errand once it has written. -/
def result : Errand → Tenant → Option Status
  | update _ change, copy => some (change copy.recorded)
  | release _ _, _ => none

def Idle : Errand → Option Tenant → Prop
  | update _ _, _ => False
  | release _ f, found => ∀ t, found = some t → t.hasFinalizer f = false

theorem release_write (t before : Tenant) (f : String) :
    (((release t f).write before).write before).metadata.finalizerList =
      before.metadata.finalizerList.filter (· ≠ f) := by
  show (before.metadata.finalizers.map _).getD [] = (before.metadata.finalizers.getD []).filter _
  cases before.metadata.finalizers <;> rfl

theorem hasFinalizer_write (t before : Tenant) (f : String) :
    (((release t f).write before).write before).hasFinalizer f = false := by
  rw [Tenant.hasFinalizer, release_write]
  simp

theorem copy?_write (e : Errand) (t : Tenant) : (e.write t).copy? = some t := by
  cases e <;> rfl

end Errand

/-- The program does the errand with care: `seen` is what it read last, if it has read; it writes only
what it computes from that, and then it is at its end. -/
inductive Careful (e : Errand) : Option (Option Tenant) → Program → Prop
  | failed {seen : Option (Option Tenant)} {err : Error} : Careful e seen (.done (.error err))
  | idle {found : Option Tenant} (nothing : e.Idle found) : Careful e (some found) (.done (.ok none))
  | look {seen : Option (Option Tenant)} {space name : String}
      {next : Except Error (Option Tenant) → Program}
      (found : ∀ x, Careful e (some x) (next (.ok x)))
      (refused : ∀ err, Careful e seen (next (.error err))) :
      Careful e seen (.ask (.store (.get space name)) next)
  | write {copy : Tenant} {c : StoreCall} {next : Except Error c.Reply → Program}
      (computed : c = e.write copy) (written : ∀ u, next (.ok u) = .done (.ok (e.result copy)))
      (refused : ∀ err, Careful e (some (some copy)) (next (.error err))) :
      Careful e (some (some copy)) (.ask (.store c) next)

namespace Careful

variable {e : Errand} {seen : Option (Option Tenant)}

theorem of_fails {q : Services.Query} {next : Services.Answer q → Program}
    (h : Careful e seen (.ask q next)) (err : Error) : Careful e seen (next (.error err)) := by
  cases h with
  | look _ refused => exact refused err
  | write _ _ refused => exact refused err

theorem of_looks {space name : String} {next : Except Error (Option Tenant) → Program}
    (h : Careful e seen (.ask (.store (.get space name)) next)) (x : Option Tenant) :
    Careful e (some x) (next (.ok x)) := by
  cases h with
  | look found _ => exact found x
  | write computed _ _ =>
    have hcopy := e.copy?_write ‹_›
    rw [← computed] at hcopy
    cases hcopy

theorem of_writes {c : StoreCall} {copy : Tenant} {next : Except Error c.Reply → Program}
    (h : Careful e seen (.ask (.store c) next)) (guarded : c.copy? = some copy) :
    seen = some (some copy) ∧ c = e.write copy ∧ ∀ u, next (.ok u) = .done (.ok (e.result copy)) := by
  cases h with
  | look _ _ => cases guarded
  | write computed written _ =>
    rw [computed, e.copy?_write] at guarded
    obtain rfl := Option.some.inj guarded
    exact ⟨rfl, computed, written⟩

end Careful

/-! ## The jobs are careful -/

/-- What may follow upon an attempt of an errand: the end if it came to a result, and anything careful if
it failed. -/
structure Follows {α : Type} (e : Errand) (out : α → Option Status) (k : Except Error α → Program) :
    Prop where
  ended : ∀ a, k (.ok a) = .done (.ok (out a))
  again : ∀ seen err, Careful e seen (k (.error err))

theorem careful_updateOnce {t : Tenant} {change : Status → Status} {space name : String}
    {k : Except Error Status → Program} (hk : Follows (.update t change) some k)
    (seen : Option (Option Tenant)) :
    Careful (.update t change) seen ((updateOnce space name change).run >>= k) := by
  refine .look (fun found => ?_) (hk.again seen)
  cases found with
  | none => exact hk.again _ _
  | some latest => exact .write rfl (fun _ => hk.ended _) (hk.again _)

theorem careful_releaseOnce {t : Tenant} {f : String} {space name : String}
    {k : Except Error Unit → Program} (hk : Follows (.release t f) (fun _ => none) k)
    (seen : Option (Option Tenant)) :
    Careful (.release t f) seen ((releaseOnce space name f).run >>= k) := by
  have idle {found : Option Tenant} (h : ∀ t, found = some t → t.hasFinalizer f = false) :
      Careful (.release t f) (some found) (k (.ok ())) := by
    rw [hk.ended]
    exact .idle h
  refine .look (fun found => ?_) (hk.again seen)
  cases found with
  | none => exact idle fun t h => by cases h
  | some latest =>
    show Careful _ _ ((if latest.hasFinalizer f then removeFinalizer latest f else pure ()).run >>= k)
    split
    · exact .write rfl (fun _ => hk.ended _) (hk.again _)
    · next unheld => exact idle fun t h => by cases h; simpa using unheld

theorem careful_attempts {α : Type} {e : Errand} {out : α → Option Status} {b : Backoff}
    {retries : Error → Bool} {once : Dialogue Services (Except Error α)}
    (careful : ∀ k, Follows e out k → ∀ seen, Careful e seen (once >>= k))
    {k : Except Error α → Program} (hk : Follows e out k) (room n : Nat)
    (seen : Option (Option Tenant)) : Careful e seen (Retry.attempts b retries once room n >>= k) := by
  induction room generalizing n seen with
  | zero => exact careful k hk seen
  | succ room ih =>
    have follows : Follows e out fun r => (do
        if Retry.goesOn b retries n r then Retry.attempts b retries once room (n + 1) else pure r) >>= k := by
      refine ⟨hk.ended, fun seen err => ?_⟩
      split
      · exact ih (n + 1) seen
      · exact hk.again seen err
    rw [Retry.attempts, bind_assoc]
    exact careful _ follows seen

theorem careful_job (e : Errand) : Careful e none e.job.run := by
  cases e with
  | update t change =>
    refine careful_attempts (fun k hk => careful_updateOnce hk) ⟨fun _ => rfl, fun _ _ => ?_⟩ _ _ _
    exact .failed
  | release t f =>
    refine careful_attempts (fun k hk => careful_releaseOnce hk) ⟨fun _ => rfl, fun _ _ => ?_⟩ _ _ _
    exact .failed

/-! ## Errands side by side -/

variable {ι : Type}

/-- What happens to the tenant that errands are about, and what an errand learns of it. -/
inductive Happening (ι : Type) where
  /-- An errand reads the tenant. -/
  | looked (i : ι)
  /-- A guarded write of an errand is accepted, and the tenant gets this version. -/
  | wrote (i : ι) (c : StoreCall) (v : String)
  /-- Someone else writes the tenant, or deletes it. -/
  | other (t : Option Tenant)

namespace Happening

/-- The errand to which something happens. -/
def owner : Happening ι → Option ι
  | looked i | wrote i _ _ => some i
  | other _ => none

def IsWriteOf (i : ι) : Happening ι → Prop
  | wrote j _ _ => j = i
  | _ => False

/-- What becomes of the tenant that is there: a write does its change to this very tenant. -/
def apply : Happening ι → Option Tenant → Option Tenant
  | looked _, t => t
  | wrote _ c v, t => t.map fun t => (c.write t).stamped v
  | other t', _ => t'

theorem not_isWriteOf {h : Happening ι} {i : ι} (hi : h.owner ≠ some i) : ¬ h.IsWriteOf i := by
  cases h with
  | wrote j c v => exact fun hj => hi (congrArg some hj)
  | looked j => exact id
  | other t => exact id

end Happening

/-- What becomes of a tenant in a history, one happening after the other. -/
def replay (start : Option Tenant) (history : List (Happening ι)) : Option Tenant :=
  history.foldl (fun t h => h.apply t) start

theorem replay_concat (start : Option Tenant) (history : List (Happening ι)) (h : Happening ι) :
    replay start (history ++ [h]) = h.apply (replay start history) := by
  rw [replay, List.foldl_append]
  rfl

/-- Errands that are run side by side on a tenant. -/
structure Joint (ι : Type) where
  /-- The tenant that is stored. -/
  current : Option Tenant
  /-- The versions that were given out. -/
  given : List (Option String)
  /-- What is left to do of each errand. -/
  program : ι → Program
  /-- What has happened, the first first. -/
  history : List (Happening ι) := []

namespace Joint

def start (errands : ι → Errand) (t : Option Tenant) : Joint ι where
  current := t
  given := (t.map fun t => t.metadata.resourceVersion).toList
  program i := (errands i).job.run

/-- The copy was stored once, and it is what is stored unless the version is another one by now. -/
def Knows (J : Joint ι) (copy : Tenant) : Prop :=
  copy.metadata.resourceVersion ∈ J.given ∧
    ∀ t, J.current = some t → t.metadata.resourceVersion = copy.metadata.resourceVersion → t = copy

end Joint

variable [DecidableEq ι]

/-- One step of one errand, or of someone else. -/
inductive Advance : Joint ι → Joint ι → Prop
  /-- A call fails and has no effect. -/
  | fails {J : Joint ι} {i : ι} {q : Services.Query} {next : Services.Answer q → Program} (err : Error)
      (asks : J.program i = .ask q next) :
      Advance J { J with program := Function.update J.program i (next (.error err)) }
  /-- An errand reads the tenant. -/
  | looks {J : Joint ι} {i : ι} {space name : String} {next : Except Error (Option Tenant) → Program}
      (asks : J.program i = .ask (.store (.get space name)) next) :
      Advance J { J with
        program := Function.update J.program i (next (.ok J.current))
        history := J.history ++ [.looked i] }
  /-- A write is accepted that was computed from a copy with the version of the stored tenant. -/
  | writes {J : Joint ι} {i : ι} {c : StoreCall} {next : Except Error c.Reply → Program}
      {copy t : Tenant} {v : String} (asks : J.program i = .ask (.store c) next) (u : c.Reply)
      (guarded : c.copy? = some copy) (stored : J.current = some t)
      (same : copy.metadata.resourceVersion = t.metadata.resourceVersion)
      (fresh : some v ∉ J.given) :
      Advance J {
        current := some ((c.write copy).stamped v)
        given := some v :: J.given
        program := Function.update J.program i (next (.ok u))
        history := J.history ++ [.wrote i c v] }
  /-- Someone else writes the tenant, or deletes it. -/
  | others {J : Joint ι} (t : Option Tenant)
      (fresh : ∀ t', t = some t' → t'.metadata.resourceVersion ∉ J.given) :
      Advance J { J with
        current := t
        given := (t.map fun t => t.metadata.resourceVersion).toList ++ J.given
        history := J.history ++ [.other t] }

/-! ## What all steps keep -/

/-- How far an errand has come. -/
inductive Progress (e : Errand) (start : Option Tenant) (J : Joint ι) (i : ι) : Prop
  /-- It has not written; what it read last is what was stored then. -/
  | working {seen : Option (Option Tenant)} (careful : Careful e seen (J.program i))
      (unwritten : ∀ h ∈ J.history, ¬ h.IsWriteOf i)
      (looked : ∀ found, seen = some found → ∃ h₁ h₂, J.history = h₁ ++ .looked i :: h₂ ∧
        (∀ h ∈ h₂, h.owner ≠ some i) ∧ replay start h₁ = found)
      (known : ∀ copy, seen = some (some copy) → J.Knows copy)
  /-- It has written once what it computed from the tenant that it replaced, and is at its end. -/
  | written {h₁ h₂ : List (Happening ι)} {t : Tenant} {v : String}
      (split : J.history = h₁ ++ .wrote i (e.write t) v :: h₂)
      (before : ∀ h ∈ h₁, ¬ h.IsWriteOf i) (after : ∀ h ∈ h₂, h.owner ≠ some i)
      (replaced : replay start h₁ = some t) (ended : J.program i = .done (.ok (e.result t)))

/-- What is stored is what the history makes of the tenant at the start, its version was given out, and
every errand has kept to what it may do. -/
structure Sound (errands : ι → Errand) (start : Option Tenant) (J : Joint ι) : Prop where
  replayed : J.current = replay start J.history
  given : ∀ t, J.current = some t → t.metadata.resourceVersion ∈ J.given
  progress : ∀ i, Progress (errands i) start J i

variable {errands : ι → Errand} {e : Errand} {start : Option Tenant} {J J' : Joint ι} {i : ι}

omit [DecidableEq ι] in
theorem Joint.Knows.later {copy : Tenant} (h : J.Knows copy) (given : ∀ v ∈ J.given, v ∈ J'.given)
    (current : ∀ t, J'.current = some t → J.current = some t ∨ t.metadata.resourceVersion ∉ J.given) :
    J'.Knows copy := by
  refine ⟨given _ h.1, fun t ht same => ?_⟩
  rcases current t ht with ht | fresh
  · exact h.2 t ht same
  · rw [same] at fresh
    exact absurd h.1 fresh

omit [DecidableEq ι] in
/-- What happens to others leaves an errand as far as it has come. -/
theorem Progress.of_others (h : Progress e start J i) (program : J'.program i = J.program i)
    {more : List (Happening ι)} (history : J'.history = J.history ++ more)
    (others : ∀ h ∈ more, h.owner ≠ some i) (knows : ∀ copy, J.Knows copy → J'.Knows copy) :
    Progress e start J' i := by
  cases h with
  | working careful unwritten looked known =>
    refine .working (program ▸ careful) ?_ ?_ fun copy hc => knows copy (known copy hc)
    · rw [history]
      intro h hh
      rcases List.mem_append.1 hh with hh | hh
      · exact unwritten h hh
      · exact Happening.not_isWriteOf (others h hh)
    · intro found hf
      obtain ⟨h₁, h₂, split, later, replayed⟩ := looked found hf
      refine ⟨h₁, h₂ ++ more, by simp [history, split], fun h hh => ?_, replayed⟩
      exact (List.mem_append.1 hh).elim (later h) (others h)
  | @written h₁ h₂ t v split before after replaced ended =>
    have split' : J'.history = h₁ ++ .wrote i (e.write t) v :: (h₂ ++ more) := by
      rw [history, split, List.append_assoc]
      rfl
    refine .written split' before (fun h hh => ?_) replaced (program.trans ended)
    exact (List.mem_append.1 hh).elim (after h) (others h)

omit [DecidableEq ι] in
/-- An errand that is about to ask something has not written. -/
theorem Progress.of_asks {q : Services.Query} {next : Services.Answer q → Program}
    (h : Progress e start J i) (asks : J.program i = .ask q next) :
    ∃ seen, Careful e seen (.ask q next) ∧ (∀ h ∈ J.history, ¬ h.IsWriteOf i) ∧
      (∀ found, seen = some found → ∃ h₁ h₂, J.history = h₁ ++ .looked i :: h₂ ∧
        (∀ h ∈ h₂, h.owner ≠ some i) ∧ replay start h₁ = found) ∧
      ∀ copy, seen = some (some copy) → J.Knows copy := by
  cases h with
  | working careful unwritten looked known => exact ⟨_, asks ▸ careful, unwritten, looked, known⟩
  | written _ _ _ _ ended => cases asks.symm.trans ended

omit [DecidableEq ι] in
theorem sound_start (errands : ι → Errand) (t : Option Tenant) :
    Sound errands t (Joint.start errands t) := by
  refine ⟨rfl, fun t' ht' => ?_, fun i => ?_⟩
  · have ht' : t = some t' := ht'
    simp [Joint.start, ht']
  · exact .working (careful_job (errands i)) (fun h hh => by cases hh) (fun _ h => by cases h) fun _ h => by cases h

/-- Every step keeps the joint work sound. -/
theorem Sound.step (sound : Sound errands start J) (h : Advance J J') : Sound errands start J' := by
  cases h with
  | @fails i q next err asks =>
    refine ⟨sound.replayed, sound.given, fun j => ?_⟩
    by_cases hj : j = i
    · subst hj
      obtain ⟨seen, careful, unwritten, looked, known⟩ := (sound.progress j).of_asks asks
      refine .working (?_ : Careful _ seen _) unwritten looked known
      show Careful _ _ (Function.update J.program j (next (.error err)) j)
      rw [Function.update_self]
      exact careful.of_fails err
    · have nothing : ∀ h ∈ ([] : List (Happening ι)), h.owner ≠ some j := fun h hh => by cases hh
      exact (sound.progress j).of_others (Function.update_of_ne hj _ _) (List.append_nil _).symm nothing
        fun copy hc => hc
  | @looks i space name next asks =>
    refine ⟨?_, sound.given, fun j => ?_⟩
    · rw [replay_concat, ← sound.replayed]
      rfl
    by_cases hj : j = i
    · subst hj
      obtain ⟨seen, careful, unwritten, looked, known⟩ := (sound.progress j).of_asks asks
      refine .working (?_ : Careful _ (some J.current) _) ?_ ?_ ?_
      · show Careful _ _ (Function.update J.program j (next (.ok J.current)) j)
        rw [Function.update_self]
        exact careful.of_looks J.current
      · intro h hh
        rcases List.mem_append.1 hh with hh | hh
        · exact unwritten h hh
        · rw [List.mem_singleton.1 hh]
          exact id
      · rintro found hf
        exact ⟨J.history, [], rfl, by simp, sound.replayed.symm.trans (Option.some.inj hf)⟩
      · intro copy hc
        have hc : J.current = some copy := Option.some.inj hc
        exact ⟨sound.given copy hc, fun t ht _ => Option.some.inj (ht.symm.trans hc)⟩
    · refine (sound.progress j).of_others (Function.update_of_ne hj _ _) rfl ?_ fun copy hc => hc
      intro h hh
      rw [List.mem_singleton.1 hh]
      exact fun he => hj (Option.some.inj he).symm
  | @writes i c next copy t v asks u guarded stored same fresh =>
    obtain ⟨seen, careful, unwritten, looked, known⟩ := (sound.progress i).of_asks asks
    obtain ⟨rfl, rfl, ended⟩ := careful.of_writes guarded
    -- the copy has the version of the stored tenant, so it is the stored tenant
    obtain rfl : t = copy := (known copy rfl).2 t stored same.symm
    have replaced : replay start J.history = some t := sound.replayed.symm.trans stored
    refine ⟨?_, ?_, fun j => ?_⟩
    · rw [replay_concat, replaced]
      rfl
    · rintro t' ht'
      cases ht'
      exact List.mem_cons_self
    by_cases hj : j = i
    · subst hj
      refine .written rfl unwritten (by simp) replaced ?_
      exact (Function.update_self ..).trans (ended u)
    · refine (sound.progress j).of_others (Function.update_of_ne hj _ _) rfl ?_ fun copy hc => ?_
      · intro h hh
        rw [List.mem_singleton.1 hh]
        exact fun he => hj (Option.some.inj he).symm
      · refine hc.later (fun v hv => List.mem_cons_of_mem _ hv) fun t' ht' => .inr ?_
        cases ht'
        exact fresh
  | others t fresh =>
    refine ⟨by rw [replay_concat]; rfl, fun t' ht' => ?_, fun j => ?_⟩
    · have ht' : t = some t' := ht'
      simp [ht']
    · refine (sound.progress j).of_others rfl rfl ?_ fun copy hc => ?_
      · intro h hh
        rw [List.mem_singleton.1 hh]
        exact nofun
      · exact hc.later (fun v hv => List.mem_append_right _ hv) fun t' ht' => .inr (fresh t' ht')

theorem sound_of_advances {t : Option Tenant}
    (h : Relation.ReflTransGen Advance (Joint.start errands t) J) : Sound errands t J := by
  induction h with
  | refl => exact sound_start errands t
  | tail _ step ih => exact ih.step step

/-! ## All writes are kept -/

namespace Progress

omit [DecidableEq ι]

/-- What an errand wrote is what it computed from the tenant that it replaced, and it wrote only once. -/
theorem of_wrote (h : Progress e start J i) {h₁ h₂ : List (Happening ι)} {c : StoreCall} {v : String}
    (split : J.history = h₁ ++ .wrote i c v :: h₂) :
    (∀ h ∈ h₁ ++ h₂, ¬ h.IsWriteOf i) ∧ ∃ t, replay start h₁ = some t ∧ c = e.write t ∧
      J.program i = .done (.ok (e.result t)) := by
  cases h with
  | working _ unwritten _ _ => exact absurd rfl (unwritten (.wrote i c v) (by simp [split]))
  | @written g₁ g₂ t v' split' before after replaced ended =>
    have unwritten : ∀ h ∈ g₂, ¬ h.IsWriteOf i := fun h hh => Happening.not_isWriteOf (after h hh)
    -- both splits are at the one write of the errand
    have first : Happening.wrote i c v ∉ g₁ := fun hm => before _ hm (Eq.refl i)
    have last : Happening.wrote i c v ∉ g₂ := fun hm => unwritten _ hm (Eq.refl i)
    obtain ⟨rfl, same, rfl⟩ := (List.append_cons_inj_of_notMem first last).1 (split'.symm.trans split)
    obtain ⟨-, rfl, -⟩ := Happening.wrote.inj same
    refine ⟨fun h hh => ?_, t, replaced, rfl, ended⟩
    exact (List.mem_append.1 hh).elim (before h) (unwritten h)

theorem of_failed (h : Progress e start J i) {err : Error} (failed : J.program i = .done (.error err)) :
    ∀ h ∈ J.history, ¬ h.IsWriteOf i := by
  cases h with
  | working _ unwritten _ _ => exact unwritten
  | written _ _ _ _ ended => cases failed.symm.trans ended

/-- What an errand that succeeded did last: it wrote, or it read and found nothing to do. -/
theorem of_done (h : Progress e start J i) {o : Option Status} (done : J.program i = .done (.ok o)) :
    (∃ h₁ v h₂ t, J.history = h₁ ++ .wrote i (e.write t) v :: h₂ ∧ (∀ h ∈ h₂, h.owner ≠ some i) ∧
        replay start h₁ = some t ∧ o = e.result t) ∨
      ∃ h₁ h₂, J.history = h₁ ++ .looked i :: h₂ ∧ (∀ h ∈ h₂, h.owner ≠ some i) ∧
        e.Idle (replay start h₁) ∧ o = none := by
  cases h with
  | working careful _ looked _ =>
    rw [done] at careful
    cases careful with
    | idle nothing =>
      obtain ⟨h₁, h₂, split, later, rfl⟩ := looked _ rfl
      exact .inr ⟨h₁, h₂, split, later, nothing, rfl⟩
  | written split _ after replaced ended =>
    have same := ended.symm.trans done
    obtain rfl := Except.ok.inj (Dialogue.done.inj same)
    exact .inl ⟨_, _, _, _, split, after, replaced, rfl⟩

end Progress

omit [DecidableEq ι] in
theorem replay_wrote {h₁ : List (Happening ι)} {c : StoreCall} {v : String} {t : Tenant}
    (replaced : replay start h₁ = some t) :
    replay start (h₁ ++ [.wrote i c v]) = some ((c.write t).stamped v) := by
  rw [replay_concat, replaced]
  rfl

/-- What errands that are run side by side come to. -/
structure InOrder (errands : ι → Errand) (start : Option Tenant) (J : Joint ι) : Prop where
  /-- What is stored is what the accepted writes made, one after the other, each of what was there. -/
  replayed : J.current = replay start J.history
  /-- An errand writes at most once; it writes what it computes from the tenant that is replaced, and has
  succeeded then. -/
  once : ∀ i h₁ c v h₂, J.history = h₁ ++ .wrote i c v :: h₂ →
    (∀ h ∈ h₁ ++ h₂, ¬ h.IsWriteOf i) ∧ ∃ before, replay start h₁ = some before ∧
      c = (errands i).write before ∧ J.program i = .done (.ok ((errands i).result before))
  /-- An errand that failed has not written. -/
  failed : ∀ i err, J.program i = .done (.error err) → ∀ h ∈ J.history, ¬ h.IsWriteOf i
  /-- A change of the status that succeeded was made to the status that was replaced, and the result is
  the status that was written. -/
  updated : ∀ i t change o, errands i = .update t change → J.program i = .done (.ok o) →
    ∃ h₁ c v h₂ before after, J.history = h₁ ++ .wrote i c v :: h₂ ∧ replay start h₁ = some before ∧
      replay start (h₁ ++ [.wrote i c v]) = some after ∧
      after = ({ before with status := some (change before.recorded) } : Tenant).stamped v ∧
      o = some (change before.recorded)
  /-- Detaching a finalizer takes away this one, and nothing else but the version is different. -/
  detached : ∀ i t f, errands i = .release t f → ∀ h₁ c v h₂, J.history = h₁ ++ .wrote i c v :: h₂ →
    ∃ before after, replay start h₁ = some before ∧
      replay start (h₁ ++ [.wrote i c v]) = some after ∧
      after.metadata.finalizerList = before.metadata.finalizerList.filter (· ≠ f) ∧
      after = ({ before with metadata := { before.metadata with
        finalizers := after.metadata.finalizers } } : Tenant).stamped v
  /-- If that succeeded, the finalizer was not there after the last that the errand read or wrote. -/
  released : ∀ i t f o, errands i = .release t f → J.program i = .done (.ok o) →
    ∃ h₁ h h₂, J.history = h₁ ++ h :: h₂ ∧ h.owner = some i ∧ (∀ h ∈ h₂, h.owner ≠ some i) ∧
      ∀ after, replay start (h₁ ++ [h]) = some after → after.hasFinalizer f = false

/-- Errands side by side never lose what was written. -/
theorem writes_in_order {t : Option Tenant}
    (run : Relation.ReflTransGen Advance (Joint.start errands t) J) : InOrder errands t J := by
  have sound := sound_of_advances run
  constructor
  case replayed => exact sound.replayed
  case once =>
    intro i h₁ c v h₂ split
    obtain ⟨only, before, replaced, computed, ended⟩ := (sound.progress i).of_wrote split
    exact ⟨only, before, replaced, computed, ended⟩
  case failed =>
    intro i err failed
    exact (sound.progress i).of_failed failed
  case updated =>
    intro i t' change o he done
    have progress := he ▸ sound.progress i
    rcases progress.of_done done with ⟨h₁, v, h₂, before, split, _, replaced, rfl⟩ | ⟨_, _, _, _, idle, _⟩
    · exact ⟨h₁, _, v, h₂, before, _, split, replaced, replay_wrote replaced, rfl, rfl⟩
    · exact idle.elim
  case detached =>
    intro i t' f he h₁ c v h₂ split
    have progress := he ▸ sound.progress i
    obtain ⟨_, before, replaced, rfl, _⟩ := progress.of_wrote split
    exact ⟨before, _, replaced, replay_wrote replaced, Errand.release_write t' before f, rfl⟩
  case released =>
    intro i t' f o he done
    have progress := he ▸ sound.progress i
    rcases progress.of_done done with
      ⟨h₁, v, h₂, before, split, later, replaced, _⟩ | ⟨h₁, h₂, split, later, idle, _⟩
    · refine ⟨h₁, _, h₂, split, rfl, later, fun after ha => ?_⟩
      rw [replay_wrote replaced] at ha
      obtain rfl := Option.some.inj ha
      exact Errand.hasFinalizer_write t' before f
    · refine ⟨h₁, _, h₂, split, rfl, later, fun after ha => ?_⟩
      rw [replay_concat] at ha
      exact idle after ha

/-- A tenant with two finalizers. -/
def held : Tenant where
  metadata := { name := some "blue", finalizers := some ["ours", "theirs"], resourceVersion := some "1" }
  spec := { name := "blue" }

/-- The tenant after it got its identifier. -/
def identified : Tenant := ({ held with status := some { uuid := some "u" } } : Tenant).stamped "2"

/-- One errand gives the tenant its identifier, the other one detaches a finalizer. -/
def contested : Bool → Errand
  | false => .update held fun s => { s with uuid := some "u" }
  | true => .release held "ours"

/-- The second errand reads the tenant before the first one writes; it is refused, reads again, and
writes. -/
theorem contested_in_order :
    ∃ J, Relation.ReflTransGen Advance (Joint.start contested (some held)) J ∧
      J.history.map Happening.owner = [some true, some false, some false, some true, some true] ∧
      J.current.map (fun t => (t.recorded.uuid, t.metadata.finalizerList)) =
        some (some "u", ["theirs"]) ∧
      InOrder contested (some held) J := by
  have run := Relation.ReflTransGen.refl (r := Advance) (a := Joint.start contested (some held))
    |>.tail (Advance.looks (i := true) rfl)
    |>.tail (Advance.looks (i := false) rfl)
    |>.tail (Advance.writes (i := false) (c := (contested false).write held) (v := "2") rfl () rfl rfl rfl
      (by decide))
    |>.tail (Advance.fails (i := true) (.refused ⟨"Failure", "modified", "Conflict", 409⟩) rfl)
    |>.tail (Advance.looks (i := true) rfl)
    |>.tail (Advance.writes (i := true) (c := (contested true).write identified) (v := "3") rfl () rfl rfl
      rfl (by decide))
  exact ⟨_, run, rfl, rfl, writes_in_order run⟩

end Lifecycle

end Tenancy

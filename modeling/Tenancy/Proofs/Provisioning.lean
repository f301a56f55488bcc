import Tenancy.Proofs.Domains
import Tenancy.Proofs.Stages

/-!
# Domains that are made whole

Making a domain is three writes, and when one of them fails those before it are taken back. Taking back can
fail too, and that is passed over. So after a call that failed the engine can be mounted without the role
that gives its use to anyone, and every later call finds the mount, takes the domain for made, and never
writes the role.

`MakingGoes` has the two ways in which making can go, with all calls and with what is in the engine
afterwards; `provisionFrom_goes` follows the recursion and carries along what was made before. The invariant
of all calls has two sides: until taking back the mount has failed once the domain is whole or the mount is
absent (`Sound`), and from then on the mount is there without the role (`Orphaned`). `domain_whole_iff` puts
the two together.
-/

namespace Tenancy.Encryption

open Rehearsal Rehearsal.World

variable {kept : BackingSystem → Prop} {fails : Call → Error → Prop} {w w' w₀ : World}
  {tr tr₀ : List (Moment Services World)} {tenant uuid d : String}

/-! ## Paths of one domain -/

/-- No path of a key in a domain is one of the domain itself. -/
theorem keyPath_not_mem_own (d k : String) : keyPath d k ∉ domainPaths d := by
  -- the domain stands once in either path, and the rest of a key's path has letters that the rest of
  -- the other does not have
  have differ (c : Char) (a : String) (ha : a.toList.count c < "/keys/".toList.count c) :
      keyPath d k ≠ a ++ d := by
    intro h
    have hc := congrArg (fun s => s.toList.count c) h
    simp only [keyPath, String.toList_append, List.count_append] at hc
    omega
  intro hmem
  simp only [domainPaths, List.mem_cons, List.not_mem_nil, or_false] at hmem
  rcases hmem with h | h | h
  · exact differ 'k' "sys/mounts/" (by decide) h
  · rw [policyPath, policyName, ← String.append_assoc] at h
    exact differ 'k' _ (by decide) h
  · exact differ 'y' "auth/kubernetes/role/" (by decide) h

theorem nodup_domainPaths (d : String) : (domainPaths d).Nodup := by
  have differ (c : Char) (a b : String) (h : a.toList.count c ≠ b.toList.count c) :
      a ++ d ≠ b ++ d := by
    intro he
    have hc := congrArg (fun s => s.toList.count c) he
    simp only [String.toList_append, List.count_append] at hc
    omega
  have policy : policyPath d = "sys/policy/allow_" ++ d := by
    rw [policyPath, policyName, ← String.append_assoc]
    rfl
  simp only [domainPaths, List.nodup_cons, List.mem_cons, List.not_mem_nil, or_false, not_or,
    not_false_eq_true, List.nodup_nil, and_true]
  rw [policy]
  exact ⟨⟨differ 'm' _ _ (by decide), differ 'm' _ _ (by decide)⟩, differ 'k' _ _ (by decide)⟩

/-! ## Taking back -/

/-- The deletion of a path failed at this moment. -/
def failsToDelete {σ : Type} (path : String) (m : Moment Services σ) : Bool :=
  match m with
  | ⟨_, .vault (.delete p), .error _⟩ => p == path
  | _ => false

/-- The deletion of a path failed at some moment. -/
def DeletionFailed {σ : Type} (path : String) (tr : List (Moment Services σ)) : Prop :=
  tr.any (failsToDelete path) = true

instance {σ : Type} (path : String) (tr : List (Moment Services σ)) : Decidable (DeletionFailed path tr) :=
  inferInstanceAs (Decidable (_ = true))

theorem not_deletionFailed_nil {σ : Type} (path : String) :
    ¬ DeletionFailed path ([] : List (Moment Services σ)) := by
  simp [DeletionFailed]

theorem deletionFailed_append {σ : Type} {path : String} {tr tr' : List (Moment Services σ)} :
    DeletionFailed path (tr ++ tr') ↔ DeletionFailed path tr ∨ DeletionFailed path tr' := by
  simp [DeletionFailed]

/-- A call that deletes nothing. -/
def Spares (c : Call) : Prop := ∀ p, c ≠ .vault (.delete p)

theorem mem_calls_of_deletionFailed {σ : Type} {path : String} {tr : List (Moment Services σ)}
    (h : DeletionFailed path tr) : .vault (.delete path) ∈ tr.map Moment.call := by
  obtain ⟨m, hm, failed⟩ := List.any_eq_true.1 h
  refine List.mem_map.2 ⟨m, hm, ?_⟩
  unfold failsToDelete at failed
  split at failed
  · next p _ =>
    obtain rfl : p = path := by simpa using failed
    rfl
  · cases failed

theorem not_deletionFailed_of_asks {α σ : Type} {R : Conduct Services σ} {j : Job α} {s s' : σ}
    {tr : List (Moment Services σ)} {o : Except Error α} (h : j.Goes R s tr o s') (hj : j.Asks Spares)
    (path : String) : ¬ DeletionFailed path tr := by
  intro failed
  obtain ⟨m, hm, deletes⟩ := List.mem_map.1 (mem_calls_of_deletionFailed failed)
  exact Dialogue.Goes.asks h hj m hm path deletes

theorem deletionFailed_delete {σ : Type} {s : σ} {p path : String} {r : Except Error Unit} :
    DeletionFailed p [(⟨s, Call.vault (.delete path), r⟩ : Moment Services σ)] ↔
      p = path ∧ ∃ e, r = .error e := by
  cases r with
  | ok u => simp [DeletionFailed, failsToDelete]
  | error e =>
    have : path = p ↔ p = path := ⟨Eq.symm, Eq.symm⟩
    simp [DeletionFailed, failsToDelete, this]

/-- The paths are deleted one after the other, and then all are gone but those whose deletion failed. -/
theorem rollBack_goes (hk : kept .vault) {made : List String} (nodup : made.Nodup) {o : Except Error Unit}
    (h : (rollBack made).Goes (conduct kept fails) w tr o w') :
    o = .ok () ∧ tr.map Moment.call = made.map (fun p => .vault (.delete p)) ∧
      w'.vault = (made.filter fun p => ¬ DeletionFailed p tr).foldl Dict.erase w.vault := by
  induction made generalizing w tr with
  | nil =>
    obtain ⟨rfl, rfl, rfl⟩ := Job.goes_pure h
    exact ⟨rfl, rfl, rfl⟩
  | cons path made ih =>
    obtain ⟨unlike, nodup⟩ := List.nodup_cons.1 nodup
    rcases Job.goes_bind h with ⟨e, _, first⟩ | ⟨_, w₁, tr₁, tr₂, first, rest, rfl⟩
    · obtain ⟨_, first, ho⟩ := Job.goes_discard first
      obtain ⟨_, rfl, _⟩ := Job.goes_outcome first
      cases ho
    · obtain ⟨_, first, _⟩ := Job.goes_discard first
      obtain ⟨r, _, first⟩ := Job.goes_outcome first
      obtain ⟨answered, deletion⟩ := Job.goes_call first
      obtain ⟨rfl, later, left⟩ := ih nodup rest
      have calls : (tr₁ ++ tr₂).map Moment.call = (path :: made).map fun p => .vault (.delete p) := by
        rw [deletion]
        exact congrArg (_ :: ·) later
      refine ⟨rfl, calls, ?_⟩
      have once : ¬ DeletionFailed path tr₂ := fun again => by
        have deletes := mem_calls_of_deletionFailed again
        rw [later] at deletes
        obtain ⟨p, hp, same⟩ := List.mem_map.1 deletes
        cases same
        exact unlike hp
      have own : DeletionFailed path (tr₁ ++ tr₂) ↔ ∃ e, r = .error e := by
        rw [deletionFailed_append, deletion, deletionFailed_delete, or_iff_left once, eq_self, true_and]
      have others : made.filter (fun p => ¬ DeletionFailed p (tr₁ ++ tr₂)) =
          made.filter fun p => ¬ DeletionFailed p tr₂ := by
        refine List.filter_congr fun p hp => decide_eq_decide.2 (not_congr ?_)
        have apart : ¬ (p = path ∧ ∃ e, r = .error e) := fun ⟨same, _⟩ => unlike (same ▸ hp)
        rw [deletionFailed_append, deletion, deletionFailed_delete, or_iff_right apart]
      rw [List.filter_cons, others, left]
      rcases delete_erases hk answered with ⟨rfl, erased⟩ | ⟨e, rfl, same, _⟩
      · rw [if_pos (decide_eq_true (mt own.1 nofun)), erased]
        rfl
      · rw [if_neg (mt of_decide_eq_true (not_not_intro (own.2 ⟨e, rfl⟩))), same]

/-! ## Making -/

/-- The call that makes a step. -/
def Step.write (s : Step) : Call := .vault (.write s.path s.body)

/-- The call that takes a step back. -/
def Step.undo (s : Step) : Call := .vault (.delete s.path)

/-- What is kept when steps are made. -/
def keepSteps (vault : Dict Json) (made : List Step) : Dict Json :=
  made.foldl (fun v s => v.insert s.path (World.kept s.path s.body)) vault

theorem contains_keepSteps {vault : Dict Json} {made : List Step} {q : String} :
    (keepSteps vault made).contains q = true ↔ q ∈ made.map Step.path ∨ vault.contains q = true := by
  induction made generalizing vault with
  | nil => simp [keepSteps]
  | cons s made ih =>
    have next : keepSteps vault (s :: made) = keepSteps (vault.insert s.path (World.kept s.path s.body)) made := rfl
    rw [next, ih, Dict.contains_insert, List.map_cons, List.mem_cons, or_left_comm, or_assoc]

/-- The ways in which making steps can go, when other paths were made before: all are written, or one cannot be
written, and then those made are taken back, the last first. -/
inductive MakingGoes (fails : Call → Error → Prop) (made : List String) (todo : List Step) (w : World) :
    List (Moment Services World) → Except Error Unit → World → Prop
  | whole {w' : World} {tr : List (Moment Services World)} (calls : tr.map Moment.call = todo.map Step.write)
      (passed : ∀ m ∈ tr, m.failure? = none) (stored : w'.vault = keepSteps w.vault todo) :
      MakingGoes fails made todo w tr (.ok ()) w'
  | undone (done : List Step) (tr₁ : List (Moment Services World)) {before w' : World}
      {tr₂ : List (Moment Services World)} {rest : List Step} {s : Step} {e : Error}
      (split : todo = done ++ s :: rest) (calls : tr₁.map Moment.call = done.map Step.write)
      (passed : ∀ m ∈ tr₁, m.failure? = none) (failed : fails s.write e)
      (undone : tr₂.map Moment.call = (done.reverse.map Step.path ++ made).map fun p => .vault (.delete p))
      (left : w'.vault = ((done.reverse.map Step.path ++ made).filter fun p => ¬ DeletionFailed p tr₂).foldl
        Dict.erase (keepSteps w.vault done)) :
      MakingGoes fails made todo w (tr₁ ++ ⟨before, s.write, .error e⟩ :: tr₂)
        (.error (e.within ("provisioning " ++ s.path))) w'

/-- A step is written, and then the steps after it go in their way. -/
theorem MakingGoes.step {w₁ : World} {s : Step} {made : List String} {todo : List Step} {o : Except Error Unit}
    (inserted : w₁.vault = w.vault.insert s.path (World.kept s.path s.body))
    (h : MakingGoes fails (s.path :: made) todo w₁ tr o w') :
    MakingGoes fails made (s :: todo) w (⟨w, s.write, .ok ()⟩ :: tr) o w' := by
  have next (done : List Step) : keepSteps w₁.vault done = keepSteps w.vault (s :: done) := by
    rw [inserted]
    rfl
  cases h with
  | whole calls passed stored =>
    exact .whole (congrArg (s.write :: ·) calls) (List.forall_mem_cons.2 ⟨rfl, passed⟩) (stored.trans (next _))
  | undone done tr₁ split calls passed failed undone left =>
    have back : done.reverse.map Step.path ++ s.path :: made = (s :: done).reverse.map Step.path ++ made := by simp
    rw [back] at undone left
    exact .undone (s :: done) (⟨w, s.write, .ok ()⟩ :: tr₁) (congrArg (s :: ·) split)
      (congrArg (s.write :: ·) calls) (List.forall_mem_cons.2 ⟨rfl, passed⟩) failed undone (next done ▸ left)

theorem provisionFrom_goes (hk : kept .vault) {made : List String} {todo : List Step}
    (nodup : (made ++ todo.map Step.path).Nodup) {o : Except Error Unit}
    (h : (provisionFrom made todo).Goes (conduct kept fails) w tr o w') : MakingGoes fails made todo w tr o w' := by
  induction todo generalizing made w tr with
  | nil =>
    obtain ⟨rfl, rfl, rfl⟩ := Job.goes_pure h
    exact .whole rfl (List.forall_mem_nil _) rfl
  | cons s todo ih =>
    obtain ⟨x, w₁, tr₁, tr₂, first, rest, rfl⟩ := Job.goes_bind_outcome h
    obtain ⟨answered, rfl⟩ := Job.goes_call first
    rcases write_inserts hk answered with ⟨rfl, inserted⟩ | ⟨e, rfl, same⟩
    · exact (ih (List.perm_middle.nodup_iff.1 nodup) rest).step inserted
    · have nodup := (List.nodup_append.1 nodup).1
      rcases Job.goes_bind rest with ⟨_, _, back⟩ | ⟨_, w₂, tr₃, tr₄, back, last, rfl⟩
      · cases (rollBack_goes hk nodup back).1
      · obtain ⟨-, calls, left⟩ := rollBack_goes hk nodup back
        obtain ⟨rfl, rfl, rfl⟩ := Job.goes_throw last
        rw [List.append_nil]
        exact .undone [] [] rfl rfl (List.forall_mem_nil _) (write_fails hk answered) calls (same ▸ left)

theorem provision_goes (hk : kept .vault) {o : Except Error Unit}
    (h : (provision tenant d).Goes (conduct kept fails) w tr o w') :
    MakingGoes fails [] (steps tenant d) w tr o w' :=
  provisionFrom_goes hk (nodup_domainPaths d) h

theorem provision_passed (hk : kept .vault) (h : (provision tenant d).Goes (conduct kept fails) w tr (.ok ()) w') :
    tr.map Moment.call = (steps tenant d).map Step.write ∧ (∀ m ∈ tr, m.failure? = none) ∧
      w'.vault = keepSteps w.vault (steps tenant d) := by
  generalize ho : (.ok () : Except Error Unit) = o at h
  cases provision_goes hk h with
  | whole calls passed stored => exact ⟨calls, passed, stored⟩
  | undone => cases ho

/-- When a step cannot be written, only steps before it are taken back. Of what was not there before, what could
not be taken back stays. -/
theorem MakingGoes.left_iff {todo : List Step} {e : Error} (h : MakingGoes fails [] todo w tr (.error e) w') :
    ∃ done s rest, todo = done ++ s :: rest ∧ (∀ p, DeletionFailed p tr → p ∈ done.map Step.path) ∧
      ∀ p, ¬ w.HasPath p → (w'.HasPath p ↔ DeletionFailed p tr) := by
  generalize ho : (.error e : Except Error Unit) = o at h
  cases h with
  | whole => cases ho
  | @undone done tr₁ before _ tr₂ rest s cause split calls passed failed undone left =>
    rw [List.append_nil] at undone left
    have writes (p : String) : ¬ DeletionFailed p (tr₁ ++ [⟨before, s.write, .error cause⟩]) := fun failed => by
      have deletes := mem_calls_of_deletionFailed failed
      rw [List.map_append, calls] at deletes
      rcases List.mem_append.1 deletes with deletes | deletes
      · obtain ⟨_, _, same⟩ := List.mem_map.1 deletes
        cases same
      · cases List.mem_singleton.1 deletes
    have tried (p : String) (failed : DeletionFailed p tr₂) : p ∈ done.map Step.path := by
      have deletes := mem_calls_of_deletionFailed failed
      rw [undone] at deletes
      obtain ⟨_, hp, same⟩ := List.mem_map.1 deletes
      cases same
      simpa using hp
    have backwards (p : String) :
        DeletionFailed p (tr₁ ++ ⟨before, s.write, .error cause⟩ :: tr₂) ↔ DeletionFailed p tr₂ := by
      rw [← List.singleton_append, ← List.append_assoc, deletionFailed_append, or_iff_right (writes p)]
    refine ⟨done, s, rest, split, fun p failed => tried p ((backwards p).1 failed), fun p absent => ?_⟩
    have absent : ¬ w.vault.contains p = true := absent
    have stays : w'.HasPath p ↔ ¬ (p ∈ done.map Step.path ∧ ¬ DeletionFailed p tr₂) ∧ p ∈ done.map Step.path := by
      rw [HasPath, left, Dict.contains_foldl_erase, contains_keepSteps, or_iff_left absent]
      simp
    rw [backwards, stays]
    exact ⟨fun stays => Decidable.not_not.1 fun gone => stays.1 ⟨stays.2, gone⟩,
      fun failed => ⟨fun gone => gone.2 failed, tried p failed⟩⟩

/-! ## One call for a domain -/

/-- The domain is there as a whole, or it is not mounted and has no role. -/
structure Sound (d : String) (w : World) : Prop where
  whole : w.HasPath (mountPath d) → ∀ p ∈ domainPaths d, w.HasPath p
  absent : ¬ w.HasPath (mountPath d) → ¬ w.HasPath (rolePath d)

/-- The engine of the domain is mounted, and there is no role for it. -/
structure Orphaned (d : String) (w : World) : Prop where
  mounted : w.HasPath (mountPath d)
  unbound : ¬ w.HasPath (rolePath d)

theorem rolePath_mem (d : String) : rolePath d ∈ domainPaths d := by simp [domainPaths]

theorem Sound.congr (h : Sound d w) (hw : ∀ p ∈ domainPaths d, w'.HasPath p ↔ w.HasPath p) :
    Sound d w' := by
  refine ⟨fun mounted p hp => ?_, fun unmounted bound => ?_⟩
  · exact (hw p hp).2 (h.whole ((hw _ (mountPath_mem d)).1 mounted) p hp)
  · exact h.absent (mt (hw _ (mountPath_mem d)).2 unmounted) ((hw _ (rolePath_mem d)).1 bound)

theorem Orphaned.congr (h : Orphaned d w) (hw : ∀ p ∈ domainPaths d, w'.HasPath p ↔ w.HasPath p) :
    Orphaned d w' :=
  ⟨(hw _ (mountPath_mem d)).2 h.mounted, mt (hw _ (rolePath_mem d)).1 h.unbound⟩

/-- Making a domain that is not mounted makes it as a whole, or leaves nothing mounted, or leaves it
mounted because the deletion of the mount failed. -/
theorem sound_of_provision (hk : kept .vault) {o : Except Error Unit} (h : Sound d w)
    (unmounted : ¬ w.HasPath (mountPath d))
    (hg : (provision tenant d).Goes (conduct kept fails) w tr o w') :
    (¬ DeletionFailed (mountPath d) tr ∧ Sound d w' ∧ (o = .ok () → w'.HasPath (mountPath d))) ∨
      (DeletionFailed (mountPath d) tr ∧ Orphaned d w' ∧ ∃ e, o = .error e) := by
  cases o with
  | ok =>
    obtain ⟨calls, _, stored⟩ := provision_passed hk hg
    have there (p : String) (hp : p ∈ domainPaths d) : w'.HasPath p := by
      rw [HasPath, stored]
      exact contains_keepSteps.2 (.inl hp)
    have quiet : ¬ DeletionFailed (mountPath d) tr := fun failed => by
      have deletes := mem_calls_of_deletionFailed failed
      rw [calls] at deletes
      obtain ⟨_, _, same⟩ := List.mem_map.1 deletes
      cases same
    have mounted := there _ (mountPath_mem d)
    exact .inl ⟨quiet, ⟨fun _ => there, fun unmounted => absurd mounted unmounted⟩, fun _ => mounted⟩
  | error e =>
    obtain ⟨done, s, rest, split, taken, left⟩ := (provision_goes hk hg).left_iff
    -- the role is written last, so it was not among what was made
    have hpaths : domainPaths d = done.map Step.path ++ s.path :: rest.map Step.path := by
      rw [← steps_path tenant, split]
      simp
    have hrole : rolePath d ∉ done.map Step.path := by
      intro hmem
      have hd := nodup_domainPaths d
      have hlast : (domainPaths d).getLast? = some (rolePath d) := rfl
      rw [hpaths] at hd hlast
      rw [List.getLast?_append, List.getLast?_cons, Option.some_or, ← List.getLast?_cons] at hlast
      exact (List.nodup_append.1 hd).2.2 _ hmem _ (List.mem_of_getLast? hlast) rfl
    have unbound : ¬ w'.HasPath (rolePath d) := fun bound =>
      hrole (taken _ ((left _ (h.absent unmounted)).1 bound))
    have mounted : w'.HasPath (mountPath d) ↔ DeletionFailed (mountPath d) tr := left _ unmounted
    by_cases hf : DeletionFailed (mountPath d) tr
    · exact .inr ⟨hf, ⟨mounted.2 hf, unbound⟩, e, rfl⟩
    · exact .inl ⟨hf, ⟨fun hp => absurd (mounted.1 hp) hf, fun _ => unbound⟩, fun ho => by cases ho⟩

def makeKey (path keyType : String) : Job Unit := write path (Json.ofMembers [("type", .string keyType)])

/-- The ways in which making sure of a key can go, part after part. -/
inductive KeyGoes (R : Conduct Services World) (path keyType : String) (w : World) :
    List (Moment Services World) → Except Error Json → World → Prop
  | unread {w' : World} {tr : List (Moment Services World)} {e : Error}
      (look : (read path).Goes R w tr (.error e) w') : KeyGoes R path keyType w tr (.error e) w'
  | there {w' : World} {tr : List (Moment Services World)} {data : Json}
      (look : (read path).Goes R w tr (.ok (some data)) w') : KeyGoes R path keyType w tr (.ok data) w'
  | unmade {w₁ w' : World} {tr₁ tr₂ : List (Moment Services World)} {e e' : Error}
      (look : (read path).Goes R w tr₁ (.ok none) w₁)
      (making : (makeKey path keyType).Goes R w₁ tr₂ (.error e) w') :
      KeyGoes R path keyType w (tr₁ ++ tr₂) (.error e') w'
  | made {w₁ w₂ w' : World} {tr₁ tr₂ tr₃ : List (Moment Services World)} {x : Except Error (Option Json)}
      {o : Except Error Json} (look : (read path).Goes R w tr₁ (.ok none) w₁)
      (making : (makeKey path keyType).Goes R w₁ tr₂ (.ok ()) w₂) (again : (read path).Goes R w₂ tr₃ x w')
      (found : ∀ data, x = .ok (some data) → o = .ok data) : KeyGoes R path keyType w (tr₁ ++ (tr₂ ++ tr₃)) o w'

theorem ensureKey_parts {R : Conduct Services World} {path keyType : String} {o : Except Error Json}
    (h : (ensureKey path keyType).Goes R w tr o w') : KeyGoes R path keyType w tr o w' := by
  rcases Job.goes_bind h with ⟨e, rfl, look⟩ | ⟨found, w₁, tr₁, tr₂, look, rest, rfl⟩
  · exact .unread look
  · cases found with
    | some data =>
      obtain ⟨rfl, rfl, rfl⟩ := Job.goes_pure rest
      rw [List.append_nil]
      exact .there look
    | none =>
      rcases Job.goes_bind rest with ⟨e, rfl, making⟩ | ⟨_, w₂, tr₃, tr₄, making, again, rfl⟩
      · obtain ⟨x, making, failed⟩ := Job.goes_mapError making
        cases x with
        | ok => cases failed
        | error e => exact .unmade look making
      · have making := Job.goes_mapError_ok making
        rcases Job.goes_bind again with ⟨e, rfl, second⟩ | ⟨found, w₃, tr₅, tr₆, second, last, rfl⟩
        · exact .made look making second nofun
        · cases found with
          | none =>
            obtain ⟨rfl, rfl, rfl⟩ := Job.goes_throw last
            rw [List.append_nil]
            exact .made look making second nofun
          | some data =>
            obtain ⟨rfl, rfl, rfl⟩ := Job.goes_pure last
            rw [List.append_nil]
            refine .made look making second fun data' found => ?_
            cases found
            rfl

/-- Making sure of a key leaves the engine as it was, and comes to its end only if the key is there; or it
makes the key where nothing was. -/
theorem ensureKey_vault (hk : kept .vault) {path keyType : String} {o : Except Error Json}
    (h : (ensureKey path keyType).Goes (conduct kept fails) w tr o w') :
    (w'.vault = w.vault ∧ ∀ data, o = .ok data → w.HasPath path) ∨
      w.vault.get? path = none ∧
        w'.vault = w.vault.insert path (World.kept path (Json.ofMembers [("type", .string keyType)])) := by
  have looked {w w' : World} {tr : List (Moment Services World)} {x : Except Error (Option Json)}
      (h : (read path).Goes (conduct kept fails) w tr x w') := read_found hk (Job.goes_call h).1
  cases ensureKey_parts h with
  | unread look => exact .inl ⟨(looked look).1, nofun⟩
  | @there _ _ data look =>
    obtain ⟨same, there⟩ := looked look
    refine .inl ⟨same, fun _ _ => ?_⟩
    rw [HasPath, Dict.contains_eq_isSome, ← there _ rfl]
    rfl
  | unmade look making =>
    rcases write_inserts hk (Job.goes_call making).1 with ⟨failed, _⟩ | ⟨_, _, same⟩
    · cases failed
    · exact .inl ⟨same.trans (looked look).1, nofun⟩
  | made look making again =>
    obtain ⟨same, there⟩ := looked look
    rcases write_inserts hk (Job.goes_call making).1 with ⟨_, insert⟩ | ⟨_, done, _⟩
    · -- the second look changes nothing, whatever it finds
      exact .inr ⟨(there _ rfl).symm, by rw [(looked again).1, insert, same]⟩
    · cases done

/-- Making sure of a key leaves all other paths as they were and deletes nothing. -/
theorem ensureKey_goes (hk : kept .vault) {path keyType : String} {o : Except Error Json}
    (h : (ensureKey path keyType).Goes (conduct kept fails) w tr o w') :
    (∀ p, p ≠ path → (w'.HasPath p ↔ w.HasPath p)) ∧ (∀ data, o = .ok data → w'.HasPath path) ∧
      ∀ p, ¬ DeletionFailed p tr := by
  have quiet := not_deletionFailed_of_asks h (asks_ensureKey (fun _ => nofun) fun _ _ => nofun)
  rcases ensureKey_vault hk h with ⟨same, there⟩ | ⟨_, insert⟩
  · exact ⟨fun _ _ => hasPath_congr same, fun data ho => (hasPath_congr same).2 (there data ho), quiet⟩
  · have paths (p : String) : w'.HasPath p ↔ p = path ∨ w.HasPath p := by
      rw [HasPath, insert]
      exact Dict.contains_insert _ _ _
    exact ⟨fun p hp => (paths p).trans (or_iff_right hp), fun _ _ => (paths path).2 (.inl rfl), quiet⟩

/-- Make sure of a key of a domain, and say what the domain and the key are. -/
def recordKey (d keyName keyType : String) : Job KeyRecord := do
  let data ← ensureKey (keyPath d keyName) keyType
  return { domain := some d, keyName := some keyName, keyType := some keyType,
           publicKey := some (publicKeyOf data) }

/-- The record is of the domain, and its key is there. -/
def KeyThere (d : String) (keys : KeyRecord) (w : World) : Prop :=
  keys.domain = some d ∧ ∃ k, keys.keyName = some k ∧ w.HasPath (keyPath d k)

theorem recordKey_goes (hk : kept .vault) {keyName keyType : String} {o : Except Error KeyRecord}
    (h : (recordKey d keyName keyType).Goes (conduct kept fails) w tr o w') :
    (∀ p ∈ domainPaths d, w'.HasPath p ↔ w.HasPath p) ∧ (∀ keys, o = .ok keys → KeyThere d keys w') ∧
      ∀ p, ¬ DeletionFailed p tr := by
  have own (p : String) (hp : p ∈ domainPaths d) : p ≠ keyPath d keyName := fun he =>
    keyPath_not_mem_own d keyName (he ▸ hp)
  rcases Job.goes_bind h with ⟨e, rfl, h₁⟩ | ⟨data, w₁, tr₁, tr₂, h₁, h₂, rfl⟩
  · obtain ⟨same, _, quiet⟩ := ensureKey_goes hk h₁
    exact ⟨fun p hp => same p (own p hp), nofun, quiet⟩
  · obtain ⟨same, there, quiet⟩ := ensureKey_goes hk h₁
    obtain ⟨rfl, rfl, rfl⟩ := Job.goes_pure h₂
    rw [List.append_nil]
    refine ⟨fun p hp => same p (own p hp), fun keys hkeys => ?_, quiet⟩
    cases hkeys
    exact ⟨rfl, keyName, rfl, there data rfl⟩

/-- The ways in which a call for a domain can go, part after part. -/
inductive EnsureGoes (R : Conduct Services World) (tenant d keyName keyType : String) (w : World) :
    List (Moment Services World) → Except Error KeyRecord → World → Prop
  | unread {w' : World} {tr : List (Moment Services World)} {e : Error}
      (look : (read (mountPath d)).Goes R w tr (.error e) w') :
      EnsureGoes R tenant d keyName keyType w tr (.error e) w'
  | mounted {w₁ w' : World} {tr₁ tr₂ : List (Moment Services World)} {data : Json}
      {o : Except Error KeyRecord} (look : (read (mountPath d)).Goes R w tr₁ (.ok (some data)) w₁)
      (key : (recordKey d keyName keyType).Goes R w₁ tr₂ o w') :
      EnsureGoes R tenant d keyName keyType w (tr₁ ++ tr₂) o w'
  | unmade {w₁ w' : World} {tr₁ tr₂ : List (Moment Services World)} {e : Error}
      (look : (read (mountPath d)).Goes R w tr₁ (.ok none) w₁)
      (making : (provision tenant d).Goes R w₁ tr₂ (.error e) w') :
      EnsureGoes R tenant d keyName keyType w (tr₁ ++ tr₂) (.error e) w'
  | made {w₁ w₂ w' : World} {tr₁ tr₂ tr₃ : List (Moment Services World)} {o : Except Error KeyRecord}
      (look : (read (mountPath d)).Goes R w tr₁ (.ok none) w₁)
      (making : (provision tenant d).Goes R w₁ tr₂ (.ok ()) w₂)
      (key : (recordKey d keyName keyType).Goes R w₂ tr₃ o w') :
      EnsureGoes R tenant d keyName keyType w (tr₁ ++ (tr₂ ++ tr₃)) o w'

theorem ensureDomain_goes {R : Conduct Services World} {desired : KeySettings} {recorded : KeyRecord}
    {rotate : Bool} {o : Except Error KeyRecord} (domain : recorded.domain.getD (domainName uuid) = d)
    (h : (ensureDomain tenant uuid desired recorded rotate).Goes R w tr o w') :
    EnsureGoes R tenant d (keep (rotate || recorded.keyName.isNone) recorded.keyName desired.keyName)
      (keep (rotate || recorded.keyName.isNone) recorded.keyType desired.keyType) w tr o w' := by
  subst domain
  rcases Job.goes_bind h with ⟨e, rfl, look⟩ | ⟨found, w₁, tr₁, tr₂, look, hrest, rfl⟩
  · exact .unread look
  · dsimp only at hrest
    cases found with
    | some data => exact .mounted look hrest
    | none =>
      rcases Job.goes_bind hrest with ⟨e, rfl, making⟩ | ⟨_, w₂, tr₃, tr₄, making, key, rfl⟩
      · exact .unmade look making
      · exact .made look making key

/-- A call on a sound domain leaves it sound, and mounted if it comes to its end, or it fails and leaves
the domain orphaned because the deletion of the mount failed. -/
theorem sound_of_ensureDomain (hk : kept .vault) {desired : KeySettings} {recorded : KeyRecord}
    {rotate : Bool} {o : Except Error KeyRecord} (domain : recorded.domain.getD (domainName uuid) = d)
    (h : (ensureDomain tenant uuid desired recorded rotate).Goes (conduct kept fails) w tr o w')
    (sound : Sound d w) :
    (¬ DeletionFailed (mountPath d) tr ∧ Sound d w' ∧
        ∀ keys, o = .ok keys → w'.HasPath (mountPath d) ∧ KeyThere d keys w') ∨
      (DeletionFailed (mountPath d) tr ∧ Orphaned d w' ∧ ∃ e, o = .error e) := by
  have looked {tr : List (Moment Services World)} {x : Except Error (Option Json)} {w₁ : World}
      (look : (read (mountPath d)).Goes (conduct kept fails) w tr x w₁) :
      Sound d w₁ ∧ ¬ DeletionFailed (mountPath d) tr ∧
        ∀ found, x = .ok found → (found.isSome = true ↔ w₁.HasPath (mountPath d)) := by
    have quiet := not_deletionFailed_of_asks look (Job.asks_call nofun)
    obtain ⟨hw₁, there⟩ := read_path hk (Job.goes_call look).1
    have same (p : String) : w₁.HasPath p ↔ w.HasPath p := hasPath_congr hw₁
    refine ⟨sound.congr fun p _ => same p, quiet _, fun found hf => ?_⟩
    rw [there found hf, same]
  cases ensureDomain_goes domain h with
  | unread look =>
    obtain ⟨sound₁, quiet, _⟩ := looked look
    exact .inl ⟨quiet, sound₁, nofun⟩
  | mounted look key =>
    obtain ⟨sound₁, quiet, there⟩ := looked look
    obtain ⟨same, done, quiet₂⟩ := recordKey_goes hk key
    refine .inl ⟨?_, sound₁.congr same, fun keys hkeys => ⟨?_, done keys hkeys⟩⟩
    · rw [deletionFailed_append]
      exact not_or.2 ⟨quiet, quiet₂ _⟩
    · exact (same _ (mountPath_mem d)).2 ((there _ rfl).1 rfl)
  | unmade look making =>
    obtain ⟨sound₁, quiet, there⟩ := looked look
    have unmounted := mt (there _ rfl).2 nofun
    rw [deletionFailed_append, or_iff_right quiet]
    rcases sound_of_provision hk sound₁ unmounted making with ⟨hf, sound₂, _⟩ | orphaned
    · exact .inl ⟨hf, sound₂, nofun⟩
    · obtain ⟨hf, orphaned, _⟩ := orphaned
      exact .inr ⟨hf, orphaned, _, rfl⟩
  | made look making key =>
    obtain ⟨sound₁, quiet, there⟩ := looked look
    have unmounted := mt (there _ rfl).2 nofun
    obtain ⟨same, done, quiet₃⟩ := recordKey_goes hk key
    rcases sound_of_provision hk sound₁ unmounted making with ⟨hf, sound₂, mounted⟩ | ⟨_, _, _, he⟩
    · refine .inl ⟨?_, sound₂.congr same, fun keys hkeys => ⟨?_, done keys hkeys⟩⟩
      · rw [deletionFailed_append, deletionFailed_append]
        exact not_or.2 ⟨quiet, not_or.2 ⟨hf, quiet₃ _⟩⟩
      · exact (same _ (mountPath_mem d)).2 (mounted rfl)
    · cases he

/-- A call on an orphaned domain leaves it orphaned. -/
theorem orphaned_of_ensureDomain (hk : kept .vault) {desired : KeySettings} {recorded : KeyRecord}
    {rotate : Bool} {o : Except Error KeyRecord} (domain : recorded.domain.getD (domainName uuid) = d)
    (h : (ensureDomain tenant uuid desired recorded rotate).Goes (conduct kept fails) w tr o w')
    (orphaned : Orphaned d w) :
    Orphaned d w' ∧ ∀ keys, o = .ok keys → KeyThere d keys w' := by
  have looked {tr : List (Moment Services World)} {x : Except Error (Option Json)} {w₁ : World}
      (look : (read (mountPath d)).Goes (conduct kept fails) w tr x w₁) :
      Orphaned d w₁ ∧ x ≠ .ok none := by
    obtain ⟨hw₁, there⟩ := read_path hk (Job.goes_call look).1
    refine ⟨orphaned.congr fun p _ => hasPath_congr hw₁, fun hx => ?_⟩
    cases (there _ hx).2 orphaned.mounted
  cases ensureDomain_goes domain h with
  | unread look => exact ⟨(looked look).1, nofun⟩
  | mounted look key =>
    obtain ⟨same, done, _⟩ := recordKey_goes hk key
    exact ⟨(looked look).1.congr same, done⟩
  | unmade look making => exact absurd rfl (looked look).2
  | made look making key => exact absurd rfl (looked look).2

/-! ## Calls one after the other -/

/-- Calls for one domain of a tenant, one after the other, and what was asked and answered in them. -/
inductive Calls (R : Conduct Services World) (tenant uuid d : String) :
    World → List (Moment Services World) → World → Prop
  | none {w : World} : Calls R tenant uuid d w [] w
  | more {w w₁ w' : World} {tr tr' : List (Moment Services World)} {desired : KeySettings}
      {recorded : KeyRecord} {rotate : Bool} {o : Except Error KeyRecord}
      (before : Calls R tenant uuid d w tr w₁) (domain : recorded.domain.getD (domainName uuid) = d)
      (goes : (ensureDomain tenant uuid desired recorded rotate).Goes R w₁ tr' o w') :
      Calls R tenant uuid d w (tr ++ tr') w'

/-- A domain is sound until the deletion of its mount has failed once, and orphaned from then on. -/
theorem sound_or_orphaned (hk : kept .vault) (sound : Sound d w₀)
    (h : Calls (conduct kept fails) tenant uuid d w₀ tr w) :
    (¬ DeletionFailed (mountPath d) tr ∧ Sound d w) ∨ (DeletionFailed (mountPath d) tr ∧ Orphaned d w) := by
  induction h with
  | none => exact .inl ⟨not_deletionFailed_nil _, sound⟩
  | more before domain goes ih =>
    rw [deletionFailed_append]
    rcases ih with ⟨quiet, sound₁⟩ | ⟨failed, orphaned⟩
    · rw [or_iff_right quiet]
      rcases sound_of_ensureDomain hk domain goes sound₁ with ⟨hf, sound₂, _⟩ | ⟨hf, orphaned, _⟩
      · exact .inl ⟨hf, sound₂⟩
      · exact .inr ⟨hf, orphaned⟩
    · exact .inr ⟨.inl failed, (orphaned_of_ensureDomain hk domain goes orphaned).1⟩

/-- When a call for a domain comes to its end, after any number of calls before it and from an engine
without the domain, the engine of the domain is mounted and the key of the record is there; the policy and
the role are there too if and only if in none of the calls before it the deletion of the mount failed. -/
theorem domain_whole_iff (hk : kept .vault) (untouched : ∀ p ∈ domainPaths d, ¬ w₀.HasPath p)
    (before : Calls (conduct kept fails) tenant uuid d w₀ tr₀ w) {desired : KeySettings}
    {recorded keys : KeyRecord} {rotate : Bool} (domain : recorded.domain.getD (domainName uuid) = d)
    (h : (ensureDomain tenant uuid desired recorded rotate).Goes (conduct kept fails) w tr (.ok keys) w') :
    w'.HasPath (mountPath d) ∧ KeyThere d keys w' ∧
      ((∀ p ∈ domainPaths d, w'.HasPath p) ↔ ¬ DeletionFailed (mountPath d) tr₀) := by
  have sound₀ : Sound d w₀ :=
    ⟨fun mounted => absurd mounted (untouched _ (mountPath_mem d)), fun _ => untouched _ (rolePath_mem d)⟩
  rcases sound_or_orphaned hk sound₀ before with ⟨quiet, sound⟩ | ⟨failed, orphaned⟩
  · rcases sound_of_ensureDomain hk domain h sound with ⟨_, sound', done⟩ | ⟨_, _, _, he⟩
    · obtain ⟨mounted, there⟩ := done keys rfl
      exact ⟨mounted, there, fun _ => quiet, fun _ => sound'.whole mounted⟩
    · cases he
  · obtain ⟨orphaned', there⟩ := orphaned_of_ensureDomain hk domain h orphaned
    refine ⟨orphaned'.mounted, there keys rfl, fun whole => ?_, fun quiet => absurd failed quiet⟩
    exact absurd (whole _ (rolePath_mem d)) orphaned'.unbound

/-! ## A domain that is taken back and one that is not -/

/-- The call for the domain of a tenant of which nothing is recorded. -/
def firstCall : Job KeyRecord := ensureDomain "blue" "u" {} {} false

/-- An engine with nothing in it, and the calls that are to fail once. -/
def engine (lines : List String) : Stage where
  faults := lines.map Stage.outage

theorem engine_empty (lines : List String) (p : String) : ¬ (engine lines).world.HasPath p :=
  Bool.false_ne_true

theorem plain_engine (lines : List String) : (engine lines).Plain Call.Unreachable := by
  intro f hf
  obtain ⟨line, _, rfl⟩ := List.mem_map.1 hf
  exact ⟨_, rfl, fun _ => ⟨_, _, rfl⟩⟩

def afterFirst (lines : List String) : Stage := (Stage.perform firstCall (engine lines)).2

theorem plain_afterFirst (lines : List String) : (afterFirst lines).Plain Call.Unreachable :=
  Stage.plain_perform (plain_engine lines) _

theorem calls_afterFirst (lines : List String) :
    Calls (conduct (fun _ => True) Call.Unreachable) "blue" "u" (domainName "u") (engine lines).world
      (Stage.story firstCall (engine lines)) (afterFirst lines).world :=
  .more .none rfl (Stage.goes_perform (plain_engine lines) _)

def afterSecond (lines : List String) : Stage := (Stage.perform firstCall (afterFirst lines)).2

theorem goes_second (lines : List String)
    (done : (Stage.perform firstCall (afterFirst lines)).1.toBool = true) :
    ∃ keys, firstCall.Goes (conduct (fun _ => True) Call.Unreachable) (afterFirst lines).world
      (Stage.story firstCall (afterFirst lines)) (.ok keys) (afterSecond lines).world := by
  have goes : firstCall.Goes (conduct (fun _ => True) Call.Unreachable) _ _ _ _ :=
    Stage.goes_perform (plain_afterFirst lines) firstCall
  cases ho : (Stage.perform firstCall (afterFirst lines)).1 with
  | error e =>
    rw [ho] at done
    cases done
  | ok keys =>
    rw [ho] at goes
    exact ⟨keys, goes⟩

/-- The policy cannot be written at first, the mount is taken back, and the second call makes the domain
as a whole. -/
theorem domain_whole_of_takenBack :
    (afterSecond ["vault.write sys/policy/*"]).world.HasPath (mountPath (domainName "u")) ∧
      (afterSecond ["vault.write sys/policy/*"]).world.HasPath (policyPath (domainName "u")) ∧
      (afterSecond ["vault.write sys/policy/*"]).world.HasPath (rolePath (domainName "u")) := by
  obtain ⟨keys, goes⟩ := goes_second ["vault.write sys/policy/*"] (by decide +kernel)
  obtain ⟨mounted, _, whole⟩ :=
    domain_whole_iff trivial (fun p _ => engine_empty _ p) (calls_afterFirst _) rfl goes
  have whole := whole.2 (by decide +kernel)
  exact ⟨mounted, whole _ (by simp [domainPaths]), whole _ (rolePath_mem _)⟩

/-- A domain that a call has come to its end for need not be whole: the policy could not be written at
first and the mount could not be taken back, so the second call found the domain mounted. -/
theorem mounted_domain_passes :
    ∃ (w₀ w w' : World) (tr₀ tr : List (Moment Services World)) (keys : KeyRecord),
      (∀ p, ¬ w₀.HasPath p) ∧
      Calls (conduct (fun _ => True) Call.Unreachable) "blue" "u" (domainName "u") w₀ tr₀ w ∧
      (ensureDomain "blue" "u" {} {} false).Goes (conduct (fun _ => True) Call.Unreachable) w tr
        (.ok keys) w' ∧
      ¬ ∀ p ∈ domainPaths (domainName "u"), w'.HasPath p := by
  obtain ⟨keys, goes⟩ := goes_second ["vault.write sys/policy/*", "vault.delete sys/mounts/*"]
    (by decide +kernel)
  refine ⟨_, _, _, _, _, keys, engine_empty _, calls_afterFirst _, goes, fun whole => ?_⟩
  have unbound : ¬ (afterSecond ["vault.write sys/policy/*", "vault.delete sys/mounts/*"]).world.HasPath
      (rolePath (domainName "u")) := by decide +kernel
  exact unbound (whole _ (rolePath_mem _))

end Tenancy.Encryption

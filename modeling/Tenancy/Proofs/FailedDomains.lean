import Tenancy.Proofs.Courses
import Tenancy.Proofs.KeyTypes

/-!
# Domains that cannot be made

The parts of a domain are written one after the other, and if one cannot be written those before it are taken
back, the last first (`MakingGoes`). If no deletion fails the engine is then as it was, because nothing was at the
paths of the domain and no path is written twice (`erase_keepSteps`); what else is in the engine plays no part.
With the look at the mount that comes before, this is `failed_domain_undone`.
-/

namespace Tenancy

open Rehearsal Rehearsal.World

namespace Encryption

variable {kept : BackingSystem → Prop} {fails : Call → Error → Prop} {w w' : World}
  {tr : List (Moment Services World)} {tenant uuid d path : String}

/-- What was made where nothing was is gone when all of it is taken back. -/
theorem erase_keepSteps {vault : Dict Json} {made : List Step}
    (absent : ∀ s ∈ made, ¬ vault.contains s.path = true) (nodup : (made.map Step.path).Nodup) :
    (made.reverse.map Step.path).foldl Dict.erase (keepSteps vault made) = vault := by
  induction made generalizing vault with
  | nil => rfl
  | cons s made ih =>
    obtain ⟨absent, absents⟩ := List.forall_mem_cons.1 absent
    obtain ⟨unlike, nodup⟩ := List.nodup_cons.1 nodup
    have absents₁ : ∀ t ∈ made, ¬ (vault.insert s.path (World.kept s.path s.body)).contains t.path = true := by
      intro t ht there
      rcases (Dict.contains_insert _ _ _).1 there with same | there
      · exact unlike (same ▸ List.mem_map_of_mem ht)
      · exact absents t ht there
    have rest := ih absents₁ nodup
    rw [List.reverse_cons, List.map_append, List.foldl_append]
    calc
      _ = (vault.insert s.path (World.kept s.path s.body)).erase s.path := congrArg (Dict.erase · s.path) rest
      _ = vault := by rw [Dict.erase_insert_self, Dict.erase_of_not_contains absent]

/-! ## A domain that cannot be made -/

/-- The path is that of a key, in this domain or in that of a tenant. -/
def KeyOf (d q : String) : Prop := (∃ k, q = keyPath d k) ∨ IsKeyPath q

theorem KeyOf.not_mem {q : String} (h : KeyOf d q) : q ∉ domainPaths d := by
  rcases h with ⟨k, rfl⟩ | ⟨u, k, rfl⟩
  · exact keyPath_not_mem_own d k
  · exact keyPath_not_mem d u k

def Touches (q : String) (c : Call) : Prop := c = .vault (.read q) ∨ ∃ body, c = .vault (.write q body)

theorem not_touches_of_mem {q : String} (key : KeyOf d q) (hp : path ∈ domainPaths d) :
    ¬ Touches q (.vault (.read path)) ∧ (∀ body, ¬ Touches q (.vault (.write path body))) ∧
      ¬ Touches q (.vault (.delete path)) := by
  have unlike : path ≠ q := fun same => key.not_mem (same ▸ hp)
  simp [Touches, unlike]

/-- Making a domain touches no key. -/
theorem provision_spares (h : (provision tenant d).Goes (conduct kept fails) w tr o w') :
    ∀ m ∈ tr, ∀ q, KeyOf d q → ¬ Touches q m.call := by
  have asks : (provision tenant d).Asks fun c => ∀ q, KeyOf d q → ¬ Touches q c :=
    asks_provision (fun _ hp body _ key => (not_touches_of_mem key hp).2.1 body)
      fun _ hp _ key => (not_touches_of_mem key hp).2.2
  exact Dialogue.Goes.asks h asks

theorem steps_mem {s : Step} (hs : s ∈ steps tenant d) : s.path ∈ domainPaths d := by
  rw [← steps_path tenant]
  exact List.mem_map_of_mem hs

/-- Making a domain of which nothing is there fails with one of its writes, and what was made is taken back. -/
theorem provision_undone (hk : kept .vault) (absent : ∀ p ∈ domainPaths d, ¬ w.HasPath p) {e : Error}
    (h : (provision tenant d).Goes (conduct kept fails) w tr (.error e) w') :
    ∃ done s rest cause, steps tenant d = done ++ s :: rest ∧ e = cause.within ("provisioning " ++ s.path) ∧
      tr.map Moment.call = (done ++ [s]).map Step.write ++ done.reverse.map Step.undo ∧
      (∀ m ∈ tr, ∀ p body cause', m.call = .vault (.write p body) → m.failure? = some cause' →
        p = s.path ∧ cause' = cause) ∧
      ((∀ p, ¬ DeletionFailed p tr) → w'.vault = w.vault) := by
  generalize ho : (.error e : Except Error Unit) = o at h
  cases provision_goes hk h with
  | whole => cases ho
  | @undone done tr₁ before _ tr₂ rest s cause split calls passed _ undone left =>
    rw [List.append_nil] at undone left
    have undone : tr₂.map Moment.call = done.reverse.map Step.undo := undone.trans List.map_map
    refine ⟨done, s, rest, cause, split, Except.error.inj ho, ?_, ?_, fun deleted => ?_⟩
    · rw [List.map_append, List.map_cons, calls, undone, List.map_append, List.append_assoc]
      rfl
    · intro m hm p body cause' wrote failed
      rcases List.mem_append.1 hm with hm | hm
      · cases (passed m hm).symm.trans failed
      · rcases List.mem_cons.1 hm with rfl | hm
        · cases wrote
          cases failed
          exact ⟨rfl, rfl⟩
        · have undoes := List.mem_map_of_mem (f := Moment.call) hm
          rw [undone] at undoes
          obtain ⟨t, _, undoes⟩ := List.mem_map.1 undoes
          cases undoes.trans wrote
    · have all : ((done.reverse.map Step.path).filter fun p => ¬ DeletionFailed p tr₂) =
          done.reverse.map Step.path := by
        refine List.filter_eq_self.2 fun p _ => decide_eq_true fun again => deleted p ?_
        rw [deletionFailed_append, ← List.singleton_append, deletionFailed_append]
        exact .inr (.inr again)
      have sub : done.Sublist (steps tenant d) := split ▸ List.sublist_append_left _ _
      rw [left, all]
      exact erase_keepSteps (fun t ht => absent _ (steps_mem (sub.mem ht)))
        ((nodup_domainPaths d).sublist (sub.map Step.path))

theorem recordKey_touches {keyName keyType : String} {o : Except Error KeyRecord}
    (h : (recordKey d keyName keyType).Goes (conduct kept fails) w tr o w') :
    ∀ m ∈ tr, Touches (keyPath d keyName) m.call :=
  Dialogue.Goes.asks h <|
    Job.asks_bind (asks_ensureKey (.inl rfl) fun body => .inr ⟨body, rfl⟩) fun _ => Job.asks_pure

/-- If nothing of a domain is there and one of its parts cannot be written, what was made of it is taken back, the
last first. If the deletions succeed, the engine is as it was. The error is that of the write, with its path, and
no key is read or written. -/
theorem failed_domain_undone (hk : kept .vault) {desired : KeySettings} {recorded : KeyRecord} {rotate : Bool}
    {o : Except Error KeyRecord} (domain : recorded.domain.getD (domainName uuid) = d)
    (untouched : ∀ p ∈ domainPaths d, ¬ w.HasPath p)
    (h : (ensureDomain tenant uuid desired recorded rotate).Goes (conduct kept fails) w tr o w')
    {m : Moment Services World} (hm : m ∈ tr) (hp : path ∈ domainPaths d) {body : Json} {cause : Error}
    (wrote : m.call = .vault (.write path body)) (failed : m.failure? = some cause)
    (deleted : ∀ p, ¬ DeletionFailed p tr) :
    ∃ done s rest, steps tenant d = done ++ s :: rest ∧ s.path = path ∧
      (∃ e, o = .error e ∧ e.Prefixed ("provisioning " ++ path) cause) ∧
      w'.vault = w.vault ∧
      tr.map Moment.call =
        .vault (.read (mountPath d)) :: ((done ++ [s]).map Step.write ++ done.reverse.map Step.undo) ∧
      ∀ q, KeyOf d q → ∀ m ∈ tr, ¬ Touches q m.call := by
  have looked {tr : List (Moment Services World)} {x : Except Error (Option Json)} {w₁ : World}
      (look : (read (mountPath d)).Goes (conduct kept fails) w tr x w₁) (hm : m ∈ tr) : False := by
    obtain ⟨_, rfl⟩ := Job.goes_call look
    rw [List.mem_singleton.1 hm] at wrote
    cases wrote
  cases ensureDomain_goes domain h with
  | unread look => exact (looked look hm).elim
  | mounted look key =>
    have found := (read_path hk (Job.goes_call look).1).2 _ rfl
    exact absurd (found.1 rfl) (untouched _ (mountPath_mem d))
  | @unmade w₁ _ tr₁ tr₂ _ look making =>
    have written := (List.mem_append.1 hm).resolve_left (looked look)
    obtain ⟨answered, rfl⟩ := Job.goes_call look
    have same : w₁.vault = w.vault := (read_path hk answered).1
    obtain ⟨done, s, rest, cause', split, rfl, calls, only, restored⟩ :=
      provision_undone hk (fun p hp => mt (hasPath_congr same).1 (untouched p hp)) making
    obtain ⟨rfl, rfl⟩ := only m written _ _ _ wrote failed
    refine ⟨done, s, rest, split, rfl, ⟨_, rfl, Error.prefixed_within _ _⟩, ?_, congrArg (_ :: ·) calls, ?_⟩
    · exact (restored fun p again => deleted p (deletionFailed_append.2 (.inr again))).trans same
    · intro q key m hm
      rcases List.mem_append.1 hm with hm | hm
      · rw [List.mem_singleton.1 hm]
        exact (not_touches_of_mem key (mountPath_mem d)).1
      · exact provision_spares making m hm q key
  | made look making key =>
    rcases List.mem_append.1 ((List.mem_append.1 hm).resolve_left (looked look)) with hm | hm
    · cases ((provision_passed hk making).2.1 m hm).symm.trans failed
    · have touches := recordKey_touches key m hm
      rw [wrote] at touches
      exact absurd touches ((not_touches_of_mem (.inl ⟨_, rfl⟩) hp).2.1 body)

/-- An engine in which the role of a domain cannot be written at first. -/
def roleless : Stage := engine ["vault.write auth/*"]

/-- The mount and the policy are taken back when the role cannot be written. -/
theorem failed_domain_undone_roleless : ∃ (tr : List (Moment Services World)) (w' : World) (e cause : Error),
    firstCall.Goes (conduct (fun _ => True) Call.Unreachable) roleless.world tr (.error e) w' ∧
      w'.vault = roleless.world.vault ∧ e.Prefixed ("provisioning " ++ rolePath (domainName "u")) cause := by
  have goes : firstCall.Goes (conduct (fun _ => True) Call.Unreachable) roleless.world
      (Stage.story firstCall roleless) _ _ := Stage.goes_perform (plain_engine _) firstCall
  obtain ⟨m, hm, wrote, cause, failed⟩ : ∃ m ∈ Stage.story firstCall roleless,
      m.call = .vault (.write (rolePath (domainName "u")) _) ∧ ∃ cause, m.failure? = some cause :=
    ⟨_, List.mem_of_getElem? (i := 3) rfl, rfl, _, rfl⟩
  have deleted (p : String) : ¬ DeletionFailed p (Stage.story firstCall roleless) := Bool.false_ne_true
  obtain ⟨done, s, rest, -, -, ⟨e, refused, prefixed⟩, restored, -, -⟩ := failed_domain_undone (d := domainName "u")
    trivial rfl (fun p _ => engine_empty _ p) goes hm (rolePath_mem _) wrote failed deleted
  rw [refused] at goes
  exact ⟨_, _, e, cause, goes, restored, prefixed⟩

end Encryption

end Tenancy

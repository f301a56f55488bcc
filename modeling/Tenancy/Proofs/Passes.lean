import Tenancy.Proofs.StoreWrites

/-!
# The ways in which a pass can go

A pass writes to the store at its beginning and at its end; what it does to the other systems stands in
between. `prepare` is the middle of a deploy pass and `clear` that of a teardown pass (`deploy_eq`,
`teardown_eq`), and neither writes a status.

`Pass` lists the ways in which a pass over the stored tenant can go, each with what is stored at its end
and with the part of `prepare` or `clear` that was gone through. `pass_of_goes` says that there are no
others, so a fact about all passes has five cases, in which nothing is left to say about the store.
-/

namespace Tenancy.Lifecycle

open Rehearsal Rehearsal.World

/-! ## The middle of a pass -/

/-- Move everything but the namespaces and the hardware to what the tenant declares; the result is the
keys. -/
def applyOthers (t : Tenant) (fresh : Fresh) (recorded : Status) : Job KeyRecord := do
  Identity.ensureAdmin t.name
  let keys ← ensureKeys t (recorded.uuid.getD fresh.uuid) recorded.keys
  (staleChildren t).forM fun c => discard (Hierarchy.deleteChild t.name c)
  Dispatch.dispatch t.spec (if recorded.lastDeployed.isNone then .create else .update)
  return keys

def deployEvent (recorded : Status) : Event := if recorded.lastDeployed.isNone then .create else .update

/-- All of a deploy pass between its first writes and its last one; no keys if a namespace is not there
yet. -/
def prepare (settings : Settings) (fresh : Fresh) (t : Tenant) (recorded : Status) :
    Job (Option KeyRecord) := do
  match ← ensureNamespaces settings t with
  | .pending => return none
  | .ready =>
    Hardware.converge t.name .partition t.spec.resources t.recorded.resources
    Hardware.converge t.name .group t.spec.resources t.recorded.resources
    return some (← applyOthers t fresh recorded)

/-- Delete everything but the namespaces, and tell the hooks. -/
def clearOthers (t : Tenant) (recorded : Status) : Job Unit := do
  deleteCollections .partition t recorded
  deleteCollections .group t recorded
  discard (Identity.removeAdmin t.name)
  discard (Encryption.removeDomain recorded.keys)
  Dispatch.dispatch t.spec .delete

/-- All of a teardown pass between its first write and its last one. -/
def clear (settings : Settings) (t : Tenant) (recorded : Status) : Job Removal := do
  match ← deleteNamespaces settings t recorded with
  | .blocked => return .blocked
  | r =>
    clearOthers t recorded
    return r

theorem deploy_eq (settings : Settings) (fresh : Fresh) (t : Tenant) :
    deploy settings fresh t = do
      let recorded ← markDeploying t fresh
      match ← prepare settings fresh t recorded with
      | none => return .requeue 5
      | some keys =>
        discard (updateStatus t (deployedStatus t keys fresh.now))
        return .await := by
  unfold deploy prepare
  refine congrArg _ (funext fun recorded => ?_)
  rw [bind_assoc]
  refine congrArg _ (funext fun r => ?_)
  cases r with
  | pending => rfl
  | ready => simp only [applyDeclared, applyOthers, bind_assoc, pure_bind]

theorem teardown_eq (settings : Settings) (t : Tenant) :
    teardown settings t = do
      let recorded ← markDeleting t
      match ← clear settings t recorded with
      | .blocked => return .requeue 10
      | _ =>
        releaseFinalizer t tenantFinalizer
        return .await := by
  unfold teardown clear
  refine congrArg _ (funext fun recorded => ?_)
  rw [bind_assoc]
  refine congrArg _ (funext fun r => ?_)
  cases r with
  | blocked => rfl
  | removed => simp only [releaseRest, clearOthers, bind_assoc, pure_bind]
  | absent => simp only [releaseRest, clearOthers, bind_assoc, pure_bind]

/-- The ways in which a deploy pass can go, part after part. -/
inductive DeployGoes {σ : Type} (R : Conduct Services σ) (settings : Settings) (fresh : Fresh)
    (t : Tenant) (s : σ) : List (Moment Services σ) → Except Error Action → σ → Prop
  | unmarked {s' : σ} {tr : List (Moment Services σ)} {e : Error}
      (mark : (markDeploying t fresh).Goes R s tr (.error e) s') :
      DeployGoes R settings fresh t s tr (.error e) s'
  | failed {s₁ s' : σ} {tr₁ tr₂ : List (Moment Services σ)} {recorded : Status} {e : Error}
      (mark : (markDeploying t fresh).Goes R s tr₁ (.ok recorded) s₁)
      (middle : (prepare settings fresh t recorded).Goes R s₁ tr₂ (.error e) s') :
      DeployGoes R settings fresh t s (tr₁ ++ tr₂) (.error e) s'
  | pending {s₁ s' : σ} {tr₁ tr₂ : List (Moment Services σ)} {recorded : Status}
      (mark : (markDeploying t fresh).Goes R s tr₁ (.ok recorded) s₁)
      (middle : (prepare settings fresh t recorded).Goes R s₁ tr₂ (.ok none) s') :
      DeployGoes R settings fresh t s (tr₁ ++ tr₂) (.ok (.requeue 5)) s'
  | prepared {s₁ s₂ s' : σ} {tr₁ tr₂ tr₃ : List (Moment Services σ)} {recorded : Status}
      {keys : KeyRecord} {o : Except Error Status}
      (mark : (markDeploying t fresh).Goes R s tr₁ (.ok recorded) s₁)
      (middle : (prepare settings fresh t recorded).Goes R s₁ tr₂ (.ok (some keys)) s₂)
      (last : (updateStatus t (deployedStatus t keys fresh.now)).Goes R s₂ tr₃ o s') :
      DeployGoes R settings fresh t s (tr₁ ++ tr₂ ++ tr₃) ((fun _ => .await) <$> o) s'

theorem deploy_cases {σ : Type} {R : Conduct Services σ} {settings : Settings} {fresh : Fresh}
    {t : Tenant} {s s' : σ} {tr : List (Moment Services σ)} {o : Except Error Action}
    (h : (deploy settings fresh t).Goes R s tr o s') : DeployGoes R settings fresh t s tr o s' := by
  rw [deploy_eq] at h
  rcases Job.goes_bind h with ⟨e, rfl, mark⟩ | ⟨recorded, s₁, tr₁, _, mark, hrest, rfl⟩
  · exact .unmarked mark
  rcases Job.goes_bind hrest with ⟨e, rfl, middle⟩ | ⟨keys, s₂, tr₂, _, middle, hlast, rfl⟩
  · exact .failed mark middle
  cases keys with
  | none =>
    obtain ⟨rfl, rfl, rfl⟩ := Job.goes_pure hlast
    rw [List.append_nil]
    exact .pending mark middle
  | some keys =>
    rw [← List.append_assoc]
    rcases Job.goes_bind hlast with ⟨e, rfl, hu⟩ | ⟨_, s₃, tr₃, tr₄, hu, hend, rfl⟩
    · obtain ⟨o', last, ho⟩ := Job.goes_discard hu
      cases o' with
      | ok a => cases ho
      | error e' =>
        cases ho
        exact .prepared mark middle last
    · obtain ⟨rfl, rfl, rfl⟩ := Job.goes_pure hend
      obtain ⟨a, last⟩ := Job.goes_discard_ok hu
      rw [List.append_nil]
      exact .prepared mark middle last

/-- The ways in which a teardown pass can go, part after part. -/
inductive TeardownGoes {σ : Type} (R : Conduct Services σ) (settings : Settings) (t : Tenant) (s : σ) :
    List (Moment Services σ) → Except Error Action → σ → Prop
  | unmarked {s' : σ} {tr : List (Moment Services σ)} {e : Error}
      (mark : (markDeleting t).Goes R s tr (.error e) s') :
      TeardownGoes R settings t s tr (.error e) s'
  | failed {s₁ s' : σ} {tr₁ tr₂ : List (Moment Services σ)} {recorded : Status} {e : Error}
      (mark : (markDeleting t).Goes R s tr₁ (.ok recorded) s₁)
      (middle : (clear settings t recorded).Goes R s₁ tr₂ (.error e) s') :
      TeardownGoes R settings t s (tr₁ ++ tr₂) (.error e) s'
  | blocked {s₁ s' : σ} {tr₁ tr₂ : List (Moment Services σ)} {recorded : Status}
      (mark : (markDeleting t).Goes R s tr₁ (.ok recorded) s₁)
      (middle : (clear settings t recorded).Goes R s₁ tr₂ (.ok .blocked) s') :
      TeardownGoes R settings t s (tr₁ ++ tr₂) (.ok (.requeue 10)) s'
  | cleared {s₁ s₂ s' : σ} {tr₁ tr₂ tr₃ : List (Moment Services σ)} {recorded : Status} {r : Removal}
      {o : Except Error Unit} (mark : (markDeleting t).Goes R s tr₁ (.ok recorded) s₁)
      (middle : (clear settings t recorded).Goes R s₁ tr₂ (.ok r) s₂) (unblocked : r ≠ .blocked)
      (release : (releaseFinalizer t tenantFinalizer).Goes R s₂ tr₃ o s') :
      TeardownGoes R settings t s (tr₁ ++ tr₂ ++ tr₃) ((fun _ => .await) <$> o) s'

theorem teardown_cases {σ : Type} {R : Conduct Services σ} {settings : Settings} {t : Tenant} {s s' : σ}
    {tr : List (Moment Services σ)} {o : Except Error Action}
    (h : (teardown settings t).Goes R s tr o s') : TeardownGoes R settings t s tr o s' := by
  rw [teardown_eq] at h
  rcases Job.goes_bind h with ⟨e, rfl, mark⟩ | ⟨recorded, s₁, tr₁, _, mark, hrest, rfl⟩
  · exact .unmarked mark
  rcases Job.goes_bind hrest with ⟨e, rfl, middle⟩ | ⟨r, s₂, tr₂, tr₃, middle, hlast, rfl⟩
  · exact .failed mark middle
  by_cases unblocked : r = .blocked
  · subst unblocked
    obtain ⟨rfl, rfl, rfl⟩ := Job.goes_pure hlast
    rw [List.append_nil]
    exact .blocked mark middle
  · -- what was removed and what was absent lead to the same end
    have hlast : ((fun _ => Action.await) <$> releaseFinalizer t tenantFinalizer).Goes R s₂ tr₃ o s' := by
      cases r with
      | blocked => exact absurd rfl unblocked
      | removed => exact hlast
      | absent => exact hlast
    obtain ⟨o', release, rfl⟩ := Job.goes_map hlast
    rw [← List.append_assoc]
    exact .cleared mark middle unblocked release

/-- Take away the request for a key update of a tenant that wants no keys. -/
def dropRequest (t : Tenant) : Job Unit :=
  if t.spec.requiresKeyUpdate && !t.spec.keys.enabled then clearKeyUpdate t else pure ()

theorem maintain_eq (settings : Settings) (fresh : Fresh) (t : Tenant) :
    maintain settings fresh t = (do
      dropRequest t
      if isSettled t then return .await
      deploy settings fresh t) := by
  unfold maintain dropRequest
  dsimp only
  split
  · rfl
  · rw [pure_bind]

/-- The ways in which a pass can go, by what it finds. -/
inductive ReconcileGoes {σ : Type} (R : Conduct Services σ) (settings : Settings) (fresh : Fresh)
    (t : Tenant) (s : σ) : List (Moment Services σ) → Except Error Action → σ → Prop
  | gone (requested : t.deletionRequested = true) (unheld : t.hasFinalizer tenantFinalizer = false) :
      ReconcileGoes R settings fresh t s [] (.ok .await) s
  | teardown {s' : σ} {tr : List (Moment Services σ)} {o : Except Error Action}
      (requested : t.deletionRequested = true) (held : t.hasFinalizer tenantFinalizer = true)
      (goes : (teardown settings t).Goes R s tr o s') : ReconcileGoes R settings fresh t s tr o s'
  | attach {s' : σ} {tr : List (Moment Services σ)} {o : Except Error Unit}
      (alive : t.deletionRequested = false) (unheld : t.hasFinalizer tenantFinalizer = false)
      (goes : (addFinalizer t tenantFinalizer).Goes R s tr o s') :
      ReconcileGoes R settings fresh t s tr ((fun _ => .requeue 1) <$> o) s'
  | undropped {s' : σ} {tr : List (Moment Services σ)} {e : Error} (alive : t.deletionRequested = false)
      (drop : (dropRequest t).Goes R s tr (.error e) s') :
      ReconcileGoes R settings fresh t s tr (.error e) s'
  | settled {s' : σ} {tr : List (Moment Services σ)} (alive : t.deletionRequested = false)
      (held : t.hasFinalizer tenantFinalizer = true) (settled : isSettled t = true)
      (drop : (dropRequest t).Goes R s tr (.ok ()) s') :
      ReconcileGoes R settings fresh t s tr (.ok .await) s'
  | deploy {s₁ s' : σ} {tr₁ tr₂ : List (Moment Services σ)} {o : Except Error Action}
      (alive : t.deletionRequested = false) (held : t.hasFinalizer tenantFinalizer = true)
      (unsettled : isSettled t = false) (drop : (dropRequest t).Goes R s tr₁ (.ok ()) s₁)
      (goes : (deploy settings fresh t).Goes R s₁ tr₂ o s') :
      ReconcileGoes R settings fresh t s (tr₁ ++ tr₂) o s'

theorem reconcile_cases {σ : Type} {R : Conduct Services σ} {settings : Settings} {fresh : Fresh}
    {t : Tenant} {s s' : σ} {tr : List (Moment Services σ)} {o : Except Error Action}
    (h : (reconcile settings fresh t).Goes R s tr o s') : ReconcileGoes R settings fresh t s tr o s' := by
  unfold reconcile at h
  split at h
  · next requested =>
    split at h
    · next held => exact .teardown requested held h
    · next unheld =>
      obtain ⟨rfl, rfl, rfl⟩ := Job.goes_pure h
      exact .gone requested (by simpa using unheld)
  · next alive =>
    rw [Bool.not_eq_true] at alive
    split at h
    · next held =>
      rw [maintain_eq] at h
      rcases Job.goes_bind h with ⟨e, rfl, drop⟩ | ⟨_, s₁, tr₁, tr₂, drop, hrest, rfl⟩
      · exact .undropped alive drop
      · split at hrest
        · next settled =>
          obtain ⟨rfl, rfl, rfl⟩ := Job.goes_pure hrest
          rw [List.append_nil]
          exact .settled alive held settled drop
        · next unsettled => exact .deploy alive held (by simpa using unsettled) drop hrest
    · next unheld =>
      obtain ⟨o', goes, rfl⟩ := Job.goes_map (f := fun _ => Action.requeue 1) h
      exact .attach alive (by simpa using unheld) goes

/-- A deploy pass that came through all systems has come through each of them. -/
theorem prepare_ok {σ : Type} {R : Conduct Services σ} {settings : Settings} {fresh : Fresh} {t : Tenant}
    {recorded : Status} {s s' : σ} {tr : List (Moment Services σ)} {keys : KeyRecord}
    (h : (prepare settings fresh t recorded).Goes R s tr (.ok (some keys)) s') :
    ∃ s₁ s₂ s₃ tr₁ tr₂ tr₃ tr₄,
      (ensureNamespaces settings t).Goes R s tr₁ (.ok .ready) s₁ ∧
      (Hardware.converge t.name .partition t.spec.resources t.recorded.resources).Goes R s₁ tr₂
        (.ok ()) s₂ ∧
      (Hardware.converge t.name .group t.spec.resources t.recorded.resources).Goes R s₂ tr₃ (.ok ()) s₃ ∧
      (applyOthers t fresh recorded).Goes R s₃ tr₄ (.ok keys) s' ∧ tr = tr₁ ++ tr₂ ++ tr₃ ++ tr₄ := by
  obtain ⟨r, s₁, tr₁, _, h₁, hrest, rfl⟩ := Job.goes_bind_ok h
  cases r with
  | pending =>
    obtain ⟨_, ho, _⟩ := Job.goes_pure hrest
    cases ho
  | ready =>
    obtain ⟨_, s₂, tr₂, _, h₂, hrest₂, rfl⟩ := Job.goes_bind_ok hrest
    obtain ⟨_, s₃, tr₃, _, h₃, hrest₃, rfl⟩ := Job.goes_bind_ok hrest₂
    obtain ⟨keys', s₄, tr₄, _, h₄, hend, rfl⟩ := Job.goes_bind_ok hrest₃
    obtain ⟨rfl, ho, rfl⟩ := Job.goes_pure hend
    cases ho
    exact ⟨s₁, s₂, s₃, tr₁, tr₂, tr₃, tr₄, h₁, h₂, h₃, h₄, by simp⟩

/-- A tenant that wants keys has a domain afterwards, and the request for a key update was taken away last;
otherwise nothing was done. -/
theorem ensureKeys_ok {σ : Type} {R : Conduct Services σ} {t : Tenant} {uuid : String} {s s' : σ}
    {tr : List (Moment Services σ)} {recorded keys : KeyRecord}
    (h : (ensureKeys t uuid recorded).Goes R s tr (.ok keys) s') :
    t.spec.keys.enabled = false ∧ keys = recorded ∨
      ∃ s₁ tr₁ tr₂, (Encryption.ensureDomain t.name uuid t.spec.keys recorded
          t.spec.requiresKeyUpdate).Goes R s tr₁ (.ok keys) s₁ ∧
        (t.spec.requiresKeyUpdate = true → (clearKeyUpdate t).Goes R s₁ tr₂ (.ok ()) s') := by
  unfold ensureKeys at h
  split at h
  · obtain ⟨_, s₁, tr₁, tr₂, hdomain, hrest, _⟩ := Job.goes_bind_ok h
    dsimp only at hrest
    split at hrest
    · obtain ⟨_, _, tr₃, _, hclear, hend, _⟩ := Job.goes_bind_ok hrest
      obtain ⟨_, ho, rfl⟩ := Job.goes_pure hend
      cases ho
      exact .inr ⟨s₁, tr₁, tr₃, hdomain, fun _ => hclear⟩
    · next unrequested =>
      obtain ⟨_, ho, _⟩ := Job.goes_pure hrest
      cases ho
      exact .inr ⟨s₁, tr₁, [], hdomain, fun requested => absurd requested unrequested⟩
  · next disabled =>
    obtain ⟨_, ho, _⟩ := Job.goes_pure h
    exact .inl ⟨by simpa using disabled, Except.ok.inj ho⟩

theorem applyOthers_ok {σ : Type} {R : Conduct Services σ} {fresh : Fresh} {t : Tenant}
    {recorded : Status} {s s' : σ} {tr : List (Moment Services σ)} {keys : KeyRecord}
    (h : (applyOthers t fresh recorded).Goes R s tr (.ok keys) s') :
    ∃ s₁ s₂ s₃ tr₁ tr₂ tr₃ tr₄, (Identity.ensureAdmin t.name).Goes R s tr₁ (.ok ()) s₁ ∧
      (ensureKeys t (recorded.uuid.getD fresh.uuid) recorded.keys).Goes R s₁ tr₂ (.ok keys) s₂ ∧
      Job.Goes R ((staleChildren t).forM fun c => discard (Hierarchy.deleteChild t.name c)) s₂ tr₃
        (.ok ()) s₃ ∧
      (Dispatch.dispatch t.spec (deployEvent recorded)).Goes R s₃ tr₄ (.ok ()) s' ∧
      tr = tr₁ ++ tr₂ ++ tr₃ ++ tr₄ := by
  obtain ⟨_, s₁, tr₁, _, h₁, hrest, rfl⟩ := Job.goes_bind_ok h
  obtain ⟨_, s₂, tr₂, _, h₂, hrest₂, rfl⟩ := Job.goes_bind_ok hrest
  obtain ⟨_, s₃, tr₃, _, h₃, hrest₃, rfl⟩ := Job.goes_bind_ok hrest₂
  obtain ⟨_, s₄, tr₄, _, h₄, hend, rfl⟩ := Job.goes_bind_ok hrest₃
  obtain ⟨rfl, ho, rfl⟩ := Job.goes_pure hend
  cases ho
  exact ⟨s₁, s₂, s₃, tr₁, tr₂, tr₃, tr₄, h₁, h₂, h₃, h₄, by simp⟩

theorem clearOthers_ok {σ : Type} {R : Conduct Services σ} {t : Tenant} {recorded : Status} {s s' : σ}
    {tr : List (Moment Services σ)} (h : (clearOthers t recorded).Goes R s tr (.ok ()) s') :
    ∃ s₁ s₂ s₃ s₄ tr₁ tr₂ tr₃ tr₄ tr₅ r₃ r₄,
      (deleteCollections .partition t recorded).Goes R s tr₁ (.ok ()) s₁ ∧
      (deleteCollections .group t recorded).Goes R s₁ tr₂ (.ok ()) s₂ ∧
      (Identity.removeAdmin t.name).Goes R s₂ tr₃ (.ok r₃) s₃ ∧
      (Encryption.removeDomain recorded.keys).Goes R s₃ tr₄ (.ok r₄) s₄ ∧
      (Dispatch.dispatch t.spec .delete).Goes R s₄ tr₅ (.ok ()) s' := by
  obtain ⟨_, s₁, tr₁, _, h₁, hrest, _⟩ := Job.goes_bind_ok h
  obtain ⟨_, s₂, tr₂, _, h₂, hrest₂, _⟩ := Job.goes_bind_ok hrest
  obtain ⟨_, s₃, tr₃, _, h₃, hrest₃, _⟩ := Job.goes_bind_ok hrest₂
  obtain ⟨_, s₄, tr₄, tr₅, h₄, h₅, _⟩ := Job.goes_bind_ok hrest₃
  obtain ⟨r₃, h₃⟩ := Job.goes_discard_ok h₃
  obtain ⟨r₄, h₄⟩ := Job.goes_discard_ok h₄
  exact ⟨s₁, s₂, s₃, s₄, tr₁, tr₂, tr₃, tr₄, tr₅, r₃, r₄, h₁, h₂, h₃, h₄, h₅⟩

/-- A teardown pass that is not blocked has deleted the namespaces and then everything else. -/
theorem clear_ok {σ : Type} {R : Conduct Services σ} {settings : Settings} {t : Tenant}
    {recorded : Status} {s s' : σ} {tr : List (Moment Services σ)} {r : Removal}
    (h : (clear settings t recorded).Goes R s tr (.ok r) s') (unblocked : r ≠ .blocked) :
    ∃ s₁ tr₁ tr₂, (deleteNamespaces settings t recorded).Goes R s tr₁ (.ok r) s₁ ∧
      (clearOthers t recorded).Goes R s₁ tr₂ (.ok ()) s' := by
  obtain ⟨r₁, s₁, tr₁, _, h₁, hrest, _⟩ := Job.goes_bind_ok h
  cases r₁ with
  | blocked =>
    obtain ⟨_, ho, _⟩ := Job.goes_pure hrest
    exact absurd (Except.ok.inj ho) unblocked
  | removed =>
    obtain ⟨_, s₂, tr₂, _, h₂, hend, _⟩ := Job.goes_bind_ok hrest
    obtain ⟨_, ho, rfl⟩ := Job.goes_pure hend
    exact ⟨s₁, tr₁, tr₂, Except.ok.inj ho ▸ h₁, h₂⟩
  | absent =>
    obtain ⟨_, s₂, tr₂, _, h₂, hend, _⟩ := Job.goes_bind_ok hrest
    obtain ⟨_, ho, rfl⟩ := Job.goes_pure hend
    exact ⟨s₁, tr₁, tr₂, Except.ok.inj ho ▸ h₁, h₂⟩

section

variable {p : Call → Prop} {settings : Settings} {fresh : Fresh} {t : Tenant} {recorded : Status}

theorem asks_ensureKeys {uuid : String} {recorded : KeyRecord}
    (keys : t.spec.keys.enabled = true → ∀ c,
      Encryption.Ensures (recorded.domain.getD (Encryption.domainName uuid)) c → p (.vault c))
    (rotated : t.spec.requiresKeyUpdate = true → p (.store (.clearKeyUpdate t))) : (ensureKeys t uuid recorded).Asks p := by
  unfold ensureKeys
  split
  · next enabled =>
    refine Job.asks_bind (Encryption.asks_ensureDomain (keys enabled)) fun _ => ?_
    dsimp only
    split
    · next rotate => exact Job.asks_bind (Job.asks_call (rotated rotate)) fun _ => Job.asks_pure
    · exact Job.asks_pure
  · exact Job.asks_pure

theorem asks_applyOthers (identity : ∀ c, Identity.Ensures t.name c → p (.identity c))
    (keys : t.spec.keys.enabled = true → ∀ c,
      Encryption.Ensures (recorded.keys.domain.getD
        (Encryption.domainName (recorded.uuid.getD fresh.uuid))) c → p (.vault c))
    (rotated : t.spec.requiresKeyUpdate = true → p (.store (.clearKeyUpdate t)))
    (stale : ∀ c ∈ staleChildren t, p (.hierarchy (.deleteAnchor t.name c)))
    (hooks : ∀ c, Dispatch.Tells t.spec (deployEvent recorded) c → p (.hook c)) :
    (applyOthers t fresh recorded).Asks p := by
  refine Job.asks_bind (Identity.asks_ensureAdmin identity) fun _ => ?_
  refine Job.asks_bind (asks_ensureKeys keys rotated) fun keys => ?_
  refine Job.asks_bind (Job.asks_forM fun c hc => ?_) fun _ => ?_
  · exact Job.asks_discard (Hierarchy.asks_removeAnchor (stale c hc))
  · exact Job.asks_bind (Dispatch.asks_dispatch hooks) fun _ => Job.asks_pure

theorem asks_prepare (spaces : ∀ c, Namespaces settings t c → p (.hierarchy c))
    (hardware : ∀ k c, Hardware.Moves t.name k t.spec.resources t.recorded.resources c → p (.hardware c))
    (identity : ∀ c, Identity.Ensures t.name c → p (.identity c))
    (keys : t.spec.keys.enabled = true → ∀ c,
      Encryption.Ensures (recorded.keys.domain.getD
        (Encryption.domainName (recorded.uuid.getD fresh.uuid))) c → p (.vault c))
    (rotated : t.spec.requiresKeyUpdate = true → p (.store (.clearKeyUpdate t)))
    (stale : ∀ c ∈ staleChildren t, p (.hierarchy (.deleteAnchor t.name c)))
    (hooks : ∀ c, Dispatch.Tells t.spec (deployEvent recorded) c → p (.hook c)) :
    (prepare settings fresh t recorded).Asks p := by
  refine Job.asks_bind (asks_ensureNamespaces spaces) fun r => ?_
  cases r with
  | pending => exact Job.asks_pure
  | ready =>
    refine Job.asks_bind (Hardware.asks_converge (hardware _)) fun _ => ?_
    refine Job.asks_bind (Hardware.asks_converge (hardware _)) fun _ => ?_
    exact Job.asks_bind (asks_applyOthers identity keys rotated stale hooks) fun _ => Job.asks_pure

theorem prepare_asks_moves : (prepare settings fresh t recorded).Asks fun c =>
    ∀ q : HardwareCall, c = .hardware q →
      ∃ k, Hardware.Moves t.name k t.spec.resources t.recorded.resources q := by
  apply asks_prepare
  case hardware =>
    intro k c hc c' he
    cases he
    exact ⟨k, hc⟩
  all_goals
    intros
    rename_i he
    cases he

theorem asks_deleteCollections {k : Kind}
    (collections : ∀ n ∈ Collection.namesOf k [t.spec.resources, recorded.resources],
      p (.hardware (.delete k n))) : (deleteCollections k t recorded).Asks p :=
  Job.asks_forM fun n hn => Job.asks_discard (Hardware.asks_removeCollection (collections n hn))

theorem asks_clearOthers
    (collections : ∀ k, ∀ n ∈ Collection.namesOf k [t.spec.resources, recorded.resources],
      p (.hardware (.delete k n)))
    (identity : ∀ c, p (.identity c))
    (read : ∀ d ∈ recorded.keys.domain, p (.vault (.read (Encryption.mountPath d))))
    (keys : ∀ d ∈ recorded.keys.domain, ∀ path ∈ Encryption.domainPaths d, p (.vault (.delete path)))
    (hooks : ∀ c, Dispatch.Tells t.spec .delete c → p (.hook c)) : (clearOthers t recorded).Asks p := by
  refine Job.asks_bind (asks_deleteCollections (collections _)) fun _ => ?_
  refine Job.asks_bind (asks_deleteCollections (collections _)) fun _ => ?_
  refine Job.asks_bind (Job.asks_discard (Identity.asks_removeAdmin identity)) fun _ => ?_
  refine Job.asks_bind (Job.asks_discard (Encryption.asks_removeDomain read keys)) fun _ => ?_
  exact Dispatch.asks_dispatch hooks

theorem asks_deleteChildren {name : String} {cs : List String}
    (children : ∀ c ∈ cs, p (.hierarchy (.deleteAnchor name c))) : (deleteChildren name cs).Asks p := by
  induction cs with
  | nil => exact Job.asks_pure
  | cons c cs ih =>
    refine Job.asks_bind (Hierarchy.asks_removeAnchor (children c (by simp))) fun r => ?_
    have ih := ih fun d hd => children d (by simp [hd])
    cases r with
    | blocked => exact Job.asks_pure
    | removed => exact ih
    | absent => exact ih

theorem asks_deleteNamespaces
    (children : ∀ c ∈ allChildren t recorded, p (.hierarchy (.deleteAnchor t.name c)))
    (root : p (.hierarchy (.deleteAnchor settings.root t.name))) :
    (deleteNamespaces settings t recorded).Asks p := by
  have last : (Hierarchy.deleteRoot settings.root t.name).Asks p := Hierarchy.asks_removeAnchor root
  refine Job.asks_bind (asks_deleteChildren children) fun r => ?_
  cases r with
  | blocked => exact Job.asks_pure
  | removed => exact last
  | absent => exact last

theorem asks_clear (children : ∀ c ∈ allChildren t recorded, p (.hierarchy (.deleteAnchor t.name c)))
    (root : p (.hierarchy (.deleteAnchor settings.root t.name)))
    (collections : ∀ k, ∀ n ∈ Collection.namesOf k [t.spec.resources, recorded.resources],
      p (.hardware (.delete k n)))
    (identity : ∀ c, p (.identity c))
    (read : ∀ d ∈ recorded.keys.domain, p (.vault (.read (Encryption.mountPath d))))
    (keys : ∀ d ∈ recorded.keys.domain, ∀ path ∈ Encryption.domainPaths d, p (.vault (.delete path)))
    (hooks : ∀ c, Dispatch.Tells t.spec .delete c → p (.hook c)) : (clear settings t recorded).Asks p := by
  have others := asks_clearOthers collections identity read keys hooks
  refine Job.asks_bind (asks_deleteNamespaces children root) fun r => ?_
  cases r with
  | blocked => exact Job.asks_pure
  | removed => exact Job.asks_bind others fun _ => Job.asks_pure
  | absent => exact Job.asks_bind others fun _ => Job.asks_pure

theorem asks_dropRequest (unwanted : t.spec.requiresKeyUpdate = true → p (.store (.clearKeyUpdate t))) :
    (dropRequest t).Asks p := by
  unfold dropRequest
  split
  · next h => exact Job.asks_call (unwanted (Bool.and_eq_true_iff.1 h).1)
  · exact Job.asks_pure

/-! A pass makes any calls to the other systems; those to the store are of five kinds. -/

variable (others : ∀ c, c.system ≠ .store → p c) (get : ∀ space name, p (.store (.get space name)))
  (replace : ∀ copy s, p (.store (.replaceStatus copy s)))

include others get replace

theorem asks_deploy (rotated : t.spec.requiresKeyUpdate = true → p (.store (.clearKeyUpdate t))) :
    (deploy settings fresh t).Asks p := by
  rw [deploy_eq]
  refine Job.asks_bind (asks_markDeploying get fun copy s _ => replace copy s) fun recorded => ?_
  refine Job.asks_bind ?_ fun keys => ?_
  · apply asks_prepare
    case rotated => exact rotated
    all_goals
      intros
      exact others _ nofun
  · cases keys with
    | none => exact Job.asks_pure
    | some keys =>
      refine Job.asks_bind (Job.asks_discard (asks_updateStatus get fun copy => ?_)) fun _ => Job.asks_pure
      exact replace copy _

theorem asks_teardown (remove : ∀ copy f, p (.store (.removeFinalizer copy f))) :
    (teardown settings t).Asks p := by
  rw [teardown_eq]
  refine Job.asks_bind (asks_markDeleting get replace) fun recorded => ?_
  refine Job.asks_bind ?_ fun r => ?_
  · apply asks_clear
    all_goals
      intros
      exact others _ nofun
  · have last : (releaseFinalizer t tenantFinalizer).Asks p := asks_releaseFinalizer get fun _ => remove _ _
    cases r with
    | blocked => exact Job.asks_pure
    | removed => exact Job.asks_bind last fun _ => Job.asks_pure
    | absent => exact Job.asks_bind last fun _ => Job.asks_pure

theorem asks_reconcile (add : ∀ copy f, p (.store (.addFinalizer copy f)))
    (remove : ∀ copy f, p (.store (.removeFinalizer copy f)))
    (clear : t.spec.requiresKeyUpdate = true → p (.store (.clearKeyUpdate t))) :
    (reconcile settings fresh t).Asks p := by
  unfold reconcile
  split
  · split
    · exact asks_teardown others get replace remove
    · exact Job.asks_pure
  · split
    · rw [maintain_eq]
      refine Job.asks_bind (asks_dropRequest clear) fun _ => ?_
      split
      · exact Job.asks_pure
      · exact asks_deploy others get replace clear
    · exact Job.asks_bind (Job.asks_call (add _ _)) fun _ => Job.asks_pure

end

/-! ## What is stored in the course of a pass -/

/-- What is recorded while a deploy pass is under way. -/
def deployingStatus (fresh : Fresh) (s : Status) : Status :=
  { s with phase := some .deploying, uuid := some (s.uuid.getD fresh.uuid) }

/-- What is recorded while a tenant is taken down. -/
def deletingStatus (s : Status) : Status := { s with phase := some .deleting }

/-- The store keeps what passes leave of a tenant, with this status. -/
def Stores (t : Tenant) (s : Status) (w : World) : Prop :=
  ∃ t', w.tenant = some t' ∧ (t.Tended t' ∧ t.Held t') ∧ t'.recorded = s

/-- Of the systems that are relied on only the store may have changed. -/
def OthersSame (kept : BackingSystem → Prop) (w w' : World) : Prop :=
  ∀ s, kept s → s ≠ .store → SameFor s w w'

/-- A status was written that says that the tenant is deployed. -/
def WritesDeployed {σ : Type} (tr : List (Moment Services σ)) : Prop :=
  ∃ s ∈ written tr, s.phase = some .deployed

instance {σ : Type} (tr : List (Moment Services σ)) : Decidable (WritesDeployed tr) :=
  inferInstanceAs (Decidable (∃ s ∈ written tr, s.phase = some .deployed))

variable {kept : BackingSystem → Prop} {fails : Call → Error → Prop} {settings : Settings}
  {fresh : Fresh} {t : Tenant} {s : Status} {w w' w'' : World} {tr tr' : List (Moment Services World)}

theorem OthersSame.refl (w : World) : OthersSame kept w w := fun s _ _ => .refl s w

theorem OthersSame.trans (h : OthersSame kept w w') (h' : OthersSame kept w' w'') :
    OthersSame kept w w'' := fun s hk hs => (h s hk hs).trans (h' s hk hs)

theorem othersSame_of_asks {α : Type} {j : Job α} {o : Except Error α}
    (h : j.Goes (conduct kept fails) w tr o w') (hj : j.Asks fun c => c.system = .store) :
    OthersSame kept w w' := fun s hk hs =>
  sameFor_of_asks h hk (hj.mono fun c hc => by rw [hc]; exact Ne.symm hs)

theorem not_writesDeployed_of_nil {σ : Type} {tr : List (Moment Services σ)} (h : written tr = []) :
    ¬ WritesDeployed tr := by
  simp [WritesDeployed, h]

theorem writesDeployed_append {σ : Type} {tr tr' : List (Moment Services σ)} :
    WritesDeployed (tr ++ tr') ↔ WritesDeployed tr ∨ WritesDeployed tr' := by
  simp only [WritesDeployed, written_append, List.mem_append, or_and_right, exists_or]

/-- A call of which the store learns no status and no finalizer to detach. -/
def Mild (c : Call) : Prop := ∀ sc, c = .store sc → sc.writesStatus = false ∧ sc.detaches = false

theorem mild_of_system {c : Call} (h : c.system ≠ .store) : Mild c := by
  rintro sc rfl
  exact absurd rfl h

/-- A job that makes only mild calls leaves stored what is. -/
theorem stores_of_asks (hk : kept .store) {α : Type} {j : Job α} {o : Except Error α}
    (h : j.Goes (conduct kept fails) w tr o w') (hj : j.Asks Mild) (hw : Stores t s w) :
    Stores t s w' ∧ written tr = [] := by
  constructor
  · refine stored_of_asks hk h hj (P := fun t' => (t.Tended t' ∧ t.Held t') ∧ t'.recorded = s) ?_ hw
    rintro c hc t' ⟨⟨tended, held⟩, rfl⟩
    obtain ⟨hs, hd⟩ := hc c rfl
    refine ⟨⟨tended.trans (StoreCall.tended_write c t'), ?_⟩, StoreCall.recorded_write hs t'⟩
    exact fun f hf => StoreCall.held_write hd t' f (held f hf)
  · exact written_of_asks h (hj.mono fun c hc sc e => (hc sc e).1)

theorem prepare_asks_mild (recorded : Status) : (prepare settings fresh t recorded).Asks Mild := by
  apply asks_prepare
  case rotated =>
    intro _ sc hc
    cases hc
    exact ⟨rfl, rfl⟩
  all_goals
    intros
    exact mild_of_system nofun

theorem clearKeyUpdate_asks_mild : (clearKeyUpdate t).Asks Mild := by
  refine Job.asks_call fun sc hc => ?_
  cases hc
  exact ⟨rfl, rfl⟩

theorem dropRequest_asks_mild : (dropRequest t).Asks Mild := by
  unfold dropRequest
  split
  · exact clearKeyUpdate_asks_mild
  · exact Job.asks_pure

theorem dropRequest_asks_store : (dropRequest t).Asks fun c => c.system = .store := by
  unfold dropRequest
  split
  · exact Job.asks_call rfl
  · exact Job.asks_pure

theorem clear_asks_mild (recorded : Status) : (clear settings t recorded).Asks Mild := by
  apply asks_clear
  all_goals
    intros
    exact mild_of_system nofun

/-- A change of the status stores the changed status, or what is stored stays. -/
theorem updateStatus_stores (hk : kept .store) {change : Status → Status} {o : Except Error Status}
    {u : Tenant} (h : (updateStatus u change).Goes (conduct kept fails) w tr o w') (hw : Stores t s w) :
    (o = .ok (change s) ∧ Stores t (change s) w' ∧ written tr = [change s]) ∨
      (∃ e, o = .error e ∧ Stores t s w' ∧ written tr = []) := by
  obtain ⟨t', ht', ⟨tended, held⟩, rfl⟩ := hw
  rcases updateStatus_cases hk h ht' with ⟨rfl, hw', htr⟩ | ⟨e, rfl, hw', htr⟩
  · have ht : t'.Tended (t'.withStatus (change t'.recorded)) :=
      StoreCall.tended_write (.replaceStatus t' _) t'
    exact .inl ⟨rfl, ⟨_, hw', ⟨tended.trans ht, held⟩, rfl⟩, htr⟩
  · exact .inr ⟨e, rfl, ⟨t', hw'.trans ht', ⟨tended, held⟩, rfl⟩, htr⟩

theorem markDeploying_stores (hk : kept .store) {o : Except Error Status}
    (h : (markDeploying t fresh).Goes (conduct kept fails) w tr o w') (hw : Stores t t.recorded w) :
    ¬ WritesDeployed tr ∧
      ((o = .ok (deployingStatus fresh t.recorded) ∧ Stores t (deployingStatus fresh t.recorded) w') ∨
        (∃ e p, o = .error e ∧ p.getD .new = t.phase ∧ Stores t { t.recorded with phase := p } w')) := by
  have last {s : Status} {w w' : World} {tr : List (Moment Services World)} {o : Except Error Status}
      (h : (updateStatus t fun s => { s with
        phase := some .deploying, uuid := some (s.uuid.getD fresh.uuid) }).Goes
          (conduct kept fails) w tr o w') (hw : Stores t s w) :
      ¬ WritesDeployed tr ∧ ((o = .ok (deployingStatus fresh s) ∧ Stores t (deployingStatus fresh s) w') ∨
        (∃ e, o = .error e ∧ Stores t s w')) := by
    rcases updateStatus_stores hk h hw with ⟨rfl, hw', htr⟩ | ⟨e, rfl, hw', htr⟩
    · exact ⟨by simp [WritesDeployed, htr], .inl ⟨rfl, hw'⟩⟩
    · exact ⟨not_writesDeployed_of_nil htr, .inr ⟨e, rfl, hw'⟩⟩
  unfold markDeploying at h
  dsimp only at h
  split at h
  · next hp =>
    have hp : t.recorded.phase = none := by simpa using hp
    have hnew : t.phase = .new := by simp [Tenant.phase, hp]
    rcases Job.goes_bind h with ⟨e, rfl, h₁⟩ | ⟨_, w₁, tr₁, tr₂, h₁, h₂, rfl⟩
    · obtain ⟨o', h₁, ho⟩ := Job.goes_discard h₁
      rcases updateStatus_stores hk h₁ hw with ⟨rfl, _⟩ | ⟨_, _, hw', htr⟩
      · cases ho
      · exact ⟨not_writesDeployed_of_nil htr, .inr ⟨e, t.recorded.phase, rfl, rfl, hw'⟩⟩
    · obtain ⟨o', h₁, ho⟩ := Job.goes_discard h₁
      rcases updateStatus_stores hk h₁ hw with ⟨_, hw₁, htr⟩ | ⟨_, rfl, _⟩
      · have hq : ¬ WritesDeployed tr₁ := by simp [WritesDeployed, htr]
        obtain ⟨hq', h'⟩ := last h₂ hw₁
        refine ⟨fun hd => (writesDeployed_append.1 hd).elim hq hq', ?_⟩
        rcases h' with ⟨rfl, hw'⟩ | ⟨e, rfl, hw'⟩
        · exact .inl ⟨rfl, hw'⟩
        · exact .inr ⟨e, some .new, rfl, hnew.symm, hw'⟩
      · cases ho
  · obtain ⟨hq, ⟨rfl, hw'⟩ | ⟨e, rfl, hw'⟩⟩ := last h hw
    · exact ⟨hq, .inl ⟨rfl, hw'⟩⟩
    · exact ⟨hq, .inr ⟨e, t.recorded.phase, rfl, rfl, hw'⟩⟩

theorem getD_new_eq_deleting {p : Option Phase} : p.getD .new = .deleting ↔ p = some .deleting := by
  cases p with
  | none => exact ⟨nofun, nofun⟩
  | some p => exact Option.some_inj.symm

theorem markDeleting_stores (hk : kept .store) {o : Except Error Status}
    (h : (markDeleting t).Goes (conduct kept fails) w tr o w') (hw : Stores t t.recorded w) :
    ¬ WritesDeployed tr ∧
      ((o = .ok (deletingStatus t.recorded) ∧ Stores t (deletingStatus t.recorded) w') ∨
        (∃ e, o = .error e ∧ Stores t t.recorded w')) := by
  unfold markDeleting at h
  split at h
  · next hp =>
    obtain ⟨rfl, rfl, rfl⟩ := Job.goes_pure h
    have hr : deletingStatus t.recorded = t.recorded := by
      rw [deletingStatus, ← getD_new_eq_deleting.1 hp]
    rw [hr]
    exact ⟨not_writesDeployed_of_nil rfl, .inl ⟨rfl, hw⟩⟩
  · rcases updateStatus_stores hk h hw with ⟨rfl, hw', htr⟩ | ⟨e, rfl, hw', htr⟩
    · exact ⟨by simp [WritesDeployed, htr], .inl ⟨rfl, hw'⟩⟩
    · exact ⟨not_writesDeployed_of_nil htr, .inr ⟨e, rfl, hw'⟩⟩

/-! ## Whole passes -/

/-- The ways in which a pass over the tenant that a world stores can go: what was asked and answered,
and the world at the end. -/
inductive Pass (kept : BackingSystem → Prop) (fails : Call → Error → Prop) (settings : Settings)
    (fresh : Fresh) (t : Tenant) (w : World) : List (Moment Services World) → World → Prop
  /-- Nothing was done to other systems. -/
  | idle {tr : List (Moment Services World)} {w' : World} {p : Option Phase}
      (quiet : ¬ WritesDeployed tr) (phase : p.getD .new = t.phase)
      (stored : Stores t { t.recorded with phase := p } w') (others : OthersSame kept w w') :
      Pass kept fails settings fresh t w tr w'
  /-- A deploy pass did not come to its end. -/
  | interrupted {tr tr' : List (Moment Services World)} {w₁ w₂ w' : World}
      {o : Except Error (Option KeyRecord)} (quiet : ¬ WritesDeployed tr)
      (alive : t.deletionRequested = false) (held : t.hasFinalizer tenantFinalizer = true)
      (begun : OthersSame kept w w₁)
      (middle : (prepare settings fresh t (deployingStatus fresh t.recorded)).Goes
        (conduct kept fails) w₁ tr' o w₂)
      (ended : OthersSame kept w₂ w') (stored : Stores t (deployingStatus fresh t.recorded) w') :
      Pass kept fails settings fresh t w tr w'
  /-- A deploy pass came to its end. -/
  | deployed {tr tr' : List (Moment Services World)} {w₁ w₂ w' : World} {keys : KeyRecord}
      (writes : WritesDeployed tr) (alive : t.deletionRequested = false)
      (held : t.hasFinalizer tenantFinalizer = true) (begun : OthersSame kept w w₁)
      (middle : (prepare settings fresh t (deployingStatus fresh t.recorded)).Goes
        (conduct kept fails) w₁ tr' (.ok (some keys)) w₂)
      (ended : OthersSame kept w₂ w')
      (stored : Stores t (deployedStatus t keys fresh.now (deployingStatus fresh t.recorded)) w') :
      Pass kept fails settings fresh t w tr w'
  /-- A teardown pass did not come to its end. -/
  | uncleared {tr tr' : List (Moment Services World)} {w₁ w₂ w' : World} {o : Except Error Removal}
      (quiet : ¬ WritesDeployed tr) (requested : t.deletionRequested = true)
      (held : t.hasFinalizer tenantFinalizer = true) (begun : OthersSame kept w w₁)
      (middle : (clear settings t (deletingStatus t.recorded)).Goes (conduct kept fails) w₁ tr' o w₂)
      (ended : OthersSame kept w₂ w') (stored : Stores t (deletingStatus t.recorded) w') :
      Pass kept fails settings fresh t w tr w'
  /-- A teardown pass came to the release of the finalizer. -/
  | released {tr tr' : List (Moment Services World)} {w₁ w₂ w' : World} {r : Removal} {t' : Tenant}
      (quiet : ¬ WritesDeployed tr) (requested : t.deletionRequested = true)
      (held : t.hasFinalizer tenantFinalizer = true) (begun : OthersSame kept w w₁)
      (middle : (clear settings t (deletingStatus t.recorded)).Goes (conduct kept fails) w₁ tr'
        (.ok r) w₂)
      (unblocked : r ≠ .blocked) (ended : OthersSame kept w₂ w') (stored : w'.tenant = some t')
      (tended : t.Tended t') (recorded : t'.recorded = deletingStatus t.recorded) :
      Pass kept fails settings fresh t w tr w'

/-- A pass that begins with a store call that writes no status goes as it goes after that. -/
theorem Pass.after {w₀ : World} {tr₀ : List (Moment Services World)} (h₀ : OthersSame kept w w₀)
    (htr : written tr₀ = []) (h : Pass kept fails settings fresh t w₀ tr w') :
    Pass kept fails settings fresh t w (tr₀ ++ tr) w' := by
  have deployed_iff : WritesDeployed (tr₀ ++ tr) ↔ WritesDeployed tr := by
    rw [writesDeployed_append, or_iff_right (not_writesDeployed_of_nil htr)]
  cases h with
  | idle quiet phase stored others =>
    exact .idle ((not_congr deployed_iff).2 quiet) phase stored (h₀.trans others)
  | interrupted quiet alive held begun middle ended stored =>
    exact .interrupted ((not_congr deployed_iff).2 quiet) alive held (h₀.trans begun) middle ended stored
  | deployed writes alive held begun middle ended stored =>
    exact .deployed (deployed_iff.2 writes) alive held (h₀.trans begun) middle ended stored
  | uncleared quiet requested held begun middle ended stored =>
    exact .uncleared ((not_congr deployed_iff).2 quiet) requested held (h₀.trans begun) middle ended stored
  | released quiet requested held begun middle unblocked ended stored tended recorded =>
    exact .released ((not_congr deployed_iff).2 quiet) requested held (h₀.trans begun) middle unblocked ended
      stored tended recorded

theorem pass_of_deploy (hk : kept .store) (alive : t.deletionRequested = false)
    (held : t.hasFinalizer tenantFinalizer = true) {o : Except Error Action}
    (h : (deploy settings fresh t).Goes (conduct kept fails) w tr o w') (hw : Stores t t.recorded w) :
    Pass kept fails settings fresh t w tr w' := by
  have begun {w₁ : World} {tr : List (Moment Services World)} {o : Except Error Status}
      (h : (markDeploying t fresh).Goes (conduct kept fails) w tr o w₁) : OthersSame kept w w₁ :=
    othersSame_of_asks h (asks_markDeploying (fun _ _ => rfl) fun _ _ _ => rfl)
  have marked {w₁ : World} {tr : List (Moment Services World)} {recorded : Status}
      (h : (markDeploying t fresh).Goes (conduct kept fails) w tr (.ok recorded) w₁) :
      ¬ WritesDeployed tr ∧ recorded = deployingStatus fresh t.recorded ∧
        Stores t (deployingStatus fresh t.recorded) w₁ := by
    obtain ⟨quiet, ⟨he, stored⟩ | ⟨_, _, he, _⟩⟩ := markDeploying_stores hk h hw
    · exact ⟨quiet, Except.ok.inj he, stored⟩
    · cases he
  have through {w₁ w₂ : World} {tr : List (Moment Services World)} {o : Except Error (Option KeyRecord)}
      (h : (prepare settings fresh t (deployingStatus fresh t.recorded)).Goes (conduct kept fails) w₁ tr
        o w₂) (stored : Stores t (deployingStatus fresh t.recorded) w₁) :
      Stores t (deployingStatus fresh t.recorded) w₂ ∧ ¬ WritesDeployed tr := by
    obtain ⟨stored, htr⟩ := stores_of_asks hk h (prepare_asks_mild _) stored
    exact ⟨stored, not_writesDeployed_of_nil htr⟩
  cases deploy_cases h with
  | unmarked mark =>
    obtain ⟨quiet, ⟨he, _⟩ | ⟨_, p, _, phase, stored⟩⟩ := markDeploying_stores hk mark hw
    · cases he
    · exact .idle quiet phase stored (begun mark)
  | failed mark middle =>
    obtain ⟨quiet, rfl, stored₁⟩ := marked mark
    obtain ⟨stored, quiet'⟩ := through middle stored₁
    refine .interrupted ?_ alive held (begun mark) middle (.refl _) stored
    simp [writesDeployed_append, quiet, quiet']
  | pending mark middle =>
    obtain ⟨quiet, rfl, stored₁⟩ := marked mark
    obtain ⟨stored, quiet'⟩ := through middle stored₁
    refine .interrupted ?_ alive held (begun mark) middle (.refl _) stored
    simp [writesDeployed_append, quiet, quiet']
  | @prepared _ _ _ _ _ _ _ keys _ mark middle last =>
    obtain ⟨quiet, rfl, stored₁⟩ := marked mark
    obtain ⟨stored₂, quiet'⟩ := through middle stored₁
    have ended := othersSame_of_asks last (asks_updateStatus (fun _ _ => rfl) fun _ => rfl)
    rcases updateStatus_stores hk last stored₂ with ⟨_, stored, htr⟩ | ⟨_, _, stored, htr⟩
    · refine .deployed ?_ alive held (begun mark) middle ended stored
      refine ⟨deployedStatus t keys fresh.now (deployingStatus fresh t.recorded), ?_, rfl⟩
      simp [htr]
    · refine .interrupted ?_ alive held (begun mark) middle ended stored
      simp [writesDeployed_append, quiet, quiet', not_writesDeployed_of_nil htr]

theorem pass_of_teardown (hk : kept .store) (requested : t.deletionRequested = true)
    (held : t.hasFinalizer tenantFinalizer = true) {o : Except Error Action}
    (h : (teardown settings t).Goes (conduct kept fails) w tr o w') (hw : Stores t t.recorded w) :
    Pass kept fails settings fresh t w tr w' := by
  have begun {w₁ : World} {tr : List (Moment Services World)} {o : Except Error Status}
      (h : (markDeleting t).Goes (conduct kept fails) w tr o w₁) : OthersSame kept w w₁ :=
    othersSame_of_asks h (asks_markDeleting (fun _ _ => rfl) fun _ _ => rfl)
  have marked {w₁ : World} {tr : List (Moment Services World)} {recorded : Status}
      (h : (markDeleting t).Goes (conduct kept fails) w tr (.ok recorded) w₁) :
      ¬ WritesDeployed tr ∧ recorded = deletingStatus t.recorded ∧
        Stores t (deletingStatus t.recorded) w₁ := by
    obtain ⟨quiet, ⟨he, stored⟩ | ⟨_, he, _⟩⟩ := markDeleting_stores hk h hw
    · exact ⟨quiet, Except.ok.inj he, stored⟩
    · cases he
  have through {w₁ w₂ : World} {tr : List (Moment Services World)} {o : Except Error Removal}
      (h : (clear settings t (deletingStatus t.recorded)).Goes (conduct kept fails) w₁ tr o w₂)
      (stored : Stores t (deletingStatus t.recorded) w₁) :
      Stores t (deletingStatus t.recorded) w₂ ∧ ¬ WritesDeployed tr := by
    obtain ⟨stored, htr⟩ := stores_of_asks hk h (clear_asks_mild _) stored
    exact ⟨stored, not_writesDeployed_of_nil htr⟩
  cases teardown_cases h with
  | unmarked mark =>
    obtain ⟨quiet, ⟨he, _⟩ | ⟨_, _, stored⟩⟩ := markDeleting_stores hk mark hw
    · cases he
    · exact .idle (p := t.recorded.phase) quiet rfl stored (begun mark)
  | failed mark middle =>
    obtain ⟨quiet, rfl, stored₁⟩ := marked mark
    obtain ⟨stored, quiet'⟩ := through middle stored₁
    refine .uncleared ?_ requested held (begun mark) middle (.refl _) stored
    simp [writesDeployed_append, quiet, quiet']
  | blocked mark middle =>
    obtain ⟨quiet, rfl, stored₁⟩ := marked mark
    obtain ⟨stored, quiet'⟩ := through middle stored₁
    refine .uncleared ?_ requested held (begun mark) middle (.refl _) stored
    simp [writesDeployed_append, quiet, quiet']
  | cleared mark middle unblocked release =>
    obtain ⟨quiet, rfl, stored₁⟩ := marked mark
    obtain ⟨⟨t₂, ht₂, ⟨tended₂, _⟩, recorded₂⟩, quiet'⟩ := through middle stored₁
    have last : (releaseFinalizer t tenantFinalizer).Asks fun c => c.system = .store ∧ Quiet c := by
      refine asks_releaseFinalizer ?_ ?_
      · exact fun _ _ => ⟨rfl, fun sc hc => by cases hc; rfl⟩
      · exact fun _ => ⟨rfl, fun sc hc => by cases hc; rfl⟩
    obtain ⟨t', stored, tended, recorded⟩ : ∃ t', w'.tenant = some t' ∧ t.Tended t' ∧
        t'.recorded = deletingStatus t.recorded := by
      refine stored_of_asks hk release last ?_ ⟨t₂, ht₂, tended₂, recorded₂⟩
      rintro c hc t' ⟨tended, recorded⟩
      exact ⟨tended.trans (StoreCall.tended_write c t'),
        (StoreCall.recorded_write (hc.2 c rfl) t').trans recorded⟩
    refine .released ?_ requested held (begun mark) middle unblocked
      (othersSame_of_asks release (last.mono fun _ hc => hc.1)) stored tended recorded
    have htr₃ := written_of_asks release (last.mono fun _ hc => hc.2)
    simp [writesDeployed_append, quiet, quiet', not_writesDeployed_of_nil htr₃]

/-- Every pass over the stored tenant goes in one of these ways. -/
theorem pass_of_goes (hk : kept .store) (hw : w.tenant = some t) {o : Except Error Action}
    (h : (reconcile settings fresh t).Goes (conduct kept fails) w tr o w') :
    Pass kept fails settings fresh t w tr w' := by
  have stored : Stores t t.recorded w := ⟨t, hw, ⟨.refl t, fun _ => id⟩, rfl⟩
  have idle {α : Type} {j : Job α} {w' : World} {tr : List (Moment Services World)} {o : Except Error α}
      (mild : j.Asks Mild) (store_only : j.Asks fun c => c.system = .store)
      (h : j.Goes (conduct kept fails) w tr o w') : Pass kept fails settings fresh t w tr w' := by
    obtain ⟨stored, htr⟩ := stores_of_asks hk h mild stored
    exact .idle (p := t.recorded.phase) (not_writesDeployed_of_nil htr) rfl stored
      (othersSame_of_asks h store_only)
  cases reconcile_cases h with
  | gone => exact .idle (p := t.recorded.phase) (not_writesDeployed_of_nil rfl) rfl stored (.refl _)
  | teardown requested held goes => exact pass_of_teardown hk requested held goes stored
  | attach _ _ goes =>
    exact idle (Job.asks_call fun sc hc => by cases hc; exact ⟨rfl, rfl⟩) (Job.asks_call rfl) goes
  | undropped _ drop => exact idle dropRequest_asks_mild dropRequest_asks_store drop
  | settled _ _ _ drop => exact idle dropRequest_asks_mild dropRequest_asks_store drop
  | deploy alive held _ drop goes =>
    obtain ⟨stored₁, htr⟩ := stores_of_asks hk drop dropRequest_asks_mild stored
    exact .after (othersSame_of_asks drop dropRequest_asks_store) htr (pass_of_deploy hk alive held goes stored₁)

end Tenancy.Lifecycle

import Tenancy.Proofs.Footprints

/-!
# Deletions in turn

A teardown is a series of deletions. Each is one call, and it is settled when the call succeeds or is
answered that there is nothing to delete. `Deletes cs tr x` says that the calls `cs` were made in their
order, the next one only when the one before was settled; `x` is the error that ended the series early,
if one did.

The jobs that delete go in this way, whatever the systems answer: `deletes_of_deleteNamespaces` and
`deletes_of_deleteCollections` for namespaces and collections. The administrators' group and the
encryption domain are looked up first (`deletes_of_removeAdmin`, `deletes_of_removeDomain`).
-/

namespace Tenancy

variable {σ : Type} {R : Conduct Services σ} {s s' : σ} {tr tr' : List (Moment Services σ)}

/-- The calls are made one after the other, as long as each is settled; the error of one that is not is
the end. -/
inductive Deletes : List Call → List (Moment Services σ) → Option Error → Prop
  | all : Deletes [] [] none
  | settled {c : Call} {cs : List Call} {s : σ} {r : Except Error c.Reply}
      {tr : List (Moment Services σ)} {x : Option Error}
      (absent : ∀ e, r = .error e → e.isNotFound = true) (rest : Deletes cs tr x) :
      Deletes (c :: cs) (⟨s, c, r⟩ :: tr) x
  | stopped {c : Call} {cs : List Call} {s : σ} {e : Error} (refused : e.isNotFound = false) :
      Deletes (c :: cs) [⟨s, c, .error e⟩] (some e)

namespace Deletes

variable {cs cs' : List Call} {x : Option Error}

theorem append (h : Deletes cs tr none) (h' : Deletes cs' tr' x) :
    Deletes (cs ++ cs') (tr ++ tr') x := by
  generalize hx : (none : Option Error) = y at h
  induction h with
  | all => exact h'
  | settled absent _ ih => exact .settled absent (ih hx)
  | stopped => cases hx

theorem early {e : Error} (h : Deletes cs tr (some e)) (cs' : List Call) :
    Deletes (cs ++ cs') tr (some e) := by
  generalize hx : some e = y at h
  induction h with
  | all => cases hx
  | settled absent _ ih => exact .settled absent (ih hx)
  | stopped refused => exact .stopped refused

theorem single {c : Call} {r : Except Error c.Reply}
    (h : ∀ e, r = .error e → e.isNotFound = true) : Deletes [c] [⟨s, c, r⟩] none :=
  .settled h .all

/-- When all are settled, the calls that were made are exactly these. -/
theorem queries (h : Deletes cs tr none) : tr.map Moment.query = cs := by
  generalize hx : (none : Option Error) = y at h
  induction h with
  | all => rfl
  | settled _ _ ih => exact congrArg _ (ih hx)
  | stopped => cases hx

/-- The error that ends a series is not that there is nothing to delete. -/
theorem not_isNotFound {e : Error} (h : Deletes cs tr (some e)) : e.isNotFound = false := by
  generalize hx : some e = y at h
  induction h with
  | all => cases hx
  | settled _ _ ih => exact ih hx
  | stopped refused => exact Option.some.inj hx ▸ refused

end Deletes

/-- A system is asked first, and what is to be deleted depends on its answer. -/
def LooksThenDeletes (c : Call) (next : c.Reply → List Call) (tr : List (Moment Services σ))
    (x : Option Error) : Prop :=
  (∃ s e, tr = [⟨s, c, .error e⟩] ∧ x = some e) ∨
    ∃ s found rest, tr = ⟨s, c, .ok found⟩ :: rest ∧ Deletes (next found) rest x

/-- An error is passed on, perhaps with what was being attempted. -/
def Error.Reports (e' e : Error) : Prop := e' = e ∨ ∃ what, e' = e.within what

/-! ## What a part of a teardown comes to -/

namespace Lifecycle

/-- What a step of a pass comes to. -/
inductive StepEnd where
  | done
  /-- A namespace is not there yet, or cannot be deleted yet. -/
  | blocked
  | failed (e : Error)

namespace StepEnd

/-- The step is done if the job succeeds. -/
def of {α : Type} : Except Error α → StepEnd
  | .ok _ => done
  | .error e => failed e

/-- The step is done if the job succeeds and is not blocked. -/
def ofRemoval : Except Error Removal → StepEnd
  | .ok .blocked => blocked
  | .ok _ => done
  | .error e => failed e

/-- What a series of deletions of namespaces comes to: a namespace that the hierarchy forbids to delete
has to wait. -/
def ofNamespaces : Option Error → StepEnd
  | none => done
  | some e => if e.status = some 403 then blocked else failed e

/-- What the teardown pass comes to in which this was the last step. -/
def result : StepEnd → Except Error Action
  | done => .ok .await
  | blocked => .ok (.requeue 10)
  | failed e => .error e

/-- What a series of deletions comes to where nothing has to wait. -/
inductive OfDeletions : Option Error → StepEnd → Prop
  | done : OfDeletions none done
  | failed {e e' : Error} (h : e'.Reports e) : OfDeletions (some e) (failed e')

theorem ofNamespaces_eq_done {x : Option Error} : ofNamespaces x = done ↔ x = none := by
  cases x with
  | none => simp [ofNamespaces]
  | some e =>
    unfold ofNamespaces
    dsimp only
    split <;> simp

end StepEnd

variable {settings : Settings} {t : Tenant} {recorded : Status}

/-! ## Loops of deletions -/

/-- A loop over jobs that delete one thing each goes as the series of their deletions. -/
theorem deletes_of_forM {β : Type} {f : β → Job Unit} {c : β → Call} {xs : List β} {o : Except Error Unit}
    (one : ∀ {x s tr o s'}, (f x).Goes R s tr o s' →
      ∃ y, Deletes [c x] tr y ∧ StepEnd.OfDeletions y (.of o))
    (h : Job.Goes R (xs.forM f) s tr o s') :
    ∃ y, Deletes (xs.map c) tr y ∧ StepEnd.OfDeletions y (.of o) := by
  induction xs generalizing s tr with
  | nil =>
    obtain ⟨rfl, rfl, _⟩ := Job.goes_pure h
    exact ⟨none, .all, .done⟩
  | cons x xs ih =>
    rcases Job.goes_bind (f := fun _ => xs.forM f) h with ⟨e, rfl, hx⟩ | ⟨_, s₁, tr₁, tr₂, hx, hrest, rfl⟩
    · obtain ⟨y, hy, hend⟩ := one hx
      cases hend with
      | failed reports => exact ⟨_, hy.early _, .failed reports⟩
    · obtain ⟨y, hy, hend⟩ := one hx
      cases hend
      obtain ⟨y, hy', hend⟩ := ih hrest
      exact ⟨y, hy.append hy', hend⟩

/-! ## Namespaces -/

/-- The deletions of the child namespaces of a tenant and of its root namespace. -/
def namespaceDeletions (settings : Settings) (t : Tenant) (recorded : Status) : List Call :=
  (allChildren t recorded).map (fun c => .hierarchy (.deleteAnchor t.name c)) ++
    [.hierarchy (.deleteAnchor settings.root t.name)]

theorem deletes_of_removeAnchor {parent name : String} {o : Except Error Removal}
    (h : (Hierarchy.removeAnchor parent name).Goes R s tr o s') :
    ∃ x, Deletes [.hierarchy (.deleteAnchor parent name)] tr x ∧ .ofRemoval o = StepEnd.ofNamespaces x := by
  obtain ⟨r, hr, rfl⟩ := Job.goes_reading h
  obtain ⟨_, rfl⟩ := Job.goes_call hr
  cases r with
  | ok u => exact ⟨none, .single nofun, rfl⟩
  | error e =>
    cases hn : e.isNotFound with
    | true =>
      refine ⟨none, .single fun e' he => Except.error.inj he ▸ hn, ?_⟩
      simp [Hierarchy.deletedFrom, hn, StepEnd.ofRemoval, StepEnd.ofNamespaces]
    | false =>
      refine ⟨some e, .stopped hn, ?_⟩
      by_cases he : e.status = some 403 <;>
        simp [Hierarchy.deletedFrom, hn, he, StepEnd.ofRemoval, StepEnd.ofNamespaces]

/-- Deletions of namespaces follow upon others unless one of those has to wait. -/
theorem deletes_unless_blocked {cs cs' : List Call} {j next : Job Removal} {o : Except Error Removal}
    (first : ∀ {s tr o s'}, j.Goes R s tr o s' →
      ∃ x, Deletes cs tr x ∧ .ofRemoval o = StepEnd.ofNamespaces x)
    (second : ∀ {s tr o s'}, next.Goes R s tr o s' →
      ∃ x, Deletes cs' tr x ∧ .ofRemoval o = StepEnd.ofNamespaces x)
    (h : Job.Goes R (do
      match ← j with
      | .blocked => pure .blocked
      | _ => next) s tr o s') :
    ∃ x, Deletes (cs ++ cs') tr x ∧ .ofRemoval o = StepEnd.ofNamespaces x := by
  rcases Job.goes_bind h with ⟨e, rfl, hj⟩ | ⟨r, s₁, tr₁, tr₂, hj, hrest, rfl⟩
  · obtain ⟨x, hx, hend⟩ := first hj
    cases x with
    | none => cases hend
    | some e' => exact ⟨some e', hx.early _, hend⟩
  · obtain ⟨x, hx, hend⟩ := first hj
    have on (hr : StepEnd.ofRemoval (.ok r) = .done) (hrest : next.Goes R s₁ tr₂ o s') :
        ∃ x, Deletes (cs ++ cs') (tr₁ ++ tr₂) x ∧ .ofRemoval o = StepEnd.ofNamespaces x := by
      obtain rfl : x = none := StepEnd.ofNamespaces_eq_done.1 (hend.symm.trans hr)
      obtain ⟨x, hx', hend'⟩ := second hrest
      exact ⟨x, hx.append hx', hend'⟩
    cases r with
    | blocked =>
      obtain ⟨rfl, rfl, _⟩ := Job.goes_pure hrest
      rw [List.append_nil]
      cases x with
      | none => cases hend
      | some e' => exact ⟨some e', hx.early _, hend⟩
    | removed => exact on rfl hrest
    | absent => exact on rfl hrest

theorem deletes_of_deleteChildren {tenant : String} {cs : List String} {o : Except Error Removal}
    (h : (deleteChildren tenant cs).Goes R s tr o s') :
    ∃ x, Deletes (cs.map fun c => .hierarchy (.deleteAnchor tenant c)) tr x ∧
      .ofRemoval o = StepEnd.ofNamespaces x := by
  induction cs generalizing s tr o s' with
  | nil =>
    obtain ⟨rfl, rfl, _⟩ := Job.goes_pure h
    exact ⟨none, .all, rfl⟩
  | cons c cs ih => exact deletes_unless_blocked deletes_of_removeAnchor ih h

theorem deletes_of_deleteNamespaces {o : Except Error Removal}
    (h : (deleteNamespaces settings t recorded).Goes R s tr o s') :
    ∃ x, Deletes (namespaceDeletions settings t recorded) tr x ∧
      .ofRemoval o = StepEnd.ofNamespaces x :=
  deletes_unless_blocked deletes_of_deleteChildren deletes_of_removeAnchor h

/-! ## Collections, the administrators and the domain -/

/-- The deletions of the collections of a kind that a tenant declares or that are recorded. -/
def collectionDeletions (k : Kind) (t : Tenant) (recorded : Status) : List Call :=
  (Collection.namesOf k [t.spec.resources, recorded.resources]).map fun n => .hardware (.delete k n)

/-- The deletion of the group that was found, if the provider has given it an identifier. -/
def adminDeletions (found : Option IdentityGroup) : List Call :=
  ((found.bind IdentityGroup.id).map fun id => .identity (.delete id)).toList

def domainDeletions (d : String) : List Call :=
  (Encryption.domainPaths d).map fun path => .vault (.delete path)

/-- What is made of the outcome of one deletion where nothing has to wait. -/
theorem deletes_of_call {c : Call} (what : String) {r : Except Error c.Reply} {α : Type}
    {o : Except Error α} (ok : ∀ u, r = .ok u → ∃ a, o = .ok a)
    (absent : ∀ e, r = .error e → e.isNotFound = true → ∃ a, o = .ok a)
    (refused : ∀ e, r = .error e → e.isNotFound = false → o = .error (e.within what)) :
    ∃ y, Deletes [c] [(⟨s, c, r⟩ : Moment Services σ)] y ∧ StepEnd.OfDeletions y (.of o) := by
  cases r with
  | ok u =>
    obtain ⟨a, rfl⟩ := ok u rfl
    exact ⟨none, .single nofun, .done⟩
  | error e =>
    cases hn : e.isNotFound with
    | true =>
      obtain ⟨a, rfl⟩ := absent e rfl hn
      exact ⟨none, .single fun e' he => Except.error.inj he ▸ hn, .done⟩
    | false =>
      rw [refused e rfl hn]
      exact ⟨some e, .stopped hn, .failed (.inr ⟨what, rfl⟩)⟩

theorem deletes_of_removeCollection {k : Kind} {n : String} {o : Except Error Removal}
    (h : (Hardware.removeCollection k n).Goes R s tr o s') :
    ∃ y, Deletes [.hardware (.delete k n)] tr y ∧ StepEnd.OfDeletions y (.of o) := by
  obtain ⟨r, hr, rfl⟩ := Job.goes_reading h
  obtain ⟨_, rfl⟩ := Job.goes_call hr
  refine deletes_of_call ("deleting " ++ k.name ++ " " ++ n) ?_ ?_ ?_
  · rintro u rfl
    exact ⟨_, rfl⟩
  · rintro e rfl he
    exact ⟨.absent, by simp [Hardware.deleted, he]⟩
  · rintro e rfl he
    simp [Hardware.deleted, he]

theorem deletes_of_deleteCollections {k : Kind} {o : Except Error Unit}
    (h : (deleteCollections k t recorded).Goes R s tr o s') :
    ∃ y, Deletes (collectionDeletions k t recorded) tr y ∧ StepEnd.OfDeletions y (.of o) := by
  refine deletes_of_forM (fun hx => ?_) h
  obtain ⟨o', hc, rfl⟩ := Job.goes_discard hx
  obtain ⟨y, hy, hend⟩ := deletes_of_removeCollection hc
  refine ⟨y, hy, ?_⟩
  cases o' <;> exact hend

theorem deletes_of_removeAdmin {tenant : String} {o : Except Error Removal}
    (h : (Identity.removeAdmin tenant).Goes R s tr o s') :
    ∃ y, LooksThenDeletes (.identity (.find (IdentityGroup.adminName tenant))) adminDeletions tr y ∧
      StepEnd.OfDeletions y (.of o) := by
  rcases Job.goes_bind h with ⟨e, rfl, hf⟩ | ⟨found, s₁, tr₁, tr₂, hf, hrest, rfl⟩
  · obtain ⟨_, rfl⟩ := Job.goes_call hf
    exact ⟨some e, .inl ⟨s, e, rfl, rfl⟩, .failed (.inl rfl)⟩
  · obtain ⟨_, rfl⟩ := Job.goes_call hf
    have found_id : ∃ y, Deletes (adminDeletions found) tr₂ y ∧ StepEnd.OfDeletions y (.of o) := by
      unfold adminDeletions
      split at hrest
      · next hid =>
        obtain ⟨rfl, rfl, _⟩ := Job.goes_pure hrest
        rw [hid]
        exact ⟨none, .all, .done⟩
      · next id hid =>
        rw [hid]
        obtain ⟨r, hr, rfl⟩ := Job.goes_reading hrest
        obtain ⟨_, rfl⟩ := Job.goes_call hr
        refine deletes_of_call ("deleting identity group " ++ IdentityGroup.adminName tenant) ?_ ?_ ?_
        · rintro u rfl
          exact ⟨_, rfl⟩
        · rintro e rfl he
          exact ⟨.absent, by simp [Hardware.deleted, he]⟩
        · rintro e rfl he
          simp [Hardware.deleted, he]
    obtain ⟨y, hy, hend⟩ := found_id
    exact ⟨y, .inr ⟨s, found, tr₂, rfl, hy⟩, hend⟩

theorem deletes_of_removePath {path : String} {o : Except Error Unit}
    (h : (Encryption.removePath path).Goes R s tr o s') :
    ∃ y, Deletes [.vault (.delete path)] tr y ∧ StepEnd.OfDeletions y (.of o) := by
  obtain ⟨r, hr, rfl⟩ := Job.goes_reading h
  obtain ⟨_, rfl⟩ := Job.goes_call hr
  refine deletes_of_call ("deleting " ++ path) ?_ ?_ ?_
  · rintro u rfl
    exact ⟨_, rfl⟩
  · rintro e rfl he
    exact ⟨(), by simp [Hardware.agreeing, he]⟩
  · rintro e rfl he
    simp [Hardware.agreeing, he]

theorem deletes_of_removeDomain {keys : KeyRecord} {d : String} (hd : keys.domain = some d)
    {o : Except Error Removal} (h : (Encryption.removeDomain keys).Goes R s tr o s') :
    ∃ y, LooksThenDeletes (.vault (.read (Encryption.mountPath d))) (fun _ => domainDeletions d) tr y ∧
      StepEnd.OfDeletions y (.of o) := by
  unfold Encryption.removeDomain at h
  rw [hd] at h
  rcases Job.goes_bind h with ⟨e, rfl, hf⟩ | ⟨found, s₁, tr₁, tr₂, hf, hrest, rfl⟩
  · obtain ⟨_, rfl⟩ := Job.goes_call hf
    exact ⟨some e, .inl ⟨s, e, rfl, rfl⟩, .failed (.inl rfl)⟩
  · obtain ⟨_, rfl⟩ := Job.goes_call hf
    have paths : ∃ y, Deletes (domainDeletions d) tr₂ y ∧ StepEnd.OfDeletions y (.of o) := by
      rcases Job.goes_bind hrest with ⟨e, rfl, hloop⟩ | ⟨_, s₂, tr₃, tr₄, hloop, hend, rfl⟩
      · exact deletes_of_forM deletes_of_removePath hloop
      · obtain ⟨rfl, rfl, _⟩ := Job.goes_pure hend
        rw [List.append_nil]
        exact deletes_of_forM deletes_of_removePath hloop
    obtain ⟨y, hy, hend⟩ := paths
    exact ⟨y, .inr ⟨s, found, tr₂, rfl, hy⟩, hend⟩

end Lifecycle

end Tenancy

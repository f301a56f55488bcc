import Mathlib.Logic.Function.Basic
import Tenancy.Proofs.Resumption
import Tenancy.Proofs.StaleCopies

/-!
# What a deployed tenant stands on

`Grounds` is what the hierarchy of namespaces and the identity provider keep: anchors and secrets by their
namespaces, and groups. `honestly` is how they behave when they keep their word and nobody else changes
anything: what they say is so, and what they say was done is done. They may fail at any time, and a call that
fails may have been carried out all the same. The other systems may answer anything.

Up to the children that are not declared any more, a deploy pass takes nothing away, and the secrets that it
makes are copies (`Grown`). What it deletes after that are children that are not declared (`Pruned`). So the
namespaces, the copies of secrets and the administrators' group that it made sure of are there at its end.
-/

namespace Tenancy

/-- What the hierarchy of namespaces and the identity provider keep. -/
structure Grounds where
  /-- Anchors, by the parent and the name of the namespace. -/
  anchors : List (String × String)
  /-- Secrets, by namespace and name. -/
  secrets : String × String → Option Secret
  groups : List IdentityGroup

namespace Grounds

def Changes : Call → Prop
  | .hierarchy (.createAnchor _ _) | .hierarchy (.deleteAnchor _ _) | .hierarchy (.createSecret _ _)
  | .identity (.create _) | .identity (.delete _) => True
  | _ => False

/-- What a call does when it is carried out. -/
inductive Done : Call → Grounds → Grounds → Prop
  | anchor {p n : String} {g : Grounds} :
      Done (.hierarchy (.createAnchor p n)) g { g with anchors := (p, n) :: g.anchors }
  /-- The namespace of an anchor may go with it, and then all secrets in it do. -/
  | drop {p n : String} {g : Grounds} {secrets : String × String → Option Secret}
      (others : ∀ space name, space ≠ n → secrets (space, name) = g.secrets (space, name)) :
      Done (.hierarchy (.deleteAnchor p n)) g { g with anchors := g.anchors.filter (· ≠ (p, n)), secrets }
  | secret {space : String} {s : Secret} {g : Grounds} : Done (.hierarchy (.createSecret space s)) g
      { g with secrets := Function.update g.secrets (space, s.metadata.anyName) (some s) }
  /-- A group is given an identifier. -/
  | group {x : IdentityGroup} {id : Option String} {g : Grounds} :
      Done (.identity (.create x)) g { g with groups := { x with id } :: g.groups }
  | ungroup {id : String} {g : Grounds} :
      Done (.identity (.delete id)) g { g with groups := g.groups.filter (·.id ≠ some id) }
  | nothing {c : Call} {g : Grounds} (unchanging : ¬ Changes c) : Done c g g

/-- What a reply says is so. -/
def Truthful : (c : Call) → c.Reply → Grounds → Prop
  | .hierarchy (.anchorExists p n), found, g => found = true ↔ (p, n) ∈ g.anchors
  | .hierarchy (.getSecret space name), found, g => found = g.secrets (space, name)
  | .identity (.find name), found, g =>
    (∀ x, found = some x → x ∈ g.groups ∧ x.name = name) ∧ (found = none → ∀ x ∈ g.groups, x.name ≠ name)
  | _, _, _ => True

/-- What a call is to make is there already. -/
def There : Call → Grounds → Prop
  | .hierarchy (.createAnchor p n), g => (p, n) ∈ g.anchors
  | .hierarchy (.createSecret space s), g => (g.secrets (space, s.metadata.anyName)).isSome = true
  | .identity (.create x), g => ∃ y ∈ g.groups, y.name = x.name
  | _, _ => True

/-- How the systems answer. When a namespace is said not to be there, and when a deletion is refused, is left
open. -/
inductive Honest (c : Call) (g : Grounds) : Except Error c.Reply → Grounds → Prop
  | done {r : c.Reply} {g' : Grounds} (truthful : Truthful c r g) (done : Done c g g') : Honest c g (.ok r) g'
  /-- A conflict means that what is to be made is there. -/
  | refused {e : Error} (taken : e.isConflict = true → There c g) : Honest c g (.error e) g
  | lost {e : Error} {g' : Grounds} (untaken : e.isConflict = false) (done : Done c g g') :
      Honest c g (.error e) g'

/-- The hierarchy and the provider are honest, and nobody else changes what they keep. -/
def honestly : Conduct Services Grounds := fun (c : Call) g r g' => Honest c g r g'

variable {g g' g'' : Grounds} {tr : List (Moment Services Grounds)}

theorem Done.eq_of_unchanging {c : Call} (h : Done c g g') (unchanging : ¬ Changes c) : g' = g := by
  cases h with
  | nothing => rfl
  | _ => exact absurd trivial unchanging

theorem Honest.done_or_eq {c : Call} {r : Except Error c.Reply} (h : Honest c g r g') :
    Done c g g' ∨ g' = g := by
  cases h with
  | done _ done => exact .inl done
  | refused => exact .inr rfl
  | lost _ done => exact .inl done

theorem Honest.eq_of_unchanging {c : Call} {r : Except Error c.Reply} (h : Honest c g r g')
    (unchanging : ¬ Changes c) : g' = g :=
  h.done_or_eq.elim (·.eq_of_unchanging unchanging) id

/-- A job that only makes calls of other kinds leaves everything as it is. -/
theorem eq_of_asks {α : Type} {j : Job α} {o : Except Error α} (h : j.Goes honestly g tr o g')
    (hj : j.Asks fun c => ¬ Changes c) : g' = g :=
  Dialogue.Goes.kept (P := (· = g)) h hj
    (fun _ _ _ _ unchanging honest same => (Honest.eq_of_unchanging honest unchanging).trans same) rfl

/-- What is looked at is answered as it is. -/
theorem look_ok {c : Call} {r : c.Reply} (h : (Job.call c).Goes honestly g tr (.ok r) g')
    (unchanging : ¬ Changes c) : Truthful c r g ∧ g' = g := by
  obtain ⟨honest, _⟩ := Job.goes_call h
  refine ⟨?_, Honest.eq_of_unchanging honest unchanging⟩
  cases honest with
  | done truthful => exact truthful

/-! ## Growth -/

open Hierarchy (copied Copied source_ne_qualify)

/-- The secret with this key is the copy of a source. -/
def IsCopy (g : Grounds) (key : String × String) (s : Secret) : Prop :=
  ∃ x ∈ copied, ∃ source, key.2 = x.secret ∧ g.secrets (x.source, x.secret) = some source ∧
    s = source.copyTo x.secret key.1

/-- Nothing is taken away or changed, and the secrets that are new are copies. -/
structure Grown (g g' : Grounds) : Prop where
  anchors : g.anchors ⊆ g'.anchors
  groups : g.groups ⊆ g'.groups
  kept : ∀ key s, g.secrets key = some s → g'.secrets key = some s
  copies : ∀ key s, g.secrets key = none → g'.secrets key = some s → IsCopy g key s
  sources : ∀ x ∈ copied, g'.secrets (x.source, x.secret) = g.secrets (x.source, x.secret)

namespace Grown

theorem refl (g : Grounds) : Grown g g where
  anchors _ := id
  groups _ := id
  kept _ _ := id
  copies _ _ missing there := by cases missing.symm.trans there
  sources _ _ := rfl

theorem trans (h : Grown g g') (h' : Grown g' g'') : Grown g g'' where
  anchors := List.Subset.trans h.anchors h'.anchors
  groups := List.Subset.trans h.groups h'.groups
  kept key s there := h'.kept key s (h.kept key s there)
  copies key s missing there := by
    cases between : g'.secrets key with
    | some s' =>
      cases (h'.kept key s' between).symm.trans there
      exact h.copies key s missing between
    | none =>
      obtain ⟨x, hx, source, hkey, hsource, hs⟩ := h'.copies key s between there
      exact ⟨x, hx, source, hkey, (h.sources x hx).symm.trans hsource, hs⟩
  sources x hx := (h'.sources x hx).trans (h.sources x hx)

theorem anchor (p n : String) : Grown g { g with anchors := (p, n) :: g.anchors } :=
  { refl g with anchors := List.subset_cons_self _ _ }

theorem group (x : IdentityGroup) : Grown g { g with groups := x :: g.groups } :=
  { refl g with groups := List.subset_cons_self _ _ }

/-- A copy is new. -/
theorem secret {q : String} {x : Copied} {source : Secret} (hx : x ∈ copied)
    (missing : g.secrets (q, x.secret) = none) (there : g.secrets (x.source, x.secret) = some source)
    (apart : ∀ y ∈ copied, y.source ≠ q) : Grown g
      { g with secrets := Function.update g.secrets (q, x.secret) (some (source.copyTo x.secret q)) } where
  anchors _ := id
  groups _ := id
  kept key s hs := by
    have new : key ≠ (q, x.secret) := by
      rintro rfl
      cases missing.symm.trans hs
    exact (Function.update_of_ne new _ _).trans hs
  copies key s none_there hs := by
    by_cases new : key = (q, x.secret)
    · subst new
      have made : some (source.copyTo x.secret q) = some s :=
        (Function.update_self (q, x.secret) _ g.secrets).symm.trans hs
      exact ⟨x, hx, source, rfl, there, (Option.some.inj made).symm⟩
    · cases none_there.symm.trans ((Function.update_of_ne new _ _).symm.trans hs)
  sources y hy := Function.update_of_ne (fun same => apart y hy (Prod.mk.inj same).1) _ _

end Grown

/-- The copy of a secret is there, or there is nothing to copy. -/
def HasCopy (q : String) (x : Copied) (g : Grounds) : Prop :=
  (g.secrets (q, x.secret)).isSome = true ∨ g.secrets (x.source, x.secret) = none

theorem HasCopy.made (q : String) (x : Copied) (s : Secret) :
    HasCopy q x { g with secrets := Function.update g.secrets (q, x.secret) (some s) } :=
  .inl (by simp)

theorem Grown.hasCopy {q : String} {x : Copied} (h : Grown g g') (hx : x ∈ copied) (copy : HasCopy q x g) :
    HasCopy q x g' := by
  rcases copy with there | nothing
  · obtain ⟨s, hs⟩ := Option.isSome_iff_exists.1 there
    exact .inl (by rw [h.kept _ s hs, Option.isSome_some])
  · exact .inr ((h.sources x hx).trans nothing)

/-! ## Making sure of something -/

/-- What is ready is gone through to its end. -/
theorem ready_of_unless_pending {j next : Job Readiness}
    (h : Job.Goes honestly (do
      match ← j with
      | .pending => pure .pending
      | .ready => next) g tr (.ok .ready) g') :
    ∃ g₁ tr₁ tr₂, j.Goes honestly g tr₁ (.ok .ready) g₁ ∧ next.Goes honestly g₁ tr₂ (.ok .ready) g' := by
  obtain ⟨r, g₁, tr₁, tr₂, first, rest, _⟩ := Job.goes_bind_ok h
  cases r with
  | pending =>
    obtain ⟨_, ho, _⟩ := Job.goes_pure rest
    cases ho
  | ready => exact ⟨g₁, tr₁, tr₂, first, rest⟩

/-- An attempt that is taken for done has succeeded or met with a conflict. -/
theorem conflict_of_madeIn {x : Except Error Unit} (h : Hierarchy.madeIn x = .ok .ready) :
    ∀ e, x = .error e → e.isConflict = true := by
  rintro e rfl
  unfold Hierarchy.madeIn at h
  dsimp only at h
  split at h
  · assumption
  · split at h <;> cases h

theorem conflict_of_agreeing {what : String} {x : Except Error Unit}
    (h : Hardware.agreeing Error.isConflict what x = .ok ()) : ∀ e, x = .error e → e.isConflict = true := by
  rintro e rfl
  obtain ho | ⟨_, ho, conflict⟩ := Hardware.agreeing_eq_ok h
  · cases ho
  · cases ho
    exact conflict

/-- What was made is there, and so is what was in the way. -/
theorem done_or_there {c : Call} {r : Except Error c.Reply} (h : Honest c g r g')
    (conflict : ∀ e, r = .error e → e.isConflict = true) : Done c g g' ∨ g' = g ∧ There c g := by
  cases h with
  | done _ done => exact .inl done
  | refused taken => exact .inr ⟨rfl, taken (conflict _ rfl)⟩
  | lost untaken => cases untaken.symm.trans (conflict _ rfl)

theorem ensureAnchor_ready {p n : String}
    (h : (Hierarchy.ensureAnchor p n).Goes honestly g tr (.ok .ready) g') :
    Grown g g' ∧ (p, n) ∈ g'.anchors := by
  obtain ⟨found, g₁, _, _, look, rest, _⟩ := Job.goes_bind_ok h
  obtain ⟨truthful, rfl⟩ := look_ok look id
  split at rest
  · next there =>
    obtain ⟨_, _, rfl⟩ := Job.goes_pure rest
    exact ⟨.refl _, truthful.1 there⟩
  · obtain ⟨x, make, ho⟩ := Job.goes_reading rest
    rcases done_or_there (Job.goes_call make).1 (conflict_of_madeIn ho.symm) with done | ⟨rfl, there⟩
    · cases done with
      | anchor => exact ⟨.anchor p n, List.mem_cons_self⟩
      | nothing unchanging => exact absurd trivial unchanging
    · exact ⟨.refl _, there⟩

theorem ensureAdmin_ok {tenant : String}
    (h : (Identity.ensureAdmin tenant).Goes honestly g tr (.ok ()) g') :
    Grown g g' ∧ ∃ x ∈ g'.groups, x.name = IdentityGroup.adminName tenant := by
  obtain ⟨found, g₁, _, _, look, rest, _⟩ := Job.goes_bind_ok h
  obtain ⟨truthful, rfl⟩ := look_ok look id
  split at rest
  · next there =>
    obtain ⟨_, _, rfl⟩ := Job.goes_pure rest
    obtain ⟨x, hx⟩ := Option.isSome_iff_exists.1 there
    exact ⟨.refl _, x, truthful.1 x hx⟩
  · obtain ⟨x, make, ho⟩ := Job.goes_reading rest
    rcases done_or_there (Job.goes_call make).1 (conflict_of_agreeing ho.symm) with done | ⟨rfl, there⟩
    · cases done with
      | group => exact ⟨.group _, _, List.mem_cons_self, rfl⟩
      | nothing unchanging => exact absurd trivial unchanging
    · exact ⟨.refl _, there⟩

theorem copySecret_ready {q : String} {x : Copied} (hx : x ∈ copied) (apart : ∀ y ∈ copied, y.source ≠ q)
    (h : (Hierarchy.copySecret q x).Goes honestly g tr (.ok .ready) g') : Grown g g' ∧ HasCopy q x g' := by
  obtain ⟨copy, g₁, _, _, look, rest, _⟩ := Job.goes_bind_ok h
  obtain ⟨rfl, rfl⟩ := look_ok look id
  split at rest
  · next there =>
    obtain ⟨_, _, rfl⟩ := Job.goes_pure rest
    exact ⟨.refl _, .inl there⟩
  next missing =>
  obtain ⟨source, g₂, _, _, read, rest, _⟩ := Job.goes_bind_ok rest
  obtain ⟨hsource, rfl⟩ := look_ok read id
  cases source with
  | none =>
    obtain ⟨_, _, rfl⟩ := Job.goes_pure rest
    exact ⟨.refl _, .inr hsource.symm⟩
  | some source =>
    obtain ⟨y, make, ho⟩ := Job.goes_reading rest
    rcases done_or_there (Job.goes_call make).1 (conflict_of_madeIn ho.symm) with done | ⟨rfl, there⟩
    · cases done with
      | secret =>
        exact ⟨.secret hx (by simpa using missing) hsource.symm apart, .made q x _⟩
      | nothing unchanging => exact absurd trivial unchanging
    · exact ⟨.refl _, .inl there⟩

theorem copySecrets_ready {q : String} {xs : List Copied} (sub : xs ⊆ copied)
    (apart : ∀ y ∈ copied, y.source ≠ q)
    (h : (Hierarchy.copySecrets q xs).Goes honestly g tr (.ok .ready) g') :
    Grown g g' ∧ ∀ x ∈ xs, HasCopy q x g' := by
  induction xs generalizing g tr with
  | nil =>
    obtain ⟨_, _, rfl⟩ := Job.goes_pure h
    exact ⟨.refl _, List.forall_mem_nil _⟩
  | cons x xs ih =>
    obtain ⟨hx, hxs⟩ := List.cons_subset.1 sub
    obtain ⟨g₁, _, _, first, rest⟩ := ready_of_unless_pending h
    obtain ⟨grown, copy⟩ := copySecret_ready hx apart first
    obtain ⟨grown', copies⟩ := ih hxs rest
    exact ⟨grown.trans grown', List.forall_mem_cons.2 ⟨grown'.hasCopy hx copy, copies⟩⟩

/-! ## The namespaces of a tenant -/

/-- A child namespace has its anchor and the copies of secrets that it needs. -/
structure HasChild (tenant child : String) (g : Grounds) : Prop where
  anchor : (tenant, Tenant.qualify tenant child) ∈ g.anchors
  copies : ∀ x ∈ copied, x.child = child → HasCopy (Tenant.qualify tenant child) x g

theorem Grown.hasChild {tenant child : String} (h : Grown g g') (there : HasChild tenant child g) :
    HasChild tenant child g' :=
  ⟨h.anchors there.anchor, fun x hx hchild => h.hasCopy hx (there.copies x hx hchild)⟩

theorem propagateSecrets_ready {tenant child : String}
    (h : (Hierarchy.propagateSecrets tenant (Tenant.qualify tenant child)).Goes honestly g tr (.ok .ready) g') :
    Grown g g' ∧ ∀ x ∈ copied, x.child = child → HasCopy (Tenant.qualify tenant child) x g' := by
  unfold Hierarchy.propagateSecrets at h
  rw [Tenant.unqualify?_qualify] at h
  obtain ⟨grown, copies⟩ := copySecrets_ready List.filter_sublist.subset
    (fun y hy => source_ne_qualify hy tenant child) h
  exact ⟨grown, fun x hx hchild => copies x (List.mem_filter.2 ⟨hx, decide_eq_true hchild⟩)⟩

open Lifecycle

/-- Whatever is done to later children, the earlier ones stay as they are. -/
theorem ensureChildren_ready {tenant : String} {children : List String}
    (h : (ensureChildren tenant (children.map (Tenant.qualify tenant))).Goes honestly g tr (.ok .ready) g') :
    Grown g g' ∧ ∀ child ∈ children, HasChild tenant child g' := by
  induction children generalizing g tr with
  | nil =>
    obtain ⟨_, _, rfl⟩ := Job.goes_pure h
    exact ⟨.refl _, List.forall_mem_nil _⟩
  | cons child children ih =>
    obtain ⟨g₁, _, _, first, rest⟩ := ready_of_unless_pending h
    obtain ⟨g₂, _, _, second, rest⟩ := ready_of_unless_pending rest
    obtain ⟨grown, anchor⟩ := ensureAnchor_ready first
    obtain ⟨grown', copies⟩ := propagateSecrets_ready second
    obtain ⟨grown'', others⟩ := ih rest
    have there : HasChild tenant child g₂ := ⟨grown'.anchors anchor, copies⟩
    exact ⟨(grown.trans grown').trans grown'', List.forall_mem_cons.2 ⟨grown''.hasChild there, others⟩⟩

variable {settings : Settings} {fresh : Fresh} {t : Tenant}

theorem desiredChildren_eq (t : Tenant) :
    t.desiredChildren = (t.spec.children.map Text.trim).map (Tenant.qualify t.name) := by
  rw [List.map_map]
  rfl

theorem ensureNamespaces_ready (h : (ensureNamespaces settings t).Goes honestly g tr (.ok .ready) g') :
    Grown g g' ∧ (settings.root, t.name) ∈ g'.anchors ∧
      ∀ c ∈ t.spec.children, HasChild t.name (Text.trim c) g' := by
  obtain ⟨g₁, _, _, first, rest⟩ := ready_of_unless_pending h
  obtain ⟨grown, root⟩ := ensureAnchor_ready first
  rw [desiredChildren_eq] at rest
  obtain ⟨grown', children⟩ := ensureChildren_ready rest
  exact ⟨grown.trans grown', grown'.anchors root, fun c hc => children _ (List.mem_map_of_mem hc)⟩

/-! ## Children that are not declared any more -/

/-- Nothing but these namespaces of the tenant is gone, and nothing is new. -/
structure Pruned (tenant : String) (gone : List String) (g g' : Grounds) : Prop where
  anchors : ∀ p n, (p, n) ∈ g.anchors → p ≠ tenant ∨ n ∉ gone → (p, n) ∈ g'.anchors
  secrets : ∀ space name, space ∉ gone → g'.secrets (space, name) = g.secrets (space, name)
  groups : g'.groups = g.groups

theorem Pruned.of_eq {tenant : String} {gone : List String} (h : g' = g) : Pruned tenant gone g g' := by
  subst h
  exact ⟨fun _ _ there _ => there, fun _ _ _ => rfl, rfl⟩

theorem pruned_of_deleteChild {tenant c : String} {r : Removal}
    (h : (Hierarchy.deleteChild tenant c).Goes honestly g tr (.ok r) g') : Pruned tenant [c] g g' := by
  obtain ⟨x, delete, _⟩ := Job.goes_reading h
  rcases Honest.done_or_eq (Job.goes_call delete).1 with done | same
  · cases done with
    | drop others =>
      refine ⟨fun p n there apart => List.mem_filter.2 ⟨there, ?_⟩, fun space name hs => ?_, rfl⟩
      · refine decide_eq_true fun same => ?_
        obtain ⟨rfl, rfl⟩ := Prod.mk.inj same
        exact apart.elim (absurd rfl) fun hn => hn (List.mem_singleton_self _)
      · exact others space name fun same => hs (List.mem_singleton.2 same)
    | nothing unchanging => exact absurd trivial unchanging
  · exact .of_eq same

theorem pruned_of_deleteStale {tenant : String} {gone : List String}
    (h : (gone.forM fun c => discard (Hierarchy.deleteChild tenant c)).Goes honestly g tr (.ok ()) g') :
    Pruned tenant gone g g' := by
  refine Job.goes_forM_ok (P := fun done g' => Pruned tenant done g g') ?_ (.of_eq rfl) h
  intro c done g₁ tr g₂ step pruned
  obtain ⟨_, delete⟩ := Job.goes_discard_ok step
  have next := pruned_of_deleteChild delete
  refine ⟨fun p n there apart => ?_, fun space name hs => ?_, next.groups.trans pruned.groups⟩
  · refine next.anchors p n (pruned.anchors p n there (apart.imp_right ?_)) (apart.imp_right ?_)
    · exact fun hn earlier => hn (List.mem_append_left _ earlier)
    · exact fun hn last => hn (List.mem_append_right _ last)
  · rw [List.mem_append, not_or] at hs
    exact (next.secrets space name hs.2).trans (pruned.secrets space name hs.1)

/-! ## Passes -/

/-- What is known of the grounds of a tenant once its systems were come through: they have grown, and of
that only children that are not declared any more are gone. -/
theorem grown_of_prepare {recorded : Status} {keys : KeyRecord}
    (h : (prepare settings fresh t recorded).Goes honestly g tr (.ok (some keys)) g') :
    ∃ g₁, Grown g g₁ ∧ ((settings.root, t.name) ∈ g₁.anchors ∧
        (∀ c ∈ t.spec.children, HasChild t.name (Text.trim c) g₁) ∧
        ∃ x ∈ g₁.groups, x.name = IdentityGroup.adminName t.name) ∧
      Pruned t.name (staleChildren t) g₁ g' := by
  obtain ⟨g₁, g₂, g₃, _, _, _, _, spaces, partitions, groups, others, _⟩ := prepare_ok h
  obtain ⟨g₄, g₅, g₆, _, _, _, _, admin, domain, stale, hooks, _⟩ := applyOthers_ok others
  obtain rfl : g₂ = g₁ := eq_of_asks partitions (Hardware.asks_converge fun _ _ => id)
  obtain rfl : g₃ = g₂ := eq_of_asks groups (Hardware.asks_converge fun _ _ => id)
  obtain rfl : g₅ = g₄ := eq_of_asks domain (asks_ensureKeys (fun _ _ _ => id) fun _ => id)
  obtain rfl : g' = g₆ := eq_of_asks hooks (Dispatch.asks_dispatch fun _ _ => id)
  obtain ⟨grown, root, children⟩ := ensureNamespaces_ready spaces
  obtain ⟨grown', there⟩ := ensureAdmin_ok admin
  exact ⟨_, grown.trans grown',
    ⟨grown'.anchors root, fun c hc => grown'.hasChild (children c hc), there⟩, pruned_of_deleteStale stale⟩

/-- What has become of the copy of a secret in a namespace. If there is a source, then there is a copy. One
that was there before is as it was. A new one has the contents, type, immutability and labels of the source,
its own name and namespace, and no other metadata. -/
structure Propagated (q : String) (x : Copied) (g g' : Grounds) : Prop where
  there : ∀ source, g.secrets (x.source, x.secret) = some source → (g'.secrets (q, x.secret)).isSome = true
  untouched : ∀ s, g.secrets (q, x.secret) = some s → g'.secrets (q, x.secret) = some s
  copied : ∀ s, g.secrets (q, x.secret) = none → g'.secrets (q, x.secret) = some s →
    ∃ source, g.secrets (x.source, x.secret) = some source ∧ s.data = source.data ∧
      s.stringData = source.stringData ∧ s.type = source.type ∧ s.immutable = source.immutable ∧
      s.metadata = { name := some x.secret, space := some q, labels := source.metadata.labels }

theorem Grown.propagated {q : String} {x : Copied} (h : Grown g g') (hx : x ∈ copied) (copy : HasCopy q x g') :
    Propagated q x g g' where
  there source hsource := copy.resolve_right fun nothing => by
    cases ((h.sources x hx).trans hsource).symm.trans nothing
  untouched := h.kept _
  copied s missing there := by
    obtain ⟨y, hy, source, hkey, hsource, rfl⟩ := h.copies _ s missing there
    obtain rfl : x = y := (List.mem_singleton.1 hx).trans (List.mem_singleton.1 hy).symm
    exact ⟨source, hsource, rfl, rfl, rfl, rfl, rfl⟩

/-- Where a pass writes that a tenant is deployed, the anchors of the root namespace and of all declared
children are there, and so is the administrators' group. The secrets that the children need were copied, if
there is anything to copy, and copies that were there already are as they were. -/
theorem stands_when_deployed (apart : t.name ≠ settings.root) {o : Except Error Action}
    (h : (reconcile settings fresh t).Goes honestly g tr o g') (deployed : WritesDeployed tr) :
    (settings.root, t.name) ∈ g'.anchors ∧ (∀ c ∈ t.desiredChildren, (t.name, c) ∈ g'.anchors) ∧
      (∃ x ∈ g'.groups, x.name = IdentityGroup.adminName t.name) ∧
      ∀ c ∈ t.spec.children, ∀ x ∈ copied, x.child = Text.trim c →
        Propagated (Tenant.qualify t.name (Text.trim c)) x g g' := by
  obtain ⟨g₁, g₂, g₃, _, _, _, _, _, _, _, drop, mark, middle, last⟩ := through_of_deployed h deployed
  obtain rfl : g₁ = g := eq_of_asks drop (asks_dropRequest fun _ => id)
  obtain rfl : g₂ = g₁ := eq_of_asks mark (asks_markDeploying (fun _ _ => id) fun _ _ _ => id)
  obtain rfl : g' = g₃ := eq_of_asks last (asks_updateStatus (fun _ _ => id) fun _ => id)
  obtain ⟨g₁, grown, ⟨root, children, admin⟩, pruned⟩ := grown_of_prepare middle
  -- what is deleted is in the tenant's own namespace, and it is not declared
  have declared {c : String} (hc : c ∈ t.desiredChildren) : c ∉ staleChildren t := by
    simp [staleChildren, hc]
  refine ⟨pruned.anchors _ _ root (.inl apart.symm), fun c hc => ?_, pruned.groups ▸ admin, ?_⟩
  · obtain ⟨d, hd, rfl⟩ := List.mem_map.1 hc
    exact pruned.anchors _ _ (children d hd).anchor (.inr (declared hc))
  · intro c hc x hx hchild
    have same := pruned.secrets (Tenant.qualify t.name (Text.trim c)) x.secret
      (declared (List.mem_map_of_mem hc))
    have copies := grown.propagated hx ((children c hc).copies x hx hchild)
    exact ⟨same ▸ copies.there, same ▸ copies.untouched, same ▸ copies.copied⟩

/-! ## A tenant with two children -/

/-- The answers where every call is carried out; the store has one tenant, and in the other systems there is
nothing. -/
def carriedOut (t : Tenant) : (c : Call) → Grounds → Except Error c.Reply × Grounds
  | .store (.get _ _), g => (.ok (some t), g)
  | .hierarchy (.anchorExists p n), g => (.ok (decide ((p, n) ∈ g.anchors)), g)
  | .hierarchy (.createAnchor p n), g => (.ok (), { g with anchors := (p, n) :: g.anchors })
  | .hierarchy (.deleteAnchor p n), g => (.ok (), { g with anchors := g.anchors.filter (· ≠ (p, n)) })
  | .hierarchy (.getSecret space name), g => (.ok (g.secrets (space, name)), g)
  | .hierarchy (.createSecret space s), g =>
    (.ok (), { g with secrets := Function.update g.secrets (space, s.metadata.anyName) (some s) })
  | .identity (.find name), g => (.ok (g.groups.find? (·.name = name)), g)
  | .identity (.create x), g => (.ok (), { g with groups := { x with id := some x.name } :: g.groups })
  | .identity (.delete id), g => (.ok (), { g with groups := g.groups.filter (·.id ≠ some id) })
  | c, g => (.ok c.emptyReply, g)

theorem honest_carriedOut (t : Tenant) (c : Call) (g : Grounds) :
    Honest c g (carriedOut t c g).1 (carriedOut t c g).2 := by
  cases c with
  | store c => cases c <;> exact .done trivial (.nothing id)
  | hierarchy c =>
    cases c with
    | anchorExists p n => exact .done decide_eq_true_iff (.nothing id)
    | createAnchor p n => exact .done trivial .anchor
    | deleteAnchor p n => exact .done trivial (.drop fun _ _ _ => rfl)
    | getSecret space name => exact .done rfl (.nothing id)
    | createSecret space s => exact .done trivial .secret
  | hardware c => cases c <;> exact .done trivial (.nothing id)
  | identity c =>
    cases c with
    | find name =>
      refine .done ⟨fun x hx => ?_, fun none_found x hx => ?_⟩ (.nothing id)
      · exact ⟨List.mem_of_find?_eq_some hx, by simpa using List.find?_some hx⟩
      · exact fun hn => List.find?_eq_none.1 none_found x hx (decide_eq_true hn)
    | create x => exact .done trivial .group
    | delete id => exact .done trivial .ungroup
  | vault c => cases c <;> exact .done trivial (.nothing id)
  | hook c => cases c <;> exact .done trivial (.nothing id)

/-- A tenant with two children, and a third that is not declared any more. -/
def twoChildren : Tenant :=
  { Rehearsal.Stage.newTenant { name := "blue", children := ["slurm", " user "] } with
    status := some { phase := some .deployed, children := ["blue-slurm", "blue-old"] } }

/-- Credentials that are to be copied, and the anchor of the third child. -/
def credentials : Grounds where
  anchors := [("blue", "blue-old")]
  secrets key := if key = ("default", "wlm-s3-credentials") then
      some { metadata := { uid := some "7", labels := some [("team", "wlm")] }, type := some "Opaque" } else none
  groups := []

theorem stands_when_deployed_of_twoChildren :
    let g' := ((reconcile {} ⟨"1", "now"⟩ twoChildren).run.run (carriedOut twoChildren) credentials).2
    ("tenants", "blue") ∈ g'.anchors ∧ ("blue", "blue-slurm") ∈ g'.anchors ∧
      ("blue", "blue-user") ∈ g'.anchors ∧ (∃ x ∈ g'.groups, x.name = "blue-tenant-admin") ∧
      ∃ s, g'.secrets ("blue-slurm", "wlm-s3-credentials") = some s ∧ s.type = some "Opaque" ∧
        s.metadata.labels = some [("team", "wlm")] ∧ s.metadata.uid = none := by
  intro g'
  have goes : (reconcile {} ⟨"1", "now"⟩ twoChildren).Goes honestly (id credentials)
      ((reconcile {} ⟨"1", "now"⟩ twoChildren).run.story (carriedOut twoChildren) id credentials) _ (id g') :=
    Dialogue.goes_run (P := fun _ => True) (fun c g _ => ⟨honest_carriedOut twoChildren c g, trivial⟩) _ trivial
  obtain ⟨root, children, admin, secrets⟩ := stands_when_deployed (by decide) goes (by decide +kernel)
  obtain ⟨there, _, copied⟩ := secrets "slurm" (by decide) _ (List.mem_singleton_self _) (by decide +kernel)
  obtain ⟨s, hs⟩ := Option.isSome_iff_exists.1 (there _ rfl)
  obtain ⟨source, hsource, _, _, type, _, metadata⟩ := copied s rfl hs
  cases Option.some.inj hsource
  refine ⟨root, children _ (by decide +kernel), children _ (by decide +kernel), admin, s, hs, type, ?_, ?_⟩
  · rw [metadata]
  · rw [metadata]

end Grounds

end Tenancy

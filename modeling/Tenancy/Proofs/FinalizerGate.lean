import Mathlib.Data.List.Nodup
import Tenancy.Proofs.Administrators
import Tenancy.Proofs.Deletions
import Tenancy.Proofs.EncryptionDomain
import Tenancy.Proofs.Teardown
import Tenancy.Proofs.Turns

/-!
# The gate that a finalizer is

A tenant stays in the store until its finalizer is detached, and a teardown pass does that with its last
step. `TeardownStep` names the steps and `TeardownStep.Went` says what each of them is made of. A whole
teardown pass goes through them in turn, wherever it ends (`inTurn_of_teardown`); this needs none of the
systems to keep its word but the store.

Where the other systems do keep theirs, nothing is left of the tenant at the moment at which the
finalizer is detached (`NothingLeft`). `finalizer_gate` puts it all together.
-/

namespace Tenancy

open Rehearsal Rehearsal.World

namespace Lifecycle

def detaches : Call → Bool
  | .store sc => sc.detaches
  | _ => false

theorem not_detaches {c : Call} (h : ∀ sc, c = .store sc → sc.detaches = false) : ¬ detaches c := by
  cases c with
  | store sc => simp [detaches, h sc rfl]
  | _ => simp [detaches]

/-! ## The steps of a teardown -/

inductive TeardownStep where
  /-- Write that the tenant is being deleted. -/
  | mark
  /-- Delete the child namespaces and the root namespace. -/
  | namespaces
  /-- Delete the collections of a kind. -/
  | collections (kind : Kind)
  | admin
  | domain
  | hooks
  /-- Detach the finalizer. -/
  | release

namespace TeardownStep

/-- What is deleted, and the hooks that are told about it. -/
def clearing : List TeardownStep :=
  [.namespaces, .collections .partition, .collections .group, .admin, .domain, .hooks]

/-- All that comes before the finalizer is detached. -/
def beforeRelease : List TeardownStep := .mark :: clearing

/-- What is asked and answered in a step, and what the step comes to. -/
def Went {σ : Type} (R : Conduct Services σ) (settings : Settings) (t : Tenant) :
    TeardownStep → List (Moment Services σ) → StepEnd → Prop
  | mark, tr, x => ∃ s o s', (markDeleting t).Goes R s tr o s' ∧ x = .of o
  | namespaces, tr, x =>
    ∃ y, Deletes (namespaceDeletions settings t t.recorded) tr y ∧ x = .ofNamespaces y
  | collections k, tr, x =>
    ∃ y, Deletes (collectionDeletions k t t.recorded) tr y ∧ StepEnd.OfDeletions y x
  | admin, tr, x =>
    ∃ y, LooksThenDeletes (.identity (.find (IdentityGroup.adminName t.name))) adminDeletions tr y ∧
      StepEnd.OfDeletions y x
  | domain, tr, x =>
    match t.recorded.keys.domain with
    | none => tr = [] ∧ x = .done
    | some d =>
      ∃ y, LooksThenDeletes (.vault (.read (Encryption.mountPath d))) (fun _ => domainDeletions d) tr y ∧
        StepEnd.OfDeletions y x
  | hooks, tr, x => ∃ s o s', (Dispatch.dispatch t.spec .delete).Goes R s tr o s' ∧ x = .of o
  | release, tr, x => ∃ s o s', (releaseFinalizer t tenantFinalizer).Goes R s tr o s' ∧ x = .of o

end TeardownStep

open TeardownStep

variable {σ : Type} {R : Conduct Services σ} {s s' : σ} {settings : Settings} {fresh : Fresh} {t : Tenant}

theorem StepEnd.of_discard {α : Type} (o : Except Error α) : StepEnd.of (discard o) = .of o := by
  cases o <;> rfl

theorem went_domain {tr : List (Moment Services σ)} {o : Except Error Removal}
    (h : (Encryption.removeDomain t.recorded.keys).Goes R s tr o s') :
    Went R settings t .domain tr (.of o) := by
  unfold Went
  cases hd : t.recorded.keys.domain with
  | none =>
    have h : (pure Removal.absent : Job Removal).Goes R s tr o s' := by
      simpa only [Encryption.removeDomain, hd] using h
    obtain ⟨rfl, rfl, _⟩ := Job.goes_pure h
    exact ⟨rfl, rfl⟩
  | some d => exact deletes_of_removeDomain hd h

theorem inTurn_of_clearOthers {tr : List (Moment Services σ)} {o : Except Error Unit}
    (h : (clearOthers t (deletingStatus t.recorded)).Goes R s tr o s') :
    InTurn (Went R settings t)
      [.collections .partition, .collections .group, .admin, .domain, .hooks] tr (.of o) := by
  refine InTurn.of_bind deletes_of_deleteCollections ?_ h
  refine InTurn.of_bind deletes_of_deleteCollections ?_
  refine InTurn.of_bind (fun hj => ?_) ?_
  · obtain ⟨o', hadmin, rfl⟩ := Job.goes_discard hj
    rw [StepEnd.of_discard]
    exact deletes_of_removeAdmin hadmin
  refine InTurn.of_bind (fun hj => ?_) fun hj => .single ⟨_, _, _, hj, rfl⟩
  obtain ⟨o', hdomain, rfl⟩ := Job.goes_discard hj
  rw [StepEnd.of_discard]
  exact went_domain hdomain

theorem inTurn_of_clear {tr : List (Moment Services σ)} {o : Except Error Removal}
    (h : (clear settings t (deletingStatus t.recorded)).Goes R s tr o s') :
    InTurn (Went R settings t) clearing tr (.ofRemoval o) := by
  have on {r : Removal} {s₁ : σ} {tr : List (Moment Services σ)} (hr : StepEnd.ofRemoval (.ok r) = .done)
      (h : Job.Goes R (do
        clearOthers t (deletingStatus t.recorded)
        return r) s₁ tr o s') :
      InTurn (Went R settings t)
        [.collections .partition, .collections .group, .admin, .domain, .hooks] tr (.ofRemoval o) := by
    rcases Job.goes_bind h with ⟨e, rfl, hothers⟩ | ⟨_, s₂, tr₁, tr₂, hothers, hend, rfl⟩
    · exact inTurn_of_clearOthers hothers
    · obtain ⟨rfl, rfl, rfl⟩ := Job.goes_pure hend
      rw [hr, List.append_nil]
      exact inTurn_of_clearOthers hothers
  rcases Job.goes_bind h with ⟨e, rfl, hspaces⟩ | ⟨r, s₁, tr₁, tr₂, hspaces, hrest, rfl⟩
  · exact .stopped (deletes_of_deleteNamespaces hspaces) nofun
  · have spaces := deletes_of_deleteNamespaces hspaces
    cases r with
    | blocked =>
      obtain ⟨rfl, rfl, rfl⟩ := Job.goes_pure hrest
      rw [List.append_nil]
      exact .stopped spaces nofun
    | removed => exact .next spaces (on rfl hrest)
    | absent => exact .next spaces (on rfl hrest)

/-! ## Teardown passes -/

section

variable {kept : BackingSystem → Prop} {fails : Call → Error → Prop} {w w' w'' : World}
  {tr : List (Moment Services World)}

/-- A teardown pass over the stored tenant goes in turn, and its last step says how it ends. -/
theorem inTurn_of_teardown (hk : kept .store) (stored : w.tenant = some t) {o : Except Error Action}
    (h : (teardown settings t).Goes (conduct kept fails) w tr o w') :
    ∃ x, InTurn (Went (conduct kept fails) settings t) (beforeRelease ++ [.release]) tr x ∧
      o = x.result := by
  have start : Stores t t.recorded w := ⟨t, stored, ⟨.refl t, fun _ => id⟩, rfl⟩
  have marked {w₁ : World} {tr : List (Moment Services World)} {recorded : Status}
      (h : (markDeleting t).Goes (conduct kept fails) w tr (.ok recorded) w₁) :
      recorded = deletingStatus t.recorded := by
    obtain ⟨_, ⟨he, _⟩ | ⟨_, he, _⟩⟩ := markDeleting_stores hk h start
    · exact Except.ok.inj he
    · cases he
  cases teardown_cases h with
  | unmarked mark => exact ⟨.failed _, .stopped ⟨_, _, _, mark, rfl⟩ nofun, rfl⟩
  | failed mark middle =>
    obtain rfl := marked mark
    have cleared := inTurn_of_clear middle
    exact ⟨.failed _, .next ⟨_, _, _, mark, rfl⟩ (cleared.early nofun _), rfl⟩
  | blocked mark middle =>
    obtain rfl := marked mark
    have cleared := inTurn_of_clear middle
    exact ⟨.blocked, .next ⟨_, _, _, mark, rfl⟩ (cleared.early nofun _), rfl⟩
  | @cleared _ _ _ _ _ _ _ r o mark middle unblocked release =>
    obtain rfl := marked mark
    have hr : StepEnd.ofRemoval (.ok r) = .done := by
      cases r with
      | blocked => exact absurd rfl unblocked
      | removed => rfl
      | absent => rfl
    have cleared := hr ▸ inTurn_of_clear middle
    rw [List.append_assoc]
    refine ⟨.of o, .next ⟨_, _, _, mark, rfl⟩ (cleared.append (.single ⟨_, _, _, release, rfl⟩)), ?_⟩
    cases o <;> rfl

theorem split_of_not_mem {α : Type} {a b l₁ l₂ : List α} {m : α} (h : l₁ ++ m :: l₂ = a ++ b)
    (hm : m ∉ a) : ∃ b₁, l₁ = a ++ b₁ ∧ b = b₁ ++ m :: l₂ := by
  rcases List.append_eq_append_iff.1 h with ⟨a', rfl, hb⟩ | ⟨b₁, rfl, hb⟩
  · cases a' with
    | nil => exact ⟨[], by simp, by simpa using hb.symm⟩
    | cons m' a' =>
      obtain ⟨rfl, _⟩ := List.cons.inj hb
      simp at hm
  · exact ⟨b₁, rfl, hb⟩

/-- A pass detaches a finalizer only in its last step, when everything else is cleared away. -/
theorem cleared_of_detaches (hk : kept .store) (stored : w.tenant = some t) {o : Except Error Action}
    {tr₁ tr₂ : List (Moment Services World)} {m : Moment Services World} (hm : detaches m.query)
    (h : (teardown settings t).Goes (conduct kept fails) w (tr₁ ++ m :: tr₂) o w') :
    ∃ w₁ w₂ tr₃ tr₄ tr₅ tr₆ r o',
      (markDeleting t).Goes (conduct kept fails) w tr₃ (.ok (deletingStatus t.recorded)) w₁ ∧
      (clear settings t (deletingStatus t.recorded)).Goes (conduct kept fails) w₁ tr₄ (.ok r) w₂ ∧
      r ≠ .blocked ∧
      (releaseFinalizer t tenantFinalizer).Goes (conduct kept fails) w₂ (tr₅ ++ m :: tr₆) o' w' ∧
      tr₁ = tr₃ ++ tr₄ ++ tr₅ := by
  have marks {w₁ : World} {tr : List (Moment Services World)} {o : Except Error Status}
      (h : (markDeleting t).Goes (conduct kept fails) w tr o w₁) : m ∉ tr := by
    have asks : (markDeleting t).Asks fun c => ∀ sc, c = .store sc → sc.detaches = false :=
      asks_markDeleting (fun _ _ sc he => by cases he; rfl) fun _ _ sc he => by cases he; rfl
    exact fun hmem => not_detaches (Dialogue.Goes.asks h asks m hmem) hm
  have clears {w₁ w₂ : World} {recorded : Status} {tr : List (Moment Services World)}
      {o : Except Error Removal}
      (h : (clear settings t recorded).Goes (conduct kept fails) w₁ tr o w₂) : m ∉ tr := by
    have asks : (clear settings t recorded).Asks Mild := clear_asks_mild recorded
    exact fun hmem => not_detaches (fun sc he => (Dialogue.Goes.asks h asks m hmem sc he).2) hm
  generalize htr : tr₁ ++ m :: tr₂ = tr at h
  have hmem : m ∈ tr := by simp [← htr]
  cases teardown_cases h with
  | unmarked mark => exact absurd hmem (marks mark)
  | failed mark middle => exact absurd hmem (by simp [marks mark, clears middle])
  | blocked mark middle => exact absurd hmem (by simp [marks mark, clears middle])
  | @cleared w₁ w₂ _ tr₃ tr₄ _ _ r o' mark middle unblocked release =>
    obtain ⟨tr₅, rfl, rfl⟩ := split_of_not_mem htr (by simp [marks mark, clears middle])
    obtain ⟨_, ⟨he, _⟩ | ⟨_, he, _⟩⟩ :=
      markDeleting_stores hk mark ⟨t, stored, ⟨.refl t, fun _ => id⟩, rfl⟩
    · cases he
      exact ⟨w₁, w₂, tr₃, tr₄, tr₅, tr₂, r, o', mark, middle, unblocked, release, rfl⟩
    · cases he

/-! ## What is left at the gate -/

/-- Nothing is left of what a tenant has in the systems. A group can be told from others only by its
identifier, so the administrators' group is the one that was found when the pass began, in `start`. -/
structure NothingLeft (settings : Settings) (t : Tenant) (start w : World) : Prop where
  children : ∀ c ∈ allChildren t t.recorded, inSpace t.name c ∉ w.anchors
  root : inSpace settings.root t.name ∉ w.anchors
  collections : ∀ k n, t.Mentions k n → w.collection k n = none
  found : ∀ g, start.groupNamed (IdentityGroup.adminName t.name) = some g →
    ∀ g' ∈ w.identity, g'.id ≠ g.id
  admin : (start.identity.map IdentityGroup.name).Nodup →
    ∀ g ∈ w.identity, g.name ≠ IdentityGroup.adminName t.name
  domain : ∀ d ∈ t.recorded.keys.domain, ∀ path ∈ Encryption.domainPaths d, ¬ w.HasPath path

theorem NothingLeft.congr {start start' : World} (h : NothingLeft settings t start w)
    (identity : start'.identity = start.identity) (all : ∀ s, kept s) (same : OthersSame kept w w') :
    NothingLeft settings t start' w' := by
  have anchors := (same .hierarchy (all _) nofun).1
  have collections : w'.collections = w.collections := same .hardware (all _) nofun
  have groups : w'.identity = w.identity := same .identity (all _) nofun
  have vault : w'.vault = w.vault := same .vault (all _) nofun
  refine ⟨anchors ▸ h.children, anchors ▸ h.root, ?_, ?_, ?_, ?_⟩
  · rw [collection_congr collections]
    exact h.collections
  · rw [groups, groupNamed, identity]
    exact h.found
  · rw [groups, identity]
    exact h.admin
  · exact fun d hd path hp hpath => h.domain d hd path hp ((hasPath_congr vault).1 hpath)

/-- Where names tell groups apart, no other group has the name of the one that is found. -/
theorem eq_of_groupNamed {name : String} {g g' : IdentityGroup}
    (names : (w.identity.map IdentityGroup.name).Nodup) (found : w.groupNamed name = some g)
    (hg' : g' ∈ w.identity) (hname : g'.name = name) : g' = g := by
  have hg : g ∈ w.identity := List.mem_of_find?_eq_some found
  have hn : g.name = name := by simpa using List.find?_some found
  exact List.inj_on_of_nodup_map names hg' hg (hname.trans hn.symm)

theorem nothingLeft_of_clear (all : ∀ s, kept s) (ids : ∀ g ∈ w.identity, g.id.isSome = true) {r : Removal}
    (h : (clear settings t (deletingStatus t.recorded)).Goes (conduct kept Call.FailsPlainly) w tr
      (.ok r) w') (unblocked : r ≠ .blocked) : NothingLeft settings t w w' := by
  obtain ⟨w₁, _, _, hspaces, hothers⟩ := clear_ok h unblocked
  obtain ⟨children, root, _⟩ := deleteNamespaces_ok (all _) hspaces unblocked
  have anchors := anchors_of_clearOthers (all _) hothers
  obtain ⟨w₂, w₃, w₄, w₅, _, _, _, _, _, _, _, hpartitions, hgroups, hadmin, hkeys, hhooks⟩ :=
    clearOthers_ok hothers
  have before : w₃.identity = w.identity := by
    have h₁ : w₁.identity = w.identity :=
      sameFor_of_asks hspaces (all .identity) (asks_deleteNamespaces (fun _ _ => nofun) nofun)
    have h₂ : w₂.identity = w₁.identity :=
      sameFor_of_asks hpartitions (all .identity) (asks_deleteCollections fun _ _ => nofun)
    have h₃ : w₃.identity = w₂.identity :=
      sameFor_of_asks hgroups (all .identity) (asks_deleteCollections fun _ _ => nofun)
    rw [h₃, h₂, h₁]
  have after : w'.identity = w₄.identity := by
    have h₅ : w₅.identity = w₄.identity :=
      sameFor_of_asks hkeys (all .identity)
        (Encryption.asks_removeDomain (fun _ _ => nofun) fun _ _ _ _ => nofun)
    have h₆ : w'.identity = w₅.identity :=
      sameFor_of_asks hhooks (all .identity) (Dispatch.asks_dispatch fun _ => nofun)
    rw [h₆, h₅]
  obtain ⟨less, gone⟩ := Identity.removeAdmin_ok (all _) hadmin
  rw [← after, before] at less
  rw [← after, groupNamed, before] at gone
  have gone : ∀ g, w.groupNamed (IdentityGroup.adminName t.name) = some g →
      ∀ g' ∈ w'.identity, g'.id ≠ g.id := fun g hg =>
    gone g hg (ids g (List.mem_of_find?_eq_some hg))
  refine ⟨anchors ▸ children, anchors ▸ root, ?_, gone, fun names g hg hname => ?_, ?_⟩
  · exact fun k n hn => mentioned_gone_of_clear (all _) h unblocked hn
  · cases hfound : w.groupNamed (IdentityGroup.adminName t.name) with
    | none => exact List.find?_eq_none.1 hfound g (less g hg) (by simpa using hname)
    | some found =>
      obtain rfl := eq_of_groupNamed names hfound (less g hg) hname
      exact gone g hfound g hg rfl
  · exact domain_of_clear (all _) h unblocked

/-- The finalizer stays attached unless the pass comes to its end. -/
theorem finalizers_of_teardown (hk : kept .store) (stored : w.tenant = some t) {o : Except Error Action}
    (h : (teardown settings t).Goes (conduct kept fails) w tr o w') (unfinished : o ≠ .ok .await) :
    ∃ t', w'.tenant = some t' ∧ t'.metadata.finalizers = t.metadata.finalizers := by
  let Attached (w : World) := ∃ t', w.tenant = some t' ∧ t'.metadata.finalizers = t.metadata.finalizers
  have quiet {α : Type} {j : Job α} {w w' : World} {tr : List (Moment Services World)} {o : Except Error α}
      (hj : j.Goes (conduct kept fails) w tr o w')
      (asks : j.Asks fun c => ∀ sc, c = .store sc → sc.attaches = false ∧ sc.detaches = false)
      (hw : Attached w) : Attached w' := by
    refine stored_of_asks hk hj asks
      (P := fun t' => t'.metadata.finalizers = t.metadata.finalizers) ?_ hw
    intro sc hsc t' ht'
    obtain ⟨attaches, detaches⟩ := hsc sc rfl
    rw [StoreCall.finalizers_write attaches detaches, ht']
  have marks {w' : World} {tr : List (Moment Services World)} {o : Except Error Status}
      (hj : (markDeleting t).Goes (conduct kept fails) w tr o w') : Attached w' := by
    refine quiet hj (asks_markDeleting ?_ ?_) ⟨t, stored, rfl⟩
    · exact fun _ _ sc he => by cases he; exact ⟨rfl, rfl⟩
    · exact fun _ _ sc he => by cases he; exact ⟨rfl, rfl⟩
  have clears {w w' : World} {recorded : Status} {tr : List (Moment Services World)}
      {o : Except Error Removal} (hj : (clear settings t recorded).Goes (conduct kept fails) w tr o w')
      (hw : Attached w) : Attached w' := by
    refine quiet hj ?_ hw
    apply asks_clear
    all_goals
      intros
      rename_i he
      cases he
  cases teardown_cases h with
  | unmarked mark => exact marks mark
  | failed mark middle => exact clears middle (marks mark)
  | blocked mark middle => exact clears middle (marks mark)
  | cleared mark middle unblocked release =>
    obtain ⟨t', ht', same⟩ := clears middle (marks mark)
    rcases releaseFinalizer_cases hk release with hw' | ⟨rfl, _⟩
    · exact ⟨t', hw'.trans ht', same⟩
    · exact absurd rfl unfinished

/-- A pass over a stored tenant whose deletion is requested goes through the steps of a teardown in
turn, and its last step says how it ends. It detaches a finalizer only when it has come through all steps
before; if the systems do what they say and every group has an identifier, nothing is left of the tenant
by then. Unless the pass comes to its end, the finalizers are as they were. -/
theorem finalizer_gate (hk : kept .store) (stored : w.tenant = some t)
    (requested : t.deletionRequested = true) (held : t.hasFinalizer tenantFinalizer = true)
    {o : Except Error Action} (h : (reconcile settings fresh t).Goes (conduct kept fails) w tr o w') :
    (∃ x, InTurn (Went (conduct kept fails) settings t) (beforeRelease ++ [.release]) tr x ∧
      o = x.result) ∧
    (∀ tr₁ m tr₂, tr = tr₁ ++ m :: tr₂ → detaches m.query →
      (∃ cleared reads, tr₁ = cleared ++ reads ∧
        InTurn (Went (conduct kept fails) settings t) beforeRelease cleared .done ∧
        ∀ m' ∈ reads, Call.system m'.query = .store) ∧
      ((∀ s, kept s) → (∀ c e, fails c e → c.FailsPlainly e) →
        (∀ g ∈ w.identity, g.id.isSome = true) → NothingLeft settings t w m.before)) ∧
    (o ≠ .ok .await → ∃ t', w'.tenant = some t' ∧ t'.metadata.finalizers = t.metadata.finalizers) := by
  have h : (teardown settings t).Goes (conduct kept fails) w tr o w' := by
    unfold reconcile at h
    rwa [if_pos requested, if_pos held] at h
  refine ⟨inTurn_of_teardown hk stored h, ?_, finalizers_of_teardown hk stored h⟩
  rintro tr₁ m tr₂ rfl hm
  obtain ⟨w₁, w₂, tr₃, tr₄, tr₅, tr₆, r, o', mark, middle, unblocked, release, rfl⟩ :=
    cleared_of_detaches hk stored hm h
  have asks : (releaseFinalizer t tenantFinalizer).Asks fun c => c.system = .store :=
    asks_releaseFinalizer (fun _ _ => rfl) fun _ => rfl
  constructor
  · have hr : StepEnd.ofRemoval (.ok r) = .done := by
      cases r with
      | blocked => exact absurd rfl unblocked
      | removed => rfl
      | absent => rfl
    refine ⟨tr₃ ++ tr₄, tr₅, rfl, ?_, fun m' hm' => ?_⟩
    · exact .next ⟨_, _, _, mark, rfl⟩ (hr ▸ inTurn_of_clear middle)
    · exact Dialogue.Goes.asks release asks m' (by simp [hm'])
  · intro all plain ids
    have begun : OthersSame kept w w₁ :=
      othersSame_of_asks mark (asks_markDeleting (fun _ _ => rfl) fun _ _ => rfl)
    have groups : w₁.identity = w.identity := begun .identity (all _) nofun
    have gate : NothingLeft settings t w₁ w₂ :=
      nothingLeft_of_clear all (groups ▸ ids)
        (middle.weaken fun _ _ _ _ => conduct_mono plain) unblocked
    -- what is asked in the last step goes to the store, so the others are at every moment as they were
    refine Dialogue.Goes.kept_at release asks ?_ (gate.congr groups.symm all (.refl _)) m (by simp)
    intro c w₃ r w₄ hc hr left
    refine left.congr rfl all fun s hs hne => sameFor_of_conduct hr hs ?_
    rw [hc]
    exact hne

end

/-- A tenant that has something in every system. -/
def richSpec : Spec where
  name := "blue"
  children := ["u"]
  resources := [{ label := "compute", members := ["x1"], partition := "p-blue", group := "g-blue" }]
  keys := { enabled := true }

/-- A tenant that was deployed and whose deletion is requested. -/
def doomed : Stage := (Stage.firstPass richSpec []).edit (·.requestDeletion ⟨0, false⟩)

/-- The finalizer is detached in the pass over a tenant that was deployed, and nothing is left then. -/
theorem nothing_left_of_doomed :
    ∃ m ∈ Stage.story (reconcile {} ⟨"2", "now"⟩ doomed.tenant) doomed,
      detaches m.query ∧ NothingLeft {} doomed.tenant doomed.world m.before := by
  obtain ⟨stored, requested, held, ids, there⟩ :
      doomed.world.tenant = some doomed.tenant ∧ doomed.tenant.deletionRequested = true ∧
        doomed.tenant.hasFinalizer tenantFinalizer = true ∧
        (∀ g ∈ doomed.world.identity, g.id.isSome = true) ∧
        (Stage.story (reconcile {} ⟨"2", "now"⟩ doomed.tenant) doomed).any
          (fun m => detaches m.query) = true := by
    decide +kernel
  have goes : (reconcile {} ⟨"2", "now"⟩ doomed.tenant).Goes
      (conduct (fun _ => True) Call.FailsPlainly) doomed.world _ _ _ :=
    Stage.goes_perform (Stage.plain_edit ((Stage.plain_firstPass richSpec []).mono fun _ _ =>
      Call.failsPlainly_of_unreachable) _) _
  obtain ⟨m, hm, detached⟩ := List.any_eq_true.1 there
  obtain ⟨tr₁, tr₂, split⟩ := List.append_of_mem hm
  obtain ⟨_, gate, _⟩ := finalizer_gate trivial stored requested held goes
  obtain ⟨_, left⟩ := gate tr₁ m tr₂ split detached
  exact ⟨m, hm, detached, left (fun _ => trivial) (fun _ _ => id) ids⟩

end Lifecycle

end Tenancy

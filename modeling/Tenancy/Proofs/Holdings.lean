import Tenancy.Proofs.Passes
import Tenancy.Proofs.ScriptedRuns

/-!
# What a pass looks at and changes

All that a pass does has to do with a few entries of the estate. Their names come from the copy that the
pass is over and from the status that is stored: the anchors of its namespaces, the secrets in its child
namespaces, the collections that its resources target, the group of its administrators, the paths of its
domain. These are the tenant's own (`Own`). A pass looks at a few more (`Views`): at the secrets that it copies,
and, as a namespace is made and deleted by others, at whether it has been made and what is in it.

The status that is stored when a pass reads it need not be the one that was stored at its start, since the
pass itself writes before that. But its own writes leave `Status.holdings` as they are, up to the last one,
which is computed from nothing that it reads. This is the invariant, `Estate.Recorded`, by which the names are
known at the start (`confined_of_reconcile`).
-/

namespace Tenancy

open Rehearsal Rehearsal.World Rehearsal.Estate

/-- What a status counts among the holdings of a tenant. -/
structure Holdings where
  /-- The domain of its keys. -/
  domain : String
  children : List String
  resources : List Resource

/-- The holdings by a status. A tenant that has no identifier is given the fresh one, from which its domain
is named. -/
def Status.holdings (fresh : Lifecycle.Fresh) (s : Status) : Holdings where
  domain := s.keys.domain.getD (Encryption.domainName (s.uuid.getD fresh.uuid))
  children := s.children
  resources := s.resources

namespace Rehearsal.Estate

variable {E E' : Estate} {c : Call} {k : TenantKey} {P : Status → Prop}

/-- The status that is stored of a tenant has the property, if the tenant is there. -/
def Recorded (k : TenantKey) (P : Status → Prop) (E : Estate) : Prop := ∀ t, E.tenants k = some t → P t.recorded

/-- A call writes only statuses with the property. -/
def Records (P : Status → Prop) (c : Call) : Prop := ∀ copy s, c = .store (.replaceStatus copy s) → P s

theorem recorded_answer (writes : Records P c) (h : E.Recorded k P) : (E.answer c).2.Recorded k P := by
  intro t' ht'
  have found : (E.answer c).2.entry (.tenant k) = some t' := ht'
  rw [entry_of_answer] at found
  split at found
  · cases c with
    | store sc =>
      change (if k = sc.key then (E.tenants k).map sc.write else E.tenants k) = some t' at found
      split at found
      · obtain ⟨t, ht, rfl⟩ := Option.map_eq_some_iff.1 found
        cases sc with
        | replaceStatus copy s => exact writes copy s rfl
        | _ => exact h t ht
      · exact h t' found
    | _ => exact h t' found
  · exact h t' found

theorem recorded_of_troubled {r : Except Error c.Reply} (writes : Records P c) (h : Troubled c E r E')
    (hE : E.Recorded k P) : E'.Recorded k P := by
  rcases h.cases with rfl | rfl
  · exact hE
  · exact recorded_answer writes hE

theorem identity_of_troubled {r : Except Error c.Reply} (h : Troubled c E r E') (other : c.system ≠ .identity) :
    E'.systems.identity = E.systems.identity := by
  rcases h.cases with rfl | rfl
  · rfl
  · by_cases hc : c.system = .store
    · obtain ⟨c, rfl⟩ : ∃ sc, c = .store sc := Call.exists_query hc
      rfl
    · rw [answer_of_system hc]
      exact answer_same E.systems c other.symm

end Rehearsal.Estate

namespace Lifecycle

variable {settings : Settings} {fresh : Fresh} {t : Tenant} {known : Holdings → Prop} {gs : List IdentityGroup}

/-! ## Entries -/

/-- The holdings that a pass may come across: those by its copy, and those by what is stored. -/
def Known (fresh : Fresh) (t : Tenant) (E : Estate) (h : Holdings) : Prop :=
  h = t.recorded.holdings fresh ∨ ∃ stored, E.tenants t.key = some stored ∧ h = stored.recorded.holdings fresh

/-- The entries that are a tenant's own. -/
inductive Own (settings : Settings) (t : Tenant) (known : Holdings → Prop) : Entry → Prop
  | stored : Own settings t known (.tenant t.key)
  | root : Own settings t known (.anchor (inSpace settings.root t.name))
  | declaredChild {c : String} (hc : c ∈ t.desiredChildren) : Own settings t known (.anchor (inSpace t.name c))
  | recordedChild {h : Holdings} {c : String} (hh : known h) (hc : c ∈ h.children) :
      Own settings t known (.anchor (inSpace t.name c))
  | secret {c n : String} (hc : c ∈ t.desiredChildren) : Own settings t known (.secret (inSpace c n))
  | declaredTarget {k : Kind} {n : String} (hn : n ∈ Collection.targets k t.spec.resources) :
      Own settings t known (.collection (collectionKey k n))
  | recordedTarget {h : Holdings} {k : Kind} {n : String} (hh : known h)
      (hn : n ∈ Collection.targets k h.resources) : Own settings t known (.collection (collectionKey k n))
  | admin : Own settings t known (.groups (IdentityGroup.adminName t.name))
  | domain {h : Holdings} {p : String} (hh : known h) (hp : p ∈ Encryption.domainPaths h.domain) :
      Own settings t known (.path p)
  | key {h : Holdings} {k : String} (hh : known h) : Own settings t known (.path (Encryption.keyPath h.domain k))

/-- The entries that a pass looks at. -/
inductive Views (settings : Settings) (t : Tenant) (known : Holdings → Prop) : Entry → Prop
  | own {e : Entry} (h : Own settings t known e) : Views settings t known e
  | source {s : Hierarchy.Copied} (hs : s ∈ Hierarchy.copied) :
      Views settings t known (.secret (inSpace s.source s.secret))
  | withinRoot {a : String} (ha : isIn t.name a = true) : Views settings t known (.anchor a)
  | withinDeclared {c a : String} (hc : c ∈ t.desiredChildren) (ha : isIn c a = true) :
      Views settings t known (.anchor a)
  | withinRecorded {h : Holdings} {c a : String} (hh : known h) (hc : c ∈ h.children) (ha : isIn c a = true) :
      Views settings t known (.anchor a)
  | parentMade : Views settings t known (.hidden settings.root)
  | rootMade : Views settings t known (.hidden t.name)
  | childMade {c : String} (hc : c ∈ t.desiredChildren) : Views settings t known (.hidden c)

/-- The groups that go with the group of a tenant's administrators, since they have its identifier. -/
def Bound (t : Tenant) (gs : List IdentityGroup) (e : Entry) : Prop :=
  ∃ g ∈ gs, ∃ g' ∈ gs, ∃ id, g.name = IdentityGroup.adminName t.name ∧ g.id = some id ∧ g'.id = some id ∧
    e = .groups g'.name

/-- The entries that a pass may change. -/
def Reaches (settings : Settings) (t : Tenant) (known : Holdings → Prop) (gs : List IdentityGroup) (e : Entry) :
    Prop := Own settings t known e ∨ Bound t gs e

/-! ## Calls -/

/-- A call that has to do with these entries only. -/
structure Confined (settings : Settings) (t : Tenant) (known : Holdings → Prop) (gs : List IdentityGroup)
    (m : Moment Services Estate) : Prop where
  knows : m.before.Knows (Views settings t known) m.query
  changes : ∀ e, m.before.Changes m.query e → Reaches settings t known gs e
  creates : ∀ g, m.query = .identity (.create g) → g = .admin t.name

/-- A call that has to do with these entries only, whenever it is made. -/
def Contained (settings : Settings) (t : Tenant) (known : Holdings → Prop) (gs : List IdentityGroup) (c : Call) :
    Prop := ∀ E r, Confined settings t known gs ⟨E, c, r⟩

theorem contained_of_entry {c : Call} {e : Entry} (own : Own settings t known e)
    (knows : ∀ E : Estate, E.Knows (Views settings t known) c)
    (changes : ∀ (E : Estate) e', E.Changes c e' → e' = e) (made : ∀ g, c ≠ .identity (.create g)) :
    Contained settings t known gs c := by
  refine fun E r => ⟨knows E, fun e' he => ?_, fun g hg => absurd hg (made g)⟩
  rw [changes E e' he]
  exact .inl own

theorem contained_of_key {c : StoreCall} (h : c.key = t.key) : Contained settings t known gs (.store c) := by
  have own : Own settings t known (.tenant c.key) := by
    rw [h]
    exact .stored
  exact contained_of_entry own (fun _ => .own own) (fun _ _ => id) nofun

theorem contained_of_namespaces {c : HierarchyCall} (h : Namespaces settings t c) :
    Contained settings t known gs (.hierarchy c) := by
  cases h with
  | lookRoot => exact fun _ _ => ⟨.own .root, nofun, nofun⟩
  | root => exact contained_of_entry .root (fun _ => .parentMade) (fun _ _ => id) nofun
  | lookChild hc => exact fun _ _ => ⟨.own (.declaredChild hc), nofun, nofun⟩
  | child hc => exact contained_of_entry (.declaredChild hc) (fun _ => .rootMade) (fun _ _ => id) nofun
  | lookSecret hc _ => exact fun _ _ => ⟨.own (.secret hc), nofun, nofun⟩
  | source hs => exact fun _ _ => ⟨.source hs, nofun, nofun⟩
  | secret hc => exact contained_of_entry (.secret hc) (fun _ => .childMade hc) (fun _ _ => id) nofun

theorem contained_of_deleteAnchor {p n : String} (own : Own settings t known (.anchor (inSpace p n)))
    (within : ∀ a, isIn n a = true → Views settings t known (.anchor a)) :
    Contained settings t known gs (.hierarchy (.deleteAnchor p n)) :=
  contained_of_entry own (fun _ => ⟨.own own, within⟩) (fun _ _ => id) nofun

theorem contained_of_deleteChild {h : Holdings} {c : String} (hh : known h)
    (hc : c ∈ t.desiredChildren ∨ c ∈ h.children) :
    Contained settings t known gs (.hierarchy (.deleteAnchor t.name c)) := by
  rcases hc with hc | hc
  · exact contained_of_deleteAnchor (.declaredChild hc) fun a => .withinDeclared hc
  · exact contained_of_deleteAnchor (.recordedChild hh hc) fun a => .withinRecorded hh hc

theorem contained_of_moves {h : Holdings} {k : Kind} {c : HardwareCall} (hh : known h)
    (hc : Hardware.Moves t.name k t.spec.resources h.resources c) :
    Contained settings t known gs (.hardware c) := by
  have declared {n : String} (hn : n ∈ Collection.targets k t.spec.resources) :
      Own settings t known (.collection (collectionKey k n)) := .declaredTarget hn
  cases hc with
  | @retire n hn _ =>
    have own : Own settings t known (.collection (collectionKey k n)) := .recordedTarget hh hn
    exact contained_of_entry own (fun _ => .own own) (fun _ _ => id) nofun
  | look hn => exact fun _ _ => ⟨.own (declared hn), nofun, nofun⟩
  | make hn => exact contained_of_entry (declared hn) (fun _ => .own (declared hn)) (fun _ _ => id) nofun
  | drop hn _ _ => exact contained_of_entry (declared hn) (fun _ => .own (declared hn)) (fun _ _ => id) nofun
  | put hn _ _ => exact contained_of_entry (declared hn) (fun _ => .own (declared hn)) (fun _ _ => id) nofun

theorem contained_of_delete {h : Holdings} {k : Kind} {n : String} (hh : known h)
    (hn : n ∈ Collection.namesOf k [t.spec.resources, h.resources]) :
    Contained settings t known gs (.hardware (.delete k n)) := by
  have own : Own settings t known (.collection (collectionKey k n)) := by
    rcases Collection.mem_namesOf.1 hn with hn | hn
    · exact .declaredTarget hn
    · exact .recordedTarget hh hn
  exact contained_of_entry own (fun _ => .own own) (fun _ _ => id) nofun

theorem contained_of_admin {c : IdentityCall} (h : Identity.Ensures t.name c) :
    Contained settings t known gs (.identity c) := by
  cases h with
  | look => exact fun _ _ => ⟨.own .admin, nofun, nofun⟩
  | make =>
    refine fun _ _ => ⟨trivial, ?_, fun g hg => ?_⟩
    · rintro e rfl
      exact .inl .admin
    · cases hg
      rfl

theorem contained_of_path {c : VaultCall} {p : String} (own : Own settings t known (.path p))
    (hc : c = .read p ∨ (∃ body, c = .write p body) ∨ c = .delete p) :
    Contained settings t known gs (.vault c) := by
  rcases hc with rfl | ⟨body, rfl⟩ | rfl
  · exact fun _ _ => ⟨.own own, nofun, nofun⟩
  · exact contained_of_entry own (fun _ => trivial) (fun _ _ => id) nofun
  · exact contained_of_entry own (fun _ => .own own) (fun _ _ => id) nofun

theorem contained_of_ensures {h : Holdings} {c : VaultCall} (hh : known h)
    (hc : Encryption.Ensures h.domain c) : Contained settings t known gs (.vault c) := by
  cases hc with
  | look hp => exact contained_of_path (.domain hh hp) (.inl rfl)
  | make hp => exact contained_of_path (.domain hh hp) (.inr (.inl ⟨_, rfl⟩))
  | takeBack hp => exact contained_of_path (.domain hh hp) (.inr (.inr rfl))
  | lookKey => exact contained_of_path (.key hh) (.inl rfl)
  | key => exact contained_of_path (.key hh) (.inr (.inl ⟨_, rfl⟩))

theorem contained_of_hook (c : HookCall) : Contained settings t known gs (.hook c) :=
  fun _ _ => ⟨trivial, nofun, nofun⟩

/-! ## Parts of a pass -/

variable {α : Type} {P : Status → Prop} {I : Estate → Prop}

/-- Whatever way a part of a pass goes, its calls are confined. -/
abbrev Confines (settings : Settings) (t : Tenant) (known : Holdings → Prop) (gs : List IdentityGroup)
    (I : Estate → Prop) (j : Job α) (Q : α → Prop) : Prop :=
  Job.Triple Troubled I (Confined settings t known gs) j Q I

theorem confines_getTenant : Confines settings t known gs (Recorded t.key P)
    (getTenant t.metadata.spaceName t.metadata.anyName)
    (fun found => ∀ copy, found = some copy → copy.key = t.key ∧ P copy.recorded) := by
  refine Job.triple_call fun E r E' hE h => ⟨contained_of_key rfl E r, ?_, ?_⟩
  · intro found hr copy hcopy
    cases h with
    | answered =>
      have hfound : (E.tenants t.key).filter (fun s => s.metadata.spaceName = t.metadata.spaceName &&
          s.metadata.name = some t.metadata.anyName) = some copy := (Except.ok.inj hr).trans hcopy
      obtain ⟨stored, named⟩ := Option.filter_eq_some_iff.1 hfound
      obtain ⟨space, name⟩ : copy.metadata.spaceName = t.metadata.spaceName ∧
          copy.metadata.name = some t.metadata.anyName := by simpa using named
      refine ⟨Prod.ext space ?_, hE copy stored⟩
      show copy.metadata.anyName = t.metadata.anyName
      simp [Metadata.anyName, name]
    | before => cases hr
    | after => cases hr
    | skipped =>
      cases hr
      cases hcopy
  · exact recorded_of_troubled (fun _ _ hs => by cases hs) h hE

theorem confines_updateStatus {change : Status → Status} (hP : ∀ s, P s → P (change s)) :
    Confines settings t known gs (Recorded t.key P) (updateStatus t change) P := by
  have once : Confines settings t known gs (Recorded t.key P)
      (updateOnce t.metadata.spaceName t.metadata.anyName change) P := by
    refine Job.triple_bind confines_getTenant (fun found hfound => ?_) fun _ => id
    cases found with
    | none => exact Job.triple_throw fun _ => id
    | some copy =>
      obtain ⟨key, recorded⟩ := hfound copy rfl
      have written := hP _ recorded
      refine Job.triple_bind (Q := fun _ => True) ?_ (fun _ _ => Job.triple_pure written fun _ => id) fun _ => id
      refine Job.triple_call fun E r E' hE h => ⟨?_, fun _ _ => trivial, ?_⟩
      · exact contained_of_key (c := .replaceStatus copy _) key E r
      · refine recorded_of_troubled (fun _ s hs => ?_) h hE
        cases hs
        exact written
  exact Job.triple_attempts once _ _

theorem confines_releaseFinalizer {f : String} : Confines settings t known gs (Recorded t.key fun _ => True)
    (releaseFinalizer t f) (fun _ => True) := by
  have once : Confines settings t known gs (Recorded t.key fun _ => True)
      (releaseOnce t.metadata.spaceName t.metadata.anyName f) (fun _ => True) := by
    refine Job.triple_bind confines_getTenant (fun found hfound => ?_) fun _ => id
    cases found with
    | none => exact Job.triple_pure trivial fun _ => id
    | some copy =>
      dsimp only
      split
      · refine Job.triple_call fun E r E' hE h => ⟨?_, fun _ _ => trivial, ?_⟩
        · exact contained_of_key (c := .removeFinalizer copy f) (hfound copy rfl).1 E r
        · exact recorded_of_troubled (fun _ _ hs => by cases hs) h hE
      · exact Job.triple_pure trivial fun _ => id
  exact Job.triple_attempts once _ _

theorem confines_of_asks {j : Job α} (asks : j.Asks (Contained settings t known gs)) :
    Confines settings t known gs (fun _ => True) j (fun _ => True) :=
  Job.triple_of_asks asks (fun m h => h m.before m.answer) fun _ _ _ _ _ _ _ => trivial

theorem confines_of_contained {j : Job α} (asks : j.Asks fun c => Contained settings t known gs c ∧ c.system ≠ .identity) :
    Confines settings t known gs (·.systems.identity = gs) j (fun _ => True) := by
  refine Job.triple_of_asks asks (fun m h => h.1 m.before m.answer) fun c E r E' hc h hE => ?_
  rw [identity_of_troubled h hc.2, hE]

/-- The group that is deleted is the one that was found, so the groups that go with it have its
identifier. -/
theorem confines_removeAdmin : Job.Triple Troubled (·.systems.identity = gs) (Confined settings t known gs)
    (Identity.removeAdmin t.name) (fun _ => True) (fun _ => True) := by
  have find : Confines settings t known gs (·.systems.identity = gs)
      (Identity.findGroup (IdentityGroup.adminName t.name))
      (fun found => ∀ g, found = some g → g ∈ gs ∧ g.name = IdentityGroup.adminName t.name) := by
    refine Job.triple_call fun E r E' hE h => ⟨contained_of_admin .look E r, ?_, ?_⟩
    · intro found hr g hg
      cases h with
      | answered =>
        have hfound : E.systems.identity.find? (fun g => g.name = IdentityGroup.adminName t.name) = some g :=
          (Except.ok.inj hr).trans hg
        rw [hE] at hfound
        exact ⟨List.mem_of_find?_eq_some hfound, by simpa using List.find?_some hfound⟩
      | before => cases hr
      | after => cases hr
      | skipped =>
        cases hr
        cases hg
    · rcases h.cases with rfl | rfl
      · exact hE
      · exact hE
  refine Job.triple_bind find (fun found hfound => ?_) fun _ _ => trivial
  split
  · exact Job.triple_pure trivial fun _ _ => trivial
  · next id hid =>
    obtain ⟨g, rfl, hg⟩ := Option.bind_eq_some_iff.1 hid
    obtain ⟨mem, name⟩ := hfound g rfl
    have delete : Job.Triple Troubled (·.systems.identity = gs) (Confined settings t known gs)
        (Identity.deleteGroup id) (fun _ => True) (fun _ => True) := by
      refine Job.triple_call fun E r E' hE h => ⟨⟨?_, ?_, nofun⟩, fun _ _ => trivial, trivial⟩
      · exact ⟨g, hE ▸ mem, hg, name ▸ .own .admin⟩
      · rintro e ⟨g', hg', hid', rfl⟩
        exact .inr ⟨g, mem, g', hE ▸ hg', id, name, hg, hid', rfl⟩
    refine Job.triple_bind (Job.triple_outcome delete) (fun x _ => ?_) fun _ _ => trivial
    exact confines_of_asks Job.asks_liftExcept

/-- The status by which the holdings are known. -/
abbrev Knowing (fresh : Fresh) (known : Holdings → Prop) (s : Status) : Prop := known (s.holdings fresh)

theorem confines_markDeploying : Confines settings t known gs (Recorded t.key (Knowing fresh known))
    (markDeploying t fresh) (Knowing fresh known) := by
  have last : Confines settings t known gs (Recorded t.key (Knowing fresh known))
      (updateStatus t fun s => { s with phase := some .deploying, uuid := some (s.uuid.getD fresh.uuid) })
      (Knowing fresh known) := confines_updateStatus fun s hs => hs
  unfold markDeploying
  dsimp only
  split
  · have first : Confines settings t known gs (Recorded t.key (Knowing fresh known))
        (updateStatus t fun s => { s with phase := some .new }) (Knowing fresh known) :=
      confines_updateStatus fun s hs => hs
    exact Job.triple_bind (Job.triple_discard first) (fun _ _ => last) fun _ => id
  · exact last

theorem confines_markDeleting (own : known (t.recorded.holdings fresh)) :
    Confines settings t known gs (Recorded t.key (Knowing fresh known)) (markDeleting t) (Knowing fresh known) := by
  unfold markDeleting
  split
  · exact Job.triple_pure own fun _ => id
  · exact confines_updateStatus fun s hs => hs

theorem contained_prepare {recorded : Status} (own : known (t.recorded.holdings fresh))
    (hr : known (recorded.holdings fresh)) :
    (prepare settings fresh t recorded).Asks (Contained settings t known gs) := by
  apply asks_prepare
  case spaces => exact fun c hc => contained_of_namespaces hc
  case hardware => exact fun k c hc => contained_of_moves own hc
  case identity => exact fun c hc => contained_of_admin hc
  case keys => exact fun _ c hc => contained_of_ensures hr hc
  case rotated => exact fun _ => contained_of_key rfl
  case stale => exact fun c hc => contained_of_deleteChild own (.inr (List.mem_filter.1 hc).1)
  case hooks => exact fun c _ => contained_of_hook c

theorem confines_clear {recorded : Status} (hr : known (recorded.holdings fresh)) :
    Job.Triple Troubled (·.systems.identity = gs) (Confined settings t known gs) (clear settings t recorded)
      (fun _ => True) (fun _ => True) := by
  have collections (k : Kind) : Confines settings t known gs (·.systems.identity = gs)
      (deleteCollections k t recorded) (fun _ => True) :=
    confines_of_contained (asks_deleteCollections fun n hn => ⟨contained_of_delete hr hn, nofun⟩)
  have domain : (Encryption.removeDomain recorded.keys).Asks (Contained settings t known gs) := by
    have own {d p : String} (hd : d ∈ recorded.keys.domain) (hp : p ∈ Encryption.domainPaths d) :
        Own settings t known (.path p) := by
      have same : (recorded.holdings fresh).domain = d := by simp [Status.holdings, Option.mem_def.1 hd]
      exact .domain hr (same ▸ hp)
    refine Encryption.asks_removeDomain (fun d hd => ?_) fun d hd p hp => ?_
    · exact contained_of_path (own hd (Encryption.mountPath_mem d)) (.inl rfl)
    · exact contained_of_path (own hd hp) (.inr (.inr rfl))
  have others : Job.Triple Troubled (·.systems.identity = gs) (Confined settings t known gs)
      (clearOthers t recorded) (fun _ => True) (fun _ => True) := by
    refine Job.triple_bind (collections .partition) (fun _ _ => ?_) fun _ _ => trivial
    refine Job.triple_bind (collections .group) (fun _ _ => ?_) fun _ _ => trivial
    refine Job.triple_bind (Job.triple_discard confines_removeAdmin) (fun _ _ => ?_) fun _ => id
    refine Job.triple_bind (Job.triple_discard (confines_of_asks domain)) (fun _ _ => ?_) fun _ => id
    exact confines_of_asks (Dispatch.asks_dispatch fun c _ => contained_of_hook c)
  have spaces : Confines settings t known gs (·.systems.identity = gs) (deleteNamespaces settings t recorded)
      (fun _ => True) := by
    refine confines_of_contained (asks_deleteNamespaces (fun c hc => ⟨?_, nofun⟩) ⟨?_, nofun⟩)
    · exact contained_of_deleteChild hr (List.mem_append.1 (Names.mem_ofList.1 hc))
    · exact contained_of_deleteAnchor .root fun a => .withinRoot
  refine Job.triple_bind spaces (fun r _ => ?_) fun _ _ => trivial
  cases r with
  | blocked => exact Job.triple_pure trivial fun _ _ => trivial
  | removed => exact Job.triple_bind others (fun _ _ => Job.triple_pure trivial fun _ => id) fun _ => id
  | absent => exact Job.triple_bind others (fun _ _ => Job.triple_pure trivial fun _ => id) fun _ => id

/-! ## Whole passes -/

variable {E E' : Estate} {tr : List (Moment Services Estate)} {o : Except Error Action}

theorem confined_of_deploy (own : known (t.recorded.holdings fresh)) (hE : E.Recorded t.key (Knowing fresh known))
    (h : (deploy settings fresh t).Goes Troubled E tr o E') : ∀ m ∈ tr, Confined settings t known gs m := by
  have marked {tr : List (Moment Services Estate)} {o : Except Error Status} {E₁ : Estate}
      (mark : (markDeploying t fresh).Goes Troubled E tr o E₁) :
      (∀ m ∈ tr, Confined settings t known gs m) ∧ ∀ recorded, o = .ok recorded → Knowing fresh known recorded := by
    obtain ⟨confined, knowing, _⟩ := confines_markDeploying hE mark
    exact ⟨confined, knowing⟩
  have through {recorded : Status} {tr : List (Moment Services Estate)} {o : Except Error (Option KeyRecord)}
      {E₁ E₂ : Estate} (hr : Knowing fresh known recorded)
      (middle : (prepare settings fresh t recorded).Goes Troubled E₁ tr o E₂) :
      ∀ m ∈ tr, Confined settings t known gs m :=
    (confines_of_asks (contained_prepare own hr) trivial middle).1
  cases deploy_cases h with
  | unmarked mark => exact (marked mark).1
  | failed mark middle =>
    obtain ⟨first, hr⟩ := marked mark
    exact List.forall_mem_append.2 ⟨first, through (hr _ rfl) middle⟩
  | pending mark middle =>
    obtain ⟨first, hr⟩ := marked mark
    exact List.forall_mem_append.2 ⟨first, through (hr _ rfl) middle⟩
  | prepared mark middle last =>
    obtain ⟨first, hr⟩ := marked mark
    obtain ⟨final, _⟩ := confines_updateStatus (P := fun _ => True) (fun _ _ => trivial) (fun _ _ => trivial) last
    exact List.forall_mem_append.2 ⟨List.forall_mem_append.2 ⟨first, through (hr _ rfl) middle⟩, final⟩

theorem confined_of_teardown (own : known (t.recorded.holdings fresh))
    (hE : E.Recorded t.key (Knowing fresh known)) (hgs : E.systems.identity = gs)
    (h : (teardown settings t).Goes Troubled E tr o E') : ∀ m ∈ tr, Confined settings t known gs m := by
  have marked {tr : List (Moment Services Estate)} {o : Except Error Status} {E₁ : Estate}
      (mark : (markDeleting t).Goes Troubled E tr o E₁) :
      (∀ m ∈ tr, Confined settings t known gs m) ∧ ∀ recorded, o = .ok recorded →
        Knowing fresh known recorded ∧ E₁.systems.identity = gs := by
    obtain ⟨confined, knowing, _⟩ := confines_markDeleting own hE mark
    refine ⟨confined, fun recorded hr => ⟨knowing recorded hr, ?_⟩⟩
    have asks : (markDeleting t).Asks fun c => c.system = .store := asks_markDeleting (fun _ _ => rfl) fun _ _ => rfl
    refine Dialogue.Goes.kept mark asks (P := (·.systems.identity = gs)) ?_ hgs
    intro c E₂ r E₃ hc hr hE₂
    rw [identity_of_troubled hr (by rw [show c.system = .store from hc]; nofun), hE₂]
  have through {recorded : Status} {tr : List (Moment Services Estate)} {o : Except Error Removal}
      {E₁ E₂ : Estate} (hr : Knowing fresh known recorded ∧ E₁.systems.identity = gs)
      (middle : (clear settings t recorded).Goes Troubled E₁ tr o E₂) : ∀ m ∈ tr, Confined settings t known gs m :=
    (confines_clear hr.1 hr.2 middle).1
  cases teardown_cases h with
  | unmarked mark => exact (marked mark).1
  | failed mark middle =>
    obtain ⟨first, hr⟩ := marked mark
    exact List.forall_mem_append.2 ⟨first, through (hr _ rfl) middle⟩
  | blocked mark middle =>
    obtain ⟨first, hr⟩ := marked mark
    exact List.forall_mem_append.2 ⟨first, through (hr _ rfl) middle⟩
  | cleared mark middle _ release =>
    obtain ⟨first, hr⟩ := marked mark
    obtain ⟨final, _⟩ := confines_releaseFinalizer (fun _ _ => trivial) release
    exact List.forall_mem_append.2 ⟨List.forall_mem_append.2 ⟨first, through (hr _ rfl) middle⟩, final⟩

/-- Whatever way a pass goes, its calls have to do with the tenant's entries only. -/
theorem confined_of_reconcile (h : (reconcile settings fresh t).Goes Troubled E tr o E') :
    ∀ m ∈ tr, Confined settings t (Known fresh t E) E.systems.identity m := by
  have own : Known fresh t E (t.recorded.holdings fresh) := .inl rfl
  have hE : E.Recorded t.key (Knowing fresh (Known fresh t E)) := fun stored hs => .inr ⟨stored, hs, rfl⟩
  have dropped : (dropRequest t).Asks fun c =>
      Contained settings t (Known fresh t E) E.systems.identity c ∧ Records (Knowing fresh (Known fresh t E)) c :=
    asks_dropRequest fun _ => ⟨contained_of_key rfl, fun _ _ hs => by cases hs⟩
  have drops {tr : List (Moment Services Estate)} {o : Except Error Unit} {E₁ : Estate}
      (drop : (dropRequest t).Goes Troubled E tr o E₁) :
      (∀ m ∈ tr, Confined settings t (Known fresh t E) E.systems.identity m) ∧
        E₁.Recorded t.key (Knowing fresh (Known fresh t E)) := by
    refine ⟨fun m hm => (Dialogue.Goes.asks drop dropped m hm).1 m.before m.answer, ?_⟩
    exact Dialogue.Goes.kept drop dropped (fun c E₁ r E₂ hc hr => recorded_of_troubled hc.2 hr) hE
  cases reconcile_cases h with
  | gone => exact List.forall_mem_nil _
  | teardown _ _ goes => exact confined_of_teardown own hE rfl goes
  | attach _ _ goes =>
    obtain ⟨_, rfl⟩ := Job.goes_call goes
    refine List.forall_mem_singleton.2 ?_
    exact contained_of_key (c := .addFinalizer t tenantFinalizer) rfl _ _
  | undropped _ drop => exact (drops drop).1
  | settled _ _ _ drop => exact (drops drop).1
  | deploy _ _ _ drop goes =>
    obtain ⟨first, hE₁⟩ := drops drop
    exact List.forall_mem_append.2 ⟨first, confined_of_deploy own hE₁ goes⟩

end Lifecycle

end Tenancy

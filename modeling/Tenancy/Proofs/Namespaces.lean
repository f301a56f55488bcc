import Tenancy.Proofs.Runs

/-!
# What becomes of namespaces

A tenant has the anchor of its root namespace and those of the children in it, and no pass makes any
other (`AnchorsTracked`). The hierarchy refuses to delete a namespace that something is still in. So a
teardown pass that came past the root namespace has left no anchor at all, not even of a child that was
declared for a while and is recorded nowhere (`noAnchors_of_deleteNamespaces`).
-/

namespace Tenancy

open Rehearsal Rehearsal.World

namespace Rehearsal.World

variable {kept : BackingSystem → Prop} {w w' : World} {p n a : String}

theorem isIn_inSpace (space name : String) : isIn space (inSpace space name) = true := by
  have h : (inSpace space name).toList = (space ++ "/").toList ++ name.toList := by
    rw [inSpace, String.toList_append]
  rw [isIn, h, Text.dropStart?_append]
  rfl

/-! ## Single calls -/

theorem mem_anchors_ite {c : Prop} [Decidable c] {x y : Answer Unit}
    (ha : a ∈ (if c then x else y).2.anchors) : a ∈ x.2.anchors ∨ a ∈ y.2.anchors := by
  split at ha
  · exact .inl ha
  · exact .inr ha

/-- An anchor that is there after a call was there before, or it is the one that the call makes. -/
theorem anchor_of_call (hk : kept .hierarchy) {c : HierarchyCall}
    {r : Except Error (Call.hierarchy c).Reply}
    (h : conduct kept Call.FailsPlainly (.hierarchy c) w r w') (ha : a ∈ w'.anchors) :
    a ∈ w.anchors ∨ ∃ p n, c = .createAnchor p n ∧ a = inSpace p n := by
  rcases call_cases hk h with ⟨w₁, hw₁, hr⟩ | ⟨_, _, _, hw'⟩
  · have hw' : w' = (w₁.hierarchy c).2 := congrArg Prod.snd hr
    rw [hw'] at ha
    rw [← hw₁.1]
    cases c with
    | createAnchor p n =>
      rcases mem_anchors_ite ha with ha | ha
      · exact .inl ha
      · rcases Names.mem_insert.1 ha with rfl | ha
        · exact .inr ⟨p, n, rfl, rfl⟩
        · exact .inl ha
    | deleteAnchor p n =>
      rcases mem_anchors_ite ha with ha | ha
      · exact .inl ha
      · rcases mem_anchors_ite ha with ha | ha
        · exact .inl (List.mem_filter.1 ha).1
        · exact .inl ha
    | createSecret space s => exact .inl ((mem_anchors_ite ha).elim id id)
    | anchorExists p n => exact .inl ha
    | getSecret space n => exact .inl ha
  · exact .inl (hw'.1 ▸ ha)

/-- The anchor is gone, and nothing is left in its namespace. -/
def AnchorGone (p n : String) (w : World) : Prop :=
  inSpace p n ∉ w.anchors ∧ ∀ a ∈ w.anchors, isIn n a = false

/-- A deletion is refused while something is in the namespace of the anchor. If nothing is, the anchor is
deleted, or it was not there. -/
theorem deleteAnchor_outcomes {r : Except Error Unit} (h : (r, w') = w.hierarchy (.deleteAnchor p n)) :
    ((∃ a ∈ w.anchors, isIn n a = true) ∧
        r = .error (.rejected "kubernetes" 403 "subnamespaces still exist") ∧ w' = w) ∨
      (∀ a ∈ w.anchors, isIn n a = false) ∧
        (inSpace p n ∈ w.anchors ∧ r = .ok () ∧
            w' = { w with anchors := w.anchors.filter (· ≠ inSpace p n) } ∨
          inSpace p n ∉ w.anchors ∧ r = .error (.rejected "kubernetes" 404 "anchor not found") ∧ w' = w) := by
  have h : (r, w') = (if w.anchors.any (isIn n) = true then
      w.refuse "kubernetes" 403 "subnamespaces still exist"
      else if w.anchors.contains (inSpace p n) = true then
        effect { w with anchors := w.anchors.filter (· ≠ inSpace p n) }
      else w.refuse "kubernetes" 404 "anchor not found" : Answer Unit) := h
  split at h
  · next children =>
    obtain ⟨hr, hw⟩ := Prod.mk.inj h
    exact .inl ⟨by simpa using children, hr, hw⟩
  · next nothing =>
    refine .inr ⟨by simpa using nothing, ?_⟩
    split at h
    · next there =>
      obtain ⟨hr, hw⟩ := Prod.mk.inj h
      exact .inl ⟨by simpa using there, hr, hw⟩
    · next gone =>
      obtain ⟨hr, hw⟩ := Prod.mk.inj h
      exact .inr ⟨by simpa using gone, hr, hw⟩

/-- A deletion says that the anchor is gone only if it is. -/
theorem deleteAnchor_cases (hk : kept .hierarchy) {r : Except Error Unit}
    (h : conduct kept Call.FailsPlainly (.hierarchy (.deleteAnchor p n)) w r w') :
    (r = .ok () ∧ AnchorGone p n w') ∨
      ∃ e, r = .error e ∧ (e.isNotFound = true → AnchorGone p n w') := by
  rcases call_cases hk h with ⟨w₁, _, hr⟩ | ⟨e, he, rfl, _⟩
  · rcases deleteAnchor_outcomes hr with
      ⟨_, rfl, _⟩ | ⟨nothing, ⟨_, rfl, rfl⟩ | ⟨gone, rfl, rfl⟩⟩
    · exact .inr ⟨_, rfl, nofun⟩
    · refine .inl ⟨rfl, fun ha => ?_, fun a ha => nothing a (List.mem_filter.1 ha).1⟩
      have hne := (List.mem_filter.1 ha).2
      simp at hne
    · exact .inr ⟨_, rfl, fun _ => ⟨gone, nothing⟩⟩
  · refine .inr ⟨e, rfl, fun hn => ?_⟩
    rw [he.2 rfl] at hn
    cases hn

end Rehearsal.World

namespace Lifecycle

variable {kept : BackingSystem → Prop} {settings : Settings} {fresh : Fresh} {t t' : Tenant}
  {recorded : Status} {w w' : World} {tr : List (Moment Services World)}

/-! ## Jobs -/

/-- A deletion of an anchor that is not blocked leaves neither the anchor nor anything in its
namespace. -/
theorem removeAnchor_ok (hk : kept .hierarchy) {p n : String} {r : Removal}
    (h : (Hierarchy.removeAnchor p n).Goes (conduct kept Call.FailsPlainly) w tr (.ok r) w')
    (unblocked : r ≠ .blocked) : AnchorGone p n w' := by
  obtain ⟨x, hx, ho⟩ := Job.goes_reading h
  rcases deleteAnchor_cases hk (Job.goes_call hx).1 with ⟨_, gone⟩ | ⟨e, rfl, gone⟩
  · exact gone
  · by_cases hn : e.isNotFound = true
    · exact gone hn
    · unfold Hierarchy.deletedFrom at ho
      dsimp only at ho
      rw [if_neg hn] at ho
      split at ho
      · exact absurd (Except.ok.inj ho) unblocked
      · cases ho

/-- A deletion of anchors leaves none that was not there. -/
theorem anchors_less_of_asks (hk : kept .hierarchy) {α : Type} {j : Job α} {o : Except Error α}
    (h : j.Goes (conduct kept Call.FailsPlainly) w tr o w')
    (hj : j.Asks fun c => ∃ p n, c = .hierarchy (.deleteAnchor p n)) {a : String} (ha : a ∈ w'.anchors) :
    a ∈ w.anchors := by
  have calls : j.Asks fun c => ∀ q : HierarchyCall, c = .hierarchy q → ∃ p n, q = .deleteAnchor p n := by
    refine hj.mono ?_
    rintro _ ⟨p, n, rfl⟩ q he
    cases he
    exact ⟨p, n, rfl⟩
  refine kept_of_calls h hk calls (P := fun w' => ∀ a ∈ w'.anchors, a ∈ w.anchors) ?_ ?_
    (fun _ => id) a ha
  · intro w₁ w₂ same less a ha
    exact less a (same.1 ▸ ha)
  · rintro _ w₁ r w₂ ⟨p, n, rfl⟩ hr less a ha
    rcases anchor_of_call hk hr ha with ha | ⟨_, _, he, _⟩
    · exact less a ha
    · cases he

/-- A deletion of child namespaces that is not blocked leaves none of their anchors. -/
theorem deleteChildren_ok (hk : kept .hierarchy) {name : String} {cs : List String} {r : Removal}
    (h : (deleteChildren name cs).Goes (conduct kept Call.FailsPlainly) w tr (.ok r) w')
    (unblocked : r ≠ .blocked) : ∀ c ∈ cs, inSpace name c ∉ w'.anchors := by
  induction cs generalizing w tr with
  | nil => simp
  | cons c cs ih =>
    obtain ⟨r₁, w₁, tr₁, tr₂, hc, hrest, _⟩ := Job.goes_bind_ok h
    have on (hr : r₁ ≠ .blocked)
        (hrest : (deleteChildren name cs).Goes (conduct kept Call.FailsPlainly) w₁ tr₂ (.ok r) w') :
        ∀ c' ∈ c :: cs, inSpace name c' ∉ w'.anchors := by
      intro c' hc'
      rcases List.mem_cons.1 hc' with rfl | hc'
      · intro ha
        exact (removeAnchor_ok hk hc hr).1
          (anchors_less_of_asks hk hrest (asks_deleteChildren fun _ _ => ⟨_, _, rfl⟩) ha)
      · exact ih hrest c' hc'
    cases r₁ with
    | blocked =>
      obtain ⟨_, ho, _⟩ := Job.goes_pure hrest
      exact absurd (Except.ok.inj ho) unblocked
    | removed => exact on nofun hrest
    | absent => exact on nofun hrest

/-- A deletion of all namespaces that is not blocked leaves no anchor of a child and none of the root
namespace, and nothing in the root namespace. -/
theorem deleteNamespaces_ok (hk : kept .hierarchy) {r : Removal}
    (h : (deleteNamespaces settings t recorded).Goes (conduct kept Call.FailsPlainly) w tr (.ok r) w')
    (unblocked : r ≠ .blocked) :
    (∀ c ∈ allChildren t recorded, inSpace t.name c ∉ w'.anchors) ∧
      AnchorGone settings.root t.name w' := by
  obtain ⟨r₁, w₁, tr₁, tr₂, hc, hrest, _⟩ := Job.goes_bind_ok h
  have on (hr : r₁ ≠ .blocked)
      (hrest : (Hierarchy.deleteRoot settings.root t.name).Goes (conduct kept Call.FailsPlainly) w₁ tr₂
        (.ok r) w') :
      (∀ c ∈ allChildren t recorded, inSpace t.name c ∉ w'.anchors) ∧
        AnchorGone settings.root t.name w' := by
    refine ⟨fun c hmem ha => ?_, removeAnchor_ok hk hrest unblocked⟩
    exact deleteChildren_ok hk hc hr c hmem
      (anchors_less_of_asks hk hrest (Hierarchy.asks_removeAnchor ⟨_, _, rfl⟩) ha)
  cases r₁ with
  | blocked =>
    obtain ⟨_, ho, _⟩ := Job.goes_pure hrest
    exact absurd (Except.ok.inj ho) unblocked
  | removed => exact on nofun hrest
  | absent => exact on nofun hrest

/-- The anchor is one of the tenant's: that of its root namespace, or one in there. -/
def OwnAnchor (settings : Settings) (name a : String) : Prop :=
  a = inSpace settings.root name ∨ ∃ c, a = inSpace name c

/-- Where all anchors are the tenant's, a deletion of its namespaces that is not blocked leaves none. -/
theorem noAnchors_of_deleteNamespaces (hk : kept .hierarchy) {r : Removal}
    (h : (deleteNamespaces settings t recorded).Goes (conduct kept Call.FailsPlainly) w tr (.ok r) w')
    (unblocked : r ≠ .blocked) (own : ∀ a ∈ w'.anchors, OwnAnchor settings t.name a) :
    w'.anchors = [] := by
  obtain ⟨_, gone⟩ := deleteNamespaces_ok hk h unblocked
  rw [List.eq_nil_iff_forall_not_mem]
  intro a ha
  rcases own a ha with rfl | ⟨c, rfl⟩
  · exact gone.1 ha
  · have inside := gone.2 _ ha
    rw [isIn_inSpace] at inside
    cases inside

/-! ## Passes -/

/-- A job that makes only anchors of the tenant leaves only such anchors. -/
theorem ownAnchors_of_asks (hk : kept .hierarchy) {α : Type} {j : Job α} {o : Except Error α}
    (h : j.Goes (conduct kept Call.FailsPlainly) w tr o w')
    (hj : j.Asks fun c => ∀ p n, c = .hierarchy (.createAnchor p n) →
      OwnAnchor settings t.name (inSpace p n))
    (own : ∀ a ∈ w.anchors, OwnAnchor settings t.name a) :
    ∀ a ∈ w'.anchors, OwnAnchor settings t.name a := by
  have calls : j.Asks fun c => ∀ q : HierarchyCall, c = .hierarchy q → ∀ p n, q = .createAnchor p n →
      OwnAnchor settings t.name (inSpace p n) :=
    hj.mono fun c hc q he p n hq => hc p n (he.trans (congrArg _ hq))
  refine kept_of_calls h hk calls (P := fun w => ∀ a ∈ w.anchors, OwnAnchor settings t.name a) ?_ ?_ own
  · intro w₁ w₂ same own a ha
    exact own a (same.1 ▸ ha)
  · intro c w₁ r w₂ hc hr own a ha
    rcases anchor_of_call hk hr ha with ha | ⟨p, n, rfl, rfl⟩
    · exact own a ha
    · exact hc p n rfl

theorem ownAnchors_of_prepare (hk : kept .hierarchy) {o : Except Error (Option KeyRecord)}
    (h : (prepare settings fresh t recorded).Goes (conduct kept Call.FailsPlainly) w tr o w')
    (own : ∀ a ∈ w.anchors, OwnAnchor settings t.name a) :
    ∀ a ∈ w'.anchors, OwnAnchor settings t.name a := by
  refine ownAnchors_of_asks hk h ?_ own
  apply asks_prepare
  case spaces =>
    rintro c hc p n he
    cases he
    cases hc with
    | root => exact .inl rfl
    | child => exact .inr ⟨_, rfl⟩
  all_goals
    intros
    rename_i he
    cases he

theorem ownAnchors_of_clear (hk : kept .hierarchy) {o : Except Error Removal}
    (h : (clear settings t recorded).Goes (conduct kept Call.FailsPlainly) w tr o w')
    (own : ∀ a ∈ w.anchors, OwnAnchor settings t.name a) :
    ∀ a ∈ w'.anchors, OwnAnchor settings t.name a := by
  refine ownAnchors_of_asks hk h ?_ own
  apply asks_clear
  all_goals
    intros
    rename_i he
    cases he

theorem anchors_of_clearOthers (hk : kept .hierarchy) {fails : Call → Error → Prop} {o : Except Error Unit}
    (h : (clearOthers t recorded).Goes (conduct kept fails) w tr o w') : w'.anchors = w.anchors := by
  refine (sameFor_of_asks h hk ?_).1
  apply asks_clearOthers
  all_goals
    intros
    nofun

theorem noAnchors_of_clear (hk : kept .hierarchy) {r : Removal}
    (h : (clear settings t recorded).Goes (conduct kept Call.FailsPlainly) w tr (.ok r) w')
    (unblocked : r ≠ .blocked) (own : ∀ a ∈ w.anchors, OwnAnchor settings t.name a) :
    w'.anchors = [] := by
  obtain ⟨w₁, _, _, hdelete, hothers⟩ := clear_ok h unblocked
  rw [anchors_of_clearOthers hk hothers]
  refine noAnchors_of_deleteNamespaces hk hdelete unblocked (ownAnchors_of_asks hk hdelete ?_ own)
  exact asks_deleteNamespaces (fun _ _ _ _ => nofun) fun _ _ => nofun

/-! ## Runs -/

/-- All anchors are the tenant's, and without the finalizer there are none. -/
structure AnchorsTracked (settings : Settings) (t : Tenant) (w : World) : Prop where
  own : ∀ a ∈ w.anchors, OwnAnchor settings t.name a
  unheld : t.hasFinalizer tenantFinalizer = false → w.anchors = []

theorem anchorsTracked_nil (empty : w.anchors = []) : AnchorsTracked settings t w :=
  ⟨by simp [empty], fun _ => empty⟩

theorem anchorsTracked_of_pass (hk : kept .hierarchy)
    (h : Pass kept Call.FailsPlainly settings fresh t w tr w') (hw : AnchorsTracked settings t w) :
    ∃ t', w'.tenant = some t' ∧ AnchorsTracked settings t' w' := by
  have of_held {t' : Tenant} (held : t.hasFinalizer tenantFinalizer = true) (tended : t.Tended t')
      (still : t.Held t') (own : ∀ a ∈ w'.anchors, OwnAnchor settings t.name a) :
      AnchorsTracked settings t' w' := by
    refine ⟨tended.name ▸ own, fun unheld => ?_⟩
    rw [still _ held] at unheld
    cases unheld
  cases h with
  | idle _ _ stored others =>
    obtain ⟨t', ht', ⟨tended, held⟩, _⟩ := stored
    have hw' : w'.anchors = w.anchors := (others _ hk nofun).1
    refine ⟨t', ht', ?_, fun unheld => ?_⟩
    · rw [hw', tended.name]
      exact hw.own
    · rw [hw']
      exact hw.unheld (held.unheld unheld)
  | interrupted _ _ held begun middle ended stored =>
    obtain ⟨t', ht', ⟨tended, still⟩, _⟩ := stored
    refine ⟨t', ht', of_held held tended still ?_⟩
    rw [(ended _ hk nofun).1]
    refine ownAnchors_of_prepare hk middle ?_
    rw [(begun _ hk nofun).1]
    exact hw.own
  | deployed _ _ held begun middle ended stored =>
    obtain ⟨t', ht', ⟨tended, still⟩, _⟩ := stored
    refine ⟨t', ht', of_held held tended still ?_⟩
    rw [(ended _ hk nofun).1]
    refine ownAnchors_of_prepare hk middle ?_
    rw [(begun _ hk nofun).1]
    exact hw.own
  | uncleared _ _ held begun middle ended stored =>
    obtain ⟨t', ht', ⟨tended, still⟩, _⟩ := stored
    refine ⟨t', ht', of_held held tended still ?_⟩
    rw [(ended _ hk nofun).1]
    refine ownAnchors_of_clear hk middle ?_
    rw [(begun _ hk nofun).1]
    exact hw.own
  | released _ _ _ begun middle unblocked ended stored =>
    refine ⟨_, stored, anchorsTracked_nil ?_⟩
    rw [(ended _ hk nofun).1]
    refine noAnchors_of_clear hk middle unblocked ?_
    rw [(begun _ hk nofun).1]
    exact hw.own

theorem anchorsTracked_of_declares (h : t.Declares t') (hw : AnchorsTracked settings t w) :
    AnchorsTracked settings (bump t') { w with tenant := some (bump t') } := by
  obtain ⟨children, resources, rfl⟩ := h
  exact ⟨hw.own, hw.unheld⟩

theorem AnchorsTracked.requestDeletion (hw : AnchorsTracked settings t w) (time : Instant) :
    AnchorsTracked settings (bump (t.requestDeletion time))
      { w with tenant := some (bump (t.requestDeletion time)) } := ⟨hw.own, hw.unheld⟩

end Lifecycle

end Tenancy

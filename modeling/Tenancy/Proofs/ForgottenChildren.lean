import Tenancy.Proofs.Rewrites
import Tenancy.Proofs.StaleChildren

/-!
# Children that are forgotten

A recorded child that is not declared any more is deleted by the next deploy pass, and the status that
the pass writes at its end does not list it. Nothing will ask for its deletion again after that. A pass
takes the answer that there are still namespaces in the child (403) for as good as a deletion, so it can
forget a child whose anchor stays.

`honestly` is a hierarchy that keeps its word and is changed by nobody else: what it says of a deletion is
so. `Accounted` is what the answers to the deletions of one child say about its anchor.
-/

namespace Tenancy

open Rehearsal Rehearsal.World

namespace Rehearsal.World

def SameAnchors (w w' : World) : Prop := ∀ a, a ∈ w'.anchors ↔ a ∈ w.anchors

/-- How an honest hierarchy answers. -/
inductive Honest : (c : Call) → World → Except Error c.Reply → World → Prop
  /-- It says that an anchor was deleted. -/
  | removed {p n : String} {w w' : World} (gone : inSpace p n ∉ w'.anchors)
      (others : ∀ a, a ≠ inSpace p n → (a ∈ w'.anchors ↔ a ∈ w.anchors)) :
      Honest (.hierarchy (.deleteAnchor p n)) w (.ok ()) w'
  /-- It says that there is no such anchor. -/
  | absent {p n : String} {e : Error} {w w' : World} (said : e.isNotFound = true)
      (gone : inSpace p n ∉ w.anchors) (same : SameAnchors w w') :
      Honest (.hierarchy (.deleteAnchor p n)) w (.error e) w'
  /-- It says that the anchor cannot be deleted for now. -/
  | refused {p n : String} {e : Error} {w w' : World} (said : e.status = some 403)
      (there : inSpace p n ∈ w.anchors) (same : SameAnchors w w') :
      Honest (.hierarchy (.deleteAnchor p n)) w (.error e) w'
  /-- A deletion fails in another way. -/
  | failed {p n : String} {e : Error} {w w' : World} (found : e.isNotFound = false)
      (allowed : e.status ≠ some 403) (same : SameAnchors w w') :
      Honest (.hierarchy (.deleteAnchor p n)) w (.error e) w'
  /-- It is asked for an anchor. -/
  | asked {p n : String} {r : Except Error Unit} {w w' : World}
      (others : ∀ a, a ≠ inSpace p n → (a ∈ w'.anchors ↔ a ∈ w.anchors)) :
      Honest (.hierarchy (.createAnchor p n)) w r w'
  /-- Something else is asked for. -/
  | other {c : Call} {r : Except Error c.Reply} {w w' : World}
      (undeleted : ∀ p n, c ≠ .hierarchy (.deleteAnchor p n))
      (unasked : ∀ p n, c ≠ .hierarchy (.createAnchor p n)) (same : SameAnchors w w') : Honest c w r w'

/-- The hierarchy is honest, and nobody else writes the tenant. Other systems may answer anything. -/
def honestly : Conduct Services World := fun (c : Call) w r w' => soleWriter c w r w' ∧ Honest c w r w'

end Rehearsal.World

namespace Lifecycle

/-- A deletion was refused for now. -/
def refusal : Moment Services World → Bool
  | ⟨_, .hierarchy (.deleteAnchor _ _), .error e⟩ => e.status = some 403
  | _ => false

/-- What the answers to the deletions of a child say about its anchor: it is there if they were all
refused, and it is not if one was not. -/
structure Accounted (tenant c : String) (w : World) (tr : List (Moment Services World)) (w' : World) :
    Prop where
  absent : inSpace tenant c ∉ w.anchors → inSpace tenant c ∉ w'.anchors
  unasked : (∀ m ∈ tr, m.query ≠ .hierarchy (.deleteAnchor tenant c)) →
    (inSpace tenant c ∈ w'.anchors ↔ inSpace tenant c ∈ w.anchors)
  asked : (∃ m ∈ tr, m.query = .hierarchy (.deleteAnchor tenant c)) →
    (inSpace tenant c ∈ w'.anchors ↔
      ∀ m ∈ tr, m.query = .hierarchy (.deleteAnchor tenant c) → refusal m = true)

variable {settings : Settings} {fresh : Fresh} {t t' : Tenant} {c tenant : String} {w w' w'' : World}
  {tr tr' : List (Moment Services World)}

namespace Accounted

theorem of_unasked (none_asked : ∀ m ∈ tr, m.query ≠ .hierarchy (.deleteAnchor tenant c))
    (same : inSpace tenant c ∈ w'.anchors ↔ inSpace tenant c ∈ w.anchors) : Accounted tenant c w tr w' := by
  refine ⟨mt same.1, fun _ => same, ?_⟩
  rintro ⟨m, hm, asked⟩
  exact absurd asked (none_asked m hm)

theorem append (h : Accounted tenant c w tr w') (h' : Accounted tenant c w' tr' w'') :
    Accounted tenant c w (tr ++ tr') w'' := by
  refine ⟨fun gone => h'.absent (h.absent gone), fun none_asked => ?_, fun asked => ?_⟩
  · obtain ⟨first, second⟩ := List.forall_mem_append.1 none_asked
    exact (h'.unasked second).trans (h.unasked first)
  rw [List.forall_mem_append]
  by_cases second : ∃ m ∈ tr', m.query = .hierarchy (.deleteAnchor tenant c)
  · rw [h'.asked second]
    refine ⟨fun all => ⟨?_, all⟩, And.right⟩
    -- what is refused later is there all the time, so it was not deleted before
    have there : inSpace tenant c ∈ w'.anchors := Classical.byContradiction fun gone =>
      h'.absent gone ((h'.asked second).2 all)
    by_cases first : ∃ m ∈ tr, m.query = .hierarchy (.deleteAnchor tenant c)
    · exact (h.asked first).1 there
    · exact fun m hm asked => absurd ⟨m, hm, asked⟩ first
  · have unasked : ∀ m ∈ tr', m.query ≠ .hierarchy (.deleteAnchor tenant c) :=
      fun m hm asked => second ⟨m, hm, asked⟩
    rw [h'.unasked unasked, and_iff_left fun m hm asked => absurd asked (unasked m hm)]
    refine h.asked ?_
    obtain ⟨m, hm, asked⟩ := asked
    rcases List.mem_append.1 hm with hm | hm
    · exact ⟨m, hm, asked⟩
    · exact absurd asked (unasked m hm)

end Accounted

theorem inSpace_inj {x y : String} : inSpace tenant x = inSpace tenant y ↔ x = y := by
  refine ⟨fun h => ?_, fun h => h ▸ rfl⟩
  have hl := congrArg String.toList h
  rw [toList_inSpace, toList_inSpace] at hl
  exact String.toList_inj.1 (List.cons.inj (List.append_cancel_left hl)).2

/-! ## Jobs under an honest hierarchy -/

/-- The call makes no anchor and deletes none. -/
def LeavesAnchors (q : Call) : Prop :=
  (∀ p n, q ≠ .hierarchy (.deleteAnchor p n)) ∧ ∀ p n, q ≠ .hierarchy (.createAnchor p n)

theorem accounted_of_asks {α : Type} {j : Job α} {o : Except Error α} (h : j.Goes honestly w tr o w')
    (hj : j.Asks LeavesAnchors) : Accounted tenant c w tr w' := by
  refine .of_unasked (fun m hm => (Dialogue.Goes.asks h hj m hm).1 _ _) ?_
  refine Dialogue.Goes.kept (P := fun w' => inSpace tenant c ∈ w'.anchors ↔ inSpace tenant c ∈ w.anchors)
    h hj ?_ .rfl
  rintro q w₁ r w₂ ⟨undeleted, unasked⟩ ⟨_, honest⟩ hw₁
  cases honest with
  | removed => exact absurd rfl (undeleted _ _)
  | absent => exact absurd rfl (undeleted _ _)
  | refused => exact absurd rfl (undeleted _ _)
  | failed => exact absurd rfl (undeleted _ _)
  | asked => exact absurd rfl (unasked _ _)
  | other _ _ same => exact (same _).trans hw₁

theorem accounted_of_deleteChild {x : String} {o : Except Error Removal} {r : Removal} (ho : o = .ok r)
    (h : (Hierarchy.deleteChild tenant x).Goes honestly w tr o w') :
    Accounted tenant c w tr w' ∧ (x = c → ∃ m ∈ tr, m.query = .hierarchy (.deleteAnchor tenant c)) := by
  obtain ⟨y, hx, rfl⟩ := Job.goes_reading h
  obtain ⟨⟨_, honest⟩, rfl⟩ := Job.goes_call hx
  refine ⟨?_, fun e => ⟨_, List.mem_singleton_self _, by rw [e]⟩⟩
  by_cases hxc : x = c
  · subst hxc
    have told {m : Moment Services World} (there : inSpace tenant x ∈ w'.anchors ↔ refusal m = true)
        (less : inSpace tenant x ∉ w.anchors → inSpace tenant x ∉ w'.anchors)
        (asked : m.query = .hierarchy (.deleteAnchor tenant x)) : Accounted tenant x w [m] w' :=
      ⟨less, fun none_asked => absurd asked (none_asked m (by simp)), fun _ => there.trans
        ⟨fun hr _ hm _ => List.mem_singleton.1 hm ▸ hr, fun all => all m (by simp) asked⟩⟩
    cases honest with
    | removed gone => exact told (iff_of_false gone nofun) (fun _ => gone) rfl
    | absent said gone same =>
      refine told (iff_of_false (mt (same _).1 gone) fun refused => ?_) (fun _ => mt (same _).1 gone) rfl
      have status : _ = some 403 := of_decide_eq_true refused
      rw [Error.isNotFound, status] at said
      cases said
    | refused said there same =>
      exact told (iff_of_true ((same _).2 there) (decide_eq_true said)) (fun gone => absurd there gone) rfl
    | failed found allowed =>
      unfold Hierarchy.deletedFrom at ho
      dsimp only at ho
      rw [if_neg (by simp [found]), if_neg allowed] at ho
      cases ho
    | other undeleted => exact absurd rfl (undeleted _ _)
  · have elsewhere : inSpace tenant c ≠ inSpace tenant x := fun e => hxc (inSpace_inj.1 e).symm
    have unasked : ∀ m ∈ [(⟨w, .hierarchy (.deleteAnchor tenant x), y⟩ : Moment Services World)],
        m.query ≠ .hierarchy (.deleteAnchor tenant c) := by
      intro m hm asked
      rw [List.mem_singleton.1 hm] at asked
      cases asked
      exact hxc rfl
    refine .of_unasked unasked ?_
    cases honest with
    | removed _ others => exact others _ elsewhere
    | absent _ _ same => exact same _
    | refused _ _ same => exact same _
    | failed _ _ same => exact same _
    | other _ _ same => exact same _

theorem accounted_of_deleteStale {cs : List String}
    (h : (cs.forM fun x => discard (Hierarchy.deleteChild tenant x)).Goes honestly w tr (.ok ()) w') :
    Accounted tenant c w tr w' ∧
      (c ∈ cs → ∃ m ∈ tr, m.query = .hierarchy (.deleteAnchor tenant c)) := by
  induction cs generalizing w tr with
  | nil =>
    obtain ⟨rfl, _, rfl⟩ := Job.goes_forM_nil h
    exact ⟨.of_unasked (fun m hm => by cases hm) .rfl, fun hc => by cases hc⟩
  | cons x cs ih =>
    obtain ⟨w₁, tr₁, tr₂, first, rest, rfl⟩ := Job.goes_forM_cons_ok h
    obtain ⟨r, first⟩ := Job.goes_discard_ok first
    obtain ⟨accounted, asked⟩ := accounted_of_deleteChild (c := c) rfl first
    obtain ⟨accounted', asked'⟩ := ih rest
    refine ⟨accounted.append accounted', fun hc => ?_⟩
    rcases List.mem_cons.1 hc with rfl | hc
    · obtain ⟨m, hm, hq⟩ := asked rfl
      exact ⟨m, List.mem_append_left _ hm, hq⟩
    · obtain ⟨m, hm, hq⟩ := asked' hc
      exact ⟨m, List.mem_append_right _ hm, hq⟩

/-! ## Which passes forget a child -/

/-- The children that are recorded are these. -/
def Lists (cs : Names) : World → Prop := Stored (·.recorded.children = cs)

variable {cs : Names} {α : Type} {j : Job α} {o : Except Error α}

theorem sole_of_honestly (h : j.Goes honestly w tr o w') : j.Goes soleWriter w tr o w' :=
  Dialogue.Goes.weaken (fun _ _ _ _ => And.left) h

theorem lists_of_quiet (hj : j.Asks Quiet) (h : j.Goes honestly w tr o w') (hw : Lists cs w) :
    Lists cs w' := by
  obtain ⟨u, stored, rfl⟩ := hw
  obtain ⟨_, hw'⟩ := trail_of_quiet (S := fun _ _ => True) (fun _ => trivial) (sole_of_honestly h) hj
    ⟨u, stored, rfl⟩
  exact hw'.mono fun _ hv => congrArg Status.children hv

theorem lists_of_updateStatus {change : Status → Status} {o : Except Error Status}
    (h : (updateStatus t change).Goes honestly w tr o w')
    (same : ∀ s, (change s).children = s.children) (hw : Lists cs w) : Lists cs w' :=
  (trail_of_updateStatus (S := fun _ _ => True) (P := (·.recorded.children = cs)) (fun _ => trivial)
    (fun u hu => ⟨trivial, (same u.recorded).trans hu⟩) (sole_of_honestly h) hw).2.1

theorem lists_of_markDeploying {o : Except Error Status}
    (h : (markDeploying t fresh).Goes honestly w tr o w') (hw : Lists cs w) : Lists cs w' := by
  unfold markDeploying at h
  dsimp only at h
  split at h
  · rcases Job.goes_bind h with ⟨e, _, first⟩ | ⟨_, w₁, _, _, first, last, _⟩
    · obtain ⟨_, first, _⟩ := Job.goes_discard first
      exact lists_of_updateStatus first (fun _ => rfl) hw
    · obtain ⟨_, first⟩ := Job.goes_discard_ok first
      exact lists_of_updateStatus last (fun _ => rfl) (lists_of_updateStatus first (fun _ => rfl) hw)
  · exact lists_of_updateStatus h (fun _ => rfl) hw

theorem lists_of_teardown {o : Except Error Action} (h : (teardown settings t).Goes honestly w tr o w')
    (hw : Lists cs w) : Lists cs w' := by
  have marked {w' : World} {tr : List (Moment Services World)} {o : Except Error Status}
      (h : (markDeleting t).Goes honestly w tr o w') : Lists cs w' := by
    unfold markDeleting at h
    split at h
    · obtain ⟨_, _, rfl⟩ := Job.goes_pure h
      exact hw
    · exact lists_of_updateStatus h (fun _ => rfl) hw
  cases teardown_cases h with
  | unmarked mark => exact marked mark
  | failed mark middle => exact lists_of_quiet clear_asks_quiet middle (marked mark)
  | blocked mark middle => exact lists_of_quiet clear_asks_quiet middle (marked mark)
  | cleared mark middle _ release =>
    exact lists_of_quiet releaseFinalizer_asks_quiet release (lists_of_quiet clear_asks_quiet middle (marked mark))

/-- A deploy pass came through all systems. Before it came to them it made calls to the store only. -/
inductive Through (settings : Settings) (fresh : Fresh) (t : Tenant) (w' : World) :
    List (Moment Services World) → Prop
  | intro {w₁ w₂ : World} {tr₁ tr₂ tr₃ : List (Moment Services World)} {recorded : Status}
      {keys : KeyRecord} {o : Except Error Status} (store : ∀ m ∈ tr₁, m.query.system = .store)
      (middle : (prepare settings fresh t recorded).Goes honestly w₁ tr₂ (.ok (some keys)) w₂)
      (last : (updateStatus t (deployedStatus t keys fresh.now)).Goes honestly w₂ tr₃ o w') :
      Through settings fresh t w' (tr₁ ++ tr₂ ++ tr₃)

theorem through_of_deploy {o : Except Error Action} (h : (deploy settings fresh t).Goes honestly w tr o w')
    (hw : Lists cs w) (stored : w'.tenant = some t') (recorded : c ∈ cs)
    (forgotten : c ∉ t'.recorded.children) : c ∉ t.desiredChildren ∧ Through settings fresh t w' tr := by
  have remembered (hw' : Lists cs w') : False := by
    obtain ⟨u, stored', rfl⟩ := hw'
    obtain rfl := Option.some.inj (stored'.symm.trans stored)
    exact forgotten recorded
  have through {w₁ w₂ : World} {tr₁ tr₂ : List (Moment Services World)} {recorded : Status}
      {o : Except Error (Option KeyRecord)}
      (mark : (markDeploying t fresh).Goes honestly w tr₁ (.ok recorded) w₁)
      (middle : (prepare settings fresh t recorded).Goes honestly w₁ tr₂ o w₂) : Lists cs w₂ :=
    lists_of_quiet prepare_asks_quiet middle (lists_of_markDeploying mark hw)
  cases deploy_cases h with
  | unmarked mark => exact (remembered (lists_of_markDeploying mark hw)).elim
  | failed mark middle => exact (remembered (through mark middle)).elim
  | pending mark middle => exact (remembered (through mark middle)).elim
  | prepared mark middle last =>
    have store : (markDeploying t fresh).Asks fun c => c.system = .store :=
      asks_markDeploying (fun _ _ => rfl) fun _ _ _ => rfl
    refine ⟨fun declared => ?_, .intro (Dialogue.Goes.asks mark store) middle last⟩
    -- the last write, if it is done, lists the declared children
    obtain ⟨_, ⟨u, stored', listed⟩, _⟩ := trail_of_updateStatus (S := fun _ _ => True)
      (P := fun u => u.recorded.children = cs ∨ u.recorded.children = t.desiredChildren)
      (fun _ => trivial) (fun _ _ => ⟨trivial, .inr rfl⟩) (sole_of_honestly last)
      ((through mark middle).mono fun _ => .inl)
    obtain rfl := Option.some.inj (stored'.symm.trans stored)
    rcases listed with rfl | listed
    · exact forgotten recorded
    · rw [listed] at forgotten
      exact forgotten declared

/-- A pass that forgets a child is a deploy pass that came through, and the child is not declared. -/
theorem through_of_pass (stored : w.tenant = some t) {o : Except Error Action}
    (h : (reconcile settings fresh t).Goes honestly w tr o w') (stored' : w'.tenant = some t')
    (recorded : c ∈ t.recorded.children) (forgotten : c ∉ t'.recorded.children) :
    c ∉ t.desiredChildren ∧ Through settings fresh t w' tr := by
  have hw : Lists t.recorded.children w := ⟨t, stored, rfl⟩
  have remembered {P : Prop} (hw' : Lists t.recorded.children w') : P := by
    obtain ⟨u, stored'', listed⟩ := hw'
    obtain rfl := Option.some.inj (stored''.symm.trans stored')
    rw [listed] at forgotten
    exact absurd recorded forgotten
  cases reconcile_cases h with
  | gone => exact remembered hw
  | teardown _ _ goes => exact remembered (lists_of_teardown goes hw)
  | attach _ _ goes =>
    exact remembered (lists_of_quiet (Job.asks_call fun sc hc => by cases hc; rfl) goes hw)
  | undropped _ drop => exact remembered (lists_of_quiet dropRequest_asks_quiet drop hw)
  | settled _ _ _ drop => exact remembered (lists_of_quiet dropRequest_asks_quiet drop hw)
  | deploy _ _ _ drop goes =>
    obtain ⟨undeclared, @⟨_, _, tr₁, tr₂, tr₃, _, _, _, store, middle, last⟩⟩ :=
      through_of_deploy goes (lists_of_quiet dropRequest_asks_quiet drop hw) stored' recorded forgotten
    refine ⟨undeclared, ?_⟩
    rw [← List.append_assoc, ← List.append_assoc]
    exact .intro (List.forall_mem_append.2 ⟨Dialogue.Goes.asks drop dropRequest_asks_store, store⟩) middle last

/-! ## What becomes of the anchor of a forgotten child -/

theorem leavesAnchors_of_system {q : Call} (h : q.system ≠ .hierarchy) : LeavesAnchors q := by
  constructor
  · rintro p n rfl
    exact h rfl
  · rintro p n rfl
    exact h rfl

/-- In the middle of a deploy pass nothing is deleted until it comes to the children that are not declared
any more. From then on the answers say what became of them. -/
theorem accounted_of_prepare {recorded : Status} {keys : KeyRecord}
    (h : (prepare settings fresh t recorded).Goes honestly w tr (.ok (some keys)) w') :
    ∃ w₁ tr₁ tr₂, (∀ m ∈ tr₁, m.query ≠ .hierarchy (.deleteAnchor t.name c)) ∧
      Accounted t.name c w₁ tr₂ w' ∧
      (c ∈ staleChildren t → ∃ m ∈ tr₂, m.query = .hierarchy (.deleteAnchor t.name c)) ∧
      tr = tr₁ ++ tr₂ := by
  obtain ⟨_, _, _, tr₁, tr₂, tr₃, _, spaces, partitions, groups, others, rfl⟩ := prepare_ok h
  obtain ⟨_, w₁, _, tr₄, tr₅, tr₆, tr₇, admin, domain, stale, hooks, rfl⟩ := applyOthers_ok others
  obtain ⟨accounted, asked⟩ := accounted_of_deleteStale (c := c) stale
  have told := accounted.append (accounted_of_asks hooks
    (Dispatch.asks_dispatch fun _ _ => leavesAnchors_of_system nofun))
  refine ⟨w₁, tr₁ ++ tr₂ ++ tr₃ ++ (tr₄ ++ tr₅), tr₆ ++ tr₇, ?_, told, fun listed => ?_, by simp⟩
  · have elsewhere {q : Call} (h : q.system ≠ .hierarchy) : q ≠ .hierarchy (.deleteAnchor t.name c) :=
      (leavesAnchors_of_system h).1 _ _
    have unasked {α : Type} {j : Job α} {w w' : World} {tr : List (Moment Services World)}
        {o : Except Error α} (h : j.Goes honestly w tr o w')
        (hj : j.Asks fun q => q ≠ .hierarchy (.deleteAnchor t.name c)) :
        ∀ m ∈ tr, m.query ≠ .hierarchy (.deleteAnchor t.name c) := Dialogue.Goes.asks h hj
    simp only [List.forall_mem_append]
    refine ⟨⟨⟨?_, ?_⟩, ?_⟩, ?_, ?_⟩
    · exact unasked spaces (asks_ensureNamespaces fun q hq => by cases hq <;> nofun)
    · exact unasked partitions (Hardware.asks_converge fun _ _ => elsewhere nofun)
    · exact unasked groups (Hardware.asks_converge fun _ _ => elsewhere nofun)
    · exact unasked admin (Identity.asks_ensureAdmin fun _ _ => elsewhere nofun)
    · exact unasked domain (asks_ensureKeys (fun _ _ _ => elsewhere nofun) fun _ => elsewhere nofun)
  · obtain ⟨m, hm, hq⟩ := asked listed
    exact ⟨m, List.mem_append_left _ hm, hq⟩

/-- A child that a pass over the stored tenant forgets was to be deleted in the pass. Its anchor is still
there afterwards if all that the hierarchy said was that it cannot be deleted for now, and it is gone if the
hierarchy said otherwise once. -/
theorem forgotten_child_iff (stored : w.tenant = some t) {o : Except Error Action}
    (h : (reconcile settings fresh t).Goes honestly w tr o w') (stored' : w'.tenant = some t')
    (recorded : c ∈ t.recorded.children) (forgotten : c ∉ t'.recorded.children) :
    (∃ m ∈ tr, m.query = .hierarchy (.deleteAnchor t.name c)) ∧
      (inSpace t.name c ∈ w'.anchors ↔
        ∀ m ∈ tr, m.query = .hierarchy (.deleteAnchor t.name c) → refusal m = true) := by
  obtain ⟨undeclared, @⟨_, _, tr₀, _, tr₃, _, _, _, store, middle, last⟩⟩ :=
    through_of_pass stored h stored' recorded forgotten
  obtain ⟨_, tr₁, tr₂, early, accounted, asked, rfl⟩ := accounted_of_prepare (c := c) middle
  obtain ⟨m, hm, hq⟩ := asked (List.mem_filter.2 ⟨recorded, by simpa using undeclared⟩)
  have written : Accounted t.name c _ tr₃ w' := accounted_of_asks last (asks_updateStatus
    (fun _ _ => leavesAnchors_of_system nofun) fun _ => leavesAnchors_of_system nofun)
  refine ⟨⟨m, by simp [hm], hq⟩, ?_⟩
  rw [(accounted.append written).asked ⟨m, List.mem_append_left _ hm, hq⟩]
  -- the calls that come before are about something else
  have stored_first : ∀ m ∈ tr₀, m.query = .hierarchy (.deleteAnchor t.name c) → refusal m = true := by
    intro m hm hq
    have system := store m hm
    rw [hq] at system
    cases system
  have unasked : ∀ m ∈ tr₁, m.query = .hierarchy (.deleteAnchor t.name c) → refusal m = true :=
    fun m hm hq => absurd hq (early m hm)
  rw [List.append_assoc, List.append_assoc, ← List.append_assoc tr₀]
  have none_before := List.forall_mem_append.2 ⟨stored_first, unasked⟩
  exact ⟨fun late => List.forall_mem_append.2 ⟨none_before, late⟩, fun all => (List.forall_mem_append.1 all).2⟩

/-! ## In memory -/

/-- If there is something in the namespace of an anchor that is to be deleted, then the anchor is there. -/
def Orderly (m : Moment Services World) : Bool :=
  match m.query with
  | .hierarchy (.deleteAnchor p n) =>
    !m.before.anchors.any (isIn n) || m.before.anchors.contains (inSpace p n)
  | _ => true

/-- The hierarchy of the world in memory is honest where nothing is in a namespace without an anchor. -/
theorem honest_of_steady {q : Call} {r : Except Error q.Reply} (orderly : Orderly ⟨w, q, r⟩ = true)
    (h : steady Call.Unreachable q w r w') : Honest q w r w' := by
  have same : SameAnchors w w := fun _ => .rfl
  by_cases deletes : ∃ p n, q = .hierarchy (.deleteAnchor p n)
  · obtain ⟨p, n, rfl⟩ := deletes
    rcases h with h | ⟨e, ⟨_, _, rfl⟩, rfl, rfl⟩
    · rcases deleteAnchor_outcomes h with ⟨⟨a, ha, inside⟩, rfl, rfl⟩ | ⟨_, ⟨_, rfl, rfl⟩ | ⟨gone, rfl, rfl⟩⟩
      · have there : (!w'.anchors.any (isIn n) || w'.anchors.contains (inSpace p n)) = true := orderly
        rw [List.any_eq_true.2 ⟨a, ha, inside⟩] at there
        exact .refused rfl (by simpa using there) same
      · exact .removed (by simp) fun a ha => by simp [ha]
      · exact .absent rfl gone same
    · exact .failed rfl nofun same
  by_cases makes : ∃ p n, q = .hierarchy (.createAnchor p n)
  · obtain ⟨p, n, rfl⟩ := makes
    refine .asked fun a ha => ?_
    rcases h with h | ⟨_, _, _, rfl⟩
    · have h : (r, w') = (if w.hidden.contains p = true then
          w.refuse "kubernetes" 404 "namespace not found"
          else effect { w with anchors := w.anchors.insert (inSpace p n) } : Answer Unit) := h
      split at h
      · obtain ⟨_, rfl⟩ := Prod.mk.inj h
        exact .rfl
      · obtain ⟨_, rfl⟩ := Prod.mk.inj h
        exact Names.mem_insert.trans (or_iff_right ha)
    · exact .rfl
  refine .other (fun p n e => deletes ⟨p, n, e⟩) (fun p n e => makes ⟨p, n, e⟩) ?_
  have anchors : w'.anchors = w.anchors := by
    rcases h with h | ⟨_, _, _, rfl⟩
    · rw [show w' = (w.answer q).2 from congrArg Prod.snd h]
      by_cases hq : q.system = .hierarchy
      · obtain ⟨c, rfl⟩ : ∃ c, q = .hierarchy c := Call.exists_query hq
        cases c with
        | createAnchor p n => exact absurd ⟨p, n, rfl⟩ makes
        | deleteAnchor p n => exact absurd ⟨p, n, rfl⟩ deletes
        | createSecret space s =>
          show (if _ then w.refuse _ _ _ else effect _ : Answer Unit).2.anchors = _
          split <;> rfl
        | _ => rfl
      · exact (answer_same w q (Ne.symm hq)).1
    · rfl
  exact fun a => by rw [anchors]

theorem goes_honestly {s : Stage} (plain : s.Plain Call.Unreachable) (stored : s.world.tenant = some s.tenant)
    (orderly : ∀ m ∈ s.passStory settings fresh, Orderly m = true) :
    (reconcile settings fresh s.tenant).Goes honestly s.world (s.passStory settings fresh)
      (Stage.perform (reconcile settings fresh s.tenant) s).1 (s.pass settings fresh).world :=
  (Stage.steady_pass plain stored).weaken_at (P := (Orderly · = true))
    (fun _ _ _ _ ok h => ⟨soleWriter_of_steady h, honest_of_steady ok h⟩) orderly

/-- A tenant whose only child, with a namespace below it, is not declared any more. -/
def crowded : Stage where
  world := {
    tenant := some { Stage.newTenant { name := "blue" } with
      status := some { phase := some .deployed, children := ["blue-u"] } }
    anchors := ["blue-u/x", "blue/blue-u", "tenants/blue"] }

/-- The pass over it writes that it is deployed and forgets the child, whose anchor is still there. -/
theorem crowded_child_stays :
    ∃ tr o t', (reconcile {} ⟨"1", "now"⟩ crowded.tenant).Goes honestly crowded.world tr o
        (crowded.pass {} ⟨"1", "now"⟩).world ∧
      (crowded.pass {} ⟨"1", "now"⟩).world.tenant = some t' ∧ t'.phase = .deployed ∧
      "blue-u" ∈ crowded.tenant.recorded.children ∧ "blue-u" ∉ t'.recorded.children ∧
      inSpace crowded.tenant.name "blue-u" ∈ (crowded.pass {} ⟨"1", "now"⟩).world.anchors := by
  have plain : crowded.Plain Call.Unreachable := fun f hf => by cases hf
  refine ⟨_, _, (crowded.pass {} ⟨"1", "now"⟩).tenant, goes_honestly plain rfl (by decide +kernel), ?_⟩
  decide +kernel

/-- The same tenant with nothing below its child. -/
def uncrowded : Stage :=
  { crowded with world := { crowded.world with anchors := ["blue/blue-u", "tenants/blue"] } }

theorem forgotten_child_of_uncrowded :
    "blue-u" ∉ (uncrowded.pass {} ⟨"1", "now"⟩).tenant.recorded.children ∧
      (∃ m ∈ uncrowded.passStory {} ⟨"1", "now"⟩, m.query = .hierarchy (.deleteAnchor "blue" "blue-u")) ∧
      "blue/blue-u" ∉ (uncrowded.pass {} ⟨"1", "now"⟩).world.anchors := by
  have plain : uncrowded.Plain Call.Unreachable := fun f hf => by cases hf
  obtain ⟨stored, forgotten, willing⟩ :
      (uncrowded.pass {} ⟨"1", "now"⟩).world.tenant = some (uncrowded.pass {} ⟨"1", "now"⟩).tenant ∧
        "blue-u" ∉ (uncrowded.pass {} ⟨"1", "now"⟩).tenant.recorded.children ∧
        ∀ m ∈ uncrowded.passStory {} ⟨"1", "now"⟩, refusal m = false := by
    decide +kernel
  obtain ⟨⟨m, hm, asked⟩, there⟩ := forgotten_child_iff (c := "blue-u") rfl
    (goes_honestly plain rfl (by decide +kernel)) stored (by decide +kernel) forgotten
  refine ⟨forgotten, ⟨m, hm, asked⟩, fun stays => ?_⟩
  have refused := there.1 stays m hm asked
  rw [willing m hm] at refused
  cases refused

end Lifecycle

end Tenancy

import Tenancy.Proofs.Namespaces
import Tenancy.Proofs.Resumption

/-!
# Deleting stale children again

A deploy pass deletes the recorded children that are not declared any more, and passes over those whose
namespace still has something in it. Deleting one child could empty the namespace of another, and then a
pass that is repeated would delete more than one pass does. Where the names of the children have no slash
in them this does not happen: what is in such a namespace and goes away goes together with the namespace
itself (`isIn_of_child`), and the anchor of the root namespace stays (`isIn_of_root`). So the anchors that
are left do not depend on where passes failed (`after_deleteStale`).
-/

namespace Tenancy

open Rehearsal Rehearsal.World

namespace Rehearsal.World

/-! ## What is in a namespace without a slash in its name -/

theorem isIn_iff {space anchor : String} :
    isIn space anchor = true ↔ space.toList ++ ['/'] <+: anchor.toList := by
  have slash : (space ++ "/").toList = space.toList ++ ['/'] := by
    rw [String.toList_append]
    rfl
  rw [isIn, slash, Option.isSome_iff_exists]
  exact exists_congr fun r => (Text.dropStart?_eq_some_iff).trans eq_comm

theorem toList_inSpace (space name : String) :
    (inSpace space name).toList = space.toList ++ '/' :: name.toList := by
  rw [inSpace, String.toList_append, String.toList_append, List.append_assoc]
  rfl

theorem isIn_of_child {tenant s x : String} (plain : '/' ∉ s.toList)
    (h : isIn s (inSpace tenant x) = true) : isIn s (inSpace tenant s) = true := by
  rw [isIn_iff, toList_inSpace] at h ⊢
  have inside (y : List Char) : tenant.toList ++ ['/'] <+: tenant.toList ++ '/' :: y :=
    ⟨y, by simp⟩
  rcases Nat.lt_or_ge tenant.toList.length s.toList.length with hlt | hle
  · -- the name would begin with that of the tenant and a slash
    have hs : s.toList <+: tenant.toList ++ '/' :: x.toList := (List.prefix_append _ _).trans h
    have hpre : tenant.toList ++ ['/'] <+: s.toList :=
      List.prefix_of_prefix_length_le (inside _) hs (by simp; omega)
    exact absurd (hpre.subset (by simp)) plain
  · have hpre : s.toList ++ ['/'] <+: tenant.toList ++ ['/'] :=
      List.prefix_of_prefix_length_le h (inside _) (by simpa using hle)
    exact hpre.trans (inside _)

/-- A word that is moved past itself and a slash is the shorter word again and again, with slashes in
between. -/
theorem prefix_of_shift {s r : List Char} (plain : '/' ∉ s) (q : List Char)
    (h : q ++ '/' :: s = r ++ '/' :: q) : s ++ ['/'] <+: q ++ '/' :: s := by
  have hlen : r.length = s.length := by
    have := congrArg List.length h
    simp only [List.length_append, List.length_cons] at this
    omega
  rcases Nat.lt_or_ge q.length s.length with hlt | hge
  · have hs : s <:+ q ++ '/' :: s := ⟨q ++ ['/'], by simp⟩
    have hq : '/' :: q <:+ q ++ '/' :: s := ⟨r, h.symm⟩
    have hsuf : '/' :: q <:+ s := List.suffix_of_suffix_length_le hq hs hlt
    exact absurd (hsuf.subset (by simp)) plain
  · have hq : q <+: q ++ '/' :: s := List.prefix_append _ _
    have hr : r <+: q ++ '/' :: s := ⟨'/' :: q, h.symm⟩
    obtain ⟨q', rfl⟩ := List.prefix_of_prefix_length_le hr hq (by omega)
    rw [List.append_assoc] at h
    have h' := List.append_cancel_left h
    cases q' with
    | nil =>
      obtain rfl : s = r := by simpa using h'
      simp
    | cons c q' =>
      obtain ⟨rfl, h'⟩ := List.cons.inj h'
      -- one word less, and so the first word is the shorter word
      have ih : s ++ ['/'] <+: r ++ '/' :: q' := h' ▸ prefix_of_shift plain q' h'
      have hs : s <+: r ++ '/' :: q' := (List.prefix_append _ _).trans ih
      have hsr : s <+: r := List.prefix_of_prefix_length_le hs (List.prefix_append _ _) (by omega)
      obtain rfl := hsr.eq_of_length hlen.symm
      exact ⟨q' ++ '/' :: s, by simp⟩
termination_by q.length

theorem isIn_of_root {root tenant s : String} (plain : '/' ∉ s.toList)
    (h : inSpace tenant s = inSpace root tenant) : isIn s (inSpace tenant s) = true := by
  rw [isIn_iff, toList_inSpace]
  refine prefix_of_shift plain _ (?_ : _ = root.toList ++ '/' :: tenant.toList)
  rw [← toList_inSpace, ← toList_inSpace, h]

/-- A deletion of an anchor changes nothing, or it takes away the anchor of an empty namespace. -/
theorem deleteAnchor_effect {w w' : World} {parent n : String} {r : Except Error Unit}
    (h : (r, w') = w.hierarchy (.deleteAnchor parent n)) :
    w' = w ∨ (∀ a ∈ w.anchors, isIn n a = false) ∧
      w' = { w with anchors := w.anchors.filter (· ≠ inSpace parent n) } := by
  rcases deleteAnchor_outcomes h with ⟨_, _, rfl⟩ | ⟨empty, ⟨_, _, rfl⟩ | ⟨_, _, rfl⟩⟩
  · exact .inl rfl
  · exact .inr ⟨empty, rfl⟩
  · exact .inl rfl

end Rehearsal.World

namespace Lifecycle

variable {tenant : String} {stale : List String} {as bs : Names} {w w' : World}
  {fails : Call → Error → Prop}

/-! ## Anchors that are left -/

/-- Of these anchors, some of children to delete are gone, all with nothing in their namespaces. -/
structure Pruned (tenant : String) (stale : List String) (as bs : Names) : Prop where
  less : ∀ a ∈ bs, a ∈ as
  gone : ∀ a ∈ as, a ∉ bs → ∃ s ∈ stale, a = inSpace tenant s ∧ ∀ b ∈ as, isIn s b = false

theorem Pruned.refl (tenant : String) (stale : List String) (as : Names) : Pruned tenant stale as as :=
  ⟨fun _ => id, fun _ ha hn => absurd ha hn⟩

/-- To delete one more child whose namespace is empty by now leaves the anchors pruned: it was empty from the
beginning. -/
theorem Pruned.filter (h : Pruned tenant stale as bs) {s : String} (hs : s ∈ stale)
    (plain : '/' ∉ s.toList) (empty : ∀ b ∈ bs, isIn s b = false) :
    Pruned tenant stale as (bs.filter (· ≠ inSpace tenant s)) := by
  refine ⟨fun a ha => h.less a (List.mem_filter.1 ha).1, fun a ha hn => ?_⟩
  by_cases hb : a ∈ bs
  · obtain rfl : a = inSpace tenant s := by
      refine Classical.byContradiction fun hne => ?_
      exact hn (List.mem_filter.2 ⟨hb, by simpa using hne⟩)
    refine ⟨s, hs, rfl, fun b hbs => ?_⟩
    by_cases hb' : b ∈ bs
    · exact empty b hb'
    · obtain ⟨x, _, rfl, _⟩ := h.gone b hbs hb'
      rw [← Bool.not_eq_true]
      intro inside
      -- the namespace held itself, which is still there
      have itself := empty _ hb
      rw [isIn_of_child plain inside] at itself
      cases itself
  · exact h.gone a ha hb

/-- The anchors of a deployed tenant are not pruned away. -/
theorem SpacesMade.pruned {settings : Settings} {t : Tenant} (made : SpacesMade settings t w)
    (plain : ∀ s ∈ staleChildren t, '/' ∉ s.toList)
    (h : Pruned t.name (staleChildren t) w.anchors w'.anchors) (secrets : w'.secrets = w.secrets) :
    SpacesMade settings t w' := by
  constructor
  case root =>
    refine Classical.byContradiction fun hn => ?_
    obtain ⟨s, hs, same, empty⟩ := h.gone _ made.root hn
    have itself := empty _ made.root
    rw [same, isIn_of_root (plain s hs) same.symm] at itself
    cases itself
  case children =>
    refine fun c hc => Classical.byContradiction fun hn => ?_
    obtain ⟨s, hs, same, _⟩ := h.gone _ (made.children c hc) hn
    have hl := congrArg String.toList same
    rw [toList_inSpace, toList_inSpace] at hl
    obtain rfl := String.toList_inj.1 (List.cons.inj (List.append_cancel_left hl)).2
    obtain ⟨_, undeclared⟩ := List.mem_filter.1 hs
    have declared : Tenant.qualify t.name (Text.trim c) ∈ t.desiredChildren := List.mem_map_of_mem hc
    simp [declared] at undeclared
  case secrets =>
    intro c hc x hx hchild
    unfold Hierarchy.IsCopied
    rw [secrets]
    exact made.secrets c hc x hx hchild

/-! ## Deleting them -/

/-- Wherever the deletion of stale children fails, the anchors are pruned. -/
theorem pruned_of_deleteStale (plain : ∀ s ∈ stale, '/' ∉ s.toList) {tr : List (Moment Services World)}
    {o : Except Error Unit} (h : Pruned tenant stale as w.anchors)
    (hg : (stale.forM fun c => discard (Hierarchy.deleteChild tenant c)).Goes (steady fails) w tr o w') :
    Pruned tenant stale as w'.anchors ∧ w' = { w with anchors := w'.anchors } := by
  have asks : (stale.forM fun c => discard (Hierarchy.deleteChild tenant c)).Asks
      fun c => ∃ s ∈ stale, c = .hierarchy (.deleteAnchor tenant s) :=
    Job.asks_forM fun s hs => Job.asks_discard (Hierarchy.asks_removeAnchor ⟨s, hs, rfl⟩)
  refine Dialogue.Goes.kept (P := fun w' => Pruned tenant stale as w'.anchors ∧
    w' = { w with anchors := w'.anchors }) hg asks ?_ ⟨h, rfl⟩
  rintro _ w₁ r w₂ ⟨s, hs, rfl⟩ hr ⟨h, same⟩
  rcases hr with hr | ⟨_, _, _, rfl⟩
  · rcases deleteAnchor_effect hr with rfl | ⟨empty, rfl⟩
    · exact ⟨h, same⟩
    · refine ⟨h.filter hs (plain s hs) empty, ?_⟩
      rw [same]
  · exact ⟨h, same⟩

/-- When no call fails, a child is passed over if something is in its namespace or its anchor is not there,
and it is deleted otherwise. -/
theorem after_deleteChild (w : World) (tenant s : String) :
    ∃ w', w.after (discard (Hierarchy.deleteChild tenant s)) = (.ok (), w') ∧
      (w' = w ∧ ((∃ a ∈ w.anchors, isIn s a = true) ∨ inSpace tenant s ∉ w.anchors) ∨
        (∀ a ∈ w.anchors, isIn s a = false) ∧
          w' = { w with anchors := w.anchors.filter (· ≠ inSpace tenant s) }) := by
  have answer : w.after (Hierarchy.deleteAnchor tenant s) = (if w.anchors.any (isIn s) = true then
      w.refuse "kubernetes" 403 "subnamespaces still exist"
      else if w.anchors.contains (inSpace tenant s) = true then
        effect { w with anchors := w.anchors.filter (· ≠ inSpace tenant s) }
      else w.refuse "kubernetes" 404 "anchor not found" : Answer Unit) := rfl
  have read : w.after (Hierarchy.deleteChild tenant s) = _ := after_reading _ Hierarchy.deletedFrom
  have map : w.after (discard (Hierarchy.deleteChild tenant s)) = _ := after_map _ _
  rw [read] at map
  by_cases inside : w.anchors.any (isIn s) = true
  · rw [answer, if_pos inside] at map
    exact ⟨w, map, .inl ⟨rfl, .inl (by simpa using inside)⟩⟩
  · have empty : ∀ a ∈ w.anchors, isIn s a = false := by simpa using inside
    rw [answer, if_neg inside] at map
    by_cases there : w.anchors.contains (inSpace tenant s) = true
    · rw [if_pos there] at map
      exact ⟨_, map, .inr ⟨empty, rfl⟩⟩
    · rw [if_neg there] at map
      exact ⟨w, map, .inl ⟨rfl, .inr (by simpa using there)⟩⟩

/-- When no call fails, exactly the children to delete are gone whose namespaces were empty. -/
theorem after_deleteStale (plain : ∀ s ∈ stale, '/' ∉ s.toList)
    (h : Pruned tenant stale as w.anchors) :
    ∃ w', w.after (stale.forM fun c => discard (Hierarchy.deleteChild tenant c)) = (.ok (), w') ∧
      ∀ a, a ∈ w'.anchors ↔
        a ∈ as ∧ ¬ ∃ s ∈ stale, a = inSpace tenant s ∧ ∀ b ∈ as, isIn s b = false := by
  have rest (todo : List String) (sub : ∀ s ∈ todo, s ∈ stale) (w : World)
      (h : Pruned tenant stale as w.anchors) :
      ∃ w', w.after (todo.forM fun c => discard (Hierarchy.deleteChild tenant c)) = (.ok (), w') ∧
        Pruned tenant stale as w'.anchors ∧ (∀ a ∈ w'.anchors, a ∈ w.anchors) ∧
        ∀ s ∈ todo, (∀ b ∈ as, isIn s b = false) → inSpace tenant s ∉ w'.anchors := by
    induction todo generalizing w with
    | nil => exact ⟨w, rfl, h, fun _ => id, nofun⟩
    | cons s todo ih =>
      obtain ⟨w₁, done, step⟩ := after_deleteChild w tenant s
      obtain ⟨h₁, less₁, gone₁⟩ : Pruned tenant stale as w₁.anchors ∧ (∀ a ∈ w₁.anchors, a ∈ w.anchors) ∧
          ((∀ b ∈ as, isIn s b = false) → inSpace tenant s ∉ w₁.anchors) := by
        rcases step with ⟨rfl, kept⟩ | ⟨empty, rfl⟩
        · refine ⟨h, fun _ => id, fun empty => ?_⟩
          rcases kept with ⟨a, ha, inside⟩ | absent
          · rw [empty a (h.less a ha)] at inside
            cases inside
          · exact absent
        · refine ⟨h.filter (sub s (by simp)) (plain s (sub s (by simp))) empty, ?_, fun _ => by simp⟩
          exact fun a ha => (List.mem_filter.1 ha).1
      obtain ⟨w', rest, h', less, gone⟩ := ih (fun x hx => sub x (by simp [hx])) w₁ h₁
      refine ⟨w', ?_, h', fun a ha => less₁ a (less a ha), fun x hx empty => ?_⟩
      · exact (after_bind_ok (f := fun _ => todo.forM fun c => discard (Hierarchy.deleteChild tenant c))
          done).trans rest
      · rcases List.mem_cons.1 hx with rfl | hx
        · exact fun ha => gone₁ empty (less _ ha)
        · exact gone x hx empty
  obtain ⟨w', done, h', _, gone⟩ := rest stale (fun _ => id) w h
  refine ⟨w', done, fun a => ⟨fun ha => ⟨h'.less a ha, ?_⟩, fun ⟨ha, left⟩ => ?_⟩⟩
  · rintro ⟨s, hs, rfl, empty⟩
    exact gone s hs empty ha
  · exact Classical.byContradiction fun hn => left (h'.gone a ha hn)

end Lifecycle

end Tenancy

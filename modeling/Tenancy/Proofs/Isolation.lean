import Tenancy.Proofs.Domains
import Tenancy.Proofs.Holdings
import Tenancy.Proofs.Runs

/-!
# Passes over different tenants

Passes over different tenants are made at the same time, and nothing is locked. A `Visit` is a pass that is
to be made, with all that it does not find in the estate: the copy that it is over, the settings, what is
fresh, and what becomes of its calls. What it does is confined to the entries that `Visit.Reaches` and
`Visit.Views` name, and three things follow.

* It leaves every other entry as it is (`entry_after`).
* It goes on in the same way in every estate in which it would look at the same (`course_of_agree`).
* Two visits of which neither reaches what the other looks at or reaches do not notice one another, and they
  may be made in any order (`agree_of_apart`).

What a visit reaches in the estate that the other has left has to be found again for the last: it is less than
what it would have reached before (`reaches_after`). This is where identifiers come in, as a group of
administrators is deleted by its identifier, and all groups with it.
-/

namespace Tenancy.Lifecycle

open Rehearsal Rehearsal.World Rehearsal.Estate

/-! ## What a visit has to do with -/

theorem Own.mono {settings : Settings} {t : Tenant} {known known' : Holdings → Prop} {e : Entry}
    (h : Own settings t known e) (hk : ∀ h, known h → known' h) : Own settings t known' e := by
  cases h with
  | stored => exact .stored
  | root => exact .root
  | declaredChild hc => exact .declaredChild hc
  | recordedChild hh hc => exact .recordedChild (hk _ hh) hc
  | secret hc => exact .secret hc
  | declaredTarget hn => exact .declaredTarget hn
  | recordedTarget hh hn => exact .recordedTarget (hk _ hh) hn
  | admin => exact .admin
  | domain hh hp => exact .domain (hk _ hh) hp
  | key hh => exact .key (hk _ hh)

/-- A pass that is to be made. -/
structure Visit where
  settings : Settings := {}
  fresh : Fresh
  tenant : Tenant
  script : Script := fun _ _ => none

namespace Visit

/-- The holdings that the pass may come across. -/
def Known (v : Visit) (E : Estate) : Holdings → Prop := Lifecycle.Known v.fresh v.tenant E

/-- The entries that are the tenant's own. -/
def Owns (v : Visit) (E : Estate) : Entry → Prop := Own v.settings v.tenant (v.Known E)

/-- The entries that the pass looks at. -/
def Views (v : Visit) (E : Estate) : Entry → Prop := Lifecycle.Views v.settings v.tenant (v.Known E)

/-- The entries that the pass may change. -/
def Reaches (v : Visit) (E : Estate) : Entry → Prop :=
  Lifecycle.Reaches v.settings v.tenant (v.Known E) E.systems.identity

/-- The pass with its outcome, the estate after it, and its calls, the latest first. -/
def pass (v : Visit) (E : Estate) : Except Error Action × Estate × List Call :=
  Dialogue.run (I := Services) (answerUnder v.script) (reconcile v.settings v.fresh v.tenant).run (E, [])

/-- The outcome of the pass and its calls. -/
def course (v : Visit) (E : Estate) : Except Error Action × List Call := ((v.pass E).1, (v.pass E).2.2)

def after (v : Visit) (E : Estate) : Estate := (v.pass E).2.1

def story (v : Visit) (E : Estate) : List (Moment Services Estate) :=
  Dialogue.story (I := Services) (answerUnder v.script) Prod.fst (reconcile v.settings v.fresh v.tenant).run (E, [])

variable {v v' : Visit} {E E' : Estate} {S : Entry → Prop} {e : Entry}

theorem goes (v : Visit) (E : Estate) :
    (reconcile v.settings v.fresh v.tenant).Goes Troubled E (v.story E) (v.pass E).1 (v.after E) :=
  goes_under v.script _ (E, [])

theorem confined (v : Visit) (E : Estate) :
    ∀ m ∈ v.story E, Confined v.settings v.tenant (v.Known E) E.systems.identity m :=
  confined_of_reconcile (v.goes E)

theorem views_tenant (v : Visit) (E : Estate) : v.Views E (.tenant v.tenant.key) := .own .stored

theorem views_admin (v : Visit) (E : Estate) : v.Views E (.groups (IdentityGroup.adminName v.tenant.name)) :=
  .own .admin

/-! ## One visit -/

theorem entry_after (h : ¬ v.Reaches E e) : (v.after E).entry e = E.entry e :=
  entry_of_goes (v.goes E) fun m hm changes => h ((v.confined E m hm).changes e changes)

theorem hooks_after (v : Visit) (E : Estate) : Dispatch.SameHooks E.systems (v.after E).systems :=
  hooks_of_goes (v.goes E)

/-- The group of the tenant's administrators as it is once it has been made. -/
def admin (v : Visit) : IdentityGroup :=
  { IdentityGroup.admin v.tenant.name with id := some ("id-" ++ IdentityGroup.adminName v.tenant.name) }

theorem identity_after : ∀ g ∈ (v.after E).systems.identity, g ∈ E.systems.identity ∨ g = v.admin :=
  identity_of_goes (v.goes E) fun m hm => (v.confined E m hm).creates

theorem course_of_agree (views : ∀ e, v.Views E e → S e) (agree : AgreeOn S E E') :
    v.course E' = v.course E ∧ AgreeOn S (v.after E) (v.after E') := by
  obtain ⟨a, E₁, E₁', made, h, h', after⟩ := run_of_agree v.script _ agree fun m hm =>
    (v.confined E m hm).knows.mono views
  have run : v.pass E = (a, E₁, made) := h
  have run' : v.pass E' = (a, E₁', made) := h'
  unfold course Visit.after
  rw [run, run']
  exact ⟨rfl, after⟩

/-! ## Two visits -/

/-- The first visit reaches nothing that the second looks at or reaches, and would not give its tenant's group
the identifier that the group of the other tenant has. -/
structure Apart (v v' : Visit) (E : Estate) : Prop where
  unseen : ∀ e, v.Reaches E e → ¬ v'.Views E e
  unreached : ∀ e, v.Reaches E e → ¬ v'.Reaches E e
  unlike : ∀ g ∈ E.systems.identity, g.name = IdentityGroup.adminName v'.tenant.name → g.id ≠ v.admin.id

theorem agree_after (v : Visit) (E : Estate) : AgreeOn (fun e => ¬ v.Reaches E e) E (v.after E) :=
  ⟨v.hooks_after E, fun _ h => entry_after h⟩

/-- The second visit takes the same course after the first as without it. -/
theorem Apart.course (apart : v.Apart v' E) : v'.course (v.after E) = v'.course E ∧
    AgreeOn (fun e => ¬ v.Reaches E e) (v'.after E) (v'.after (v.after E)) :=
  course_of_agree (fun e views reaches => apart.unseen e reaches views) (v.agree_after E)

/-- After the first visit the second reaches no more than it would have reached before it. -/
theorem Apart.reaches_after (apart : v.Apart v' E) (h : v'.Reaches (v.after E) e) : v'.Reaches E e := by
  have seen {e : Entry} (views : v'.Views E e) : (v.after E).entry e = E.entry e :=
    entry_after fun reaches => apart.unseen e reaches views
  rcases h with own | ⟨g, hg, g', hg', id, name, hid, hid', rfl⟩
  · have stored : (v.after E).tenants v'.tenant.key = E.tenants v'.tenant.key := seen (v'.views_tenant E)
    refine .inl (own.mono fun h hh => ?_)
    unfold Known Lifecycle.Known at hh ⊢
    rwa [stored] at hh
  · -- both groups were there before, as neither is the one that the first visit makes
    have before : g ∈ E.systems.identity := by
      have found : g ∈ (v.after E).entry (.groups (IdentityGroup.adminName v'.tenant.name)) :=
        List.mem_filter.2 ⟨hg, decide_eq_true name⟩
      rw [seen (v'.views_admin E)] at found
      exact (List.mem_filter.1 found).1
    rcases identity_after g' hg' with before' | rfl
    · exact .inr ⟨g, before, g', before', id, name, hid, hid', rfl⟩
    · exact absurd (hid.trans hid'.symm) (apart.unlike g before name)

/-- What the second visit leaves alone is after both what it is after the first. -/
theorem Apart.entry_both (apart : v.Apart v' E) (apart' : v'.Apart v E) (h : v.Reaches E e) :
    (v'.after (v.after E)).entry e = (v.after (v'.after E)).entry e := by
  have alone : ¬ v'.Reaches E e := apart.unreached e h
  calc (v'.after (v.after E)).entry e
    _ = (v.after E).entry e := entry_after fun reaches => alone (apart.reaches_after reaches)
    _ = (v.after (v'.after E)).entry e := (apart'.course.2.entries e alone).symm

theorem agree_of_apart (apart : v.Apart v' E) (apart' : v'.Apart v E) :
    AgreeOn (fun _ => True) (v'.after (v.after E)) (v.after (v'.after E)) := by
  refine ⟨?_, fun e _ => ?_⟩
  · exact (((v.hooks_after E).trans (v'.hooks_after _)).symm.trans (v'.hooks_after E)).trans (v.hooks_after _)
  · by_cases h : v.Reaches E e
    · exact (apart.entry_both apart' h).symm
    · by_cases h' : v'.Reaches E e
      · exact apart'.entry_both apart h'
      · -- neither visit reaches the entry
        calc (v.after (v'.after E)).entry e
          _ = (v'.after E).entry e := entry_after fun reaches => h (apart'.reaches_after reaches)
          _ = (v'.after (v.after E)).entry e := (apart.course.2.entries e h).symm

end Visit

/-- A pass over a tenant, whatever becomes of its calls, changes nothing but the entries that it reaches. It
takes the same course, to the same end, in every estate that agrees on the entries that it looks at and on the
hooks. And two passes take the same courses whichever of them is made first, and leave the same behind, if
neither reaches what the other looks at or reaches. -/
theorem tenants_isolated (v : Visit) (E : Estate) :
    (Dispatch.SameHooks E.systems (v.after E).systems ∧
      ∀ e, ¬ v.Reaches E e → (v.after E).entry e = E.entry e) ∧
    (∀ S E', (∀ e, v.Views E e → S e) → AgreeOn S E E' →
      v.course E' = v.course E ∧ AgreeOn S (v.after E) (v.after E')) ∧
    ∀ v', v.Apart v' E → v'.Apart v E →
      v'.course (v.after E) = v'.course E ∧ v.course (v'.after E) = v.course E ∧
        AgreeOn (fun _ => True) (v'.after (v.after E)) (v.after (v'.after E)) := by
  refine ⟨⟨v.hooks_after E, fun e => Visit.entry_after⟩, fun S E' => Visit.course_of_agree, ?_⟩
  intro v' apart apart'
  exact ⟨apart.course.1, apart'.course.1, Visit.agree_of_apart apart apart'⟩

/-! ## Neighbours -/

/-- An estate with these tenants. -/
def estateOf (ts : List Tenant) (systems : World) : Estate where
  tenants k := ts.find? fun t => t.key = k
  systems := systems

theorem mem_of_stored {ts : List Tenant} {systems : World} {k : TenantKey} {t : Tenant}
    (h : (estateOf ts systems).tenants k = some t) : t ∈ ts := List.mem_of_find?_eq_some h

/-- The first visit to a tenant that declares nothing. -/
def newcomer (name uuid : String) : Visit where
  fresh := ⟨uuid, "now"⟩
  tenant := Stage.newTenant { name := name }

/-- Two such tenants. -/
def street : Estate := estateOf [(newcomer "blue" "1").tenant, (newcomer "red" "2").tenant] {}

section

variable {n n' u u' : String} {e : Entry}

theorem known_newcomer {h : Holdings} (hh : (newcomer n u).Known street h) :
    h = ⟨Encryption.domainName u, [], []⟩ := by
  rcases hh with rfl | ⟨t, ht, rfl⟩
  · rfl
  · have stored : t ∈ [(newcomer "blue" "1").tenant, (newcomer "red" "2").tenant] := mem_of_stored ht
    simp only [List.mem_cons, List.not_mem_nil, or_false] at stored
    rcases stored with rfl | rfl <;> rfl

/-- What a newcomer is given. -/
def Given (n u : String) : Entry → Prop
  | .tenant k => k = ("tenants", n)
  | .anchor a => a = inSpace "tenants" n
  | .groups g => g = IdentityGroup.adminName n
  | .path p => Encryption.BelongsTo p (Encryption.domainName u)
  | .hidden _ | .secret _ | .collection _ => False

theorem given_of_reaches (h : (newcomer n u).Reaches street e) : Given n u e := by
  rcases h with own | ⟨g, hg, _⟩
  · cases own with
    | stored => exact rfl
    | root => exact rfl
    | declaredChild hc => cases hc
    | recordedChild hh hc =>
      rw [known_newcomer hh] at hc
      cases hc
    | secret hc => cases hc
    | declaredTarget hn => cases hn
    | recordedTarget hh hn =>
      rw [known_newcomer hh] at hn
      cases hn
    | admin => exact rfl
    | domain hh hp =>
      rw [known_newcomer hh] at hp
      exact .inl hp
    | key hh =>
      rw [known_newcomer hh]
      exact .inr ⟨_, rfl⟩
  · cases hg

/-- A newcomer looks at what it is given, at the secret that is copied, and at its namespaces. -/
def Seen (n u : String) : Entry → Prop
  | .anchor a => a = inSpace "tenants" n ∨ isIn n a = true
  | .hidden _ | .secret _ => True
  | e => Given n u e

theorem seen_of_given (h : Given n u e) : Seen n u e := by
  cases e with
  | anchor a => exact .inl h
  | hidden s => trivial
  | secret q => trivial
  | _ => exact h

theorem seen_of_views (h : (newcomer n u).Views street e) : Seen n u e := by
  cases h with
  | own own => exact seen_of_given (given_of_reaches (.inl own))
  | withinRoot ha => exact .inr ha
  | withinDeclared hc => cases hc
  | withinRecorded hh hc =>
    rw [known_newcomer hh] at hc
    cases hc
  | childMade hc => cases hc
  | _ => trivial

theorem apart_newcomers (stored : n ≠ n') (anchor : inSpace "tenants" n ≠ inSpace "tenants" n')
    (within : isIn n' (inSpace "tenants" n) = false)
    (group : IdentityGroup.adminName n ≠ IdentityGroup.adminName n')
    (path : ∀ p, Encryption.BelongsTo p (Encryption.domainName u) →
      ¬ Encryption.BelongsTo p (Encryption.domainName u')) : (newcomer n u).Apart (newcomer n' u') street := by
  have unseen (e : Entry) (h : Given n u e) : ¬ Seen n' u' e := by
    intro h'
    cases e with
    | tenant k => exact stored (congrArg Prod.snd (h.symm.trans h'))
    | anchor a =>
      rcases h' with h' | h'
      · exact anchor (h.symm.trans h')
      · rw [show a = inSpace "tenants" n from h, within] at h'
        cases h'
    | hidden s => exact h
    | secret q => exact h
    | collection q => exact h
    | groups g => exact group (h.symm.trans h')
    | path p => exact path p h h'
  refine ⟨fun e h views => ?_, fun e h h' => ?_, fun g hg => by cases hg⟩
  · exact unseen e (given_of_reaches h) (seen_of_views views)
  · exact unseen e (given_of_reaches h) (seen_of_given (given_of_reaches h'))

end

theorem apart_domains (p : String) (h : Encryption.BelongsTo p (Encryption.domainName "1")) :
    ¬ Encryption.BelongsTo p (Encryption.domainName "2") := by
  rintro (h' | ⟨k', rfl⟩)
  · rcases h with h | ⟨k, rfl⟩
    · revert p
      decide +kernel
    · exact Encryption.keyPath_not_mem _ _ _ h'
  · rcases h with h | ⟨k, h⟩
    · exact Encryption.keyPath_not_mem _ _ _ h
    · have same := Encryption.keyPath_inj h (by decide +kernel)
      exact absurd same (by decide +kernel)

/-- Two newcomers are apart: neither looks at what the other changes, and either may come first. -/
theorem newcomers_isolated :
    (newcomer "blue" "1").Apart (newcomer "red" "2") street ∧
      (newcomer "red" "2").course ((newcomer "blue" "1").after street) = (newcomer "red" "2").course street ∧
      ((newcomer "red" "2").pass street).1 = .ok .await ∧
      ((newcomer "blue" "1").after street).entry (.anchor "tenants/blue") ≠ street.entry (.anchor "tenants/blue") ∧
      AgreeOn ((newcomer "blue" "1").Views street) ((newcomer "blue" "1").after street)
        ((newcomer "blue" "1").after ((newcomer "red" "2").after street)) ∧
      AgreeOn (fun _ => True) ((newcomer "red" "2").after ((newcomer "blue" "1").after street))
        ((newcomer "blue" "1").after ((newcomer "red" "2").after street)) := by
  have apart : (newcomer "blue" "1").Apart (newcomer "red" "2") street :=
    apart_newcomers (by decide) (by decide +kernel) (by decide +kernel) (by decide +kernel) apart_domains
  have apart' : (newcomer "red" "2").Apart (newcomer "blue" "1") street :=
    apart_newcomers (by decide) (by decide +kernel) (by decide +kernel) (by decide +kernel)
      fun p h h' => apart_domains p h' h
  obtain ⟨_, alike, together⟩ := tenants_isolated (newcomer "blue" "1") street
  have unseen : AgreeOn ((newcomer "blue" "1").Views street) street ((newcomer "red" "2").after street) :=
    ((newcomer "red" "2").agree_after street).mono fun e views reaches => apart'.unseen e reaches views
  obtain ⟨course, _, same⟩ := together _ apart apart'
  exact ⟨apart, course, by rfl, by decide +kernel, (alike _ _ (fun _ => id) unseen).2, same⟩

/-! ## More than its own -/

/-- What would be enough to look at if namespaces and groups were a tenant's alone. -/
def Visit.Listed (v : Visit) (E : Estate) (e : Entry) : Prop :=
  v.Owns E e ∨ ∃ s ∈ Hierarchy.copied, e = .secret (inSpace s.source s.secret)

/-- The visit in which a tenant with one child is taken down. -/
def takeDown : Visit where
  fresh := ⟨"1", "now"⟩
  tenant := { Stage.newTenant { name := "blue" } with
    status := some { phase := some .deployed, children := ["blue-u"] } }.requestDeletion ⟨0, false⟩

/-- An estate in which the tenant is alone. -/
def lone (systems : World) : Estate := estateOf [takeDown.tenant] systems

/-- Its child has nothing in it, or a namespace of somebody else. -/
def emptied : Estate := lone { anchors := ["blue/blue-u", "tenants/blue"] }
def inhabited : Estate := lone { anchors := ["blue-u/x", "blue/blue-u", "tenants/blue"] }

/-- The namespace that holds the tenants has not been made. -/
def unmade : Estate := { street with systems := { hidden := ["tenants"] } }

/-- Another group has the identifier of the tenant's group. -/
def sharing : Estate :=
  lone { identity := [⟨some "7", "blue-tenant-admin", ""⟩, ⟨some "7", "red-tenant-admin", ""⟩] }

theorem owns_anchor {systems : World} {a : String} (h : takeDown.Owns (lone systems) (.anchor a)) :
    a = "tenants/blue" ∨ a = "blue/blue-u" := by
  cases h with
  | root => exact .inl rfl
  | declaredChild hc => cases hc
  | @recordedChild _ c hh hc =>
    have children : c ∈ ["blue-u"] := by
      rcases hh with rfl | ⟨t, ht, rfl⟩
      · exact hc
      · rw [List.mem_singleton.1 (mem_of_stored ht)] at hc
        exact hc
    rw [List.mem_singleton.1 children]
    exact .inr rfl

theorem owns_groups {v : Visit} {E : Estate} {n : String} (h : v.Owns E (.groups n)) :
    n = IdentityGroup.adminName v.tenant.name := by
  cases h
  rfl

theorem inhabited_seen : AgreeOn (takeDown.Listed emptied) emptied inhabited ∧
    takeDown.course inhabited ≠ takeDown.course emptied := by
  refine ⟨⟨⟨rfl, rfl, rfl⟩, fun e he => ?_⟩, fun same => ?_⟩
  · cases e with
    | anchor a =>
      rcases he with own | ⟨s, _, hs⟩
      · rcases owns_anchor own with rfl | rfl <;> decide +kernel
      · cases hs
    | _ => rfl
  · have blocked : (takeDown.pass inhabited).1 = .ok (.requeue 10) := by rfl
    have released : (takeDown.pass emptied).1 = .ok .await := by rfl
    exact absurd (blocked.symm.trans ((congrArg Prod.fst same).trans released)) nofun

theorem unmade_seen : AgreeOn ((newcomer "blue" "1").Listed street) street unmade ∧
    (newcomer "blue" "1").course unmade ≠ (newcomer "blue" "1").course street := by
  refine ⟨⟨⟨rfl, rfl, rfl⟩, fun e he => ?_⟩, fun same => ?_⟩
  · cases e with
    | hidden space =>
      rcases he with own | ⟨s, _, hs⟩
      · cases own
      · cases hs
    | _ => rfl
  · have waits : ((newcomer "blue" "1").pass unmade).1 = .ok (.requeue 5) := by rfl
    have deployed : ((newcomer "blue" "1").pass street).1 = .ok .await := by rfl
    exact absurd (waits.symm.trans ((congrArg Prod.fst same).trans deployed)) nofun

theorem sharing_reached : ¬ takeDown.Owns sharing (.groups "red-tenant-admin") ∧
    (takeDown.after sharing).entry (.groups "red-tenant-admin") ≠ sharing.entry (.groups "red-tenant-admin") :=
  ⟨fun owns => absurd (owns_groups owns) (by decide +kernel), by decide +kernel⟩

/-- A namespace of somebody else in the tenant's child holds up the pass that takes it down; a namespace that
has not been made holds up the pass that deploys it; and a group with the identifier of the tenant's group
goes when that is deleted. None of these is the tenant's own. -/
theorem own_entries_not_all :
    (AgreeOn (takeDown.Listed emptied) emptied inhabited ∧
      takeDown.course inhabited ≠ takeDown.course emptied) ∧
    (AgreeOn ((newcomer "blue" "1").Listed street) street unmade ∧
      (newcomer "blue" "1").course unmade ≠ (newcomer "blue" "1").course street) ∧
    ¬ takeDown.Owns sharing (.groups "red-tenant-admin") ∧
      (takeDown.after sharing).entry (.groups "red-tenant-admin") ≠ sharing.entry (.groups "red-tenant-admin") :=
  ⟨inhabited_seen, unmade_seen, sharing_reached⟩

end Tenancy.Lifecycle

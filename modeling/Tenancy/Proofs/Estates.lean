import Mathlib.Logic.Function.Basic
import Tenancy.Proofs.Conduct
import Tenancy.Proofs.StoreWrites
import Tenancy.Rehearsal.Faults

/-!
# Many tenants

The world in memory has one tenant. An estate has any number of them, each stored for itself, in front of
the same systems. What the systems keep is looked at entry by entry (`Estate.entry`): an anchor, a secret, a
collection, the groups of one name, a path of the engine. Every call changes few of the entries
(`entry_of_answer`), and its answer and what it makes of an entry depend on few of them
(`answer_of_agree`). Both carry over to whole runs, in which calls may fail as a script says:
`entry_of_goes` and `run_of_agree`.
-/

namespace Tenancy

/-- Where a tenant is stored: its namespace and its name. -/
abbrev TenantKey := String × String

def Tenant.key (t : Tenant) : TenantKey := (t.metadata.spaceName, t.metadata.anyName)

def StoreCall.key : StoreCall → TenantKey
  | .get space name => (space, name)
  | .replaceStatus t _ | .addFinalizer t _ | .removeFinalizer t _ | .clearKeyUpdate t => t.key

namespace Rehearsal

open World

/-- The systems with any number of tenants. The tenant in the world of the systems is not looked at. -/
structure Estate where
  tenants : TenantKey → Option Tenant
  systems : World := {}

inductive Entry where
  | tenant (k : TenantKey)
  /-- An anchor, as `parent/name`. -/
  | anchor (path : String)
  /-- Whether a namespace has not been made yet. -/
  | hidden (space : String)
  /-- A secret, as `namespace/name`. -/
  | secret (path : String)
  /-- A collection, by its kind and name with a blank between them. -/
  | collection (key : String)
  /-- All groups of a name. -/
  | groups (name : String)
  /-- A path of the engine that keeps keys. -/
  | path (path : String)
  deriving DecidableEq

namespace Entry

@[reducible] def Value : Entry → Type
  | tenant _ => Option Tenant
  | anchor _ | hidden _ => Bool
  | secret _ => Option Secret
  | collection _ => Option Collection
  | groups _ => List IdentityGroup
  | path _ => Option Json

/-- The system that keeps the entry. Namespaces are made by the controller of the hierarchy, when it comes
to it; no call makes one. -/
def system? : Entry → Option BackingSystem
  | tenant _ => some .store
  | anchor _ | secret _ => some .hierarchy
  | hidden _ => none
  | collection _ => some .hardware
  | groups _ => some .identity
  | path _ => some .vault

end Entry

namespace Estate

/-! ## Entries -/

def entry (E : Estate) : (e : Entry) → e.Value
  | .tenant k => E.tenants k
  | .anchor a => E.systems.anchors.contains a
  | .hidden s => E.systems.hidden.contains s
  | .secret p => E.systems.secrets.get? p
  | .collection k => E.systems.collections.get? k
  | .groups n => E.systems.identity.filter (·.name = n)
  | .path p => E.systems.vault.get? p

/-- The same is found at these entries, and there are the same hooks. -/
structure AgreeOn (S : Entry → Prop) (E E' : Estate) : Prop where
  hooks : Dispatch.SameHooks E.systems E'.systems
  entries : ∀ e, S e → E'.entry e = E.entry e

variable {E E' : Estate} {S S' : Entry → Prop} {c : Call} {e : Entry}

theorem AgreeOn.mono (h : AgreeOn S E E') (hS : ∀ e, S' e → S e) : AgreeOn S' E E' :=
  ⟨h.hooks, fun e he => h.entries e (hS e he)⟩

/-! ## Calls -/

/-- The world as a call about this tenant finds it. -/
def view (E : Estate) (k : TenantKey) : World := { E.systems with tenant := E.tenants k }

def answer (E : Estate) : (c : Call) → Except Error c.Reply × Estate
  | .store c =>
    let (r, w) := (E.view c.key).store c
    (r, { E with tenants := Function.update E.tenants c.key w.tenant })
  | c =>
    let (r, w) := E.systems.answer c
    (r, { E with systems := w })

/-- What a call that succeeds makes of an entry. -/
def act (c : Call) : (e : Entry) → e.Value → e.Value
  | .tenant k, t =>
    match c with
    | .store c => if k = c.key then t.map c.write else t
    | _ => t
  | .anchor a, there =>
    match c with
    | .hierarchy (.createAnchor p n) => a == inSpace p n || there
    | .hierarchy (.deleteAnchor p n) => a != inSpace p n && there
    | _ => there
  | .hidden _, made => made
  | .secret q, found =>
    match c with
    | .hierarchy (.createSecret space s) => if q = inSpace space (s.metadata.name.getD "") then some s else found
    | _ => found
  | .collection q, found =>
    match c with
    | .hardware (.create k made) => if q = collectionKey k made.name then some made else found
    | .hardware (.delete k n) => if q = collectionKey k n then none else found
    | .hardware (.add k n m) =>
      if q = collectionKey k n then found.map fun c => { c with members := c.members ++ [m] } else found
    | .hardware (.remove k n m) =>
      if q = collectionKey k n then found.map fun c => { c with members := c.members.filter (· ≠ m) } else found
    | _ => found
  | .groups n, gs =>
    match c with
    | .identity (.create g) => if n = g.name then gs ++ [{ g with id := some ("id-" ++ g.name) }] else gs
    | .identity (.delete id) => gs.filter fun g => g.id ≠ some id
    | _ => gs
  | .path q, found =>
    match c with
    | .vault (.write p body) => if q = p then some (kept p body) else found
    | .vault (.delete p) => if q = p then none else found
    | _ => found

def Changes (E : Estate) : Call → Entry → Prop
  | .store c, e => e = .tenant c.key
  | .hierarchy (.createAnchor p n), e | .hierarchy (.deleteAnchor p n), e => e = .anchor (inSpace p n)
  | .hierarchy (.createSecret space s), e => e = .secret (inSpace space (s.metadata.name.getD ""))
  | .hardware (.create k c), e => e = .collection (collectionKey k c.name)
  | .hardware (.delete k n), e | .hardware (.add k n _), e | .hardware (.remove k n _), e =>
    e = .collection (collectionKey k n)
  | .identity (.create g), e => e = .groups g.name
  | .identity (.delete id), e => ∃ g ∈ E.systems.identity, g.id = some id ∧ e = .groups g.name
  | .vault (.write p _), e | .vault (.delete p), e => e = .path p
  | _, _ => False

/-- What a call has to know is among these entries. The lists of everything that there is of a kind are not
asked for by passes. -/
def Knows (E : Estate) (S : Entry → Prop) : Call → Prop
  | .store c => S (.tenant c.key)
  | .hierarchy (.anchorExists p n) => S (.anchor (inSpace p n))
  | .hierarchy (.createAnchor p _) => S (.hidden p)
  | .hierarchy (.deleteAnchor p n) => S (.anchor (inSpace p n)) ∧ ∀ a, isIn n a = true → S (.anchor a)
  | .hierarchy (.getSecret space n) => S (.secret (inSpace space n))
  | .hierarchy (.createSecret space _) => S (.hidden space)
  | .hardware (.create k c) => S (.collection (collectionKey k c.name))
  | .hardware (.get k n) | .hardware (.delete k n) | .hardware (.add k n _) | .hardware (.remove k n _) =>
    S (.collection (collectionKey k n))
  | .hardware .listGroups | .hardware (.listComponents _ _) => False
  | .identity (.find n) => S (.groups n)
  | .identity (.create _) => True
  | .identity (.delete id) => ∃ g ∈ E.systems.identity, g.id = some id ∧ S (.groups g.name)
  | .vault (.read p) | .vault (.delete p) => S (.path p)
  | .vault (.write _ _) => True
  | .hook _ => True

theorem Knows.mono (h : E.Knows S c) (hS : ∀ e, S e → S' e) : E.Knows S' c := by
  cases c with
  | store c => exact hS _ h
  | hierarchy c =>
    cases c with
    | deleteAnchor p n => exact ⟨hS _ h.1, fun a ha => hS _ (h.2 a ha)⟩
    | _ => exact hS _ h
  | hardware c =>
    cases c with
    | listGroups => exact h
    | listComponents _ _ => exact h
    | _ => exact hS _ h
  | identity c =>
    cases c with
    | find n => exact hS _ h
    | create g => trivial
    | delete id =>
      obtain ⟨g, hg, hid, hn⟩ := h
      exact ⟨g, hg, hid, hS _ hn⟩
  | vault c =>
    cases c with
    | write p body => trivial
    | _ => exact hS _ h
  | hook c => trivial

/-! ### What a call makes of an entry -/

theorem answer_of_system (h : c.system ≠ .store) :
    E.answer c = ((E.systems.answer c).1, { E with systems := (E.systems.answer c).2 }) := by
  cases c with
  | store c => exact absurd rfl h
  | _ => rfl

theorem hooks_of_answer (E : Estate) (c : Call) : Dispatch.SameHooks E.systems (E.answer c).2.systems := by
  by_cases hc : c.system = .store
  · obtain ⟨c, rfl⟩ : ∃ sc, c = .store sc := Call.exists_query hc
    exact .refl _
  · rw [answer_of_system hc]
    exact (sameSettings_answer E.systems c).2

theorem entry_of_system (h : e.system? ≠ some c.system) : (E.answer c).2.entry e = E.entry e := by
  by_cases hc : c.system = .store
  · obtain ⟨c, rfl⟩ : ∃ sc, c = .store sc := Call.exists_query hc
    cases e with
    | tenant k => exact absurd rfl h
    | _ => rfl
  · rw [answer_of_system hc]
    have same {s : BackingSystem} (hs : e.system? = some s) : SameFor s E.systems (E.systems.answer c).2 :=
      answer_same _ c fun hsc => h (hsc ▸ hs)
    cases e with
    | tenant k => rfl
    | anchor a => exact congrArg (List.contains · a) (same rfl).1
    | hidden s => exact congrArg (List.contains · s) (sameSettings_answer _ c).1
    | secret p => exact congrArg (Dict.get? · p) (same rfl).2
    | collection k => exact congrArg (Dict.get? · k) (same rfl)
    | groups n => exact congrArg (List.filter _) (same rfl)
    | path p => exact congrArg (Dict.get? · p) (same rfl)

theorem act_of_system (h : e.system? ≠ some c.system) (v : e.Value) : act c e v = v := by
  cases e <;> cases c <;> first | rfl | exact absurd rfl h

/-- What is looked at has come to a new value if the call succeeded, and it is as it was if not. -/
def Acts {V α : Type} (look : World → V) (w : World) (v : V) (x : Answer α) : Prop :=
  look x.2 = if x.1.isOk then v else look w

variable {V α : Type} {look : World → V} {w : World} {v : V}

theorem acts_ite {p : Prop} [Decidable p] {x y : Answer α} (hx : Acts look w v x) (hy : Acts look w v y) :
    Acts look w v (if p then x else y) := by
  split <;> assumption

theorem acts_refuse {system : String} {status : Nat} {message : String} :
    Acts look w v (w.refuse system status message : Answer α) := rfl

theorem acts_effect {w' : World} (h : look w' = v) : Acts look w v (effect w') := h

theorem acts_anchor (w : World) (c : HierarchyCall) (a : String) :
    Acts (·.anchors.contains a) w (act (.hierarchy c) (.anchor a) (w.anchors.contains a)) (w.hierarchy c) := by
  cases c with
  | anchorExists p n => exact rfl
  | createAnchor p n =>
    refine acts_ite acts_refuse (acts_effect ?_)
    show List.contains (Names.insert _ _) a = (a == inSpace p n || List.contains _ a)
    rw [Bool.eq_iff_iff]
    simp [Names.mem_insert]
  | deleteAnchor p n =>
    refine acts_ite acts_refuse (acts_ite (acts_effect ?_) acts_refuse)
    show List.contains (List.filter _ _) a = (a != inSpace p n && List.contains _ a)
    rw [Bool.eq_iff_iff]
    simp [and_comm]
  | getSecret space n => exact rfl
  | createSecret space s => exact acts_ite acts_refuse (acts_effect rfl)

theorem acts_secret (w : World) (c : HierarchyCall) (q : String) :
    Acts (·.secrets.get? q) w (act (.hierarchy c) (.secret q) (w.secrets.get? q)) (w.hierarchy c) := by
  cases c with
  | anchorExists p n => exact rfl
  | createAnchor p n => exact acts_ite acts_refuse (acts_effect rfl)
  | deleteAnchor p n => exact acts_ite acts_refuse (acts_ite (acts_effect rfl) acts_refuse)
  | getSecret space n => exact rfl
  | createSecret space s => exact acts_ite acts_refuse (acts_effect (Dict.get?_insert _ _ _ _))

theorem acts_collection (w : World) (c : HardwareCall) (q : String) :
    Acts (·.collections.get? q) w (act (.hardware c) (.collection q) (w.collections.get? q)) (w.hardware c) := by
  have members {k : Kind} {n : String} {c : Collection} (hc : w.collections.get? (collectionKey k n) = some c)
      (f : List String → List String) : (w.collections.insert (collectionKey k n) { c with
        members := f c.members }).get? q = if q = collectionKey k n
          then (w.collections.get? q).map fun c => { c with members := f c.members }
          else w.collections.get? q := by
    rw [Dict.get?_insert]
    split
    · next h => rw [h, hc, Option.map_some]
    · rfl
  cases c with
  | get k n => exact rfl
  | create k c => exact acts_ite acts_refuse (acts_effect (Dict.get?_insert _ _ _ _))
  | delete k n => exact acts_ite (acts_effect (Dict.get?_erase _ _ _)) acts_refuse
  | add k n m =>
    cases hc : w.collections.get? (collectionKey k n) <;> simp only [hardware, hc]
    · exact acts_refuse
    · exact acts_ite acts_refuse (acts_effect (members hc (· ++ [m])))
  | remove k n m =>
    cases hc : w.collections.get? (collectionKey k n) <;> simp only [hardware, hc]
    · exact acts_refuse
    · exact acts_ite (acts_effect (members hc (List.filter (· ≠ m)))) acts_refuse
  | listGroups => exact rfl
  | listComponents type role => exact rfl

theorem acts_groups (w : World) (c : IdentityCall) (n : String) :
    Acts (·.identity.filter (·.name = n)) w (act (.identity c) (.groups n) (w.identity.filter (·.name = n)))
      (w.identities c) := by
  cases c with
  | find n => exact rfl
  | create g =>
    refine acts_effect ?_
    show List.filter _ (_ ++ [_]) = if n = g.name then _ else _
    rw [List.filter_append]
    by_cases h : n = g.name
    · simp [h]
    · simp [h, Ne.symm h]
  | delete id =>
    refine acts_ite (acts_effect ?_) acts_refuse
    show List.filter _ (List.filter _ _) = List.filter _ (List.filter _ _)
    rw [List.filter_filter, List.filter_filter]
    exact List.filter_congr fun g _ => Bool.and_comm _ _

theorem acts_path (w : World) (c : VaultCall) (q : String) :
    Acts (·.vault.get? q) w (act (.vault c) (.path q) (w.vault.get? q)) (w.keys c) := by
  cases c with
  | read p => exact rfl
  | write p body => exact acts_effect (Dict.get?_insert _ _ _ _)
  | delete p => exact acts_ite (acts_effect (Dict.get?_erase _ _ _)) acts_refuse

theorem acts_tenant (E : Estate) (c : StoreCall) (k : TenantKey) :
    (E.answer (.store c)).2.tenants k = if (E.answer (.store c)).1.isOk
      then act (.store c) (.tenant k) (E.tenants k) else E.tenants k := by
  show Function.update E.tenants c.key ((E.view c.key).store c).2.tenant k =
    if ((E.view c.key).store c).1.isOk then if k = c.key then (E.tenants k).map c.write else E.tenants k
      else E.tenants k
  rw [Lifecycle.tenant_of_store]
  by_cases h : k = c.key
  · rw [h, Function.update_self, if_pos rfl]
    rfl
  · rw [Function.update_of_ne h, if_neg h, ite_self]

/-- A call that succeeds makes of every entry what it is to make of it, and a call that is refused leaves all
as it is. -/
theorem entry_of_answer (E : Estate) (c : Call) (e : Entry) :
    (E.answer c).2.entry e = if (E.answer c).1.isOk then act c e (E.entry e) else E.entry e := by
  by_cases h : e.system? = some c.system
  · cases e with
    | tenant k =>
      obtain ⟨c, rfl⟩ : ∃ q, c = .store q := Call.exists_query (Option.some.inj h).symm
      exact acts_tenant E c k
    | anchor a =>
      obtain ⟨c, rfl⟩ : ∃ q, c = .hierarchy q := Call.exists_query (Option.some.inj h).symm
      exact acts_anchor E.systems c a
    | hidden s => cases h
    | secret q =>
      obtain ⟨c, rfl⟩ : ∃ q, c = .hierarchy q := Call.exists_query (Option.some.inj h).symm
      exact acts_secret E.systems c q
    | collection q =>
      obtain ⟨c, rfl⟩ : ∃ q, c = .hardware q := Call.exists_query (Option.some.inj h).symm
      exact acts_collection E.systems c q
    | groups n =>
      obtain ⟨c, rfl⟩ : ∃ q, c = .identity q := Call.exists_query (Option.some.inj h).symm
      exact acts_groups E.systems c n
    | path q =>
      obtain ⟨c, rfl⟩ : ∃ q, c = .vault q := Call.exists_query (Option.some.inj h).symm
      exact acts_path E.systems c q
  · rw [entry_of_system h, act_of_system h, ite_self]

theorem act_of_unchanged (h : ¬ E.Changes c e) : act c e (E.entry e) = E.entry e := by
  cases e with
  | tenant k =>
    cases c with
    | store c => exact if_neg fun hk => h (congrArg _ hk)
    | _ => rfl
  | anchor a =>
    cases c with
    | hierarchy c =>
      cases c with
      | createAnchor p n =>
        have other : a ≠ inSpace p n := fun ha => h (congrArg _ ha)
        show (a == inSpace p n || _) = _
        rw [beq_false_of_ne other, Bool.false_or]
      | deleteAnchor p n =>
        have other : a ≠ inSpace p n := fun ha => h (congrArg _ ha)
        show (a != inSpace p n && _) = _
        rw [bne_iff_ne.2 other, Bool.true_and]
      | _ => rfl
    | _ => rfl
  | hidden s => rfl
  | secret q =>
    cases c with
    | hierarchy c =>
      cases c with
      | createSecret space s => exact if_neg fun hq => h (congrArg _ hq)
      | _ => rfl
    | _ => rfl
  | collection q =>
    cases c with
    | hardware c =>
      cases c with
      | create k made => exact if_neg fun hq => h (congrArg _ hq)
      | delete k n => exact if_neg fun hq => h (congrArg _ hq)
      | add k n m => exact if_neg fun hq => h (congrArg _ hq)
      | remove k n m => exact if_neg fun hq => h (congrArg _ hq)
      | _ => rfl
    | _ => rfl
  | groups n =>
    cases c with
    | identity c =>
      cases c with
      | create g => exact if_neg fun hn => h (congrArg _ hn)
      | delete id =>
        refine List.filter_eq_self.2 fun g hg => ?_
        obtain ⟨hg, hn⟩ := List.mem_filter.1 hg
        have other : g.id ≠ some id := fun hid => h ⟨g, hg, hid, congrArg _ (of_decide_eq_true hn).symm⟩
        simpa using other
      | find n => rfl
    | _ => rfl
  | path q =>
    cases c with
    | vault c =>
      cases c with
      | write p body => exact if_neg fun hq => h (congrArg _ hq)
      | delete p => exact if_neg fun hq => h (congrArg _ hq)
      | read p => rfl
    | _ => rfl

theorem entry_of_unchanged (h : ¬ E.Changes c e) : (E.answer c).2.entry e = E.entry e := by
  rw [entry_of_answer, act_of_unchanged h, ite_self]

/-! ### What a call has to know -/

theorem ite_congr_fst {p p' : Prop} [Decidable p] [Decidable p'] {x y x' y' : Answer α} (hp : p' ↔ p)
    (hx : x'.1 = x.1) (hy : y'.1 = y.1) : (if p' then x' else y').1 = (if p then x else y).1 := by
  by_cases h : p
  · rw [if_pos h, if_pos (hp.2 h), hx]
  · rw [if_neg h, if_neg (mt hp.1 h), hy]

/-- The groups of a name are found in the order in which they were made. -/
theorem find?_eq_head? (gs : List IdentityGroup) (n : String) :
    (gs.find? fun g => g.name = n) = (gs.filter (·.name = n)).head? := (List.head?_filter ..).symm

theorem hierarchy_of_agree (agree : AgreeOn S E E') {c : HierarchyCall} (knows : E.Knows S (.hierarchy c)) :
    (E'.systems.hierarchy c).1 = (E.systems.hierarchy c).1 := by
  cases c with
  | anchorExists p n => exact congrArg Except.ok (agree.entries _ knows)
  | createAnchor p n =>
    have made : E'.systems.hidden.contains p = E.systems.hidden.contains p := agree.entries _ knows
    exact ite_congr_fst (by rw [made]) rfl rfl
  | deleteAnchor p n =>
    have there : E'.systems.anchors.contains (inSpace p n) = E.systems.anchors.contains (inSpace p n) :=
      agree.entries _ knows.1
    have below (a : String) (ha : isIn n a = true) : a ∈ E'.systems.anchors ↔ a ∈ E.systems.anchors := by
      have same : E'.systems.anchors.contains a = E.systems.anchors.contains a := agree.entries _ (knows.2 a ha)
      rw [← List.contains_iff_mem, same, List.contains_iff_mem]
    refine ite_congr_fst ?_ rfl (ite_congr_fst (by rw [there]) rfl rfl)
    rw [List.any_eq_true, List.any_eq_true]
    exact ⟨fun ⟨a, hm, ha⟩ => ⟨a, (below a ha).1 hm, ha⟩, fun ⟨a, hm, ha⟩ => ⟨a, (below a ha).2 hm, ha⟩⟩
  | getSecret space n => exact congrArg Except.ok (agree.entries _ knows)
  | createSecret space s =>
    have made : E'.systems.hidden.contains space = E.systems.hidden.contains space := agree.entries _ knows
    exact ite_congr_fst (by rw [made]) rfl rfl

theorem hardware_of_agree (agree : AgreeOn S E E') {c : HardwareCall} (knows : E.Knows S (.hardware c)) :
    (E'.systems.hardware c).1 = (E.systems.hardware c).1 := by
  have found {q : String} (hq : S (.collection q)) :
      E'.systems.collections.get? q = E.systems.collections.get? q := agree.entries _ hq
  have contains {q : String} (hq : S (.collection q)) :
      E'.systems.collections.contains q = E.systems.collections.contains q := by
    rw [Dict.contains_eq_isSome, Dict.contains_eq_isSome, found hq]
  cases c with
  | get k n => exact congrArg Except.ok (found knows)
  | create k c => exact ite_congr_fst (by rw [contains knows]) rfl rfl
  | delete k n => exact ite_congr_fst (by rw [contains knows]) rfl rfl
  | add k n m =>
    have same := found knows
    cases hc : E.systems.collections.get? (collectionKey k n) <;> rw [hc] at same <;>
      simp only [hardware, hc, same]
    · rfl
    · exact ite_congr_fst Iff.rfl rfl rfl
  | remove k n m =>
    have same := found knows
    cases hc : E.systems.collections.get? (collectionKey k n) <;> rw [hc] at same <;>
      simp only [hardware, hc, same]
    · rfl
    · exact ite_congr_fst Iff.rfl rfl rfl
  | listGroups => exact knows.elim
  | listComponents type role => exact knows.elim

theorem identities_of_agree (agree : AgreeOn S E E') {c : IdentityCall} (knows : E.Knows S (.identity c)) :
    (E'.systems.identities c).1 = (E.systems.identities c).1 := by
  cases c with
  | find n =>
    have same : E'.systems.identity.filter (·.name = n) = E.systems.identity.filter (·.name = n) :=
      agree.entries _ knows
    show Except.ok (E'.systems.identity.find? _) = Except.ok (E.systems.identity.find? _)
    rw [find?_eq_head?, find?_eq_head?, same]
  | create g => rfl
  | delete id =>
    -- a group with the identifier is there in both, as both have the same groups of its name
    obtain ⟨g, hg, hid, hn⟩ := knows
    have same : E'.systems.identity.filter (·.name = g.name) = E.systems.identity.filter (·.name = g.name) :=
      agree.entries _ hn
    have hg' : g ∈ E'.systems.identity := by
      have : g ∈ E.systems.identity.filter (·.name = g.name) := List.mem_filter.2 ⟨hg, by simp⟩
      exact (List.mem_filter.1 (same ▸ this)).1
    have there {gs : List IdentityGroup} (h : g ∈ gs) : (gs.any fun g => g.id = some id) = true :=
      List.any_eq_true.2 ⟨g, h, by simpa using hid⟩
    refine ite_congr_fst ?_ rfl rfl
    rw [there hg, there hg']

theorem keys_of_agree (agree : AgreeOn S E E') {c : VaultCall} (knows : E.Knows S (.vault c)) :
    (E'.systems.keys c).1 = (E.systems.keys c).1 := by
  cases c with
  | read p => exact congrArg Except.ok (agree.entries _ knows)
  | write p body => rfl
  | delete p =>
    have same : E'.systems.vault.get? p = E.systems.vault.get? p := agree.entries _ knows
    refine ite_congr_fst ?_ rfl rfl
    rw [Dict.contains_eq_isSome, Dict.contains_eq_isSome, same]

theorem hooks_of_agree (agree : AgreeOn S E E') (c : HookCall) :
    (E'.systems.hooks c).1 = (E.systems.hooks c).1 := by
  cases c with
  | post url n blocking credentials =>
    show Except.ok ((E'.systems.hookStatus.get? url).getD 200) = Except.ok ((E.systems.hookStatus.get? url).getD 200)
    rw [agree.hooks.status]
  | listGlobal => exact congrArg Except.ok agree.hooks.globals
  | readSecret space n => exact congrArg (fun d => Except.ok (Dict.get? d (inSpace space n))) agree.hooks.secrets

/-- A call that is to know nothing but entries at which two estates agree has the same answer in both, and
they agree there afterwards. -/
theorem answer_of_agree (agree : AgreeOn S E E') (knows : E.Knows S c) :
    (E'.answer c).1 = (E.answer c).1 ∧ AgreeOn S (E.answer c).2 (E'.answer c).2 := by
  have reply : (E'.answer c).1 = (E.answer c).1 := by
    cases c with
    | store c => exact (store_congr (agree.entries (.tenant c.key) knows) c).1
    | hierarchy c => exact hierarchy_of_agree agree knows
    | hardware c => exact hardware_of_agree agree knows
    | identity c => exact identities_of_agree agree knows
    | vault c => exact keys_of_agree agree knows
    | hook c => exact hooks_of_agree agree c
  refine ⟨reply, ((hooks_of_answer E c).symm.trans agree.hooks).trans (hooks_of_answer E' c), fun e he => ?_⟩
  rw [entry_of_answer, entry_of_answer, reply, agree.entries e he]

end Estate

end Rehearsal

end Tenancy

import Tenancy.Proofs.Jobs
import Tenancy.Rehearsal.World

/-!
# How the systems behave

A statement about the operator says which systems it relies on. Those do what they do in the world in
memory, or a call to them fails and has no effect, and nobody but the operator writes to them. The
other systems are under no obligation: they may answer anything, and they may change at any time.
`World.conduct` is the conduct of such a world.

* `sameFor_of_conduct`: a call to one system leaves what the other systems keep as it was.
* `own_of_conduct`: what a call to a system that is relied on comes to.
* `Call.FailsPlainly`: a failure that is not the system's word that all is already as it is wanted.
-/

namespace Tenancy

inductive BackingSystem where
  | store
  | hierarchy
  | hardware
  | identity
  | vault
  | hook
  deriving DecidableEq, Repr

abbrev BackingSystem.Query : BackingSystem → Type
  | .store => StoreCall
  | .hierarchy => HierarchyCall
  | .hardware => HardwareCall
  | .identity => IdentityCall
  | .vault => VaultCall
  | .hook => HookCall

abbrev BackingSystem.call : (s : BackingSystem) → s.Query → Call
  | .store => .store
  | .hierarchy => .hierarchy
  | .hardware => .hardware
  | .identity => .identity
  | .vault => .vault
  | .hook => .hook

namespace Call

def system : Call → BackingSystem
  | store _ => .store
  | hierarchy _ => .hierarchy
  | hardware _ => .hardware
  | identity _ => .identity
  | vault _ => .vault
  | hook _ => .hook

theorem exists_query {c : Call} {s : BackingSystem} (h : c.system = s) : ∃ q, c = s.call q := by
  subst h
  cases c <;> exact ⟨_, rfl⟩

/-- The call makes something that may be there already. -/
def makes : Call → Bool
  | hierarchy (.createAnchor _ _) | hierarchy (.createSecret _ _) => true
  | hardware (.create _ _) | hardware (.add _ _ _) => true
  | identity (.create _) => true
  | _ => false

/-- The call takes away something that may be gone already. -/
def removes : Call → Bool
  | hierarchy (.deleteAnchor _ _) => true
  | hardware (.delete _ _) | hardware (.remove _ _ _) => true
  | identity (.delete _) => true
  | vault (.delete _) => true
  | _ => false

/-- The error is a failure, and not the word of the system that the thing is there, or gone, already. -/
def FailsPlainly (c : Call) (e : Error) : Prop :=
  (c.makes → e.isConflict = false) ∧ (c.removes → e.isNotFound = false)

def Unreachable (_ : Call) (e : Error) : Prop := ∃ system m, e = .unavailable system m

/-- That a system cannot be reached is a plain failure of every call. -/
theorem failsPlainly_of_unreachable {c : Call} {e : Error} (h : c.Unreachable e) : c.FailsPlainly e := by
  obtain ⟨system, m, rfl⟩ := h
  exact ⟨fun _ => rfl, fun _ => rfl⟩

end Call

open Rehearsal in
/-- Two worlds do not differ in what they hold about hooks. -/
structure Dispatch.SameHooks (w w' : World) : Prop where
  globals : w'.globals = w.globals
  secrets : w'.hookSecrets = w.hookSecrets
  status : w'.hookStatus = w.hookStatus

namespace Dispatch.SameHooks

open Rehearsal

variable {w w' w'' : World}

@[refl] theorem refl (w : World) : SameHooks w w := ⟨rfl, rfl, rfl⟩

theorem symm (h : SameHooks w w') : SameHooks w' w := ⟨h.globals.symm, h.secrets.symm, h.status.symm⟩

theorem trans (h : SameHooks w w') (h' : SameHooks w' w'') : SameHooks w w'' :=
  ⟨h'.globals.trans h.globals, h'.secrets.trans h.secrets, h'.status.trans h.status⟩

end Dispatch.SameHooks

namespace Rehearsal.World

/-- Two worlds do not differ in what a system keeps. Which namespaces have been made is not the
hierarchy's to keep: its controller makes them when it comes to it. Hooks keep nothing. -/
def SameFor : BackingSystem → World → World → Prop
  | .store, w, w' => w'.tenant = w.tenant
  | .hierarchy, w, w' => w'.anchors = w.anchors ∧ w'.secrets = w.secrets
  | .hardware, w, w' => w'.collections = w.collections
  | .identity, w, w' => w'.identity = w.identity
  | .vault, w, w' => w'.vault = w.vault
  | .hook, _, _ => True

@[refl] theorem SameFor.refl (s : BackingSystem) (w : World) : SameFor s w w := by
  cases s <;> simp [SameFor]

theorem SameFor.trans {s : BackingSystem} {w w' w'' : World} (h : SameFor s w w')
    (h' : SameFor s w' w'') : SameFor s w w'' := by
  cases s <;> simp_all [SameFor]

/-- Two worlds do not differ in what any of these systems keeps. -/
def Agree (kept : BackingSystem → Prop) (w w' : World) : Prop := ∀ s, kept s → SameFor s w w'

/-- The systems in `kept` do what they do in the world in memory, or a call to them fails as `fails`
allows and has no effect, and nobody else writes to them. The other systems may answer anything. All
but the kept ones may change at any time. -/
def conduct (kept : BackingSystem → Prop) (fails : Call → Error → Prop) : Conduct Services World :=
  fun (c : Call) w r w' =>
    ∃ w₁, Agree kept w w₁ ∧
      (kept c.system ∧ ((r, w') = w₁.answer c ∨ ∃ e, fails c e ∧ r = .error e ∧ w' = w₁) ∨
        ¬ kept c.system ∧ Agree kept w₁ w')

/-- What is allowed where calls fail in some ways is allowed where they may fail in more. -/
theorem conduct_mono {kept : BackingSystem → Prop} {fails fails' : Call → Error → Prop}
    (h : ∀ c e, fails c e → fails' c e) {c : Call} {w w' : World} {r : Except Error c.Reply}
    (hr : conduct kept fails c w r w') : conduct kept fails' c w r w' := by
  obtain ⟨w₁, ha, ⟨hk, hown | ⟨e, he, hr, hw⟩⟩ | hother⟩ := hr
  · exact ⟨w₁, ha, .inl ⟨hk, .inl hown⟩⟩
  · exact ⟨w₁, ha, .inl ⟨hk, .inr ⟨e, h c e he, hr, hw⟩⟩⟩
  · exact ⟨w₁, ha, .inr hother⟩

/-! ## Calls change one system -/

section

variable {w : World} {P : World → Prop}

theorem of_ite {α : Type} {c : Prop} [Decidable c] {a b : Answer α} (ha : P a.2) (hb : P b.2) :
    P (if c then a else b).2 := by
  split <;> assumption

theorem of_store (hw : P w) (own : ∀ t, P { w with tenant := t }) (c : StoreCall) : P (w.store c).2 := by
  have guarded (copy : Tenant) (change : Tenant → Tenant) : P (w.guarded copy change).2 := by
    unfold guarded
    split
    · exact hw
    · exact of_ite (own _) hw
  cases c with
  | get space name => exact hw
  | replaceStatus t st => exact guarded t _
  | addFinalizer t f => exact guarded t _
  | removeFinalizer t f => exact guarded t _
  | clearKeyUpdate t => exact own _

theorem of_hierarchy (hw : P w) (own : ∀ as ss, P { w with anchors := as, secrets := ss })
    (c : HierarchyCall) : P (w.hierarchy c).2 := by
  cases c with
  | anchorExists p n => exact hw
  | createAnchor p n => exact of_ite hw (own _ _)
  | deleteAnchor p n => exact of_ite hw (of_ite (own _ _) hw)
  | getSecret space n => exact hw
  | createSecret space secret => exact of_ite hw (own _ _)

theorem of_hardware (hw : P w) (own : ∀ cs, P { w with collections := cs }) (c : HardwareCall) :
    P (w.hardware c).2 := by
  cases c with
  | get k n => exact hw
  | create k c => exact of_ite hw (own _)
  | delete k n => exact of_ite (own _) hw
  | add k n m =>
    cases hc : w.collections.get? (collectionKey k n) <;> simp only [hardware, hc]
    · exact hw
    · exact of_ite hw (own _)
  | remove k n m =>
    cases hc : w.collections.get? (collectionKey k n) <;> simp only [hardware, hc]
    · exact hw
    · exact of_ite (own _) hw
  | listGroups => exact hw
  | listComponents type role => exact hw

theorem of_identities (hw : P w) (own : ∀ gs, P { w with identity := gs }) (c : IdentityCall) :
    P (w.identities c).2 := by
  cases c with
  | find n => exact hw
  | create g => exact own _
  | delete id => exact of_ite (own _) hw

theorem of_keys (hw : P w) (own : ∀ v, P { w with vault := v }) (c : VaultCall) : P (w.keys c).2 := by
  cases c with
  | read p => exact hw
  | write p body => exact own _
  | delete p => exact of_ite (own _) hw

end

theorem answer_same (w : World) (c : Call) {s : BackingSystem} (h : s ≠ c.system) :
    SameFor s w (w.answer c).2 := by
  cases c with
  | store c =>
    refine of_store (.refl s w) (fun t => ?_) c
    cases s <;> first | exact absurd rfl h | simp [SameFor]
  | hierarchy c =>
    refine of_hierarchy (.refl s w) (fun as ss => ?_) c
    cases s <;> first | exact absurd rfl h | simp [SameFor]
  | hardware c =>
    refine of_hardware (.refl s w) (fun cs => ?_) c
    cases s <;> first | exact absurd rfl h | simp [SameFor]
  | identity c =>
    refine of_identities (.refl s w) (fun gs => ?_) c
    cases s <;> first | exact absurd rfl h | simp [SameFor]
  | vault c =>
    refine of_keys (.refl s w) (fun v => ?_) c
    cases s <;> first | exact absurd rfl h | simp [SameFor]
  | hook c => cases c <;> exact .refl s w

/-- Two worlds do not differ in which namespaces have been made, and in what they hold about hooks. -/
def SameSettings (w w' : World) : Prop := w'.hidden = w.hidden ∧ Dispatch.SameHooks w w'

/-- No call changes these. -/
theorem sameSettings_answer (w : World) (c : Call) : SameSettings w (w.answer c).2 := by
  have same : SameSettings w w := ⟨rfl, .refl w⟩
  cases c with
  | store c => exact of_store same (fun _ => ⟨rfl, rfl, rfl, rfl⟩) c
  | hierarchy c => exact of_hierarchy same (fun _ _ => ⟨rfl, rfl, rfl, rfl⟩) c
  | hardware c => exact of_hardware same (fun _ => ⟨rfl, rfl, rfl, rfl⟩) c
  | identity c => exact of_identities same (fun _ => ⟨rfl, rfl, rfl, rfl⟩) c
  | vault c => exact of_keys same (fun _ => ⟨rfl, rfl, rfl, rfl⟩) c
  | hook c => cases c <;> exact same

/-- The store answers by the tenant alone. -/
theorem store_congr {w w' : World} (h : w'.tenant = w.tenant) (c : StoreCall) :
    (w'.store c).1 = (w.store c).1 ∧ (w'.store c).2.tenant = (w.store c).2.tenant := by
  have guarded_congr (copy : Tenant) (change : Tenant → Tenant) :
      (w'.guarded copy change).1 = (w.guarded copy change).1 ∧
        (w'.guarded copy change).2.tenant = (w.guarded copy change).2.tenant := by
    unfold guarded
    rw [h]
    split
    · exact ⟨rfl, h⟩
    · split
      · exact ⟨rfl, rfl⟩
      · exact ⟨rfl, h⟩
  cases c with
  | get space name =>
    refine ⟨?_, h⟩
    show Except.ok (w'.tenant.filter _) = Except.ok (w.tenant.filter _)
    rw [h]
  | clearKeyUpdate copy =>
    refine ⟨rfl, ?_⟩
    show w'.tenant.map _ = w.tenant.map _
    rw [h]
  | replaceStatus copy s => exact guarded_congr copy _
  | addFinalizer copy f => exact guarded_congr copy _
  | removeFinalizer copy f => exact guarded_congr copy _

/-! ## Calls under a conduct -/

variable {kept : BackingSystem → Prop} {fails : Call → Error → Prop} {w w' : World}

/-- What a call to a system that is relied on comes to: it is answered as in the world in memory, after
the other systems may have changed, or it fails. -/
theorem own_of_conduct {c : Call} {r : Except Error c.Reply} (h : conduct kept fails c w r w')
    (own : kept c.system) :
    ∃ w₁, Agree kept w w₁ ∧ ((r, w') = w₁.answer c ∨ ∃ e, fails c e ∧ r = .error e ∧ w' = w₁) := by
  obtain ⟨w₁, ha, ⟨_, h⟩ | ⟨hn, _⟩⟩ := h
  · exact ⟨w₁, ha, h⟩
  · exact absurd own hn

/-- What a call to a system that is relied on comes to for what this system keeps. -/
theorem call_cases {s : BackingSystem} (hk : kept s) {q : s.Query} {r : Except Error (s.call q).Reply}
    (h : conduct kept fails (s.call q) w r w') :
    (∃ w₁, SameFor s w w₁ ∧ (r, w') = w₁.answer (s.call q)) ∨
      ∃ e, fails (s.call q) e ∧ r = .error e ∧ SameFor s w w' := by
  have own : (s.call q).system = s := by cases s <;> rfl
  obtain ⟨w₁, ha, hr | ⟨e, he, hr, rfl⟩⟩ := own_of_conduct h (own.symm ▸ hk)
  · exact .inl ⟨w₁, ha s hk, hr⟩
  · exact .inr ⟨e, he, hr, ha s hk⟩

/-- A call to one system leaves what the others keep as it was. -/
theorem sameFor_of_conduct {c : Call} {r : Except Error c.Reply} (h : conduct kept fails c w r w')
    {s : BackingSystem} (hk : kept s) (hs : s ≠ c.system) : SameFor s w w' := by
  obtain ⟨w₁, ha, ⟨_, h | ⟨e, _, _, rfl⟩⟩ | ⟨_, h⟩⟩ := h
  · have : w' = (w₁.answer c).2 := congrArg Prod.snd h
    exact (ha s hk).trans (this ▸ answer_same w₁ c hs)
  · exact ha s hk
  · exact (ha s hk).trans (h s hk)

/-- What does not change unless a system does, and what each call that a job may make to the system
leaves true, the whole job leaves true. -/
theorem kept_of_calls {α : Type} {t : Job α} {tr : List (Moment Services World)} {o : Except Error α}
    (h : t.Goes (conduct kept fails) w tr o w') {s : BackingSystem} (hk : kept s) {p : s.Query → Prop}
    (ht : t.Asks fun c => ∀ q, c = s.call q → p q) {P : World → Prop}
    (same : ∀ {w w'}, SameFor s w w' → P w → P w')
    (step : ∀ {q w r w'}, p q → conduct kept fails (s.call q) w r w' → P w → P w') (hw : P w) : P w' := by
  refine Dialogue.Goes.kept h ht ?_ hw
  intro c w r w' hc hr hw
  by_cases hs : c.system = s
  · obtain ⟨q, rfl⟩ := Call.exists_query hs
    exact step (hc q rfl) hr hw
  · exact same (sameFor_of_conduct hr hk (Ne.symm hs)) hw

/-- A job that makes no call to a system leaves what the system keeps as it was. -/
theorem sameFor_of_asks {α : Type} {t : Job α} {tr : List (Moment Services World)}
    {o : Except Error α} (h : t.Goes (conduct kept fails) w tr o w') {s : BackingSystem} (hk : kept s)
    (ht : t.Asks fun c => c.system ≠ s) : SameFor s w w' :=
  Dialogue.Goes.kept h ht (P := SameFor s w)
    (fun _ _ _ _ hc hr hw => hw.trans (sameFor_of_conduct hr hk (Ne.symm hc))) (.refl s w)

end Rehearsal.World

end Tenancy

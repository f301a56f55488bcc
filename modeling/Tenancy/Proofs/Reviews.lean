import Tenancy.Proofs.Admissions
import Tenancy.Proofs.Stages
import Tenancy.Proofs.TenantRecords
import Tenancy.Proofs.VersionGuards
import Tenancy.Review.Webhook

/-!
# What a review comes to

The answers of the other systems may be anything, and a function of what was asked before. A change is
allowed just if the checks accept it and then no hook refuses it (`review_decides`); the hooks hear of it
only once the checks have accepted it, since the checks only look at the hardware.

A change of anything but what is declared is allowed at once. What the operator itself writes to a tenant
is such a change: none of its patches names a part of the spec but the request for a key update, and so
what is declared is the same in whatever object is patched (`LeavesDeclared.sameDeclaration`).
-/

namespace Tenancy

namespace Dialogue

variable {I : Interface} {σ α : Type} {p : I.Query → Prop}

theorem asked_of_asks {answer : (q : I.Query) → σ → I.Answer q × σ} {d : Dialogue I α} (h : d.Asks p) (s : σ) :
    ∀ q ∈ d.asked answer s, p q := by
  induction d generalizing s with
  | done a => exact List.forall_mem_nil p
  | ask q next ih => exact List.forall_mem_cons.2 ⟨h.1, ih _ (h.2 _) _⟩

end Dialogue

namespace Job

variable {σ : Type} (answer : (c : Services.Query) → σ → Services.Answer c × σ)

/-- Two jobs succeed, the second after the first. -/
def BothSucceed (j k : Job Unit) (s : σ) : Prop :=
  (j.run.run answer s).1 = .ok () ∧ (k.run.run answer (j.run.run answer s).2).1 = .ok ()

theorem run_seq_eq_ok {j k : Job Unit} {s : σ} :
    ((do j; k : Job Unit).run.run answer s).1 = .ok () ↔ BothSucceed answer j k s := by
  show ((j.run >>= ExceptT.bindCont fun _ => k).run answer s).1 = _ ↔ _
  rw [Dialogue.run_bind, BothSucceed]
  rcases j.run.run answer s with ⟨_ | _, s'⟩
  · exact ⟨nofun, nofun⟩
  · exact (and_iff_right rfl).symm

/-- A job that fails is the last that asks. -/
theorem asked_seq_of_error {j k : Job Unit} {s : σ} (h : (j.run.run answer s).1 ≠ .ok ()) :
    (do j; k : Job Unit).run.asked answer s = j.run.asked answer s := by
  show (j.run >>= ExceptT.bindCont fun _ => k).asked answer s = _
  rw [Dialogue.asked_bind]
  revert h
  rcases j.run.run answer s with ⟨_ | _, s'⟩
  · exact fun _ => List.append_nil _
  · exact fun h => absurd rfl h

end Job

/-! ## Specs that differ in the request for a key update -/

theorem Spec.sameDeclaration_refl (s : Spec) : s.sameDeclaration s = true := by simp [sameDeclaration]

/-- Objects that have the same members but for the request for a key update declare the same. -/
theorem Spec.sameDeclaration_of_get? {ms ms' : List (String × Json)} {s s' : Spec}
    (h : decode (.ofJson (.object ms)) = .ok s) (h' : decode (.ofJson (.object ms')) = .ok s')
    (others : ∀ key, key ≠ "requiresvaultkeyupdate" → Dict.get? ms' key = Dict.get? ms key) :
    s'.sameDeclaration s = true := by
  obtain ⟨_, _, built⟩ := Record.decode_object_iff.1 h
  obtain ⟨_, _, built'⟩ := Record.decode_object_iff.1 h'
  obtain ⟨g, flag, made, _, rfl⟩ := Record.build_also_eq_ok.1 built
  obtain ⟨g', flag', made', _, rfl⟩ := Record.build_also_eq_ok.1 built'
  -- all fields before the last one are made of the same members
  have same : (record.keys.map fun k => (Dict.get? ms' k).map Reading.ofJson).take 5 =
      (record.keys.map fun k => (Dict.get? ms k).map Reading.ofJson).take 5 := by
    rw [← List.map_take, ← List.map_take]
    refine List.map_congr_left fun key hkey => ?_
    have front : record.keys.take 5 =
      ["tenantname", "childnamespaces", "tenantresources", "tenantkms", "tenanthooks"] := rfl
    rw [others key (by rw [front] at hkey; rintro rfl; simp at hkey)]
  have equal : g' = g := Except.ok.inj (made'.symm.trans (same ▸ made))
  subst equal
  obtain ⟨_, _, made₄, _, rfl⟩ := Record.build_also_eq_ok.1 made
  obtain ⟨_, _, made₃, _, rfl⟩ := Record.build_also_eq_ok.1 made₄
  obtain ⟨_, _, made₂, _, rfl⟩ := Record.build_also_eq_ok.1 made₃
  obtain ⟨_, _, made₁, _, rfl⟩ := Record.build_also_eq_ok.1 made₂
  obtain ⟨_, _, made₀, _, rfl⟩ := Record.build_also_eq_ok.1 made₁
  cases made₀
  simp [sameDeclaration]

namespace Cluster

/-- The patch takes away the request for a key update, or does not name the spec. -/
def LeavesDeclared (patch : Json) : Prop :=
  (∃ changes, patch = .object changes ∧ "spec" ∉ changes.map (·.1)) ∨ patch = clearPatch

theorem leavesDeclared_ofMembers {members : List (String × Json)} (h : "spec" ∉ members.map (·.1)) :
    LeavesDeclared (Json.ofMembers members) := .inl ⟨_, rfl, Dict.notMem_ofList.2 h⟩

theorem asks_patchTenant {p : Request → Prop} {t : Tenant} {part : String} {changes : Json}
    (patches : ∀ q : Request, q.Patches changes → p q) : (patchTenant t part changes).run.Asks p := by
  have lifted {α : Type} (x : Except Error α) : (liftExcept x : ServerJob α).run.Asks p := by
    cases x <;> trivial
  have sent (q : Request) (h : q.Patches changes) : (send q).run.Asks p := by
    unfold send
    split
    · trivial
    · exact ⟨patches _ h, fun reply => lifted (accepted reply)⟩
  refine .bind_except (lifted _) fun uri => .bind_except (sent _ ⟨rfl, rfl⟩) fun body => ?_
  cases objectIn Tenant.decode body <;> trivial

/-- Whatever is written to a tenant, what is declared is left. -/
theorem asks_store_leavesDeclared (c : StoreCall) :
    (store c).run.Asks fun q : Request => ∀ patch, q.Patches patch → LeavesDeclared patch := by
  have written {t : Tenant} {part : String} {changes : Json} (h : LeavesDeclared changes) :
      (patchTenant t part changes).run.Asks fun q : Request => ∀ patch, q.Patches patch → LeavesDeclared patch := by
    refine asks_patchTenant fun q hq patch hq' => ?_
    cases hq.2.symm.trans hq'.2
    exact h
  cases c with
  | get space name =>
    refine Dialogue.Asks.mono (fun q hq patch hq' => ?_) asks_get?
    exact absurd (hq.symm.trans hq'.1) (by decide)
  | replaceStatus t s => exact written (leavesDeclared_ofMembers (by simp))
  | addFinalizer t f =>
    show Dialogue.Asks _ (if t.hasFinalizer f then pure ()
      else patchTenant t "" (finalizersPatch t (t.metadata.finalizerList ++ [f])) : ServerJob Unit).run
    split
    · trivial
    · exact written (leavesDeclared_ofMembers (by simp))
  | removeFinalizer t f => exact written (leavesDeclared_ofMembers (by simp))
  | clearKeyUpdate t => exact written (.inr rfl)

/-- The objects before and after such a patch declare the same. -/
theorem LeavesDeclared.sameDeclaration {patch : Json} (leaves : LeavesDeclared patch)
    {ms ms' : List (String × Json)} {old new : Tenant} (read : Tenant.decode (.ofJson (.object ms)) = .ok old)
    (read' : Tenant.decode (.ofJson (.object ms')) = .ok new)
    (patched : Dict.get? ms' "spec" = ((Json.object ms).mergePatch patch).member? "spec") :
    new.spec.sameDeclaration old.spec = true := by
  obtain ⟨j, there, spec⟩ := (Tenant.decode_object read).1
  obtain ⟨j', there', spec'⟩ := (Tenant.decode_object read').1
  rw [there'] at patched
  rcases leaves with ⟨changes, rfl, unnamed⟩ | rfl
  · rw [Json.member?_mergePatch_of_notMem unnamed] at patched
    cases patched.trans there
    rw [Except.ok.inj (spec'.symm.trans spec)]
    exact Spec.sameDeclaration_refl _
  · rw [Cluster.member?_clearPatch, show (Json.object ms).member? "spec" = some j from there] at patched
    obtain rfl : j' = j.mergePatch (.object [("requiresvaultkeyupdate", .bool false)]) := Option.some.inj patched
    rw [Json.mergePatch] at spec'
    cases j with
    | object spec_members =>
      refine Spec.sameDeclaration_of_get? spec spec' fun key hkey => ?_
      exact Json.get?_mergeMembers_of_notMem (by simpa using hkey)
    -- a spec that is written as an array gives way to the patch, which names no tenant
    | _ => cases spec'

end Cluster

namespace Review

open Admission (Looks validateCreate validateUpdate)
open Dispatch (dispatch)
open Job (BothSucceed)

/-! ## Reviews -/

/-- The answer in an envelope allows the change. -/
def Allows (j : Json) : Prop := (j.member? "response").bind (·.member? "allowed") = some (.bool true)

theorem allows_verdict {header : Header} {uid : String} {o : Except Error Unit} :
    Allows (verdict header uid o) ↔ o = .ok () := by
  cases o <;> simp [Allows, verdict, answered, Json.member?_ofMembers, Dict.get?_cons]

section

variable {σ : Type} (answer : (c : Services.Query) → σ → Services.Answer c × σ) (s : σ) (header : Header)

/-- The change that a request asks for is allowed. -/
def Allowed (r : Request) : Prop := Allows ((answerEnvelope ⟨header, some r⟩).run answer s).1

/-- The calls that are made before a request is answered. -/
def callsFor (r : Request) : List Call := (answerEnvelope ⟨header, some r⟩).asked answer s

theorem allowed_iff {r : Request} : Allowed answer s header r ↔ ((review r).run.run answer s).1 = .ok () := by
  have run : ((answerEnvelope ⟨header, some r⟩).run answer s).1 =
      verdict header r.uid ((review r).run.run answer s).1 := by
    rw [answerEnvelope, Dialogue.run_bind]
    rfl
  rw [Allowed, run, allows_verdict]

theorem callsFor_eq (r : Request) : callsFor answer s header r = (review r).run.asked answer s := by
  rw [callsFor, answerEnvelope, Dialogue.asked_bind]
  exact List.append_nil _

/-! ### The decision -/

variable (uid : String) {old t : Tenant}

theorem create_allowed_iff (old? : Option Tenant) :
    Allowed answer s header ⟨uid, .create, some t, old?⟩ ↔
      BothSucceed answer (validateCreate t) (dispatch t.spec .create) s :=
  (allowed_iff answer s header).trans (Job.run_seq_eq_ok answer)

theorem review_update_of_same (same : t.spec.sameDeclaration old.spec = true) :
    review ⟨uid, .update, some t, some old⟩ = pure () := if_pos same

theorem review_update_of_changed (changed : t.spec.sameDeclaration old.spec = false) :
    review ⟨uid, .update, some t, some old⟩ =
      (do validateUpdate old t; dispatch t.spec .update : Job Unit) := if_neg (by simp [changed])

/-- A change that leaves what is declared is allowed at once. -/
theorem update_allowed_of_same (same : t.spec.sameDeclaration old.spec = true) :
    Allowed answer s header ⟨uid, .update, some t, some old⟩ ∧
      callsFor answer s header ⟨uid, .update, some t, some old⟩ = [] := by
  rw [allowed_iff, callsFor_eq, review_update_of_same uid same]
  exact ⟨rfl, rfl⟩

theorem update_allowed_iff (changed : t.spec.sameDeclaration old.spec = false) :
    Allowed answer s header ⟨uid, .update, some t, some old⟩ ↔
      BothSucceed answer (validateUpdate old t) (dispatch t.spec .update) s := by
  rw [allowed_iff, review_update_of_changed uid changed]
  exact Job.run_seq_eq_ok answer

theorem delete_allowed_iff (new? : Option Tenant) :
    Allowed answer s header ⟨uid, .delete, new?, some old⟩ ↔
      ((dispatch old.spec .delete).run.run answer s).1 = .ok () := by
  rw [allowed_iff, show review ⟨uid, .delete, new?, some old⟩ = dispatch old.spec .delete by cases new? <;> rfl]

/-- The call looks at the hardware. -/
def OnlyLooks (c : Call) : Prop := ∃ q, c = .hardware q ∧ Looks q

theorem onlyLooks {q : HardwareCall} (looks : Looks q) : OnlyLooks (.hardware q) := ⟨q, rfl, looks⟩

/-- Where the checks refuse a new tenant, nothing but the hardware is asked. -/
theorem create_calls_of_refused (old? : Option Tenant)
    (refused : ((validateCreate t).run.run answer s).1 ≠ .ok ()) :
    ∀ c ∈ callsFor answer s header ⟨uid, .create, some t, old?⟩, OnlyLooks c := by
  rw [callsFor_eq, show review ⟨uid, .create, some t, old?⟩ =
    (do validateCreate t; dispatch t.spec .create : Job Unit) from rfl, Job.asked_seq_of_error answer refused]
  exact Dialogue.asked_of_asks (Admission.asks_validateCreate (fun _ => onlyLooks) t) s

/-- Where they refuse a change, nothing else is asked either. -/
theorem update_calls_of_refused (refused : ((validateUpdate old t).run.run answer s).1 ≠ .ok ()) :
    ∀ c ∈ callsFor answer s header ⟨uid, .update, some t, some old⟩, OnlyLooks c := by
  cases same : t.spec.sameDeclaration old.spec with
  | true =>
    rw [(update_allowed_of_same answer s header uid same).2]
    exact List.forall_mem_nil _
  | false =>
    rw [callsFor_eq, review_update_of_changed uid same, Job.asked_seq_of_error answer refused]
    exact Dialogue.asked_of_asks (Admission.asks_validateUpdate (fun _ => onlyLooks) old t) s

/-- What a patch makes of the object that a tenant was read from is read as another tenant. Only the spec has
to be the patched one. -/
def Patched (patch : Json) (old t : Tenant) : Prop :=
  ∃ ms ms', Tenant.decode (.ofJson (.object ms)) = .ok old ∧ Tenant.decode (.ofJson (.object ms')) = .ok t ∧
    Dict.get? ms' "spec" = ((Json.object ms).mergePatch patch).member? "spec"

/-- The decision about the change of a tenant, whatever the other systems answer. A new tenant is allowed
just if the checks accept it and then the hooks do, and so is a change of what is declared; a deletion is
allowed just if the hooks accept it. Any other change is allowed, and nobody is asked. Where the checks
refuse, only the hardware is asked. What the operator writes to a tenant is always allowed, and nobody is
asked. -/
theorem review_decides (old t : Tenant) :
    (∀ old?, Allowed answer s header ⟨uid, .create, some t, old?⟩ ↔
      BothSucceed answer (validateCreate t) (dispatch t.spec .create) s) ∧
    (t.spec.sameDeclaration old.spec = true → Allowed answer s header ⟨uid, .update, some t, some old⟩ ∧
      callsFor answer s header ⟨uid, .update, some t, some old⟩ = []) ∧
    (t.spec.sameDeclaration old.spec = false → (Allowed answer s header ⟨uid, .update, some t, some old⟩ ↔
      BothSucceed answer (validateUpdate old t) (dispatch t.spec .update) s)) ∧
    (∀ new?, Allowed answer s header ⟨uid, .delete, new?, some old⟩ ↔
      ((dispatch old.spec .delete).run.run answer s).1 = .ok ()) ∧
    (((validateCreate t).run.run answer s).1 ≠ .ok () → ∀ old?,
      ∀ c ∈ callsFor answer s header ⟨uid, .create, some t, old?⟩, OnlyLooks c) ∧
    (((validateUpdate old t).run.run answer s).1 ≠ .ok () →
      ∀ c ∈ callsFor answer s header ⟨uid, .update, some t, some old⟩, OnlyLooks c) ∧
    ∀ c : StoreCall, (Cluster.store c).run.Asks fun q : Cluster.Request => ∀ patch, q.Patches patch →
      Patched patch old t → Allowed answer s header ⟨uid, .update, some t, some old⟩ ∧
        callsFor answer s header ⟨uid, .update, some t, some old⟩ = [] := by
  refine ⟨create_allowed_iff answer s header uid, update_allowed_of_same answer s header uid,
    update_allowed_iff answer s header uid, delete_allowed_iff answer s header uid,
    fun refused old? => create_calls_of_refused answer s header uid old? refused,
    update_calls_of_refused answer s header uid, fun c => ?_⟩
  refine (Cluster.asks_store_leavesDeclared c).mono fun q leaves patch patches patched => ?_
  obtain ⟨ms, ms', read, read', spec⟩ := patched
  exact update_allowed_of_same answer s header uid ((leaves patch patches).sameDeclaration read read' spec)

end

def withNode : Tenant :=
  Rehearsal.Stage.newTenant { name := "blue", resources := [{ label := "compute", members := ["x1"] }] }

/-- The tenant, asking for a key update. -/
def asking : Tenant := { withNode with spec := { withNode.spec with requiresKeyUpdate := true } }

/-- Where there is no hardware and no hook is registered, the tenant with a node is refused after a look at
the hardware, one without a node is not, and what was asked for is taken away without a question. -/
theorem review_decides_of_withNode :
    let answer := fun (c : Services.Query) (_ : Unit) => ((.ok (Call.emptyReply c) : Services.Answer c), ())
    let header : Header := ⟨"admission.k8s.io/v1", "AdmissionReview"⟩
    let bare := Rehearsal.Stage.newTenant { name := "blue" }
    ¬ Allowed answer () header ⟨"1", .create, some withNode, none⟩ ∧
    (∀ c ∈ callsFor answer () header ⟨"1", .create, some withNode, none⟩, OnlyLooks c) ∧
    Allowed answer () header ⟨"1", .update, some bare, some withNode⟩ ∧
    ¬ Allowed answer () header ⟨"1", .update, some withNode, some bare⟩ ∧
    (∀ c ∈ callsFor answer () header ⟨"1", .update, some withNode, some bare⟩, OnlyLooks c) ∧
    Allowed answer () header ⟨"1", .delete, none, some withNode⟩ ∧
    Allowed answer () header ⟨"1", .update, some withNode, some asking⟩ ∧
    callsFor answer () header ⟨"1", .update, some withNode, some asking⟩ = [] := by
  intro answer header bare
  have refused : ((validateCreate withNode).run.run answer ()).1 ≠ .ok () := by decide +kernel
  have refused' : ((validateUpdate bare withNode).run.run answer ()).1 ≠ .ok () := by decide +kernel
  obtain ⟨create, -, -, delete, looks, -, -⟩ := review_decides answer () header "1" withNode withNode
  obtain ⟨-, -, update, -, -, looks', -⟩ := review_decides answer () header "1" bare withNode
  obtain ⟨-, -, shrink, -, -, -, -⟩ := review_decides answer () header "1" withNode bare
  obtain ⟨-, -, -, -, -, -, write⟩ := review_decides answer () header "1" asking withNode
  obtain ⟨allowed, unasked⟩ := Cluster.goes_cleared.asks (write (.clearKeyUpdate Cluster.askedCopy)) _
    (List.mem_singleton_self _) Cluster.clearPatch ⟨rfl, rfl⟩
    ⟨_, _, show Tenant.decode (.ofJson asking.toJson) = .ok asking by decide +kernel,
      show Tenant.decode (.ofJson withNode.toJson) = .ok withNode by decide +kernel, by rfl⟩
  refine ⟨fun h => refused ((create none).1 h).1, looks refused none, ?_, ?_, looks' refused', ?_, allowed, unasked⟩
  · exact (shrink (by decide +kernel)).2 ⟨by decide +kernel, by decide +kernel⟩
  · exact fun h => refused' ((update (by decide +kernel)).1 h).1
  · exact (delete none).2 (by decide +kernel)

end Review

end Tenancy

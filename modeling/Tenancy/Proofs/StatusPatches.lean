import Tenancy.Cluster.Client
import Tenancy.Proofs.EncryptionDomain
import Tenancy.Proofs.MergedRecords
import Tenancy.Proofs.Rewrites
import Tenancy.Proofs.Stages
import Tenancy.Proofs.TenantRecords

/-!
# What a patch makes of the status

A status is written as a merge patch, and fields without a value are left out of it. So the patch cannot
take a value away: what is stored afterwards is the new status with what the old one has on top of
nothing (`holds_statusPatch`), and that is the new status just if it clears no field
(`statusIn_statusPatch_iff`).

No pass clears a field. While nobody else writes the status (`Keeping`), each status that a pass writes is
computed from the stored one by a change that leaves what is set (`fine_of_reconcile`): the first two
and the one of a teardown only set fields, and the last one of a deploy pass sets all the keys or has those
that are stored. So the status that is handed back is the stored one (`holds_of_updateStatus`).
-/

namespace Tenancy

/-! ## Fields that are cleared -/

/-- A value is there before and not after. -/
def Drops {α : Type} (old new : Option α) : Prop := old.isSome ∧ new = none

theorem or_eq_self_iff {α : Type} {old new : Option α} : new.or old = new ↔ ¬ Drops old new := by
  cases new <;> cases old <;> simp [Drops]

theorem not_drops_some {α : Type} {old : Option α} {a : α} : ¬ Drops old (some a) := fun h => nomatch h.2

theorem not_drops_self {α : Type} {old : Option α} : ¬ Drops old old := by
  rintro ⟨h, rfl⟩
  cases h

namespace KeyRecord

/-- A field of the keys is set in the old record and not in the new one. -/
def Clears (old new : KeyRecord) : Prop :=
  Drops old.domain new.domain ∨ Drops old.keyName new.keyName ∨ Drops old.keyType new.keyType ∨
    Drops old.publicKey new.publicKey

/-- The new keys, with those of the old record where there are none. -/
def upon (new old : KeyRecord) : KeyRecord where
  domain := new.domain.or old.domain
  keyName := new.keyName.or old.keyName
  keyType := new.keyType.or old.keyType
  publicKey := new.publicKey.or old.publicKey

theorem upon_eq_self_iff {old new : KeyRecord} : new.upon old = new ↔ ¬ old.Clears new := by
  obtain ⟨_, _, _, _⟩ := new
  simp only [upon, mk.injEq, or_eq_self_iff, Clears, not_or]

theorem not_clears_self {k : KeyRecord} : ¬ k.Clears k := by simp [Clears, not_drops_self]

/-- Keys that are patched have what the patch has, and else what they had. -/
theorem mergePatch_toJson (old new : KeyRecord) : old.toJson.mergePatch new.toJson = (new.upon old).toJson := by
  rw [toJson_eq_printed, toJson_eq_printed, toJson_eq_printed]
  refine Record.mergePatch_printed_printed nodup_entries ?_
  simp only [entries, List.forall_mem_cons]
  have text := Json.overlay_optional Json.flat_string
  exact ⟨text _ _, text _ _, text _ _, text _ _, List.forall_mem_nil _⟩

theorem null_mergePatch_toJson (k : KeyRecord) : Json.null.mergePatch k.toJson = k.toJson := by
  rw [toJson_eq_printed]
  refine Record.null_mergePatch_printed nodup_entries ?_
  simp only [entries, List.forall_mem_cons]
  have text := Json.null_overlay_optional Json.flat_string
  exact ⟨text _, text _, text _, text _, List.forall_mem_nil _⟩

end KeyRecord

namespace Status

/-- An optional field is set in the old status and not in the new one. -/
def Clears (old new : Status) : Prop :=
  Drops old.phase new.phase ∨ Drops old.uuid new.uuid ∨ Drops old.lastDeployed new.lastDeployed ∨
    old.keys.Clears new.keys

/-- The new status, with the optional fields of the old one where it has none. -/
def upon (new old : Status) : Status :=
  { new with
    phase := new.phase.or old.phase
    uuid := new.uuid.or old.uuid
    keys := new.keys.upon old.keys
    lastDeployed := new.lastDeployed.or old.lastDeployed }

theorem upon_eq_self_iff {old new : Status} : new.upon old = new ↔ ¬ old.Clears new := by
  obtain ⟨_, _, _, _, _, _, _⟩ := new
  simp only [upon, mk.injEq, or_eq_self_iff, KeyRecord.upon_eq_self_iff, Clears, not_or, true_and]
  tauto

/-- A status that is patched has what the patch has, and else what it had. -/
theorem mergePatch_toJson (old new : Status) : old.toJson.mergePatch new.toJson = (new.upon old).toJson := by
  rw [toJson_eq_printed, toJson_eq_printed, toJson_eq_printed]
  refine Record.mergePatch_printed_printed nodup_entries ?_
  simp only [entries, List.forall_mem_cons]
  have text := Json.overlay_optional Json.flat_string
  have phase := Json.overlay_optional fun p : Phase => Json.flat_string p.name
  exact ⟨phase _ _, text _ _, rfl, rfl, rfl, (KeyRecord.mergePatch_toJson _ _).symm, text _ _, List.forall_mem_nil _⟩

theorem null_mergePatch_toJson (s : Status) : Json.null.mergePatch s.toJson = s.toJson := by
  rw [toJson_eq_printed]
  refine Record.null_mergePatch_printed nodup_entries ?_
  simp only [entries, List.forall_mem_cons]
  have text := Json.null_overlay_optional Json.flat_string
  have phase := Json.null_overlay_optional fun p : Phase => Json.flat_string p.name
  exact ⟨phase _, text _, rfl, rfl, rfl, (KeyRecord.null_mergePatch_toJson _).symm, text _, List.forall_mem_nil _⟩

end Status

/-! ## The stored status -/

/-- The status in a stored object; none where it has no such member. -/
def statusIn (j : Json) : Decoded (Option Status) :=
  match j.member? "status" with
  | none => .ok none
  | some s => Reading.nullable Status.decode (.ofJson s)

/-- The object is stored with this status, or without one. -/
def Holds (j : Json) (s : Option Status) : Prop := j.member? "status" = s.map Status.toJson

theorem nullable_toJson (s : Status) : Reading.nullable Status.decode (.ofJson s.toJson) = .ok (some s) :=
  Reading.readsBack_nullable Status.lossless.printed (fun _ => nofun) (some s)

theorem Holds.statusIn {j : Json} {s : Option Status} (h : Holds j s) : statusIn j = .ok s := by
  rw [Tenancy.statusIn, h]
  cases s with
  | none => rfl
  | some s => exact nullable_toJson s

/-- A copy of the stored object has its status. -/
theorem Holds.status_eq {ms : List (String × Json)} {s : Option Status} {t : Tenant} (h : Holds (.object ms) s)
    (read : Tenant.decode (.ofJson (.object ms)) = .ok t) : t.status = s := by
  rcases (Tenant.decode_object read).2 with ⟨j, there, status⟩ | ⟨missing, status⟩
  · obtain ⟨s', rfl, rfl⟩ := Option.map_eq_some_iff.1 (h.symm.trans there)
    exact Except.ok.inj (status.symm.trans (nullable_toJson s'))
  · rw [status]
    exact (Option.map_eq_none_iff.1 (h.symm.trans missing)).symm

open Cluster (statusPatch versionOf)

theorem member?_statusPatch (j : Json) (copy : Tenant) (new : Status) :
    (j.mergePatch (statusPatch copy new)).member? "status" =
      some (((j.member? "status").getD .null).mergePatch new.toJson) := by
  have same : (Dict.ofList [("metadata", Json.ofMembers [("resourceVersion", versionOf copy)]),
      ("status", new.toJson)]).Perm _ := Dict.ofList_perm (by simp)
  refine Json.member?_mergePatch_of_mem nofun ?_ (same.mem_iff.2 (by simp))
  exact ((same.map _).nodup_iff).2 (by simp)

/-- A patch of the status leaves the new status, with the optional fields of the old one where it has none. -/
theorem holds_statusPatch {j : Json} {s : Option Status} (h : Holds j s) (copy : Tenant) (new : Status) :
    Holds (j.mergePatch (statusPatch copy new)) (some (new.upon (s.getD {}))) := by
  rw [Holds, member?_statusPatch, h]
  cases s with
  | none =>
    have kept : new.upon {} = new :=
      Status.upon_eq_self_iff.2 (by simp [Status.Clears, KeyRecord.Clears, Drops])
    rw [Option.map_none, Option.getD_none, Status.null_mergePatch_toJson, Option.getD_none, kept]
    rfl
  | some s =>
    rw [Option.map_some, Option.getD_some, Status.mergePatch_toJson]
    rfl

/-- What is stored after a patch of the status is the new status just if that clears no field. -/
theorem statusIn_statusPatch_iff {j : Json} {s : Option Status} (h : Holds j s) (copy : Tenant) (new : Status) :
    statusIn (j.mergePatch (statusPatch copy new)) = .ok (some new) ↔ ¬ (s.getD {}).Clears new := by
  rw [(holds_statusPatch h copy new).statusIn, Except.ok.injEq, Option.some.injEq, Status.upon_eq_self_iff]

/-! ## Nobody else writes the status -/

def SameStatus (j j' : Json) : Prop := j'.member? "status" = j.member? "status"

theorem Holds.congr {j j' : Json} {s : Option Status} (h : Holds j s) (same : SameStatus j j') : Holds j' s :=
  same.trans h

/-- How calls are answered while the tenant is stored and nobody else writes its status. What else is stored
may change at any time. -/
inductive Keeping : Conduct Services Json
  | read {space name : String} {j : Json} {ms : List (String × Json)} {copy : Tenant}
      (others : SameStatus j (.object ms)) (said : Tenant.decode (.ofJson (.object ms)) = .ok copy) :
      Keeping (.store (.get space name)) j (.ok (some copy)) (.object ms)
  | unread {space name : String} {j j' : Json} {a : Except Error (Option Tenant)} (others : SameStatus j j')
      (said : ∀ copy, a ≠ .ok (some copy)) : Keeping (.store (.get space name)) j a j'
  /-- The patch is applied. The answer can get lost. -/
  | applied {copy : Tenant} {s : Status} {j j' : Json} {a : Except Error Unit}
      (others : SameStatus (j.mergePatch (statusPatch copy s)) j') :
      Keeping (.store (.replaceStatus copy s)) j a j'
  | refused {copy : Tenant} {s : Status} {j j' : Json} {e : Error} (others : SameStatus j j') :
      Keeping (.store (.replaceStatus copy s)) j (.error e) j'
  | elsewhere {c : Call} {j j' : Json} {a : Except Error c.Reply} (others : SameStatus j j')
      (unread : ∀ space name, c ≠ .store (.get space name))
      (unwritten : ∀ copy s, c ≠ .store (.replaceStatus copy s)) : Keeping c j a j'

/-- If a status is written at this moment, it clears no field of the one that it was computed from. -/
def KeepsFields (m : Moment Services Json) : Prop :=
  ∀ copy new, m.query = .store (.replaceStatus copy new) → ¬ copy.recorded.Clears new

/-- If a status is written at this moment, it is what is stored once the patch is applied. -/
def Replaces (m : Moment Services Json) : Prop :=
  ∀ copy new, m.query = .store (.replaceStatus copy new) →
    statusIn (m.before.mergePatch (statusPatch copy new)) = .ok (some new)

namespace Lifecycle

variable {α : Type} {settings : Settings} {fresh : Fresh} {t : Tenant} {j j' : Json} {s : Option Status}
  {tr : List (Moment Services Json)}

/-- A job that writes no status leaves the one that is stored. -/
theorem holds_of_quiet {d : Job α} {o : Except Error α} (quiet : d.Asks Quiet) (h : d.Goes Keeping j tr o j')
    (holds : Holds j s) : Holds j' s := by
  refine Dialogue.Goes.kept h quiet (P := (Holds · s)) ?_ holds
  rintro c i a i' hc answered holds
  cases answered with
  | read others _ => exact holds.congr others
  | unread others _ => exact holds.congr others
  | applied _ => cases hc _ rfl
  | refused others => exact holds.congr others
  | elsewhere others _ _ => exact holds.congr others

theorem fine_of_quiet {d : Job α} {o : Except Error α} (quiet : d.Asks Quiet) (h : d.Goes Keeping j tr o j') :
    ∀ m ∈ tr, KeepsFields m ∧ Replaces m := by
  intro m hm
  have unwritten : ∀ copy new, m.query ≠ .store (.replaceStatus copy new) := fun copy new he => by
    cases Dialogue.Goes.asks h quiet m hm _ he
  exact ⟨fun copy new he => absurd he (unwritten copy new), fun copy new he => absurd he (unwritten copy new)⟩

/-! ### One write -/

/-- The ways in which one attempt to change the status can go, with what is stored at its end. -/
inductive AttemptGoes (change : Status → Status) (s : Option Status) :
    List (Moment Services Json) → Except Error Status → Json → Prop
  | unread {m : Moment Services Json} {space name : String} {e : Error} {j' : Json}
      (got : m.query = .store (.get space name)) (holds : Holds j' s) : AttemptGoes change s [m] (.error e) j'
  | refused {m : Moment Services Json} {space name : String} {copy : Tenant} {e : Error} {j₁ j' : Json}
      (got : m.query = .store (.get space name)) (copied : copy.recorded = s.getD {}) (before : Holds j₁ s)
      (holds : Holds j' s) : AttemptGoes change s
        [m, ⟨j₁, .store (.replaceStatus copy (change (s.getD {}))), .error e⟩] (.error e) j'
  | applied {m : Moment Services Json} {space name : String} {copy : Tenant} {a : Except Error Unit} {j₁ j' : Json}
      (got : m.query = .store (.get space name)) (copied : copy.recorded = s.getD {}) (before : Holds j₁ s)
      (holds : Holds j' (some ((change (s.getD {})).upon (s.getD {})))) : AttemptGoes change s
        [m, ⟨j₁, .store (.replaceStatus copy (change (s.getD {}))), a⟩] ((fun _ => change (s.getD {})) <$> a) j'

theorem attempt_cases {space name : String} {change : Status → Status} {o : Except Error Status}
    (h : (updateOnce space name change).Goes Keeping j tr o j') (holds : Holds j s) :
    AttemptGoes change s tr o j' := by
  have kept {a : Except Error (Option Tenant)} {j₁ : Json}
      (answered : Keeping (.store (.get space name)) j a j₁) : Holds j₁ s := by
    cases answered with
    | read others _ => exact holds.congr others
    | unread others _ => exact holds.congr others
    | elsewhere _ unread _ => exact absurd rfl (unread space name)
  rcases Job.goes_bind h with ⟨e, rfl, got⟩ | ⟨found, j₁, tr₁, tr₂, got, rest, rfl⟩
  · obtain ⟨answered, rfl⟩ := Job.goes_call got
    exact .unread rfl (kept answered)
  · obtain ⟨answered, rfl⟩ := Job.goes_call got
    have holds₁ := kept answered
    cases found with
    | none =>
      obtain ⟨rfl, rfl, rfl⟩ := Job.goes_throw rest
      exact .unread rfl holds₁
    | some copy =>
      have copied : copy.recorded = s.getD {} := by
        cases answered with
        | read others said => rw [Tenant.recorded, (holds.congr others).status_eq said]
        | unread _ said => exact absurd rfl (said copy)
        | elsewhere _ unread _ => exact absurd rfl (unread space name)
      have written {a : Except Error Unit} {j₂ : Json} {tr : List (Moment Services Json)}
          (h : (replaceStatus copy (change copy.recorded)).Goes Keeping j₁ tr a j₂) :
          AttemptGoes change s (⟨j, .store (.get space name), .ok (some copy)⟩ :: tr)
            ((fun _ => change (s.getD {})) <$> a) j₂ := by
        obtain ⟨answered, rfl⟩ := Job.goes_call h
        rw [copied] at answered ⊢
        cases answered with
        | applied others => exact .applied rfl copied holds₁ ((holds_statusPatch holds₁ _ _).congr others)
        | refused others => exact .refused rfl copied holds₁ (holds₁.congr others)
        | elsewhere _ _ unwritten => exact absurd rfl (unwritten copy _)
      rcases Job.goes_bind rest with ⟨e, rfl, replaced⟩ | ⟨_, j₂, tr₃, tr₄, replaced, last, rfl⟩
      · exact written replaced
      · obtain ⟨rfl, rfl, rfl⟩ := Job.goes_pure last
        rw [List.append_nil, copied]
        exact written replaced

theorem keepsFields_of_get {m : Moment Services Json} {space name : String}
    (got : m.query = .store (.get space name)) : KeepsFields m := fun _ _ he => nomatch got.symm.trans he

theorem replaces_of_get {m : Moment Services Json} {space name : String}
    (got : m.query = .store (.get space name)) : Replaces m := fun _ _ he => nomatch got.symm.trans he

/-- An attempt whose writes keep all fields hands back what is stored. -/
theorem AttemptGoes.stored {change : Status → Status} {new : Status}
    (h : AttemptGoes change s tr (.ok new) j') (fields : ∀ m ∈ tr, KeepsFields m) : Holds j' (some new) := by
  generalize ho : (Except.ok new : Except Error Status) = o at h
  cases h with
  | unread => cases ho
  | refused => cases ho
  | @applied m _ _ copy a _ _ got copied before holds =>
    cases a with
    | error e => cases ho
    | ok u =>
      cases ho
      have kept := fields _ (List.mem_cons_of_mem _ List.mem_cons_self) copy _ rfl
      rw [copied] at kept
      rwa [Status.upon_eq_self_iff.2 kept] at holds

theorem AttemptGoes.left {change : Status → Status} {o : Except Error Status}
    (h : AttemptGoes change s tr o j') : ∃ s', Holds j' s' := by
  cases h with
  | unread _ holds => exact ⟨_, holds⟩
  | refused _ _ _ holds => exact ⟨_, holds⟩
  | applied _ _ _ holds => exact ⟨_, holds⟩

/-- A change that keeps all fields of a status with `P`, and keeps `P`, replaces the status. -/
theorem AttemptGoes.fine {change : Status → Status} {P : Status → Prop} {o : Except Error Status}
    (good : ∀ s, P s → ¬ s.Clears (change s) ∧ P (change s)) (hs : P (s.getD {}))
    (h : AttemptGoes change s tr o j') :
    (∀ m ∈ tr, KeepsFields m ∧ Replaces m) ∧ ∃ s', Holds j' s' ∧ P (s'.getD {}) := by
  have kept := (good _ hs).1
  have written {copy : Tenant} {a : Except Error Unit} {j₁ : Json} (copied : copy.recorded = s.getD {})
      (before : Holds j₁ s) : KeepsFields ⟨j₁, .store (.replaceStatus copy (change (s.getD {}))), a⟩ ∧
        Replaces ⟨j₁, .store (.replaceStatus copy (change (s.getD {}))), a⟩ := by
    constructor
    · rintro copy' new he
      cases he
      rwa [copied]
    · rintro copy' new he
      cases he
      exact (statusIn_statusPatch_iff before _ _).2 kept
  cases h with
  | unread got holds =>
    exact ⟨List.forall_mem_singleton.2 ⟨keepsFields_of_get got, replaces_of_get got⟩, s, holds, hs⟩
  | refused got copied before holds =>
    refine ⟨List.forall_mem_cons.2 ⟨⟨keepsFields_of_get got, replaces_of_get got⟩, ?_⟩, s, holds, hs⟩
    exact List.forall_mem_singleton.2 (written copied before)
  | applied got copied before holds =>
    refine ⟨List.forall_mem_cons.2 ⟨⟨keepsFields_of_get got, replaces_of_get got⟩, ?_⟩, ?_⟩
    · exact List.forall_mem_singleton.2 (written copied before)
    · rw [Status.upon_eq_self_iff.2 kept] at holds
      exact ⟨_, holds, (good _ hs).2⟩

/-- An update of the status whose writes keep all fields hands back what is stored. -/
theorem holds_of_updateStatus {change : Status → Status} {new : Status}
    (h : (updateStatus t change).Goes Keeping j tr (.ok new) j') (holds : Holds j s)
    (fields : ∀ m ∈ tr, KeepsFields m) : Holds j' (some new) := by
  obtain ⟨j₁, tr₁, tr₂, left, last, rfl⟩ := Job.goes_attempts
    (L := fun j _ j' => (∃ s, Holds j s) → ∃ s, Holds j' s) (fun _ => id) (fun l l' hs => l' (l hs))
    (fun ht ⟨_, hs⟩ => (attempt_cases ht hs).left) h
  obtain ⟨s₁, holds₁⟩ := left ⟨s, holds⟩
  exact (attempt_cases last holds₁).stored fun m hm => fields m (List.mem_append_right _ hm)

/-- So does one whose change keeps all fields of the statuses with `P`, and each of its writes replaces the
status. -/
theorem updateStatus_fine {change : Status → Status} {P : Status → Prop} {o : Except Error Status}
    (good : ∀ s, P s → ¬ s.Clears (change s) ∧ P (change s))
    (h : (updateStatus t change).Goes Keeping j tr o j') (holds : ∃ s, Holds j s ∧ P (s.getD {})) :
    (∀ m ∈ tr, KeepsFields m ∧ Replaces m) ∧ (∃ s', Holds j' s' ∧ P (s'.getD {})) ∧
      ∀ new, o = .ok new → Holds j' (some new) := by
  obtain ⟨j₁, tr₁, tr₂, left, last, rfl⟩ := Job.goes_attempts
    (L := fun j tr j' => (∃ s, Holds j s ∧ P (s.getD {})) →
      (∀ m ∈ tr, KeepsFields m ∧ Replaces m) ∧ ∃ s, Holds j' s ∧ P (s.getD {}))
    (fun _ hs => ⟨List.forall_mem_nil _, hs⟩)
    (fun l l' hs => ⟨List.forall_mem_append.2 ⟨(l hs).1, (l' (l hs).2).1⟩, (l' (l hs).2).2⟩)
    (fun ht ⟨_, holds, hs⟩ => (attempt_cases ht holds).fine good hs) h
  obtain ⟨before, s₁, holds₁, hs₁⟩ := left holds
  obtain ⟨after, kept⟩ := (attempt_cases last holds₁).fine good hs₁
  refine ⟨List.forall_mem_append.2 ⟨before, after⟩, kept, ?_⟩
  rintro new rfl
  exact (attempt_cases last holds₁).stored fun m hm => (after m hm).1

/-! ### Passes -/

theorem not_clears_setPhase (p : Phase) (s : Status) : ¬ s.Clears { s with phase := some p } := by
  simp [Status.Clears, KeyRecord.Clears, not_drops_some, not_drops_self]

theorem not_clears_deployingStatus (fresh : Fresh) (s : Status) : ¬ s.Clears (deployingStatus fresh s) := by
  simp [Status.Clears, KeyRecord.Clears, deployingStatus, not_drops_some, not_drops_self]

/-- The status of a deployed tenant keeps all fields but those of the keys. -/
theorem clears_deployedStatus_iff {keys : KeyRecord} {s : Status} :
    s.Clears (deployedStatus t keys fresh.now s) ↔ s.keys.Clears keys := by
  simp [Status.Clears, deployedStatus, not_drops_some, not_drops_self]

/-- The keys that a deploy pass came through with clear none of those that were recorded. -/
theorem not_clears_of_prepare {recorded : Status} {keys : KeyRecord}
    (h : (prepare settings fresh t recorded).Goes Keeping j tr (.ok (some keys)) j') :
    keys = recorded.keys ∨ ∀ old : KeyRecord, ¬ old.Clears keys := by
  obtain ⟨_, _, _, _, _, _, _, _, _, _, others, _⟩ := prepare_ok h
  obtain ⟨_, _, _, _, _, _, _, _, made, _⟩ := applyOthers_ok others
  rcases ensureKeys_ok made with ⟨_, rfl⟩ | ⟨_, _, _, domain, _⟩
  · exact .inl rfl
  · obtain ⟨data, rfl⟩ := Encryption.ensureDomain_made domain
    exact .inr fun old => by simp [KeyRecord.Clears, not_drops_some]

theorem fine_of_markDeploying {o : Except Error Status} (h : (markDeploying t fresh).Goes Keeping j tr o j')
    (holds : Holds j s) : (∀ m ∈ tr, KeepsFields m ∧ Replaces m) ∧
      ∀ recorded, o = .ok recorded → Holds j' (some recorded) := by
  have last {j : Json} {s : Option Status} {tr : List (Moment Services Json)}
      (h : (updateStatus t (deployingStatus fresh)).Goes Keeping j tr o j') (holds : Holds j s) :
      (∀ m ∈ tr, KeepsFields m ∧ Replaces m) ∧ ∀ recorded, o = .ok recorded → Holds j' (some recorded) := by
    have := updateStatus_fine (P := fun _ => True)
      (fun s _ => ⟨not_clears_deployingStatus fresh s, trivial⟩) h ⟨s, holds, trivial⟩
    exact ⟨this.1, this.2.2⟩
  unfold markDeploying at h
  dsimp only at h
  split at h
  · have first {tr : List (Moment Services Json)} {o : Except Error Unit} {j' : Json}
        (h : Job.Goes Keeping (discard (updateStatus t fun s => { s with phase := some .new })) j tr o j') :
        (∀ m ∈ tr, KeepsFields m ∧ Replaces m) ∧ ∃ s', Holds j' s' := by
      obtain ⟨o', h, _⟩ := Job.goes_discard h
      obtain ⟨fine, ⟨s', holds, _⟩, _⟩ := updateStatus_fine (P := fun _ => True)
        (fun s _ => ⟨not_clears_setPhase .new s, trivial⟩) h ⟨s, holds, trivial⟩
      exact ⟨fine, s', holds⟩
    rcases Job.goes_bind h with ⟨e, rfl, h₁⟩ | ⟨_, j₁, tr₁, tr₂, h₁, h₂, rfl⟩
    · exact ⟨(first h₁).1, fun _ => nofun⟩
    · obtain ⟨before, s₁, holds₁⟩ := first h₁
      obtain ⟨after, stored⟩ := last h₂ holds₁
      exact ⟨List.forall_mem_append.2 ⟨before, after⟩, stored⟩
  · exact last h holds

theorem fine_of_deploy {o : Except Error Action} (h : (deploy settings fresh t).Goes Keeping j tr o j')
    (holds : Holds j s) : ∀ m ∈ tr, KeepsFields m ∧ Replaces m := by
  have middle_fine {recorded : Status} {j j' : Json} {o : Except Error (Option KeyRecord)}
      {tr : List (Moment Services Json)} (h : (prepare settings fresh t recorded).Goes Keeping j tr o j') :
      ∀ m ∈ tr, KeepsFields m ∧ Replaces m :=
    fine_of_quiet prepare_asks_quiet h
  cases deploy_cases h with
  | unmarked mark => exact (fine_of_markDeploying mark holds).1
  | failed mark middle =>
    exact List.forall_mem_append.2 ⟨(fine_of_markDeploying mark holds).1, middle_fine middle⟩
  | pending mark middle =>
    exact List.forall_mem_append.2 ⟨(fine_of_markDeploying mark holds).1, middle_fine middle⟩
  | @prepared j₁ j₂ _ _ _ _ recorded keys _ mark middle last =>
    obtain ⟨before, stored⟩ := fine_of_markDeploying mark holds
    have holds₂ : Holds j₂ (some recorded) :=
      holds_of_quiet prepare_asks_quiet middle (stored recorded rfl)
    -- the keys in the last write are those that are stored, or they are all set
    have known : keys = recorded.keys ∨ ∀ old : KeyRecord, ¬ old.Clears keys := not_clears_of_prepare middle
    have kept (s : Status) (hs : keys = s.keys ∨ ∀ old : KeyRecord, ¬ old.Clears keys) :
        ¬ s.Clears (deployedStatus t keys fresh.now s) := by
      rw [clears_deployedStatus_iff]
      rcases hs with rfl | set
      · exact KeyRecord.not_clears_self
      · exact set _
    obtain ⟨after, _⟩ := updateStatus_fine (P := fun s => keys = s.keys ∨ ∀ old : KeyRecord, ¬ old.Clears keys)
      (fun s hs => ⟨kept s hs, .inl rfl⟩) last ⟨some recorded, holds₂, known⟩
    exact List.forall_mem_append.2 ⟨List.forall_mem_append.2 ⟨before, middle_fine middle⟩, after⟩

theorem fine_of_teardown {o : Except Error Action} (h : (teardown settings t).Goes Keeping j tr o j')
    (holds : Holds j s) : ∀ m ∈ tr, KeepsFields m ∧ Replaces m := by
  have mark_fine {j' : Json} {tr : List (Moment Services Json)} {o : Except Error Status}
      (h : (markDeleting t).Goes Keeping j tr o j') : ∀ m ∈ tr, KeepsFields m ∧ Replaces m := by
    unfold markDeleting at h
    split at h
    · obtain ⟨rfl, _, _⟩ := Job.goes_pure h
      exact List.forall_mem_nil _
    · exact (updateStatus_fine (P := fun _ => True) (fun s _ => ⟨not_clears_setPhase .deleting s, trivial⟩)
        h ⟨s, holds, trivial⟩).1
  have middle_fine {recorded : Status} {j j' : Json} {o : Except Error Removal}
      {tr : List (Moment Services Json)} (h : (clear settings t recorded).Goes Keeping j tr o j') :
      ∀ m ∈ tr, KeepsFields m ∧ Replaces m := fine_of_quiet clear_asks_quiet h
  cases teardown_cases h with
  | unmarked mark => exact mark_fine mark
  | failed mark middle => exact List.forall_mem_append.2 ⟨mark_fine mark, middle_fine middle⟩
  | blocked mark middle => exact List.forall_mem_append.2 ⟨mark_fine mark, middle_fine middle⟩
  | cleared mark middle _ release =>
    exact List.forall_mem_append.2 ⟨List.forall_mem_append.2 ⟨mark_fine mark, middle_fine middle⟩,
      fine_of_quiet releaseFinalizer_asks_quiet release⟩

/-- No status that a pass writes clears a field, and each replaces the one that is stored. -/
theorem fine_of_reconcile {o : Except Error Action} (h : (reconcile settings fresh t).Goes Keeping j tr o j')
    (holds : Holds j s) : ∀ m ∈ tr, KeepsFields m ∧ Replaces m := by
  cases reconcile_cases h with
  | gone => exact List.forall_mem_nil _
  | teardown _ _ goes => exact fine_of_teardown goes holds
  | attach _ _ goes => exact fine_of_quiet (Job.asks_call fun sc hc => by cases hc; rfl) goes
  | undropped _ drop => exact fine_of_quiet dropRequest_asks_quiet drop
  | settled _ _ _ drop => exact fine_of_quiet dropRequest_asks_quiet drop
  | deploy _ _ _ drop goes =>
    exact List.forall_mem_append.2 ⟨fine_of_quiet dropRequest_asks_quiet drop,
      fine_of_deploy goes (holds_of_quiet dropRequest_asks_quiet drop holds)⟩

/-- A patch of the status leaves the new status just if that clears no optional field of the old one. No
status that a pass writes clears one of the status that it was computed from, so each is what is stored once
its patch is applied; and where that is so, the status that is handed back is the stored one. -/
theorem status_patches_replace {j : Json} {s : Option Status} (holds : Holds j s) :
    (∀ copy new, statusIn (j.mergePatch (statusPatch copy new)) = .ok (some new) ↔
      ¬ (s.getD {}).Clears new) ∧
    (∀ {settings : Settings} {fresh : Fresh} {t : Tenant} {tr : List (Moment Services Json)}
      {o : Except Error Action} {j' : Json}, (reconcile settings fresh t).Goes Keeping j tr o j' →
      ∀ m ∈ tr, ∀ copy new, m.query = .store (.replaceStatus copy new) →
        ¬ copy.recorded.Clears new ∧
          statusIn (m.before.mergePatch (statusPatch copy new)) = .ok (some new)) ∧
    ∀ {t : Tenant} {change : Status → Status} {tr : List (Moment Services Json)} {new : Status} {j' : Json},
      (updateStatus t change).Goes Keeping j tr (.ok new) j' →
      (∀ m ∈ tr, ∀ copy written, m.query = .store (.replaceStatus copy written) →
        ¬ copy.recorded.Clears written) →
      statusIn j' = .ok (some new) := by
  refine ⟨statusIn_statusPatch_iff holds, ?_, fun goes fields => (holds_of_updateStatus goes holds fields).statusIn⟩
  intro settings fresh t tr o j' goes m hm copy new wrote
  obtain ⟨fields, replaces⟩ := fine_of_reconcile goes holds m hm
  exact ⟨fields copy new wrote, replaces copy new wrote⟩

/-- The latest copy where an object is stored. -/
def readServed (space name : String) (j : Json) : Except Error (Option Tenant) :=
  match Tenant.decode (.ofJson j) with
  | .ok t => .ok (some t)
  | .error _ => .error (gone space name)

/-- The answer to a call where patches of the status are applied as they come, and nothing else is there. -/
def served (c : Call) (j : Json) : Except Error c.Reply × Json :=
  match c with
  | .store (.get space name) => (readServed space name j, j)
  | .store (.replaceStatus copy s) => (.ok (), j.mergePatch (statusPatch copy s))
  | c => (.ok c.emptyReply, j)

theorem served_of_other {c : Call} (unread : ∀ space name, c ≠ .store (.get space name))
    (unwritten : ∀ copy s, c ≠ .store (.replaceStatus copy s)) (j : Json) :
    served c j = (.ok c.emptyReply, j) := by
  unfold served
  split
  · next space name => exact absurd rfl (unread space name)
  · next copy s => exact absurd rfl (unwritten copy s)
  · rfl

theorem keeping_served (c : Call) {j : Json} (object : ∃ ms, j = .object ms) :
    Keeping c j (served c j).1 (served c j).2 ∧ ∃ ms, (served c j).2 = .object ms := by
  obtain ⟨ms, rfl⟩ := object
  by_cases read : ∃ space name, c = .store (.get space name)
  · obtain ⟨space, name, rfl⟩ := read
    refine ⟨?_, ms, rfl⟩
    show Keeping (.store (.get space name)) (.object ms) (readServed space name (.object ms)) (.object ms)
    unfold readServed
    split
    · next said => exact .read rfl said
    · exact .unread rfl fun copy he => nomatch he
  by_cases written : ∃ copy s, c = .store (.replaceStatus copy s)
  · obtain ⟨copy, s, rfl⟩ := written
    have patched : ∃ ms', (Json.object ms).mergePatch (statusPatch copy s) = .object ms' :=
      ⟨_, by rw [statusPatch, Json.ofMembers, Json.mergePatch]⟩
    refine ⟨?_, patched⟩
    show Keeping (.store (.replaceStatus copy s)) (.object ms) (.ok ())
      ((Json.object ms).mergePatch (statusPatch copy s))
    exact .applied (by rw [SameStatus])
  · have unread : ∀ space name, c ≠ .store (.get space name) := fun space name he => read ⟨space, name, he⟩
    have unwritten : ∀ copy s, c ≠ .store (.replaceStatus copy s) := fun copy s he => written ⟨copy, s, he⟩
    rw [served_of_other unread unwritten]
    exact ⟨.elsewhere rfl unread unwritten, ms, rfl⟩

/-- A tenant that wanted a domain once and wants none any more. -/
def unkeyed : Tenant :=
  { Rehearsal.Stage.newTenant { name := "blue" } with
    status := some {
      phase := some .deployed
      uuid := some "1"
      children := ["blue-a"]
      keys := { domain := some "cray-tenant-1", keyName := some "key1", keyType := some "rsa-3072" }
      lastDeployed := some "now" } }

theorem status_patches_replace_of_unkeyed :
    let pass := (reconcile {} ⟨"2", "later"⟩ unkeyed).run
    let mark := (updateStatus unkeyed (deployingStatus ⟨"2", "later"⟩)).run
    ((pass.run served unkeyed.toJson).1 = .ok .await ∧
      statusIn (pass.run served unkeyed.toJson).2 = .ok (some {
        phase := some .deployed
        uuid := some "1"
        keys := { domain := some "cray-tenant-1", keyName := some "key1", keyType := some "rsa-3072" }
        lastDeployed := some "later" }) ∧
      ∀ m ∈ pass.story served id unkeyed.toJson, KeepsFields m) ∧
    statusIn (mark.run served unkeyed.toJson).2 =
      .ok (some (deployingStatus ⟨"2", "later"⟩ unkeyed.recorded)) := by
  have replace := status_patches_replace (j := unkeyed.toJson) (s := unkeyed.status) (by rfl)
  have goes {α : Type} (d : Dialogue Services α) : d.Goes Keeping (id unkeyed.toJson)
      (d.story served id unkeyed.toJson) (d.run served unkeyed.toJson).1 (id (d.run served unkeyed.toJson).2) :=
    Dialogue.goes_run (fun c _ => keeping_served c) d ⟨_, rfl⟩
  refine ⟨⟨by decide +kernel, by decide +kernel, ?_⟩, ?_⟩
  · intro m hm copy new wrote
    exact (replace.2.1 (goes _) m hm copy new wrote).1
  · have marked := goes (updateStatus unkeyed (deployingStatus ⟨"2", "later"⟩)).run
    have outcome : ((updateStatus unkeyed (deployingStatus ⟨"2", "later"⟩)).run.run served unkeyed.toJson).1 =
        .ok (deployingStatus ⟨"2", "later"⟩ unkeyed.recorded) := by decide +kernel
    rw [outcome] at marked
    refine replace.2.2 marked fun m hm => ?_
    exact ((updateStatus_fine (P := fun _ => True) (fun s _ => ⟨not_clears_deployingStatus _ s, trivial⟩)
      marked ⟨unkeyed.status, by rfl, trivial⟩).1 m hm).1

end Lifecycle

end Tenancy

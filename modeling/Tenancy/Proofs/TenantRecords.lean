import Tenancy.IdentityGroup
import Tenancy.Proofs.Records
import Tenancy.Tenant.Codec

/-!
# The records of tenants, hooks and groups

For each record the entries that are written for it, with the values of those that may be left out. From
them it follows that nothing is lost when it is printed and read (`records_lossless`). The keys of a spec
and those of a status stand under one key, but what they are taken to be when they are left out differs:
a spec asks for the usual key, a status has none.
-/

namespace Tenancy

open Reading
open Record (Entry Lossless Spells printed)

theorem Phase.readsBack_decode : ReadsBack Phase.decode Phase.toJson :=
  readsBack_choice fun _ => ofName?_eq_some_iff.2 rfl

theorem Event.readsBack_decode : ReadsBack Event.decode Event.toJson :=
  readsBack_choice fun _ => ofName?_eq_some_iff.2 rfl

theorem readsBack_texts : ReadsBack (list text) Json.strings := readsBack_list readsBack_text

/-! ## Hooks -/

namespace SecretRef

def entries : List (Entry SecretRef) :=
  [.required "secretname" .string name, .required "secretnamespace" .string space]

theorem lossless : Lossless decode toJson entries := by
  have spells : Spells record entries id :=
    (Spells.const SecretRef.mk).required "secretname" name readsBack_text
      |>.required "secretnamespace" space readsBack_text
  refine spells.lossless (by decide) (fun _ => rfl) ?_
  simp only [entries, List.forall_mem_cons]
  exact ⟨nofun, nofun, nofun⟩

end SecretRef

namespace Hook

def entries : List (Entry Hook) :=
  [.required "name" .string name, .required "url" .string url,
    .default "eventtypes" (fun es => .array (es.map Event.toJson)) events [],
    .default "blockingcall" .bool blocking false,
    .optional "hookcredentials" SecretRef.toJson credentials]

theorem lossless : Lossless decode toJson entries := by
  have spells : Spells record entries id :=
    (Spells.const Hook.mk).required "name" name readsBack_text
      |>.required "url" url readsBack_text
      |>.default "eventtypes" events [] (readsBack_list Event.readsBack_decode)
      |>.default "blockingcall" blocking false readsBack_boolean
      |>.optional "hookcredentials" credentials SecretRef.lossless.printed nofun
  refine spells.lossless (by decide) ?_ ?_
  · rintro ⟨_, _, _, _, _ | _⟩ <;> rfl
  · simp only [entries, List.forall_mem_cons]
    exact ⟨nofun, nofun, nofun, nofun, Entry.usual_of_null nofun, nofun⟩

end Hook

/-! ## Groups -/

namespace IdentityGroup

def entries : List (Entry IdentityGroup) :=
  [.optional "id" .string id, .required "name" .string name, .default "path" .string path ""]

theorem lossless : Lossless decode toJson entries := by
  have spells : Spells record entries fun g => g :=
    (Spells.const IdentityGroup.mk).optional "id" id readsBack_text nofun
      |>.required "name" name readsBack_text
      |>.default "path" path "" readsBack_text
  refine spells.lossless (by decide) ?_ ?_
  · rintro ⟨_ | _, _, _⟩ <;> rfl
  · simp only [entries, List.forall_mem_cons]
    exact ⟨Entry.usual_of_null nofun, nofun, nofun, nofun⟩

end IdentityGroup

/-! ## Hardware and keys -/

namespace Resource

def entries : List (Entry Resource) :=
  [.required "type" .string label, .default "xnames" Json.strings members [],
    .optional "hsmpartitionname" .string partition, .optional "hsmgrouplabel" .string group,
    .default "enforceexclusivehsmgroups" .bool exclusive false]

theorem lossless : Lossless decode toJson entries := by
  have spells : Spells record entries id :=
    (Spells.const Resource.mk).required "type" label readsBack_text
      |>.default "xnames" members [] readsBack_texts
      |>.optional "hsmpartitionname" partition readsBack_text nofun
      |>.optional "hsmgrouplabel" group readsBack_text nofun
      |>.default "enforceexclusivehsmgroups" exclusive false readsBack_boolean
  refine spells.lossless (by decide) ?_ ?_
  · rintro ⟨_, _, _ | _, _ | _, _⟩ <;> rfl
  · simp only [entries, List.forall_mem_cons]
    exact ⟨nofun, nofun, Entry.usual_of_null nofun, Entry.usual_of_null nofun, nofun, nofun⟩

end Resource

namespace KeySettings

def entries : List (Entry KeySettings) :=
  [.default "enablekms" .bool enabled false, .default "keyname" .string keyName "key1",
    .default "keytype" .string keyType "rsa-3072"]

theorem lossless : Lossless decode toJson entries := by
  have spells : Spells record entries id :=
    (Spells.const KeySettings.mk).default "enablekms" enabled false readsBack_boolean
      |>.default "keyname" keyName "key1" readsBack_text
      |>.default "keytype" keyType "rsa-3072" readsBack_text
  refine spells.lossless (by decide) (fun _ => rfl) ?_
  simp only [entries, List.forall_mem_cons]
  exact ⟨nofun, nofun, nofun, nofun⟩

end KeySettings

namespace KeyRecord

def entries : List (Entry KeyRecord) :=
  [.optional "transitname" .string domain, .optional "keyname" .string keyName,
    .optional "keytype" .string keyType, .optional "publickey" .string publicKey]

theorem spells : Spells record entries id :=
  (Spells.const KeyRecord.mk).optional "transitname" domain readsBack_text nofun
    |>.optional "keyname" keyName readsBack_text nofun
    |>.optional "keytype" keyType readsBack_text nofun
    |>.optional "publickey" publicKey readsBack_text nofun

theorem toJson_eq_printed (x : KeyRecord) : x.toJson = printed entries x := by
  rcases x with ⟨_ | _, _ | _, _ | _, _ | _⟩ <;> rfl

theorem nodup_entries : (entries.map (·.key)).Nodup := by decide

theorem lossless : Lossless decode toJson entries := by
  refine spells.lossless nodup_entries toJson_eq_printed ?_
  simp only [entries, List.forall_mem_cons]
  exact ⟨Entry.usual_of_null nofun, Entry.usual_of_null nofun, Entry.usual_of_null nofun,
    Entry.usual_of_null nofun, nofun⟩

end KeyRecord

/-! ## Tenants -/

theorem readsBack_resources : ReadsBack (list Resource.decode) fun rs => .array (rs.map Resource.toJson) :=
  readsBack_list Resource.lossless.printed

theorem readsBack_hooks : ReadsBack (list Hook.decode) fun hs => .array (hs.map Hook.toJson) :=
  readsBack_list Hook.lossless.printed

namespace Spec

def entries : List (Entry Spec) :=
  [.required "tenantname" .string name, .default "childnamespaces" Json.strings children [],
    .default "tenantresources" (fun rs => .array (rs.map Resource.toJson)) resources [],
    .default "tenantkms" KeySettings.toJson keys { enabled := false, keyName := "key1", keyType := "rsa-3072" },
    .default "tenanthooks" (fun hs => .array (hs.map Hook.toJson)) hooks [],
    .default "requiresvaultkeyupdate" .bool requiresKeyUpdate false]

theorem lossless : Lossless decode toJson entries := by
  have spells : Spells record entries id :=
    (Spells.const Spec.mk).required "tenantname" name readsBack_text
      |>.default "childnamespaces" children [] readsBack_texts
      |>.default "tenantresources" resources [] readsBack_resources
      |>.default "tenantkms" keys {} KeySettings.lossless.printed
      |>.default "tenanthooks" hooks [] readsBack_hooks
      |>.default "requiresvaultkeyupdate" requiresKeyUpdate false readsBack_boolean
  refine spells.lossless (by decide) (fun _ => rfl) ?_
  simp only [entries, List.forall_mem_cons]
  exact ⟨nofun, nofun, nofun, nofun, nofun, nofun, nofun⟩

end Spec

namespace Status

def entries : List (Entry Status) :=
  [.optional "state" Phase.toJson phase, .optional "uuid" .string uuid,
    .default "childnamespaces" Json.strings children [],
    .default "tenantresources" (fun rs => .array (rs.map Resource.toJson)) resources [],
    .default "tenanthooks" (fun hs => .array (hs.map Hook.toJson)) hooks [],
    .default "tenantkms" KeyRecord.toJson keys
      { domain := none, keyName := none, keyType := none, publicKey := none },
    .optional "lastdeployed" .string lastDeployed]

theorem spells : Spells record entries id :=
  (Spells.const Status.mk).optional "state" phase Phase.readsBack_decode nofun
    |>.optional "uuid" uuid readsBack_text nofun
    |>.default "childnamespaces" children [] readsBack_texts
    |>.default "tenantresources" resources [] readsBack_resources
    |>.default "tenanthooks" hooks [] readsBack_hooks
    |>.default "tenantkms" keys {} KeyRecord.lossless.printed
    |>.optional "lastdeployed" lastDeployed readsBack_text nofun

theorem toJson_eq_printed (x : Status) : x.toJson = printed entries x := by
  rcases x with ⟨_ | _, _ | _, _, _, _, _, _ | _⟩ <;> rfl

theorem nodup_entries : (entries.map (·.key)).Nodup := by decide

theorem lossless : Lossless decode toJson entries := by
  refine spells.lossless nodup_entries toJson_eq_printed ?_
  simp only [entries, List.forall_mem_cons]
  exact ⟨Entry.usual_of_null nofun, Entry.usual_of_null nofun, fun _ => nofun, fun _ => nofun, fun _ => nofun,
    fun _ => nofun, Entry.usual_of_null nofun, List.forall_mem_nil _⟩

end Status

namespace Tenant

/-- The parts of a tenant are decoded from the members of an object. -/
theorem decode_object {ms : List (String × Json)} {t : Tenant} (h : decode (.ofJson (.object ms)) = .ok t) :
    (∃ j, Dict.get? ms "spec" = some j ∧ Spec.decode (.ofJson j) = .ok t.spec) ∧
      ((∃ j, Dict.get? ms "status" = some j ∧ nullable Status.decode (.ofJson j) = .ok t.status) ∨
        Dict.get? ms "status" = none ∧ t.status = none) := by
  obtain ⟨_, _, built⟩ := Record.decode_object_iff.1 h
  obtain ⟨_, status, built₂, last, rfl⟩ := Record.build_also_eq_ok.1 built
  obtain ⟨_, spec, built₁, middle, rfl⟩ := Record.build_also_eq_ok.1 built₂
  obtain ⟨_, metadata, built₀, _, rfl⟩ := Record.build_also_eq_ok.1 built₁
  cases built₀
  constructor
  · rcases Record.build_field_object middle with ⟨_, found, read⟩ | ⟨_, none⟩
    · obtain ⟨j, there, rfl⟩ := Option.map_eq_some_iff.1 found
      exact ⟨j, there, read⟩
    · cases none
  · rcases Record.build_field_object last with ⟨_, found, read⟩ | ⟨missing, none⟩
    · obtain ⟨j, there, rfl⟩ := Option.map_eq_some_iff.1 found
      exact .inl ⟨j, there, read⟩
    · exact .inr ⟨Option.map_eq_none_iff.1 missing, (Option.some.inj none).symm⟩

end Tenant

/-- Nothing that is kept of tenants, hooks and groups is lost when it is written and read. -/
theorem records_lossless :
    Lossless Spec.decode Spec.toJson Spec.entries ∧
    Lossless Resource.decode Resource.toJson Resource.entries ∧
    Lossless KeySettings.decode KeySettings.toJson KeySettings.entries ∧
    Lossless KeyRecord.decode KeyRecord.toJson KeyRecord.entries ∧
    Lossless Hook.decode Hook.toJson Hook.entries ∧
    Lossless SecretRef.decode SecretRef.toJson SecretRef.entries ∧
    Lossless Status.decode Status.toJson Status.entries ∧
    Lossless IdentityGroup.decode IdentityGroup.toJson IdentityGroup.entries :=
  ⟨Spec.lossless, Resource.lossless, KeySettings.lossless, KeyRecord.lossless, Hook.lossless,
    SecretRef.lossless, Status.lossless, IdentityGroup.lossless⟩

end Tenancy

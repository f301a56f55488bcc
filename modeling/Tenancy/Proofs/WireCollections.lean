import Tenancy.Proofs.HardwareRequests
import Tenancy.Proofs.PrintedTexts
import Tenancy.Proofs.TenantRecords

/-!
# Collections as they travel

A collection is sent in one of two shapes, and read from either. Its name stands under one key for a partition
and under another for a group, and a partition has no place for a marker. All else is written for both in the
same way, so what comes back is the collection as its kind can carry it (`Collection.carried`).

* `WireCollection.lossless`: nothing is lost between a collection that travels and its JSON.
* `WireCollection.decode_of_describes`: neither the order of the members nor unknown ones matter to the reader.
* `Backend.Hardware.reading_get`, `Backend.Hardware.reading_listGroups`: what is read of what the service holds.
-/

namespace Tenancy

open Reading (ReadsBack)
open Record (Entry Lossless Spells printed)

/-! ## Records without numbers -/

theorem Record.numberFree_printed {α : Type} {entries : List (Entry α)} {x : α}
    (once : (entries.map (·.key)).Nodup) (free : ∀ e ∈ entries, (e.print x).NumberFree) :
    (printed entries x).NumberFree := by
  rw [printed, Json.ofMembers, Json.NumberFree, Json.membersNumberFree_iff]
  intro m hm
  have written := (Record.printed_perm once x).mem_iff.1 hm
  obtain ⟨e, he, hme⟩ := Record.mem_writtenMembers.1 written
  rw [(Entry.member?_eq_some hme).2]
  exact free e he

/-- A collection as its kind can carry it: partitions have no marker, and an empty one is none. -/
def Collection.carried (k : Kind) (x : Collection) : Collection :=
  { x with marker := if k = .partition ∨ x.marker = some "" then none else x.marker }

/-- The marker that makes a group exclusive is carried. -/
theorem Collection.isTenantExclusive_carried (x : Collection) :
    (carried .group x).isTenantExclusive = x.isTenantExclusive := by
  by_cases h : x.marker = some ""
  · rw [isTenantExclusive, isTenantExclusive, carried, if_pos (.inr h), h]
    rfl
  · rw [carried, if_neg (by simp [h])]

namespace WireCollection

/-! ## The record of a collection -/

def printMembers (ids : List String) : Json := Json.ofMembers [("ids", Json.strings ids)]

theorem readsBack_members : ReadsBack membersRecord.decode printMembers := by
  have spells : Spells membersRecord [.default "ids" Json.strings id []] id :=
    (Spells.const id).default "ids" id [] readsBack_texts
  refine (spells.lossless (by decide) (fun _ => rfl) ?_).printed
  rw [List.forall_mem_singleton]
  intro _ null
  cases null

def entries : List (Entry WireCollection) :=
  [.optional "name" .string name, .optional "label" .string label, .default "description" .string description "",
    .default "tags" Json.strings tags [], .default "members" printMembers members [],
    .optional "exclusiveGroup" .string marker]

theorem nodup_entries : (entries.map (·.key)).Nodup := by decide

theorem toJson_eq_printed (w : WireCollection) : w.toJson = printed entries w := by
  rcases w with ⟨_ | _, _ | _, _, _, _, _ | _⟩ <;> rfl

/-- Nothing is lost between a collection that travels and its JSON. -/
theorem lossless : Lossless decode toJson entries := by
  have some_ne (s : String) : Json.string s ≠ .null := by
    intro h
    cases h
  have spells : Spells record entries id :=
    (Spells.const WireCollection.mk).optional "name" name Reading.readsBack_text some_ne
      |>.optional "label" label Reading.readsBack_text some_ne
      |>.default "description" description "" Reading.readsBack_text
      |>.default "tags" tags [] readsBack_texts
      |>.default "members" members [] readsBack_members
      |>.optional "exclusiveGroup" marker Reading.readsBack_text some_ne
  refine spells.lossless nodup_entries toJson_eq_printed ?_
  simp only [entries, List.forall_mem_cons]
  exact ⟨Entry.usual_of_null some_ne, Entry.usual_of_null some_ne, nofun, nofun, nofun, Entry.usual_of_null some_ne,
    List.forall_mem_nil _⟩

theorem numberFree_toJson (w : WireCollection) : w.toJson.NumberFree := by
  have optional (o : Option String) : ((o.map Json.string).getD .null).NumberFree := by
    cases o <;> trivial
  have members : (printMembers w.members).NumberFree := ⟨Json.numberFree_strings w.members, trivial⟩
  rw [toJson_eq_printed]
  refine Record.numberFree_printed nodup_entries ?_
  simp only [entries, List.forall_mem_cons]
  exact ⟨optional _, optional _, trivial, Json.numberFree_strings _, members, optional _, List.forall_mem_nil _⟩

/-! ## Kinds -/

variable {k : Kind} {x : Collection} {j : Json}

theorem collection_ofCollection (k : Kind) (x : Collection) : (ofCollection k x).collection = x.carried k := by
  cases k with
  | partition => rfl
  | group =>
    cases hm : x.marker with
    | none => simp [collection, ofCollection, Collection.carried, hm]
    | some m => by_cases empty : m = "" <;> simp [collection, ofCollection, Collection.carried, hm, empty]

/-- Partitions have no label and no marker. -/
theorem keys_partition {key : String} (h : key = "label" ∨ key = "exclusiveGroup") :
    key ∉ (ofCollection .partition x).toJson.members.map (·.1) := by
  refine Dict.notMem_ofList.2 ?_
  rcases h with rfl | rfl <;> simp [ofCollection, Json.memberOf]

/-- Groups have no name. -/
theorem keys_group : "name" ∉ (ofCollection .group x).toJson.members.map (·.1) := by
  refine Dict.notMem_ofList.2 ?_
  cases hm : x.marker <;> simp [ofCollection, Json.memberOf, hm]

/-! ## What a service answers with -/

/-- The value describes a collection: its members are those that are written for it, in any order, and others
under keys of their own. -/
def Describes (k : Kind) (x : Collection) (j : Json) : Prop :=
  ∃ ms extra, j = .object ms ∧ (∀ m ∈ extra, m.1 ∉ entries.map (·.key)) ∧
    ms.Perm ((ofCollection k x).toJson.members ++ extra)

/-- The text is an array that describes groups, one after another. -/
def DescribesGroups (xs : List Collection) (text : String) : Prop :=
  ∃ js, Reading.ofText text = (.ofJson (.array js), true) ∧ List.Forall₂ (Describes .group) xs js

theorem describes_toJson (k : Kind) (x : Collection) : Describes k x (ofCollection k x).toJson := by
  refine ⟨_, [], rfl, List.forall_mem_nil _, ?_⟩
  rw [List.append_nil]
  exact .refl _

/-- Neither the order of the members nor unknown ones matter. -/
theorem decode_of_describes (h : Describes k x j) : decode (.ofJson j) = .ok (ofCollection k x) := by
  obtain ⟨ms, extra, rfl, unknown, same⟩ := h
  exact (lossless.rearranged unknown same _).2 (lossless.printed (ofCollection k x))

theorem list_of_describes {xs : List Collection} {js : List Json} (h : List.Forall₂ (Describes .group) xs js) :
    Reading.list decode (.ofJson (.array js)) = .ok (xs.map (ofCollection .group)) :=
  Reading.list_of_forall₂ (h.imp fun _ _ => decode_of_describes)

/-- The groups as they were sent, one after another. -/
theorem describesGroups_compact (xs : List Collection) :
    DescribesGroups xs (Json.array (xs.map fun x => (ofCollection .group x).toJson)).compact := by
  refine ⟨_, Reading.ofText_compact ?_, ?_⟩
  · rw [Json.NumberFree, Json.itemsNumberFree_iff]
    intro j hj
    obtain ⟨x, _, rfl⟩ := List.mem_map.1 hj
    exact numberFree_toJson _
  · rw [List.forall₂_map_right_iff, List.forall₂_same]
    exact fun x _ => describes_toJson .group x

end WireCollection

namespace Backend.Hardware

open WireCollection (Describes DescribesGroups ofCollection)

variable {c : Rest.Client}

theorem readFrom_success {α : Type} {decode : Reading.Decoder α} {path : String} {r : Http.Reply} {a : α}
    (success : r.isSuccess = true) (read : Reading.decodeText decode r.body = .ok a) :
    readFrom c path decode (.ok r) = .ok (some a) := by
  have there : r.status ≠ 404 := by
    intro h
    rw [Http.Reply.isSuccess, h] at success
    exact absurd success (by decide)
  show c.found path decode r = _
  rw [Rest.Client.found, if_neg there, if_pos success, Rest.decodeBody, read]
  rfl

theorem reading_get {k : Kind} {n : String} {x : Collection} {j : Json} {r : Http.Reply}
    (success : r.isSuccess = true) (text : Reading.ofText r.body = (.ofJson j, true)) (told : Describes k x j) :
    reading c (.get k n) (.ok r) = .ok (some (x.carried k)) := by
  have read := Reading.decodeText_of_read text (WireCollection.decode_of_describes told)
  rw [reading, readFrom_success success read, ← WireCollection.collection_ofCollection]
  rfl

theorem reading_listGroups {xs : List Collection} {r : Http.Reply} (success : r.isSuccess = true)
    (told : DescribesGroups xs r.body) : reading c .listGroups (.ok r) = .ok (xs.map (Collection.carried .group)) := by
  obtain ⟨js, text, each⟩ := told
  have read := Reading.decodeText_of_read text (WireCollection.list_of_describes each)
  have back (xs : List Collection) :
      (xs.map (ofCollection .group)).map WireCollection.collection = xs.map (Collection.carried .group) := by
    rw [List.map_map]
    exact List.map_congr_left fun x _ => WireCollection.collection_ofCollection .group x
  rw [reading, readFrom_success success read, ← back]
  rfl

/-- What is sent for a collection is the text of an object. Read again, it is the collection as its kind carries
it: without a marker for a partition or if the marker is empty, else unchanged. The object of a partition has no
label and no marker, that of a group has no name. When the service answers with what it was sent, in whatever
order and with whatever else beside it, the same is read; of groups all are read, one after another, and exactly
those that were exclusive are. -/
theorem collections_carried (c : Rest.Client) :
    (∀ k x,
      Exchanges c (fun token => request c token (.create k x)) (reading c (.create k x)) (perform c (.create k x)) ∧
      ∃ text ms, (∀ token, (request c token (.create k x)).body = some text) ∧
        Reading.ofText text = (.ofJson (.object ms), true) ∧
        (∃ w, Reading.decodeText WireCollection.decode text = .ok w ∧ w.collection = x.carried k) ∧
        (k = .partition → "label" ∉ ms.map (·.1) ∧ "exclusiveGroup" ∉ ms.map (·.1)) ∧
        (k = .group → "name" ∉ ms.map (·.1))) ∧
    (∀ k n, Exchanges c (fun token => request c token (.get k n)) (reading c (.get k n)) (perform c (.get k n)) ∧
      ∀ x j (r : Http.Reply), r.isSuccess = true → Reading.ofText r.body = (.ofJson j, true) → Describes k x j →
        reading c (.get k n) (.ok r) = .ok (some (x.carried k))) ∧
    Exchanges c (fun token => request c token .listGroups) (reading c .listGroups) (perform c .listGroups) ∧
    (∀ xs (r : Http.Reply), r.isSuccess = true → DescribesGroups xs r.body →
      ∃ ys, reading c .listGroups (.ok r) = .ok ys ∧ ys = xs.map (Collection.carried .group) ∧
        List.Forall₂ (fun x y => y.isTenantExclusive = x.isTenantExclusive) xs ys) ∧
    ∀ xs, DescribesGroups xs (Json.array (xs.map fun x => (ofCollection .group x).toJson)).compact := by
  refine ⟨fun k x => ⟨exchanges_perform c _, ?_⟩, fun k n => ⟨exchanges_perform c _, ?_⟩, exchanges_perform c _, ?_,
    WireCollection.describesGroups_compact⟩
  · have text := Reading.ofText_compact (WireCollection.numberFree_toJson (ofCollection k x))
    refine ⟨(ofCollection k x).toJson.compact, (ofCollection k x).toJson.members, fun _ => rfl, text, ?_, ?_, ?_⟩
    · exact ⟨_, Reading.decodeText_of_read text (WireCollection.lossless.printed _),
        WireCollection.collection_ofCollection k x⟩
    · rintro rfl
      exact ⟨WireCollection.keys_partition (.inl rfl), WireCollection.keys_partition (.inr rfl)⟩
    · rintro rfl
      exact WireCollection.keys_group
  · intro x j r success text told
    exact reading_get success text told
  · intro xs r success told
    refine ⟨_, reading_listGroups success told, rfl, ?_⟩
    rw [List.forall₂_map_right_iff, List.forall₂_same]
    exact fun x _ => Collection.isTenantExclusive_carried x

/-- An exclusive group, and one with an empty marker. -/
def markedGroups : List Collection :=
  [{ name := "g-blue", tags := ["blue"], members := ["x1"], marker := some Collection.exclusiveMarker },
    { name := "g-red", marker := some "" }]

/-- Both groups are read, and the first one is exclusive still; as a partition it has no marker. -/
theorem collections_carried_of_markedGroups :
    reading gateway .listGroups
        (.ok ⟨200, (Json.array (markedGroups.map fun x => (ofCollection .group x).toJson)).compact, false⟩) =
      .ok [{ name := "g-blue", tags := ["blue"], members := ["x1"], marker := some Collection.exclusiveMarker },
        { name := "g-red" }] ∧
    ∀ x ∈ markedGroups, reading gateway (.get .partition x.name)
        (.ok ⟨200, (ofCollection .partition x).toJson.compact, false⟩) = .ok (some { x with marker := none }) := by
  obtain ⟨_, looked, _, listed, sent⟩ := collections_carried gateway
  constructor
  · obtain ⟨ys, read, rfl, _⟩ := listed markedGroups ⟨200, _, false⟩ rfl (sent markedGroups)
    exact read
  · intro x _
    exact (looked .partition x.name).2 x _ ⟨200, _, false⟩ rfl
      (Reading.ofText_compact (WireCollection.numberFree_toJson _)) (WireCollection.describes_toJson .partition x)

end Backend.Hardware

end Tenancy

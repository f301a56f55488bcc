import Mathlib.Data.List.Forall2
import Mathlib.Data.List.Nodup
import Mathlib.Data.List.Perm.Basic
import Tenancy.Json.MergePatch
import Tenancy.Json.Record

/-!
# Records that are read back

A record is printed part by part, and a `Part` says what is printed for it and when it may be left out.
`Spells` relates a record to its parts one by one, in the way the record is built of its fields, so that
of a record with new fields only the lines of those fields are new.

* `Record.decode_object_iff`: when an object decodes. Each known key is there at most once, each known
  member has its shape, and the fields make the value.
* `Record.decode_perm`: neither the order of the members nor members under unknown keys matter.
* `Spells.decode_object`: an object decodes if it has each part as it is printed, or leaves it out where
  that is the usual.
* `Spells.lossless`: what is printed decodes to what it was printed from, in all the forms in which it
  may be written.
-/

namespace Tenancy

variable {α β γ : Type}

/-! ## Members of an object -/

namespace Dict

theorem insert_perm {d : Dict α} {key : String} (value : α) (new : key ∉ d.map (·.1)) :
    (d.insert key value).Perm ((key, value) :: d) := by
  induction d with
  | nil => exact .refl _
  | cons p d ih =>
    obtain ⟨hne, hd⟩ : key ≠ p.1 ∧ key ∉ d.map (·.1) := by simpa using new
    rw [insert, if_neg hne]
    split
    · exact .refl _
    · exact ((ih hd).cons p).trans (.swap _ _ _)

theorem union_perm {d e : Dict α} (once : ((e ++ d).map (·.1)).Nodup) : (d.union e).Perm (e ++ d) := by
  induction e generalizing d with
  | nil => exact .refl _
  | cons p e ih =>
    obtain ⟨new, rest⟩ := List.nodup_cons.1 once
    have hd : p.1 ∉ d.map (·.1) := fun h => new (by simp_all)
    have inserted : (e ++ d.insert p.1 p.2).Perm (p :: (e ++ d)) :=
      ((insert_perm p.2 hd).append_left e).trans List.perm_middle
    exact (ih (((inserted.map _).nodup_iff).2 once)).trans inserted

theorem ofList_perm {pairs : List (String × α)} (once : (pairs.map (·.1)).Nodup) :
    (ofList pairs).Perm pairs := by
  have h : (union [] pairs).Perm (pairs ++ []) := union_perm (by rwa [List.append_nil])
  rw [List.append_nil] at h
  exact h

/-- A pair that is there is found, if no other has its key. -/
theorem get?_eq_some_iff {d : Dict α} {key : String} {value : α}
    (once : d.Pairwise fun p q => p.1 = q.1 → p.1 ≠ key) :
    d.get? key = some value ↔ (key, value) ∈ d := by
  induction d with
  | nil => simp
  | cons p d ih =>
    obtain ⟨first, rest⟩ := List.pairwise_cons.1 once
    rw [get?_cons, List.mem_cons]
    by_cases h : p.1 = key
    · have others (v : α) : (key, v) ∉ d := fun hm => first _ hm h h
      simp only [h, if_true, others, or_false, Option.some.injEq]
      constructor
      · rintro rfl
        exact Prod.ext h.symm rfl
      · rintro rfl
        rfl
    · rw [if_neg h, ih rest]
      exact (or_iff_right fun e => h (congrArg Prod.fst e).symm).symm

theorem get?_of_mem {d : Dict α} (once : (d.map (·.1)).Nodup) {p : String × α} (h : p ∈ d) :
    d.get? p.1 = some p.2 := by
  refine (get?_eq_some_iff ?_).2 h
  exact (List.pairwise_map.1 once).imp fun hne he => absurd he hne

end Dict

/-! ## Readings of values -/

namespace Reading

mutual

theorem isSound_ofJson : (j : Json) → (ofJson j).isSound = true
  | .null => rfl
  | .bool _ => rfl
  | .number _ => rfl
  | .string _ => rfl
  | .array items => by rw [ofJson, isSound, itemsSound_ofItems items, Bool.and_self]
  | .object members => by rw [ofJson, isSound, membersSound_ofMembers members, Bool.and_self]

theorem itemsSound_ofItems : (items : List Json) → itemsSound (ofItems items) = true
  | [] => rfl
  | j :: rest => by rw [ofItems, itemsSound, isSound_ofJson j, itemsSound_ofItems rest, Bool.and_self]

theorem membersSound_ofMembers : (members : List (String × Json)) → membersSound (ofMembers members) = true
  | [] => rfl
  | (_, j) :: rest => by
    rw [ofMembers, membersSound, isSound_ofJson j, membersSound_ofMembers rest, Bool.and_self]

end

theorem ignore_ofJson (j : Json) : ignore (ofJson j) = .ok () := by
  rw [ignore, isSound_ofJson, if_pos rfl]

theorem ofItems_eq_map (items : List Json) : ofItems items = items.map ofJson := by
  induction items with
  | nil => rfl
  | cons j rest ih => rw [ofItems, ih, List.map_cons]

/-- What is printed for a value decodes to it. -/
def ReadsBack (decode : Decoder α) (print : α → Json) : Prop := ∀ a, decode (ofJson (print a)) = .ok a

theorem readsBack_text : ReadsBack text .string := fun _ => rfl

theorem readsBack_boolean : ReadsBack boolean .bool := fun _ => rfl

theorem readsBack_choice {ofName? : String → Option α} {name : α → String}
    (h : ∀ a, ofName? (name a) = some a) : ReadsBack (choice ofName?) fun a => .string (name a) := by
  intro a
  simp only [ofJson, choice, h]

/-- The items of an array are decoded one after another. -/
theorem list_of_forall₂ {decode : Decoder β} {make : α → β} {xs : List α} {js : List Json}
    (each : List.Forall₂ (fun x j => decode (ofJson j) = .ok (make x)) xs js) :
    list decode (ofJson (.array js)) = .ok (xs.map make) := by
  have items : (ofItems js).mapM decode = .ok (xs.map make) := by
    induction each with
    | nil => rfl
    | cons first _ ih =>
      rw [ofItems, List.mapM_cons, first, ih]
      rfl
  rw [ofJson, list, items]
  rfl

theorem readsBack_list {decode : Decoder α} {print : α → Json} (h : ReadsBack decode print) :
    ReadsBack (list decode) fun xs => .array (xs.map print) := by
  intro xs
  have each : List.Forall₂ (fun x j => decode (ofJson j) = .ok (id x)) xs (xs.map print) := by
    rw [List.forall₂_map_right_iff, List.forall₂_same]
    exact fun x _ => h x
  rw [list_of_forall₂ each, List.map_id]

theorem readsBack_nullable {decode : Decoder α} {print : α → Json} (h : ReadsBack decode print)
    (some_ne : ∀ a, print a ≠ .null) : ReadsBack (nullable decode) fun o => (o.map print).getD .null := by
  rintro (_ | a)
  · rfl
  · have value : nullable decode (ofJson (print a)) = (decode (ofJson (print a))).map some := by
      rw [nullable.eq_2]
      intro e
      cases hp : print a with
      | null => exact some_ne a hp
      | _ => rw [hp] at e; cases e
    exact value.trans (by rw [h a]; rfl)

end Reading

/-! ## Values that are not null -/

namespace Json

/-- The value, unless it is null. -/
def present? : Json → Option Json
  | .null => none
  | j => some j

theorem present?_eq_none_iff {j : Json} : j.present? = none ↔ j = .null := by
  cases j <;> simp [present?]

theorem present?_eq_some {j j' : Json} (h : j.present? = some j') : j' = j := by
  cases j <;> cases h <;> rfl

end Json

/-! ## What a record decodes from -/

theorem Decoded.bind_eq_ok {x : Decoded α} {f : α → Decoded β} {b : β} :
    x >>= f = .ok b ↔ ∃ a, x = .ok a ∧ f a = .ok b := by
  cases x with
  | error e => exact ⟨nofun, fun ⟨_, h, _⟩ => nomatch h⟩
  | ok a => exact ⟨fun h => ⟨a, rfl, h⟩, fun ⟨_, rfl, h⟩ => h⟩

theorem Decoded.seq_eq_ok {x : Decoded Unit} {f : Unit → Decoded β} {b : β} :
    x >>= f = .ok b ↔ x = .ok () ∧ f () = .ok b :=
  bind_eq_ok.trans ⟨fun ⟨_, h⟩ => h, fun h => ⟨(), h⟩⟩

namespace Record

variable {r : Record α} {ms ms' : List (String × Json)}

def keys (r : Record α) : List String := r.fields.map (·.1)

theorem check?_eq_none_iff {key : String} : r.check? key = none ↔ key ∉ r.keys := by
  rw [check?, Option.map_eq_none_iff, List.find?_eq_none, keys, List.mem_map]
  simp only [decide_eq_true_eq, not_exists, not_and]

/-- No known key is there twice. -/
def Once (r : Record α) (ms : List (String × Json)) : Prop :=
  ms.Pairwise fun m m' => m.1 = m'.1 → m.1 ∉ r.keys

/-- Every known member has the shape of its field. -/
def Shaped (r : Record α) (ms : List (String × Json)) : Prop :=
  ∀ m ∈ ms, ∀ check, r.check? m.1 = some check → check (.ofJson m.2) = .ok ()

theorem lookup_ofMembers (ms : List (String × Json)) (name : String) :
    lookup (Reading.ofMembers ms) name = (Dict.get? ms name).map .ofJson := by
  induction ms with
  | nil => rfl
  | cons m ms ih =>
    obtain ⟨key, j⟩ := m
    rw [Dict.get?_cons, Reading.ofMembers]
    unfold lookup at ih ⊢
    by_cases h : key = name <;> simp [h, ih]

/-- The first member is checked with the keys before it in mind, the others with its key in mind as well. -/
theorem scan_cons_iff {seen : List String} {key : String} {j : Json} :
    r.scan Reading.ignore seen (Reading.ofMembers ((key, j) :: ms)) = .ok () ↔
      ((key ∈ seen → key ∉ r.keys) ∧ ∀ check, r.check? key = some check → check (.ofJson j) = .ok ()) ∧
        r.scan Reading.ignore (key :: seen) (Reading.ofMembers ms) = .ok () := by
  rw [Reading.ofMembers, scan, Reading.key, Decoded.bind_eq_ok]
  cases known : r.check? key with
  | none =>
    have unknown : key ∉ r.keys := check?_eq_none_iff.1 known
    simp [known, unknown, Reading.ignore_ofJson, Decoded.bind_eq_ok]
  | some check =>
    have field : key ∈ r.keys := by
      by_contra h
      rw [check?_eq_none_iff.2 h] at known
      cases known
    by_cases repeated : key ∈ seen
    · simp [known, field, repeated, Decoded.bind_eq_ok, throw, throwThe, MonadExceptOf.throw]
    · simp [known, repeated, Decoded.seq_eq_ok]

theorem once_cons {m : String × Json} :
    r.Once (m :: ms) ↔ (∀ m' ∈ ms, m.1 = m'.1 → m.1 ∉ r.keys) ∧ r.Once ms := List.pairwise_cons

/-- The members are checked one after another, with the keys that were there before in mind. -/
theorem scan_iff {seen : List String} :
    r.scan Reading.ignore seen (Reading.ofMembers ms) = .ok () ↔
      (∀ m ∈ ms, m.1 ∈ seen → m.1 ∉ r.keys) ∧ r.Once ms ∧ r.Shaped ms := by
  induction ms generalizing seen with
  | nil => simp [Reading.ofMembers, scan, Once, Shaped]
  | cons m ms ih =>
    rw [scan_cons_iff, ih, once_cons, Shaped, Shaped, List.forall_mem_cons, List.forall_mem_cons]
    have later : (∀ m' ∈ ms, m'.1 ∈ m.1 :: seen → m'.1 ∉ r.keys) ↔
        (∀ m' ∈ ms, m.1 = m'.1 → m.1 ∉ r.keys) ∧ ∀ m' ∈ ms, m'.1 ∈ seen → m'.1 ∉ r.keys := by
      grind
    rw [later]
    tauto

/-- An object decodes if each known key is there at most once, each known member has its shape, and the
fields make the value. -/
theorem decode_object_iff {x : α} : r.decode (.ofJson (.object ms)) = .ok x ↔
    r.Once ms ∧ r.Shaped ms ∧
      r.build .object (r.keys.map fun k => (Dict.get? ms k).map .ofJson) = .ok x := by
  have slots : (r.fields.map fun f => lookup (Reading.ofMembers ms) f.1) =
      r.keys.map fun k => (Dict.get? ms k).map .ofJson := by
    simp only [keys, List.map_map, Function.comp_def, lookup_ofMembers]
  rw [Reading.ofJson, decode, ofMembers, slots, Decoded.seq_eq_ok, scan_iff, Decoded.seq_eq_ok]
  simp [Reading.finish, and_assoc]

/-! ### The order of the members, and unknown ones -/

variable {extra : List (String × Json)}

theorem once_perm (unknown : ∀ m ∈ extra, m.1 ∉ r.keys) (same : ms'.Perm (ms ++ extra)) :
    r.Once ms' ↔ r.Once ms := by
  have symmetric {m m' : String × Json} (h : m.1 = m'.1 → m.1 ∉ r.keys) : m'.1 = m.1 → m'.1 ∉ r.keys :=
    fun e => e ▸ h e.symm
  rw [Once, same.pairwise_iff symmetric, List.pairwise_append]
  refine and_iff_left ⟨?_, fun m _ m' hm' e => e ▸ unknown m' hm'⟩
  exact List.pairwise_of_forall_mem_list fun m hm _ _ _ => unknown m hm

theorem shaped_perm (unknown : ∀ m ∈ extra, m.1 ∉ r.keys) (same : ms'.Perm (ms ++ extra)) :
    r.Shaped ms' ↔ r.Shaped ms := by
  have others : ∀ m ∈ extra, ∀ check, r.check? m.1 = some check → check (.ofJson m.2) = .ok () := by
    intro m hm check known
    rw [check?_eq_none_iff.2 (unknown m hm)] at known
    cases known
  simp only [Shaped, same.mem_iff, List.forall_mem_append]
  exact and_iff_left others

theorem get?_perm (unknown : ∀ m ∈ extra, m.1 ∉ r.keys) (same : ms'.Perm (ms ++ extra)) (once : r.Once ms)
    {key : String} (known : key ∈ r.keys) : Dict.get? ms' key = Dict.get? ms key := by
  have alone {ms : List (String × Json)} (h : r.Once ms) :
      ms.Pairwise fun m m' => m.1 = m'.1 → m.1 ≠ key := by
    refine List.Pairwise.imp (fun {m m'} hm e he => ?_) h
    exact hm e (he.symm ▸ known)
  refine Option.ext fun j => ?_
  rw [Dict.get?_eq_some_iff (alone once), Dict.get?_eq_some_iff (alone ((once_perm unknown same).2 once)),
    same.mem_iff, List.mem_append]
  exact or_iff_left fun h => unknown _ h known

/-- Neither the order of the members nor members under unknown keys matter. -/
theorem decode_perm (unknown : ∀ m ∈ extra, m.1 ∉ r.keys) (same : ms'.Perm (ms ++ extra)) {x : α} :
    r.decode (.ofJson (.object ms')) = .ok x ↔ r.decode (.ofJson (.object ms)) = .ok x := by
  rw [decode_object_iff, decode_object_iff, once_perm unknown same, shaped_perm unknown same]
  refine and_congr_right fun once => and_congr_right fun _ => ?_
  rw [List.map_congr_left fun key known => by rw [get?_perm unknown same once known]]

/-! ### The fields one by one -/

/-- A record with one more field is made of what is made without it and of that field. -/
theorem build_also_eq_ok {r : Record (α → β)} {f : Field α} {form : Form} {slots : List (Option Reading)}
    {y : β} : (r.also f).build form slots = .ok y ↔
      ∃ g a, r.build form (slots.take r.fields.length) = .ok g ∧
        (field f).build form (slots.drop r.fields.length) = .ok a ∧ g a = y := by
  show (do
    let g ← r.build form (slots.take r.fields.length)
    let a ← (field f).build form (slots.drop r.fields.length)
    pure (g a) : Decoded β) = .ok y ↔ _
  simp only [Decoded.bind_eq_ok, pure, Except.pure, Except.ok.injEq]
  grind

/-- The field of an object is decoded from the member under its key, or what it is without one. -/
theorem build_field_object {f : Field α} {slot : Option Reading} {a : α}
    (h : (field f).build .object [slot] = .ok a) :
    (∃ j, slot = some j ∧ f.decode j = .ok a) ∨ slot = none ∧ f.inObject = some a := by
  cases slot with
  | some j => exact .inl ⟨j, rfl, h⟩
  | none =>
    cases absent : f.inObject <;> simp [field, absent] at h
    exact .inr ⟨rfl, congrArg some h⟩

/-! ## Records entry by entry -/

/-- What is written for one part of a value, and where it may be left out. -/
structure Entry (α : Type) where
  key : String
  print : α → Json
  /-- The part is what it is taken to be where it is left out. -/
  usual : α → Prop

namespace Entry

/-- An entry that has to be there. -/
def required (key : String) (print : β → Json) (get : α → β) : Entry α :=
  ⟨key, fun x => print (get x), fun _ => False⟩

/-- An entry that may be left out where the part has this value. -/
def default (key : String) (print : β → Json) (get : α → β) (value : β) : Entry α :=
  ⟨key, fun x => print (get x), fun x => get x = value⟩

/-- An entry that is null, or left out, where there is no such part. -/
def optional (key : String) (print : β → Json) (get : α → Option β) : Entry α :=
  ⟨key, fun x => ((get x).map print).getD .null, fun x => get x = none⟩

theorem usual_of_null {key : String} {print : β → Json} {get : α → Option β} (some_ne : ∀ b, print b ≠ .null)
    (x : α) (h : (optional key print get).print x = .null) : (optional key print get).usual x := by
  show get x = none
  replace h : ((get x).map print).getD .null = .null := h
  cases hx : get x with
  | none => rfl
  | some b =>
    rw [hx] at h
    exact absurd h (some_ne b)

end Entry

/-- The entries stand under the keys of the fields, one after another, and have their shapes. -/
abbrev Matches (fields : List (String × (Reading → Decoded Unit))) (entries : List (Entry α)) : Prop :=
  List.Forall₂ (fun f e => f.1 = e.key ∧ ∀ x, f.2 (.ofJson (e.print x)) = .ok ()) fields entries

namespace Matches

variable {fields : List (String × (Reading → Decoded Unit))} {entries : List (Entry α)}

theorem keys_eq (h : Matches fields entries) : fields.map (·.1) = entries.map (·.key) := by
  induction h with
  | nil => rfl
  | cons first _ ih => rw [List.map_cons, List.map_cons, first.1, ih]

theorem exists_of_mem (h : Matches fields entries) {f : String × (Reading → Decoded Unit)}
    (hf : f ∈ fields) : ∃ e ∈ entries, f.1 = e.key ∧ ∀ x, f.2 (.ofJson (e.print x)) = .ok () := by
  induction h with
  | nil => cases hf
  | @cons f' e _ _ first _ ih =>
    rcases List.mem_cons.1 hf with rfl | later
    · exact ⟨e, List.mem_cons_self, first⟩
    · obtain ⟨e', he', rest⟩ := ih later
      exact ⟨e', List.mem_cons_of_mem _ he', rest⟩

theorem scanItems_eq_ok (h : Matches fields entries) (x : α) :
    Record.scanItems fields ((entries.map (·.print x)).map .ofJson) = .ok () := by
  induction h with
  | nil => rfl
  | cons first _ ih =>
    rw [List.map_cons, List.map_cons, Record.scanItems, first.2 x]
    exact ih

end Matches

/-- The entries are those of the fields of a record, and give back what `make` makes of the value that they
are written from. -/
structure Spells (r : Record β) (entries : List (Entry α)) (make : α → β) : Prop where
  fields : Matches r.fields entries
  build (x : α) (form : Form) {slots : List (Option Reading)}
    (h : List.Forall₂ (fun slot e => slot = some (.ofJson (e.print x)) ∨ slot = none ∧ e.usual x)
      slots entries) : r.build form slots = .ok (make x)

namespace Spells

open Reading (ReadsBack)

theorem const (b : β) : Spells (const b) ([] : List (Entry α)) fun _ => b :=
  ⟨.nil, fun _ _ _ _ => rfl⟩

variable {r : Record (β → γ)} {entries : List (Entry α)} {make : α → β → γ} {get : α → β}

theorem also (h : Spells r entries make) {f : Field β} {print : β → Json} {usual : α → Prop}
    (reads : ReadsBack f.decode print)
    (held : ∀ x, usual x → f.inObject = some (get x) ∧ f.inArray = some (get x)) :
    Spells (r.also f) (entries ++ [⟨f.key, fun x => print (get x), usual⟩]) fun x => make x (get x) where
  fields := by
    have shape (x : α) : (f.decode (.ofJson (print (get x)))).map (fun _ => ()) = .ok () := by
      rw [reads (get x)]
      rfl
    exact List.rel_append h.fields (.cons ⟨rfl, shape⟩ .nil)
  build x form slots hs := by
    have front := List.forall₂_take_append _ _ _ hs
    have back := List.forall₂_drop_append _ _ _ hs
    rw [← h.fields.length_eq] at front back
    have last : (Record.field f).build form (slots.drop r.fields.length) = .ok (get x) := by
      generalize slots.drop r.fields.length = rest at back
      cases back with
      | cons first none =>
        cases none
        rcases first with rfl | ⟨rfl, hx⟩
        · exact reads (get x)
        · obtain ⟨object, array⟩ := held x hx
          cases form <;> simp [Record.field, object, array]
    exact Record.build_also_eq_ok.2 ⟨_, _, h.build x form front, last, rfl⟩

theorem required (h : Spells r entries make) (key : String) (get : α → β) {decode : Reading.Decoder β}
    {print : β → Json} (reads : ReadsBack decode print) :
    Spells (r.also (.required key decode)) (entries ++ [.required key print get])
      fun x => make x (get x) :=
  h.also reads nofun

theorem default (h : Spells r entries make) (key : String) (get : α → β) (value : β)
    {decode : Reading.Decoder β} {print : β → Json} (reads : ReadsBack decode print) :
    Spells (r.also (.default key decode value)) (entries ++ [.default key print get value])
      fun x => make x (get x) :=
  h.also reads fun _ hx => ⟨congrArg some hx.symm, congrArg some hx.symm⟩

theorem optional {r : Record (Option β → γ)} {make : α → Option β → γ} (h : Spells r entries make)
    (key : String) (get : α → Option β) {decode : Reading.Decoder β} {print : β → Json}
    (reads : ReadsBack decode print) (some_ne : ∀ b, print b ≠ .null) :
    Spells (r.also (.optional key decode)) (entries ++ [.optional key print get])
      fun x => make x (get x) :=
  h.also (f := .optional key decode) (Reading.readsBack_nullable reads some_ne)
    fun _ hx => ⟨congrArg some hx.symm, congrArg some hx.symm⟩

end Spells

/-! ## What is written decodes -/

/-- The members have each entry as it is written for the value, or leave it out where that is the usual. -/
def Covers (entries : List (Entry α)) (x : α) (ms : List (String × Json)) : Prop :=
  (ms.map (·.1)).Nodup ∧ ∀ e ∈ entries,
    Dict.get? ms e.key = some (e.print x) ∨ Dict.get? ms e.key = none ∧ e.usual x

namespace Spells

variable {r : Record β} {entries : List (Entry α)} {make : α → β}

theorem check?_eq_some (h : Spells r entries make) {key : String} {check : Reading → Decoded Unit}
    (known : r.check? key = some check) :
    ∃ e ∈ entries, e.key = key ∧ ∀ x, check (.ofJson (e.print x)) = .ok () := by
  obtain ⟨f, found, rfl⟩ := Option.map_eq_some_iff.1 known
  have named : f.1 = key := by simpa using List.find?_some found
  obtain ⟨e, he, same, reads⟩ := h.fields.exists_of_mem (List.mem_of_find?_eq_some found)
  exact ⟨e, he, same.symm.trans named, reads⟩

/-- An object decodes if it has each entry as it is written, or leaves it out where that is the usual. -/
theorem decode_object (h : Spells r entries make) {x : α} {ms : List (String × Json)}
    (covers : Covers entries x ms) : r.decode (.ofJson (.object ms)) = .ok (make x) := by
  obtain ⟨once, each⟩ := covers
  refine Record.decode_object_iff.2 ⟨?_, ?_, ?_⟩
  · exact (List.pairwise_map.1 once).imp fun hne he => absurd he hne
  · intro m hm check known
    obtain ⟨e, he, key_eq, reads⟩ := h.check?_eq_some known
    have there : Dict.get? ms e.key = some m.2 := key_eq ▸ Dict.get?_of_mem once hm
    rcases each e he with said | ⟨left, _⟩
    · rw [Option.some.inj (there.symm.trans said)]
      exact reads x
    · cases left.symm.trans there
  · refine h.build x .object ?_
    rw [Record.keys, h.fields.keys_eq, List.map_map, List.forall₂_map_left_iff, List.forall₂_same]
    intro e he
    exact (each e he).imp (fun said => congrArg _ said) fun ⟨left, hx⟩ => ⟨congrArg _ left, hx⟩

/-- The array of all entries decodes. -/
theorem decode_array (h : Spells r entries make) (x : α) :
    r.decode (.ofJson (.array (entries.map (·.print x)))) = .ok (make x) := by
  rw [Reading.ofJson, Reading.ofItems_eq_map]
  generalize hitems : (entries.map (·.print x)).map Reading.ofJson = items
  have length : items.length = r.fields.length := by
    rw [← hitems, List.length_map, List.length_map, h.fields.length_eq]
  have built : r.build .array (items.map some) = .ok (make x) := by
    refine h.build x .array ?_
    rw [← hitems, List.map_map, List.map_map, List.forall₂_map_left_iff, List.forall₂_same]
    exact fun e _ => .inl rfl
  rw [Record.decode, ← hitems, h.fields.scanItems_eq_ok x, hitems, built]
  simp [length, Reading.finish, bind, Except.bind, pure, Except.pure]

end Spells

/-! ## Nothing is lost -/

/-- The member that is written for an entry, unless that is null. -/
def Entry.member? (e : Entry α) (x : α) : Option (String × Json) :=
  (e.print x).present?.map fun j => (e.key, j)

theorem Entry.member?_eq_some {e : Entry α} {x : α} {m : String × Json} (h : e.member? x = some m) :
    e.key = m.1 ∧ m.2 = e.print x := by
  obtain ⟨j, hj, rfl⟩ := Option.map_eq_some_iff.1 h
  exact ⟨rfl, Json.present?_eq_some hj⟩

theorem Entry.print_eq_null {e : Entry α} {x : α} (h : e.member? x = none) : e.print x = .null :=
  Json.present?_eq_none_iff.1 (Option.map_eq_none_iff.1 h)

/-- The members that are written for a value. -/
def writtenMembers (entries : List (Entry α)) (x : α) : List (String × Json) :=
  entries.filterMap (·.member? x)

section

variable {entries : List (Entry α)} {x : α}

theorem mem_writtenMembers {m : String × Json} :
    m ∈ writtenMembers entries x ↔ ∃ e ∈ entries, e.member? x = some m := List.mem_filterMap

theorem nodup_writtenMembers (once : (entries.map (·.key)).Nodup) :
    ((writtenMembers entries x).map (·.1)).Nodup := by
  rw [writtenMembers, List.map_filterMap]
  refine (List.pairwise_map.1 once).filterMap _ fun e e' hne key hkey key' hkey' => ?_
  obtain ⟨m, hm, rfl⟩ := Option.map_eq_some_iff.1 hkey
  obtain ⟨m', hm', rfl⟩ := Option.map_eq_some_iff.1 hkey'
  rw [← (Entry.member?_eq_some hm).1, ← (Entry.member?_eq_some hm').1]
  exact hne

def printed (entries : List (Entry α)) (x : α) : Json := Json.ofMembers (writtenMembers entries x)

theorem printed_perm (once : (entries.map (·.key)).Nodup) (x : α) :
    (printed entries x).members.Perm (writtenMembers entries x) :=
  Dict.ofList_perm (nodup_writtenMembers once)

theorem nodup_printed (once : (entries.map (·.key)).Nodup) (x : α) :
    ((printed entries x).members.map (·.1)).Nodup :=
  (((printed_perm once x).map _).nodup_iff).2 (nodup_writtenMembers once)

/-- Members cover the entries if each is that of some entry, and those without one are usual. -/
theorem covers_of_mem {ms : List (String × Json)} (once : (entries.map (·.key)).Nodup)
    (alone : (ms.map (·.1)).Nodup) (each : ∀ m ∈ ms, ∃ e ∈ entries, e.key = m.1 ∧ m.2 = e.print x)
    (rest : ∀ e ∈ entries, e.key ∉ ms.map (·.1) → e.usual x) : Covers entries x ms := by
  refine ⟨alone, fun e he => ?_⟩
  cases there : Dict.get? ms e.key with
  | none => exact .inr ⟨rfl, rest e he (Dict.get?_eq_none_iff.1 there)⟩
  | some j =>
    have unique : ms.Pairwise fun m m' => m.1 = m'.1 → m.1 ≠ e.key :=
      (List.pairwise_map.1 alone).imp fun hne he => absurd he hne
    obtain ⟨e', he', same, rfl⟩ := each _ ((Dict.get?_eq_some_iff unique).1 there)
    obtain rfl : e' = e := List.inj_on_of_nodup_map once he' he same
    exact .inl rfl

end

/-- A record can be written and read without loss, whether as an object or as an array. In an object the
order does not matter, unknown members are passed over, and entries may be left out where they are usual. -/
structure Lossless (decode : Reading.Decoder α) (toJson : α → Json) (entries : List (Entry α)) : Prop where
  /-- The printed object. -/
  printed (x : α) : decode (.ofJson (toJson x)) = .ok x
  /-- The array of all parts in their declared order. -/
  positional (x : α) : decode (.ofJson (.array (entries.map (·.print x)))) = .ok x
  /-- Any object with its members in another order, and with others among them. -/
  rearranged {ms ms' extra : List (String × Json)} (unknown : ∀ m ∈ extra, m.1 ∉ entries.map (·.key))
    (same : ms'.Perm (ms ++ extra)) (x : α) :
    decode (.ofJson (.object ms')) = .ok x ↔ decode (.ofJson (.object ms)) = .ok x
  /-- The printed object without entries that are usual. -/
  abridged (x : α) (omitted : List (Entry α)) (usual : ∀ e ∈ omitted, e ∈ entries ∧ e.usual x) :
    decode (.ofJson (.object ((toJson x).members.filter fun m => m.1 ∉ omitted.map (·.key)))) = .ok x
  /-- Whatever a value was decoded from. -/
  reprinted {j : Reading} {x : α} (read : decode j = .ok x) : decode (.ofJson (toJson x)) = .ok x

/-- A record that is spelt by the entries that are printed for it loses nothing. -/
theorem Spells.lossless {r : Record α} {toJson : α → Json} {entries : List (Entry α)}
    (h : Spells r entries id) (once : (entries.map (·.key)).Nodup)
    (prints : ∀ x, toJson x = printed entries x)
    (skipped : ∀ e ∈ entries, ∀ x, e.print x = .null → e.usual x) : Lossless r.decode toJson entries := by
  obtain rfl : toJson = printed entries := funext prints
  have abridged (x : α) (omitted : List (Entry α)) (usual : ∀ e ∈ omitted, e ∈ entries ∧ e.usual x) :
      r.decode (.ofJson (.object ((printed entries x).members.filter fun m =>
        m.1 ∉ omitted.map (·.key)))) = .ok x := by
    refine h.decode_object (covers_of_mem once ?_ ?_ ?_)
    · exact (List.filter_sublist.map _).nodup (nodup_printed once x)
    · intro m hm
      have written := (printed_perm once x).mem_iff.1 (List.mem_of_mem_filter hm)
      obtain ⟨e, he, hme⟩ := mem_writtenMembers.1 written
      exact ⟨e, he, Entry.member?_eq_some hme⟩
    · intro e he left
      by_cases out : e.key ∈ omitted.map (·.key)
      · obtain ⟨e', he', key_eq⟩ := List.mem_map.1 out
        obtain rfl : e' = e := List.inj_on_of_nodup_map once (usual e' he').1 he key_eq
        exact (usual e' he').2
      · -- an entry that is not left out on purpose is missing only if nothing is written for it
        cases hme : e.member? x with
        | none => exact skipped e he x (Entry.print_eq_null hme)
        | some m =>
          have key_eq := (Entry.member?_eq_some hme).1
          have there := (printed_perm once x).mem_iff.2 (mem_writtenMembers.2 ⟨e, he, hme⟩)
          have kept : m ∈ (printed entries x).members.filter fun m => m.1 ∉ omitted.map (·.key) :=
            List.mem_filter.2 ⟨there, decide_eq_true (key_eq ▸ out)⟩
          exact absurd (List.mem_map.2 ⟨m, kept, key_eq.symm⟩) left
  have printed_ok (x : α) : r.decode (.ofJson (printed entries x)) = .ok x := by
    simpa [printed, Json.ofMembers, Json.members] using abridged x [] nofun
  refine ⟨printed_ok, h.decode_array, fun unknown same x => ?_, abridged, fun {_ x} _ => printed_ok x⟩
  refine Record.decode_perm (fun m hm => ?_) same
  rw [Record.keys, h.fields.keys_eq]
  exact unknown m hm

end Record

end Tenancy

import Tenancy.Names
import Tenancy.Proofs.Records

/-!
# Merge patches of printed records

A merge patch that is a printed record leaves of the record it is applied to only the entries that it
does not have itself, those that are null in it. So the outcome is a printed record again:
`mergePatch_printed` says which, entry by entry. Objects are in the ascending order of their keys and stay
so, and of such objects two with the same members are equal (`Dict.ext_of_ascending`).
-/

namespace Tenancy

variable {α β : Type}

namespace Dict

/-- The keys are in ascending order, each once. -/
def Ascending (d : Dict α) : Prop := d.keys.Pairwise (· < ·)

theorem ascending_nil : Ascending ([] : Dict α) := .nil

theorem keys_insert (d : Dict α) (key : String) (value : α) :
    (d.insert key value).keys = Names.insert d.keys key := by
  induction d with
  | nil => rfl
  | cons p d ih =>
    obtain ⟨k, v⟩ := p
    rw [insert, show keys ((k, v) :: d) = k :: keys d from rfl, Names.insert]
    split
    · next h => rw [h]; rfl
    · split
      · rfl
      · exact congrArg _ ih

theorem Ascending.insert {d : Dict α} (h : d.Ascending) (key : String) (value : α) :
    (d.insert key value).Ascending := by
  rw [Ascending, keys_insert]
  exact Names.pairwise_insert h

theorem Ascending.erase {d : Dict α} (h : d.Ascending) (key : String) : (d.erase key).Ascending :=
  h.sublist (List.filter_sublist.map _)

theorem ascending_ofList (pairs : List (String × α)) : (ofList pairs).Ascending := by
  have from_dict (d : Dict α) (h : d.Ascending) : (d.union pairs).Ascending := by
    induction pairs generalizing d with
    | nil => exact h
    | cons p pairs ih => exact ih _ (h.insert p.1 p.2)
  exact from_dict [] ascending_nil

theorem mem_of_get? {d : Dict α} {key : String} {value : α} (h : d.get? key = some value) :
    (key, value) ∈ d := by
  obtain ⟨p, found, rfl⟩ := Option.map_eq_some_iff.1 h
  obtain rfl : p.1 = key := by simpa using List.find?_some found
  exact List.mem_of_find?_eq_some found

theorem mem_keys_iff {d : Dict α} {key : String} : key ∈ d.keys ↔ d.get? key ≠ none := by
  rw [ne_eq, get?_eq_none_iff, not_not, keys]

/-- Ascending dictionaries with the same values are equal. -/
theorem ext_of_ascending {d e : Dict α} (hd : d.Ascending) (he : e.Ascending)
    (h : ∀ key, d.get? key = e.get? key) : d = e := by
  have keys_eq : d.keys = e.keys :=
    Names.eq_of_mem_iff hd he fun key => by rw [mem_keys_iff, mem_keys_iff, h]
  induction d generalizing e with
  | nil => exact (List.map_eq_nil_iff.1 keys_eq.symm).symm
  | cons p d ih =>
    cases e with
    | nil => cases keys_eq
    | cons q e =>
      obtain ⟨k, v⟩ := p
      obtain ⟨k', v'⟩ := q
      obtain ⟨rfl, rest⟩ : k = k' ∧ keys d = keys e := List.cons.inj keys_eq
      obtain ⟨first, hd⟩ := List.pairwise_cons.1 hd
      obtain ⟨first', he⟩ := List.pairwise_cons.1 he
      have value : v = v' := by simpa [get?_cons] using h k
      have rest_eq : d = e := by
        refine ih hd he (fun key => ?_) rest
        by_cases hk : k = key
        · subst hk
          rw [get?_eq_none_iff.2 fun hm => absurd (first k hm) (String.lt_irrefl k),
            get?_eq_none_iff.2 fun hm => absurd (first' k hm) (String.lt_irrefl k)]
        · simpa [get?_cons, hk] using h key
      rw [value, rest_eq]

end Dict

namespace Json

theorem ascending_mergeMembers {d : Dict Json} (h : d.Ascending) (changes : List (String × Json)) :
    (mergeMembers d changes).Ascending := by
  induction changes generalizing d with
  | nil => rwa [mergeMembers]
  | cons p changes ih =>
    obtain ⟨key, change⟩ := p
    by_cases hnull : change = .null
    · subst hnull
      rw [mergeMembers]
      exact ih (h.erase key)
    · rw [mergeMembers_cons _ _ _ hnull]
      exact ih (h.insert key _)

/-- A value with another one on top: where there is none the value stays. -/
def overlay (old new : Json) : Json :=
  match new with
  | .null => old
  | new => old.mergePatch new

theorem overlay_null (old : Json) : old.overlay .null = old := rfl

theorem ne_null_of_present? {j j' : Json} (h : j.present? = some j') : j' ≠ .null := by
  rintro rfl
  cases j <;> cases h

theorem getD_present? (j : Json) : j.present?.getD .null = j := by cases j <;> rfl

theorem overlay_of_present {old new new' : Json} (h : new.present? = some new') :
    (old.overlay new).present? = some (old.mergePatch new') := by
  cases new <;> cases h <;> simp [overlay, present?, mergePatch]

/-- There is something, and it is no object. -/
def Flat (j : Json) : Prop := j ≠ .null ∧ ∀ ms, j ≠ .object ms

theorem flat_string (s : String) : Flat (.string s) := ⟨nofun, nofun⟩

theorem Flat.overlay_eq {new : Json} (flat : new.Flat) (old : Json) : old.overlay new = new := by
  cases new with
  | null => exact absurd rfl flat.1
  | object ms => exact absurd rfl (flat.2 ms)
  | _ => rfl

/-- What is on top counts, if there is anything. -/
theorem overlay_optional {print : β → Json} (flat : ∀ b, (print b).Flat) (old new : Option β) :
    ((new.or old).map print).getD .null = ((old.map print).getD .null).overlay ((new.map print).getD .null) := by
  cases new with
  | none => rfl
  | some b => exact ((flat b).overlay_eq _).symm

theorem null_overlay_optional {print : β → Json} (flat : ∀ b, (print b).Flat) (o : Option β) :
    (o.map print).getD .null = Json.null.overlay ((o.map print).getD .null) := by
  simpa using overlay_optional flat none o

end Json

namespace Record

variable {entries : List (Entry α)} {x y : α}

theorem get?_printed (once : (entries.map (·.key)).Nodup) {e : Entry α} (he : e ∈ entries) :
    (printed entries x).members.get? e.key = (e.print x).present? := by
  cases written : e.member? x with
  | none =>
    rw [Entry.print_eq_null written, Json.present?, Dict.get?_eq_none_iff]
    intro h
    obtain ⟨m, hm, hkey⟩ := List.mem_map.1 h
    obtain ⟨e', he', hm'⟩ := mem_writtenMembers.1 ((printed_perm once x).mem_iff.1 hm)
    have key_eq : e'.key = e.key := (Entry.member?_eq_some hm').1.trans hkey
    obtain rfl : e' = e := List.inj_on_of_nodup_map once he' he key_eq
    cases written.symm.trans hm'
  | some m =>
    have hm : m ∈ (printed entries x).members :=
      (printed_perm once x).mem_iff.2 (mem_writtenMembers.2 ⟨e, he, written⟩)
    obtain ⟨j, hj, rfl⟩ := Option.map_eq_some_iff.1 written
    rw [hj]
    exact Dict.get?_of_mem (nodup_printed once x) hm

theorem get?_printed_of_notMem (once : (entries.map (·.key)).Nodup) {key : String}
    (h : key ∉ entries.map (·.key)) : (printed entries x).members.get? key = none := by
  refine Dict.get?_eq_none_iff.2 fun hk => h ?_
  obtain ⟨m, hm, rfl⟩ := List.mem_map.1 hk
  obtain ⟨e, he, hme⟩ := mem_writtenMembers.1 ((printed_perm once x).mem_iff.1 hm)
  exact List.mem_map.2 ⟨e, he, (Entry.member?_eq_some hme).1⟩

/-- A patch that is printed for `x` makes what is printed for `y`, if in each entry `y` has what is there with
what `x` has on top. -/
theorem mergePatch_printed {target : Json} (old : Entry α → Json) (ascending : target.members.Ascending)
    (once : (entries.map (·.key)).Nodup)
    (there : ∀ e ∈ entries, target.members.get? e.key = (old e).present?)
    (others : ∀ key ∉ entries.map (·.key), target.members.get? key = none)
    (each : ∀ e ∈ entries, e.print y = (old e).overlay (e.print x)) :
    target.mergePatch (printed entries x) = printed entries y := by
  have merged (key : String) : (Json.mergeMembers target.members (printed entries x).members).get? key =
      (printed entries y).members.get? key := by
    by_cases known : key ∈ entries.map (·.key)
    · obtain ⟨e, he, rfl⟩ := List.mem_map.1 known
      rw [get?_printed once he, each e he]
      cases change : (e.print x).present? with
      | none =>
        have unnamed : (printed entries x).members.get? e.key = none := (get?_printed once he).trans change
        rw [Json.get?_mergeMembers_of_notMem (Dict.get?_eq_none_iff.1 unnamed), there e he,
          Json.present?_eq_none_iff.1 change, Json.overlay_null]
      | some j =>
        have named : (e.key, j) ∈ (printed entries x).members :=
          Dict.mem_of_get? ((get?_printed once he).trans change)
        rw [Json.get?_mergeMembers_of_mem (Json.ne_null_of_present? change) (nodup_printed once x) named,
          there e he, Json.getD_present?, Json.overlay_of_present change]
    · rw [Json.get?_mergeMembers_of_notMem, others key known, get?_printed_of_notMem once known]
      exact Dict.get?_eq_none_iff.1 (get?_printed_of_notMem once known)
  show Json.object (Json.mergeMembers target.members (Dict.ofList (writtenMembers entries x))) = _
  exact congrArg Json.object (Dict.ext_of_ascending (Json.ascending_mergeMembers ascending _)
    (Dict.ascending_ofList _) merged)

/-- A record on top of another one. -/
theorem mergePatch_printed_printed {z : α} (once : (entries.map (·.key)).Nodup)
    (each : ∀ e ∈ entries, e.print y = (e.print z).overlay (e.print x)) :
    (printed entries z).mergePatch (printed entries x) = printed entries y :=
  mergePatch_printed (·.print z) (Dict.ascending_ofList _) once (fun _ he => get?_printed once he)
    (fun _ hk => get?_printed_of_notMem once hk) each

/-- A record where there was nothing. -/
theorem null_mergePatch_printed (once : (entries.map (·.key)).Nodup)
    (each : ∀ e ∈ entries, e.print x = Json.null.overlay (e.print x)) :
    Json.null.mergePatch (printed entries x) = printed entries x :=
  mergePatch_printed (fun _ => .null) Dict.ascending_nil once (fun _ _ => rfl) (fun _ _ => rfl) each

end Record

end Tenancy

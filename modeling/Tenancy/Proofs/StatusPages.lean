import Mathlib.Data.List.Nodup
import Mathlib.Data.List.TakeWhile
import Tenancy.Proofs.Escapes
import Tenancy.StatusApi

/-!
# Pages that do not depend on the order of the catalog

The catalog holds the tenants in no certain order. A list of all of them is sorted first, so it is one page
for every order. A tenant is looked up by its name or by its identifier, and the first one found is shown. A
tenant that is named with the identifier of another one competes with it.

* `StatusApi.sorted_of_perm`: names that differ can be sorted in one way only.
* `StatusApi.forall_shown_eq_iff`: one page is shown for every order exactly when no two tenants compete.
* `StatusApi.asks_literal`: every name made of literal characters can be asked for.
-/

namespace Tenancy

theorem Json.get?_reverse_memberOf {α : Type} (key key' : String) (print : α → Json) (value : Option α) :
    Dict.get? (Json.memberOf key print value).reverse key' = if key = key' then value.map print else none := by
  cases value with
  | none => simp [Json.memberOf]
  | some a => simp [Json.memberOf, Dict.get?_cons]

theorem Metadata.anyName_eq_of_toJson {m m' : Metadata} (h : m.toJson = m'.toJson) : m.anyName = m'.anyName := by
  have first (m : Metadata) : m.toJson.member? "name" = m.name.map .string := by
    simp [toJson, Json.member?_ofMembers, Dict.get?_append, Json.get?_reverse_memberOf]
  have second (m : Metadata) : m.toJson.member? "generateName" = m.generateName.map .string := by
    simp [toJson, Json.member?_ofMembers, Dict.get?_append, Json.get?_reverse_memberOf]
  have injective : Function.Injective Json.string := fun a b same => Json.string.inj same
  have name : m.name = m'.name := Option.map_injective injective (by rw [← first, ← first, h])
  have generate : m.generateName = m'.generateName := Option.map_injective injective (by rw [← second, ← second, h])
  rw [anyName, anyName, name, generate]

/-- A printed tenant shows its name. -/
theorem Tenant.anyName_eq_of_toJson {t t' : Tenant} (h : t.toJson = t'.toJson) :
    t.metadata.anyName = t'.metadata.anyName := by
  have part (t : Tenant) : t.toJson.member? "metadata" = some t.metadata.toJson := by
    simp [toJson, Json.member?_ofMembers, Dict.get?_append, Dict.get?_cons, Json.get?_reverse_memberOf]
  refine Metadata.anyName_eq_of_toJson (Option.some.inj ?_)
  rw [← part, ← part, h]

namespace StatusApi

open Http (Incoming Served)

/-! ## Catalogs -/

/-- No two tenants have one name, and no two have one identifier. -/
structure Distinct (catalog : List Tenant) : Prop where
  names : (catalog.map (·.metadata.anyName)).Nodup
  ids : (catalog.filterMap Tenant.uuid).Nodup

/-- A tenant is named with the identifier of another one. -/
def Shadowed (catalog : List Tenant) (id : String) : Prop :=
  ∃ t ∈ catalog, ∃ t' ∈ catalog, t.metadata.anyName = id ∧ t'.uuid = some id ∧ t ≠ t'

variable {catalog catalog' : List Tenant} {t t' : Tenant} {id : String} {r : Incoming}

namespace Distinct

theorem perm (h : Distinct catalog) (same : catalog'.Perm catalog) : Distinct catalog' :=
  ⟨(same.map _).nodup_iff.2 h.names, (same.filterMap _).nodup_iff.2 h.ids⟩

theorem eq_of_name (h : Distinct catalog) (ht : t ∈ catalog) (ht' : t' ∈ catalog)
    (same : t.metadata.anyName = t'.metadata.anyName) : t = t' :=
  List.inj_on_of_nodup_map h.names ht ht' same

theorem eq_of_uuid (h : Distinct catalog) (ht : t ∈ catalog) (ht' : t' ∈ catalog) (hid : t.uuid = some id)
    (hid' : t'.uuid = some id) : t = t' := by
  by_contra ne
  obtain ⟨before, after, rfl⟩ := List.append_of_mem ht
  have ids := (List.perm_middle.filterMap Tenant.uuid).nodup_iff.1 h.ids
  rw [List.filterMap_cons_some hid, List.nodup_cons] at ids
  refine ids.1 (List.mem_filterMap.2 ⟨t', ?_, hid'⟩)
  rw [List.mem_append, List.mem_cons] at ht'
  rcases ht' with front | rfl | back
  · exact List.mem_append_left _ front
  · exact absurd rfl ne
  · exact List.mem_append_right _ back

end Distinct

/-! ## The list -/

theorem sorted_perm (catalog : List Tenant) : (sorted catalog).Perm catalog := List.mergeSort_perm _ _

theorem sorted_ascending (h : Distinct catalog) :
    (sorted catalog).Pairwise fun a b => a.metadata.anyName < b.metadata.anyName := by
  have weakly : (sorted catalog).Pairwise fun a b => decide (a.metadata.anyName ≤ b.metadata.anyName) = true := by
    refine List.pairwise_mergeSort ?_ ?_ catalog
    · intro a b c hab hbc
      exact decide_eq_true (String.le_trans (of_decide_eq_true hab) (of_decide_eq_true hbc))
    · intro a b
      simpa using String.le_total a.metadata.anyName b.metadata.anyName
  have apart := List.pairwise_map.1 (h.perm (sorted_perm catalog)).names
  refine (weakly.and apart).imp fun {a b} both => ?_
  exact String.not_le.1 fun back => both.2 (String.le_antisymm (of_decide_eq_true both.1) back)

/-- Tenants with names that differ are sorted in one way, in whatever order they come. -/
theorem sorted_of_perm (h : Distinct catalog) (same : catalog'.Perm catalog) : sorted catalog' = sorted catalog := by
  refine List.Perm.eq_of_pairwise ?_ (sorted_ascending (h.perm same)) (sorted_ascending h) ?_
  · intro a b _ _ hab hba
    exact absurd hba (String.lt_asymm hab)
  · exact (sorted_perm catalog').trans (same.trans (sorted_perm catalog).symm)

/-! ## One tenant -/

theorem isNamed_iff : isNamed id t = true ↔ t.metadata.anyName = id ∨ t.uuid = some id := by
  simp [isNamed]

theorem shown_cases (catalog : List Tenant) (id : String) :
    (∃ t ∈ catalog, isNamed id t = true ∧ shown catalog id = ⟨200, some t.toJson⟩) ∨
      (∀ t ∈ catalog, ¬ isNamed id t = true) ∧
        shown catalog id = notFound ("Tenant with name/uuid '" ++ id ++ "' not found.") := by
  unfold shown
  cases found : catalog.find? (isNamed id) with
  | none => exact .inr ⟨List.find?_eq_none.1 found, rfl⟩
  | some t => exact .inl ⟨t, List.mem_of_find?_eq_some found, List.find?_some found, rfl⟩

/-- A tenant that nobody competes with is the one that is shown. -/
theorem shown_of_only (ht : t ∈ catalog) (named : isNamed id t = true)
    (only : ∀ t' ∈ catalog, isNamed id t' = true → t' = t) : shown catalog id = ⟨200, some t.toJson⟩ := by
  rcases shown_cases catalog id with ⟨t', ht', named', shown⟩ | ⟨none, _⟩
  · rw [shown, only t' ht' named']
  · exact absurd named (none t ht)

/-- Every tenant that is asked for is the one shown in some order. -/
theorem exists_order_shown (ht : t ∈ catalog) (named : isNamed id t = true) :
    ∃ catalog', catalog'.Perm catalog ∧ shown catalog' id = ⟨200, some t.toJson⟩ := by
  refine ⟨t :: catalog.erase t, (List.perm_cons_erase ht).symm, ?_⟩
  rw [shown, List.find?_cons_of_pos named]

theorem eq_of_shown_eq (h : Distinct catalog) (ht : t ∈ catalog) (ht' : t' ∈ catalog)
    (same : (⟨200, some t.toJson⟩ : Served) = ⟨200, some t'.toJson⟩) : t = t' :=
  h.eq_of_name ht ht' (Tenant.anyName_eq_of_toJson (Option.some.inj (congrArg Served.body same)))

/-- A tenant is shown in every order exactly when nobody competes with it. -/
theorem forall_shown_tenant_iff (h : Distinct catalog) (ht : t ∈ catalog) (named : isNamed id t = true) :
    (∀ catalog', catalog'.Perm catalog → shown catalog' id = ⟨200, some t.toJson⟩) ↔
      ∀ t' ∈ catalog, isNamed id t' = true → t' = t := by
  constructor
  · intro always t' ht' named'
    obtain ⟨catalog', same, front⟩ := exists_order_shown ht' named'
    rw [always catalog' same] at front
    exact eq_of_shown_eq h ht' ht front.symm
  · intro only catalog' same
    exact shown_of_only (same.mem_iff.2 ht) named fun t' ht' => only t' (same.mem_iff.1 ht')

theorem Distinct.shadowed_iff (h : Distinct catalog) : Shadowed catalog id ↔
    ∃ t ∈ catalog, ∃ t' ∈ catalog, isNamed id t = true ∧ isNamed id t' = true ∧ t ≠ t' := by
  constructor
  · rintro ⟨t, ht, t', ht', name, uuid, ne⟩
    exact ⟨t, ht, t', ht', isNamed_iff.2 (.inl name), isNamed_iff.2 (.inr uuid), ne⟩
  · rintro ⟨t, ht, t', ht', named, named', ne⟩
    rcases isNamed_iff.1 named with name | uuid <;> rcases isNamed_iff.1 named' with name' | uuid'
    · exact absurd (h.eq_of_name ht ht' (name.trans name'.symm)) ne
    · exact ⟨t, ht, t', ht', name, uuid', ne⟩
    · exact ⟨t', ht', t, ht, name', uuid, ne.symm⟩
    · exact absurd (h.eq_of_uuid ht ht' uuid uuid') ne

/-- One page is shown for every order exactly when no two tenants compete. -/
theorem forall_shown_eq_iff (h : Distinct catalog) :
    (∀ catalog', catalog'.Perm catalog → shown catalog' id = shown catalog id) ↔ ¬ Shadowed catalog id := by
  rw [h.shadowed_iff]
  constructor
  · rintro always ⟨t, ht, t', ht', named, named', ne⟩
    obtain ⟨first, same, shows⟩ := exists_order_shown ht named
    obtain ⟨second, same', shows'⟩ := exists_order_shown ht' named'
    rw [always first same] at shows
    rw [always second same', shows] at shows'
    exact ne (eq_of_shown_eq h ht ht' shows')
  · intro alone catalog' same
    rcases shown_cases catalog id with ⟨t, ht, named, shows⟩ | ⟨none, missing⟩
    · rw [shows]
      refine (forall_shown_tenant_iff h ht named).2 (fun t' ht' named' => ?_) catalog' same
      by_contra ne
      exact alone ⟨t', ht', t, ht, named', named, ne⟩
    · rcases shown_cases catalog' id with ⟨t, ht, named, _⟩ | ⟨_, missing'⟩
      · exact absurd named (none t (same.mem_iff.1 ht))
      · rw [missing, missing']

/-- The tenant of a name is shown in every order exactly when no other one has the name for its identifier. -/
theorem forall_shown_name_iff (h : Distinct catalog) (ht : t ∈ catalog) (name : t.metadata.anyName = id) :
    (∀ catalog', catalog'.Perm catalog → shown catalog' id = ⟨200, some t.toJson⟩) ↔
      ∀ t' ∈ catalog, t'.uuid = some id → t' = t := by
  rw [forall_shown_tenant_iff h ht (isNamed_iff.2 (.inl name))]
  constructor
  · intro only t' ht' uuid
    exact only t' ht' (isNamed_iff.2 (.inr uuid))
  · intro only t' ht' named
    rcases isNamed_iff.1 named with name' | uuid
    · exact h.eq_of_name ht' ht (name'.trans name.symm)
    · exact only t' ht' uuid

/-! ## Requests -/

/-- The request asks for the tenant with this name or identifier. -/
structure Asks (r : Incoming) (id : String) : Prop where
  get : r.method = "GET"
  path : ∃ segment, Route.ofPath r.path = .show segment ∧ Text.Percent.decode? segment = some id

theorem answer_of_asks (h : Asks r id) : answer catalog r = shown catalog id := by
  obtain ⟨segment, route, read⟩ := h.path
  rw [answer, route]
  show r.read _ = _
  rw [read, Incoming.read, if_pos h.get]

theorem answer_of_list (get : r.method = "GET") (route : Route.ofPath r.path = .list) :
    answer catalog r = listed catalog := by
  rw [answer, route]
  show r.read _ = _
  rw [Incoming.read, if_pos get]

/-- Every name made of literal characters can be asked for. -/
theorem asks_literal (literal : ∀ c ∈ id.toList, Text.Percent.Literal c) (ne : id ≠ "") :
    Asks { target := "/apis/tapms/v1/tenant/" ++ id } id := by
  refine ⟨rfl, id.toList, ?_, ?_⟩
  · have path : Incoming.path { target := "/apis/tapms/v1/tenant/" ++ id } =
        "/apis/tapms/v1/tenant/".toList ++ id.toList := by
      rw [Incoming.path, String.toList_append]
      refine List.takeWhile_eq_self_iff.2 fun c hc => ?_
      rcases List.mem_append.1 hc with start | name
      · exact List.all_eq_true.1 (by decide : "/apis/tapms/v1/tenant/".toList.all fun c => c ≠ '?' && c ≠ '#') c start
      · have query := (literal c name).ne (by decide : Text.Percent.formKeeps '?' = false)
        have fragment := (literal c name).ne (by decide : Text.Percent.formKeeps '#' = false)
        simp [query, fragment]
    have other : "/apis/tapms/v1/tenant/".toList ++ id.toList ≠ "/apis/tapms/v1/tenants".toList := by
      intro same
      have at21 := congrArg (fun cs => cs[21]?) same
      simp at at21
    have slash : '/' ∉ id.toList := by
      intro there
      exact (literal '/' there).ne (by decide) rfl
    rw [path, Route.ofPath, if_neg other, Text.dropStart?_append]
    simp [slash, ne]
  · rw [Text.Percent.decode?_literal literal, String.ofList_toList]

/-! ## Answers in every order -/

/-- Let no two tenants of a catalog have one name or one identifier. Asked for a name or identifier, the
answer is a tenant that has it, or that there is none. It is the same for every order of the catalog exactly
when no tenant is named so while another one is identified so; a tenant of that name is then the one shown.
The list has every tenant once, in the ascending order of their names, and is the same for every order. -/
theorem pages_in_every_order (h : Distinct catalog) :
    (∀ r id, Asks r id →
      ((∃ t ∈ catalog, (t.metadata.anyName = id ∨ t.uuid = some id) ∧ answer catalog r = ⟨200, some t.toJson⟩) ∨
        (∀ t ∈ catalog, t.metadata.anyName ≠ id ∧ t.uuid ≠ some id) ∧
          answer catalog r = notFound ("Tenant with name/uuid '" ++ id ++ "' not found.")) ∧
      ((∀ catalog', catalog'.Perm catalog → answer catalog' r = answer catalog r) ↔ ¬ Shadowed catalog id) ∧
      ∀ t ∈ catalog, t.metadata.anyName = id →
        ((∀ catalog', catalog'.Perm catalog → answer catalog' r = ⟨200, some t.toJson⟩) ↔
          ∀ t' ∈ catalog, t'.uuid = some id → t' = t)) ∧
    (∀ r : Incoming, r.method = "GET" → Route.ofPath r.path = .list →
      ∃ ts : List Tenant, ts.Perm catalog ∧ ts.Pairwise (fun a b => a.metadata.anyName < b.metadata.anyName) ∧
        ∀ catalog', catalog'.Perm catalog → answer catalog' r = ⟨200, some (Json.ofMembers
          [("apiVersion", .string Tenant.apiVersion), ("kind", .string "TenantList"),
            ("items", .array (ts.map Tenant.toJson))])⟩) := by
  constructor
  · intro r id asks
    simp only [answer_of_asks asks]
    refine ⟨?_, forall_shown_eq_iff h, fun t ht name => forall_shown_name_iff h ht name⟩
    rcases shown_cases catalog id with ⟨t, ht, named, shows⟩ | ⟨none, missing⟩
    · exact .inl ⟨t, ht, isNamed_iff.1 named, shows⟩
    · refine .inr ⟨fun t ht => ?_, missing⟩
      have unnamed := none t ht
      rw [isNamed_iff] at unnamed
      exact not_or.1 unnamed
  · intro r get route
    refine ⟨sorted catalog, sorted_perm catalog, sorted_ascending h, fun catalog' same => ?_⟩
    rw [answer_of_list get route, listed, sorted_of_perm h same]

def known (name uuid : String) : Tenant :=
  ⟨{ name := some name }, ⟨name, [], [], {}, [], false⟩, some { uuid := some uuid }⟩

/-- Two tenants that do not compete: asked for by its name, `blue` is shown in every order. -/
theorem pages_of_red_and_blue :
    (∀ catalog', catalog'.Perm [known "red" "id-red", known "blue" "id-blue"] →
      answer catalog' { target := "/apis/tapms/v1/tenant/" ++ "blue" } = ⟨200, some (known "blue" "id-blue").toJson⟩) ∧
    ∃ ts : List Tenant, ts.Perm [known "red" "id-red", known "blue" "id-blue"] ∧
      ∀ catalog', catalog'.Perm [known "red" "id-red", known "blue" "id-blue"] →
        answer catalog' { target := "/apis/tapms/v1/tenants" } = listed ts := by
  have distinct : Distinct [known "red" "id-red", known "blue" "id-blue"] := ⟨by decide, by decide⟩
  have asks : Asks { target := "/apis/tapms/v1/tenant/" ++ "blue" } "blue" :=
    asks_literal (List.all_eq_true.1 (by decide : "blue".toList.all Text.Percent.formKeeps)) (by decide)
  obtain ⟨one, all⟩ := pages_in_every_order distinct
  constructor
  · refine ((one _ "blue" asks).2.2 (known "blue" "id-blue") (by simp) rfl).2 fun t' ht' uuid => ?_
    simp only [List.mem_cons, List.not_mem_nil, or_false] at ht'
    rcases ht' with rfl | rfl
    · exact absurd uuid (by decide)
    · rfl
  · obtain ⟨ts, same, _, always⟩ := all { target := "/apis/tapms/v1/tenants" } rfl (by decide +kernel)
    refine ⟨ts, same, fun catalog' perm => ?_⟩
    rw [always catalog' perm, ← always ts same]
    exact answer_of_list rfl (by decide +kernel)

/-- A tenant that is named with the identifier of `blue`: which of the two is shown is a matter of the
order. -/
theorem shown_by_order :
    Distinct [known "blue" "id-blue", known "id-blue" "id-other"] ∧
      Asks { target := "/apis/tapms/v1/tenant/" ++ "id-blue" } "id-blue" ∧
      answer [known "blue" "id-blue", known "id-blue" "id-other"]
        { target := "/apis/tapms/v1/tenant/" ++ "id-blue" } = ⟨200, some (known "blue" "id-blue").toJson⟩ ∧
      answer [known "id-blue" "id-other", known "blue" "id-blue"]
        { target := "/apis/tapms/v1/tenant/" ++ "id-blue" } = ⟨200, some (known "id-blue" "id-other").toJson⟩ ∧
      (known "blue" "id-blue").toJson ≠ (known "id-blue" "id-other").toJson := by
  have asks : Asks { target := "/apis/tapms/v1/tenant/" ++ "id-blue" } "id-blue" :=
    asks_literal (List.all_eq_true.1 (by decide : "id-blue".toList.all Text.Percent.formKeeps)) (by decide)
  refine ⟨⟨by decide, by decide⟩, asks, ?_, ?_, fun same => ?_⟩
  · rw [answer_of_asks asks]
    rfl
  · rw [answer_of_asks asks]
    rfl
  · exact absurd (Tenant.anyName_eq_of_toJson same) (by decide)

end StatusApi

end Tenancy

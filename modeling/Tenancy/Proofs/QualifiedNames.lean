import Mathlib.Data.List.Count
import Mathlib.Logic.ExistsUnique
import Tenancy.Hierarchy

/-!
# Whose child a namespace is

A qualified name is read by cutting it at a dash, and the names of tenants and of children may have dashes
themselves. So one namespace can be a child of several tenants.

* `Tenant.unqualify?_eq_some_iff`: a name belongs to each tenant whose name stands before one of its dashes.
* `Tenant.qualify_eq_iff`: two qualified names are the same name only if they are cut at the same dash, or
  what stands between the two dashes ends the one tenant's name and begins the other's child.
* `Tenant.qualify_ne_iff`: two tenants have no child name in common exactly when they are `Tenant.Apart`.
* `Tenant.existsUnique_reader_iff`: a name belongs to exactly one tenant when it has exactly one dash.
-/

namespace Tenancy.Tenant

variable {t t' c c' d q : String}

theorem toList_qualify (t c : String) : (qualify t c).toList = t.toList ++ '-' :: c.toList := by
  simp [qualify]

/-- A name belongs to a tenant when it is the qualified name of a child. -/
theorem unqualify?_eq_some_iff : unqualify? t q = some d ↔ q = qualify t d := by
  have start : (t ++ "-").toList = t.toList ++ ['-'] := by simp
  constructor
  · intro h
    obtain ⟨rest, found, rfl⟩ := Option.map_eq_some_iff.1 h
    have whole := Text.eq_append_of_dropStart? found
    rw [start, List.append_assoc] at whole
    refine String.toList_inj.1 ?_
    rw [whole, toList_qualify, String.toList_ofList]
    rfl
  · rintro rfl
    exact unqualify?_qualify t d

theorem eq_of_cuts {a b x y : List Char} (h : a ++ '-' :: x = b ++ '-' :: y) :
    (a = b ∧ x = y) ∨ (∃ m, b = a ++ '-' :: m ∧ x = m ++ '-' :: y) ∨ ∃ m, a = b ++ '-' :: m ∧ y = m ++ '-' :: x := by
  induction a generalizing b with
  | nil =>
    cases b with
    | nil => exact .inl ⟨rfl, (List.cons.inj h).2⟩
    | cons e b =>
      obtain ⟨rfl, rest⟩ := List.cons.inj h
      exact .inr (.inl ⟨b, rfl, rest⟩)
  | cons e a ih =>
    cases b with
    | nil =>
      obtain ⟨rfl, rest⟩ := List.cons.inj h
      exact .inr (.inr ⟨a, rfl, rest.symm⟩)
    | cons f b =>
      obtain ⟨rfl, rest⟩ := List.cons.inj h
      rcases ih rest with ⟨rfl, rfl⟩ | ⟨m, rfl, rfl⟩ | ⟨m, rfl, rfl⟩
      · exact .inl ⟨rfl, rfl⟩
      · exact .inr (.inl ⟨m, rfl, rfl⟩)
      · exact .inr (.inr ⟨m, rfl, rfl⟩)

/-- Two qualified names are cut at the same dash, or the one at an earlier dash than the other. -/
theorem qualify_eq_iff : qualify t c = qualify t' c' ↔
    (t = t' ∧ c = c') ∨ (∃ x, t' = qualify t x ∧ c = qualify x c') ∨
      ∃ x, t = qualify t' x ∧ c' = qualify x c := by
  constructor
  · intro h
    have cuts := congrArg String.toList h
    rw [toList_qualify, toList_qualify] at cuts
    rcases eq_of_cuts cuts with ⟨ht, hc⟩ | ⟨m, ht, hc⟩ | ⟨m, ht, hc⟩
    · exact .inl ⟨String.toList_inj.1 ht, String.toList_inj.1 hc⟩
    · refine .inr (.inl ⟨String.ofList m, String.toList_inj.1 ?_, String.toList_inj.1 ?_⟩)
      · rw [toList_qualify, String.toList_ofList, ht]
      · rw [toList_qualify, String.toList_ofList, hc]
    · refine .inr (.inr ⟨String.ofList m, String.toList_inj.1 ?_, String.toList_inj.1 ?_⟩)
      · rw [toList_qualify, String.toList_ofList, ht]
      · rw [toList_qualify, String.toList_ofList, hc]
  · rintro (⟨rfl, rfl⟩ | ⟨x, rfl, rfl⟩ | ⟨x, rfl, rfl⟩)
    · rfl
    · simp only [qualify, String.append_assoc]
    · simp only [qualify, String.append_assoc]

/-! ## Tenants without a common child name -/

/-- The names differ, and neither is the qualified name of a child of the other. -/
structure Apart (t t' : String) : Prop where
  ne : t ≠ t'
  not_below (x : String) : t' ≠ qualify t x
  not_above (x : String) : t ≠ qualify t' x

/-- Names that differ are apart if they have no dash. -/
theorem Apart.of_dashless (ne : t ≠ t') (left : '-' ∉ t.toList) (right : '-' ∉ t'.toList) : Apart t t' := by
  have dash (r x : String) : '-' ∈ (qualify r x).toList := by
    rw [toList_qualify]
    exact List.mem_append_right _ List.mem_cons_self
  refine ⟨ne, ?_, ?_⟩
  · rintro x rfl
    exact right (dash t x)
  · rintro x rfl
    exact left (dash t' x)

theorem Apart.symm (h : Apart t t') : Apart t' t := ⟨h.ne.symm, h.not_above, h.not_below⟩

/-- Two tenants have no child name in common exactly when they are apart. -/
theorem qualify_ne_iff : (∀ c c', qualify t c ≠ qualify t' c') ↔ Apart t t' := by
  constructor
  · intro h
    refine ⟨?_, ?_, ?_⟩
    · rintro rfl
      exact h "" "" rfl
    · rintro x rfl
      exact h (qualify x "") "" (qualify_eq_iff.2 (.inr (.inl ⟨x, rfl, rfl⟩)))
    · rintro x rfl
      exact h "" (qualify x "") (qualify_eq_iff.2 (.inr (.inr ⟨x, rfl, rfl⟩)))
  · intro h c c' same
    rcases qualify_eq_iff.1 same with ⟨ht, _⟩ | ⟨x, ht, _⟩ | ⟨x, ht, _⟩
    · exact h.ne ht
    · exact h.not_below x ht
    · exact h.not_above x ht

theorem unqualify?_eq_none_iff : (∀ c, unqualify? t (qualify t' c) = none) ↔ Apart t t' := by
  rw [← qualify_ne_iff]
  constructor
  · intro h c c' same
    have read := unqualify?_eq_some_iff.2 same.symm
    rw [h c'] at read
    cases read
  · intro h c
    cases read : unqualify? t (qualify t' c) with
    | none => rfl
    | some d => exact absurd (unqualify?_eq_some_iff.1 read).symm (h d c)

/-! ## Names with one dash -/

theorem count_qualify (t c : String) :
    (qualify t c).toList.count '-' = t.toList.count '-' + c.toList.count '-' + 1 := by
  rw [toList_qualify, List.count_append, List.count_cons_self]
  omega

theorem exists_qualify_of_dash (h : '-' ∈ q.toList) : ∃ t c, q = qualify t c := by
  obtain ⟨a, x, whole⟩ := List.append_of_mem h
  refine ⟨String.ofList a, String.ofList x, String.toList_inj.1 ?_⟩
  rw [toList_qualify, String.toList_ofList, String.toList_ofList, whole]

/-- A name belongs to exactly one tenant when it has exactly one dash. -/
theorem existsUnique_reader_iff : (∃! t, (unqualify? t q).isSome) ↔ q.toList.count '-' = 1 := by
  have reader {t : String} : (unqualify? t q).isSome ↔ ∃ d, q = qualify t d := by
    rw [Option.isSome_iff_exists]
    exact exists_congr fun d => unqualify?_eq_some_iff
  simp only [reader]
  constructor
  · rintro ⟨t, ⟨d, rfl⟩, only⟩
    -- a dash in either part would be another place to cut
    have left : '-' ∉ t.toList := by
      intro dash
      obtain ⟨a, x, rfl⟩ := exists_qualify_of_dash dash
      have shorter := only a ⟨qualify x d, qualify_eq_iff.2 (.inr (.inr ⟨x, rfl, rfl⟩))⟩
      have count := count_qualify a x
      rw [← shorter] at count
      omega
    have right : '-' ∉ d.toList := by
      intro dash
      obtain ⟨x, e, rfl⟩ := exists_qualify_of_dash dash
      have longer := only (qualify t x) ⟨e, qualify_eq_iff.2 (.inr (.inl ⟨x, rfl, rfl⟩))⟩
      have count := count_qualify t x
      rw [longer] at count
      omega
    rw [count_qualify, List.count_eq_zero.2 left, List.count_eq_zero.2 right]
  · intro one
    obtain ⟨t, d, rfl⟩ := exists_qualify_of_dash (List.count_pos_iff.1 (by omega : 0 < q.toList.count '-'))
    refine ⟨t, ⟨d, rfl⟩, fun t' ⟨d', same⟩ => ?_⟩
    have count := count_qualify t d
    rcases qualify_eq_iff.1 same with ⟨ht, _⟩ | ⟨x, rfl, rfl⟩ | ⟨x, rfl, rfl⟩
    · exact ht.symm
    · have more := count_qualify x d'
      omega
    · have more := count_qualify t' x
      omega

/-! ## Namespaces that tenants make -/

theorem mem_desiredChildren {T : Tenant} (h : q ∈ T.desiredChildren) : ∃ c, q = qualify T.name c := by
  obtain ⟨c, _, rfl⟩ := List.mem_map.1 h
  exact ⟨Text.trim c, rfl⟩

theorem propagateSecrets_of_unread (h : unqualify? t q = none) :
    Hierarchy.propagateSecrets t q = pure .ready := by
  rw [Hierarchy.propagateSecrets, h]

/-- A tenant gets its children's names back. It takes a name for one of its own that another tenant gave
in exactly two cases: the other's name is its own with a dash and more, or it is the other's with a dash and
more that the child's name begins with. So two tenants have no namespace in common exactly when they are
apart, as those without dashes always are; then neither makes, or copies secrets into, a namespace that the
other declares. -/
theorem children_told_apart (t t' : String) :
    (∀ c, unqualify? t (qualify t c) = some c) ∧
    (∀ c d, unqualify? t (qualify t' c) = some d ↔
      (t = t' ∧ d = c) ∨ (∃ x, t' = qualify t x ∧ d = qualify x c) ∨ ∃ x, t = qualify t' x ∧ c = qualify x d) ∧
    ((∀ c, unqualify? t (qualify t' c) = none) ↔ Apart t t') ∧
    ((∀ c c', qualify t c ≠ qualify t' c') ↔ Apart t t') ∧
    (t ≠ t' → '-' ∉ t.toList → '-' ∉ t'.toList → Apart t t') ∧
    (∀ q, (∃! t, (unqualify? t q).isSome) ↔ q.toList.count '-' = 1) ∧
    (∀ T T' : Tenant, T.name = t → T'.name = t' → Apart t t' → ∀ q ∈ T.desiredChildren,
      q ∉ T'.desiredChildren ∧ Hierarchy.propagateSecrets t' q = pure .ready) := by
  refine ⟨unqualify?_qualify t, fun c d => ?_, unqualify?_eq_none_iff, qualify_ne_iff,
    Apart.of_dashless, fun q => existsUnique_reader_iff, ?_⟩
  · rw [unqualify?_eq_some_iff, eq_comm, qualify_eq_iff]
  · rintro T T' rfl rfl apart q declared
    obtain ⟨c, rfl⟩ := mem_desiredChildren declared
    constructor
    · intro also
      obtain ⟨c', same⟩ := mem_desiredChildren also
      exact qualify_ne_iff.2 apart c c' same
    · exact propagateSecrets_of_unread (unqualify?_eq_none_iff.2 apart.symm c)

/-- The tenants `blue` and `red` have no namespace in common. -/
theorem children_told_apart_of_blue_and_red :
    Apart "blue" "red" ∧ (∀ c, unqualify? "red" (qualify "blue" c) = none) ∧
      Hierarchy.propagateSecrets "red" "blue-slurm" = pure .ready := by
  have told := children_told_apart "blue" "red"
  have apart : Apart "blue" "red" := told.2.2.2.2.1 (by decide) (by decide) (by decide)
  refine ⟨apart, (children_told_apart "red" "blue").2.2.1.2 apart.symm, ?_⟩
  let blue : Tenant := ⟨{}, ⟨"blue", ["slurm"], [], {}, [], false⟩, none⟩
  let red : Tenant := ⟨{}, ⟨"red", [], [], {}, [], false⟩, none⟩
  exact (told.2.2.2.2.2.2 blue red rfl rfl apart "blue-slurm" (by decide +kernel)).2

/-- The child `green-slurm` of the tenant `blue` and the child `slurm` of the tenant `blue-green` are one
namespace, and `blue` takes it for its own. -/
theorem blue_reads_child_of_blue_green :
    qualify "blue" "green-slurm" = qualify "blue-green" "slurm" ∧
      unqualify? "blue" (qualify "blue-green" "slurm") = some "green-slurm" ∧ ¬ Apart "blue" "blue-green" := by
  have same : qualify "blue" "green-slurm" = qualify "blue-green" "slurm" := by decide +kernel
  refine ⟨same, unqualify?_eq_some_iff.2 same.symm, fun apart => ?_⟩
  exact apart.not_below "green" (by decide +kernel)

end Tenancy.Tenant

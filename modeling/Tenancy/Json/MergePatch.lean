import Tenancy.Json.Value

/-!
# Merge patches

A merge patch (RFC 7386) that is an object changes the members it names: null takes a member away, any
other value is merged into the one that is there. A patch that is no object takes the place of the
whole value.
-/

namespace Tenancy.Json

/-- The members of an object; any other value has none. -/
def members : Json → Dict Json
  | .object ms => ms
  | _ => []

mutual

def mergePatch (target : Json) : Json → Json
  | .object changes => .object (mergeMembers target.members changes)
  | patch => patch

/-- The members with the changes of a patch applied in their order. -/
def mergeMembers (target : Dict Json) : List (String × Json) → Dict Json
  | [] => target
  | (key, change) :: rest =>
    match change with
    | .null => mergeMembers (target.erase key) rest
    | change =>
      mergeMembers (target.insert key (mergePatch ((target.get? key).getD .null) change)) rest

end

/-! ## What is there afterwards -/

theorem get?_members (j : Json) (key : String) : j.members.get? key = j.member? key := by
  cases j <;> rfl

theorem member?_mergePatch (target : Json) (changes : List (String × Json)) (key : String) :
    (target.mergePatch (.object changes)).member? key = (mergeMembers target.members changes).get? key := by
  rw [mergePatch]
  rfl

theorem mergePatch_of_ne_object (target : Json) {patch : Json} (h : ∀ changes, patch ≠ .object changes) :
    target.mergePatch patch = patch := by
  rw [mergePatch]
  exact h

theorem mergeMembers_cons (target : Dict Json) (key : String) {change : Json} (rest : List (String × Json))
    (h : change ≠ .null) : mergeMembers target ((key, change) :: rest) =
      mergeMembers (target.insert key (mergePatch ((target.get? key).getD .null) change)) rest := by
  rw [mergeMembers]
  exact h

theorem get?_mergeMembers_of_notMem {target : Dict Json} {changes : List (String × Json)} {key : String}
    (h : key ∉ changes.map (·.1)) : (mergeMembers target changes).get? key = target.get? key := by
  induction changes generalizing target with
  | nil => rw [mergeMembers]
  | cons p rest ih =>
    obtain ⟨k, change⟩ := p
    obtain ⟨hne, hrest⟩ : key ≠ k ∧ key ∉ rest.map (·.1) := by simpa using h
    by_cases hnull : change = .null
    · subst hnull
      rw [mergeMembers, ih hrest, Dict.get?_erase_of_ne _ hne]
    · rw [mergeMembers_cons _ _ _ hnull, ih hrest, Dict.get?_insert_of_ne _ _ hne]

theorem get?_mergeMembers_of_mem {target : Dict Json} {changes : List (String × Json)} {key : String}
    {change : Json} (hne : change ≠ .null) (once : (changes.map (·.1)).Nodup)
    (h : (key, change) ∈ changes) : (mergeMembers target changes).get? key =
      some (mergePatch ((target.get? key).getD .null) change) := by
  induction changes generalizing target with
  | nil => cases h
  | cons p rest ih =>
    obtain ⟨k, c⟩ := p
    obtain ⟨hk, hrest⟩ := List.nodup_cons.1 once
    rcases List.mem_cons.1 h with he | hmem
    · cases he
      rw [mergeMembers_cons _ _ _ hne, get?_mergeMembers_of_notMem hk, Dict.get?_insert_self]
    · have other : key ≠ k := fun e => hk (List.mem_map.2 ⟨_, hmem, e⟩)
      by_cases hnull : c = .null
      · subst hnull
        rw [mergeMembers, ih hrest hmem, Dict.get?_erase_of_ne _ other]
      · rw [mergeMembers_cons _ _ _ hnull, ih hrest hmem, Dict.get?_insert_of_ne _ _ other]

/-- What a patch does not name is left as it was. -/
theorem member?_mergePatch_of_notMem {target : Json} {changes : List (String × Json)} {key : String}
    (h : key ∉ changes.map (·.1)) :
    (target.mergePatch (.object changes)).member? key = target.member? key := by
  rw [member?_mergePatch, get?_mergeMembers_of_notMem h, get?_members]

/-- A member that a patch names is merged with what the patch has for it. -/
theorem member?_mergePatch_of_mem {target : Json} {changes : List (String × Json)} {key : String}
    {change : Json} (hne : change ≠ .null) (once : (changes.map (·.1)).Nodup)
    (h : (key, change) ∈ changes) : (target.mergePatch (.object changes)).member? key =
      some (mergePatch ((target.member? key).getD .null) change) := by
  rw [member?_mergePatch, get?_mergeMembers_of_mem hne once h, get?_members]

end Tenancy.Json

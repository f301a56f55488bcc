import Tenancy.Names

/-!
# Differences of membership

Moving a collection from the members it is observed to have to the members it should have means to add
some and remove others. Both lists are read as sets.
-/

namespace Tenancy

structure MemberDiff where
  toAdd : Names
  toRemove : Names
  deriving DecidableEq, Repr

namespace MemberDiff

/-- What is desired and not observed is added, what is observed and not desired is removed. -/
def between (desired observed : List String) : MemberDiff :=
  let d := Names.ofList desired
  let o := Names.ofList observed
  ⟨d.without o, o.without d⟩

def isEmpty (d : MemberDiff) : Bool := d.toAdd.isEmpty && d.toRemove.isEmpty

theorem mem_toAdd {desired observed : List String} {x : String} :
    x ∈ (between desired observed).toAdd ↔ x ∈ desired ∧ x ∉ observed := by
  simp [between, Names.mem_without, Names.mem_ofList]

theorem mem_toRemove {desired observed : List String} {x : String} :
    x ∈ (between desired observed).toRemove ↔ x ∈ observed ∧ x ∉ desired := by
  simp [between, Names.mem_without, Names.mem_ofList]

end MemberDiff

/-- Both lists have the same members, whatever their order and repetitions. -/
def sameMembers (a b : List String) : Bool := (MemberDiff.between a b).isEmpty

theorem sameMembers_iff {a b : List String} : sameMembers a b ↔ ∀ x, x ∈ a ↔ x ∈ b := by
  simp only [sameMembers, MemberDiff.isEmpty, Bool.and_eq_true, List.isEmpty_iff,
    List.eq_nil_iff_forall_not_mem, MemberDiff.mem_toAdd, MemberDiff.mem_toRemove]
  constructor
  · rintro ⟨h, k⟩ x
    exact ⟨fun hx => Classical.not_not.1 fun n => h x ⟨hx, n⟩,
      fun hx => Classical.not_not.1 fun n => k x ⟨hx, n⟩⟩
  · exact fun h => ⟨fun x p => p.2 ((h x).1 p.1), fun x p => p.2 ((h x).2 p.1)⟩

end Tenancy

/-!
# Sets of names

A set of names is kept as the list of its members in ascending order, each once, so two sets with the
same members are equal. The main statements are `mem_ofList`, `pairwise_ofList` and
`eq_of_mem_iff`: the set of a list has its members, is ascending, and is determined by them.
-/

namespace Tenancy

/-- Names in ascending order, each once. -/
abbrev Names := List String

namespace Names

/-- Put a name in its place, unless it is there. -/
def insert (ns : Names) (n : String) : Names :=
  match ns with
  | [] => [n]
  | m :: rest => if n = m then m :: rest else if n < m then n :: m :: rest else m :: Names.insert rest n

def ofList (xs : List String) : Names := xs.foldr (fun x ns => Names.insert ns x) []

def union (a b : Names) : Names := ofList (a ++ b)

/-- The members of the first set that are not in the second. -/
def without (a b : Names) : Names := a.filter fun n => !b.contains n

theorem mem_insert {ns : Names} {n x : String} : x ∈ ns.insert n ↔ x = n ∨ x ∈ ns := by
  induction ns with
  | nil => simp [insert]
  | cons m rest ih => grind [insert]

theorem mem_ofList {xs : List String} {x : String} : x ∈ ofList xs ↔ x ∈ xs := by
  induction xs with
  | nil => simp [ofList]
  | cons y ys ih =>
    have : x ∈ ofList (y :: ys) ↔ x = y ∨ x ∈ ofList ys := mem_insert
    simp [this, ih]

theorem pairwise_insert {ns : Names} {n : String} (h : ns.Pairwise (· < ·)) :
    (ns.insert n).Pairwise (· < ·) := by
  induction ns with
  | nil => simp [insert]
  | cons m rest ih =>
    rw [insert]
    have hm := List.pairwise_cons.1 h
    split
    · exact h
    · split
      · next hn hlt =>
        refine List.pairwise_cons.2 ⟨fun y hy => ?_, h⟩
        rcases List.mem_cons.1 hy with rfl | hy
        · exact hlt
        · exact String.lt_trans hlt (hm.1 y hy)
      · next hn hlt =>
        refine List.pairwise_cons.2 ⟨fun y hy => ?_, ih hm.2⟩
        rcases mem_insert.1 hy with rfl | hy
        · exact Std.lt_of_le_of_ne (String.not_lt.1 hlt) (Ne.symm hn)
        · exact hm.1 y hy

theorem pairwise_ofList (xs : List String) : (ofList xs).Pairwise (· < ·) := by
  induction xs with
  | nil => simp [ofList]
  | cons x xs ih => exact pairwise_insert ih

/-- Ascending lists with the same members are equal. -/
theorem eq_of_mem_iff {a b : Names} (ha : a.Pairwise (· < ·)) (hb : b.Pairwise (· < ·))
    (h : ∀ x, x ∈ a ↔ x ∈ b) : a = b := by
  induction a generalizing b with
  | nil =>
    cases b with
    | nil => rfl
    | cons y ys => exact absurd ((h y).2 (by simp)) (by simp)
  | cons x xs ih =>
    cases b with
    | nil => exact absurd ((h x).1 (by simp)) (by simp)
    | cons y ys =>
      obtain ⟨hx, hxs⟩ := List.pairwise_cons.1 ha
      obtain ⟨hy, hys⟩ := List.pairwise_cons.1 hb
      have hxy : x = y := by
        rcases List.mem_cons.1 ((h x).1 (by simp)) with e | m
        · exact e
        · rcases List.mem_cons.1 ((h y).2 (by simp)) with e | m'
          · exact e.symm
          · exact absurd (String.lt_trans (hx y m') (hy x m)) (String.lt_irrefl x)
      subst hxy
      refine congrArg _ (ih hxs hys fun z => ⟨fun hz => ?_, fun hz => ?_⟩)
      · rcases List.mem_cons.1 ((h z).1 (List.mem_cons_of_mem _ hz)) with e | m
        · exact absurd (hx z hz) (e ▸ String.lt_irrefl z)
        · exact m
      · rcases List.mem_cons.1 ((h z).2 (List.mem_cons_of_mem _ hz)) with e | m
        · exact absurd (hy z hz) (e ▸ String.lt_irrefl z)
        · exact m

theorem mem_without {a b : Names} {x : String} : x ∈ a.without b ↔ x ∈ a ∧ x ∉ b := by
  simp [without]

theorem pairwise_without {a : Names} (b : Names) (h : a.Pairwise (· < ·)) :
    (a.without b).Pairwise (· < ·) := h.filter _

end Names

end Tenancy

import Tenancy.Decimal.Double

/-!
# JSON values

A number is an integer of 64 bits, signed or unsigned, or else a binary64 number. The members of an
object are kept in ascending order of their keys, each key once; `Json.ofMembers` puts them so, and
of two members with one key the later stays.
-/

namespace Tenancy

inductive Number where
  | int (n : Int)
  | double (x : Double)
  deriving DecidableEq, Repr, Inhabited

inductive Json where
  | null
  | bool (b : Bool)
  | number (n : Number)
  | string (s : String)
  | array (items : List Json)
  | object (members : List (String × Json))
  deriving BEq, Repr, Inhabited

/-! ## Members in the order of their keys -/

/-- A list of pairs in ascending order of their keys. -/
abbrev Dict (α : Type) := List (String × α)

namespace Dict

variable {α β : Type}

def get? (d : Dict α) (key : String) : Option α := (d.find? fun p => p.1 = key).map (·.2)

/-- Put a value at a key, in place of the one that was there. -/
def insert (d : Dict α) (key : String) (value : α) : Dict α :=
  match d with
  | [] => [(key, value)]
  | (k, v) :: rest =>
    if key = k then (key, value) :: rest
    else if key < k then (key, value) :: (k, v) :: rest
    else (k, v) :: Dict.insert rest key value

def erase (d : Dict α) (key : String) : Dict α := d.filter fun p => p.1 ≠ key

def contains (d : Dict α) (key : String) : Bool := d.any fun p => p.1 = key

/-- The pairs in ascending order of their keys; of two with one key the later stays. -/
def ofList (pairs : List (String × α)) : Dict α :=
  pairs.foldl (fun d p => Dict.insert d p.1 p.2) []

/-- All pairs of both, those of the second where both have a key. -/
def union (d e : Dict α) : Dict α := e.foldl (fun d p => Dict.insert d p.1 p.2) d

def keys (d : Dict α) : List String := d.map (·.1)

def values (d : Dict α) : List α := d.map (·.2)

def mapValues (f : α → β) (d : Dict α) : Dict β := d.map fun p => (p.1, f p.2)

/-! ### What a key has afterwards -/

@[simp] theorem get?_nil (key : String) : get? ([] : Dict α) key = none := rfl

theorem get?_cons (p : String × α) (d : Dict α) (key : String) :
    get? (p :: d) key = if p.1 = key then some p.2 else get? d key := by
  unfold get?
  by_cases h : p.1 = key <;> simp [h]

@[simp] theorem get?_insert_self (d : Dict α) (key : String) (value : α) :
    get? (d.insert key value) key = some value := by
  induction d with
  | nil => simp [insert, get?_cons]
  | cons p d ih =>
    rw [insert]
    split
    · simp [get?_cons]
    · next hne =>
      split
      · simp [get?_cons]
      · rw [get?_cons, if_neg (Ne.symm hne)]
        exact ih

theorem get?_insert_of_ne (d : Dict α) {key key' : String} (value : α) (h : key' ≠ key) :
    get? (d.insert key value) key' = get? d key' := by
  induction d with
  | nil => simp [insert, get?_cons, Ne.symm h]
  | cons p d ih =>
    rw [insert]
    split
    · next he => simp [get?_cons, ← he, Ne.symm h]
    · split
      · simp [get?_cons, Ne.symm h]
      · rw [get?_cons, get?_cons, ih]

@[simp] theorem get?_erase_self (d : Dict α) (key : String) : get? (d.erase key) key = none := by
  simp [get?, erase]

theorem get?_erase_of_ne (d : Dict α) {key key' : String} (h : key' ≠ key) :
    get? (d.erase key) key' = get? d key' := by
  induction d with
  | nil => rfl
  | cons p d ih =>
    rw [get?_cons, ← ih, erase, erase, List.filter_cons]
    by_cases hp : p.1 = key
    · simp [hp, Ne.symm h]
    · simp [hp, get?_cons]

theorem get?_insert (d : Dict α) (key key' : String) (value : α) :
    get? (d.insert key value) key' = if key' = key then some value else get? d key' := by
  by_cases h : key' = key
  · rw [if_pos h, h, get?_insert_self]
  · rw [if_neg h, get?_insert_of_ne _ _ h]

theorem get?_erase (d : Dict α) (key key' : String) :
    get? (d.erase key) key' = if key' = key then none else get? d key' := by
  by_cases h : key' = key
  · rw [if_pos h, h, get?_erase_self]
  · rw [if_neg h, get?_erase_of_ne _ h]

theorem get?_append (d e : Dict α) (key : String) :
    get? (d ++ e) key = (get? d key).orElse fun _ => get? e key := by
  induction d with
  | nil => rfl
  | cons p d ih =>
    rw [List.cons_append, get?_cons, get?_cons, ih]
    split <;> rfl

theorem get?_union (d e : Dict α) (key : String) : get? (d.union e) key = get? (e.reverse ++ d) key := by
  induction e generalizing d with
  | nil => rfl
  | cons p e ih =>
    rw [union, List.foldl_cons, ← union, ih, List.reverse_cons, List.append_assoc, get?_append, get?_append]
    congr 1
    funext
    by_cases h : p.1 = key
    · subst h
      simp [get?_cons]
    · simp [get?_cons, get?_insert_of_ne d p.2 (Ne.symm h), h]

theorem get?_ofList (pairs : List (String × α)) (key : String) :
    get? (ofList pairs) key = get? pairs.reverse key := by
  rw [ofList, ← union, get?_union, List.append_nil]

theorem get?_eq_none_iff {d : Dict α} {key : String} : get? d key = none ↔ key ∉ d.map (·.1) := by
  induction d with
  | nil => simp
  | cons p d ih =>
    rw [get?_cons, List.map_cons, List.mem_cons]
    by_cases h : key = p.1
    · simp [h]
    · simp [h, ih, Ne.symm h]

theorem notMem_ofList {pairs : List (String × α)} {key : String} :
    key ∉ (ofList pairs).map (·.1) ↔ key ∉ pairs.map (·.1) := by
  rw [← get?_eq_none_iff, get?_ofList, get?_eq_none_iff, List.map_reverse, List.mem_reverse]

theorem contains_eq_isSome (d : Dict α) (key : String) : d.contains key = (d.get? key).isSome := by
  induction d with
  | nil => rfl
  | cons p d ih =>
    rw [get?_cons, contains, List.any_cons, ← contains, ih]
    by_cases hp : p.1 = key <;> simp [hp]

theorem contains_insert (d : Dict α) (key : String) (value : α) {key' : String} :
    (d.insert key value).contains key' = true ↔ key' = key ∨ d.contains key' = true := by
  rw [contains_eq_isSome, contains_eq_isSome]
  by_cases h : key' = key
  · subst h
    simp
  · simp [get?_insert_of_ne d value h, h]

theorem contains_erase (d : Dict α) (key : String) {key' : String} :
    (d.erase key).contains key' = true ↔ key' ≠ key ∧ d.contains key' = true := by
  rw [contains_eq_isSome, contains_eq_isSome]
  by_cases h : key' = key
  · subst h
    simp
  · simp [get?_erase_of_ne d h, h]

theorem contains_foldl_erase {d : Dict α} {keys : List String} {key : String} :
    (keys.foldl erase d).contains key = true ↔ key ∉ keys ∧ d.contains key = true := by
  induction keys generalizing d with
  | nil => simp
  | cons key' keys ih => rw [List.foldl_cons, ih, contains_erase, List.mem_cons, not_or, and_left_comm, and_assoc]

theorem erase_of_not_contains {d : Dict α} {key : String} (h : ¬ d.contains key = true) : d.erase key = d := by
  refine List.filter_eq_self.2 fun p hp => ?_
  simp only [contains, List.any_eq_true, not_exists, not_and] at h
  simpa using h p hp

theorem erase_insert_self (d : Dict α) (key : String) (value : α) :
    (d.insert key value).erase key = d.erase key := by
  induction d with
  | nil => simp [insert, erase]
  | cons p d ih =>
    rw [insert]
    split
    · next same => simp [erase, same]
    · split
      · simp [erase]
      · rw [erase, erase, List.filter_cons, List.filter_cons, ← erase, ← erase, ih]

end Dict

namespace Json

/-- An object with these members; of two with one key the later stays. -/
def ofMembers (members : List (String × Json)) : Json := .object (Dict.ofList members)

def ofNat (n : Nat) : Json := .number (.int n)

def strings (xs : List String) : Json := .array (xs.map .string)

def ofTexts (d : Dict String) : Json := ofMembers (d.mapValues .string)

def ofText? : Option String → Json
  | none => .null
  | some s => .string s

/-- The member under a key for a value that may not be there, and is left out then. -/
def memberOf {α : Type} (key : String) (toJson : α → Json) (value : Option α) :
    List (String × Json) := value.toList.map fun a => (key, toJson a)

def member? (j : Json) (key : String) : Option Json :=
  match j with
  | .object members => Dict.get? members key
  | _ => none

theorem member?_ofMembers (members : List (String × Json)) (key : String) :
    (ofMembers members).member? key = Dict.get? members.reverse key := Dict.get?_ofList members key

end Json

end Tenancy

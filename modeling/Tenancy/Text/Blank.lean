/-!
# Blanks

The characters that count as blank are the twenty-five with the Unicode property White_Space.
`trim` takes them off both ends of a text; a text of blanks only trims to the empty text.
-/

namespace Tenancy.Text

/-- The ranges of the characters with the Unicode property White_Space. -/
def blankRanges : List (Nat × Nat) :=
  [(0x09, 0x0D), (0x20, 0x20), (0x85, 0x85), (0xA0, 0xA0), (0x1680, 0x1680), (0x2000, 0x200A),
    (0x2028, 0x2029), (0x202F, 0x202F), (0x205F, 0x205F), (0x3000, 0x3000)]

def inRanges (ranges : List (Nat × Nat)) (c : Char) : Bool :=
  ranges.any fun r => r.1 ≤ c.toNat && c.toNat ≤ r.2

/-- A character with the Unicode property White_Space. -/
def isBlank (c : Char) : Bool := inRanges blankRanges c

/-- Drop the characters with property `p` at both ends. -/
def trimBy (p : Char → Bool) (cs : List Char) : List Char :=
  ((cs.dropWhile p).reverse.dropWhile p).reverse

/-- The text without the blanks at its ends. -/
def trim (s : String) : String := String.ofList (trimBy isBlank s.toList)

/-- The text without the copies of `c` at its end. -/
def trimEndOf (c : Char) (s : String) : String :=
  String.ofList (s.toList.reverse.dropWhile (· == c)).reverse

/-- The text without the copies of `c` at its start. -/
def trimStartOf (c : Char) (s : String) : String :=
  String.ofList (s.toList.dropWhile (· == c))

/-- The parts of a text between the copies of `c`. -/
def cutAt (c : Char) : List Char → List (List Char)
  | [] => [[]]
  | d :: cs => match cutAt c cs with
    | [] => [[d]]
    | part :: parts => if d = c then [] :: part :: parts else (d :: part) :: parts

/-- What follows `p` in `cs`, if `cs` starts with `p`. -/
def dropStart? : List Char → List Char → Option (List Char)
  | [], cs => some cs
  | _ :: _, [] => none
  | p :: ps, c :: cs => if p = c then dropStart? ps cs else none

def occurs (part : List Char) : List Char → Bool
  | [] => part.isEmpty
  | c :: cs => (dropStart? part (c :: cs)).isSome || occurs part cs

theorem dropStart?_append (p cs : List Char) : dropStart? p (p ++ cs) = some cs := by
  induction p with
  | nil => rfl
  | cons c p ih => simp [dropStart?, ih]

theorem eq_append_of_dropStart? {p cs r : List Char} (h : dropStart? p cs = some r) :
    cs = p ++ r := by
  fun_induction dropStart? p cs with
  | case1 cs => simpa using h
  | case2 => simp at h
  | case3 p c cs ih => simp [ih h]
  | case4 => simp at h

/-- The rest after `p` is found exactly when `p` comes first. -/
theorem dropStart?_eq_some_iff {p cs r : List Char} :
    dropStart? p cs = some r ↔ cs = p ++ r :=
  ⟨eq_append_of_dropStart?, fun h => h ▸ dropStart?_append p r⟩

end Tenancy.Text

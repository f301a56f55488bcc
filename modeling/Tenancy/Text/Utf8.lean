/-!
# UTF-8

Texts as bytes and back. `nextChar` takes one character off a list of bytes; where the bytes are not
well formed it takes the longest start of a character that stands there, or one byte if none does,
and reports a fault. The strict reading refuses faults, the lossy one puts U+FFFD in their place.
-/

namespace Tenancy.Text

abbrev Bytes := List UInt8

def utf8Encode (s : String) : Bytes := s.toList.flatMap String.utf8EncodeChar

/-- Whether the second byte may follow the first one of a character of several bytes. -/
def secondFits (first second : UInt8) : Bool :=
  if first = 0xE0 then 0xA0 ≤ second && second ≤ 0xBF
  else if first = 0xED then 0x80 ≤ second && second ≤ 0x9F
  else if first = 0xF0 then 0x90 ≤ second && second ≤ 0xBF
  else if first = 0xF4 then 0x80 ≤ second && second ≤ 0x8F
  else 0x80 ≤ second && second ≤ 0xBF

/-- A byte that continues a character. -/
def continues (b : UInt8) : Bool := 0x80 ≤ b && b ≤ 0xBF

/-- How many bytes a character has that starts with this byte; none if no character does. -/
def charWidth (first : UInt8) : Option Nat :=
  if first < 0x80 then some 1
  else if 0xC2 ≤ first && first ≤ 0xDF then some 2
  else if 0xE0 ≤ first && first ≤ 0xEF then some 3
  else if 0xF0 ≤ first && first ≤ 0xF4 then some 4
  else none

/-- Take `n` continuing bytes: those found, in order, and the bytes left. -/
def takeContinuing : Nat → Bytes → Bytes × Bytes
  | 0, bs => ([], bs)
  | _ + 1, [] => ([], [])
  | n + 1, b :: bs =>
    if continues b then
      let (taken, rest) := takeContinuing n bs
      (b :: taken, rest)
    else ([], b :: bs)

theorem length_takeContinuing (n : Nat) (bs : Bytes) :
    (takeContinuing n bs).2.length ≤ bs.length := by
  fun_induction takeContinuing n bs with
  | case1 => simp
  | case2 => simp
  | case3 n b bs hb taken rest h ih => simp only [h, List.length_cons] at ih ⊢; omega
  | case4 => simp

/-- The code point whose UTF-8 form starts with `first` and goes on with `more`. -/
def codePoint (first : UInt8) (more : Bytes) : Nat :=
  let lead := match more.length with
    | 0 => first.toNat
    | 1 => first.toNat % 32
    | 2 => first.toNat % 16
    | _ => first.toNat % 8
  more.foldl (fun n b => n * 64 + b.toNat % 64) lead

/-- One character, or none for a fault, and the bytes after it. -/
def nextChar (first : UInt8) (rest : Bytes) : Option Char × Bytes :=
  match charWidth first with
  | none => (none, rest)
  | some 1 => (some (Char.ofNat first.toNat), rest)
  | some width =>
    match rest with
    | [] => (none, [])
    | second :: more =>
      if secondFits first second then
        let (taken, after) := takeContinuing (width - 2) more
        if taken.length + 2 = width then
          (some (Char.ofNat (codePoint first (second :: taken))), after)
        else (none, after)
      else (none, second :: more)

theorem length_nextChar (first : UInt8) (rest : Bytes) :
    (nextChar first rest).2.length ≤ rest.length := by
  unfold nextChar
  split
  · simp
  · simp
  · next width _ _ =>
    split
    · simp
    · next second more =>
      have := length_takeContinuing (width - 2) more
      split
      · dsimp only
        split <;> simp only [List.length_cons] <;> omega
      · simp

/-- Read characters to the end; none stands for a fault. -/
def utf8Chars : Bytes → List (Option Char)
  | [] => []
  | b :: bs => (nextChar b bs).1 :: utf8Chars (nextChar b bs).2
termination_by bs => bs.length
decreasing_by
  have := length_nextChar b bs
  simp only [List.length_cons]
  omega

/-- The text that the bytes spell, if they are well formed. -/
def utf8Decode? (bs : Bytes) : Option String :=
  (utf8Chars bs).mapM id |>.map String.ofList

/-- The text that the bytes spell, with U+FFFD for every fault. -/
def utf8Lossy (bs : Bytes) : String :=
  String.ofList ((utf8Chars bs).map fun c => c.getD '\ufffd')

end Tenancy.Text

import Tenancy.Json.Reading
import Tenancy.Text.Hex

/-!
# Reading JSON text

The reader never fails: where the text stops being JSON the reading is `broken` or is not closed, and
nothing is read behind that place. Blanks are the space, the tab and the two line breaks.
-/

namespace Tenancy.Reading

/-- A blank between the tokens of a JSON text. -/
def isSpace (c : Char) : Bool := c = ' ' || c = '\n' || c = '\t' || c = '\r'

/-- The text from the next token on. -/
def skipSpace (cs : List Char) : List Char := cs.dropWhile isSpace

/-! ## Numbers -/

def maxWord64 : Nat := Double.twoTo 64 - 1

def digitValue (c : Char) : Nat := c.toNat - 48

/-- Append digits to a number while it stays within 64 bits; also how many digits were left out from
the first that did not fit on. -/
def gather (n : Nat) : List Char → Nat × Nat
  | [] => (n, 0)
  | d :: ds =>
    let m := n * 10 + digitValue d
    if maxWord64 < m then (n, ds.length + 1) else gather m ds

/-- The parts of the text of a number. -/
structure NumberText where
  negative : Bool
  whole : List Char
  fraction : Option (List Char)
  /-- The sign and the digits of the exponent. -/
  exponent : Option (Bool × List Char)

/-- A whole number of 64 bits stays an integer, signed or unsigned, but minus zero does not. Of any
other number the leading digits that fit into 64 bits count, the rest only moves the point. -/
def NumberText.value (t : NumberText) : Option Number := do
  let (n, left) := gather 0 t.whole
  match t.fraction, t.exponent with
  | none, none =>
    if left = 0 then
      if !t.negative then some (.int n)
      else if 0 < n ∧ n ≤ Double.twoTo 63 then some (.int (-(n : Int)))
      else (Double.ofNat? true n).map .double
    else (Double.ofDecimal? t.negative n left).map .double
  | fraction, exponent =>
    let places := fraction.getD []
    let (m, unread) := gather n places
    let point : Int := left - (places.length - unread : Nat)
    match exponent with
    | none => (Double.ofDecimal? t.negative m point).map .double
    | some (minus, digits) =>
      let e := digits.foldl (fun e d => e * 10 + digitValue d) 0
      if Double.twoTo 31 ≤ e then
        if m ≠ 0 ∧ !minus then none else some (.double (Double.zero t.negative))
      else
        let e : Int := if minus then -(e : Int) else e
        (Double.ofDecimal? t.negative m (point + e)).map .double

/-- Split a number off a text, if one stands there in full. -/
def splitNumber (cs : List Char) : Option (NumberText × List Char) := do
  let (negative, cs) := match cs with
    | '-' :: rest => (true, rest)
    | _ => (false, cs)
  let whole := cs.takeWhile Char.isDigit
  let cs := cs.dropWhile Char.isDigit
  if whole.isEmpty || (whole.head? = some '0' && 1 < whole.length) then none
  let (fraction, cs) ← match cs with
    | '.' :: rest =>
      let places := rest.takeWhile Char.isDigit
      if places.isEmpty then none else some (some places, rest.dropWhile Char.isDigit)
    | _ => some (none, cs)
  let (exponent, cs) ← match cs with
    | c :: rest =>
      if c = 'e' ∨ c = 'E' then
        let (minus, rest) := match rest with
          | '-' :: more => (true, more)
          | '+' :: more => (false, more)
          | _ => (false, rest)
        let digits := rest.takeWhile Char.isDigit
        if digits.isEmpty then none
        else some (some (minus, digits), rest.dropWhile Char.isDigit)
      else some (none, cs)
    | [] => some (none, cs)
  pure (⟨negative, whole, fraction, exponent⟩, cs)

/-! ## Texts -/

/-- One unit of a text between quotes: a character, or sixteen bits given by their number. -/
inductive Unit16 where
  | char (c : Char)
  | code (n : Nat)

/-- The units up to the closing quote and the text behind it, if the text is closed and holds no
control character and no unknown escape. -/
def splitUnits : List Char → Option (List Unit16 × List Char)
  | [] => none
  | '"' :: rest => some ([], rest)
  | '\\' :: 'u' :: a :: b :: c :: d :: rest => do
    let n := (← Text.hexValue? a) * 4096 + (← Text.hexValue? b) * 256
      + (← Text.hexValue? c) * 16 + (← Text.hexValue? d)
    let (units, after) ← splitUnits rest
    pure (.code n :: units, after)
  | '\\' :: e :: rest => do
    let c ← match e with
      | '"' => some '"'
      | '\\' => some '\\'
      | '/' => some '/'
      | 'b' => some '\x08'
      | 'f' => some '\x0c'
      | 'n' => some '\n'
      | 'r' => some '\r'
      | 't' => some '\t'
      | _ => none
    let (units, after) ← splitUnits rest
    pure (.char c :: units, after)
  | c :: rest =>
    if c = '\\' ∨ c.toNat < 0x20 then none
    else do
      let (units, after) ← splitUnits rest
      pure (.char c :: units, after)

/-- The characters of the units; half a surrogate pair is none. -/
def joinUnits : List Unit16 → Option (List Char)
  | [] => some []
  | .char c :: rest => (joinUnits rest).map (c :: ·)
  | .code n :: .code m :: rest =>
    if 0xD800 ≤ n ∧ n ≤ 0xDBFF then
      if 0xDC00 ≤ m ∧ m ≤ 0xDFFF then
        (joinUnits rest).map (Char.ofNat ((n - 0xD800) * 1024 + (m - 0xDC00) + 0x10000) :: ·)
      else none
    else if 0xDC00 ≤ n ∧ n ≤ 0xDFFF then none
    else (joinUnits (.code m :: rest)).map (Char.ofNat n :: ·)
  | .code n :: rest =>
    if 0xD800 ≤ n ∧ n ≤ 0xDFFF then none else (joinUnits rest).map (Char.ofNat n :: ·)

/-- Split a text off behind its opening quote. -/
def splitText (cs : List Char) : Option (Option String × List Char) :=
  (splitUnits cs).map fun p => ((joinUnits p.1).map String.ofList, p.2)

/-! ## Values -/

/-- What stands behind a word, if the word stands here. -/
def afterWord (word cs : List Char) : Option (List Char) :=
  if cs.take word.length = word then some (cs.drop word.length) else none

/-- A word stands for a value, or the text is broken. -/
def readWord (word : List Char) (r : Reading) (cs : List Char) : Reading × Option (List Char) :=
  match afterWord word cs with
  | some rest => (r, some rest)
  | none => (.broken, none)

mutual

/-- Read a value; the rest of the text is none when the text stops being JSON. -/
def readValue : Nat → List Char → Reading × Option (List Char)
  | 0, _ => (.broken, none)
  | fuel + 1, cs =>
    match skipSpace cs with
    | '"' :: rest => match splitText rest with
      | some (s, after) => (.string s, some after)
      | none => (.broken, none)
    | '[' :: rest => match skipSpace rest with
      | ']' :: after => (.array [] true, some after)
      | [] => (.array [] false, none)
      | more =>
        let (items, after) := readItems fuel more
        (.array items after.isSome, after)
    | '\x7b' :: rest => match skipSpace rest with
      | '\x7d' :: after => (.object [] true, some after)
      | more =>
        let (members, after) := readMembers fuel more
        (.object members after.isSome, after)
    | 'n' :: rest => readWord "ull".toList .null rest
    | 't' :: rest => readWord "rue".toList (.bool true) rest
    | 'f' :: rest => readWord "alse".toList (.bool false) rest
    | cs => match splitNumber cs with
      | some (t, after) => (.number t.value, some after)
      | none => (.broken, none)

/-- Read the items of an array from the first one on. -/
def readItems : Nat → List Char → List Reading × Option (List Char)
  | 0, _ => ([], none)
  | fuel + 1, cs =>
    match readValue fuel cs with
    | (r, none) => ([r], none)
    | (r, some rest) => match skipSpace rest with
      | ']' :: after => ([r], some after)
      | ',' :: more => match skipSpace more with
        | [] => ([r], none)
        | ']' :: _ => ([r], none)
        | next =>
          let (items, after) := readItems fuel next
          (r :: items, after)
      | _ => ([r], none)

/-- Read the members of an object from the first key on. -/
def readMembers : Nat → List Char → List (Option String × Reading) × Option (List Char)
  | 0, _ => ([], none)
  | fuel + 1, cs =>
    match skipSpace cs with
    | '"' :: rest => match splitText rest with
      | none => ([], none)
      | some (name, afterKey) => match skipSpace afterKey with
        | ':' :: value => match readValue fuel value with
          | (r, none) => ([(name, r)], none)
          | (r, some rest) => match skipSpace rest with
            | '\x7d' :: after => ([(name, r)], some after)
            | ',' :: more =>
              let (members, after) := readMembers fuel more
              ((name, r) :: members, after)
            | _ => ([(name, r)], none)
        | _ => ([(name, .broken)], none)
    | _ => ([], none)

end

/-- The reading of a text, and whether only blanks follow it. -/
def ofText (s : String) : Reading × Bool :=
  let cs := s.toList
  let (r, rest) := readValue (2 * cs.length + 4) cs
  (r, match rest with
    | some after => (skipSpace after).isEmpty
    | none => false)

/-- Decode a whole text. What follows the value is looked at last. -/
def decodeText {α : Type} (decode : Decoder α) (s : String) : Decoded α := do
  let (r, atEnd) := ofText s
  let a ← decode r
  if atEnd then pure a else throw .malformed

end Tenancy.Reading

namespace Tenancy

def Json.ofText (s : String) : Decoded Json :=
  Reading.decodeText (fun r => r.toJson Reading.maxLevels) s

end Tenancy

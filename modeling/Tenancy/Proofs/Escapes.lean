import Tenancy.Json.Printer
import Tenancy.Json.Reader
import Tenancy.Text.Percent

/-!
# Texts behind escapes

Two texts that are written with escapes in the same way are the same text. For a text in JSON this is so because
it is read back: `splitText_quoted` says that the reader comes upon the text and the closing quote, whatever
follows. For percent escapes the first character is found instead: what one character is written as never begins
what another one is written as (`Percent.first_of_encodeChar`), unless one of them is the percent sign, which
stands for itself and begins every escape. A text in which nothing was escaped is read as it stands
(`Percent.decode?_literal`).
-/

namespace Tenancy

/-! ## JSON -/

namespace Reading

/-- The characters that are written with a backslash before one other character. -/
def shortEscapes : List Char := ['"', '\\', '\n', '\r', '\t', '\x08', '\x0c']

/-- The unit that a character is read as when it was written between quotes. -/
def unitOf (c : Char) : Unit16 := if c ∈ shortEscapes ∨ 0x20 ≤ c.toNat then .char c else .code c.toNat

theorem splitUnits_escapeChar (c : Char) (rest : List Char) :
    splitUnits (Json.escapeChar c ++ rest) = (splitUnits rest).map fun p => (unitOf c :: p.1, p.2) := by
  by_cases short : c ∈ shortEscapes
  · simp only [shortEscapes, List.mem_cons, List.not_mem_nil, or_false] at short
    rcases short with rfl | rfl | rfl | rfl | rfl | rfl | rfl <;>
      cases h : splitUnits rest <;> simp [Json.escapeChar, splitUnits, unitOf, shortEscapes, h]
  · have other : ∀ e ∈ shortEscapes, c ≠ e := fun e he hce => short (hce ▸ he)
    simp only [shortEscapes, List.forall_mem_cons] at other
    obtain ⟨quote, backslash, newline, cr, tab, backspace, formFeed, -⟩ := other
    by_cases control : c.toNat < 0x20
    · have value : c.toNat / 4096 % 16 * 4096 + c.toNat / 256 % 16 * 256 + c.toNat / 16 % 16 * 16 +
          c.toNat % 16 = c.toNat := by omega
      have unit : unitOf c = .code c.toNat := if_neg (by simp [short, control])
      have digit (n : Nat) : Text.hexValue? (Text.hexDigit (n % 16)) = some (n % 16) :=
        Text.hexValue?_hexDigit (Nat.mod_lt n (by decide))
      cases h : splitUnits rest <;>
        simp [Json.escapeChar, splitUnits, Text.hex4, quote, backslash, newline, cr, tab, backspace, formFeed,
          control, unit, digit, value, h]
    · have unit : unitOf c = .char c := if_pos (.inr (by omega))
      cases h : splitUnits rest <;>
        simp [Json.escapeChar, splitUnits, quote, backslash, newline, cr, tab, backspace, formFeed, control,
          unit, h]

theorem joinUnits_unitOf (c : Char) (units : List Unit16) :
    joinUnits (unitOf c :: units) = (joinUnits units).map (c :: ·) := by
  unfold unitOf
  split
  · rw [joinUnits]
  · next h =>
    have low : ¬ (0xD800 ≤ c.toNat) := by omega
    have low' : ¬ (0xDC00 ≤ c.toNat) := by omega
    rcases units with _ | ⟨c' | n, units⟩ <;> simp [joinUnits, low, low']

/-- A text between quotes is read back, and what follows it is left. -/
theorem splitText_quoted (cs rest : List Char) :
    splitText (cs.flatMap Json.escapeChar ++ '"' :: rest) = some (some (String.ofList cs), rest) := by
  have units : splitUnits (cs.flatMap Json.escapeChar ++ '"' :: rest) = some (cs.map unitOf, rest) := by
    induction cs with
    | nil => rfl
    | cons c cs ih =>
      rw [List.flatMap_cons, List.append_assoc, splitUnits_escapeChar, ih]
      rfl
  have chars : joinUnits (cs.map unitOf) = some cs := by
    clear units
    induction cs with
    | nil => rfl
    | cons c cs ih => rw [List.map_cons, joinUnits_unitOf, ih, Option.map_some]
  rw [splitText, units, Option.map_some, chars, Option.map_some]

end Reading

theorem Json.quote_injective {s t : String} (h : Json.quote s = Json.quote t) : s = t := by
  have read := congrArg Reading.splitText (List.cons.inj (String.ofList_inj.1 h)).2
  rw [Reading.splitText_quoted, Reading.splitText_quoted] at read
  simpa using read

/-! ## Percent escapes -/

namespace Text.Percent

variable {toEscape : Char → Bool} {c d : Char} {x y : List Char}

theorem hexDigitUpper_injOn {m n : Nat} (hm : m < 16) (hn : n < 16)
    (h : hexDigitUpper m = hexDigitUpper n) : m = n := by
  have value := congrArg hexValue? h
  rw [hexValue?_hexDigitUpper hm, hexValue?_hexDigitUpper hn] at value
  exact Option.some.inj value

theorem escape_append_inj {a b : UInt8} (h : escape a ++ x = escape b ++ y) : a = b ∧ x = y := by
  simp only [escape, List.cons_append, List.nil_append, List.cons.injEq, true_and] at h
  obtain ⟨high, low, rest⟩ := h
  have ha := a.toNat_lt
  have hb := b.toNat_lt
  have high := hexDigitUpper_injOn (by omega) (by omega) high
  have low := hexDigitUpper_injOn (by omega) (by omega) low
  exact ⟨UInt8.toNat_inj.1 (by omega), rest⟩

/-- Of two runs of escapes at the start of a text one begins the other. -/
theorem prefix_of_escapes {as bs : List UInt8} (h : as.flatMap escape ++ x = bs.flatMap escape ++ y) :
    as <+: bs ∨ bs <+: as := by
  induction as generalizing bs with
  | nil => exact .inl List.nil_prefix
  | cons a as ih =>
    cases bs with
    | nil => exact .inr List.nil_prefix
    | cons b bs =>
      rw [List.flatMap_cons, List.flatMap_cons, List.append_assoc, List.append_assoc] at h
      obtain ⟨rfl, rest⟩ := escape_append_inj h
      exact (ih rest).imp (List.cons_prefix_cons.2 ⟨rfl, ·⟩) (List.cons_prefix_cons.2 ⟨rfl, ·⟩)

theorem eq_of_prefix_utf8EncodeChar (h : String.utf8EncodeChar c <+: String.utf8EncodeChar d) : c = d := by
  obtain ⟨more, h⟩ := h
  have first := ByteArray.utf8DecodeChar?_utf8EncodeChar_append (b := more.toByteArray) (c := c)
  have whole := ByteArray.utf8DecodeChar?_utf8EncodeChar_append (b := [].toByteArray) (c := d)
  rw [← List.toByteArray_append] at first whole
  rw [h] at first
  rw [List.append_nil, first] at whole
  exact Option.some.inj whole

theorem exists_escapes (c : Char) : ∃ more, (String.utf8EncodeChar c).flatMap escape = '%' :: more := by
  cases hb : String.utf8EncodeChar c with
  | nil => exact absurd hb (by simp)
  | cons b bs => exact ⟨_, rfl⟩

theorem encodeChar_ne_nil : encodeChar toEscape c ≠ [] := by
  obtain ⟨more, escapes⟩ := exists_escapes c
  unfold encodeChar
  split
  · rw [escapes]
    exact List.cons_ne_nil _ _
  · exact List.cons_ne_nil _ _

/-- What one character is written as does not begin what another one is written as. -/
theorem first_of_encodeChar (hc : c ≠ '%') (hd : d ≠ '%')
    (h : encodeChar toEscape c ++ x = encodeChar toEscape d ++ y) : c = d := by
  obtain ⟨more, hmore⟩ := exists_escapes c
  obtain ⟨more', hmore'⟩ := exists_escapes d
  unfold encodeChar at h
  split at h <;> split at h
  · exact (prefix_of_escapes h).elim eq_of_prefix_utf8EncodeChar fun h => (eq_of_prefix_utf8EncodeChar h).symm
  · rw [hmore] at h
    exact absurd (List.cons.inj h).1.symm hd
  · rw [hmore'] at h
    exact absurd (List.cons.inj h).1 hc
  · exact (List.cons.inj h).1

theorem encode_injOn {cs ds : List Char} (hc : '%' ∉ cs) (hd : '%' ∉ ds)
    (h : encode toEscape cs = encode toEscape ds) : cs = ds := by
  induction cs generalizing ds with
  | nil =>
    cases ds with
    | nil => rfl
    | cons d ds => exact absurd h.symm (by simp [encode, encodeChar_ne_nil])
  | cons c cs ih =>
    cases ds with
    | nil => exact absurd h (by simp [encode, encodeChar_ne_nil])
    | cons d ds =>
      have h : encodeChar toEscape c ++ encode toEscape cs = encodeChar toEscape d ++ encode toEscape ds := h
      obtain rfl := first_of_encodeChar (List.ne_of_not_mem_cons hc).symm (List.ne_of_not_mem_cons hd).symm h
      rw [ih (List.not_mem_of_not_mem_cons hc) (List.not_mem_of_not_mem_cons hd) (List.append_cancel_left h)]

theorem map_encode_injOn {parts parts' : List (List Char)} (h : ∀ s ∈ parts, '%' ∉ s)
    (h' : ∀ s ∈ parts', '%' ∉ s) (encoded : parts.map (encode toEscape) = parts'.map (encode toEscape)) :
    parts = parts' := by
  induction parts generalizing parts' with
  | nil => exact (List.map_eq_nil_iff.1 encoded.symm).symm
  | cons s parts ih =>
    cases parts' with
    | nil => exact absurd encoded (List.cons_ne_nil _ _)
    | cons s' parts' =>
      obtain ⟨hs, hparts⟩ := List.forall_mem_cons.1 h
      obtain ⟨hs', hparts'⟩ := List.forall_mem_cons.1 h'
      obtain ⟨first, rest⟩ := List.cons.inj encoded
      rw [encode_injOn hs hs' first, ih hparts hparts' rest]

/-- Escapes have no slashes. -/
theorem slash_not_mem_encode {cs : List Char} (h : '/' ∉ cs) : '/' ∉ encode toEscape cs := by
  have digit {n : Nat} (hn : n < 16) : hexDigitUpper n ≠ '/' := by
    have : ∀ m : Fin 16, hexDigitUpper m ≠ '/' := by decide
    exact this ⟨n, hn⟩
  have escapes (b : UInt8) : '/' ∉ escape b := by
    have hb := b.toNat_lt
    have high : hexDigitUpper (b.toNat / 16) ≠ '/' := digit (by omega)
    have low : hexDigitUpper (b.toNat % 16) ≠ '/' := digit (by omega)
    simp [escape, high.symm, low.symm]
  intro hm
  obtain ⟨c, hc, hm⟩ := List.mem_flatMap.1 hm
  unfold encodeChar at hm
  split at hm
  · obtain ⟨b, _, hb⟩ := List.mem_flatMap.1 hm
    exact escapes b hb
  · exact h (List.mem_singleton.1 hm ▸ hc)

/-! ### Texts without escapes -/

/-- A character that stands for itself in every part of an address. -/
def Literal (c : Char) : Prop := formKeeps c = true

theorem Literal.lt (h : Literal c) : c.toNat < 128 := by
  delta Literal formKeeps Char.isAlphanum Char.isAlpha Char.isUpper Char.isLower Char.isDigit at h
  simp only [Bool.or_eq_true, Bool.and_eq_true, decide_eq_true_eq, UInt32.le_iff_toNat_le] at h
  rcases h with ((((((h | h) | h) | rfl) | rfl) | rfl) | rfl)
  · exact Nat.lt_of_le_of_lt h.2 (by decide)
  · exact Nat.lt_of_le_of_lt h.2 (by decide)
  · exact Nat.lt_of_le_of_lt h.2 (by decide)
  all_goals decide

theorem Literal.ne (h : Literal c) (hd : formKeeps d = false) : c ≠ d := by
  rintro rfl
  rw [Literal, hd] at h
  cases h

theorem Literal.toNat_byte (h : Literal c) : (UInt8.ofNat c.toNat).toNat = c.toNat := by
  have low := h.lt
  rw [UInt8.toNat_ofNat', Nat.mod_eq_of_lt (by omega)]

theorem utf8EncodeChar_literal (h : Literal c) : String.utf8EncodeChar c = [UInt8.ofNat c.toNat] := by
  have low : c.val.toNat ≤ 127 := Nat.le_of_lt_succ h.lt
  simp only [String.utf8EncodeChar, if_pos low]
  rfl

theorem utf8Encode_literal {cs : List Char} (h : ∀ c ∈ cs, Literal c) :
    utf8Encode (String.ofList cs) = cs.map fun c => UInt8.ofNat c.toNat := by
  rw [utf8Encode, String.toList_ofList]
  induction cs with
  | nil => rfl
  | cons c cs ih =>
    rw [List.forall_mem_cons] at h
    rw [List.flatMap_cons, utf8EncodeChar_literal h.1, ih h.2]
    rfl

theorem utf8Chars_literal {cs : List Char} (h : ∀ c ∈ cs, Literal c) :
    utf8Chars (cs.map fun c => UInt8.ofNat c.toNat) = cs.map some := by
  induction cs with
  | nil =>
    rw [List.map_nil, utf8Chars]
    rfl
  | cons c cs ih =>
    rw [List.forall_mem_cons] at h
    have byte := h.1.toNat_byte
    have one (rest : Bytes) : nextChar (UInt8.ofNat c.toNat) rest = (some c, rest) := by
      have low : UInt8.ofNat c.toNat < 0x80 := by
        rw [UInt8.lt_iff_toNat_lt, byte]
        exact h.1.lt
      have width : charWidth (UInt8.ofNat c.toNat) = some 1 := by
        rw [charWidth, if_pos low]
      rw [nextChar, width]
      show (some (Char.ofNat (UInt8.ofNat c.toNat).toNat), rest) = _
      rw [byte, Char.ofNat_toNat]
    rw [List.map_cons, utf8Chars, one, ih h.2]
    rfl

theorem decodeBytes_of_unescaped {bs : Bytes} (h : ∀ b ∈ bs, b ≠ 0x25) : decodeBytes bs = bs := by
  fun_induction decodeBytes bs with
  | case1 => rfl
  | case2 => rfl
  | case3 => rfl
  | case4 => exact absurd rfl (h _ List.mem_cons_self)
  | case5 => exact absurd rfl (h _ List.mem_cons_self)
  | case6 a b c rest _ ih => rw [ih fun x hx => h x (List.mem_cons_of_mem _ hx)]

/-- A text of literal characters is read as it stands. -/
theorem decode?_literal {cs : List Char} (h : ∀ c ∈ cs, Literal c) : decode? cs = some (String.ofList cs) := by
  have unescaped : ∀ b ∈ cs.map fun c => UInt8.ofNat c.toNat, b ≠ 0x25 := by
    intro b hb same
    obtain ⟨c, hc, rfl⟩ := List.mem_map.1 hb
    have code := congrArg UInt8.toNat same
    rw [(h c hc).toNat_byte] at code
    have percent : c = '%' := Char.toNat_inj.1 code
    exact (h c hc).ne (by decide) percent
  have whole : (cs.map some).mapM id = some cs := by
    rw [List.mapM_map, Function.id_comp]
    show cs.mapM (fun c => (pure (id c) : Option Char)) = pure cs
    rw [List.mapM_pure, List.map_id]
  rw [decode?, utf8Encode_literal h, decodeBytes_of_unescaped unescaped, utf8Decode?, utf8Chars_literal h, whole]
  rfl

end Text.Percent

end Tenancy

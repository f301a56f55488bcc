import Tenancy.Proofs.Escapes

/-!
# Texts that are read back

The compact text of a value without numbers is read as that value, and nothing is left. `readValue_compact` says
so in front of any other text, by induction on the value: a value begins with a character that is neither a blank
nor the end of what it stands in (`Json.exists_opening`), so the reader takes it where it stands. Every level of
nesting and every comma costs the reader one step, and each of them has a character of the text to itself.
-/

namespace Tenancy

/-! ## Values without numbers -/

namespace Json

mutual

def NumberFree : Json → Prop
  | .number _ => False
  | .array items => ItemsNumberFree items
  | .object members => MembersNumberFree members
  | _ => True

def ItemsNumberFree : List Json → Prop
  | [] => True
  | j :: rest => j.NumberFree ∧ ItemsNumberFree rest

def MembersNumberFree : List (String × Json) → Prop
  | [] => True
  | (_, j) :: rest => j.NumberFree ∧ MembersNumberFree rest

end

theorem itemsNumberFree_iff {items : List Json} : ItemsNumberFree items ↔ ∀ j ∈ items, j.NumberFree := by
  induction items with
  | nil => simp [ItemsNumberFree]
  | cons j rest ih => rw [ItemsNumberFree, ih, List.forall_mem_cons]

theorem membersNumberFree_iff {members : List (String × Json)} :
    MembersNumberFree members ↔ ∀ m ∈ members, m.2.NumberFree := by
  induction members with
  | nil => simp [MembersNumberFree]
  | cons m rest ih =>
    obtain ⟨key, j⟩ := m
    rw [MembersNumberFree, ih, List.forall_mem_cons]

theorem numberFree_strings (xs : List String) : (strings xs).NumberFree := by
  rw [strings, NumberFree, itemsNumberFree_iff]
  intro j hj
  obtain ⟨s, _, rfl⟩ := List.mem_map.1 hj
  trivial

/-! ## What a text is made of -/

/-- What a value without numbers begins with. -/
def openings : List Char := ['"', '[', '\x7b', 'n', 't', 'f']

theorem toList_quote (s : String) : (quote s).toList = '"' :: (s.toList.flatMap escapeChar ++ ['"']) :=
  String.toList_ofList

theorem toList_array (items : List Json) :
    (array items).compact.toList = '[' :: ((compactItems items).toList ++ [']']) := by
  rw [compact, String.toList_append, String.toList_append]
  rfl

theorem toList_object (members : List (String × Json)) :
    (object members).compact.toList = '\x7b' :: ((compactMembers members).toList ++ ['\x7d']) := by
  rw [compact, String.toList_append, String.toList_append]
  rfl

theorem toList_items (j k : Json) (rest : List Json) : (compactItems (j :: k :: rest)).toList =
    j.compact.toList ++ ',' :: (compactItems (k :: rest)).toList := by
  rw [compactItems, String.toList_append, String.toList_append, List.append_assoc]
  rfl

theorem toList_member (key : String) (j : Json) :
    (compactMembers [(key, j)]).toList = (quote key).toList ++ ':' :: j.compact.toList := by
  rw [compactMembers, String.toList_append, String.toList_append, List.append_assoc]
  rfl

theorem toList_members (key : String) (j : Json) (m : String × Json) (rest : List (String × Json)) :
    (compactMembers ((key, j) :: m :: rest)).toList = (quote key).toList ++ ':' ::
      (j.compact.toList ++ ',' :: (compactMembers (m :: rest)).toList) := by
  rw [compactMembers, String.toList_append, String.toList_append, String.toList_append, String.toList_append]
  simp only [List.append_assoc]
  rfl

theorem exists_opening : {j : Json} → j.NumberFree → ∃ c ∈ openings, ∃ cs, j.compact.toList = c :: cs
  | .null, _ => ⟨'n', by decide, _, rfl⟩
  | .bool true, _ => ⟨'t', by decide, _, rfl⟩
  | .bool false, _ => ⟨'f', by decide, _, rfl⟩
  | .string s, _ => ⟨'"', by decide, _, toList_quote s⟩
  | .array items, _ => ⟨'[', by decide, _, toList_array items⟩
  | .object members, _ => ⟨'\x7b', by decide, _, toList_object members⟩

theorem exists_opening_items {j : Json} (free : j.NumberFree) (rest : List Json) :
    ∃ c ∈ openings, ∃ cs, (compactItems (j :: rest)).toList = c :: cs := by
  obtain ⟨c, opening, cs, text⟩ := exists_opening free
  cases rest with
  | nil => exact ⟨c, opening, cs, text⟩
  | cons k rest => exact ⟨c, opening, _, by rw [toList_items, text]; rfl⟩

theorem exists_quote_members (m : String × Json) (rest : List (String × Json)) :
    ∃ cs, (compactMembers (m :: rest)).toList = '"' :: cs := by
  obtain ⟨key, j⟩ := m
  cases rest with
  | nil => exact ⟨_, by rw [toList_member, toList_quote]; rfl⟩
  | cons m rest => exact ⟨_, by rw [toList_members, toList_quote]; rfl⟩

end Json

namespace Reading

variable {n : Nat} {c : Char} {cs after : List Char} {r : Reading}

theorem skipSpace_cons (h : isSpace c = false) : skipSpace (c :: cs) = c :: cs := by
  rw [skipSpace, List.dropWhile_cons, h]
  rfl

theorem isSpace_opening (h : c ∈ Json.openings) : isSpace c = false := by
  have all : Json.openings.all (fun c => !isSpace c) = true := by decide
  simpa using List.all_eq_true.1 all c h

/-! ## One step of the reader -/

theorem splitText_toList (s : String) (rest : List Char) :
    splitText (s.toList.flatMap Json.escapeChar ++ '"' :: rest) = some (some s, rest) := by
  rw [splitText_quoted, String.ofList_toList]

theorem readValue_text (s : String) (rest : List Char) :
    readValue (n + 1) ((Json.quote s).toList ++ rest) = (.string (some s), some rest) := by
  rw [Json.toList_quote, List.cons_append, List.append_assoc, List.singleton_append, readValue,
    skipSpace_cons (by decide)]
  simp only [splitText_toList]

theorem readWord_append (word : List Char) (r : Reading) (rest : List Char) :
    readWord word r (word ++ rest) = (r, some rest) := by
  rw [readWord, afterWord, List.take_left, if_pos rfl, List.drop_left]

/-- An array is read item by item. -/
theorem readValue_array (h : c ∈ Json.openings) : readValue (n + 1) ('[' :: c :: cs) =
    (.array (readItems n (c :: cs)).1 (readItems n (c :: cs)).2.isSome, (readItems n (c :: cs)).2) := by
  rw [readValue, skipSpace_cons (by decide)]
  simp only [skipSpace_cons (isSpace_opening h)]
  simp only [Json.openings, List.mem_cons, List.not_mem_nil, or_false] at h
  rcases h with rfl | rfl | rfl | rfl | rfl | rfl <;> rfl

/-- An object is read member by member. -/
theorem readValue_object : readValue (n + 1) ('\x7b' :: '"' :: cs) =
    (.object (readMembers n ('"' :: cs)).1 (readMembers n ('"' :: cs)).2.isSome, (readMembers n ('"' :: cs)).2) := by
  rw [readValue, skipSpace_cons (by decide)]
  simp only [skipSpace_cons (by decide : isSpace '"' = false)]
  rfl

theorem readItems_last (h : readValue n cs = (r, some (']' :: after))) :
    readItems (n + 1) cs = ([r], some after) := by
  rw [readItems, h]
  simp only [skipSpace_cons (by decide : isSpace ']' = false)]

theorem readItems_comma {next : List Char} (h : readValue n cs = (r, some (',' :: c :: next)))
    (opening : c ∈ Json.openings) :
    readItems (n + 1) cs = (r :: (readItems n (c :: next)).1, (readItems n (c :: next)).2) := by
  rw [readItems, h]
  simp only [skipSpace_cons (by decide : isSpace ',' = false), skipSpace_cons (isSpace_opening opening)]
  simp only [Json.openings, List.mem_cons, List.not_mem_nil, or_false] at opening
  rcases opening with rfl | rfl | rfl | rfl | rfl | rfl <;> rfl

theorem readMembers_last {key : String} {value : List Char} (h : readValue n value = (r, some ('\x7d' :: after))) :
    readMembers (n + 1) ((Json.quote key).toList ++ ':' :: value) = ([(some key, r)], some after) := by
  rw [Json.toList_quote, List.cons_append, List.append_assoc, List.singleton_append, readMembers,
    skipSpace_cons (by decide)]
  simp only [splitText_toList, h, skipSpace_cons (by decide : isSpace ':' = false),
    skipSpace_cons (by decide : isSpace '\x7d' = false)]

theorem readMembers_comma {key : String} {value next : List Char} (h : readValue n value = (r, some (',' :: next))) :
    readMembers (n + 1) ((Json.quote key).toList ++ ':' :: value) =
      ((some key, r) :: (readMembers n next).1, (readMembers n next).2) := by
  rw [Json.toList_quote, List.cons_append, List.append_assoc, List.singleton_append, readMembers,
    skipSpace_cons (by decide)]
  simp only [splitText_toList, h, skipSpace_cons (by decide : isSpace ':' = false),
    skipSpace_cons (by decide : isSpace ',' = false)]

/-! ## Printed and read -/

/-- The text of a value is not empty, so there is a step left to read it. -/
theorem exists_step {j : Json} (free : j.NumberFree) {fuel : Nat} (enough : 2 * j.compact.toList.length ≤ fuel) :
    ∃ n, fuel = n + 1 := by
  obtain ⟨c, _, cs, text⟩ := Json.exists_opening free
  rw [text, List.length_cons] at enough
  exact ⟨fuel - 1, by omega⟩

mutual

/-- A printed value is read back, and what follows it is left. -/
theorem readValue_compact : (j : Json) → j.NumberFree → ∀ n, 2 * j.compact.toList.length ≤ n + 1 → ∀ rest,
    readValue (n + 1) (j.compact.toList ++ rest) = (ofJson j, some rest)
  | .null, _ => by
    intro n _ rest
    show readValue (n + 1) ('n' :: ("ull".toList ++ rest)) = _
    rw [readValue, skipSpace_cons (by decide)]
    exact readWord_append "ull".toList .null rest
  | .bool true, _ => by
    intro n _ rest
    show readValue (n + 1) ('t' :: ("rue".toList ++ rest)) = _
    rw [readValue, skipSpace_cons (by decide)]
    exact readWord_append "rue".toList (.bool true) rest
  | .bool false, _ => by
    intro n _ rest
    show readValue (n + 1) ('f' :: ("alse".toList ++ rest)) = _
    rw [readValue, skipSpace_cons (by decide)]
    exact readWord_append "alse".toList (.bool false) rest
  | .string s, _ => fun _ _ rest => readValue_text s rest
  | .array [], _ => by
    intro n _ rest
    show readValue (n + 1) ('[' :: ']' :: rest) = _
    rw [readValue, skipSpace_cons (by decide)]
    rfl
  | .array (j :: items), free => by
    intro n enough rest
    rw [Json.toList_array, List.length_cons, List.length_append] at enough
    obtain ⟨n, rfl⟩ : ∃ m, n = m + 1 := ⟨n - 1, by omega⟩
    obtain ⟨c, opening, cs, text⟩ := Json.exists_opening_items free.1 items
    have read := readItems_compact (j :: items) (List.cons_ne_nil _ _) free n (by omega) rest
    rw [text, List.cons_append] at read
    rw [Json.toList_array, text, List.cons_append, List.cons_append, List.cons_append, List.append_assoc,
      List.singleton_append, readValue_array opening, read]
    rfl
  | .object [], _ => by
    intro n _ rest
    show readValue (n + 1) ('\x7b' :: '\x7d' :: rest) = _
    rw [readValue, skipSpace_cons (by decide)]
    rfl
  | .object (m :: members), free => by
    intro n enough rest
    rw [Json.toList_object, List.length_cons, List.length_append] at enough
    obtain ⟨n, rfl⟩ : ∃ m, n = m + 1 := ⟨n - 1, by omega⟩
    obtain ⟨cs, text⟩ := Json.exists_quote_members m members
    have read := readMembers_compact (m :: members) (List.cons_ne_nil _ _) free n (by omega) rest
    rw [text, List.cons_append] at read
    rw [Json.toList_object, text, List.cons_append, List.cons_append, List.cons_append, List.append_assoc,
      List.singleton_append, readValue_object, read]
    rfl

theorem readItems_compact : (items : List Json) → items ≠ [] → Json.ItemsNumberFree items →
    ∀ n, 2 * (Json.compactItems items).toList.length ≤ n → ∀ rest,
    readItems (n + 1) ((Json.compactItems items).toList ++ ']' :: rest) = (ofItems items, some rest)
  | [], ne, _ => absurd rfl ne
  | [j], _, free => by
    intro n enough rest
    obtain ⟨n, rfl⟩ := exists_step free.1 enough
    exact readItems_last (readValue_compact j free.1 n enough _)
  | j :: k :: items, _, free => by
    intro n enough rest
    rw [Json.toList_items, List.length_append, List.length_cons] at enough
    obtain ⟨n, rfl⟩ := exists_step free.1 (by omega : 2 * j.compact.toList.length ≤ n)
    obtain ⟨c, opening, cs, text⟩ := Json.exists_opening_items free.2.1 items
    have first := readValue_compact j free.1 n (by omega)
      (',' :: ((Json.compactItems (k :: items)).toList ++ ']' :: rest))
    have others := readItems_compact (k :: items) (List.cons_ne_nil _ _) free.2 n (by omega) rest
    rw [text, List.cons_append] at first others
    rw [Json.toList_items, List.append_assoc, List.cons_append, text, List.cons_append, readItems_comma first opening,
      others]
    rfl

theorem readMembers_compact : (members : List (String × Json)) → members ≠ [] → Json.MembersNumberFree members →
    ∀ n, 2 * (Json.compactMembers members).toList.length ≤ n → ∀ rest,
    readMembers (n + 1) ((Json.compactMembers members).toList ++ '\x7d' :: rest) = (ofMembers members, some rest)
  | [], ne, _ => absurd rfl ne
  | [(key, j)], _, free => by
    intro n enough rest
    rw [Json.toList_member, List.length_append, List.length_cons] at enough
    obtain ⟨n, rfl⟩ := exists_step free.1 (by omega : 2 * j.compact.toList.length ≤ n)
    rw [Json.toList_member, List.append_assoc, List.cons_append,
      readMembers_last (readValue_compact j free.1 n (by omega) ('\x7d' :: rest))]
    rfl
  | (key, j) :: m :: members, _, free => by
    intro n enough rest
    rw [Json.toList_members, List.length_append, List.length_cons, List.length_append, List.length_cons] at enough
    obtain ⟨n, rfl⟩ := exists_step free.1 (by omega : 2 * j.compact.toList.length ≤ n)
    have others := readMembers_compact (m :: members) (List.cons_ne_nil _ _) free.2 n (by omega) rest
    rw [Json.toList_members, List.append_assoc, List.cons_append, List.append_assoc, List.cons_append,
      readMembers_comma (readValue_compact j free.1 n (by omega) _), others]
    rfl

end

/-- A printed value without numbers is read back. -/
theorem ofText_compact {j : Json} (free : j.NumberFree) : ofText j.compact = (ofJson j, true) := by
  have read := readValue_compact j free (2 * j.compact.toList.length + 3) (by omega) []
  rw [List.append_nil] at read
  rw [ofText]
  simp only [read]
  rfl

theorem decodeText_of_read {α : Type} {decode : Decoder α} {text : String} {j : Json} {a : α}
    (read : ofText text = (ofJson j, true)) (said : decode (ofJson j) = .ok a) : decodeText decode text = .ok a := by
  rw [decodeText, read]
  show (decode (ofJson j) >>= fun a => if true then pure a else throw .malformed) = _
  rw [said]
  rfl

end Reading

end Tenancy

import Mathlib.Tactic.MkIffOfInductiveProp
import Tenancy.Http.Url
import Tenancy.Proofs.Escapes

/-!
# Plain addresses

What a request is sent to is read off the text of its address, and on the way dots are resolved, backslashes are
taken for slashes, and what follows a question mark or a number sign is taken for something else. A text that has
none of these is a segment of its own wherever it stands in a path (`isPlain`). An `Address` is made of such
segments: it is read as what it was made of (`Address.parse?_text`), and its path gives the segments back
(`Address.segments_inj`).
-/

namespace Tenancy

namespace Text

variable {c : Char} {s r part : List Char} {parts : List (List Char)} {p : Char → Bool}

theorem cutAt_append (hs : c ∉ s) (h : cutAt c r = part :: parts) :
    cutAt c (s ++ r) = (s ++ part) :: parts := by
  induction s with
  | nil => exact h
  | cons d s ih =>
    have hd : d ≠ c := (List.ne_of_not_mem_cons hs).symm
    rw [List.cons_append, cutAt, ih (List.not_mem_of_not_mem_cons hs)]
    simp [hd]

/-- Parts that are joined by a character that they do not have are found again. -/
theorem cutAt_join (hs : c ∉ s) (hp : ∀ part ∈ parts, c ∉ part) :
    cutAt c (s ++ parts.flatMap (c :: ·)) = s :: parts := by
  induction parts generalizing s with
  | nil => simpa using cutAt_append (r := []) hs rfl
  | cons part parts ih =>
    have tail := ih (hp part List.mem_cons_self) fun q hq => hp q (List.mem_cons_of_mem _ hq)
    have cut : cutAt c ((part :: parts).flatMap (c :: ·)) = [] :: part :: parts := by
      rw [List.flatMap_cons, List.cons_append, cutAt, tail]
      simp
    simpa using cutAt_append hs cut

theorem join_inj {parts' : List (List Char)} (hp : ∀ part ∈ parts, c ∉ part) (hp' : ∀ part ∈ parts', c ∉ part)
    (h : parts.flatMap (c :: ·) = parts'.flatMap (c :: ·)) : parts = parts' := by
  have cut := cutAt_join (List.not_mem_nil (a := c)) hp
  rw [h, cutAt_join List.not_mem_nil hp'] at cut
  exact (List.cons.inj cut).2.symm

/-- A text is split where a property ends. -/
theorem takeWhile_dropWhile_append (hs : ∀ d ∈ s, p d = true) (hr : ∀ d ∈ r.head?, p d = false) :
    (s ++ r).takeWhile p = s ∧ (s ++ r).dropWhile p = r := by
  rw [List.takeWhile_append_of_pos hs, List.dropWhile_append_of_pos hs]
  cases r with
  | nil => simp
  | cons d r => simp [hr d rfl]

theorem dropWhile_eq_self (h : ∀ d ∈ s.head?, p d = false) : s.dropWhile p = s := by
  cases s with
  | nil => rfl
  | cons d s => simp [h d rfl]

theorem trimBy_eq_self (first : ∀ d ∈ s.head?, p d = false) (last : ∀ d ∈ s.getLast?, p d = false) :
    trimBy p s = s := by
  rw [trimBy, dropWhile_eq_self first, dropWhile_eq_self (by simpa using last), List.reverse_reverse]

end Text

namespace Http.Url

open Text (Percent.encode)

/-! ## Segments -/

/-- The character stands for itself, or is escaped, wherever it is in a path. -/
def plainChar (c : Char) : Bool := 0x20 ≤ c.toNat && c ∉ ['/', '\\', '?', '#', '%']

/-- The text is a segment of its own wherever it is in a path. -/
@[mk_iff]
structure Plain (s : List Char) : Prop where
  chars : s.all plainChar = true
  stays : isSingleDot s = false
  keeps : isDoubleDot s = false
  /-- A blank at the end of an address is no part of it. -/
  last : s.getLast? ≠ some ' '

instance (s : List Char) : Decidable (Plain s) := decidable_of_iff' _ (plain_iff s)

theorem plainChar_iff {c : Char} : plainChar c = true ↔
    0x20 ≤ c.toNat ∧ c ≠ '/' ∧ c ≠ '\\' ∧ c ≠ '?' ∧ c ≠ '#' ∧ c ≠ '%' := by
  simp [plainChar]

theorem Plain.char {s : List Char} (h : Plain s) {c : Char} (hc : c ∈ s) : plainChar c = true :=
  List.all_eq_true.1 h.chars c hc

theorem Plain.not_mem {s : List Char} (h : Plain s) :
    '/' ∉ s ∧ '\\' ∉ s ∧ '?' ∉ s ∧ '#' ∉ s ∧ '%' ∉ s := by
  refine ⟨fun hc => ?_, fun hc => ?_, fun hc => ?_, fun hc => ?_, fun hc => ?_⟩ <;>
    exact absurd (h.char hc) (by decide)

/-- Dots are resolved in segments that have none only by leaving them. -/
theorem resolve_of_plain {done parts : List (List Char)} (h : ∀ s ∈ parts, Plain s) :
    resolve done parts = done.reverse ++ parts := by
  induction parts generalizing done with
  | nil => simp [resolve]
  | cons s parts ih =>
    obtain ⟨hs, hparts⟩ := List.forall_mem_cons.1 h
    cases parts with
    | nil => simp [resolve, hs.stays, hs.keeps]
    | cons t parts =>
      rw [resolve, if_neg (by simp [hs.keeps]), if_neg (by simp [hs.stays]), ih hparts]
      simp

/-- The segments, each behind a slash. -/
def slashed (parts : List (List Char)) : List Char := parts.flatMap ('/' :: ·)

theorem slashed_inj {parts parts' : List (List Char)} (hp : ∀ s ∈ parts, '/' ∉ s)
    (hp' : ∀ s ∈ parts', '/' ∉ s) (h : slashed parts = slashed parts') : parts = parts' :=
  Text.join_inj hp hp' h

theorem mem_slashed {parts : List (List Char)} (h : ∀ s ∈ parts, Plain s) {c : Char}
    (hc : c ∈ slashed parts) : c = '/' ∨ plainChar c = true := by
  obtain ⟨s, hs, hc⟩ := List.mem_flatMap.1 hc
  exact (List.mem_cons.1 hc).imp_right (h s hs).char

theorem not_mem_slashed {parts : List (List Char)} (h : ∀ s ∈ parts, Plain s) :
    '\\' ∉ slashed parts ∧ '?' ∉ slashed parts ∧ '#' ∉ slashed parts := by
  refine ⟨fun hc => ?_, fun hc => ?_, fun hc => ?_⟩ <;>
    exact absurd (mem_slashed h hc) (by decide)

theorem getLast?_slashed {parts : List (List Char)} (h : ∀ s ∈ parts, Plain s) :
    (slashed parts).getLast? ≠ some ' ' := by
  induction parts with
  | nil => decide
  | cons s parts ih =>
    obtain ⟨hs, hparts⟩ := List.forall_mem_cons.1 h
    have own : ('/' :: s).getLast? ≠ some ' ' := by
      cases s with
      | nil => decide
      | cons c s => rw [List.getLast?_cons_cons]; exact hs.last
    have split : slashed (s :: parts) = ('/' :: s) ++ slashed parts := rfl
    rw [split, List.getLast?_append]
    cases hl : (slashed parts).getLast? with
    | none => exact own
    | some c => simpa [hl] using ih hparts

/-- The path of plain segments has them in their places, escaped. -/
theorem normalPath_slashed {parts : List (List Char)} (ne : parts ≠ []) (h : ∀ s ∈ parts, Plain s) :
    normalPath (slashed parts) = String.ofList (slashed (parts.map (Percent.encode escapedInPath))) := by
  obtain ⟨s, parts, rfl⟩ := List.exists_cons_of_ne_nil ne
  have straight : (slashed (s :: parts)).map (fun c => if c = '\\' then '/' else c) = slashed (s :: parts) := by
    refine (List.map_congr_left fun c hc => if_neg fun e => ?_).trans (List.map_id _)
    exact (not_mem_slashed h).1 (e ▸ hc)
  have split : slashed (s :: parts) = '/' :: (s ++ slashed parts) := rfl
  obtain ⟨hs, hparts⟩ := List.forall_mem_cons.1 h
  have cut : Text.cutAt '/' (s ++ slashed parts) = s :: parts :=
    Text.cutAt_join hs.not_mem.1 fun t ht => (hparts t ht).not_mem.1
  rw [normalPath, straight, split]
  simp only [cut, resolve_of_plain h, List.reverse_nil, List.nil_append]
  rfl

/-! ## Addresses -/

/-- A character that the name of a server may have. -/
def hostChar (c : Char) : Bool := !endsHost c && 0x20 < c.toNat

/-- The address of something on a server, segment by segment. -/
structure Address where
  secure : Bool
  authority : List Char
  segments : List (List Char)
  named : authority ≠ []
  host : authority.all hostChar = true
  plain : ∀ s ∈ segments, Plain s

namespace Address

def scheme (a : Address) : List Char := (if a.secure then "https" else "http").toList

def chars (a : Address) : List Char := a.scheme ++ ':' :: '/' :: '/' :: (a.authority ++ slashed a.segments)

/-- The address of something below. -/
def extend (a : Address) (more : List (List Char)) (h : ∀ s ∈ more, Plain s) : Address :=
  { a with segments := a.segments ++ more, plain := List.forall_mem_append.2 ⟨a.plain, h⟩ }

def path (a : Address) : String := String.ofList (slashed (a.segments.map (Percent.encode escapedInPath)))

theorem chars_extend (a : Address) {more : List (List Char)} (h : ∀ s ∈ more, Plain s) :
    (a.extend more h).chars = a.chars ++ slashed more := by
  have appended : slashed (a.extend more h).segments = slashed a.segments ++ slashed more := List.flatMap_append
  have same : (a.extend more h).scheme = a.scheme := rfl
  have server : (a.extend more h).authority = a.authority := rfl
  simp only [chars, same, server, appended, List.append_assoc, List.cons_append]

theorem scheme_cases (a : Address) :
    (a.secure = true ∧ a.scheme = ['h', 't', 't', 'p', 's']) ∨
      (a.secure = false ∧ a.scheme = ['h', 't', 't', 'p']) := by
  cases hs : a.secure <;> simp [scheme, hs]

theorem host_char (a : Address) {c : Char} (hc : c ∈ a.authority) : endsHost c = false ∧ 0x20 < c.toNat := by
  simpa [hostChar] using List.all_eq_true.1 a.host c hc

theorem cleaned_chars (a : Address) (h : a.segments ≠ []) : cleaned (String.ofList a.chars) = a.chars := by
  have above : ∀ c ∈ a.chars, 0x20 ≤ c.toNat := by
    intro c hc
    rcases List.mem_append.1 hc with hc | hc
    · have letters : ['h', 't', 't', 'p', 's'].all (fun c => 0x20 ≤ c.toNat) = true := by decide
      refine of_decide_eq_true (List.all_eq_true.1 letters c ?_)
      rcases a.scheme_cases with ⟨_, hs⟩ | ⟨_, hs⟩ <;> rw [hs] at hc
      · exact hc
      · exact List.mem_append_left ['s'] hc
    · simp only [List.mem_cons, List.mem_append] at hc
      rcases hc with rfl | rfl | rfl | hc | hc
      · decide
      · decide
      · decide
      · exact Nat.le_of_lt (a.host_char hc).2
      · rcases mem_slashed a.plain hc with rfl | hc
        · decide
        · exact (plainChar_iff.1 hc).1
  have first : ∀ c ∈ a.chars.head?, decide (c.toNat ≤ 0x20) = false := by
    rcases a.scheme_cases with ⟨_, hs⟩ | ⟨_, hs⟩ <;> simp [chars, hs]
  have last : ∀ c ∈ a.chars.getLast?, decide (c.toNat ≤ 0x20) = false := by
    intro c hc
    have there : slashed a.segments ≠ [] := by
      obtain ⟨s, parts, hs⟩ := List.exists_cons_of_ne_nil h
      simp [hs, slashed]
    have own : a.chars.getLast? = (slashed a.segments).getLast? := by
      have split : a.chars = (a.scheme ++ ':' :: '/' :: '/' :: a.authority) ++ slashed a.segments := by
        simp [chars]
      rw [split, List.getLast?_append, Option.or_of_isSome (by simpa using there)]
    have blank : c ≠ ' ' := fun e => getLast?_slashed a.plain (own.symm.trans (hc.trans (congrArg some e)))
    have value : c.toNat ≠ 0x20 := fun e => blank (Char.toNat_inj.1 e)
    have least := above c (List.mem_of_getLast? hc)
    simpa using by omega
  rw [cleaned, String.toList_ofList, Text.trimBy_eq_self first last, List.filter_eq_self]
  intro c hc
  have least := above c hc
  have control (d : Char) (hd : d.toNat < 0x20) : c ≠ d := fun e => by rw [e] at least; omega
  simp [control '\t' (by decide), control '\n' (by decide), control '\r' (by decide)]

theorem scheme?_chars (a : Address) :
    scheme? a.chars = some (a.secure, '/' :: '/' :: (a.authority ++ slashed a.segments)) := by
  rcases a.scheme_cases with ⟨hsecure, hs⟩ | ⟨hsecure, hs⟩ <;> simp [scheme?, chars, hs, hsecure]

/-- A plain address is read as what it was made of. -/
theorem parse?_chars (a : Address) (h : a.segments ≠ []) : parse? (String.ofList a.chars) =
    some { secure := a.secure, authority := String.ofList a.authority, path := a.path, query := none } := by
  obtain ⟨-, query, fragment⟩ := not_mem_slashed a.plain
  have start : ('/' :: '/' :: (a.authority ++ slashed a.segments)).dropWhile (fun c => c = '/' || c = '\\') =
      a.authority ++ slashed a.segments := by
    obtain ⟨c, authority, hc⟩ := List.exists_cons_of_ne_nil a.named
    have host : endsHost c = false := (a.host_char (hc ▸ List.mem_cons_self)).1
    have slash : c ≠ '/' ∧ c ≠ '\\' ∧ c ≠ '?' ∧ c ≠ '#' := by simpa [endsHost] using host
    simp [hc, slash]
  have server := Text.takeWhile_dropWhile_append (s := a.authority) (r := slashed a.segments)
    (p := fun c => !endsHost c) (fun c hc => by simp [(a.host_char hc).1]) (by
      obtain ⟨s, parts, hs⟩ := List.exists_cons_of_ne_nil h
      simp [hs, slashed, endsHost])
  have whole := Text.takeWhile_dropWhile_append (s := slashed a.segments) (r := []) (p := fun c => c ≠ '#')
    (fun c hc => decide_eq_true (fun e => fragment (e ▸ hc))) (by simp)
  have path := Text.takeWhile_dropWhile_append (s := slashed a.segments) (r := []) (p := fun c => c ≠ '?')
    (fun c hc => decide_eq_true (fun e => query (e ▸ hc))) (by simp)
  rw [List.append_nil] at whole path
  have named : a.authority.isEmpty = false := by simp [a.named]
  rw [parse?, a.cleaned_chars h, scheme?_chars]
  simp only [Option.bind_eq_bind, Option.bind_some, start, server.1, server.2, whole.1, path.1, path.2, named,
    normalPath_slashed h a.plain]
  rfl

/-- The path gives the segments back. -/
theorem segments_inj {a b : Address} (h : a.path = b.path) : a.segments = b.segments := by
  have slashless (a : Address) : ∀ s ∈ a.segments.map (Percent.encode escapedInPath), '/' ∉ s := by
    intro s hs
    obtain ⟨t, ht, rfl⟩ := List.mem_map.1 hs
    exact Text.Percent.slash_not_mem_encode (a.plain t ht).not_mem.1
  exact Text.Percent.map_encode_injOn (fun s hs => (a.plain s hs).not_mem.2.2.2.2)
    (fun s hs => (b.plain s hs).not_mem.2.2.2.2)
    (slashed_inj (slashless a) (slashless b) (String.ofList_inj.1 h))

end Address

end Http.Url

end Tenancy

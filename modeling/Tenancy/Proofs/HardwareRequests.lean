import Tenancy.Backend.Hardware
import Tenancy.Proofs.Addresses

/-!
# Which request is which

A call about a collection is one request, and the names in the call are put into its path as they are. So the path
of a request need not say which call it is for. Two calls have requests of the same text if they are the same, or
if both delete something and the name of a collection has `/members` in it, where it can be cut in two ways
(`Mistaken`); there are no other cases (`sameText_iff`).

Requests of different texts can still go to the same place, since dots in a path are resolved, and question marks
and other signs have a meaning of their own. If nothing that is named in a call has any of these, its request goes
to a place of its own (`eq_of_sameTarget`). Members that are added are in the body, where every text stands for
itself.
-/

namespace Tenancy

open Http.Url

/-- The call is about one collection that it names, or about a member of it. -/
def HardwareCall.addresses : HardwareCall → Bool
  | get _ _ | delete _ _ | add _ _ _ | remove _ _ _ => true
  | create _ _ | listGroups | listComponents _ _ => false

namespace Backend.Hardware

/-! ## The requests -/

def method : HardwareCall → String
  | .get _ _ | .listGroups | .listComponents _ _ => "GET"
  | .create _ _ | .add _ _ _ => "POST"
  | .delete _ _ | .remove _ _ _ => "DELETE"

def path : HardwareCall → String
  | .get k n | .delete k n => collectionPath k n
  | .create k _ => root k
  | .add k n _ => membersPath k n
  | .remove k n m => memberPath k n m
  | .listGroups => "groups"
  | .listComponents type role => componentsPath type role

def body : HardwareCall → Option Json
  | .create k x => some (WireCollection.ofCollection k x).toJson
  | .add _ _ m => some (Json.ofMembers [("id", .string m)])
  | _ => none

def request (c : Rest.Client) (token : String) (call : HardwareCall) : Http.Outgoing :=
  c.request token (method call) (path call) (body call)

variable {c : Rest.Client}

/-! ## What comes back -/

/-- The answer that arrived. -/
def arrived (c : Rest.Client) (method path : String) (x : Except Http.TransportFault Http.Reply) :
    Except Error Http.Reply := x.mapError (c.unreachable method path)

/-- The answer that arrived, if it is a success. -/
def accepted (c : Rest.Client) (method path : String) (x : Except Http.TransportFault Http.Reply) :
    Except Error Http.Reply := do
  let r ← arrived c method path x
  if r.isSuccess then .ok r else .error (c.failed method path r)

/-- What is read from the answer that arrived. -/
def readFrom {α : Type} (c : Rest.Client) (path : String) (decode : Reading.Decoder α)
    (x : Except Http.TransportFault Http.Reply) : Except Error (Option α) :=
  arrived c "GET" path x >>= c.found path decode

/-- What a call comes to when this comes back. -/
def reading (c : Rest.Client) : (call : HardwareCall) → Except Http.TransportFault Http.Reply →
    Except Error call.Reply
  | .get k n, x =>
    (Option.map WireCollection.collection) <$> readFrom c (collectionPath k n) WireCollection.decode x
  | .create k _, x => discard (accepted c "POST" (root k) x)
  | .delete k n, x => discard (accepted c "DELETE" (collectionPath k n) x)
  | .add k n _, x => discard (accepted c "POST" (membersPath k n) x)
  | .remove k n m, x => discard (accepted c "DELETE" (memberPath k n m) x)
  | .listGroups, x =>
    (fun groups => (groups.getD []).map WireCollection.collection) <$>
      readFrom c "groups" (Reading.list WireCollection.decode) x
  | .listComponents type role, x =>
    (fun ids => ids.getD []) <$> readFrom c (componentsPath type role) componentsRecord.decode x

/-- The job takes a token, sends the request with it, and reads in this way what comes back. -/
def Exchanges {α : Type} (c : Rest.Client) (request : String → Http.Outgoing)
    (read : Except Http.TransportFault Http.Reply → Except Error α) (t : WireJob α) : Prop :=
  t = WireJob.token c.system >>= fun token => WireJob.exchange (request token) >>= fun x => liftExcept (read x)

namespace Exchanges

variable {α β : Type} {request : String → Http.Outgoing} {t : WireJob α}
  {read : Except Http.TransportFault Http.Reply → Except Error α}

theorem reading (h : Exchanges c request read t) (f : α → Except Error β) :
    Exchanges c request (fun x => read x >>= f) (t >>= fun a => liftExcept (f a)) := by
  have lift (x : Except Error α) :
      (liftExcept x >>= fun a => liftExcept (f a) : WireJob β) = liftExcept (x >>= f) := by
    cases x <;> rfl
  unfold Exchanges at h ⊢
  subst h
  simp only [bind_assoc, lift]

theorem send (c : Rest.Client) (method path : String) (body : Option Json) :
    Exchanges c (fun token => c.request token method path body) (arrived c method path)
      (c.send method path body) := by
  refine congrArg (WireJob.token c.system >>= ·) (funext fun token => ?_)
  refine congrArg (WireJob.exchange (c.request token method path body) >>= ·) (funext fun x => ?_)
  cases x <;> rfl

theorem map (h : Exchanges c request read t) (f : α → β) :
    Exchanges c request (fun x => f <$> read x) (f <$> t) := by
  have same (x : Except Error α) : f <$> x = x >>= fun a => .ok (f a) := by
    cases x <;> rfl
  rw [map_eq_pure_bind]
  simp only [same]
  exact h.reading fun a => .ok (f a)

theorem discard (h : Exchanges c request read t) :
    Exchanges c request (fun x => Functor.discard (read x)) (Functor.discard t) := by
  have same (x : Except Error α) : Functor.discard x = Function.const α () <$> x := by
    cases x <;> rfl
  simp only [same]
  rw [Functor.discard, map_const]
  exact h.map (Function.const α ())

theorem expect (c : Rest.Client) (method path : String) (body : Option Json) :
    Exchanges c (fun token => c.request token method path body) (accepted c method path)
      (c.expect method path body) := by
  have answer : c.expect method path body = c.send method path body >>= fun r =>
      liftExcept (if r.isSuccess then .ok r else .error (c.failed method path r)) := by
    refine congrArg (c.send method path body >>= ·) (funext fun r => ?_)
    split <;> rfl
  rw [answer]
  exact (send c method path body).reading _

theorem getJson (c : Rest.Client) (path : String) (decode : Reading.Decoder α) :
    Exchanges c (fun token => c.request token "GET" path none) (readFrom c path decode)
      (c.getJson path decode) :=
  (send c "GET" path none).reading _

end Exchanges

/-- A call takes a token, sends its request, and reads what comes back. -/
theorem exchanges_perform (c : Rest.Client) (call : HardwareCall) :
    Exchanges c (fun token => request c token call) (reading c call) (perform c call) := by
  cases call with
  | get k n => exact (Exchanges.getJson c _ _).map (Option.map WireCollection.collection)
  | create k x => exact (Exchanges.expect c _ _ _).discard
  | delete k n => exact (Exchanges.expect c _ _ _).discard
  | add k n m => exact (Exchanges.expect c _ _ _).discard
  | remove k n m => exact (Exchanges.expect c _ _ _).discard
  | listGroups =>
    exact (Exchanges.getJson c _ _).map fun groups => (groups.getD []).map WireCollection.collection
  | listComponents type role => exact (Exchanges.getJson c _ _).map fun ids => ids.getD []

/-! ## Paths -/

/-- The segments of the path of a call that is about one collection. -/
def segments : HardwareCall → List (List Char)
  | .get k n | .delete k n => [(root k).toList, n.toList]
  | .add k n _ => [(root k).toList, n.toList, "members".toList]
  | .remove k n m => [(root k).toList, n.toList, "members".toList, m.toList]
  | _ => []

variable {x y : HardwareCall}

theorem slashed_segments (hx : x.addresses = true) : slashed (segments x) = '/' :: (path x).toList := by
  cases x with
  | create | listGroups | listComponents => cases hx
  | get | delete => simp [slashed, segments, path, collectionPath]
  | add => simp [slashed, segments, path, membersPath, collectionPath]
  | remove => simp [slashed, segments, path, memberPath, membersPath, collectionPath]

theorem toList_url (c : Rest.Client) (hx : x.addresses = true) :
    (c.url (path x)).toList = (Text.trimEndOf '/' c.baseUrl).toList ++ slashed (segments x) := by
  have first : ∀ d ∈ (path x).toList.head?, (d == '/') = false := by
    cases x with
    | create | listGroups | listComponents => cases hx
    | get k | delete k => cases k <;> simp [path, collectionPath, root]
    | add k => cases k <;> simp [path, membersPath, collectionPath, root]
    | remove k => cases k <;> simp [path, memberPath, membersPath, collectionPath, root]
  have start : Text.trimStartOf '/' (path x) = path x := by
    rw [Text.trimStartOf, Text.dropWhile_eq_self first, String.ofList_toList]
  rw [slashed_segments hx, Rest.Client.url, start]
  simp

theorem url_eq_iff {c : Rest.Client} (hx : x.addresses = true) (hy : y.addresses = true) :
    c.url (path x) = c.url (path y) ↔ slashed (segments x) = slashed (segments y) := by
  rw [← String.toList_inj, toList_url c hx, toList_url c hy, List.append_cancel_left_eq]

theorem root_append_inj {k k' : Kind} {a b : List Char}
    (h : (root k).toList ++ '/' :: a = (root k').toList ++ '/' :: b) : k = k' ∧ a = b := by
  -- the two places differ in their first letters
  cases k <;> cases k'
  · exact ⟨rfl, (List.cons.inj (List.append_cancel_left h)).2⟩
  · exact absurd (List.cons.inj h).1 (by decide)
  · exact absurd (List.cons.inj h).1 (by decide)
  · exact ⟨rfl, (List.cons.inj (List.append_cancel_left h)).2⟩

theorem named_inj {k k' : Kind} {n n' : String} {rest rest' : List (List Char)}
    (h : (root k).toList :: n.toList :: rest = (root k').toList :: n'.toList :: rest') :
    k = k' ∧ n = n' ∧ rest = rest' := by
  obtain ⟨hk, h⟩ := List.cons.inj h
  obtain ⟨hn, hrest⟩ := List.cons.inj h
  exact ⟨(root_append_inj (congrArg (· ++ ['/']) hk)).1, String.toList_inj.1 hn, hrest⟩

theorem compact_member_inj {m m' : String}
    (h : (Json.ofMembers [("id", .string m)]).compact = (Json.ofMembers [("id", .string m')]).compact) :
    m = m' := by
  have compact (m : String) : (Json.ofMembers [("id", .string m)]).compact =
      "\x7b" ++ (Json.quote "id" ++ ":" ++ Json.quote m) ++ "\x7d" := rfl
  have texts := congrArg String.toList h
  rw [compact, compact] at texts
  simp only [String.toList_append, List.append_cancel_right_eq, List.append_cancel_left_eq] at texts
  exact Json.quote_injective (String.toList_inj.1 texts)

/-- Two calls about one collection each, with the same method. -/
inductive SameMethod : HardwareCall → HardwareCall → Prop
  | get (k k' : Kind) (n n' : String) : SameMethod (.get k n) (.get k' n')
  | add (k k' : Kind) (n n' m m' : String) : SameMethod (.add k n m) (.add k' n' m')
  | delete (k k' : Kind) (n n' : String) : SameMethod (.delete k n) (.delete k' n')
  | remove (k k' : Kind) (n n' m m' : String) : SameMethod (.remove k n m) (.remove k' n' m')
  | deleteRemove (k k' : Kind) (n n' m' : String) : SameMethod (.delete k n) (.remove k' n' m')
  | removeDelete (k k' : Kind) (n n' m : String) : SameMethod (.remove k n m) (.delete k' n')

theorem sameMethod_of_eq (hx : x.addresses = true) (hy : y.addresses = true) (hm : method x = method y) :
    SameMethod x y := by
  cases x <;> cases y <;> first | constructor | simp [method, HardwareCall.addresses] at hx hy hm

/-- The method, the segments of the path and the body are those of one call. -/
theorem eq_of_segments (hx : x.addresses = true) (hy : y.addresses = true) (hm : method x = method y)
    (hs : segments x = segments y) (hb : (body x).map Json.compact = (body y).map Json.compact) : x = y := by
  cases sameMethod_of_eq hx hy hm with
  | get =>
    obtain ⟨rfl, rfl, _⟩ := named_inj hs
    rfl
  | add =>
    obtain ⟨rfl, rfl, _⟩ := named_inj hs
    rw [compact_member_inj (Option.some.inj hb)]
  | delete =>
    obtain ⟨rfl, rfl, _⟩ := named_inj hs
    rfl
  | remove =>
    obtain ⟨rfl, rfl, rest⟩ := named_inj hs
    obtain rfl := String.toList_inj.1 (List.cons.inj (List.cons.inj rest).2).1
    rfl
  | deleteRemove => exact absurd (congrArg List.length hs) (by simp [segments])
  | removeDelete => exact absurd (congrArg List.length hs) (by simp [segments])

/-! ## Mistakes -/

/-- The request for the one call is taken for the request for the other: both delete something, and where the name
of the collection has `/members` in it, it can be cut in two ways. -/
inductive Mistaken : HardwareCall → HardwareCall → Prop
  | collection (k : Kind) (n m : String) : Mistaken (.delete k (n ++ "/members/" ++ m)) (.remove k n m)
  | inside (k : Kind) (n s m : String) :
      Mistaken (.remove k (n ++ "/members/" ++ s) m) (.remove k n (s ++ "/members/" ++ m))
  | between (k : Kind) (n m : String) : Mistaken (.remove k (n ++ "/members") m) (.remove k n ("members/" ++ m))

theorem same_of_mistaken (h : Mistaken x y) : method x = method y ∧
    slashed (segments x) = slashed (segments y) ∧ body x = body y := by
  cases h <;> exact ⟨rfl, by simp [segments, slashed], rfl⟩

/-- A text after `/members/` that has `/members/` in it again. -/
theorem members_overlap {s b d : List Char} (h : "/members/".toList ++ b = s ++ ("/members/".toList ++ d)) :
    (s = [] ∧ b = d) ∨ (∃ u, s = "/members/".toList ++ u ∧ b = u ++ ("/members/".toList ++ d)) ∨
      (s = "/members".toList ∧ b = "members/".toList ++ d) := by
  -- only the slash at its end is also its beginning
  have border : ∀ i ≤ 9, "/members/".toList.drop i <+: "/members/".toList → i = 0 ∨ i = 8 ∨ i = 9 := by decide
  rcases List.append_eq_append_iff.1 h with ⟨u, rfl, rfl⟩ | ⟨r, hs, hd⟩
  · exact .inr (.inl ⟨u, rfl, rfl⟩)
  · have length : s.length ≤ 9 := by
      have lengths := congrArg List.length hs
      rw [List.length_append, show "/members/".toList.length = 9 from rfl] at lengths
      omega
    have hr : r = "/members/".toList.drop s.length := by rw [hs, List.drop_left]
    have cut : s = "/members/".toList.take s.length := by rw [hs, List.take_left]
    have shorter : r.length ≤ "/members/".toList.length := by rw [hr, List.length_drop]; exact Nat.sub_le _ _
    have first : r <+: "/members/".toList :=
      List.prefix_of_prefix_length_le ⟨b, hd.symm⟩ (List.prefix_append _ d) shorter
    rcases border s.length length (hr ▸ first) with hl | hl | hl
    · rw [hl] at hr cut
      obtain rfl := hr
      exact .inl ⟨cut, (List.append_cancel_left hd).symm⟩
    · rw [hl] at hr cut
      obtain rfl := hr
      exact .inr (.inr ⟨cut, (List.cons.inj hd).2.symm⟩)
    · rw [hl] at hr cut
      obtain rfl := hr
      exact .inr (.inl ⟨[], cut, hd.symm⟩)

theorem mistaken_of_longer {k : Kind} {n n' m m' : String} {s : List Char} (hn : n'.toList = n.toList ++ s)
    (h : "/members/".toList ++ m.toList = s ++ ("/members/".toList ++ m'.toList)) :
    HardwareCall.remove k n' m' = .remove k n m ∨ Mistaken (.remove k n' m') (.remove k n m) := by
  rcases members_overlap h with ⟨rfl, hm⟩ | ⟨u, rfl, hm⟩ | ⟨rfl, hm⟩
  · obtain rfl : n' = n := String.toList_inj.1 (by rw [hn, List.append_nil])
    obtain rfl := String.toList_inj.1 hm
    exact .inl rfl
  · obtain rfl : n' = n ++ "/members/" ++ String.ofList u := String.toList_inj.1 (by simp [hn])
    obtain rfl : m = String.ofList u ++ "/members/" ++ m' := String.toList_inj.1 (by simp [hm])
    exact .inr (.inside k n _ m')
  · obtain rfl : n' = n ++ "/members" := String.toList_inj.1 (by simp [hn])
    obtain rfl : m = "members/" ++ m' := String.toList_inj.1 (by simp [hm])
    exact .inr (.between k n m')

/-- The requests have the same text, apart from the token. -/
def SameText (r r' : Http.Outgoing) : Prop := r.method = r'.method ∧ r.url = r'.url ∧ r.body = r'.body

/-- Requests of the same text are those of one call, or of two that are mistaken for one another. -/
theorem sameText_iff {c : Rest.Client} {token token' : String} (hx : x.addresses = true)
    (hy : y.addresses = true) :
    SameText (request c token x) (request c token' y) ↔ x = y ∨ Mistaken x y ∨ Mistaken y x := by
  have collection {k k' : Kind} {n n' m' : String}
      (hs : slashed (segments (.delete k n)) = slashed (segments (.remove k' n' m'))) :
      Mistaken (.delete k n) (.remove k' n' m') := by
    obtain ⟨rfl, h⟩ := root_append_inj (by simpa [slashed, segments] using hs)
    obtain rfl : n = n' ++ "/members/" ++ m' := String.toList_inj.1 (by simp [h])
    exact .collection k n' m'
  constructor
  · rintro ⟨hm, hurl, hb⟩
    have hs := (url_eq_iff hx hy).1 hurl
    cases sameMethod_of_eq hx hy hm with
    | get =>
      obtain ⟨rfl, h⟩ := root_append_inj (by simpa [slashed, segments] using hs)
      rw [String.toList_inj.1 h]
      exact .inl rfl
    | add k k' n n' =>
      obtain ⟨rfl, h⟩ := root_append_inj (by simpa [slashed, segments] using hs)
      obtain rfl : n = n' := String.toList_inj.1 (List.append_cancel_right h)
      rw [compact_member_inj (Option.some.inj hb)]
      exact .inl rfl
    | delete =>
      obtain ⟨rfl, h⟩ := root_append_inj (by simpa [slashed, segments] using hs)
      rw [String.toList_inj.1 h]
      exact .inl rfl
    | remove k k' n n' m m' =>
      obtain ⟨rfl, h⟩ := root_append_inj (by simpa [slashed, segments] using hs)
      rcases List.append_eq_append_iff.1 h with ⟨s, hn, h⟩ | ⟨s, hn, h⟩
      · exact (mistaken_of_longer hn h).imp Eq.symm .inr
      · exact (mistaken_of_longer hn h).imp id .inl
    | deleteRemove => exact .inr (.inl (collection hs))
    | removeDelete => exact .inr (.inr (collection hs.symm))
  · rintro (rfl | h | h)
    · exact ⟨rfl, rfl, rfl⟩
    · obtain ⟨hm, hs, hb⟩ := same_of_mistaken h
      exact ⟨hm, (url_eq_iff hx hy).2 hs, congrArg (Option.map Json.compact) hb⟩
    · obtain ⟨hm, hs, hb⟩ := same_of_mistaken h
      exact ⟨hm.symm, (url_eq_iff hx hy).2 hs.symm, congrArg (Option.map Json.compact) hb.symm⟩

/-! ## What is sent -/

/-- The requests go to the same place with the same method and body. -/
def SameTarget (r r' : Http.Outgoing) : Prop :=
  r.method = r'.method ∧ parse? r.url = parse? r'.url ∧ r.body = r'.body

/-- Nothing that the call names has a special meaning in a path. -/
abbrev PlainNames (x : HardwareCall) : Prop := ∀ s ∈ segments x, Plain s

/-- The service is at a plain address; slashes at its end do not count. -/
def Rooted (c : Rest.Client) : Prop := ∃ a : Address, (Text.trimEndOf '/' c.baseUrl).toList = a.chars

theorem segments_ne_nil (hx : x.addresses = true) : segments x ≠ [] := by
  cases x with
  | create | listGroups | listComponents => cases hx
  | get | delete | add | remove => exact List.cons_ne_nil _ _

/-- Plain names are found again where the request goes. -/
theorem eq_of_sameTarget {c : Rest.Client} {token token' : String} (rooted : Rooted c)
    (hx : x.addresses = true) (hy : y.addresses = true) (plain : PlainNames x) (plain' : PlainNames y)
    (h : SameTarget (request c token x) (request c token' y)) : x = y := by
  obtain ⟨a, root⟩ := rooted
  obtain ⟨hm, target, hb⟩ := h
  have read {z : HardwareCall} (hz : z.addresses = true) (names : PlainNames z) :
      parse? (c.url (path z)) = some {
        secure := a.secure
        authority := String.ofList a.authority
        path := (a.extend _ names).path
        query := none } := by
    have text : c.url (path z) = String.ofList (a.extend _ names).chars := by
      rw [Address.chars_extend, ← root, ← toList_url c hz, String.ofList_toList]
    rw [text]
    exact Address.parse?_chars _ (List.append_ne_nil_of_right_ne_nil _ (segments_ne_nil hz))
  have paths : (a.extend _ plain).path = (a.extend _ plain').path := by
    have targets := (read hx plain).symm.trans (target.trans (read hy plain'))
    exact congrArg Target.path (Option.some.inj targets)
  exact eq_of_segments hx hy hm (List.append_cancel_left (Address.segments_inj paths)) hb

/-- When requests have the same text, the calls are the same or are mistaken for one another, and only then. When
they go to the same place and name only what is plain, the calls are the same. -/
theorem requests_told_apart (c : Rest.Client) (token token' : String) (hx : x.addresses = true)
    (hy : y.addresses = true) :
    (SameText (request c token x) (request c token' y) ↔ x = y ∨ Mistaken x y ∨ Mistaken y x) ∧
      (Rooted c → PlainNames x → PlainNames y → SameTarget (request c token x) (request c token' y) →
        x = y) :=
  ⟨sameText_iff hx hy, fun rooted plain plain' same => eq_of_sameTarget rooted hx hy plain plain' same⟩

def gateway : Rest.Client where
  system := .hardware
  baseUrl := "https://api-gw/apis/smd/hsm/v2"

theorem rooted_gateway : Rooted gateway := by
  refine ⟨{
    secure := true
    authority := "api-gw".toList
    segments := ["apis".toList, "smd".toList, "hsm".toList, "v2".toList]
    named := by decide
    host := by decide
    plain := by decide }, by decide +kernel⟩

/-- A partition is told from its members. -/
theorem deletion_told_from_removal :
    ¬ SameTarget (request gateway "t" (.delete .partition "p"))
      (request gateway "t" (.remove .partition "p" "x1")) := by
  intro same
  have apart := requests_told_apart gateway "t" "t" (x := .delete .partition "p")
    (y := .remove .partition "p" "x1") rfl rfl
  cases apart.2 rooted_gateway (by decide) (by decide) same

/-- A partition that can be declared is taken for a member of another one, and what is to be removed from a
partition is taken for a group. -/
theorem name_taken_for_member :
    Kind.partition.target? { label := "compute", partition := "p/members/x1" } = some "p/members/x1" ∧
      SameText (request gateway "t" (.delete .partition "p/members/x1"))
        (request gateway "t" (.remove .partition "p" "x1")) ∧
      SameTarget (request gateway "t" (.remove .partition "p" "../../../groups/g"))
        (request gateway "t" (.delete .group "g")) :=
  ⟨by decide +kernel, ⟨rfl, by decide +kernel, rfl⟩, rfl, by decide +kernel, rfl⟩

end Backend.Hardware

end Tenancy

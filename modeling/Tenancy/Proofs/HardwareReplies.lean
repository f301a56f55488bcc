import Tenancy.Lifecycle.Action
import Tenancy.Proofs.Courses
import Tenancy.Proofs.HardwareRequests
import Tenancy.Proofs.WireJobs

/-!
# From replies to what follows a pass

Over the network a call to the hardware service is a token and then a request with this token (`Sent`). What
becomes of the two is the `Fate` of the call: there was no token, no answer arrived, or one did. It is judged
three times. The client makes a result or an error of it (`Ends`); the work goes on after some errors and ends
with the others, in front of whose message it puts what was attempted; and at last the error decides how soon the
tenant is looked at again.

Errors keep no status of 500 or more, and not 429, so the later judgements do not see the reply as it was. They
come to the right end even so: the work goes on exactly if the fate was acceptable for the call
(`agrees_iff_acceptable`), and its error can be retried exactly if the failure may pass by itself
(`isRetryable_iff_transient`).

A `Trip` is a call with all that is asked for it, and a `Journey` the trips for planned calls, up to the first
whose fate is not acceptable.
-/

namespace Tenancy.Backend

open Error (of?_map of?_discard)
open Rest
open Tenancy.Hardware (agrees finds converge itinerary Refuses exists_of_mem_itinerary)

variable {σ : Type} {R : Conduct Network σ} {s s' : σ} {tr : List (Moment Network σ)} {c : Rest.Client}

namespace Hardware

/-! ## One call -/

section

variable {call : HardwareCall}

/-- What became of a call. -/
inductive Fate where
  /-- No token could be had. -/
  | denied (e : Error)
  /-- No answer arrived. -/
  | lost (f : Http.TransportFault)
  | replied (r : Http.Reply)

/-- What is asked and answered for a call: a token, which is asked for once, and then the request with this
token, if there is a token and the request can be sent. -/
inductive Sent (c : Rest.Client) (call : HardwareCall) : List (Moment Network σ) → Prop
  | denied {s : σ} {e : Error} : Sent c call [⟨s, .wire (.token c.system), .error e⟩]
  | kept {s : σ} {token : String} (unsendable : (request c token call).isSendable = false) :
      Sent c call [⟨s, .wire (.token c.system), .ok token⟩]
  | sent {s s₁ : σ} {token : String} {x : Except Http.TransportFault Http.Reply}
      (sendable : (request c token call).isSendable = true) :
      Sent c call [⟨s, .wire (.token c.system), .ok token⟩, ⟨s₁, .wire (.exchange (request c token call)), x⟩]

def fate : List (Moment Network σ) → Fate
  | [⟨_, .wire (.token _), .error e⟩] => .denied e
  | [_, ⟨_, .wire (.exchange _), .error f⟩] => .lost f
  | [_, ⟨_, .wire (.exchange _), .ok r⟩] => .replied r
  | _ => .lost .unsendable

def Fate.outcome (c : Rest.Client) (call : HardwareCall) : Fate → Except Error call.Reply
  | .denied e => .error e
  | .lost f => reading c call (.error f)
  | .replied r => reading c call (.ok r)

theorem perform_goes {R : Conduct Wire σ} {tr : List (Moment Wire σ)} {o : Except Error call.Reply}
    (h : Dialogue.Goes R (perform c call).run s tr o s') :
    Sent c call (tr.map wired) ∧ o = (fate (tr.map wired)).outcome c call := by
  rw [show perform c call = _ from exchanges_perform c call] at h
  rcases Dialogue.Goes.of_bind_except h with ⟨e, rfl, asked⟩ | ⟨token, s₁, tr₁, tr₂, asked, rest, rfl⟩
  · obtain rfl := Dialogue.Goes.of_query asked
    exact ⟨.denied, rfl⟩
  · obtain rfl := Dialogue.Goes.of_query asked
    rcases Dialogue.Goes.of_bind_except rest with ⟨e, rfl, sent⟩ | ⟨x, s₂, tr₃, tr₄, sent, last, rfl⟩
    · rcases goes_exchange sent with ⟨_, _, ho⟩ | ⟨_, _, _, ho⟩ <;> cases ho
    · obtain ⟨rfl, rfl, _⟩ := goes_read last
      rcases goes_exchange sent with ⟨unsendable, rfl, ho⟩ | ⟨x', sendable, rfl, ho⟩
      · cases ho
        exact ⟨.kept unsendable, rfl⟩
      · cases ho
        refine ⟨.sent sendable, ?_⟩
        cases x <;> rfl

/-! ## What is acceptable -/

/-- The body says what the call asks for. -/
def Readable : HardwareCall → String → Prop
  | .get _ _, body => ∃ x, Reading.decodeText WireCollection.decode body = .ok x
  | .listGroups, body => ∃ x, Reading.decodeText (Reading.list WireCollection.decode) body = .ok x
  | .listComponents _ _, body => ∃ x, Reading.decodeText componentsRecord.decode body = .ok x
  | _, _ => True

/-- The answer is one that the work can go on after: what is looked at can be read or is not there, what is to be
made is made or was there, and what is to go is gone. -/
def Acceptable (call : HardwareCall) : Fate → Prop
  | .replied r =>
    match call with
    | .get _ _ | .listGroups | .listComponents _ _ =>
      r.status = 404 ∨ (r.isSuccess = true ∧ Readable call r.body)
    | .create _ _ | .add _ _ _ => r.isSuccess = true ∨ r.status = 409
    | .delete _ _ | .remove _ _ _ => r.isSuccess = true ∨ r.status = 404
  | _ => False

/-- The failure may pass by itself: there was no token or no answer, or the service says that it failed or is asked
too often. -/
def Transient : Fate → Prop
  | .replied r => 500 ≤ r.status ∨ r.status = 429
  | _ => True

/-- The ways in which a call can end, and the error that it ends with if it does. -/
inductive Ends (c : Rest.Client) (call : HardwareCall) : Fate → Option Error → Prop
  | denied (e : Error) : Ends c call (.denied e) (some e)
  | lost (f : Http.TransportFault) : Ends c call (.lost f) (some (c.unreachable (method call) (path call) f))
  | absent {r : Http.Reply} (looks : method call = "GET") (absent : r.status = 404) :
      Ends c call (.replied r) none
  | done {r : Http.Reply} (success : r.isSuccess = true) (readable : Readable call r.body) :
      Ends c call (.replied r) none
  | unreadable {r : Http.Reply} (looks : method call = "GET") (success : r.isSuccess = true)
      (unreadable : ¬ Readable call r.body) (f : DecodeFault) : Ends c call (.replied r) (some (undecodable f))
  | refused {r : Http.Reply} (fails : r.isSuccess = false) (there : method call = "GET" → r.status ≠ 404) :
      Ends c call (.replied r) (some (c.failed (method call) (path call) r))

theorem ends_accepted (call : HardwareCall) {r : Http.Reply} (changes : method call ≠ "GET")
    (all : ∀ body, Readable call body) :
    Ends c call (.replied r) (Error.of? (discard (accepted c (method call) (path call) (.ok r)))) := by
  have same : accepted c (method call) (path call) (.ok r) =
      if r.isSuccess then .ok r else .error (c.failed (method call) (path call) r) := rfl
  rw [of?_discard, same]
  cases success : r.isSuccess with
  | true => exact .done success (all _)
  | false => exact .refused success fun looks => absurd looks changes

theorem ends_readFrom (call : HardwareCall) {β γ : Type} {decode : Reading.Decoder β} {r : Http.Reply}
    {f : Option β → γ} (looks : method call = "GET")
    (readable : ∀ body, Readable call body ↔ ∃ x, Reading.decodeText decode body = .ok x) :
    Ends c call (.replied r) (Error.of? (f <$> readFrom c (path call) decode (.ok r))) := by
  have same : readFrom c (path call) decode (.ok r) = c.found (path call) decode r := rfl
  rw [of?_map, same, Rest.Client.found]
  split
  · next absent => exact .absent looks absent
  · next there =>
    cases success : r.isSuccess with
    | false => exact looks ▸ .refused success fun _ => there
    | true =>
      rw [if_pos rfl, decodeBody]
      cases decoded : Reading.decodeText decode r.body with
      | ok x => exact .done success ((readable _).2 ⟨x, decoded⟩)
      | error f =>
        refine .unreadable looks success (fun read => ?_) f
        obtain ⟨x, hx⟩ := (readable _).1 read
        cases decoded.symm.trans hx

/-- What a call comes to tells how it ended. -/
theorem ends_outcome (c : Rest.Client) (call : HardwareCall) (fate : Fate) :
    Ends c call fate (Error.of? (fate.outcome c call)) := by
  cases fate with
  | denied e => exact .denied e
  | lost f => cases call <;> exact .lost f
  | replied r =>
    cases call with
    | get k n => exact ends_readFrom (.get k n) rfl fun _ => .rfl
    | listGroups => exact ends_readFrom (.listGroups) rfl fun _ => .rfl
    | listComponents type role => exact ends_readFrom (.listComponents type role) rfl fun _ => .rfl
    | create k x => exact ends_accepted (.create k x) (by simp [method]) fun _ => trivial
    | delete k n => exact ends_accepted (.delete k n) (by simp [method]) fun _ => trivial
    | add k n m => exact ends_accepted (.add k n m) (by simp [method]) fun _ => trivial
    | remove k n m => exact ends_accepted (.remove k n m) (by simp [method]) fun _ => trivial

theorem agrees_of_status {c : Call} {e : Error} (h : e.status = none) : agrees c e = false := by
  have other (code : Nat) : (e.status == some code) = false := by rw [h]; rfl
  unfold agrees
  split <;> first | exact other _ | rfl

theorem status_failed {method path : String} {r : Http.Reply} {code : Nat} (low : code < 500) (calm : code ≠ 429) :
    ((c.failed method path r).status == some code) = true ↔ r.status = code := by
  unfold Rest.Client.failed Error.ofStatus
  split
  · next failed => simp [Error.status]; omega
  · simp [Error.status]

theorem status_of_success {r : Http.Reply} (h : r.isSuccess = true) : 200 ≤ r.status ∧ r.status < 300 := by
  simpa [Http.Reply.isSuccess, Http.isSuccess] using h

variable {fate : Fate} {e : Error}

theorem acceptable_of_ends (h : Ends c call fate none) : Acceptable call fate := by
  cases h with
  | absent looks absent =>
    cases call with
    | get | listGroups | listComponents => exact .inl absent
    | create | add | delete | remove => simp [method] at looks
  | done success readable =>
    cases call with
    | get | listGroups | listComponents => exact .inr ⟨success, readable⟩
    | create | add | delete | remove => exact .inl success

/-- The work goes on after an error exactly if what became of the call is acceptable. -/
theorem agrees_iff_acceptable (h : Ends c call fate (some e)) (denied : ∀ e, fate = .denied e → e.status = none) :
    agrees (.hardware call) e = true ↔ Acceptable call fate := by
  cases h with
  | denied e => exact iff_of_false (by simp [agrees_of_status (denied e rfl)]) id
  | lost f =>
    have unsaid : Error.status (c.unreachable (method call) (path call) f) = none := rfl
    exact iff_of_false (by simp [agrees_of_status unsaid]) id
  | unreadable looks success unreadable f =>
    have unsaid : Error.status (undecodable f) = none := rfl
    refine iff_of_false (by simp [agrees_of_status unsaid]) ?_
    have range := status_of_success success
    cases call with
    | get | listGroups | listComponents =>
      rintro (absent | ⟨_, readable⟩)
      · omega
      · exact unreadable readable
    | create | add | delete | remove => simp [method] at looks
  | @refused r fails there =>
    have fails : ¬ r.isSuccess = true := by simp [fails]
    cases call with
    | get | listGroups | listComponents =>
      exact iff_of_false Bool.false_ne_true (by simp [Acceptable, fails, there rfl])
    | create | add => exact (status_failed (by decide) (by decide)).trans (or_iff_right fails).symm
    | delete | remove => exact (status_failed (by decide) (by decide)).trans (or_iff_right fails).symm

theorem isRetryable_iff_transient (h : Ends c call fate (some e))
    (denied : ∀ e, fate = .denied e → e.isRetryable = true) : e.isRetryable = true ↔ Transient fate := by
  cases h with
  | denied e => exact iff_of_true (denied e rfl) trivial
  | lost f => exact iff_of_true rfl trivial
  | @unreadable r looks success unreadable f =>
    have range := status_of_success success
    refine iff_of_false nofun fun transient => ?_
    rcases transient with failed | limited <;> omega
  | refused fails there => exact Error.isRetryable_ofStatus _ _ _

theorem finds_outcome {s : σ} {k : Kind} {n : String} (acceptable : Acceptable (.get k n) fate) :
    finds (⟨s, .hardware (.get k n), fate.outcome c (.get k n)⟩ : Moment Services σ) = false ↔
      ∃ r, fate = .replied r ∧ r.status = 404 := by
  cases fate with
  | denied | lost => cases acceptable
  | replied r =>
    have same : Fate.outcome c (.get k n) (.replied r) =
        (Option.map WireCollection.collection) <$> c.found (collectionPath k n) WireCollection.decode r := rfl
    by_cases absent : r.status = 404
    · refine iff_of_true ?_ ⟨r, rfl, absent⟩
      rw [same, Rest.Client.found, if_pos absent]
      rfl
    · obtain ⟨success, x, decoded⟩ := acceptable.resolve_left absent
      refine iff_of_false ?_ (by rintro ⟨_, ⟨⟩, h⟩; exact absent h)
      rw [same, Rest.Client.found, if_neg absent, if_pos success, decodeBody, decoded]
      exact Bool.true_eq_false.mp

end

/-! ## Trips -/

section

variable {e : Error} {clients : Clients}

/-- A call and all that is asked and answered for it. -/
abbrev Trip (σ : Type) := Dialogue.Leg Services Network σ

namespace Trip

def call (t : Trip σ) : Call := t.moment.call

def fate (t : Trip σ) : Fate := Hardware.fate t.inner

/-- For a call to the hardware service no more is asked than a token, and then the request. -/
def Made (c : Rest.Client) (t : Trip σ) : Prop := ∃ call, t.call = .hardware call ∧ Sent c call t.inner

/-- The work can go on after what became of the call. -/
def Passes (t : Trip σ) : Prop := ∃ call, t.call = .hardware call ∧ Acceptable call t.fate

end Trip

/-- The network refuses tokens only with the error that they could not be had. -/
def Denies (R : Conduct Network σ) : Prop :=
  ∀ (system : System) (s : σ) (e : Error) (s' : σ), R (.wire (.token system)) s (.error e) s' →
    ∃ m, e = Tokens.denied system m

/-- A network whose tokens are asked for as the operator asks for them refuses no token in another way. -/
theorem denies_of_answering {R' : Conduct Wire σ} {endpoints : TokenEndpoints}
    (h : ∀ q s r s', onWire R q s r s' → Dialogue.answered R' (Tokens.answering endpoints) q s r s') :
    Denies R := by
  intro system s e s' refused
  obtain ⟨_, goes⟩ := h (.token system) s (.error e) s' refused
  exact Tokens.asking_token endpoints system goes

def TokenFailed : Moment Network σ → Prop
  | ⟨_, .wire (.token _), .error _⟩ => True
  | _ => False

theorem answer_goes {call : HardwareCall} {o : Except Error call.Reply}
    (h : (answer clients (.hardware call)).Goes R s tr o s') :
    Sent clients.hardware call tr ∧ o = (Hardware.fate tr).outcome clients.hardware call := by
  obtain ⟨tr', goes, rfl⟩ := goes_overWire h
  exact perform_goes goes

theorem denied_of_fate {call : HardwareCall} (tokens : Denies R) (sent : Sent c call tr)
    (allowed : ∀ m ∈ tr, ∃ s₁, R m.query m.before m.answer s₁) (h : Hardware.fate tr = .denied e) :
    ∃ m, e = Tokens.denied c.system m := by
  cases sent with
  | denied =>
    obtain ⟨s₁, answered⟩ := allowed _ List.mem_cons_self
    cases h
    exact tokens _ _ _ _ answered
  | kept => cases h
  | @sent _ _ _ x => cases x <;> cases h

/-- What the work makes of a call is what became of it. -/
structure Trip.Faithful (c : Rest.Client) (t : Trip σ) : Prop where
  made : t.Made c
  passes_iff : Tenancy.Hardware.Passes t.moment ↔ t.Passes
  retryable_iff : ∀ e, Refuses t.moment e → (e.isRetryable = true ↔ Transient t.fate)
  finds_iff : ∀ k n, t.call = .hardware (.get k n) → t.Passes →
    (finds t.moment = false ↔ ∃ r, t.fate = .replied r ∧ r.status = 404)

theorem Trip.passes_iff {t : Trip σ} {call : HardwareCall} (asks : t.call = .hardware call) :
    t.Passes ↔ Acceptable call t.fate := by
  refine ⟨fun ⟨call', asks', h⟩ => ?_, fun h => ⟨call, asks, h⟩⟩
  obtain rfl : call = call' := by simpa [asks] using asks'
  exact h

theorem faithful_of_goes (tokens : Denies R) {t : Trip σ} {call : HardwareCall} (asks : t.call = .hardware call)
    (goes : (answer clients t.moment.query).Goes R t.moment.before t.inner t.moment.answer s') :
    t.Faithful clients.hardware := by
  obtain ⟨⟨before, query, reply⟩, inner⟩ := t
  obtain rfl : query = .hardware call := asks
  have goes : (answer clients (.hardware call)).Goes R before inner reply s' := goes
  obtain ⟨sent, rfl⟩ : Sent clients.hardware call inner ∧
      reply = (Hardware.fate inner).outcome clients.hardware call := answer_goes goes
  -- the error of a token is the only one that does not come from a reply or from its absence
  have denied (e : Error) (h : Hardware.fate inner = .denied e) : e.status = none ∧ e.isRetryable = true := by
    obtain ⟨m, rfl⟩ := denied_of_fate tokens sent goes.allowed h
    exact ⟨rfl, rfl⟩
  have failed (cause : Error)
      (h : Error.of? ((Hardware.fate inner).outcome clients.hardware call) = some cause) :
      Ends clients.hardware call (Hardware.fate inner) (some cause) := h ▸ ends_outcome _ _ _
  refine ⟨⟨call, rfl, sent⟩, (Iff.intro ?_ ?_).trans (Trip.passes_iff rfl).symm, ?_, ?_⟩
  · intro passes
    cases h : Error.of? ((Hardware.fate inner).outcome clients.hardware call) with
    | none => exact acceptable_of_ends (h ▸ ends_outcome clients.hardware call _)
    | some cause => exact (agrees_iff_acceptable (failed cause h) fun e he => (denied e he).1).1 (passes cause h)
  · intro acceptable cause h
    exact (agrees_iff_acceptable (failed cause h) fun e he => (denied e he).1).2 acceptable
  · rintro e ⟨cause, h, -, rfl⟩
    have same : ((Hardware.attempt (.hardware call)).elim cause cause.within).isRetryable = cause.isRetryable := by
      cases Hardware.attempt (.hardware call) with
      | none => rfl
      | some what => exact Error.isRetryable_within cause what
    exact same ▸ isRetryable_iff_transient (failed cause h) fun e he => (denied e he).2
  · rintro k n ⟨⟩ passes
    exact finds_outcome ((Trip.passes_iff rfl).1 passes)

theorem Sent.ne_nil {call : HardwareCall} (h : Sent c call tr) : tr ≠ [] := by
  cases h <;> exact List.cons_ne_nil _ _

theorem Sent.not_tokenFailed_dropLast {call : HardwareCall} (h : Sent c call tr) :
    ∀ m ∈ tr.dropLast, ¬ TokenFailed m := by
  cases h with
  | denied | kept => exact List.forall_mem_nil _
  | sent => exact List.forall_mem_singleton.2 id

theorem Sent.not_tokenFailed {call : HardwareCall} (h : Sent c call tr)
    (acceptable : Acceptable call (Hardware.fate tr)) : ∀ m ∈ tr, ¬ TokenFailed m := by
  cases h with
  | denied | kept => cases acceptable
  | sent => exact List.forall_mem_cons.2 ⟨id, List.forall_mem_singleton.2 id⟩

/-- When a token could not be had, nothing more is asked. -/
theorem not_tokenFailed_dropLast {trips : List (Trip σ)} (made : ∀ t ∈ trips, t.Made c)
    (passes : ∀ t ∈ trips.dropLast, t.Passes) :
    ∀ m ∈ (trips.flatMap Dialogue.Leg.inner).dropLast, ¬ TokenFailed m := by
  induction trips with
  | nil => exact List.forall_mem_nil _
  | cons t trips ih =>
    obtain ⟨⟨call, asks, sent⟩, made⟩ := List.forall_mem_cons.1 made
    cases trips with
    | nil => simpa using sent.not_tokenFailed_dropLast
    | cons t' trips =>
      obtain ⟨acceptable, passes⟩ := List.forall_mem_cons.1 passes
      have acceptable := (Trip.passes_iff asks).1 acceptable
      obtain ⟨_, _, sent'⟩ := made t' List.mem_cons_self
      have more : (t' :: trips).flatMap Dialogue.Leg.inner ≠ [] :=
        List.append_ne_nil_of_left_ne_nil sent'.ne_nil _
      rw [List.flatMap_cons, List.dropLast_append_of_ne_nil more]
      exact List.forall_mem_append.2 ⟨sent.not_tokenFailed acceptable, ih made passes⟩

/-! ## Journeys -/

/-- The trips for planned calls, and what they come to: they end with the first whose fate is not acceptable. -/
structure Journey (c : Rest.Client) (plan : List Call) (trips : List (Trip σ)) (o : Except Error Unit) : Prop where
  made : ∀ t ∈ trips, t.Made c
  order : trips.map Trip.call <+: plan
  passes_dropLast : ∀ t ∈ trips.dropLast, t.Passes
  ok_iff : o = .ok () ↔ ∀ t ∈ trips, t.Passes
  complete : o = .ok () → trips.map Trip.call = plan
  /-- The error can be retried, and the tenant is looked at again soon, exactly if the failure may pass by
  itself. -/
  failed : ∀ e, o = .error e → ∃ t, trips.getLast? = some t ∧ ¬ t.Passes ∧
    (e.isRetryable = true ↔ Transient t.fate) ∧
    (Transient t.fate → Lifecycle.errorPolicy e = .requeue 5) ∧
    (¬ Transient t.fate → Lifecycle.errorPolicy e = .requeue 60)

theorem errorPolicy_of_iff {e : Error} {p : Prop} (h : e.isRetryable = true ↔ p) :
    (p → Lifecycle.errorPolicy e = .requeue 5) ∧ (¬ p → Lifecycle.errorPolicy e = .requeue 60) :=
  ⟨fun hp => if_pos (h.2 hp), fun hp => if_neg (mt h.1 hp)⟩

/-- However the network answers, collections are moved to what is declared in a journey: trip after trip goes as
planned, each with a token of its own, up to the first reply that is not acceptable for its request. A collection
is made exactly if the look at it was answered with 404. The error of a journey can be retried, and so the tenant
is looked at again after 5 seconds and not after 60, exactly if there was no token, no answer, or one with a status
of 429 or of 500 and more. After a token that could not be had nothing is asked. -/
theorem converge_journey (tokens : Denies R) {tenant : String} {kind : Kind} {desired observed : List Resource}
    {o : Except Error Unit} (h : (online clients (converge tenant kind desired observed)).Goes R s tr o s') :
    ∃ (trips : List (Trip σ)) (there : String → Bool),
      Journey clients.hardware (itinerary tenant kind desired observed there) trips o ∧
      tr = trips.flatMap Dialogue.Leg.inner ∧ (∀ m ∈ tr.dropLast, ¬ TokenFailed m) ∧
      ∀ t ∈ trips, ∀ n, t.call = .hardware (.get kind n) → t.Passes →
        (there n = false ↔ ∃ r, t.fate = .replied r ∧ r.status = 404) := by
  obtain ⟨(trips : List (Trip σ)), goes, rfl, legs⟩ := Dialogue.Goes.of_interpret h
  obtain ⟨there, course, found⟩ := Tenancy.Hardware.course_converge goes
  -- the course is about what the work sees of a call, the journey about what became of its request
  have faithful : ∀ t ∈ trips, t.Faithful clients.hardware := by
    intro t ht
    obtain ⟨call, asks⟩ := exists_of_mem_itinerary (course.mem_plan (List.mem_map_of_mem ht))
    obtain ⟨_, leg⟩ := legs t ht
    exact faithful_of_goes tokens asks leg
  have before : ∀ t ∈ trips.dropLast, t.Passes := fun t ht => by
    refine (faithful t (List.dropLast_subset _ ht)).passes_iff.1 (course.passes_dropLast _ ?_)
    rw [← List.map_dropLast]
    exact List.mem_map_of_mem ht
  have calls : (trips.map Dialogue.Leg.moment).map Moment.call = trips.map Trip.call := List.map_map
  refine ⟨trips, there, ⟨fun t ht => (faithful t ht).made, calls ▸ course.order, before, ?_,
    fun ho => calls ▸ course.complete ho, fun e he => ?_⟩, rfl,
    not_tokenFailed_dropLast (fun t ht => (faithful t ht).made) before, fun t ht n look passes => ?_⟩
  · rw [course.ok_iff, List.forall_mem_map]
    exact forall₂_congr fun t ht => (faithful t ht).passes_iff
  · obtain ⟨m, ends, refuses⟩ := course.refused he
    rw [List.getLast?_map] at ends
    obtain ⟨t, last, rfl⟩ := Option.map_eq_some_iff.1 ends
    have known := faithful t (List.mem_of_getLast? last)
    have iff := known.retryable_iff e refuses
    exact ⟨t, last, mt known.passes_iff.2 refuses.not_passes, iff, errorPolicy_of_iff iff⟩
  · rw [found _ (List.mem_map_of_mem ht) n look]
    exact (faithful t ht).finds_iff kind n look passes

/-- A network that gives a token whenever it is asked for one, and these replies one after the other. -/
def scripted : (q : Network.Query) → List Http.Reply → Network.Answer q × List Http.Reply
  | .wire (.token _), replies => (.ok "t", replies)
  | .wire (.exchange _), r :: replies => (.ok r, replies)
  | .wire (.exchange _), [] => (.error .broken, [])
  | .wire (.readSecret _ _), replies => (.ok none, replies)
  | .wire (.fileText _), replies => (.error "no such file", replies)
  | .cluster _, replies => (.error (), replies)

def Scripted : Conduct Network (List Http.Reply) := fun q s r s' => (r, s') = scripted q s

theorem denies_scripted : Denies Scripted := by
  intro system s e s' answered
  cases (Prod.mk.inj answered).1

theorem goes_scripted {α : Type} (d : Dialogue Network α) (replies : List Http.Reply) :
    d.Goes Scripted replies (d.story scripted id replies) (d.run scripted replies).1 (d.run scripted replies).2 := by
  have given (q : Network.Query) (replies : List Http.Reply) (_ : True) :
      Scripted q (id replies) (scripted q replies).1 (id (scripted q replies).2) ∧ True := ⟨rfl, trivial⟩
  exact Dialogue.goes_run given d trivial

/-- All services behind one gateway. -/
def gateways : Clients := ⟨gateway, gateway, gateway⟩

/-- A partition with a node that is to be made. -/
def declared : List Resource := [{ label := "compute", members := ["x1"], partition := "p-blue" }]

/-- The partition is not there and is made. Then the service fails to add the node, and the tenant is looked at
again soon. -/
theorem converge_journey_busy :
    ∃ (trips : List (Trip (List Http.Reply))) (there : String → Bool) (e : Error),
      Journey gateway (itinerary "blue" .partition declared [] there) trips (.error e) ∧
      (∃ t, trips.getLast? = some t ∧ Transient t.fate) ∧ Lifecycle.errorPolicy e = .requeue 5 := by
  have ran := goes_scripted (online gateways (converge "blue" .partition declared []))
    [⟨404, "", false⟩, ⟨201, "", false⟩, ⟨503, "busy", false⟩]
  obtain ⟨e, failed, soon⟩ : ∃ e, (Dialogue.run scripted (online gateways (converge "blue" .partition declared []))
      [⟨404, "", false⟩, ⟨201, "", false⟩, ⟨503, "busy", false⟩]).1 = .error e ∧ e.isRetryable = true :=
    ⟨_, rfl, rfl⟩
  rw [failed] at ran
  obtain ⟨trips, there, journey, -⟩ := converge_journey denies_scripted ran
  obtain ⟨t, last, -, iff, quick, -⟩ := journey.failed e rfl
  exact ⟨trips, there, e, journey, ⟨t, last, iff.1 soon⟩, quick (iff.1 soon)⟩

end

end Hardware

end Tenancy.Backend

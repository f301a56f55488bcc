import Mathlib.Logic.Relation
import Tenancy.Cluster.Client
import Tenancy.Json.MergePatch
import Tenancy.Proofs.ConcurrentWrites
import Tenancy.Proofs.Passes

/-!
# Writes beside other writers

The API server keeps a tenant under a version, and gives a new one to whatever is committed. A merge patch
that names another version than the one that is stored is refused with a conflict and has no effect; one
that names none is applied to what is stored (`Serves`). While a copy of a tenant is worked on, others may
commit anything (`Edits`).

The writes of the status and of the finalizers name the version of the copy that they were computed from,
so none of them overwrites what was committed since (`goes_stale`). The write that takes away the request
for a key update names no version. It takes away a request that was committed after the copy was read, like
any other (`goes_clear`), and no other write does (`goes_asksUpdate`).
-/

namespace Tenancy.Cluster

/-! ## Objects and their versions -/

/-- The version in an object, or the one that a patch names. -/
def versionIn (j : Json) : Option String :=
  match (j.member? "metadata").bind (·.member? "resourceVersion") with
  | some (.string v) => some v
  | _ => none

def AsksUpdate (j : Json) : Prop :=
  (j.member? "spec").bind (·.member? "requiresvaultkeyupdate") = some (.bool true)

/-- The object under another version. -/
def stamp (v : String) (j : Json) : Json :=
  j.mergePatch (.object [("metadata", .object [("resourceVersion", .string v)])])

theorem versionIn_stamp (v : String) (j : Json) : versionIn (stamp v j) = some v := by
  have metadata : (stamp v j).member? "metadata" = some (((j.member? "metadata").getD .null).mergePatch
      (.object [("resourceVersion", .string v)])) :=
    Json.member?_mergePatch_of_mem nofun (by simp) (by simp)
  have version (m : Json) : (m.mergePatch (.object [("resourceVersion", .string v)])).member?
      "resourceVersion" = some (Json.mergePatch ((m.member? "resourceVersion").getD .null) (.string v)) :=
    Json.member?_mergePatch_of_mem nofun (by simp) (by simp)
  have text (m : Json) : m.mergePatch (.string v) = .string v := Json.mergePatch_of_ne_object m nofun
  rw [versionIn, metadata, Option.bind_some, version, text]

/-- A patch that does not name the spec says nothing of a key update. -/
theorem asksUpdate_mergePatch {j : Json} {changes : List (String × Json)}
    (h : "spec" ∉ changes.map (·.1)) : AsksUpdate (j.mergePatch (.object changes)) ↔ AsksUpdate j := by
  rw [AsksUpdate, Json.member?_mergePatch_of_notMem h, AsksUpdate]

theorem asksUpdate_stamp (v : String) (j : Json) : AsksUpdate (stamp v j) ↔ AsksUpdate j :=
  asksUpdate_mergePatch (by simp)

/-- A tenant as the server keeps it, and all versions that were given out for it. -/
structure Register where
  object : Json
  given : List String
  current : ∃ v ∈ given, versionIn object = some v

namespace Register

/-- The object is stored under this version. -/
def commit (r : Register) (j : Json) (v : String) : Register where
  object := stamp v j
  given := v :: r.given
  current := ⟨v, List.mem_cons_self, versionIn_stamp v j⟩

/-- A patch names no version, or the one that is stored. -/
def Admits (r : Register) (patch : Json) : Prop :=
  ∀ v, versionIn patch = some v → versionIn r.object = some v

/-- Somebody commits an object, in place of one of which it may take the place, under a version that was
never given out. -/
def Committed (allowed : Json → Json → Prop) (r r' : Register) : Prop :=
  ∃ j v, allowed r.object j ∧ v ∉ r.given ∧ r' = r.commit j v

/-- Any number of commits. -/
abbrev Edits (allowed : Json → Json → Prop) : Register → Register → Prop :=
  Relation.ReflTransGen (Committed allowed)

variable {allowed : Json → Json → Prop} {r r' : Register}

/-- After a commit the version is one that was not given out before. -/
theorem Edits.fresh (h : Edits allowed r r') :
    r' = r ∨ (∀ v ∈ r.given, v ∈ r'.given) ∧ ∃ v, versionIn r'.object = some v ∧ v ∉ r.given := by
  induction h with
  | refl => exact .inl rfl
  | tail _ last ih =>
    obtain ⟨j, v, _, new, rfl⟩ := last
    rcases ih with rfl | ⟨older, _⟩
    · exact .inr ⟨fun v hv => List.mem_cons_of_mem _ hv, v, versionIn_stamp v j, new⟩
    · refine .inr ⟨fun v hv => List.mem_cons_of_mem _ (older v hv), v, versionIn_stamp v j, ?_⟩
      exact fun hv => new (older v hv)

theorem Edits.version_ne (h : Edits allowed r r') : r' = r ∨ versionIn r'.object ≠ versionIn r.object := by
  refine h.fresh.imp_right ?_
  rintro ⟨_, v, hv, new⟩ same
  obtain ⟨v', given, hv'⟩ := r.current
  obtain rfl : v = v' := Option.some.inj (hv.symm.trans (same.trans hv'))
  exact new given

theorem Edits.asksUpdate (h : Edits (fun j j' => AsksUpdate j → AsksUpdate j') r r')
    (asks : AsksUpdate r.object) : AsksUpdate r'.object := by
  induction h with
  | refl => exact asks
  | tail _ last ih =>
    obtain ⟨j, v, keeps, _, rfl⟩ := last
    exact (asksUpdate_stamp v j).2 (keeps ih)

end Register

/-! ## The server -/

def Request.Patches (q : Request) (patch : Json) : Prop := q.method = "PATCH" ∧ q.body = some patch

/-- How the server answers requests about the tenant that it keeps. An answer can get lost. -/
inductive Serves : Conduct Server Register
  /-- The patch names another version. -/
  | refused {q : Request} {r : Register} {patch : Json} {a : Except Unit Reply} {e : Error}
      (patches : q.Patches patch) (stale : ¬ r.Admits patch) (said : accepted a = .error e)
      (conflict : e.isConflict = true) : Serves q r a r
  /-- The patch is applied to what is stored. -/
  | applied {q : Request} {r : Register} {patch : Json} {a : Except Unit Reply} {v : String}
      (patches : q.Patches patch) (admitted : r.Admits patch) (fresh : v ∉ r.given) :
      Serves q r a (r.commit (r.object.mergePatch patch) v)
  /-- The request fails for another reason. -/
  | failed {q : Request} {r : Register} {patch : Json} {a : Except Unit Reply} {e : Error}
      (patches : q.Patches patch) (admitted : r.Admits patch) (said : accepted a = .error e) : Serves q r a r
  /-- Something is read. -/
  | read {q : Request} {r : Register} {a : Except Unit Reply} (unpatched : q.method ≠ "PATCH") :
      Serves q r a r

variable {α : Type} {R : Conduct Server Register} {allowed : Json → Json → Prop} {r r' : Register}
  {tr : List (Moment Server Register)} {t : Tenant}

theorem goes_liftExcept {x o : Except Error α}
    (h : Dialogue.Goes R (liftExcept x : ServerJob α).run r tr o r') : tr = [] ∧ o = x ∧ r' = r := by
  cases x <;> exact Dialogue.Goes.of_done h

/-- A request is sent and answered, or its address is none. -/
theorem goes_send {q : Request} {o : Except Error String} (h : Dialogue.Goes R (send q).run r tr o r') :
    (tr = [] ∧ (∃ e, o = .error e) ∧ r' = r) ∨
      ∃ uri a, R { q with uri := uri } r a r' ∧ tr = [⟨r, { q with uri := uri }, a⟩] ∧ o = accepted a := by
  unfold send at h
  split at h
  · obtain ⟨rfl, rfl, rfl⟩ := Dialogue.Goes.of_done h
    exact .inl ⟨rfl, ⟨_, rfl⟩, rfl⟩
  · next uri _ =>
    cases h with
    | @ask _ _ _ _ _ a _ _ answered rest =>
      obtain ⟨rfl, rfl, rfl⟩ := goes_liftExcept (x := accepted a) rest
      exact .inr ⟨uri, a, answered, rfl, rfl⟩

/-- What a patch of the tenant comes to. -/
inductive PatchGoes (changes : Json) (r : Register) : List (Moment Server Register) → Except Error Unit →
    Register → Prop
  | unsent {e : Error} : PatchGoes changes r [] (.error e) r
  | refused {m : Moment Server Register} {e : Error} (stale : ¬ r.Admits changes)
      (conflict : e.isConflict = true) : PatchGoes changes r [m] (.error e) r
  | failed {m : Moment Server Register} {e : Error} (admitted : r.Admits changes) :
      PatchGoes changes r [m] (.error e) r
  | applied {m : Moment Server Register} {o : Except Error Unit} {v : String} (admitted : r.Admits changes)
      (fresh : v ∉ r.given) : PatchGoes changes r [m] o (r.commit (r.object.mergePatch changes) v)

/-- One request is sent, and what the server does with it is what the patch comes to. -/
theorem PatchGoes.of_serves {changes : Json} {q : Request} {a : Except Unit Reply} {o : Except Error Unit}
    (patches : q.Patches changes) (served : Serves q r a r')
    (error : ∀ e, accepted a = .error e → o = .error e) : PatchGoes changes r [⟨r, q, a⟩] o r' := by
  have same {patch : Json} (h : q.Patches patch) : patch = changes :=
    Option.some.inj (h.2.symm.trans patches.2)
  cases served with
  | refused h stale said conflict =>
    cases same h
    cases error _ said
    exact .refused stale conflict
  | applied h admitted fresh =>
    cases same h
    exact .applied admitted fresh
  | failed h admitted said =>
    cases same h
    cases error _ said
    exact .failed admitted
  | read unpatched => exact absurd patches.1 unpatched

theorem goes_patchTenant {part : String} {changes : Json} {o : Except Error Unit}
    (h : Dialogue.Goes Serves (patchTenant t part changes).run r tr o r') : PatchGoes changes r tr o r' := by
  unfold patchTenant patch at h
  rcases Dialogue.Goes.of_bind_except h with ⟨e, rfl, address⟩ | ⟨uri, r₁, tr₁, tr₂, address, rest, rfl⟩
  · obtain ⟨rfl, _, rfl⟩ := goes_liftExcept address
    exact .unsent
  · obtain ⟨rfl, _, rfl⟩ := goes_liftExcept address
    rw [List.nil_append]
    rcases Dialogue.Goes.of_bind_except rest with ⟨e, rfl, sent⟩ | ⟨body, r₂, tr₃, tr₄, sent, decoded, rfl⟩
    · rcases goes_send sent with ⟨rfl, _, rfl⟩ | ⟨uri', a, served, rfl, said⟩
      · exact .unsent
      · refine .of_serves ⟨rfl, rfl⟩ served fun e' he => ?_
        cases said.trans he
        rfl
    · rcases goes_send sent with ⟨_, ⟨e, he⟩, _⟩ | ⟨uri', a, served, rfl, said⟩
      · cases he
      -- the answer was accepted, so what becomes of the tenant in it says nothing of the server
      · have quiet : tr₄ = [] ∧ r' = r₂ := by
          cases hx : objectIn Tenant.decode body <;> rw [hx] at decoded <;>
            obtain ⟨h₁, _, h₂⟩ := Dialogue.Goes.of_done decoded <;> exact ⟨h₁, h₂⟩
        obtain ⟨rfl, rfl⟩ := quiet
        refine .of_serves ⟨rfl, rfl⟩ served fun e' he => ?_
        cases said.trans he

/-! ## Writes from a copy -/

theorem versionIn_eq {j : Json} {v : Option String}
    (h : (j.member? "metadata").bind (·.member? "resourceVersion") = some (Json.ofText? v)) :
    versionIn j = v := by
  rw [versionIn, h]
  cases v <;> rfl

theorem versionIn_statusPatch (t : Tenant) (s : Status) :
    versionIn (statusPatch t s) = t.metadata.resourceVersion := by
  refine versionIn_eq ?_
  simp [statusPatch, Json.member?_ofMembers, Dict.get?_cons, versionOf]

theorem versionIn_finalizersPatch (t : Tenant) (fs : List String) :
    versionIn (finalizersPatch t fs) = t.metadata.resourceVersion := by
  refine versionIn_eq ?_
  simp [finalizersPatch, Json.member?_ofMembers, Dict.get?_cons, versionOf]

/-- The patch that takes away the request for a key update, as a patch of the spec. -/
theorem clearPatch_eq :
    clearPatch = .object [("spec", .object [("requiresvaultkeyupdate", .bool false)])] := rfl

theorem member?_clearPatch (j : Json) : (j.mergePatch clearPatch).member? "spec" =
    some (((j.member? "spec").getD .null).mergePatch (.object [("requiresvaultkeyupdate", .bool false)])) := by
  rw [clearPatch_eq]
  exact Json.member?_mergePatch_of_mem nofun (by simp) (by simp)

/-- Once the request for a key update is taken away, the tenant does not ask for one. -/
theorem not_asksUpdate_clearPatch (j : Json) : ¬ AsksUpdate (j.mergePatch clearPatch) := by
  have flag (s : Json) : (s.mergePatch (.object [("requiresvaultkeyupdate", .bool false)])).member?
      "requiresvaultkeyupdate" =
        some (((s.member? "requiresvaultkeyupdate").getD .null).mergePatch (.bool false)) :=
    Json.member?_mergePatch_of_mem nofun (by simp) (by simp)
  have text (s : Json) : s.mergePatch (.bool false) = .bool false := Json.mergePatch_of_ne_object s nofun
  rw [AsksUpdate, member?_clearPatch, Option.bind_some, flag, text]
  intro h
  cases h

/-- A patch that was computed from a copy that is not what is stored is refused, or not sent at all. -/
theorem PatchGoes.unchanged {changes : Json} {o : Except Error Unit} (h : PatchGoes changes r tr o r')
    {v : String} (names : versionIn changes = some v) (stale : versionIn r.object ≠ some v) :
    r' = r ∧ (tr = [] ∨ ∃ e, o = .error e ∧ e.isConflict = true) := by
  have refuses : ¬ r.Admits changes := fun admitted => stale (admitted v names)
  cases h with
  | unsent => exact ⟨rfl, .inl rfl⟩
  | refused _ conflict => exact ⟨rfl, .inr ⟨_, rfl, conflict⟩⟩
  | failed admitted => exact absurd admitted refuses
  | applied admitted _ => exact absurd admitted refuses

/-- A finalizer that is attached already is not attached again. -/
theorem goes_addFinalizer {f : String} {o : Except Error Unit}
    (h : Dialogue.Goes Serves (store (.addFinalizer t f)).run r tr o r') :
    (tr = [] ∧ r' = r) ∨ PatchGoes (finalizersPatch t (t.metadata.finalizerList ++ [f])) r tr o r' := by
  have attached : Dialogue.Goes Serves (if t.hasFinalizer f then pure ()
      else patchTenant t "" (finalizersPatch t (t.metadata.finalizerList ++ [f])) : ServerJob Unit).run
      r tr o r' := h
  split at attached
  · obtain ⟨rfl, _, rfl⟩ := Dialogue.Goes.of_done attached
    exact .inl ⟨rfl, rfl⟩
  · exact .inr (goes_patchTenant attached)

/-- So none of the writes that name the version of their copy has an effect when that is not the version
that is stored. -/
theorem goes_stale {c : StoreCall} {o : Except Error c.Reply} (copy : c.copy? = some t) {v : String}
    (version : t.metadata.resourceVersion = some v) (stale : versionIn r.object ≠ some v)
    (h : Dialogue.Goes Serves (store c).run r tr o r') :
    r' = r ∧ (tr = [] ∨ ∃ e, o = .error e ∧ e.isConflict = true) := by
  cases c with
  | get space name => cases copy
  | clearKeyUpdate _ => cases copy
  | replaceStatus _ s =>
    cases copy
    exact (goes_patchTenant h).unchanged ((versionIn_statusPatch t s).trans version) stale
  | addFinalizer _ f =>
    cases copy
    rcases goes_addFinalizer h with ⟨rfl, rfl⟩ | patched
    · exact ⟨rfl, .inl rfl⟩
    · exact patched.unchanged ((versionIn_finalizersPatch t _).trans version) stale
  | removeFinalizer _ f =>
    cases copy
    exact (goes_patchTenant h).unchanged ((versionIn_finalizersPatch t _).trans version) stale

/-- The write that takes away the request for a key update is never refused: when it succeeds, what is
stored is changed, whatever that is. -/
theorem goes_clear (h : Dialogue.Goes Serves (store (.clearKeyUpdate t)).run r tr (.ok ()) r') :
    ∃ v ∉ r.given, r' = r.commit (r.object.mergePatch clearPatch) v := by
  cases goes_patchTenant h with
  | applied _ fresh => exact ⟨_, fresh, rfl⟩

/-! ## The request for a key update -/

theorem asks_get? {decode : Reading.Decoder α} {collection name : String} :
    (get? decode collection name).run.Asks fun q : Request => q.method = "GET" := by
  have lifted {β : Type} (x : Except Error β) :
      (liftExcept x : ServerJob β).run.Asks fun q : Request => q.method = "GET" := by
    cases x <;> trivial
  have sent (uri : String) : (send { method := "GET", uri := uri }).run.Asks
      fun q : Request => q.method = "GET" := by
    unfold send
    split
    · trivial
    · exact ⟨rfl, fun reply => lifted (accepted reply)⟩
  have got : (get decode collection name).run.Asks fun q : Request => q.method = "GET" :=
    .bind_except (lifted _) fun uri => .bind_except (sent uri) fun _ => lifted _
  exact .bind_except (.bind got fun _ => trivial) fun _ => lifted _

theorem goes_get {space name : String} {o : Except Error (Option Tenant)}
    (h : Dialogue.Goes Serves (store (.get space name)).run r tr o r') : r' = r := by
  refine Dialogue.Goes.kept h asks_get? (P := (· = r)) ?_ rfl
  intro q s a s' reads served same
  have unpatched : q.method ≠ "PATCH" := by rw [reads]; decide
  cases served with
  | refused => exact same
  | applied patches _ _ => exact absurd patches.1 unpatched
  | failed => exact same
  | read => exact same

/-- A patch that does not name the spec leaves the request for a key update. -/
theorem PatchGoes.asksUpdate {changes : List (String × Json)} {o : Except Error Unit}
    (h : PatchGoes (.object changes) r tr o r') (spec : "spec" ∉ changes.map (·.1)) (asks : AsksUpdate r.object) :
    AsksUpdate r'.object := by
  cases h with
  | unsent => exact asks
  | refused _ _ => exact asks
  | failed _ => exact asks
  | applied _ _ => exact (asksUpdate_stamp _ _).2 ((asksUpdate_mergePatch spec).2 asks)

/-- No write but one takes the request for a key update away. -/
theorem goes_asksUpdate {c : StoreCall} {o : Except Error c.Reply}
    (h : Dialogue.Goes Serves (store c).run r tr o r') (uncleared : ∀ copy, c ≠ .clearKeyUpdate copy)
    (asks : AsksUpdate r.object) : AsksUpdate r'.object := by
  cases c with
  | get space name =>
    obtain rfl := goes_get h
    exact asks
  | replaceStatus copy s =>
    exact (goes_patchTenant h).asksUpdate (Dict.notMem_ofList.2 (by simp)) asks
  | addFinalizer copy f =>
    rcases goes_addFinalizer h with ⟨_, rfl⟩ | patched
    · exact asks
    · exact patched.asksUpdate (Dict.notMem_ofList.2 (by simp)) asks
  | removeFinalizer copy f => exact (goes_patchTenant h).asksUpdate (Dict.notMem_ofList.2 (by simp)) asks
  | clearKeyUpdate copy => exact absurd rfl (uncleared copy)

/-! ## Passes -/

/-- Calls beside other writers. Before a call others may commit something, and a call to the store makes
its request of the server. -/
inductive Backed (allowed : Json → Json → Prop) : Conduct Services Register
  | store {c : StoreCall} {r r₁ r' : Register} {tr : List (Moment Server Register)} {a : Except Error c.Reply}
      (others : Register.Edits allowed r r₁) (made : Dialogue.Goes Serves (store c).run r₁ tr a r') :
      Backed allowed (.store c) r a r'
  | elsewhere {c : Call} {r r' : Register} {a : Except Error c.Reply} (system : c.system ≠ .store)
      (others : Register.Edits allowed r r') : Backed allowed c r a r'

/-- The others do not take a request for a key update back. -/
def Insist (j j' : Json) : Prop := AsksUpdate j → AsksUpdate j'

/-- The call is to take away the request for a key update. -/
def Clears (c : Call) : Prop := ∃ copy, c = .store (.clearKeyUpdate copy)

theorem Backed.asksUpdate {c : Call} {a : Except Error c.Reply} (h : Backed Insist c r a r')
    (uncleared : ¬ Clears c) (asks : AsksUpdate r.object) : AsksUpdate r'.object := by
  cases h with
  | store others made =>
    exact goes_asksUpdate made (fun copy e => uncleared ⟨copy, e ▸ rfl⟩) (others.asksUpdate asks)
  | elsewhere _ others => exact others.asksUpdate asks

/-- A request for a key update is there in the end if no call took it away. -/
theorem asksUpdate_of_goes {d : Dialogue Services α} {tr : List (Moment Services Register)} {o : α}
    (h : d.Goes (Backed Insist) r tr o r') (uncleared : ∀ m ∈ tr, ¬ Clears m.query)
    (asks : AsksUpdate r.object) : AsksUpdate r'.object := by
  induction h with
  | done => exact asks
  | ask answered _ ih =>
    obtain ⟨first, rest⟩ := List.forall_mem_cons.1 uncleared
    exact ih rest (answered.asksUpdate first asks)

open Lifecycle in
/-- A pass takes the request away only if the copy that it looks at has it. -/
theorem reconcile_asks_clears {settings : Settings} {fresh : Fresh} : (reconcile settings fresh t).Asks
    fun c => Clears c → c = .store (.clearKeyUpdate t) ∧ t.spec.requiresKeyUpdate = true := by
  apply asks_reconcile
  case others =>
    rintro c elsewhere ⟨copy, rfl⟩
    exact absurd rfl elsewhere
  case clear => exact fun requires _ => ⟨rfl, requires⟩
  all_goals
    intros
    rename_i clears
    obtain ⟨_, he⟩ := clears
    cases he

/-! ## The result -/

/-- What is said of a write that was computed from a copy: either nothing was committed since the copy was
read, or the write is refused with a conflict, or not sent at all, and changes nothing. -/
def Unclobbering (c : StoreCall) (t : Tenant) : Prop :=
  ∀ {allowed : Json → Json → Prop} {r₀ r r' : Register} {tr : List (Moment Server Register)}
    {o : Except Error c.Reply}, t.metadata.resourceVersion = versionIn r₀.object →
    Register.Edits allowed r₀ r → Dialogue.Goes Serves (store c).run r tr o r' →
    r = r₀ ∨ r' = r ∧ (tr = [] ∨ ∃ e, o = .error e ∧ e.isConflict = true)

/-- The writes of the status and of the finalizers do not write over what was committed since the copy that
they were computed from was read. The one that takes away the request for a key update does, whatever was
committed: when it succeeds the request is gone. A request that is there at some moment of a pass is there
at its end, unless the pass was over a copy with a request itself, and took the request away after that
moment. -/
theorem clobbers_only_requests (t : Tenant) :
    (∀ {c}, c.copy? = some t → Unclobbering c t) ∧
      (∀ {r tr r'}, Dialogue.Goes Serves (store (.clearKeyUpdate t)).run r tr (.ok ()) r' →
        (∃ v ∉ r.given, r' = r.commit (r.object.mergePatch clearPatch) v) ∧ ¬ AsksUpdate r'.object) ∧
      ∀ {settings fresh r tr₁ m tr₂ o r'},
        (Lifecycle.reconcile settings fresh t).Goes (Backed Insist) r (tr₁ ++ m :: tr₂) o r' →
        AsksUpdate m.before.object → AsksUpdate r'.object ∨
          t.spec.requiresKeyUpdate = true ∧ ∃ m' ∈ m :: tr₂, m'.query = .store (.clearKeyUpdate t) := by
  refine ⟨?_, ?_, ?_⟩
  · intro c copy allowed r₀ r r' tr o version edits goes
    rcases edits.version_ne with rfl | changed
    · exact .inl rfl
    · obtain ⟨v, _, hv⟩ := r₀.current
      exact .inr (goes_stale copy (version.trans hv) (hv ▸ changed) goes)
  · intro r tr r' goes
    obtain ⟨v, fresh, rfl⟩ := goes_clear goes
    refine ⟨⟨v, fresh, rfl⟩, fun asks => ?_⟩
    exact not_asksUpdate_clearPatch r.object ((asksUpdate_stamp v _).1 asks)
  · intro settings fresh r tr₁ m tr₂ o r' goes asks
    obtain ⟨rest, later⟩ := Dialogue.Goes.from_moment goes
    by_cases cleared : ∃ m' ∈ m :: tr₂, Clears m'.query
    · obtain ⟨m', hm', clears⟩ := cleared
      have asked := Dialogue.Goes.asks goes reconcile_asks_clears m' (List.mem_append_right _ hm') clears
      exact .inr ⟨asked.2, m', hm', asked.1⟩
    · refine .inl (asksUpdate_of_goes later (fun m' hm' clears => ?_) asks)
      exact cleared ⟨m', hm', clears⟩

/-! ## A newer request -/

def patchRequest (uri : String) (changes : Json) : Request where
  method := "PATCH"
  uri := uri
  contentType := some "application/merge-patch+json"
  body := some changes

theorem goes_sent {t : Tenant} {part uri : String} {changes : Json} {a : Except Unit Reply}
    (named : t.metadata.anyName ≠ "") (address : uri? (Resource.tenants.inSpace t.metadata.spaceName ++ "/" ++
      t.metadata.anyName ++ part ++ fieldManager) = some uri)
    (served : Serves (patchRequest uri changes) r a r') :
    Dialogue.Goes Serves (patchTenant t part changes).run r [⟨r, patchRequest uri changes, a⟩]
      (accepted a >>= fun body => discard (objectIn Tenant.decode body)) r' := by
  have asked : (patchTenant t part changes).run = .ask (I := Server) (patchRequest uri changes) fun a =>
      (liftExcept (accepted a) >>= fun body =>
        discard (liftExcept (objectIn Tenant.decode body) : ServerJob Tenant) : ServerJob Unit).run := by
    unfold patchTenant patch objectUri
    rw [if_neg named]
    unfold send
    simp only [liftExcept, pure_bind, address]
    rfl
  rw [asked]
  refine .ask served ?_
  cases accepted a with
  | error e => exact .done
  | ok body =>
    show Dialogue.Goes Serves
      (discard (liftExcept (objectIn Tenant.decode body) : ServerJob Tenant) : ServerJob Unit).run r' []
      (discard (objectIn Tenant.decode body)) r'
    cases objectIn Tenant.decode body <;> exact .done

def wanting (keyName : String) : Json :=
  .object [("spec", .object [("requiresvaultkeyupdate", .bool true),
    ("tenantkms", .object [("keyname", .string keyName)])])]

/-- The tenant that is stored when it is copied. -/
def firstAsked : Register where
  object := stamp "7" (wanting "k1")
  given := ["7"]
  current := ⟨"7", by simp, versionIn_stamp _ _⟩

def askedCopy : Tenant where
  metadata := { name := some "blue", space := some "tenants", resourceVersion := some "7" }
  spec := { name := "blue", requiresKeyUpdate := true }

/-- Another key is asked for. -/
def askedAgain : Register := firstAsked.commit (wanting "k2") "8"

theorem asksUpdate_wanting (keyName : String) : AsksUpdate (wanting keyName) := by
  simp [AsksUpdate, wanting, Json.member?, Dict.get?_cons]

theorem edits_askedAgain : Register.Edits Insist firstAsked askedAgain :=
  .single ⟨wanting "k2", "8", fun _ => asksUpdate_wanting "k2", by decide, rfl⟩

theorem version_askedCopy : askedCopy.metadata.resourceVersion = versionIn firstAsked.object :=
  (versionIn_stamp "7" _).symm

theorem askedAgain_ne : askedAgain ≠ firstAsked := by
  intro h
  have given : (["8", "7"] : List String) = ["7"] := congrArg Register.given h
  exact absurd given (by decide)

def blueUri (part : String) : String :=
  "/apis/tapms.hpe.com/v1alpha3/namespaces/tenants/tenants/blue" ++ part ++ "?fieldManager=tapms-operator"

theorem address_askedCopy {part : String} (h : part = "" ∨ part = "/status") :
    uri? (Resource.tenants.inSpace askedCopy.metadata.spaceName ++ "/" ++ askedCopy.metadata.anyName ++ part ++
      fieldManager) = some (blueUri part) := by
  rcases h with rfl | rfl <;> decide +kernel

/-- The answer to a write that is applied. -/
def written : Except Unit Reply :=
  .ok ⟨200, Text.utf8Encode "\x7b\"metadata\":\x7b\"name\":\"blue\"\x7d,\"spec\":\x7b\"tenantname\":\"blue\"\x7d\x7d"⟩

theorem accepted_written :
    (accepted written >>= fun body => discard (objectIn Tenant.decode body)) = .ok () := by
  decide +kernel

/-- The tenant once the request was taken away. -/
def cleared : Register := askedAgain.commit (askedAgain.object.mergePatch clearPatch) "9"

theorem goes_cleared : Dialogue.Goes Serves (store (.clearKeyUpdate askedCopy)).run askedAgain
    [⟨askedAgain, patchRequest (blueUri "") clearPatch, written⟩] (.ok ()) cleared := by
  have served : Serves (patchRequest (blueUri "") clearPatch) askedAgain written cleared :=
    .applied ⟨rfl, rfl⟩ (fun v hv => by cases hv) (by decide)
  have goes := goes_sent (t := askedCopy) (by decide) (address_askedCopy (.inl rfl)) served
  rw [accepted_written] at goes
  exact goes

/-- The request that was committed after the tenant was copied is taken away, and no one is told. -/
theorem newer_request_cleared :
    ¬ Unclobbering (.clearKeyUpdate askedCopy) askedCopy ∧ AsksUpdate askedAgain.object ∧
      (∃ tr, Dialogue.Goes Serves (store (.clearKeyUpdate askedCopy)).run askedAgain tr (.ok ()) cleared) ∧
      ¬ AsksUpdate cleared.object := by
  refine ⟨fun unclobbering => ?_, (asksUpdate_stamp _ _).2 (asksUpdate_wanting "k2"), ⟨_, goes_cleared⟩, ?_⟩
  · rcases unclobbering version_askedCopy edits_askedAgain goes_cleared with same | ⟨_, none_sent | ⟨_, he, _⟩⟩
    · exact askedAgain_ne same
    · cases none_sent
    · cases he
  · exact fun asks => not_asksUpdate_clearPatch _ ((asksUpdate_stamp "9" _).1 asks)

/-- The answer to a write that names an older version. -/
def conflicting : Except Unit Reply := .ok ⟨409, []⟩

theorem accepted_conflicting : ∃ e, accepted conflicting = .error e ∧ e.isConflict = true := by
  refine ⟨.refused (refusalOf 409 ""), ?_, ?_⟩ <;> decide +kernel

/-- Any other write from the copy is refused, and so the request is there after a pass that makes one. -/
theorem request_kept_of_askedCopy :
    (∃ tr e, Dialogue.Goes Serves (store (.replaceStatus askedCopy {})).run askedAgain tr (.error e) askedAgain ∧
        e.isConflict = true) ∧
      ¬ AsksUpdate cleared.object ∧ AsksUpdate askedAgain.object := by
  obtain ⟨e, he, conflict⟩ := accepted_conflicting
  obtain ⟨guarded, overwrites, kept⟩ := clobbers_only_requests askedCopy
  have outdated {patch : Json} (h : versionIn patch = some "7") : ¬ askedAgain.Admits patch := fun admitted =>
    absurd ((versionIn_stamp "8" (wanting "k2")).symm.trans (admitted _ h)) (by decide)
  have refused {patch : Json} {part : String} (h : versionIn patch = some "7") :
      Serves (patchRequest (blueUri part) patch) askedAgain conflicting askedAgain :=
    .refused ⟨rfl, rfl⟩ (outdated h) he conflict
  have status := goes_sent (t := askedCopy) (by decide) (address_askedCopy (.inr rfl))
    (refused (versionIn_statusPatch askedCopy {}))
  have finalizer := goes_sent (t := askedCopy) (by decide) (address_askedCopy (.inl rfl))
    (refused (versionIn_finalizersPatch askedCopy [Lifecycle.tenantFinalizer]))
  rw [he] at status finalizer
  have pass : (Lifecycle.reconcile {} ⟨"u", "now"⟩ askedCopy).Goes (Backed Insist) firstAsked
      ([] ++ [⟨firstAsked, .store (.addFinalizer askedCopy Lifecycle.tenantFinalizer), .error e⟩]) (.error e)
      askedAgain := .ask (.store edits_askedAgain finalizer) .done
  refine ⟨⟨_, e, status, ?_⟩, (overwrites goes_cleared).2, ?_⟩
  · rcases guarded (c := .replaceStatus askedCopy {}) rfl version_askedCopy edits_askedAgain status with
      same | ⟨_, none_sent | ⟨e', he', conflict'⟩⟩
    · exact absurd same askedAgain_ne
    · cases none_sent
    · cases he'
      exact conflict'
  · rcases kept pass ((asksUpdate_stamp _ _).2 (asksUpdate_wanting "k1")) with asks | ⟨_, m, hm, hq⟩
    · exact asks
    · rw [List.mem_singleton.1 hm] at hq
      cases hq

end Tenancy.Cluster

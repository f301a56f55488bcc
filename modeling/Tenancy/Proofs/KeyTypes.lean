import Tenancy.Proofs.EncryptionDomain
import Tenancy.Proofs.Provisioning

/-!
# The recorded type of a key

A key has the type that it was made with: it is made where nothing is at its path, and is never written
again (`makesOnly_of_ensureDomain`, and for all that a deploy pass asks `keeps_prepare`). What is recorded of
a key is what was wanted when it was last adopted, and a key may be adopted that is there already: one that a
failed pass made, or that an older request left behind. So its recorded type is the true one exactly if, when
the pass began that adopted it, the wanted key was not there or was of the wanted type (`recorded_type_iff`).

A run is followed by two invariants. `KeysKnown` says which pass adopted the recorded key and what it found;
`OneTypeEach` says that with every name only one type goes, if only one was ever declared with it.
-/

namespace Tenancy

theorem Text.occurs_append (part a b : List Char) : occurs part (a ++ (part ++ b)) = true := by
  induction a with
  | nil =>
    have first := dropStart?_append part b
    rw [List.nil_append]
    cases whole : part ++ b with
    | nil => simp [occurs, (List.append_eq_nil_iff.1 whole).1]
    | cons c cs =>
      rw [whole] at first
      simp [occurs, first]
  | cons c a ih => simp [occurs, ih]

open Rehearsal Rehearsal.World

namespace Rehearsal.World

/-- The type that the key at a path was made with. -/
def typeAt? (w : World) (path : String) : Option String :=
  match (w.vault.get? path).bind (·.member? "type") with
  | some (.string type) => some type
  | _ => none

/-- A key of the type was made at the path. -/
def MadeAs (w : World) (path type : String) : Prop := w.typeAt? path = some type

variable {w w' : World} {path type type' : String}

instance : Decidable (w.MadeAs path type) := inferInstanceAs (Decidable (w.typeAt? path = some type))

theorem MadeAs.unique (h : w.MadeAs path type) (h' : w.MadeAs path type') : type = type' :=
  Option.some.inj (h.symm.trans h')

theorem MadeAs.hasPath (h : w.MadeAs path type) : w.HasPath path := by
  rw [HasPath, Dict.contains_eq_isSome]
  cases hp : w.vault.get? path with
  | none => simp [MadeAs, typeAt?, hp] at h
  | some data => rfl

theorem hasPath_congr_at (h : w'.vault.get? path = w.vault.get? path) : w'.HasPath path ↔ w.HasPath path := by
  rw [HasPath, Dict.contains_eq_isSome, h, HasPath, Dict.contains_eq_isSome]

theorem madeAs_congr (h : w'.vault.get? path = w.vault.get? path) : w'.MadeAs path type ↔ w.MadeAs path type := by
  rw [MadeAs, typeAt?, h, MadeAs, typeAt?]

end Rehearsal.World

namespace Encryption

variable {kept : BackingSystem → Prop} {fails : Call → Error → Prop} {w w₁ w' : World}
  {tr : List (Moment Services World)} {path type d : String}

/-- What is kept of a key that is made has the type that was asked for. -/
theorem type_kept (d k type : String) :
    (World.kept (keyPath d k) (Json.ofMembers [("type", .string type)])).member? "type" = some (.string type) := by
  have key : Text.occurs "/keys/".toList (keyPath d k).toList = true := by
    rw [keyPath, String.toList_append, String.toList_append, List.append_assoc]
    exact Text.occurs_append _ _ _
  rw [World.kept, if_pos key]
  simp [Json.member?_ofMembers, Dict.get?_cons]

theorem KeyThere.congr {keys : KeyRecord} (h : KeyThere d keys w) (same : w'.vault = w.vault) :
    KeyThere d keys w' := by
  obtain ⟨domain, k, name, there⟩ := h
  exact ⟨domain, k, name, (hasPath_congr same).2 there⟩

/-! ## Keys that are made -/

/-- The path is that of a key of a tenant's domain. -/
def IsKeyPath (path : String) : Prop := ∃ u k, path = keyPath (domainName u) k

/-- Of all keys only the one at this path may be another one than before: nothing was there, and now there is
one of this type. -/
def MakesOnly (path type : String) (w w' : World) : Prop :=
  ∀ q, IsKeyPath q → w'.vault.get? q = w.vault.get? q ∨ q = path ∧ ¬ w.HasPath q ∧ w'.MadeAs q type

theorem makesOnly_of_same (same : ∀ q, IsKeyPath q → w'.vault.get? q = w.vault.get? q) :
    MakesOnly path type w w' := fun q hq => .inl (same q hq)

theorem MakesOnly.trans (h : MakesOnly path type w w₁) (h' : MakesOnly path type w₁ w') :
    MakesOnly path type w w' := by
  intro q hq
  rcases h q hq with same | ⟨rfl, absent, made⟩
  · rcases h' q hq with same' | ⟨rfl, absent, made⟩
    · exact .inl (same'.trans same)
    · exact .inr ⟨rfl, mt (hasPath_congr_at same).2 absent, made⟩
  · rcases h' q hq with same' | ⟨_, absent', _⟩
    · exact .inr ⟨rfl, absent, (madeAs_congr same').2 made⟩
    · exact absurd made.hasPath absent'

theorem MakesOnly.same_at {q : String} (h : MakesOnly path type w w') (hq : IsKeyPath q) (there : w.HasPath q) :
    w'.vault.get? q = w.vault.get? q := by
  rcases h q hq with same | ⟨_, absent, _⟩
  · exact same
  · exact absurd there absent

/-- The key that was to be made is of the wanted type exactly if it was not there or was of this type. -/
theorem MakesOnly.madeAs_iff (h : MakesOnly path type w w') (hq : IsKeyPath path) (there : w'.HasPath path) :
    w'.MadeAs path type ↔ ¬ w.HasPath path ∨ w.MadeAs path type := by
  rcases h path hq with same | ⟨_, absent, made⟩
  · rw [madeAs_congr same]
    exact ⟨.inr, fun h => h.resolve_left (not_not_intro ((hasPath_congr_at same).1 there))⟩
  · exact ⟨fun _ => .inl absent, fun _ => made⟩

/-- What leaves the engine alone, or writes and deletes paths of a domain only, makes no key. -/
theorem makesOnly_of_asks (hk : kept .vault) {α : Type} {j : Job α} {o : Except Error α}
    (h : j.Goes (conduct kept fails) w tr o w') (asks : j.Asks fun c => ∀ q : VaultCall, c = .vault q →
      (∃ p, q = .read p) ∨ ∃ p ∈ domainPaths d, (∃ body, q = .write p body) ∨ q = .delete p) :
    MakesOnly path type w w' := by
  have other {p q : String} (hp : p ∈ domainPaths d) (hq : IsKeyPath q) : q ≠ p := by
    obtain ⟨u, k, rfl⟩ := hq
    exact fun he => keyPath_not_mem d u k (he ▸ hp)
  refine makesOnly_of_same (kept_of_calls h hk asks
    (P := fun w' => ∀ q, IsKeyPath q → w'.vault.get? q = w.vault.get? q) ?_ ?_ fun _ _ => rfl)
  · intro w₁ w₂ (same : w₂.vault = w₁.vault) hw q hq
    rw [same, hw q hq]
  · rintro c w₁ r w₂ (⟨p, rfl⟩ | ⟨p, hp, ⟨body, rfl⟩ | rfl⟩) hr hw q hq
    · rw [(read_found hk hr).1, hw q hq]
    · rcases write_inserts hk hr with ⟨_, insert⟩ | ⟨_, _, same⟩
      · rw [insert, Dict.get?_insert_of_ne _ _ (other hp hq), hw q hq]
      · rw [same, hw q hq]
    · rcases delete_erases hk hr with ⟨_, erase⟩ | ⟨_, _, same, _⟩
      · rw [erase, Dict.get?_erase_of_ne _ (other hp hq), hw q hq]
      · rw [same, hw q hq]

theorem makesOnly_of_ensureKey (hk : kept .vault) {k : String} {o : Except Error Json}
    (h : (ensureKey (keyPath d k) type).Goes (conduct kept fails) w tr o w') :
    MakesOnly (keyPath d k) type w w' := by
  rcases ensureKey_vault hk h with ⟨same, _⟩ | ⟨absent, insert⟩
  · exact makesOnly_of_same fun q _ => by rw [same]
  · intro q _
    by_cases he : q = keyPath d k
    · subst he
      refine .inr ⟨rfl, ?_, ?_⟩
      · rw [HasPath, Dict.contains_eq_isSome, absent]
        exact Bool.false_ne_true
      · rw [MadeAs, typeAt?, insert, Dict.get?_insert_self, Option.bind_some, type_kept]
    · exact .inl (by rw [insert, Dict.get?_insert_of_ne _ _ he])

theorem makesOnly_of_recordKey (hk : kept .vault) {k : String} {o : Except Error KeyRecord}
    (h : (recordKey d k type).Goes (conduct kept fails) w tr o w') : MakesOnly (keyPath d k) type w w' := by
  rcases Job.goes_bind h with ⟨e, rfl, key⟩ | ⟨_, w₁, tr₁, tr₂, key, rest, rfl⟩
  · exact makesOnly_of_ensureKey hk key
  · obtain ⟨_, _, rfl⟩ := Job.goes_pure rest
    exact makesOnly_of_ensureKey hk key

/-- A call for a domain makes only the key that it says, and that one is there if the call comes to its end. -/
theorem makesOnly_of_ensureDomain (hk : kept .vault) {tenant uuid : String} {desired : KeySettings}
    {recorded : KeyRecord} {rotate : Bool} {o : Except Error KeyRecord}
    (h : (ensureDomain tenant uuid desired recorded rotate).Goes (conduct kept fails) w tr o w') :
    MakesOnly (keyPath (recorded.domain.getD (domainName uuid))
        (keep (rotate || recorded.keyName.isNone) recorded.keyName desired.keyName))
      (keep (rotate || recorded.keyName.isNone) recorded.keyType desired.keyType) w w' ∧
    ∀ keys, o = .ok keys → KeyThere (recorded.domain.getD (domainName uuid)) keys w' := by
  have looked {d path type : String} {w w' : World} {tr : List (Moment Services World)}
      {x : Except Error (Option Json)} (h : (read (mountPath d)).Goes (conduct kept fails) w tr x w') :
      MakesOnly path type w w' :=
    makesOnly_of_same fun q _ => by rw [(read_found hk (Job.goes_call h).1).1]
  have made {d path type : String} {w w' : World} {tr : List (Moment Services World)} {x : Except Error Unit}
      (h : (provision tenant d).Goes (conduct kept fails) w tr x w') : MakesOnly path type w w' :=
    makesOnly_of_asks hk h (asks_provision (fun p hp body c he => by cases he; exact .inr ⟨p, hp, .inl ⟨body, rfl⟩⟩)
      fun p hp c he => by cases he; exact .inr ⟨p, hp, .inr rfl⟩)
  cases ensureDomain_goes rfl h with
  | unread look => exact ⟨looked look, nofun⟩
  | mounted look key =>
    exact ⟨(looked look).trans (makesOnly_of_recordKey hk key), (recordKey_goes hk key).2.1⟩
  | unmade look making => exact ⟨(looked look).trans (made making), nofun⟩
  | made look making key =>
    exact ⟨((looked look).trans (made making)).trans (makesOnly_of_recordKey hk key), (recordKey_goes hk key).2.1⟩

end Encryption

namespace Lifecycle

open Encryption

variable {settings : Settings} {kept : BackingSystem → Prop} {fails : Call → Error → Prop}
  {edits : Tenant → Tenant → Prop} {fresh : Fresh} {t t' : Tenant} {w w' w₀ : World} {a : Option World}
  {tr : List (Moment Services World)}

/-! ## The key that a pass chooses -/

/-- A pass adopts the wanted key, and does not keep the recorded one. -/
def adoptsKey (t : Tenant) : Bool := t.spec.requiresKeyUpdate || t.recorded.keys.keyName.isNone

/-- The name of the key that a pass makes sure of. -/
def chosenName (t : Tenant) : String := keep (adoptsKey t) t.recorded.keys.keyName t.spec.keys.keyName

def chosenType (t : Tenant) : String := keep (adoptsKey t) t.recorded.keys.keyType t.spec.keys.keyType

def chosenDomain (fresh : Fresh) (t : Tenant) : String :=
  t.recorded.keys.domain.getD (domainName (t.recorded.uuid.getD fresh.uuid))

def chosenPath (fresh : Fresh) (t : Tenant) : String := keyPath (chosenDomain fresh t) (chosenName t)

theorem keeps_prepare (hk : kept .vault) : Job.Keeps (conduct kept fails)
    (MakesOnly (chosenPath fresh t) (chosenType t) w)
    (prepare settings fresh t (deployingStatus fresh t.recorded)) := by
  have quiet {α : Type} {j : Job α} (asks : j.Asks fun c => c.system ≠ .vault) :
      Job.Keeps (conduct kept fails) (MakesOnly (chosenPath fresh t) (chosenType t) w) j := fun h makes =>
    makes.trans (makesOnly_of_same fun q _ => by
      rw [show _ = _ from sameFor_of_asks h hk asks])
  have keys : Job.Keeps (conduct kept fails) (MakesOnly (chosenPath fresh t) (chosenType t) w)
      (ensureKeys t (t.recorded.uuid.getD fresh.uuid) t.recorded.keys) := by
    unfold ensureKeys
    split
    · refine Job.keeps_bind (fun h makes => makes.trans (makesOnly_of_ensureDomain hk h).1) fun _ => ?_
      dsimp only
      split
      · exact Job.keeps_bind (quiet (j := clearKeyUpdate t) (Job.asks_call nofun)) fun _ => Job.keeps_pure
      · exact Job.keeps_pure
    · exact Job.keeps_pure
  intro w₁ tr o w₂
  refine Job.keeps_bind (quiet (asks_ensureNamespaces fun _ _ => nofun)) fun r => ?_
  cases r with
  | pending => exact Job.keeps_pure
  | ready =>
    refine Job.keeps_bind (quiet (Hardware.asks_converge fun _ _ => nofun)) fun _ => ?_
    refine Job.keeps_bind (quiet (Hardware.asks_converge fun _ _ => nofun)) fun _ => ?_
    refine Job.keeps_bind ?_ fun _ => Job.keeps_pure
    refine Job.keeps_bind (quiet (Identity.asks_ensureAdmin fun _ _ => nofun)) fun _ => ?_
    refine Job.keeps_bind keys fun _ => ?_
    refine Job.keeps_bind (quiet (Job.asks_forM fun c _ => Job.asks_discard (Hierarchy.asks_removeAnchor nofun)))
      fun _ => ?_
    exact Job.keeps_bind (quiet (Dispatch.asks_dispatch fun _ _ => nofun)) fun _ => Job.keeps_pure

/-- Where a call for the keys comes to its end, the key that it says is there. -/
theorem keyThere_of_ensureKeys (hk : kept .vault) {uuid : String} {recorded keys : KeyRecord}
    (enabled : t.spec.keys.enabled = true)
    (h : (ensureKeys t uuid recorded).Goes (conduct kept fails) w tr (.ok keys) w') :
    KeyThere (recorded.domain.getD (domainName uuid)) keys w' := by
  unfold ensureKeys at h
  rw [if_pos enabled] at h
  obtain ⟨_, w₁, tr₁, tr₂, ensured, rest, _⟩ := Job.goes_bind_ok h
  have there := (makesOnly_of_ensureDomain hk ensured).2 _ rfl
  dsimp only at rest
  split at rest
  · obtain ⟨_, _, _, _, cleared, done, _⟩ := Job.goes_bind_ok rest
    obtain ⟨_, ho, rfl⟩ := Job.goes_pure done
    cases ho
    have same : w'.vault = w₁.vault := sameFor_of_asks (t := clearKeyUpdate t) cleared hk (Job.asks_call nofun)
    exact there.congr same
  · obtain ⟨_, ho, rfl⟩ := Job.goes_pure rest
    cases ho
    exact there

theorem keyThere_of_prepare (hk : kept .vault) {keys : KeyRecord} (enabled : t.spec.keys.enabled = true)
    (h : (prepare settings fresh t (deployingStatus fresh t.recorded)).Goes (conduct kept fails) w tr
      (.ok (some keys)) w') : KeyThere (chosenDomain fresh t) keys w' := by
  obtain ⟨_, _, _, _, _, _, _, _, _, _, others, _⟩ := prepare_ok h
  obtain ⟨w₁, w₂, w₃, _, _, _, _, _, hkeys, children, told, _⟩ := applyOthers_ok others
  have pruned : w₃.vault = w₂.vault := sameFor_of_asks children hk
    (Job.asks_forM fun c _ => Job.asks_discard (Hierarchy.asks_removeAnchor nofun))
  have same : w'.vault = w₃.vault := sameFor_of_asks told hk (Dispatch.asks_dispatch fun _ _ => nofun)
  exact (keyThere_of_ensureKeys hk enabled hkeys).congr (same.trans pruned)

/-- A tenant that wants no keys keeps what is recorded of them. -/
theorem keys_of_unwanted {keys : KeyRecord} (unwanted : ¬ t.spec.keys.enabled = true)
    (h : (prepare settings fresh t (deployingStatus fresh t.recorded)).Goes (conduct kept fails) w tr
      (.ok (some keys)) w') : keys = t.recorded.keys := by
  obtain ⟨_, _, _, _, _, _, _, _, _, _, others, _⟩ := prepare_ok h
  obtain ⟨_, _, _, _, _, _, _, _, hkeys, _⟩ := applyOthers_ok others
  unfold ensureKeys at hkeys
  rw [if_neg unwanted] at hkeys
  exact Except.ok.inj (Job.goes_pure hkeys).2.1

/-- What a pass over a tenant that is not to be deleted comes to for its keys. -/
structure KeyPass (fresh : Fresh) (t : Tenant) (w : World) (tr : List (Moment Services World)) (t' : Tenant)
    (w' : World) : Prop where
  makes : MakesOnly (chosenPath fresh t) (chosenType t) w w'
  uuid : t'.recorded.uuid = some (t.recorded.uuid.getD fresh.uuid) ∨
    t'.recorded.uuid = t.recorded.uuid ∧ w'.vault = w.vault ∧ ¬ WritesDeployed tr
  keys : ¬ (WritesDeployed tr ∧ t.spec.keys.enabled = true) ∧ t'.recorded.keys = t.recorded.keys ∨
    (WritesDeployed tr ∧ t.spec.keys.enabled = true) ∧ w'.HasPath (chosenPath fresh t) ∧
      t'.recorded.keys.domain = some (chosenDomain fresh t) ∧
      t'.recorded.keys.keyName = some (chosenName t) ∧ t'.recorded.keys.keyType = some (chosenType t)

theorem keyPass_of_pass (hk : kept .vault) (h : Pass kept fails settings fresh t w tr w') :
    ∃ t', w'.tenant = some t' ∧ t.Tended t' ∧ (t.deletionRequested = false → KeyPass fresh t w tr t' w') := by
  have makes {w₁ w₂ : World} {tr : List (Moment Services World)} {o : Except Error (Option KeyRecord)}
      (begun : OthersSame kept w w₁) (middle : (prepare settings fresh t (deployingStatus fresh t.recorded)).Goes
        (conduct kept fails) w₁ tr o w₂) (ended : OthersSame kept w₂ w') :
      MakesOnly (chosenPath fresh t) (chosenType t) w w' := by
    have before : w₁.vault = w.vault := begun _ hk nofun
    have after : w'.vault = w₂.vault := ended _ hk nofun
    have makes := keeps_prepare hk middle (makesOnly_of_same (w := w) fun q _ => by rw [before])
    exact makes.trans (makesOnly_of_same fun q _ => by rw [after])
  cases h with
  | idle quiet _ stored others =>
    obtain ⟨t', ht', ⟨tended, _⟩, recorded⟩ := stored
    have same : w'.vault = w.vault := others _ hk nofun
    refine ⟨t', ht', tended, fun _ => ⟨makesOnly_of_same fun q _ => by rw [same], .inr ⟨?_, same, quiet⟩,
      .inl ⟨fun h => quiet h.1, ?_⟩⟩⟩
    · rw [recorded]
    · rw [recorded]
  | interrupted quiet _ _ begun middle ended stored =>
    obtain ⟨t', ht', ⟨tended, _⟩, recorded⟩ := stored
    refine ⟨t', ht', tended, fun _ => ⟨makes begun middle ended, .inl ?_, .inl ⟨fun h => quiet h.1, ?_⟩⟩⟩
    · rw [recorded, deployingStatus]
    · rw [recorded, deployingStatus]
  | deployed writes _ _ begun middle ended stored =>
    obtain ⟨t', ht', ⟨tended, _⟩, recorded⟩ := stored
    refine ⟨t', ht', tended, fun _ => ⟨makes begun middle ended, .inl (by rw [recorded]; rfl), ?_⟩⟩
    rw [recorded]
    by_cases enabled : t.spec.keys.enabled = true
    · rcases keys_of_prepare middle with ⟨_, disabled⟩ | ⟨domain, name, type⟩
      · cases enabled.symm.trans disabled
      · obtain ⟨_, k, hk', there⟩ := (keyThere_of_prepare hk enabled middle).congr (ended _ hk nofun)
        obtain rfl := Option.some.inj (name.symm.trans hk')
        exact .inr ⟨⟨writes, enabled⟩, there, domain, name, type⟩
    · exact .inl ⟨fun h => enabled h.2, keys_of_unwanted enabled middle⟩
  | uncleared _ requested _ _ _ _ stored =>
    obtain ⟨t', ht', ⟨tended, _⟩, _⟩ := stored
    exact ⟨t', ht', tended, fun alive => by cases requested.symm.trans alive⟩
  | released _ requested _ _ _ _ _ stored tended _ =>
    exact ⟨_, stored, tended, fun alive => by cases requested.symm.trans alive⟩

theorem Pass.alive_of_writes (h : Pass kept fails settings fresh t w tr w') (writes : WritesDeployed tr) :
    t.deletionRequested = false := by
  cases h with
  | deployed _ alive => exact alive
  | idle quiet => exact absurd writes quiet
  | interrupted quiet => exact absurd writes quiet
  | uncleared quiet => exact absurd writes quiet
  | released quiet => exact absurd writes quiet

/-! ## Runs -/

/-- The state in which the last pass began that adopted the wanted key and came to its end, after a pass from
this state: it may be this one. -/
def lastAdoption (t : Tenant) (w : World) (tr : List (Moment Services World)) (a : Option World) : Option World :=
  if (WritesDeployed tr ∧ t.spec.keys.enabled = true) ∧ adoptsKey t = true then some w else a

/-- Passes and edits, and the state in which the last of the passes began that adopted the wanted key and came
to its end. -/
inductive KeyRun (settings : Settings) (kept : BackingSystem → Prop) (fails : Call → Error → Prop)
    (edits : Tenant → Tenant → Prop) (w₀ : World) : Option World → World → Prop
  | start : KeyRun settings kept fails edits w₀ none w₀
  | pass {a : Option World} {w w' : World} {t : Tenant} {fresh : Fresh} {tr : List (Moment Services World)}
      {o : Except Error Action} (before : KeyRun settings kept fails edits w₀ a w) (stored : w.tenant = some t)
      (goes : (reconcile settings fresh t).Goes (conduct kept fails) w tr o w') :
      KeyRun settings kept fails edits w₀ (lastAdoption t w tr a) w'
  | edit {a : Option World} {w : World} {t t' : Tenant} (before : KeyRun settings kept fails edits w₀ a w)
      (stored : w.tenant = some t) (edited : edits t t') :
      KeyRun settings kept fails edits w₀ a { w with tenant := some (bump t') }

/-- Every run is one in which the last adoption is known. -/
theorem exists_keyRun (run : Run settings kept fails edits w₀ w) : ∃ a, KeyRun settings kept fails edits w₀ a w := by
  induction run with
  | refl => exact ⟨none, .start⟩
  | tail _ step ih =>
    obtain ⟨a, before⟩ := ih
    cases step with
    | pass stored goes => exact ⟨_, .pass before stored goes⟩
    | edit stored edited => exact ⟨a, .edit before stored edited⟩

theorem KeyRun.preserves (hs : kept .store) (hk : kept .vault) {P : Option World → Tenant → World → Prop}
    (pass : ∀ {fresh a t t' w w' tr}, w.tenant = some t → t.Tended t' → KeyPass fresh t w tr t' w' → P a t w →
      P (lastAdoption t w tr a) t' w')
    (edit : ∀ {a t t' w}, edits t t' → P a t w → P a (bump t') { w with tenant := some (bump t') })
    (unrequested : ∀ {t t'}, edits t t' → t'.deletionRequested = t.deletionRequested)
    (run : KeyRun settings kept fails edits w₀ a w)
    (start : ∃ t, w₀.tenant = some t ∧ (t.deletionRequested = false → P none t w₀)) :
    ∃ t, w.tenant = some t ∧ (t.deletionRequested = false → P a t w) := by
  induction run with
  | start => exact start
  | pass _ stored goes ih =>
    obtain ⟨t, ht, hP⟩ := ih
    obtain rfl := Option.some.inj (ht.symm.trans stored)
    obtain ⟨t', ht', tended, passes⟩ := keyPass_of_pass hk (pass_of_goes hs stored goes)
    refine ⟨t', ht', fun alive => ?_⟩
    rw [tended.deletionRequested] at alive
    exact pass stored tended (passes alive) (hP alive)
  | edit _ stored edited ih =>
    obtain ⟨t, ht, hP⟩ := ih
    obtain rfl := Option.some.inj (ht.symm.trans stored)
    exact ⟨_, rfl, fun alive => edit edited (hP ((unrequested edited).symm.trans alive))⟩

/-- The recorded key is the one that was wanted when the pass began that adopted it. It is there, and of the
recorded type exactly if then nothing was at its path or a key of this type. -/
structure Adopted (wₐ w : World) (keys : KeyRecord) (d k y : String) : Prop where
  domain : keys.domain = some d
  name : keys.keyName = some k
  type : keys.keyType = some y
  wanted : ∃ t, wₐ.tenant = some t ∧ t.spec.keys.keyName = k ∧ t.spec.keys.keyType = y
  there : w.HasPath (keyPath d k)
  true_iff : w.MadeAs (keyPath d k) y ↔ ¬ wₐ.HasPath (keyPath d k) ∨ wₐ.MadeAs (keyPath d k) y

/-- An adopted key stays what it is while keys are only made. -/
theorem Adopted.after {wₐ : World} {d k y path type : String} (h : Adopted wₐ w t.recorded.keys d k y)
    (isKey : IsKeyPath (keyPath d k)) (makes : MakesOnly path type w w') {keys : KeyRecord}
    (domain : keys.domain = some d) (name : keys.keyName = some k) (type : keys.keyType = some y) :
    Adopted wₐ w' keys d k y := by
  have same := makes.same_at isKey h.there
  exact ⟨domain, name, type, h.wanted, (hasPath_congr_at same).2 h.there, (madeAs_congr same).trans h.true_iff⟩

/-- The recorded domain has the name that the identifier gives, and a recorded key was adopted. -/
structure KeysKnown (a : Option World) (t : Tenant) (w : World) : Prop where
  named : ∀ d, t.recorded.keys.domain = some d → ∃ u, t.recorded.uuid = some u ∧ d = domainName u
  adopted : ∀ k, t.recorded.keys.keyName = some k → ∃ wₐ d y, a = some wₐ ∧ Adopted wₐ w t.recorded.keys d k y

theorem keysKnown_new (new : t.status = none) : KeysKnown none t w := by
  have hrec : t.recorded = {} := by simp [Tenant.recorded, new]
  exact ⟨by simp [hrec], by simp [hrec]⟩

theorem KeysKnown.domain_eq (h : KeysKnown a t w) (fresh : Fresh) :
    chosenDomain fresh t = domainName (t.recorded.uuid.getD fresh.uuid) := by
  cases hd : t.recorded.keys.domain with
  | none => simp [chosenDomain, hd]
  | some d =>
    obtain ⟨u, hu, rfl⟩ := h.named d hd
    simp [chosenDomain, hd, hu]

theorem KeysKnown.isKeyPath (h : KeysKnown a t w) (fresh : Fresh) : IsKeyPath (chosenPath fresh t) :=
  ⟨_, _, by rw [chosenPath, h.domain_eq]⟩

theorem KeysKnown.of_pass (h : KeysKnown a t w) (stored : w.tenant = some t)
    (pass : KeyPass fresh t w tr t' w') : KeysKnown (lastAdoption t w tr a) t' w' := by
  rcases pass.keys with ⟨ended, keys⟩ | ⟨⟨writes, enabled⟩, there, domain, name, type⟩
  · rw [lastAdoption, if_neg fun adopts => ended adopts.1]
    constructor
    · intro d hd
      obtain ⟨u, hu, rfl⟩ := h.named d (keys ▸ hd)
      refine ⟨u, ?_, rfl⟩
      rcases pass.uuid with uuid | ⟨uuid, _⟩
      · rw [uuid, hu, Option.getD_some]
      · rw [uuid, hu]
    · intro k name
      obtain ⟨wₐ, d, y, last, adopted⟩ := h.adopted k (keys ▸ name)
      obtain ⟨u, _, rfl⟩ := h.named d adopted.domain
      refine ⟨wₐ, _, y, last, adopted.after ⟨u, k, rfl⟩ pass.makes ?_ name ?_⟩
      · rw [keys, adopted.domain]
      · rw [keys, adopted.type]
  · have uuid : t'.recorded.uuid = some (t.recorded.uuid.getD fresh.uuid) :=
      pass.uuid.resolve_right fun quiet => quiet.2.2 writes
    constructor
    · intro d hd
      refine ⟨_, uuid, ?_⟩
      rw [← h.domain_eq fresh]
      exact Option.some.inj (hd.symm.trans domain)
    · intro k hk
      obtain rfl := Option.some.inj (hk.symm.trans name)
      by_cases adopts : adoptsKey t = true
      · rw [lastAdoption, if_pos ⟨⟨writes, enabled⟩, adopts⟩]
        refine ⟨w, _, _, rfl, domain, name, type, ⟨t, stored, ?_, ?_⟩, there,
          pass.makes.madeAs_iff (h.isKeyPath fresh) there⟩
        · rw [chosenName, keep, if_pos adopts]
        · rw [chosenType, keep, if_pos adopts]
      · -- the recorded key is kept
        rw [lastAdoption, if_neg fun h => adopts h.2]
        obtain ⟨k, hk⟩ : ∃ k, t.recorded.keys.keyName = some k := by
          rw [← Option.isSome_iff_exists, ← Option.not_isNone]
          simp only [adoptsKey, Bool.or_eq_true, not_or, Bool.not_eq_true] at adopts
          rw [adopts.2]
          rfl
        obtain ⟨wₐ, d, y, last, adopted⟩ := h.adopted k hk
        have sameDomain : chosenDomain fresh t = d := by rw [chosenDomain, adopted.domain, Option.getD_some]
        have sameName : chosenName t = k := by rw [chosenName, keep, if_neg adopts, hk, Option.getD_some]
        have sameType : chosenType t = y := by rw [chosenType, keep, if_neg adopts, adopted.type, Option.getD_some]
        have isKey := h.isKeyPath fresh
        rw [chosenPath, sameDomain, sameName] at isKey
        rw [sameName]
        exact ⟨wₐ, d, y, last, adopted.after isKey pass.makes (sameDomain ▸ domain) (sameName ▸ name)
          (sameType ▸ type)⟩

theorem KeysKnown.of_edit (h : KeysKnown a t w) (edit : t.Respecified t') :
    KeysKnown a (bump t') { w with tenant := some (bump t') } := by
  obtain ⟨spec, rfl⟩ := edit
  exact ⟨h.named, fun k hk => by
    obtain ⟨wₐ, d, y, last, adopted⟩ := h.adopted k hk
    exact ⟨wₐ, d, y, last, adopted.domain, adopted.name, adopted.type, adopted.wanted, adopted.there,
      adopted.true_iff⟩⟩

/-! ## Names that go with one type -/

/-- Every name goes with one type: the wanted key and the recorded one have the type that goes with their
names, and so have all keys of the tenant. -/
structure OneTypeEach (typeOf : String → String) (t : Tenant) (w : World) : Prop where
  wanted : t.spec.keys.keyType = typeOf t.spec.keys.keyName
  recorded : ∀ k, t.recorded.keys.keyName = some k → t.recorded.keys.keyType = some (typeOf k)
  unassigned : t.recorded.uuid = none → ∀ q, IsKeyPath q → ¬ w.HasPath q
  made : ∀ u k, t.recorded.uuid = some u → w.HasPath (keyPath (domainName u) k) →
    w.MadeAs (keyPath (domainName u) k) (typeOf k)

variable {typeOf : String → String}

theorem oneTypeEach_new (new : t.status = none) (untouched : ∀ q, IsKeyPath q → ¬ w.HasPath q)
    (wanted : t.spec.keys.keyType = typeOf t.spec.keys.keyName) : OneTypeEach typeOf t w := by
  have hrec : t.recorded = {} := by simp [Tenant.recorded, new]
  exact ⟨wanted, by simp [hrec], fun _ => untouched, by simp [hrec]⟩

theorem OneTypeEach.chosenType_eq (h : OneTypeEach typeOf t w) : chosenType t = typeOf (chosenName t) := by
  by_cases adopts : adoptsKey t = true
  · rw [chosenType, chosenName, keep, keep, if_pos adopts, if_pos adopts, h.wanted]
  · cases name : t.recorded.keys.keyName with
    | none => exact absurd (by simp [adoptsKey, name]) adopts
    | some k => rw [chosenType, chosenName, keep, keep, if_neg adopts, if_neg adopts, h.recorded k name, name,
        Option.getD_some, Option.getD_some]

theorem OneTypeEach.of_pass (h : OneTypeEach typeOf t w) (known : KeysKnown a t w) (tended : t.Tended t')
    (pass : KeyPass fresh t w tr t' w') : OneTypeEach typeOf t' w' := by
  constructor
  case wanted =>
    rw [tended.keys]
    exact h.wanted
  case recorded =>
    intro k hk
    rcases pass.keys with ⟨_, keys⟩ | ⟨_, _, _, name, type⟩
    · rw [keys]
      exact h.recorded k (keys ▸ hk)
    · obtain rfl := Option.some.inj (hk.symm.trans name)
      rw [type, h.chosenType_eq]
  case unassigned =>
    intro none q hq
    rcases pass.uuid with uuid | ⟨uuid, same, _⟩
    · cases none.symm.trans uuid
    · exact mt (hasPath_congr same).1 (h.unassigned (uuid ▸ none) q hq)
  case made =>
    intro u k hu there
    rcases pass.uuid with uuid | ⟨uuid, same, _⟩
    · obtain rfl := Option.some.inj (hu.symm.trans uuid)
      rcases pass.makes _ ⟨_, k, rfl⟩ with same | ⟨path, _, made⟩
      · rw [hasPath_congr_at same] at there
        rw [madeAs_congr same]
        cases assigned : t.recorded.uuid with
        | none => exact absurd there (h.unassigned assigned _ ⟨_, k, rfl⟩)
        | some u =>
          rw [assigned] at there
          exact h.made u k assigned there
      · rw [chosenPath, known.domain_eq fresh] at path
        obtain rfl : k = chosenName t := by simpa [keyPath] using path
        rwa [h.chosenType_eq] at made
    · exact (madeAs_congr (by rw [same])).2 (h.made u k (uuid ▸ hu) ((hasPath_congr same).1 there))

theorem OneTypeEach.of_edit (h : OneTypeEach typeOf t w) (edit : t.Respecified t')
    (wanted : t'.spec.keys.keyType = typeOf t'.spec.keys.keyName) :
    OneTypeEach typeOf (bump t') { w with tenant := some (bump t') } := by
  obtain ⟨spec, rfl⟩ := edit
  exact ⟨wanted, h.recorded, h.unassigned, h.made⟩

/-! ## Results -/

variable {t₀ : Tenant} {o : Except Error Action}

theorem KeyRun.keysKnown (hs : kept .store) (hk : kept .vault) (start : w₀.tenant = some t₀)
    (new : t₀.status = none) (respecifies : ∀ t t', edits t t' → t.Respecified t')
    (run : KeyRun settings kept fails edits w₀ a w) :
    ∃ t, w.tenant = some t ∧ (t.deletionRequested = false → KeysKnown a t w) := by
  refine run.preserves hs hk (P := KeysKnown) (fun stored _ pass known => known.of_pass stored pass)
    (fun edited known => known.of_edit (respecifies _ _ edited)) ?_ ⟨t₀, start, fun _ => keysKnown_new new⟩
  intro t t' edited
  obtain ⟨spec, rfl⟩ := respecifies t t' edited
  rfl

theorem KeyRun.oneTypeEach (hs : kept .store) (hk : kept .vault) (start : w₀.tenant = some t₀)
    (new : t₀.status = none) (untouched : ∀ q, IsKeyPath q → ¬ w₀.HasPath q)
    (respecifies : ∀ t t', edits t t' → t.Respecified t')
    (first : t₀.spec.keys.keyType = typeOf t₀.spec.keys.keyName)
    (declared : ∀ t t', edits t t' → t'.spec.keys.keyType = typeOf t'.spec.keys.keyName)
    (run : KeyRun settings kept fails edits w₀ a w) :
    ∃ t, w.tenant = some t ∧ (t.deletionRequested = false → OneTypeEach typeOf t w) := by
  have both : ∃ t, w.tenant = some t ∧ (t.deletionRequested = false → KeysKnown a t w ∧ OneTypeEach typeOf t w) := by
    refine run.preserves hs hk (P := fun a t w => KeysKnown a t w ∧ OneTypeEach typeOf t w)
      (fun stored tended pass h => ⟨h.1.of_pass stored pass, h.2.of_pass h.1 tended pass⟩) ?_ ?_
      ⟨t₀, start, fun _ => ⟨keysKnown_new new, oneTypeEach_new new untouched first⟩⟩
    · intro a t t' w edited h
      exact ⟨h.1.of_edit (respecifies t t' edited), h.2.of_edit (respecifies t t' edited) (declared t t' edited)⟩
    · intro t t' edited
      obtain ⟨spec, rfl⟩ := respecifies t t' edited
      rfl
  obtain ⟨t, ht, h⟩ := both
  exact ⟨t, ht, fun alive => (h alive).2⟩

/-- After a pass that ended deployed the recorded key is there, and was wanted when the pass began that adopted
it. Its recorded type is the one it was made with exactly if then nothing was at its path or a key of this
type, and is so in any case if with every name that was declared only one type was. -/
theorem recorded_type_iff (hs : kept .store) (hk : kept .vault) (start : w₀.tenant = some t₀)
    (new : t₀.status = none) (untouched : ∀ q, IsKeyPath q → ¬ w₀.HasPath q)
    (respecifies : ∀ t t', edits t t' → t.Respecified t') (run : KeyRun settings kept fails edits w₀ a w)
    (stored : w.tenant = some t) (enabled : t.spec.keys.enabled = true)
    (goes : (reconcile settings fresh t).Goes (conduct kept fails) w tr o w') (writes : WritesDeployed tr) :
    ∃ t' wₐ d k y, w'.tenant = some t' ∧ lastAdoption t w tr a = some wₐ ∧
      Adopted wₐ w' t'.recorded.keys d k y ∧
      ∀ typeOf : String → String, t₀.spec.keys.keyType = typeOf t₀.spec.keys.keyName →
        (∀ t t', edits t t' → t'.spec.keys.keyType = typeOf t'.spec.keys.keyName) →
        w'.MadeAs (keyPath d k) y := by
  have passed := pass_of_goes hs stored goes
  have alive : t.deletionRequested = false := passed.alive_of_writes writes
  obtain ⟨t', ht', tended, passes⟩ := keyPass_of_pass hk passed
  have alive' : t'.deletionRequested = false := tended.deletionRequested.trans alive
  have whole := run.pass stored goes
  obtain ⟨_, ht, known⟩ := whole.keysKnown hs hk start new respecifies
  obtain rfl := Option.some.inj (ht'.symm.trans ht)
  have known := known alive'
  rcases (passes alive).keys with ⟨unended, _⟩ | ⟨_, _, _, name, _⟩
  · exact absurd ⟨writes, enabled⟩ unended
  obtain ⟨wₐ, d, y, last, adopted⟩ := known.adopted _ name
  refine ⟨t', wₐ, d, _, y, ht', last, adopted, fun typeOf first declared => ?_⟩
  obtain ⟨_, ht, each⟩ := whole.oneTypeEach hs hk start new untouched respecifies first declared
  obtain rfl := Option.some.inj (ht'.symm.trans ht)
  have each := each alive'
  obtain ⟨u, hu, rfl⟩ := known.named d adopted.domain
  obtain rfl := Option.some.inj (adopted.type.symm.trans (each.recorded _ adopted.name))
  exact each.made u _ hu adopted.there

/-! ## A key that is recorded truly and one that is not -/

/-- Other keys are declared, or an update of them is asked for. -/
def DeclaresKeys (t t' : Tenant) : Prop :=
  ∃ keys request, t' = { t with spec := { t.spec with keys := keys, requiresKeyUpdate := request } }

theorem DeclaresKeys.respecified (h : DeclaresKeys t t') : t.Respecified t' := by
  obtain ⟨keys, request, rfl⟩ := h
  exact ⟨_, rfl⟩

theorem untouched_start {spec : Spec} {lines : List String} {q : String} :
    ¬ (Stage.start spec lines).world.HasPath q := Bool.false_ne_true

/-- An update to this key is asked for. -/
def renew (k y : String) (t : Tenant) : Tenant :=
  { t with spec := { t.spec with
      requiresKeyUpdate := true
      keys := { t.spec.keys with keyName := k, keyType := y } } }

/-- A tenant whose first key was made, and that then asks for this one. -/
def asking (k y : String) : Stage := (Stage.firstPass wantsKeys []).edit (renew k y)

/-- The tenant when it has the key that it asked for. -/
def renewed (k y : String) : Stage := (asking k y).pass {} ⟨"2", "later"⟩

theorem plain_asking (k y : String) : (asking k y).Plain Call.Unreachable :=
  Stage.plain_edit (Stage.plain_firstPass wantsKeys []) _

/-- The first key has one type, and all others have another. -/
def secondType (k : String) : String := if k = "key1" then "rsa-3072" else "ecdsa-p256"

/-- A key under another name is made with the type that is recorded. -/
theorem recorded_type_of_other_name :
    (renewed "key2" "ecdsa-p256").world.tenant.bind (·.recorded.keys.keyType) = some "ecdsa-p256" ∧
      (renewed "key2" "ecdsa-p256").world.MadeAs (keyPath (domainName "1") "key2") "ecdsa-p256" := by
  obtain ⟨stored₁, stored, enabled, writes, domain, name, type⟩ :
      (Stage.firstPass wantsKeys []).world.tenant = some (Stage.firstPass wantsKeys []).tenant ∧
        (asking "key2" "ecdsa-p256").world.tenant = some (asking "key2" "ecdsa-p256").tenant ∧
        (asking "key2" "ecdsa-p256").tenant.spec.keys.enabled = true ∧
        WritesDeployed ((asking "key2" "ecdsa-p256").passStory {} ⟨"2", "later"⟩) ∧
        (renewed "key2" "ecdsa-p256").world.tenant.bind (·.recorded.keys.domain) = some (domainName "1") ∧
        (renewed "key2" "ecdsa-p256").world.tenant.bind (·.recorded.keys.keyName) = some "key2" ∧
        (renewed "key2" "ecdsa-p256").world.tenant.bind (·.recorded.keys.keyType) = some "ecdsa-p256" := by
    decide +kernel
  have first : KeyRun {} (fun _ => True) Call.Unreachable
      (fun t t' => DeclaresKeys t t' ∧ t'.spec.keys.keyType = secondType t'.spec.keys.keyName)
      (Stage.start wantsKeys []).world _ (Stage.firstPass wantsKeys []).world :=
    .pass .start rfl (Stage.goes_pass (Stage.plain_start wantsKeys []) rfl)
  have edited : DeclaresKeys (Stage.firstPass wantsKeys []).tenant
      (renew "key2" "ecdsa-p256" (Stage.firstPass wantsKeys []).tenant) := ⟨_, _, rfl⟩
  have run := first.edit stored₁ ⟨edited, by decide⟩
  rw [← Stage.edit_world stored₁ (renew "key2" "ecdsa-p256")] at run
  obtain ⟨t', _, d, k, y, ht', _, adopted, made⟩ := recorded_type_iff trivial trivial rfl rfl
    (fun _ _ => untouched_start) (fun _ _ edit => edit.1.respecified) run stored enabled
    (Stage.goes_pass (plain_asking _ _) stored) writes
  have made := made secondType (by decide) fun _ _ edit => edit.2
  have ht' : (renewed "key2" "ecdsa-p256").world.tenant = some t' := ht'
  rw [ht'] at domain name type ⊢
  obtain rfl := Option.some.inj (adopted.domain.symm.trans domain)
  obtain rfl := Option.some.inj (adopted.name.symm.trans name)
  obtain rfl := Option.some.inj (adopted.type.symm.trans type)
  exact ⟨type, made⟩

/-- The first key is recorded with a type that it was not made with, if it is asked for again with that type. -/
theorem recorded_type_untrue :
    ∃ (w₀ w w' : World) (t₀ t t' : Tenant) (fresh : Fresh) (tr : List (Moment Services World))
      (o : Except Error Action) (d k y : String), w₀.tenant = some t₀ ∧ t₀.status = none ∧ w₀.vault = [] ∧
      Run {} (fun _ => True) Call.Unreachable DeclaresKeys w₀ w ∧ w.tenant = some t ∧
      t.spec.keys.enabled = true ∧
      (reconcile {} fresh t).Goes (conduct (fun _ => True) Call.Unreachable) w tr o w' ∧ WritesDeployed tr ∧
      w'.tenant = some t' ∧ t'.recorded.keys.domain = some d ∧ t'.recorded.keys.keyName = some k ∧
      t'.recorded.keys.keyType = some y ∧ ¬ w'.MadeAs (keyPath d k) y := by
  obtain ⟨stored₁, stored, enabled, writes, stored', domain, name, type, made⟩ :
      (Stage.firstPass wantsKeys []).world.tenant = some (Stage.firstPass wantsKeys []).tenant ∧
        (asking "key1" "ecdsa-p256").world.tenant = some (asking "key1" "ecdsa-p256").tenant ∧
        (asking "key1" "ecdsa-p256").tenant.spec.keys.enabled = true ∧
        WritesDeployed ((asking "key1" "ecdsa-p256").passStory {} ⟨"2", "later"⟩) ∧
        (renewed "key1" "ecdsa-p256").world.tenant = some (renewed "key1" "ecdsa-p256").tenant ∧
        (renewed "key1" "ecdsa-p256").tenant.recorded.keys.domain = some (domainName "1") ∧
        (renewed "key1" "ecdsa-p256").tenant.recorded.keys.keyName = some "key1" ∧
        (renewed "key1" "ecdsa-p256").tenant.recorded.keys.keyType = some "ecdsa-p256" ∧
        (renewed "key1" "ecdsa-p256").world.MadeAs (keyPath (domainName "1") "key1") "rsa-3072" := by
    decide +kernel
  have run : Run {} (fun _ => True) Call.Unreachable DeclaresKeys (Stage.start wantsKeys []).world
      (asking "key1" "ecdsa-p256").world :=
    (Stage.run_firstPass wantsKeys []).trans (Stage.run_edit fun _ => ⟨_, _, rfl⟩)
  exact ⟨_, _, _, _, _, _, _, _, _, _, _, _, rfl, rfl, rfl, run, stored, enabled,
    Stage.goes_pass (plain_asking _ _) stored, writes, stored', domain, name, type, fun h =>
      absurd (made.unique h) (by decide)⟩

end Lifecycle

end Tenancy

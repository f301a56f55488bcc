import Tenancy.Proofs.FailedDomains

/-!
# Domains that are settled

When no call to the engine fails, all that a call for a domain asks is known from what is in the engine at the
start. The mount is looked at, and the parts of the domain are written if it is not there (`domainCalls`); then
the key is looked at, and if it is not there it is made and looked at again (`keyCalls`). `ensureDomain_calm` says
so for whatever is recorded and wanted: these only decide which domain, which key and which type.

That nothing is deleted or overwritten can be read off these calls, and so can that a second call only looks.
-/

namespace Tenancy

open Rehearsal Rehearsal.World

namespace Encryption

variable {kept : BackingSystem → Prop} {w w' : World} {tr : List (Moment Services World)}
  {tenant uuid d path : String}

/-! ## Calls that do not fail -/

/-- No call to the systems that are relied on fails. -/
abbrev calm (kept : BackingSystem → Prop) : Conduct Services World := conduct kept fun _ _ => False

theorem calm_after {α : Type} (w : World) (j : Job α) :
    ∃ tr, j.Goes (calm fun _ => True) w tr (w.after j).1 (w.after j).2 :=
  (goes_after w j).imp fun _ => conduct_of_goes

theorem read_calm (hk : kept .vault) {o : Except Error (Option Json)}
    (h : (read path).Goes (calm kept) w tr o w') :
    tr.map Moment.call = [.vault (.read path)] ∧ o = .ok (w.vault.get? path) ∧ w'.vault = w.vault := by
  obtain ⟨answered, rfl⟩ := Job.goes_call h
  obtain ⟨same, found⟩ := read_found hk answered
  rcases call_cases hk answered with ⟨w₁, _, hr⟩ | ⟨_, failed, _⟩
  · obtain ⟨rfl, _⟩ := Prod.mk.inj hr
    exact ⟨rfl, congrArg Except.ok (found _ rfl), same⟩
  · exact failed.elim

theorem write_calm (hk : kept .vault) {body : Json} {o : Except Error Unit}
    (h : (write path body).Goes (calm kept) w tr o w') :
    tr.map Moment.call = [.vault (.write path body)] ∧ o = .ok () ∧
      w'.vault = w.vault.insert path (World.kept path body) := by
  obtain ⟨answered, rfl⟩ := Job.goes_call h
  rcases write_inserts hk answered with ⟨rfl, stored⟩ | ⟨e, rfl, _⟩
  · exact ⟨rfl, rfl, stored⟩
  · exact (write_fails hk answered).elim

theorem provision_calm (hk : kept .vault) {o : Except Error Unit}
    (h : (provision tenant d).Goes (calm kept) w tr o w') :
    tr.map Moment.call = (steps tenant d).map Step.write ∧ o = .ok () ∧
      w'.vault = keepSteps w.vault (steps tenant d) := by
  cases provision_goes hk h with
  | whole calls _ stored => exact ⟨calls, rfl, stored⟩
  | undone _ _ _ _ _ failed => exact failed.elim

/-- The calls that make sure of a key: it is made if it is not there. -/
def keyCalls (w : World) (path keyType : String) : List Call :=
  .vault (.read path) :: if w.HasPath path then [] else
    [.vault (.write path (Json.ofMembers [("type", .string keyType)])), .vault (.read path)]

theorem hasPath_of_get? {data : Json} (h : w.vault.get? path = some data) : w.HasPath path := by
  rw [HasPath, Dict.contains_eq_isSome, h]
  rfl

theorem not_hasPath_of_get? (h : w.vault.get? path = none) : ¬ w.HasPath path := by
  rw [HasPath, Dict.contains_eq_isSome, h]
  exact Bool.false_ne_true

theorem ensureKey_calm (hk : kept .vault) {keyType : String} {o : Except Error Json}
    (h : (ensureKey path keyType).Goes (calm kept) w tr o w') :
    tr.map Moment.call = keyCalls w path keyType ∧ (∃ data, o = .ok data ∧ w'.vault.get? path = some data) ∧
      (w.HasPath path → w'.vault = w.vault) ∧ ∀ q, q ≠ path → w'.vault.get? q = w.vault.get? q := by
  cases ensureKey_parts h with
  | unread look => cases (read_calm hk look).2.1
  | unmade look making => cases (write_calm hk making).2.1
  | @there _ _ data look =>
    obtain ⟨looked, found, same⟩ := read_calm hk look
    have found : w.vault.get? path = some data := (Except.ok.inj found).symm
    refine ⟨?_, ⟨data, rfl, same ▸ found⟩, fun _ => same, fun q _ => by rw [same]⟩
    rw [looked, keyCalls, if_pos (hasPath_of_get? found)]
  | made look making again outcome =>
    obtain ⟨looked, found, same⟩ := read_calm hk look
    obtain ⟨made, -, stored⟩ := write_calm hk making
    obtain ⟨looked', found', same'⟩ := read_calm hk again
    rw [stored, Dict.get?_insert_self] at found'
    have absent := not_hasPath_of_get? (Except.ok.inj found).symm
    refine ⟨?_, ⟨_, outcome _ found', ?_⟩, fun there => absurd there absent, fun q hq => ?_⟩
    · simp only [List.map_append, looked, made, looked', keyCalls, if_neg absent]
      rfl
    · rw [same', stored, Dict.get?_insert_self]
    · rw [same', stored, Dict.get?_insert_of_ne _ _ hq, same]

theorem recordKey_calm (hk : kept .vault) {keyName keyType : String} {o : Except Error KeyRecord}
    (h : (recordKey d keyName keyType).Goes (calm kept) w tr o w') :
    tr.map Moment.call = keyCalls w (keyPath d keyName) keyType ∧
      (∃ data, o = .ok ⟨some d, some keyName, some keyType, some (publicKeyOf data)⟩ ∧
        w'.vault.get? (keyPath d keyName) = some data) ∧
      (w.HasPath (keyPath d keyName) → w'.vault = w.vault) ∧
      ∀ q, q ≠ keyPath d keyName → w'.vault.get? q = w.vault.get? q := by
  rcases Job.goes_bind h with ⟨e, rfl, making⟩ | ⟨data, w₁, tr₁, tr₂, making, last, rfl⟩
  · obtain ⟨-, ⟨_, ho, _⟩, -⟩ := ensureKey_calm hk making
    cases ho
  · obtain ⟨calls, ⟨data', ho, there⟩, rest⟩ := ensureKey_calm hk making
    obtain ⟨rfl, rfl, rfl⟩ := Job.goes_pure last
    cases ho
    rw [List.append_nil]
    exact ⟨calls, ⟨data, rfl, there⟩, rest⟩

theorem get?_keepSteps {vault : Dict Json} {made : List Step} {q : String} (h : q ∉ made.map Step.path) :
    (keepSteps vault made).get? q = vault.get? q := by
  induction made generalizing vault with
  | nil => rfl
  | cons s made ih =>
    obtain ⟨unlike, h⟩ := not_or.1 (mt List.mem_cons.2 h)
    exact (ih h).trans (Dict.get?_insert_of_ne _ _ unlike)

/-- The calls that make sure of a domain: its parts are made if it is not mounted. -/
def domainCalls (w : World) (tenant d : String) : List Call :=
  .vault (.read (mountPath d)) :: if w.HasPath (mountPath d) then [] else (steps tenant d).map Step.write

/-- What making sure of a key comes to when its domain is mounted and all paths but its own are as at the start. -/
theorem key_calm (hk : kept .vault) {w₁ : World} {k type : String} {o : Except Error KeyRecord}
    (mounted : w₁.HasPath (mountPath d)) (rest : ∀ q, q ∉ domainPaths d → w₁.vault.get? q = w.vault.get? q)
    (h : (recordKey d k type).Goes (calm kept) w₁ tr o w') :
    tr.map Moment.call = keyCalls w (keyPath d k) type ∧
      (∃ data, o = .ok ⟨some d, some k, some type, some (publicKeyOf data)⟩ ∧
        w'.vault.get? (keyPath d k) = some data) ∧
      w'.HasPath (mountPath d) ∧ (w.HasPath (keyPath d k) → w'.vault = w₁.vault) ∧
      ∀ q, q ∉ domainPaths d → w.HasPath q → w'.vault.get? q = w.vault.get? q := by
  have own : keyPath d k ∉ domainPaths d := keyPath_not_mem_own d k
  have there : w₁.HasPath (keyPath d k) ↔ w.HasPath (keyPath d k) := hasPath_congr_at (rest _ own)
  obtain ⟨calls, made, settled, others⟩ := recordKey_calm hk h
  refine ⟨?_, made, ?_, fun hp => settled (there.2 hp), fun q hq there' => ?_⟩
  · rw [calls, keyCalls, keyCalls]
    simp only [there]
  · have unlike : mountPath d ≠ keyPath d k := fun same => own (same ▸ mountPath_mem d)
    exact (hasPath_congr_at (others _ unlike)).2 mounted
  · by_cases same : q = keyPath d k
    · subst same
      rw [settled (there.2 there'), rest _ own]
    · rw [others q same, rest q hq]

/-- What a call for a domain comes to when no call to the engine fails. -/
theorem ensureDomain_calm (hk : kept .vault) {desired : KeySettings} {recorded : KeyRecord} {rotate : Bool}
    {o : Except Error KeyRecord} (domain : recorded.domain.getD (domainName uuid) = d)
    {k type : String} (name : keep (rotate || recorded.keyName.isNone) recorded.keyName desired.keyName = k)
    (typed : keep (rotate || recorded.keyName.isNone) recorded.keyType desired.keyType = type)
    (h : (ensureDomain tenant uuid desired recorded rotate).Goes (calm kept) w tr o w') :
    tr.map Moment.call = domainCalls w tenant d ++ keyCalls w (keyPath d k) type ∧
      (∃ data, o = .ok ⟨some d, some k, some type, some (publicKeyOf data)⟩ ∧
        w'.vault.get? (keyPath d k) = some data) ∧
      w'.HasPath (mountPath d) ∧
      (w.HasPath (mountPath d) → w.HasPath (keyPath d k) → w'.vault = w.vault) ∧
      ∀ q, q ∉ domainPaths d → w.HasPath q → w'.vault.get? q = w.vault.get? q := by
  have goes := ensureDomain_goes domain h
  rw [name, typed] at goes
  cases goes with
  | unread look => cases (read_calm hk look).2.1
  | unmade look making => cases (provision_calm hk making).2.1
  | mounted look key =>
    obtain ⟨looked, found, same⟩ := read_calm hk look
    have mounted := hasPath_of_get? (Except.ok.inj found).symm
    obtain ⟨calls, made, still, settled, keys⟩ :=
      key_calm (w := w) hk ((hasPath_congr same).2 mounted) (fun q _ => by rw [same]) key
    refine ⟨?_, made, still, fun _ there => (settled there).trans same, keys⟩
    rw [List.map_append, looked, calls, domainCalls, if_pos mounted]
  | @made w₁ w₂ _ _ _ _ _ look making key =>
    obtain ⟨looked, found, same⟩ := read_calm hk look
    have unmounted := not_hasPath_of_get? (Except.ok.inj found).symm
    obtain ⟨wrote, -, stored⟩ := provision_calm hk making
    have mounted : w₂.HasPath (mountPath d) := by
      rw [HasPath, stored]
      exact contains_keepSteps.2 (.inl (mountPath_mem d))
    have untouched (q : String) (hq : q ∉ domainPaths d) : w₂.vault.get? q = w.vault.get? q := by
      rw [stored, get?_keepSteps hq, same]
    obtain ⟨calls, made, still, -, keys⟩ := key_calm hk mounted untouched key
    refine ⟨?_, made, still, fun there => absurd there unmounted, keys⟩
    rw [List.map_append, List.map_append, looked, wrote, calls, domainCalls, if_neg unmounted]
    rfl

/-- What a call for a domain asks: looks, writes of the domain if that is not mounted, and one of the key if that is
not there. -/
theorem calls_cases {k type : String} {c : Call}
    (h : c ∈ domainCalls w tenant d ++ keyCalls w (keyPath d k) type) :
    (∃ p, c = .vault (.read p)) ∨
      ∃ p body, c = .vault (.write p body) ∧
        ((p ∈ domainPaths d ∧ ¬ w.HasPath (mountPath d)) ∨ (p = keyPath d k ∧ ¬ w.HasPath p)) := by
  rcases List.mem_append.1 h with h | h
  · rcases List.mem_cons.1 h with rfl | h
    · exact .inl ⟨_, rfl⟩
    · split at h
      · cases h
      · next unmounted =>
        obtain ⟨s, hs, rfl⟩ := List.mem_map.1 h
        exact .inr ⟨_, _, rfl, .inl ⟨steps_mem hs, unmounted⟩⟩
  · rcases List.mem_cons.1 h with rfl | h
    · exact .inl ⟨_, rfl⟩
    · split at h
      · cases h
      · next absent =>
        rcases List.mem_cons.1 h with rfl | h
        · exact .inr ⟨_, _, rfl, .inr ⟨rfl, absent⟩⟩
        · exact .inl ⟨_, List.mem_singleton.1 h⟩

/-- If no call to the engine fails, a call for a domain settles it. It deletes nothing; it writes the paths of the
domain only if that is not mounted, and its key only if that is not there; and what is at the path of a key stays.
Called again with what it recorded, and without a new key being asked for, it looks at the mount and the key and
records the same, whatever is wanted by then. -/
theorem ensureDomain_settles (hk : kept .vault) {desired : KeySettings} {recorded : KeyRecord} {rotate : Bool}
    {o : Except Error KeyRecord}
    (h : (ensureDomain tenant uuid desired recorded rotate).Goes (calm kept) w tr o w') :
    ∃ (keys : KeyRecord) (d k : String), o = .ok keys ∧ keys.domain = some d ∧ keys.keyName = some k ∧
      (∀ p, .vault (.delete p) ∉ tr.map Moment.call) ∧
      (∀ p body, .vault (.write p body) ∈ tr.map Moment.call →
        (p ∈ domainPaths d ∧ ¬ w.HasPath (mountPath d)) ∨ (p = keyPath d k ∧ ¬ w.HasPath p)) ∧
      (∀ q, KeyOf d q → q ∉ domainPaths d) ∧
      (∀ q, q ∉ domainPaths d → w.HasPath q →
        (∀ body, .vault (.write q body) ∉ tr.map Moment.call) ∧ w'.vault.get? q = w.vault.get? q) ∧
      ∀ {tenant' uuid' : String} {desired' : KeySettings} {w₁ w₂ : World} {tr' : List (Moment Services World)}
        {o' : Except Error KeyRecord}, w₁.vault = w'.vault →
        (ensureDomain tenant' uuid' desired' keys false).Goes (calm kept) w₁ tr' o' w₂ →
        o' = .ok keys ∧ w₂.vault = w₁.vault ∧
          tr'.map Moment.call = [.vault (.read (mountPath d)), .vault (.read (keyPath d k))] := by
  obtain ⟨d, domain⟩ : ∃ d, recorded.domain.getD (domainName uuid) = d := ⟨_, rfl⟩
  obtain ⟨k, name⟩ : ∃ k, keep (rotate || recorded.keyName.isNone) recorded.keyName desired.keyName = k := ⟨_, rfl⟩
  obtain ⟨calls, ⟨data, rfl, there⟩, mounted, -, keys⟩ := ensureDomain_calm hk domain name rfl h
  have writes (p : String) (body : Json) (wrote : .vault (.write p body) ∈ tr.map Moment.call) :
      (p ∈ domainPaths d ∧ ¬ w.HasPath (mountPath d)) ∨ (p = keyPath d k ∧ ¬ w.HasPath p) := by
    rcases calls_cases (calls ▸ wrote) with ⟨_, look⟩ | ⟨p', _, same, allowed⟩
    · cases look
    · cases same
      exact allowed
  refine ⟨_, d, k, rfl, rfl, rfl, fun p deletes => ?_, writes, fun _ => KeyOf.not_mem,
    fun q hq there => ⟨fun body wrote => ?_, keys q hq there⟩, ?_⟩
  · rcases calls_cases (calls ▸ deletes) with ⟨_, look⟩ | ⟨_, _, write, _⟩
    · cases look
    · cases write
  · rcases writes q body wrote with ⟨hp, _⟩ | ⟨_, absent⟩
    · exact hq hp
    · exact absent there
  · intro tenant' uuid' desired' w₁ w₂ tr' o' same h'
    obtain ⟨calls', ⟨data', rfl, there'⟩, -, settled, -⟩ := ensureDomain_calm hk rfl rfl rfl h'
    have mounted₁ : w₁.HasPath (mountPath d) := (hasPath_congr same).2 mounted
    have there₁ : w₁.HasPath (keyPath d k) := (hasPath_congr same).2 (hasPath_of_get? there)
    have still : w₂.vault = w₁.vault := settled mounted₁ there₁
    have found : w₂.vault.get? (keyPath d k) = some data' := there'
    rw [still, same, there] at found
    obtain rfl := Option.some.inj found
    refine ⟨rfl, still, calls'.trans ?_⟩
    show domainCalls w₁ tenant' d ++ keyCalls w₁ (keyPath d k) _ = _
    rw [domainCalls, keyCalls, if_pos mounted₁, if_pos there₁]
    rfl

/-- A domain is made for a tenant, and when a key of another name and type is wanted by then, the one that it has is
kept. -/
theorem ensureDomain_settles_first : ∃ (keys : KeyRecord) (w : World),
    World.after {} firstCall = (.ok keys, w) ∧
      (w.after (ensureDomain "blue" "u" { keyName := "key2", keyType := "aes256-gcm96" } keys false)).1 =
        .ok keys := by
  obtain ⟨tr, goes⟩ := calm_after {} firstCall
  obtain ⟨keys, d, k, made, -, -, -, -, -, -, again⟩ := ensureDomain_settles trivial goes
  obtain ⟨tr', goes'⟩ := calm_after (World.after {} firstCall).2
    (ensureDomain "blue" "u" { keyName := "key2", keyType := "aes256-gcm96" } keys false)
  exact ⟨keys, _, Prod.ext made rfl, (again rfl goes').1⟩

end Encryption

end Tenancy

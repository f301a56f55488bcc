import Tenancy.Proofs.Footprints
import Tenancy.Proofs.Systems

/-!
# Domains in the engine that keeps keys

The engine that keeps keys is relied on here. A domain is three paths in it, and a key of a domain is
one more; no path of a key is one of a domain (`keyPath_not_mem`). The first part says what one call
leaves at the paths, and the second what the jobs about domains come to when they succeed.
-/

namespace Tenancy

open Rehearsal Rehearsal.World

namespace Rehearsal.World

variable {kept : BackingSystem → Prop} {fails : Call → Error → Prop} {w w' : World} {path : String}

/-- There is something at a path of the engine that keeps keys. -/
def HasPath (w : World) (path : String) : Prop := w.vault.contains path = true

instance (w : World) (path : String) : Decidable (w.HasPath path) :=
  inferInstanceAs (Decidable (_ = true))

theorem hasPath_congr (h : w'.vault = w.vault) : w'.HasPath path ↔ w.HasPath path := by
  rw [HasPath, h, HasPath]

/-! ## Single calls -/

/-- What is found is what is there. -/
theorem read_found (hk : kept .vault) {r : Except Error (Option Json)}
    (h : conduct kept fails (.vault (.read path)) w r w') :
    w'.vault = w.vault ∧ ∀ found, r = .ok found → found = w.vault.get? path := by
  rcases call_cases hk h with ⟨w₁, hw₁, hr⟩ | ⟨_, _, rfl, hw'⟩
  · have hw₁ : w₁.vault = w.vault := hw₁
    obtain ⟨rfl, rfl⟩ := Prod.mk.inj hr
    exact ⟨hw₁, fun found hf => by rw [← hw₁, ← Except.ok.inj hf]⟩
  · exact ⟨hw', fun _ hf => by cases hf⟩

/-- A write has its effect, or it fails and has none. -/
theorem write_inserts (hk : kept .vault) {body : Json} {r : Except Error Unit}
    (h : conduct kept fails (.vault (.write path body)) w r w') :
    (r = .ok () ∧ w'.vault = w.vault.insert path (World.kept path body)) ∨
      ∃ e, r = .error e ∧ w'.vault = w.vault := by
  rcases call_cases hk h with ⟨w₁, hw₁, hr⟩ | ⟨e, _, rfl, hw'⟩
  · have hw₁ : w₁.vault = w.vault := hw₁
    obtain ⟨rfl, rfl⟩ := Prod.mk.inj hr
    exact .inl ⟨rfl, by rw [← hw₁]⟩
  · exact .inr ⟨e, rfl, hw'⟩

/-- A write fails only as calls may fail. -/
theorem write_fails (hk : kept .vault) {body : Json} {e : Error}
    (h : conduct kept fails (.vault (.write path body)) w (.error e) w') : fails (.vault (.write path body)) e := by
  rcases call_cases hk h with ⟨w₁, _, hr⟩ | ⟨_, failed, he, _⟩
  · cases (Prod.mk.inj hr).1
  · cases he
    exact failed

/-- A deletion has its effect, or it fails and has none; one that is answered finds nothing only where
there is nothing. -/
theorem delete_erases (hk : kept .vault) {r : Except Error Unit}
    (h : conduct kept fails (.vault (.delete path)) w r w') :
    (r = .ok () ∧ w'.vault = w.vault.erase path) ∨
      ∃ e, r = .error e ∧ w'.vault = w.vault ∧ (fails (.vault (.delete path)) e ∨ ¬ w.HasPath path) := by
  rcases call_cases hk h with ⟨w₁, hw₁, hr⟩ | ⟨e, he, rfl, hw'⟩
  · have hw₁ : w₁.vault = w.vault := hw₁
    have hr : (r, w') = (if w₁.vault.contains path = true then
        effect { w₁ with vault := w₁.vault.erase path }
        else w₁.refuse "vault" 404 "not found" : Answer Unit) := hr
    by_cases hp : w₁.vault.contains path = true
    · rw [if_pos hp] at hr
      obtain ⟨rfl, rfl⟩ := Prod.mk.inj hr
      exact .inl ⟨rfl, by rw [← hw₁]⟩
    · rw [if_neg hp] at hr
      obtain ⟨rfl, rfl⟩ := Prod.mk.inj hr
      exact .inr ⟨_, rfl, hw₁, .inr fun hp' => hp ((hasPath_congr hw₁).2 hp')⟩
  · exact .inr ⟨e, rfl, hw', .inl he⟩

theorem read_path (hk : kept .vault) {r : Except Error (Option Json)}
    (h : conduct kept fails (.vault (.read path)) w r w') :
    w'.vault = w.vault ∧ ∀ found, r = .ok found → (found.isSome = true ↔ w.HasPath path) := by
  obtain ⟨same, there⟩ := read_found hk h
  refine ⟨same, fun found hf => ?_⟩
  rw [HasPath, Dict.contains_eq_isSome, there found hf]

theorem write_path (hk : kept .vault) {body : Json} {r : Except Error Unit}
    (h : conduct kept fails (.vault (.write path body)) w r w') :
    (r = .ok () ∧ ∀ p, w'.HasPath p ↔ p = path ∨ w.HasPath p) ∨
      ∃ e, r = .error e ∧ w'.vault = w.vault := by
  refine (write_inserts hk h).imp_left fun ⟨ho, insert⟩ => ⟨ho, fun p => ?_⟩
  rw [HasPath, insert]
  exact Dict.contains_insert _ _ _

theorem delete_path (hk : kept .vault) {r : Except Error Unit}
    (h : conduct kept fails (.vault (.delete path)) w r w') :
    (r = .ok () ∧ ∀ p, w'.HasPath p ↔ p ≠ path ∧ w.HasPath p) ∨
      ∃ e, r = .error e ∧ w'.vault = w.vault ∧ (fails (.vault (.delete path)) e ∨ ¬ w.HasPath path) := by
  refine (delete_erases hk h).imp_left fun ⟨ho, erase⟩ => ⟨ho, fun p => ?_⟩
  rw [HasPath, erase]
  exact Dict.contains_erase _ _

theorem readPath_cases (hk : kept .vault) {r : Except Error (Option Json)}
    (h : conduct kept fails (.vault (.read path)) w r w') : w'.vault = w.vault := (read_path hk h).1

theorem writePath_cases (hk : kept .vault) {body : Json} {r : Except Error Unit}
    (h : conduct kept fails (.vault (.write path body)) w r w') {p : String}
    (hp : w'.HasPath p) : p = path ∨ w.HasPath p := by
  rcases write_path hk h with ⟨_, hw'⟩ | ⟨_, _, hw'⟩
  · exact (hw' p).1 hp
  · exact .inr ((hasPath_congr hw').1 hp)

/-- A deletion takes nothing else away, and it says that the path is gone only if it is. -/
theorem deletePath_cases (hk : kept .vault) {r : Except Error Unit}
    (h : conduct kept Call.FailsPlainly (.vault (.delete path)) w r w') :
    (∀ p, w'.HasPath p → w.HasPath p) ∧
      ((r = .ok () ∧ ¬ w'.HasPath path) ∨
        ∃ e, r = .error e ∧ (e.isNotFound = true → ¬ w'.HasPath path)) := by
  rcases delete_path hk h with ⟨rfl, hw'⟩ | ⟨e, rfl, hw', absent⟩
  · exact ⟨fun p hp => ((hw' p).1 hp).2, .inl ⟨rfl, fun hp => ((hw' path).1 hp).1 rfl⟩⟩
  · refine ⟨fun p hp => (hasPath_congr hw').1 hp, .inr ⟨e, rfl, fun hn => ?_⟩⟩
    rcases absent with plain | absent
    · rw [plain.2 rfl] at hn
      cases hn
    · exact fun hp => absent ((hasPath_congr hw').1 hp)

end Rehearsal.World

namespace Encryption

variable {kept : BackingSystem → Prop} {w w' : World} {tr : List (Moment Services World)}

/-! ## Paths -/

/-- The path belongs to the domain: it is one of the domain itself or of a key in it. -/
def BelongsTo (path domain : String) : Prop :=
  path ∈ domainPaths domain ∨ ∃ k, path = keyPath domain k

/-- Nothing of any domain is there but, perhaps, keys. -/
def NoDomain (w : World) : Prop := ∀ d, ∀ path ∈ domainPaths d, ¬ w.HasPath path

theorem head?_append {a : String} {c : Char} (h : a.toList.head? = some c) (b : String) :
    (a ++ b).toList.head? = some c := by
  rw [String.toList_append, List.head?_append, h]
  rfl

/-- The path of a key is not one of a domain. -/
theorem keyPath_not_mem (d u k : String) : keyPath (domainName u) k ∉ domainPaths d := by
  -- the first letters tell the paths apart
  have key : (keyPath (domainName u) k).toList.head? = some 'c' :=
    head?_append (head?_append (head?_append (by decide +kernel) _) _) _
  have mount : (mountPath d).toList.head? = some 's' := head?_append (by decide +kernel) _
  have policy : (policyPath d).toList.head? = some 's' := head?_append (by decide +kernel) _
  have role : (rolePath d).toList.head? = some 'a' := head?_append (by decide +kernel) _
  intro hmem
  simp only [domainPaths, List.mem_cons, List.not_mem_nil, or_false] at hmem
  rcases hmem with h | h | h
  · rw [h, mount] at key
    cases key
  · rw [h, policy] at key
    cases key
  · rw [h, role] at key
    cases key

theorem mem_domainPaths_of_belongsTo {path d u : String} (hp : path ∈ domainPaths d)
    (h : BelongsTo path (domainName u)) : path ∈ domainPaths (domainName u) := by
  rcases h with h | ⟨k, rfl⟩
  · exact h
  · exact absurd hp (keyPath_not_mem d u k)

/-- Domains whose names are equally long have no key path in common. -/
theorem keyPath_inj {d d' k k' : String} (h : keyPath d k = keyPath d' k')
    (len : d.toList.length = d'.toList.length) : d = d' := by
  have chars : d.toList ++ ("/keys/".toList ++ k.toList) = d'.toList ++ ("/keys/".toList ++ k'.toList) := by
    simpa [keyPath] using congrArg String.toList h
  exact String.toList_inj.1 (List.append_inj_left chars len)

/-! ## Jobs -/

/-- The record of a domain that was made sure of: the domain is the recorded one if there is one, and
the key is the recorded one unless there is none or a new one is asked for. -/
def Ensured (uuid : String) (desired : KeySettings) (recorded : KeyRecord) (rotate : Bool)
    (keys : KeyRecord) : Prop :=
  keys.domain = some (recorded.domain.getD (domainName uuid)) ∧
    keys.keyName = some (keep (rotate || recorded.keyName.isNone) recorded.keyName desired.keyName) ∧
    keys.keyType = some (keep (rotate || recorded.keyName.isNone) recorded.keyType desired.keyType)

theorem ensureDomain_made {σ : Type} {R : Conduct Services σ} {s s' : σ} {tr : List (Moment Services σ)}
    {tenant uuid : String} {desired : KeySettings} {recorded keys : KeyRecord} {rotate : Bool}
    (h : (ensureDomain tenant uuid desired recorded rotate).Goes R s tr (.ok keys) s') :
    ∃ data, keys = {
      domain := some (recorded.domain.getD (domainName uuid))
      keyName := some (keep (rotate || recorded.keyName.isNone) recorded.keyName desired.keyName)
      keyType := some (keep (rotate || recorded.keyName.isNone) recorded.keyType desired.keyType)
      publicKey := some (publicKeyOf data) } := by
  obtain ⟨found, s₁, tr₁, _, _, hrest, _⟩ := Job.goes_bind_ok h
  have last {keyName keyType : String} {s s' : σ} {tr : List (Moment Services σ)}
      (h : Job.Goes R (do
        let data ← ensureKey (keyPath (recorded.domain.getD (domainName uuid)) keyName) keyType
        return { domain := some (recorded.domain.getD (domainName uuid)), keyName := some keyName,
                 keyType := some keyType, publicKey := some (publicKeyOf data) : KeyRecord })
        s tr (.ok keys) s') :
      ∃ data, keys = { domain := some (recorded.domain.getD (domainName uuid)), keyName := some keyName,
                       keyType := some keyType, publicKey := some (publicKeyOf data) } := by
    obtain ⟨data, _, _, _, _, hend, _⟩ := Job.goes_bind_ok h
    obtain ⟨_, ho, _⟩ := Job.goes_pure hend
    exact ⟨data, Except.ok.inj ho⟩
  dsimp only at hrest
  split at hrest
  · obtain ⟨_, _, _, _, _, hrest, _⟩ := Job.goes_bind_ok hrest
    exact last hrest
  · exact last hrest

theorem ensureDomain_ok {σ : Type} {R : Conduct Services σ} {s s' : σ} {tr : List (Moment Services σ)}
    {tenant uuid : String} {desired : KeySettings} {recorded keys : KeyRecord} {rotate : Bool}
    (h : (ensureDomain tenant uuid desired recorded rotate).Goes R s tr (.ok keys) s') :
    Ensured uuid desired recorded rotate keys := by
  obtain ⟨_, rfl⟩ := ensureDomain_made h
  exact ⟨rfl, rfl, rfl⟩

/-- After the recorded domain was deleted nothing of it is there, and nothing has come. -/
theorem removeDomain_ok (hk : kept .vault) {recorded : KeyRecord} {r : Removal}
    (h : (removeDomain recorded).Goes (conduct kept Call.FailsPlainly) w tr (.ok r) w') :
    (∀ p, w'.HasPath p → w.HasPath p) ∧
      ∀ d ∈ recorded.domain, ∀ path ∈ domainPaths d, ¬ w'.HasPath path := by
  unfold removeDomain at h
  split at h
  · next hd =>
    obtain ⟨_, _, rfl⟩ := Job.goes_pure h
    exact ⟨fun _ => id, fun d hd' => by rw [hd] at hd'; cases hd'⟩
  · next d hd =>
    obtain ⟨found, w₁, tr₁, _, hread, hrest, _⟩ := Job.goes_bind_ok h
    have hw₁ : w₁.vault = w.vault := readPath_cases hk (Job.goes_call hread).1
    obtain ⟨_, w₂, tr₂, _, hloop, hend, _⟩ := Job.goes_bind_ok hrest
    obtain ⟨_, _, rfl⟩ := Job.goes_pure hend
    obtain ⟨less, gone⟩ : (∀ p, w'.HasPath p → w.HasPath p) ∧
        ∀ path ∈ domainPaths d, ¬ w'.HasPath path := by
      refine Job.goes_forM_ok (P := fun done w' =>
        (∀ p, w'.HasPath p → w.HasPath p) ∧ ∀ path ∈ done, ¬ w'.HasPath path) ?_ ?_ hloop
      · rintro path done w₂ _ w₃ hx ⟨less, gone⟩
        obtain ⟨x, hx, ho⟩ := Job.goes_reading hx
        obtain ⟨less', own⟩ := deletePath_cases hk (Job.goes_call hx).1
        have own : ¬ w₃.HasPath path := by
          rcases own with ⟨_, own⟩ | ⟨e, rfl, own⟩
          · exact own
          · rcases Hardware.agreeing_eq_ok ho.symm with he | ⟨e', he', hn⟩
            · cases he
            · cases he'
              exact own hn
        refine ⟨fun p hp => less p (less' p hp), fun p hp => ?_⟩
        rcases List.mem_append.1 hp with hp | hp
        · exact fun hp' => gone p hp (less' p hp')
        · obtain rfl := List.mem_singleton.1 hp
          exact own
      · exact ⟨fun p hp => (hasPath_congr hw₁).1 hp, by simp⟩
    refine ⟨less, fun d' hd' => ?_⟩
    rw [hd] at hd'
    cases hd'
    exact gone

end Encryption

end Tenancy

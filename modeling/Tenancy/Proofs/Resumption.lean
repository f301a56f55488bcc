import Tenancy.Lifecycle.Deploy
import Tenancy.Proofs.Steady

/-!
# Taking up what was not finished

Namespaces and secrets are made one after the other, each unless it is there, and the first one that has to
wait for its namespace ends the work. Wherever such a job fails, the next run of it finds what was made and
goes on after it: without another failure it comes to what the first run would have come to, in the same
world to the letter (`Resumes`). The property is carried from the single steps (`Resumes.of_once`) along
`andThen` to the namespaces of a tenant (`resumes_ensureNamespaces`).

The argument needs that an attempt to make something does not fail with a conflict. That is the word of the
hierarchy that the thing is there, and the job would go on without it (`Honest`).
-/

namespace Tenancy

open Rehearsal Rehearsal.World

namespace Hierarchy

/-- A failure to make something in the hierarchy is not the word that it is there already. -/
def Honest (fails : Call → Error → Prop) : Prop :=
  ∀ c : HierarchyCall, ∀ e, fails (.hierarchy c) e → (Call.hierarchy c).makes → e.isConflict = false

/-- One job after another, unless the first has to wait. -/
def andThen (j j' : Job Readiness) : Job Readiness := do
  match ← j with
  | .pending => pure .pending
  | .ready => j'

/-- Anchors and secrets were added, and no secret that is copied. -/
structure Grown (w w' : World) : Prop where
  anchors : ∀ a ∈ w.anchors, a ∈ w'.anchors
  secrets : ∀ k, (w.secrets.get? k).isSome = true → (w'.secrets.get? k).isSome = true
  sources : ∀ x ∈ copied, w'.secrets.get? (inSpace x.source x.secret) =
    w.secrets.get? (inSpace x.source x.secret)

/-- A job that makes things; `Made` says that they are all there. -/
structure Resumes (fails : Call → Error → Prop) (j : Job Readiness) (Made : World → Prop) : Prop where
  mono : ∀ {w w'}, Grown w w' → Made w → Made w'
  settled : ∀ {w}, Made w → w.after j = (.ok .ready, w)
  still : ∀ {w tr o w'}, Made w → j.Goes (steady fails) w tr o w' → w' = w
  grows : ∀ {w tr o w'}, j.Goes (steady fails) w tr o w' → Grown w w'
  /-- Whatever failed, the next run comes to what this one would have come to. -/
  again : ∀ {w tr o w'}, j.Goes (steady fails) w tr o w' → w'.after j = w.after j
  made : ∀ {w tr w'}, j.Goes (steady fails) w tr (.ok .ready) w' →
    w.after j = (.ok .ready, w') ∧ Made w'

variable {fails : Call → Error → Prop} {j j' : Job Readiness} {Made Made' : World → Prop}
  {w w' w'' : World} {tr : List (Moment Services World)} {o : Except Error Readiness}

theorem Grown.refl (w : World) : Grown w w := ⟨fun _ => id, fun _ => id, fun _ _ => rfl⟩

theorem Grown.trans (h : Grown w w') (h' : Grown w' w'') : Grown w w'' := by
  refine ⟨fun a ha => h'.anchors a (h.anchors a ha), fun k hk => h'.secrets k (h.secrets k hk), ?_⟩
  intro x hx
  rw [h'.sources x hx, h.sources x hx]

/-! ## One job after another -/

theorem goes_andThen {R : Conduct Services World} (h : (andThen j j').Goes R w tr o w') :
    (j.Goes R w tr o w' ∧ o ≠ .ok .ready) ∨
      ∃ w₁ tr₁ tr₂, j.Goes R w tr₁ (.ok .ready) w₁ ∧ j'.Goes R w₁ tr₂ o w' := by
  rcases Job.goes_bind h with ⟨e, rfl, hj⟩ | ⟨r, w₁, tr₁, tr₂, hj, hrest, rfl⟩
  · exact .inl ⟨hj, nofun⟩
  · cases r with
    | pending =>
      obtain ⟨rfl, rfl, rfl⟩ := Job.goes_pure hrest
      rw [List.append_nil]
      exact .inl ⟨hj, nofun⟩
    | ready => exact .inr ⟨w₁, tr₁, tr₂, hj, hrest⟩

theorem after_andThen (h : w.after j = (.ok .ready, w')) : w.after (andThen j j') = w'.after j' :=
  after_bind_ok h

theorem after_andThen_of_ne (h : w.after j = (o, w')) (unready : o ≠ .ok .ready) :
    w.after (andThen j j') = (o, w') := by
  cases o with
  | error e => exact after_bind_error h
  | ok r =>
    cases r with
    | pending => exact after_bind_ok h
    | ready => exact absurd rfl unready

namespace Resumes

theorem andThen (h : Resumes fails j Made) (h' : Resumes fails j' Made') :
    Resumes fails (andThen j j') fun w => Made w ∧ Made' w := by
  constructor
  case mono => exact fun grown made => ⟨h.mono grown made.1, h'.mono grown made.2⟩
  case settled => exact fun made => (after_andThen (h.settled made.1)).trans (h'.settled made.2)
  case still =>
    intro w tr o w' made hg
    rcases goes_andThen hg with ⟨hj, _⟩ | ⟨w₁, tr₁, tr₂, hj, hj'⟩
    · exact h.still made.1 hj
    · obtain rfl := h.still made.1 hj
      exact h'.still made.2 hj'
  case grows =>
    intro w tr o w' hg
    rcases goes_andThen hg with ⟨hj, _⟩ | ⟨w₁, tr₁, tr₂, hj, hj'⟩
    · exact h.grows hj
    · exact (h.grows hj).trans (h'.grows hj')
  case again =>
    intro w tr o w' hg
    rcases goes_andThen hg with ⟨hj, _⟩ | ⟨w₁, tr₁, tr₂, hj, hj'⟩
    · exact after_bind_congr (h.again hj)
    · obtain ⟨done, made⟩ := h.made hj
      have settled := h.settled (h.mono (h'.grows hj') made)
      rw [after_andThen settled, after_andThen done]
      exact h'.again hj'
  case made =>
    intro w tr w' hg
    rcases goes_andThen hg with ⟨_, ho⟩ | ⟨w₁, tr₁, tr₂, hj, hj'⟩
    · exact absurd rfl ho
    · obtain ⟨done, made⟩ := h.made hj
      obtain ⟨done', made'⟩ := h'.made hj'
      exact ⟨(after_andThen done).trans done', h.mono (h'.grows hj') made, made'⟩

theorem congr (h : Resumes fails j Made) (same : ∀ w, Made w ↔ Made' w) : Resumes fails j Made' := by
  obtain rfl : Made = Made' := funext fun w => propext (same w)
  exact h

/-- Nothing is to be made. -/
theorem nothing : Resumes fails (pure .ready) fun _ => True := by
  constructor
  case mono => exact fun _ _ => trivial
  case settled => exact fun _ => rfl
  case still => exact fun _ hg => (Job.goes_pure hg).2.2
  case grows =>
    intro w tr o w' hg
    obtain ⟨_, _, rfl⟩ := Job.goes_pure hg
    exact .refl w'
  case again =>
    intro w tr o w' hg
    obtain ⟨_, _, rfl⟩ := Job.goes_pure hg
    rfl
  case made =>
    intro w tr w' hg
    obtain ⟨_, _, rfl⟩ := Job.goes_pure hg
    exact ⟨rfl, trivial⟩

/-- A single step resumes: it changes nothing, or it makes the one thing that was missing. -/
theorem of_once (mono : ∀ {w w'}, Grown w w' → Made w → Made w')
    (settled : ∀ {w}, Made w → w.after j = (.ok .ready, w))
    (once : ∀ {w tr o w'}, j.Goes (steady fails) w tr o w' →
      (w' = w ∧ (o = .ok .ready → Made w)) ∨
        (¬ Made w ∧ w.after j = (.ok .ready, w') ∧ Made w' ∧ Grown w w')) : Resumes fails j Made := by
  constructor
  case mono => exact mono
  case settled => exact settled
  case still =>
    intro w tr o w' made hg
    rcases once hg with ⟨rfl, _⟩ | ⟨missing, _⟩
    · rfl
    · exact absurd made missing
  case grows =>
    intro w tr o w' hg
    rcases once hg with ⟨rfl, _⟩ | ⟨_, _, _, grown⟩
    · exact .refl w'
    · exact grown
  case again =>
    intro w tr o w' hg
    rcases once hg with ⟨rfl, _⟩ | ⟨_, done, made, _⟩
    · rfl
    · rw [done, settled made]
  case made =>
    intro w tr w' hg
    rcases once hg with ⟨rfl, ready⟩ | ⟨_, done, made, _⟩
    · exact ⟨settled (ready rfl), ready rfl⟩
    · exact ⟨done, made⟩

end Resumes

/-! ## Single steps -/

/-- An attempt to make something in a namespace. -/
theorem goes_make {c : HierarchyCall} (makes : (Call.hierarchy c).makes) (honest : Honest fails)
    {make : Job Unit} {space : String} {made : World}
    (answered : ∀ {o tr w'}, make.Goes (steady fails) w tr o w' → (o, w') = w.after make ∨
      ∃ e, fails (.hierarchy c) e ∧ o = .error e ∧ w' = w)
    (comes : w.after make = if w.hidden.contains space then
      w.refuse "kubernetes" 404 "namespace not found" else effect made)
    (hg : Job.Goes (steady fails) (make.outcome >>= fun x => liftExcept (madeIn x)) w tr o w') :
    (w' = w ∧ o ≠ .ok .ready) ∨ ((.ok .ready, w') =
      w.after (make.outcome >>= fun x => liftExcept (madeIn x)) ∧ w' = made) := by
  obtain ⟨x, hx, rfl⟩ := Job.goes_reading hg
  rcases answered hx with hr | ⟨e, he, rfl, rfl⟩
  · rw [after_reading, ← hr]
    rw [comes] at hr
    by_cases hidden : w.hidden.contains space = true
    · rw [if_pos hidden] at hr
      obtain ⟨rfl, rfl⟩ := Prod.mk.inj hr
      exact .inl ⟨rfl, nofun⟩
    · rw [if_neg hidden] at hr
      obtain ⟨rfl, rfl⟩ := Prod.mk.inj hr
      exact .inr ⟨rfl, rfl⟩
  · refine .inl ⟨rfl, fun ho => ?_⟩
    simp only [madeIn, honest c e he makes, Bool.false_eq_true, if_false] at ho
    split at ho <;> cases ho

theorem resumes_ensureAnchor (honest : Honest fails) (p n : String) :
    Resumes fails (ensureAnchor p n) fun w => inSpace p n ∈ w.anchors := by
  have looked (w : World) : w.after (anchorExists p n) = (.ok (w.anchors.contains (inSpace p n)), w) := rfl
  apply Resumes.of_once
  case mono => exact fun grown made => grown.anchors _ made
  case settled =>
    intro w made
    have found : w.anchors.contains (inSpace p n) = true := by simpa using made
    refine (after_bind_ok (looked w)).trans ?_
    rw [found]
    rfl
  case once =>
    intro w tr o w' hg
    have hafter := after_bind_ok (f := fun found => if found then pure .ready else
      (createAnchor p n).outcome >>= fun x => liftExcept (madeIn x)) (looked w)
    rcases goes_look rfl hg with ⟨rfl, e, rfl⟩ | ⟨tr', hrest⟩
    · exact .inl ⟨rfl, nofun⟩
    by_cases there : inSpace p n ∈ w.anchors
    · rw [show w.anchors.contains (inSpace p n) = true by simpa using there] at hrest
      obtain ⟨_, _, rfl⟩ := Job.goes_pure hrest
      exact .inl ⟨rfl, fun _ => there⟩
    · have absent : w.anchors.contains (inSpace p n) = false := by simpa using there
      rw [absent] at hrest hafter
      have answered {o tr w'} (h : (createAnchor p n).Goes (steady fails) w tr o w') := (Job.goes_call h).1
      rcases goes_make rfl honest answered rfl hrest with ⟨rfl, ho⟩ | ⟨done, rfl⟩
      · exact .inl ⟨rfl, fun h => absurd h ho⟩
      · refine .inr ⟨there, hafter.trans done.symm, Names.mem_insert.2 (.inl rfl), ?_⟩
        exact ⟨fun a ha => Names.mem_insert.2 (.inr ha), fun _ => id, fun _ _ => rfl⟩

/-- The copy of a secret is there, or there is nothing to copy. -/
def IsCopied (qualified : String) (x : Copied) (w : World) : Prop :=
  (w.secrets.get? (inSpace qualified x.secret)).isSome = true ∨
    w.secrets.get? (inSpace x.source x.secret) = none

theorem resumes_copySecret (honest : Honest fails) {q : String} {x : Copied} (hx : x ∈ copied)
    (apart : ∀ y ∈ copied, inSpace y.source y.secret ≠ inSpace q x.secret) :
    Resumes fails (copySecret q x) (IsCopied q x) := by
  have looked (w : World) (space name : String) :
      w.after (getSecret space name) = (.ok (w.secrets.get? (inSpace space name)), w) := rfl
  apply Resumes.of_once
  case mono =>
    rintro w w' grown (made | nothing)
    · exact .inl (grown.secrets _ made)
    · exact .inr ((grown.sources x hx).trans nothing)
  case settled =>
    intro w made
    refine (after_bind_ok (looked w _ _)).trans ?_
    by_cases there : (w.secrets.get? (inSpace q x.secret)).isSome = true
    · rw [if_pos there]
      rfl
    · rw [if_neg there]
      refine (after_bind_ok (looked w _ _)).trans ?_
      rw [made.resolve_left there]
      rfl
  case once =>
    intro w tr o w' hg
    rcases goes_look rfl hg with ⟨rfl, e, rfl⟩ | ⟨tr₁, hrest⟩
    · exact .inl ⟨rfl, nofun⟩
    by_cases there : (w.secrets.get? (inSpace q x.secret)).isSome = true
    · rw [if_pos there] at hrest
      obtain ⟨_, _, rfl⟩ := Job.goes_pure hrest
      exact .inl ⟨rfl, fun _ => .inl there⟩
    rw [if_neg there] at hrest
    rcases goes_look rfl hrest with ⟨rfl, e, rfl⟩ | ⟨tr₂, hrest⟩
    · exact .inl ⟨rfl, nofun⟩
    cases hs : w.secrets.get? (inSpace x.source x.secret) with
    | none =>
      rw [hs] at hrest
      obtain ⟨_, _, rfl⟩ := Job.goes_pure hrest
      exact .inl ⟨rfl, fun _ => .inr hs⟩
    | some source =>
      rw [hs] at hrest
      have answered {o tr w'} (h : (createSecret q (source.copyTo x.secret q)).Goes (steady fails) w tr o w') :=
        (Job.goes_call h).1
      have missing : ¬ IsCopied q x w := by
        rintro (made | nothing)
        · exact there made
        · cases hs.symm.trans nothing
      rcases goes_make rfl honest answered rfl hrest with ⟨rfl, ho⟩ | ⟨done, rfl⟩
      · exact .inl ⟨rfl, fun h => absurd h ho⟩
      · refine .inr ⟨missing, ?_, .inl ?_, ?_⟩
        · refine (after_bind_ok (looked w _ _)).trans ?_
          rw [if_neg there]
          refine (after_bind_ok (looked w _ _)).trans ?_
          rw [hs]
          exact done.symm
        · show ((w.secrets.insert (inSpace q x.secret) _).get? (inSpace q x.secret)).isSome = true
          rw [Dict.get?_insert_self]
          rfl
        · refine ⟨fun _ => id, fun k hk => ?_, fun y hy => Dict.get?_insert_of_ne _ _ (apart y hy)⟩
          show ((w.secrets.insert (inSpace q x.secret) _).get? k).isSome = true
          by_cases hkey : k = inSpace q x.secret
          · rw [hkey, Dict.get?_insert_self]
            rfl
          · rw [Dict.get?_insert_of_ne _ _ hkey]
            exact hk

/-! ## All namespaces of a tenant -/

/-- What is copied does not lie in a child namespace. -/
theorem source_ne_qualify {x : Copied} (hx : x ∈ copied) (tenant child : String) :
    x.source ≠ Tenant.qualify tenant child := by
  obtain rfl := List.mem_singleton.1 hx
  intro h
  have dash : '-' ∈ (Tenant.qualify tenant child).toList := by simp [Tenant.qualify]
  rw [← h] at dash
  revert dash
  decide

theorem source_ne_copy {tenant child : String} {x y : Copied} (hx : x ∈ copied) (hy : y ∈ copied) :
    inSpace y.source y.secret ≠ inSpace (Tenant.qualify tenant child) x.secret := by
  obtain rfl : y = x := (List.mem_singleton.1 hy).trans (List.mem_singleton.1 hx).symm
  intro h
  have hl := congrArg String.toList h
  simp only [inSpace, String.toList_append] at hl
  have hs := List.append_cancel_right (List.append_cancel_right hl)
  exact source_ne_qualify hx tenant child (String.toList_inj.1 hs)

theorem resumes_copySecrets (honest : Honest fails) {q : String} {xs : List Copied}
    (sub : ∀ x ∈ xs, x ∈ copied)
    (apart : ∀ x ∈ copied, ∀ y ∈ copied, inSpace y.source y.secret ≠ inSpace q x.secret) :
    Resumes fails (copySecrets q xs) fun w => ∀ x ∈ xs, IsCopied q x w := by
  induction xs with
  | nil => exact Resumes.nothing.congr fun w => by simp
  | cons x xs ih =>
    have hx := sub x (by simp)
    have first := resumes_copySecret honest hx (apart x hx)
    exact (first.andThen (ih fun y hy => sub y (by simp [hy]))).congr fun w => by simp

theorem resumes_propagateSecrets (honest : Honest fails) (tenant child : String) :
    Resumes fails (propagateSecrets tenant (Tenant.qualify tenant child)) fun w =>
      ∀ x ∈ copied, x.child = child → IsCopied (Tenant.qualify tenant child) x w := by
  unfold propagateSecrets
  rw [Tenant.unqualify?_qualify]
  refine (resumes_copySecrets honest (fun x hx => (List.mem_filter.1 hx).1) ?_).congr fun w => ?_
  · exact fun x hx y hy => source_ne_copy hx hy
  · simp

end Hierarchy

namespace Lifecycle

open Hierarchy

variable {fails : Call → Error → Prop} {settings : Settings} {t : Tenant}

/-- All anchors and copies of secrets of a tenant are there. -/
structure SpacesMade (settings : Settings) (t : Tenant) (w : World) : Prop where
  root : inSpace settings.root t.name ∈ w.anchors
  children : ∀ c ∈ t.spec.children, inSpace t.name (Tenant.qualify t.name (Text.trim c)) ∈ w.anchors
  secrets : ∀ c ∈ t.spec.children, ∀ x ∈ copied, x.child = Text.trim c →
    IsCopied (Tenant.qualify t.name (Text.trim c)) x w

theorem resumes_ensureChildren (honest : Honest fails) (tenant : String) (children : List String) :
    Resumes fails (ensureChildren tenant (children.map fun c => Tenant.qualify tenant (Text.trim c)))
      fun w => ∀ c ∈ children, inSpace tenant (Tenant.qualify tenant (Text.trim c)) ∈ w.anchors ∧
        ∀ x ∈ copied, x.child = Text.trim c → IsCopied (Tenant.qualify tenant (Text.trim c)) x w := by
  induction children with
  | nil => exact Resumes.nothing.congr fun w => by simp
  | cons c children ih =>
    have anchor := resumes_ensureAnchor honest tenant (Tenant.qualify tenant (Text.trim c))
    have secrets := resumes_propagateSecrets honest tenant (Text.trim c)
    exact (anchor.andThen (secrets.andThen ih)).congr fun w => by simp [and_assoc]

/-- Making sure of all namespaces of a tenant can be taken up wherever it failed. -/
theorem resumes_ensureNamespaces (honest : Honest fails) :
    Resumes fails (ensureNamespaces settings t) (SpacesMade settings t) := by
  have root := resumes_ensureAnchor honest settings.root t.name
  refine (root.andThen (resumes_ensureChildren honest t.name t.spec.children)).congr fun w => ?_
  constructor
  · rintro ⟨root, rest⟩
    exact ⟨root, fun c hc => (rest c hc).1, fun c hc => (rest c hc).2⟩
  · rintro ⟨root, children, secrets⟩
    exact ⟨root, fun c hc => ⟨children c hc, secrets c hc⟩⟩

end Lifecycle

end Tenancy

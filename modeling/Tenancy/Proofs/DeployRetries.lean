import Tenancy.Proofs.HardwareRetries
import Tenancy.Proofs.ObservedState
import Tenancy.Proofs.StaleChildren

/-!
# Deploying again

The middle of a deploy pass moves one system after the other, and it can end anywhere. `Underway` says where
repeated attempts can have come to from a given world: either the namespaces are not all made, and nothing
else was touched; or they are, and collections, the administrators' group and the stale children are each on
their way. Every attempt keeps this (`keeps_work`). When no call fails, the way is gone to its end
(`after_applyAll`), and there is only one end (`Ended.same`).

Whether hooks let the pass come to its end depends on what is told to them by its event alone, so all
attempts are answered alike (`alike_dispatch`). Together, all comes to the same from wherever attempts have
come to (`after_work`).
-/

namespace Tenancy

open Rehearsal Rehearsal.World

variable {fails : Call → Error → Prop} {w w' : World} {tr : List (Moment Services World)}

/-! ## The administrators' group -/

namespace Identity

/-- The groups of the provider, with that of the administrators added unless there is one of its name. -/
def withAdmin (tenant : String) (gs : List IdentityGroup) : List IdentityGroup :=
  if (gs.find? fun g => g.name = IdentityGroup.adminName tenant).isSome then gs
  else gs ++ [{ IdentityGroup.admin tenant with id := some ("id-" ++ IdentityGroup.adminName tenant) }]

theorem withAdmin_again (tenant : String) (gs : List IdentityGroup) :
    withAdmin tenant (withAdmin tenant gs) = withAdmin tenant gs := by
  refine if_pos ?_
  unfold withAdmin
  split
  · assumption
  · simp [IdentityGroup.admin]

theorem admin_of_goes {tenant : String} {o : Except Error Unit}
    (h : (ensureAdmin tenant).Goes (steady fails) w tr o w') :
    w' = w ∨ w' = { w with identity := withAdmin tenant w.identity } := by
  rcases goes_look rfl h with ⟨rfl, _⟩ | ⟨tr', hrest⟩
  · exact .inl rfl
  by_cases there : (w.identity.find? fun g => g.name = IdentityGroup.adminName tenant).isSome = true
  · rw [if_pos there] at hrest
    exact .inl (Job.goes_pure hrest).2.2
  · rw [if_neg there] at hrest
    obtain ⟨x, hx, _⟩ := Job.goes_reading hrest
    rcases (Job.goes_call hx).1 with hr | ⟨_, _, _, rfl⟩
    · refine .inr ((Prod.mk.inj hr).2.trans ?_)
      rw [withAdmin, if_neg there]
      rfl
    · exact .inl rfl

theorem after_ensureAdmin (w : World) (tenant : String) :
    w.after (ensureAdmin tenant) = (.ok (), { w with identity := withAdmin tenant w.identity }) := by
  have seen : w.after (findGroup (IdentityGroup.adminName tenant)) =
      (.ok (w.identity.find? fun g => g.name = IdentityGroup.adminName tenant), w) := rfl
  refine (after_bind_ok seen).trans ?_
  unfold withAdmin
  by_cases there : (w.identity.find? fun g => g.name = IdentityGroup.adminName tenant).isSome = true
  · rw [if_pos there, if_pos there]
    rfl
  · rw [if_neg there, if_neg there]
    exact after_reading _ _

end Identity

/-! ## Hooks -/

namespace Dispatch

/-- Two jobs change nothing and come to the same in two worlds. -/
def Alike {α : Type} (w w' : World) (j j' : Job α) : Prop :=
  ∃ r, w.after j = (r, w) ∧ w'.after j' = (r, w')

variable {α β : Type} {j j' : Job α}

theorem alike_pure (a : α) : Alike w w' (pure a) (pure a) := ⟨.ok a, rfl, rfl⟩

theorem alike_throw (e : Error) : Alike w w' (throw e : Job α) (throw e) := ⟨.error e, rfl, rfl⟩

theorem alike_liftExcept (x : Except Error α) : Alike w w' (liftExcept x) (liftExcept x) :=
  ⟨x, after_liftExcept x, after_liftExcept x⟩

theorem Alike.bind {f f' : α → Job β} (h : Alike w w' j j') (hf : ∀ a, Alike w w' (f a) (f' a)) :
    Alike w w' (j >>= f) (j' >>= f') := by
  obtain ⟨e | a, h, h'⟩ := h
  · exact ⟨.error e, after_bind_error h, after_bind_error h'⟩
  · obtain ⟨r, hr, hr'⟩ := hf a
    exact ⟨r, (after_bind_ok h).trans hr, (after_bind_ok h').trans hr'⟩

theorem Alike.outcome (h : Alike w w' j j') : Alike w w' j.outcome j'.outcome := by
  obtain ⟨r, h, h'⟩ := h
  refine ⟨.ok r, ?_, ?_⟩
  · rw [after_outcome, h]
  · rw [after_outcome, h']

variable {spec spec' : Spec}

theorem alike_tell (same : SameHooks w w') (n n' : Notice) (h : Hook) :
    Alike w w' (tell n h) (tell n' h) := by
  have credentials : Alike w w' (credentialsFor h) (credentialsFor h) := by
    unfold credentialsFor
    split
    · exact alike_pure _
    · next ref _ =>
      have read : Alike w w' (readSecret ref.space ref.name) (readSecret ref.space ref.name) :=
        ⟨.ok (w.hookSecrets.get? (inSpace ref.space ref.name)), rfl, by rw [← same.secrets]; rfl⟩
      refine read.bind fun data => ?_
      cases data with
      | none => exact alike_throw _
      | some data =>
        dsimp only
        split
        · exact alike_pure _
        · exact alike_throw _
  refine credentials.bind fun c => ?_
  have posted : Alike w w' (post h.url n h.blocking c) (post h.url n' h.blocking c) :=
    ⟨.ok ((w.hookStatus.get? h.url).getD 200), rfl, by rw [← same.status]; rfl⟩
  exact posted.bind fun status => alike_liftExcept _

theorem alike_tellAll (same : SameHooks w w') {n n' : Notice} (event : n'.event = n.event)
    (hooks : List Hook) :
    Alike w w' (tellAll n hooks) (tellAll n' hooks) := by
  induction hooks with
  | nil => exact alike_pure ()
  | cons h rest ih =>
    unfold tellAll
    rw [event]
    dsimp only
    split
    · exact (alike_tell same n n' h).outcome.bind fun x => (alike_liftExcept _).bind fun _ => ih
    · exact ih

/-- What comes of telling hooks about an event depends on what is known about hooks only, and not on what
else they are told. -/
theorem alike_dispatch (same : SameHooks w w') (hooks : spec'.hooks = spec.hooks) (event : Event) :
    Alike w w' (dispatch spec event) (dispatch spec' event) := by
  have told (hooks : List Hook) : Alike w w' (tellAll ⟨spec, event⟩ hooks) (tellAll ⟨spec', event⟩ hooks) := by
    apply alike_tellAll same
    rfl
  unfold dispatch
  rw [hooks]
  refine (told spec.hooks).bind fun _ => ?_
  have listed : Alike w w' listGlobal listGlobal := ⟨.ok w.globals, rfl, by rw [← same.globals]; rfl⟩
  refine listed.outcome.bind fun x => ?_
  cases x with
  | ok hooks => exact told hooks
  | error e => exact alike_pure ()

/-- Telling hooks changes nothing. -/
theorem world_of_dispatch {event : Event} {o : Except Error Unit}
    (h : (dispatch spec event).Goes (steady fails) w tr o w') : w' = w := by
  have asks : (dispatch spec event).Asks fun c => ∃ q, c = .hook q := asks_dispatch fun q _ => ⟨q, rfl⟩
  refine Dialogue.Goes.kept (P := fun w' => w' = w) h asks ?_ rfl
  rintro _ w₁ r w₂ ⟨q, rfl⟩ hr rfl
  rcases hr with hr | ⟨_, _, _, rfl⟩
  · cases q <;> exact (Prod.mk.inj hr).2
  · rfl

end Dispatch

namespace Lifecycle

open Hierarchy

variable {settings : Settings} {t t' : Tenant} {b₀ b₁ b b' : World} {tell tell' : Job Unit}

/-! ## The work of a deploy pass -/

/-- Two tenants call for the same work: the same is declared, and the same was applied. -/
structure SameWork (t t' : Tenant) : Prop where
  spec : t'.spec = { t.spec with requiresKeyUpdate := t'.spec.requiresKeyUpdate }
  applied : t.recorded.SameApplied t'.recorded

/-- Move everything but the namespaces of a tenant without keys to what it declares, and tell hooks. -/
def applyAll (t : Tenant) (tell : Job Unit) : Job Unit := do
  Hardware.converge t.name .partition t.spec.resources t.recorded.resources
  Hardware.converge t.name .group t.spec.resources t.recorded.resources
  Identity.ensureAdmin t.name
  (staleChildren t).forM fun c => discard (Hierarchy.deleteChild t.name c)
  tell

/-- All that a pass over a tenant without keys does to other systems than the store. -/
def work (settings : Settings) (t : Tenant) (tell : Job Unit) : Job Readiness :=
  andThen (ensureNamespaces settings t) do
    applyAll t tell
    return .ready

/-- What a deploy pass records of the keys if it comes to its end. -/
def keysWhen (recorded : Status) : Readiness → Option KeyRecord
  | .pending => none
  | .ready => some recorded.keys

def announce (t : Tenant) : Job Unit :=
  Dispatch.dispatch t.spec (if t.recorded.lastDeployed.isNone then .create else .update)

theorem SameWork.desiredChildren (same : SameWork t t') : t'.desiredChildren = t.desiredChildren := by
  unfold Tenant.desiredChildren Tenant.name
  rw [same.spec]

theorem ensureNamespaces_congr (same : SameWork t t') :
    ensureNamespaces settings t' = ensureNamespaces settings t := by
  unfold ensureNamespaces Tenant.desiredChildren Tenant.name
  rw [same.spec]

theorem applyAll_congr (same : SameWork t t') : applyAll t' tell = applyAll t tell := by
  unfold applyAll staleChildren Tenant.desiredChildren Tenant.name
  rw [same.spec, same.applied.children, same.applied.resources]

theorem work_congr (same : SameWork t t') : work settings t' tell = work settings t tell := by
  unfold work
  rw [ensureNamespaces_congr same, applyAll_congr same]

/-- The middle of a deploy pass over a tenant without keys. -/
theorem prepare_eq (disabled : t.spec.keys.enabled = false) (fresh : Fresh) (recorded : Status)
    (last : recorded.lastDeployed = t.recorded.lastDeployed) :
    prepare settings fresh t recorded = keysWhen recorded <$> work settings t (announce t) := by
  unfold prepare work andThen
  rw [map_bind]
  refine congrArg _ (funext fun r => ?_)
  cases r with
  | pending => rfl
  | ready =>
    simp only [applyOthers, applyAll, announce, ensureKeys, disabled, last, Bool.false_eq_true, if_false,
      bind_assoc, pure_bind, map_bind, map_pure, keysWhen]

/-- The work makes no call to the store. -/
theorem asks_work : (work settings t (announce t)).Asks fun c => c.system ≠ .store := by
  refine Job.asks_bind (asks_ensureNamespaces fun _ _ => nofun) fun r => ?_
  cases r with
  | pending => exact Job.asks_pure
  | ready =>
    refine Job.asks_bind ?_ fun _ => Job.asks_pure
    refine Job.asks_bind (Hardware.asks_converge fun _ _ => nofun) fun _ => ?_
    refine Job.asks_bind (Hardware.asks_converge fun _ _ => nofun) fun _ => ?_
    refine Job.asks_bind (Identity.asks_ensureAdmin fun _ _ => nofun) fun _ => ?_
    refine Job.asks_bind (Job.asks_forM fun c _ => ?_) fun _ => Dispatch.asks_dispatch fun _ => nofun
    exact Job.asks_discard (Hierarchy.asks_removeAnchor nofun)

theorem alike_announce (same : SameWork t t') (hooks : Dispatch.SameHooks b b') :
    Dispatch.Alike b b' (announce t) (announce t') := by
  unfold announce
  rw [same.applied.lastDeployed]
  exact Dispatch.alike_dispatch hooks (by rw [same.spec]) _

/-! ## On the way -/

/-- Collections, the administrators' group and the stale children of a tenant are on their way, from a world
in which its namespaces are made. -/
structure Beyond (t : Tenant) (b₁ b : World) : Prop where
  anchors : Pruned t.name (staleChildren t) b₁.anchors b.anchors
  hardware : ∀ k n, Hardware.Attempted t.name k t.spec.resources t.recorded.resources n b₁ b
  identity : b.identity = b₁.identity ∨ b.identity = Identity.withAdmin t.name b₁.identity
  others : b = { b₁ with anchors := b.anchors, collections := b.collections, identity := b.identity }

/-- Where attempts to deploy a tenant can have come to from a world: what is left to do for its namespaces
comes to the same as it did there, or that is done and the rest is on its way. -/
inductive Underway (settings : Settings) (t : Tenant) (b₀ b : World) : Prop
  | preparing (same : b.after (ensureNamespaces settings t) = b₀.after (ensureNamespaces settings t))
  | applying {b₁ : World} (ready : b₀.after (ensureNamespaces settings t) = (.ok .ready, b₁))
      (made : SpacesMade settings t b₁) (beyond : Beyond t b₁ b)

theorem Beyond.refl (t : Tenant) (b : World) : Beyond t b b :=
  ⟨.refl _ _ _, fun k n => .refl _ k _ _ n b, .inl rfl, rfl⟩

theorem Beyond.made (h : Beyond t b₁ b) (made : SpacesMade settings t b₁)
    (plain : ∀ s ∈ staleChildren t, '/' ∉ s.toList) : SpacesMade settings t b :=
  made.pruned plain h.anchors (by rw [h.others])

theorem Underway.refl (settings : Settings) (t : Tenant) (b : World) : Underway settings t b b :=
  .preparing rfl

/-! ### Every attempt stays on the way -/

theorem collections_only (w : World) (c : HardwareCall) :
    (w.hardware c).2 = { w with collections := (w.hardware c).2.collections } := by
  have split {α : Type} {p : Prop} [Decidable p] {x y : Answer α}
      (hx : x.2 = { w with collections := x.2.collections })
      (hy : y.2 = { w with collections := y.2.collections }) :
      (if p then x else y).2 = { w with collections := (if p then x else y).2.collections } := by
    split <;> assumption
  cases c with
  | get k n => rfl
  | create k c => exact split rfl rfl
  | delete k n => exact split rfl rfl
  | add k n m =>
    cases hc : w.collections.get? (collectionKey k n) with
    | none => simp only [hardware, hc]; rfl
    | some c => simp only [hardware, hc]; exact split rfl rfl
  | remove k n m =>
    cases hc : w.collections.get? (collectionKey k n) with
    | none => simp only [hardware, hc]; rfl
    | some c => simp only [hardware, hc]; exact split rfl rfl
  | listGroups => rfl
  | listComponents type role => rfl

theorem world_of_converge {k : Kind} {o : Except Error Unit}
    (hg : (Hardware.converge t.name k t.spec.resources t.recorded.resources).Goes (steady fails) w tr o w') :
    w' = { w with collections := w'.collections } := by
  have asks : (Hardware.converge t.name k t.spec.resources t.recorded.resources).Asks fun c =>
      ∃ q, c = .hardware q := Hardware.asks_converge fun c _ => ⟨c, rfl⟩
  refine Dialogue.Goes.kept (P := fun w' => w' = { w with collections := w'.collections }) hg asks ?_ rfl
  rintro _ w₁ r w₂ ⟨q, rfl⟩ hr only
  rcases hr with hr | ⟨_, _, _, rfl⟩
  · have hw₂ : w₂ = (w₁.hardware q).2 := congrArg Prod.snd hr
    rw [hw₂, collections_only, only]
  · exact only

theorem keeps_converge (k : Kind) : Job.Keeps (steady fails) (Beyond t b₁)
    (Hardware.converge t.name k t.spec.resources t.recorded.resources) := by
  intro w tr o w' hg h
  have moves : (Hardware.converge t.name k t.spec.resources t.recorded.resources).Asks fun c =>
      ∀ q : HardwareCall, c = .hardware q →
        ∃ k, Hardware.Moves t.name k t.spec.resources t.recorded.resources q := by
    refine Hardware.asks_converge fun c hc q he => ?_
    cases he
    exact ⟨k, hc⟩
  have only := world_of_converge hg
  constructor
  case anchors =>
    rw [only]
    exact h.anchors
  case hardware => exact .of_goes moves hg h.hardware
  case identity =>
    rw [only]
    exact h.identity
  case others => rw [only, h.others]

theorem keeps_ensureAdmin :
    Job.Keeps (steady fails) (Beyond t b₁) (Identity.ensureAdmin t.name) := by
  intro w tr o w' hg h
  rcases Identity.admin_of_goes hg with rfl | rfl
  · exact h
  · constructor
    case anchors => exact h.anchors
    case hardware => exact fun k n => (h.hardware k n).congr rfl
    case identity =>
      right
      rcases h.identity with same | same
      · exact congrArg (Identity.withAdmin t.name) same
      · exact (congrArg (Identity.withAdmin t.name) same).trans (Identity.withAdmin_again _ _)
    case others => rw [h.others]

theorem keeps_deleteStale (plain : ∀ s ∈ staleChildren t, '/' ∉ s.toList) :
    Job.Keeps (steady fails) (Beyond t b₁)
      ((staleChildren t).forM fun c => discard (Hierarchy.deleteChild t.name c)) := by
  intro w tr o w' hg h
  obtain ⟨pruned, only⟩ := pruned_of_deleteStale plain h.anchors hg
  constructor
  case anchors => exact pruned
  case hardware => exact fun k n => (h.hardware k n).congr (by rw [only]; rfl)
  case identity =>
    rw [only]
    exact h.identity
  case others => rw [only, h.others]

theorem keeps_applyAll (plain : ∀ s ∈ staleChildren t, '/' ∉ s.toList)
    (still : ∀ {w tr o w'}, tell.Goes (steady fails) w tr o w' → w' = w) :
    Job.Keeps (steady fails) (Beyond t b₁) (applyAll t tell) := by
  refine Job.keeps_bind (keeps_converge .partition) fun _ => ?_
  refine Job.keeps_bind (keeps_converge .group) fun _ => ?_
  refine Job.keeps_bind keeps_ensureAdmin fun _ => ?_
  refine Job.keeps_bind (keeps_deleteStale plain) fun _ => ?_
  intro w tr o w' hg h
  obtain rfl := still hg
  exact h

/-- Wherever an attempt ends, the deployment is under way as before. -/
theorem keeps_work (honest : Honest fails) (plain : ∀ s ∈ staleChildren t, '/' ∉ s.toList)
    (still : ∀ {w tr o w'}, tell.Goes (steady fails) w tr o w' → w' = w) :
    Job.Keeps (steady fails) (Underway settings t b₀) (work settings t tell) := by
  intro b tr o b' hg h
  have resumes : Resumes fails (ensureNamespaces settings t) (SpacesMade settings t) :=
    resumes_ensureNamespaces honest
  have keeps (b₁ : World) : Job.Keeps (steady fails) (Beyond t b₁)
      (applyAll t tell >>= fun _ => pure Readiness.ready) :=
    Job.keeps_bind (keeps_applyAll plain still) fun _ => Job.keeps_pure
  -- an attempt that ends at the namespaces leaves the same to do for them, and one that comes past them goes
  -- on from where they are all made
  cases h with
  | preparing same =>
    rcases goes_andThen hg with ⟨hj, _⟩ | ⟨b₁, tr₁, tr₂, hj, hrest⟩
    · exact .preparing ((resumes.again hj).trans same)
    · obtain ⟨ready, made⟩ := resumes.made hj
      exact .applying (same.symm.trans ready) made (keeps b₁ hrest (.refl t b₁))
  | applying ready made beyond =>
    have settled := beyond.made made plain
    rcases goes_andThen hg with ⟨hj, _⟩ | ⟨b₂, tr₁, tr₂, hj, hrest⟩
    · obtain rfl := resumes.still settled hj
      exact .applying ready made beyond
    · obtain rfl := resumes.still settled hj
      exact .applying ready made (keeps _ hrest beyond)

/-! ## To the end -/

/-- The work is done: what was on its way is where it was to come to. -/
structure Ended (t : Tenant) (b₁ b : World) : Prop where
  beyond : Beyond t b₁ b
  anchors : ∀ a, a ∈ b.anchors ↔ a ∈ b₁.anchors ∧
    ¬ ∃ s ∈ staleChildren t, a = inSpace t.name s ∧ ∀ c ∈ b₁.anchors, isIn s c = false
  converged : ∀ k, Hardware.Converged k t.spec.resources t.recorded.resources b₁ b
  identity : b.identity = Identity.withAdmin t.name b₁.identity

/-- When no call fails, the work is done before hooks are told. -/
theorem after_applyAll (plain : ∀ s ∈ staleChildren t, '/' ∉ s.toList) (h : Beyond t b₁ b)
    (tell : Job Unit) : ∃ b', Ended t b₁ b' ∧ b.after (applyAll t tell) = b'.after tell := by
  obtain ⟨c₁, c₂, partitions, groups, converged⟩ :=
    Hardware.after_converge_both b t.name t.spec.resources t.recorded.resources
  let c₃ : World := { c₂ with identity := Identity.withAdmin t.name c₂.identity }
  have admin : c₂.after (Identity.ensureAdmin t.name) = (.ok (), c₃) := Identity.after_ensureAdmin c₂ t.name
  have h₁ := keeps_after (keeps_converge .partition) partitions h
  have h₂ := keeps_after (keeps_converge .group) groups h₁
  have h₃ := keeps_after keeps_ensureAdmin admin h₂
  obtain ⟨c₄, stale, left⟩ := after_deleteStale plain h₃.anchors
  have h₄ := keeps_after (keeps_deleteStale plain) stale h₃
  obtain ⟨_, hg⟩ := steady_of_after stale
  have only : c₄ = { c₃ with anchors := c₄.anchors } := (pruned_of_deleteStale plain h₃.anchors hg).2
  refine ⟨c₄, ⟨h₄, left, fun k => .of_attempted (h.hardware k) ?converged, ?identity⟩, ?work⟩
  case converged =>
    have same : c₄.collections = c₂.collections := by rw [only]
    exact (converged k).congr (fun _ => rfl) fun n => by rw [collection_congr same]
  case identity =>
    have identity : c₄.identity = Identity.withAdmin t.name c₂.identity := by rw [only]
    rcases h₂.identity with same | same
    · rw [identity, same]
    · rw [identity, same, Identity.withAdmin_again]
  case work =>
    rw [applyAll, after_bind_ok partitions, after_bind_ok groups, after_bind_ok admin, after_bind_ok stale]

theorem Ended.sameHooks (h : Ended t b₁ b) (h' : Ended t b₁ b') : Dispatch.SameHooks b b' := by
  constructor
  all_goals rw [h.beyond.others, h'.beyond.others]

/-- Two worlds do not differ in what the systems of a tenant keep, members of collections taken as sets. -/
structure SameSystems (w w' : World) : Prop where
  anchors : ∀ a, a ∈ w'.anchors ↔ a ∈ w.anchors
  secrets : w'.secrets = w.secrets
  collections : ∀ k n, Hardware.SameCollection k n w w'
  identity : w'.identity = w.identity

theorem SameSystems.refl (w : World) : SameSystems w w :=
  ⟨fun _ => .rfl, rfl, fun _ _ => ⟨rfl, fun _ => .rfl⟩, rfl⟩

/-- However the work came to its end, it is the same end. -/
theorem Ended.same (h : Ended t b₁ b) (h' : Ended t b₁ b') : SameSystems b b' := by
  constructor
  case anchors => exact fun a => (h'.anchors a).trans (h.anchors a).symm
  case secrets => rw [h.beyond.others, h'.beyond.others]
  case collections =>
    intro k n
    exact Hardware.sameCollection_of_converged (h.beyond.hardware k n) (h'.beyond.hardware k n)
      (h.converged k) (h'.converged k)
  case identity => rw [h.identity, h'.identity]

/-- Where the namespaces can be made, they are made wherever attempts have come to, and the rest of the work
is on its way. -/
theorem Underway.ready (h : Underway settings t b₀ b) (plain : ∀ s ∈ staleChildren t, '/' ∉ s.toList)
    (ready : b₀.after (ensureNamespaces settings t) = (.ok .ready, b₁)) :
    ∃ b₂, b.after (ensureNamespaces settings t) = (.ok .ready, b₂) ∧ Beyond t b₁ b₂ := by
  cases h with
  | preparing same => exact ⟨b₁, same.trans ready, .refl t b₁⟩
  | applying ready' made beyond =>
    obtain rfl := (Prod.mk.inj (ready.symm.trans ready')).2
    have resumes : Resumes (fun _ _ => False) (ensureNamespaces settings t) (SpacesMade settings t) :=
      resumes_ensureNamespaces fun _ _ impossible => impossible.elim
    exact ⟨b, resumes.settled (beyond.made made plain), beyond⟩

/-- Wherever attempts have come to, all comes to the same from there as from the beginning when no call
fails. -/
theorem after_work (plain : ∀ s ∈ staleChildren t, '/' ∉ s.toList) (h : Underway settings t b₀ b)
    (tells : ∀ {b b'}, Dispatch.SameHooks b b' → Dispatch.Alike b b' tell tell') :
    (b.after (work settings t tell')).1 = (b₀.after (work settings t tell)).1 ∧
      SameSystems (b₀.after (work settings t tell)).2 (b.after (work settings t tell')).2 := by
  -- both runs go all the way, or both end at the namespaces
  rcases hens : b₀.after (ensureNamespaces settings t) with ⟨o, b₁⟩
  by_cases ready : o = .ok .ready
  · subst ready
    obtain ⟨b₂, hens', beyond⟩ := h.ready plain hens
    obtain ⟨c, ended, hc⟩ := after_applyAll plain (.refl t b₁) tell
    obtain ⟨c', ended', hc'⟩ := after_applyAll plain beyond tell'
    obtain ⟨r, told, told'⟩ := (tells (ended.sameHooks ended')).bind
      fun _ => Dispatch.alike_pure Readiness.ready
    rw [work, work, after_andThen hens, after_andThen hens', after_bind_congr hc, after_bind_congr hc', told,
      told']
    exact ⟨rfl, ended.same ended'⟩
  · have same : b.after (ensureNamespaces settings t) = (o, b₁) := by
      cases h with
      | preparing same => exact same.trans hens
      | applying ready' => exact absurd (Prod.mk.inj (hens.symm.trans ready')).1 ready
    rw [work, work, after_andThen_of_ne hens ready, after_andThen_of_ne same ready]
    exact ⟨rfl, .refl b₁⟩

end Lifecycle

end Tenancy

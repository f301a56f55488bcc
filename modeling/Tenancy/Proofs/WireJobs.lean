import Tenancy.Backend.Services
import Tenancy.Proofs.Conduct

/-!
# Jobs over requests

What a job over requests asks of the network is what it asks of the wire (`goes_overWire`), and a request goes
out at most once, namely if it can be sent at all (`goes_exchange`). A token is a job of this kind as well.
Whatever goes wrong on the way to it, be it a secret, a file, an exchange or an answer, the error says that no
token could be had: `Tokens.Asking` is kept by sequencing (`asking_bind`), so it is checked part by part.
-/

namespace Tenancy

namespace Backend

variable {σ α : Type} {R : Conduct Network σ} {s s' : σ} {tr : List (Moment Network σ)}

/-- What is asked and answered over the wire, as the network sees it. -/
def wired (m : Moment Wire σ) : Moment Network σ := ⟨m.before, .wire m.query, m.answer⟩

/-- How the network answers what goes over the wire. -/
def onWire (R : Conduct Network σ) : Conduct Wire σ := fun q s r s' => R (.wire q) s r s'

theorem goes_overWire {job : WireJob α} {o : Except Error α} (h : (overWire job).Goes R s tr o s') :
    ∃ tr', Dialogue.Goes (onWire R) job.run s tr' o s' ∧ tr = tr'.map wired := by
  unfold overWire at h
  generalize job.run = d at h ⊢
  induction d generalizing s tr with
  | done a =>
    obtain ⟨rfl, rfl, rfl⟩ := Dialogue.Goes.of_done h
    exact ⟨[], .done, rfl⟩
  | ask q next ih =>
    cases h with
    | ask answered rest =>
      obtain ⟨tr', goes, rfl⟩ := ih _ rest
      exact ⟨⟨s, q, _⟩ :: tr', .ask answered goes, rfl⟩

theorem goes_exchange {R : Conduct Wire σ} {tr : List (Moment Wire σ)} {r : Http.Outgoing}
    {o : Except Error (Except Http.TransportFault Http.Reply)}
    (h : Dialogue.Goes R (WireJob.exchange r).run s tr o s') :
    (r.isSendable = false ∧ tr = [] ∧ o = .ok (.error .unsendable)) ∨
      ∃ x : Except Http.TransportFault Http.Reply,
        r.isSendable = true ∧ tr = [⟨s, .exchange r, x⟩] ∧ o = .ok x := by
  by_cases sendable : r.isSendable = true
  · have job : WireJob.exchange r = ExceptT.lift (Dialogue.query (I := Wire) (.exchange r)) :=
      congrArg ExceptT.lift (if_pos sendable)
    rw [job] at h
    obtain ⟨x, s₁, tr₁, tr₂, first, last, rfl⟩ := Dialogue.Goes.of_bind h
    obtain ⟨rfl, rfl, _⟩ := Dialogue.Goes.of_done last
    rw [List.append_nil]
    exact .inr ⟨x, sendable, Dialogue.Goes.of_query first, rfl⟩
  · have job : WireJob.exchange r = pure (.error .unsendable) := congrArg ExceptT.lift (if_neg sendable)
    rw [job] at h
    obtain ⟨rfl, rfl, _⟩ := Dialogue.Goes.of_done h
    exact .inl ⟨by simpa using sendable, rfl, rfl⟩

theorem goes_read {R : Conduct Wire σ} {tr : List (Moment Wire σ)} {x o : Except Error α}
    (h : Dialogue.Goes R (liftExcept x : WireJob α).run s tr o s') : tr = [] ∧ o = x ∧ s' = s := by
  cases x <;> exact Dialogue.Goes.of_done h

end Backend

/-! ## Tokens -/

namespace Tokens

variable {α β : Type} {system : System} {e : Error}

/-- However the outside answers, the job fails only because no token for the service can be had. -/
def Asking (system : System) (t : WireJob α) : Prop :=
  ∀ ⦃σ : Type⦄ ⦃R : Conduct Wire σ⦄ ⦃s : σ⦄ ⦃tr : List (Moment Wire σ)⦄ ⦃e : Error⦄ ⦃s' : σ⦄,
    Dialogue.Goes R t.run s tr (.error e) s' → ∃ m, e = denied system m

theorem asking_bind {t : WireJob α} {f : α → WireJob β} (h : Asking system t) (h' : ∀ a, Asking system (f a)) :
    Asking system (t >>= f) := by
  intro σ R s tr e s' goes
  rcases Dialogue.Goes.of_bind_except goes with ⟨_, ⟨⟩, first⟩ | ⟨a, _, _, _, _, rest, _⟩
  · exact h first
  · exact h' a rest

theorem asking_pure {a : α} : Asking system (pure a : WireJob α) := by
  intro σ R s tr e s' goes
  obtain ⟨_, ⟨⟩, _⟩ := Dialogue.Goes.of_done goes

theorem asking_throw {m : Message} : Asking system (throw (denied system m) : WireJob α) := by
  intro σ R s tr e s' goes
  obtain ⟨_, ⟨⟩, _⟩ := Dialogue.Goes.of_done goes
  exact ⟨m, rfl⟩

theorem asking_lift {d : Dialogue Wire α} : Asking system (ExceptT.lift d : WireJob α) := by
  intro σ R s tr e s' goes
  obtain ⟨_, _, _, _, _, last, _⟩ := Dialogue.Goes.of_bind goes
  obtain ⟨_, ⟨⟩, _⟩ := Dialogue.Goes.of_done last

theorem asking_liftExcept {x : Except Error α} (h : ∀ e, x = .error e → ∃ m, e = denied system m) :
    Asking system (liftExcept x : WireJob α) := by
  intro σ R s tr e s' goes
  obtain ⟨_, rfl, _⟩ := Backend.goes_read goes
  exact h e rfl

theorem denied_of_extract {body : Json} {pointer : String} (h : extract system body pointer = .error e) :
    ∃ m, e = denied system m := by
  unfold extract at h
  split at h
  · split at h <;> cases h
    exact ⟨_, rfl⟩
  · cases h
    exact ⟨_, rfl⟩

theorem denied_of_required {data : Dict String} {key : String} (h : required system data key = .error e) :
    ∃ m, e = denied system m := by
  unfold required at h
  split at h
  · split at h <;> cases h
    exact ⟨_, rfl⟩
  · cases h
    exact ⟨_, rfl⟩

theorem denied_of_granted {x : Except Http.TransportFault Http.Reply} (h : granted system x = .error e) :
    ∃ m, e = denied system m := by
  unfold granted at h
  split at h
  · cases h
    split <;> exact ⟨_, rfl⟩
  · cases h
    exact ⟨_, rfl⟩
  · split at h
    · cases h
      exact ⟨_, rfl⟩
    · split at h
      · cases h
        exact ⟨_, rfl⟩
      · split at h <;> cases h
        exact ⟨_, rfl⟩

theorem asking_loadSecret {space name : String} : Asking system (loadSecret system space name) := by
  refine asking_bind asking_lift fun found => ?_
  cases found with
  | error e => exact asking_throw
  | ok data =>
    cases data with
    | none => exact asking_throw
    | some data => exact asking_pure

theorem asking_grant {url : String} {form : List (String × String)} : Asking system (grant system url form) :=
  asking_bind asking_lift fun _ => asking_bind (asking_liftExcept fun _ => denied_of_granted) fun _ =>
    asking_liftExcept fun _ => denied_of_extract

theorem asking_required {data : Dict String} {key : String} :
    Asking system (liftExcept (required system data key)) := asking_liftExcept fun _ => denied_of_required

/-- However the outside answers, the only error of a token is that it could not be had. -/
theorem asking_token (endpoints : TokenEndpoints) (system : System) : Asking system (token endpoints system) := by
  cases system with
  | hardware =>
    exact asking_bind asking_loadSecret fun _ => asking_bind asking_required fun _ =>
      asking_bind asking_required fun _ => asking_grant
  | identity =>
    exact asking_bind asking_loadSecret fun _ => asking_bind asking_required fun _ =>
      asking_bind asking_required fun _ => asking_bind asking_required fun _ => asking_grant
  | vault =>
    refine asking_bind asking_lift fun text => ?_
    cases text with
    | error why => exact asking_throw
    | ok jwt =>
      exact asking_bind asking_lift fun _ => asking_bind (asking_liftExcept fun _ => denied_of_granted) fun _ =>
        asking_liftExcept fun _ => denied_of_extract

end Tokens

end Tenancy

import Tenancy.Proofs.Estates

/-!
# Runs under a script

A script says of each call, by those that were made before it, whether it fails, and how: without an effect,
after its effect, or with an empty reply. All that a job does under a script is `Troubled`: each call is
answered as in the world in memory, or it is in one of these ways of trouble.

What a run leaves as it was is what none of its calls changes (`entry_of_goes`). And a run goes on as it
would in another estate, call by call, as long as the two agree on all that its calls have to know
(`run_of_agree`).
-/

namespace Tenancy.Rehearsal.Estate

variable {α : Type} {E E' : Estate} {S : Entry → Prop} {e : Entry} {c : Call} {tr : List (Moment Services Estate)}

/-- What becomes of a call, by the calls that were made before it, the latest first. -/
abbrev Script := List Call → Call → Option FaultMode

/-- The answer to a call under a script, with the calls that were made by then. -/
def answerUnder (script : Script) (c : Call) (s : Estate × List Call) :
    Except Error c.Reply × (Estate × List Call) :=
  match script s.2 c with
  | none => ((s.1.answer c).1, (s.1.answer c).2, c :: s.2)
  | some (.before e) => (.error e, s.1, c :: s.2)
  | some (.after e) => (.error e, (s.1.answer c).2, c :: s.2)
  | some .skip => (.ok c.emptyReply, s.1, c :: s.2)

/-- Calls are answered as in the world in memory, or there is some trouble with them. -/
inductive Troubled : Conduct Services Estate
  | answered {c : Call} {E : Estate} : Troubled c E (E.answer c).1 (E.answer c).2
  | before {c : Call} {E : Estate} {e : Error} : Troubled c E (.error e) E
  | after {c : Call} {E : Estate} {e : Error} : Troubled c E (.error e) (E.answer c).2
  | skipped {c : Call} {E : Estate} : Troubled c E (.ok c.emptyReply) E

theorem troubled_answerUnder (script : Script) (c : Call) (s : Estate × List Call) :
    Troubled c s.1 (answerUnder script c s).1 (answerUnder script c s).2.1 := by
  unfold answerUnder
  split
  · exact .answered
  · exact .before
  · exact .after
  · exact .skipped

/-- A run under a script is one of the ways in which a job can go. -/
theorem goes_under (script : Script) (d : Dialogue Services α) (s : Estate × List Call) :
    d.Goes Troubled s.1 (d.story (answerUnder script) Prod.fst s) (d.run (answerUnder script) s).1
      (d.run (answerUnder script) s).2.1 :=
  Dialogue.goes_run (P := fun _ => True) (fun c s _ => ⟨troubled_answerUnder script c s, trivial⟩) d trivial

/-! ## What is left as it was -/

/-- After a call the estate is what it was, or what an answer makes of it. -/
theorem Troubled.cases {r : Except Error c.Reply} (h : Troubled c E r E') : E' = E ∨ E' = (E.answer c).2 := by
  cases h with
  | answered => exact .inr rfl
  | before => exact .inl rfl
  | after => exact .inr rfl
  | skipped => exact .inl rfl

theorem entry_of_goes {d : Dialogue Services α} {a : α} (h : d.Goes Troubled E tr a E')
    (unchanged : ∀ m ∈ tr, ¬ m.before.Changes m.query e) : E'.entry e = E.entry e := by
  induction h with
  | done => rfl
  | ask answered _ ih =>
    obtain ⟨first, rest⟩ := List.forall_mem_cons.1 unchanged
    rw [ih rest]
    rcases answered.cases with rfl | rfl
    · rfl
    · exact entry_of_unchanged first

theorem hooks_of_goes {d : Dialogue Services α} {a : α} (h : d.Goes Troubled E tr a E') :
    Dispatch.SameHooks E.systems E'.systems := by
  induction h with
  | done => exact .refl _
  | ask answered _ ih =>
    rcases answered.cases with rfl | rfl
    · exact ih
    · exact (hooks_of_answer _ _).trans ih

/-- A group that is there after a call was there before it, or the call has made it. -/
theorem mem_identity_answer {g : IdentityGroup} (h : g ∈ (E.answer c).2.systems.identity) :
    g ∈ E.systems.identity ∨
      ∃ made, c = .identity (.create made) ∧ g = { made with id := some ("id-" ++ made.name) } := by
  have found : g ∈ (E.answer c).2.entry (.groups g.name) := List.mem_filter.2 ⟨h, decide_eq_true rfl⟩
  have old (hg : g ∈ E.entry (.groups g.name)) : g ∈ E.systems.identity := (List.mem_filter.1 hg).1
  rw [entry_of_answer] at found
  split at found
  · cases c with
    | identity c =>
      cases c with
      | find n => exact .inl (old found)
      | create made =>
        change g ∈ (if g.name = made.name then _ ++ [{ made with id := some ("id-" ++ made.name) }] else _) at found
        split at found
        · rcases List.mem_append.1 found with hg | hg
          · exact .inl (old hg)
          · exact .inr ⟨made, rfl, List.mem_singleton.1 hg⟩
        · exact .inl (old found)
      | delete id => exact .inl (old (List.mem_filter.1 found).1)
    | _ => exact .inl (old found)
  · exact .inl (old found)

theorem identity_of_goes {d : Dialogue Services α} {a : α} {made : IdentityGroup}
    (h : d.Goes Troubled E tr a E') (creates : ∀ m ∈ tr, ∀ g, m.query = .identity (.create g) → g = made) :
    ∀ g ∈ E'.systems.identity, g ∈ E.systems.identity ∨ g = { made with id := some ("id-" ++ made.name) } := by
  induction h with
  | done => exact fun g hg => .inl hg
  | ask answered _ ih =>
    obtain ⟨first, rest⟩ := List.forall_mem_cons.1 creates
    intro g hg
    rcases ih rest g hg with hg | hg
    · rcases answered.cases with rfl | rfl
      · exact .inl hg
      · rcases mem_identity_answer hg with hg | ⟨made', hmade, rfl⟩
        · exact .inl hg
        · exact .inr (first made' hmade ▸ rfl)
    · exact .inr hg

/-! ## What is the same in two runs -/

theorem answerUnder_of_agree (script : Script) (agree : AgreeOn S E E') (knows : E.Knows S c)
    (calls : List Call) : ∃ r E₁ E₁', answerUnder script c (E, calls) = (r, E₁, c :: calls) ∧
      answerUnder script c (E', calls) = (r, E₁', c :: calls) ∧ AgreeOn S E₁ E₁' := by
  obtain ⟨reply, after⟩ := answer_of_agree agree knows
  unfold answerUnder
  dsimp only
  split
  · exact ⟨_, _, _, rfl, by rw [reply], after⟩
  · exact ⟨_, _, _, rfl, rfl, agree⟩
  · exact ⟨_, _, _, rfl, rfl, after⟩
  · exact ⟨_, _, _, rfl, rfl, agree⟩

/-- A run comes to the same end, by the same calls, in two estates that agree on what its calls have to know;
and they agree on it at the end. -/
theorem run_of_agree (script : Script) (d : Dialogue Services α) {calls : List Call} (agree : AgreeOn S E E')
    (knows : ∀ m ∈ d.story (answerUnder script) Prod.fst (E, calls), m.before.Knows S m.query) :
    ∃ a E₁ E₁' made, d.run (answerUnder script) (E, calls) = (a, E₁, made) ∧
      d.run (answerUnder script) (E', calls) = (a, E₁', made) ∧ AgreeOn S E₁ E₁' := by
  induction d generalizing E E' calls with
  | done a => exact ⟨a, E, E', calls, rfl, rfl, agree⟩
  | ask c next ih =>
    obtain ⟨first, rest⟩ := List.forall_mem_cons.1 knows
    obtain ⟨r, E₁, E₁', h, h', agree₁⟩ := answerUnder_of_agree script agree first calls
    rw [h] at rest
    obtain ⟨a, E₂, E₂', made, hrun, hrun', agree₂⟩ := ih r agree₁ rest
    refine ⟨a, E₂, E₂', made, ?_, ?_, agree₂⟩
    · show (next (answerUnder script c (E, calls)).1).run _ (answerUnder script c (E, calls)).2 = _
      rw [h]
      exact hrun
    · show (next (answerUnder script c (E', calls)).1).run _ (answerUnder script c (E', calls)).2 = _
      rw [h']
      exact hrun'

end Tenancy.Rehearsal.Estate

import Tenancy.Rehearsal.Label
import Tenancy.Rehearsal.World

/-!
# Failures on demand

A script of faults makes calls fail. A call is matched against the faults in their order, by its line or
by the start of it; the first fault that matches and is not used up decides what happens: the call fails
and has no effect, or has its effect and fails all the same, or is passed over with an empty reply. A
stage is a world with such a script and the list of the calls made on it.
-/

namespace Tenancy

def Call.emptyReply : (c : Call) → c.Reply
  | store (.get _ _) => (none : Option Tenant)
  | store (.replaceStatus _ _) | store (.addFinalizer _ _) | store (.removeFinalizer _ _)
  | store (.clearKeyUpdate _) => ()
  | hierarchy (.anchorExists _ _) => false
  | hierarchy (.getSecret _ _) => (none : Option Secret)
  | hierarchy (.createAnchor _ _) | hierarchy (.deleteAnchor _ _) | hierarchy (.createSecret _ _) => ()
  | hardware (.get _ _) => (none : Option Collection)
  | hardware .listGroups => ([] : List Collection)
  | hardware (.listComponents _ _) => ([] : List String)
  | hardware (.create _ _) | hardware (.delete _ _) | hardware (.add _ _ _)
  | hardware (.remove _ _ _) => ()
  | identity (.find _) => (none : Option IdentityGroup)
  | identity (.create _) | identity (.delete _) => ()
  | vault (.read _) => (none : Option Json)
  | vault (.write _ _) | vault (.delete _) => ()
  | hook (.post _ _ _ _) => (0 : Nat)
  | hook .listGlobal => ([] : List Hook)
  | hook (.readSecret _ _) => (none : Option (Dict String))

namespace Rehearsal

inductive FaultMode where
  /-- The call fails and has no effect. -/
  | before (error : Error)
  /-- The call has its effect and fails. -/
  | after (error : Error)
  /-- The call has no effect and an empty reply. -/
  | skip
  deriving Repr

structure Fault where
  /-- The line of the calls it is for, or the start of their lines with `*` after it. -/
  pattern : String
  mode : FaultMode
  /-- How often it is still to be used; without limit if none. -/
  times : Option Nat := none
  deriving Repr

namespace Fault

/-- A line is one of those that the pattern stands for. -/
def stands (pattern line : String) : Bool :=
  match pattern.toList.reverse with
  | '*' :: start => (Text.dropStart? start.reverse line.toList).isSome
  | _ => pattern == line

/-- The fault is for this line and is not used up. -/
def applies (f : Fault) (line : String) : Bool := stands f.pattern line && f.times ≠ some 0

def used (f : Fault) : Fault := { f with times := f.times.map (· - 1) }

/-- The first fault that applies to a line, and the script after its use. -/
def pick (line : String) : List Fault → Option FaultMode × List Fault
  | [] => (none, [])
  | f :: rest =>
    if f.applies line then (some f.mode, f.used :: rest)
    else
      let (mode, rest) := pick line rest
      (mode, f :: rest)

end Fault

/-- A world, the faults still to come, and the calls that were made, the latest first. -/
structure Stage where
  world : World := {}
  faults : List Fault := []
  calls : List Call := []
  deriving Inhabited

namespace Stage

def answer (c : Call) (s : Stage) : Except Error c.Reply × Stage :=
  let (mode, faults) := Fault.pick c.label s.faults
  let calls := c :: s.calls
  match mode with
  | none =>
    let (r, w) := s.world.answer c
    (r, ⟨w, faults, calls⟩)
  | some (.before e) => (.error e, ⟨s.world, faults, calls⟩)
  | some (.after e) => (.error e, ⟨(s.world.answer c).2, faults, calls⟩)
  | some .skip => (.ok c.emptyReply, ⟨s.world, faults, calls⟩)

def perform {α : Type} (t : Job α) (s : Stage) : Except Error α × Stage :=
  Dialogue.run (I := Services) answer t.run s

end Stage

end Rehearsal

end Tenancy

import Tenancy.Call
import Tenancy.Outcome

/-!
# The hardware of a tenant

Collections are moved to their declared members one member at a time. All removals of a collection come
before its additions, and collections that nothing declares any more are deleted before anything is
added, so a node whose old collection is not declared any more leaves it first. That something is already
gone or already there is no error: the remote end agrees.
-/

namespace Tenancy.Hardware

/-! ## Calls -/

def getCollection (kind : Kind) (name : String) : Job (Option Collection) :=
  Job.call (.hardware (.get kind name))

def createCollection (kind : Kind) (c : Collection) : Job Unit :=
  Job.call (.hardware (.create kind c))

def deleteCollection (kind : Kind) (name : String) : Job Unit :=
  Job.call (.hardware (.delete kind name))

def addMember (kind : Kind) (name member : String) : Job Unit :=
  Job.call (.hardware (.add kind name member))

def removeMember (kind : Kind) (name member : String) : Job Unit :=
  Job.call (.hardware (.remove kind name member))

def listGroups : Job (List Collection) := Job.call (.hardware .listGroups)

def listComponents (type role : String) : Job (List String) :=
  Job.call (.hardware (.listComponents type role))

/-! ## Members -/

/-- What an attempt comes to when some errors mean that the remote end already agrees. -/
def agreeing (agrees : Error → Bool) (what : String) : Except Error Unit → Except Error Unit
  | .ok _ => .ok ()
  | .error e => if agrees e then .ok () else .error (e.within what)

theorem agreeing_eq_ok {agrees : Error → Bool} {what : String} {x : Except Error Unit}
    (h : agreeing agrees what x = .ok ()) : x = .ok () ∨ ∃ e, x = .error e ∧ agrees e = true := by
  cases x with
  | ok u => exact .inl rfl
  | error e =>
    by_cases he : agrees e = true
    · exact .inr ⟨e, rfl, he⟩
    · rw [agreeing, if_neg he] at h
      cases h

/-- Remove one member; it may be gone already. -/
def dropMember (kind : Kind) (name member : String) : Job Unit := do
  let what := "removing member " ++ member ++ " from " ++ kind.name ++ " " ++ name
  liftExcept (agreeing Error.isNotFound what (← (removeMember kind name member).outcome))

/-- Add one member; it may be there already. -/
def putMember (kind : Kind) (name member : String) : Job Unit := do
  let what := "adding member " ++ member ++ " to " ++ kind.name ++ " " ++ name
  liftExcept (agreeing Error.isConflict what (← (addMember kind name member).outcome))

/-- Apply a difference: all removals, then all additions, each in ascending order. -/
def syncMembers (kind : Kind) (name : String) (diff : MemberDiff) : Job Unit := do
  diff.toRemove.forM (dropMember kind name)
  diff.toAdd.forM (putMember kind name)

/-! ## Collections -/

/-- Make a collection unless it exists. One that exists is left as it is. -/
def ensureCollection (kind : Kind) (c : Collection) : Job Unit := do
  if (← getCollection kind c.name).isSome then return ()
  let what := "creating " ++ kind.name ++ " " ++ c.name
  liftExcept (agreeing Error.isConflict what (← (createCollection kind c).outcome))

/-- What an attempt to delete comes to when the thing may be gone already. -/
def deleted (what : String) : Except Error Unit → Except Error Removal
  | .ok _ => .ok .removed
  | .error e => if e.isNotFound then .ok .absent else .error (e.within what)

def removeCollection (kind : Kind) (name : String) : Job Removal := do
  let what := "deleting " ++ kind.name ++ " " ++ name
  liftExcept (deleted what (← (deleteCollection kind name).outcome))

def carryOut (tenant : String) (kind : Kind) (p : Collection.Plan) : Job Unit := do
  ensureCollection kind (Collection.forPlan tenant kind p)
  syncMembers kind p.name (MemberDiff.between p.desired p.observed)

/-- Move every collection of a kind from what was last applied to what is declared. -/
def converge (tenant : String) (kind : Kind) (desired observed : List Resource) : Job Unit := do
  (Collection.retired kind desired observed).forM fun name => discard (removeCollection kind name)
  (Collection.plans kind desired observed).forM (carryOut tenant kind)

end Tenancy.Hardware

/-!
# Outcomes of single steps

Making sure of something and deleting something can succeed, or fail with an error, or have to wait
for someone else.
-/

namespace Tenancy

/-- What making sure that something exists comes to. -/
inductive Readiness where
  | ready
  /-- A precondition is not to be seen yet. -/
  | pending
  deriving DecidableEq, Repr, Inhabited

/-- What a deletion comes to. -/
inductive Removal where
  | removed
  | absent
  /-- The system refuses for now, because something still depends on the thing. -/
  | blocked
  deriving DecidableEq, Repr, Inhabited

end Tenancy

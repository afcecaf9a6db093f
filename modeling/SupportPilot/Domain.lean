import Mathlib.Algebra.GroupWithZero.Nat
import SupportPilot.Lib.Table

/-! # Vocabulary shared by the services

Identifiers, the enumerations of `packages/domain/enums.py` and
the exceptions the services raise.  A Python `str` is a list of code points. -/

namespace SupportPilot

abbrev UUID := Nat

/-- `timedelta(seconds=n)`; clock readings are in microseconds. -/
def seconds (n : Nat) : Nat := n * 1000000

abbrev Text := List Char

abbrev Bytes := List UInt8

inductive WorkspaceRole where
  | owner | admin | agent | viewer
  deriving DecidableEq, Repr

inductive DocumentVersionStatus where
  | queued | processing | active | failed
  deriving DecidableEq, Repr

inductive JobType where
  | processDocument | deleteObject
  deriving DecidableEq, Repr

inductive JobState where
  | queued | leased | processing | retrying | failed | deadLetter | completed
  deriving DecidableEq, Repr

/-- The exceptions of the services: the `DomainError` subclasses, the built-in
classes the code raises itself, the driver's `IntegrityError`, and everything
else (`other`), cancellation included. -/
inductive PyError where
  | conflict (message : String)
  | notFound (message : String)
  | authentication (message : String)
  | uploadRejected (message : String)
  | uploadTooLarge (message : String)
  | valueError (message : String)
  | runtimeError (message : String)
  | keyError (key : String)
  | integrityError
  | other (code : Nat)
  deriving DecidableEq, Repr

end SupportPilot

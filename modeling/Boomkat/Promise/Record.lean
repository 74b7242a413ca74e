import Mathlib.Tactic.Common

/-! The fields of a promise object. -/

namespace Boomkat.Promise

/-- `PROMISE_PENDING`, `PROMISE_FULFILLED` and `PROMISE_REJECTED`. -/
inductive PromiseState where
  | pending
  | fulfilled
  | rejected
  deriving DecidableEq, Repr

/-- The fields of a promise other than its list of reactions. -/
structure PromiseRecord (V : Type) where
  state : PromiseState
  result : V
  isHandled : Bool
  inRejectList : Bool
  deriving DecidableEq

/-- `promise_init` -/
def PromiseRecord.init {V : Type} (undefined : V) : PromiseRecord V :=
  { state := .pending, result := undefined, isHandled := false, inRejectList := false }

end Boomkat.Promise

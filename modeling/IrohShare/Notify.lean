/-!
# A notification cell with one waiter

The cell keeps at most one permit.  A notification wakes the waiter that is parked
on it, and otherwise leaves a permit, unless one is there already; a wait takes the
permit if there is one.  Each notification carries a tag, and a permit or a woken
waiter the tag of the notification it comes from, so that a proof can say which
notification ended which wait.
-/
namespace Notification

universe u

inductive Waiter (τ : Type u)
  | none
  | parked
  | woken (tag : τ)
  deriving DecidableEq, Repr

structure Notify (τ : Type u) where
  permit : Option τ := none
  waiter : Waiter τ := .none
  deriving DecidableEq, Repr

namespace Notify
variable {τ : Type u}

/-- `notify_one`. -/
def notifyOne (n : Notify τ) (tag : τ) : Notify τ :=
  match n.waiter with
  | .parked => { n with waiter := .woken tag }
  | _ => { n with permit := some (n.permit.getD tag) }

/-- The first poll of `notified()`. -/
def enter (n : Notify τ) : Notify τ :=
  match n.permit with
  | some tag => { permit := none, waiter := .woken tag }
  | none => { permit := none, waiter := .parked }

/-- The wait is over, woken or given up. -/
def leave (n : Notify τ) : Notify τ := { n with waiter := .none }

end Notify
end Notification

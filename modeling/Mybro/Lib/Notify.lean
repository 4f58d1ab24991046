import Mathlib.Tactic

/-!
# A notification with one waiter

A notification holds at most one stored permit. One task waits for it, through a future that is
polled: the future takes the permit, or registers and is notified later. When a notified future is
dropped before it is polled again, its notification goes back.

* `Valid n`: no permit is stored while the future is registered;
* `Signalled n`: a notification is on its way, as a permit or with the future;
* `notifyOne`, `poll`, `drop` keep or establish `Valid`, and `notifyOne` establishes `Signalled`;
* `poll_ready_iff`: a poll is ready exactly when a notification is on its way.
-/

/-- The future of the task that waits: new or not there, registered, or notified. -/
inductive Waiter
  | idle
  | registered
  | notified
  deriving DecidableEq, Repr

/-- The stored permit and the waiter. -/
structure Notify where
  permit : Bool := false
  waiter : Waiter := .idle
  deriving DecidableEq, Repr

namespace Notify

/-- A registered waiter is notified, or else the permit is stored. -/
def notifyOne (n : Notify) : Notify :=
  match n.waiter with
  | .registered => { n with waiter := .notified }
  | _ => { n with permit := true }

/-- Poll the future: whether it is ready, and what is left. -/
def poll (n : Notify) : Bool × Notify :=
  match n.waiter with
  | .notified => (true, { n with waiter := .idle })
  | .registered => (false, n)
  | .idle =>
    if n.permit then (true, { n with permit := false })
    else (false, { n with waiter := .registered })

/-- Drop the future; what it was notified of is notified again. -/
def drop (n : Notify) : Notify :=
  match n.waiter with
  | .notified => { permit := true, waiter := .idle }
  | _ => { n with waiter := .idle }

/-- No permit is stored while the future is registered. -/
def Valid (n : Notify) : Prop := n.waiter = .registered → n.permit = false

/-- A notification is on its way. -/
def Signalled (n : Notify) : Prop := n.permit = true ∨ n.waiter = .notified

variable {n : Notify}

theorem signalled_notifyOne (n : Notify) : n.notifyOne.Signalled := by
  obtain ⟨permit, waiter⟩ := n
  cases waiter <;> simp [notifyOne, Signalled]

theorem valid_notifyOne (n : Notify) : n.notifyOne.Valid := by
  obtain ⟨permit, waiter⟩ := n
  cases waiter <;> simp [notifyOne, Valid]

/-- **A poll is ready exactly when a notification is on its way.** -/
theorem poll_ready_iff (h : n.Valid) : n.poll.1 = true ↔ n.Signalled := by
  obtain ⟨permit, waiter⟩ := n
  cases waiter <;> cases permit <;> simp_all [poll, Signalled, Valid]

theorem not_signalled_poll (h : ¬ n.Signalled) : ¬ n.poll.2.Signalled := by
  obtain ⟨permit, waiter⟩ := n
  cases waiter <;> cases permit <;> simp_all [poll, Signalled]

theorem valid_poll (h : n.Valid) : n.poll.2.Valid := by
  obtain ⟨permit, waiter⟩ := n
  cases waiter <;> cases permit <;> simp_all [poll, Valid]

theorem valid_drop (n : Notify) : n.drop.Valid := by
  obtain ⟨permit, waiter⟩ := n
  cases waiter <;> simp [drop, Valid]

end Notify

import Mathlib.Init

/-!
# Cmsc421.Completion

The kernel's completions.

A completion is a counter of the wake-ups that nobody has taken yet.  A thread
that waits takes one, and blocks while there is none; `complete_all` leaves the
counter at its maximum, from where it no longer moves until it is
reinitialised.
-/

namespace Cmsc421

/-- The largest `unsigned int`. -/
def UINT_MAX : Nat := 4294967295

/-- `struct completion`. -/
structure Completion where
  done : Nat
  deriving DecidableEq

namespace Completion

/-- `reinit_completion()`. -/
def reinit : Completion := ⟨0⟩

/-- `complete()`. -/
def complete (c : Completion) : Completion := if c.done = UINT_MAX then c else ⟨c.done + 1⟩

/-- `complete_all()`. -/
def completeAll : Completion := ⟨UINT_MAX⟩

/-- A waiter gets past `wait_for_completion()`; `none` while it blocks. -/
def wait (c : Completion) : Option Completion :=
  if c.done = 0 then none else if c.done = UINT_MAX then some c else some ⟨c.done - 1⟩

/-- After a reinitialisation a waiter blocks. -/
@[simp] theorem wait_reinit : reinit.wait = none := rfl

/-- Exactly one waiter gets past a single `complete()`. -/
@[simp] theorem wait_complete_reinit : reinit.complete.wait = some reinit := rfl

/-- After `complete_all()` waiters take nothing away. -/
@[simp] theorem wait_completeAll : completeAll.wait = some completeAll := rfl

/-- A waiter blocks while there is nothing to take. -/
theorem wait_eq_none {c : Completion} : c.wait = none ↔ c.done = 0 := by
  unfold wait
  split
  · next h => exact iff_of_true rfl h
  · next h => split <;> exact iff_of_false (by simp) h

/-- One more wake-up, while the counter is not at its maximum. -/
theorem done_complete {c : Completion} (h : c.done < UINT_MAX) : c.complete.done = c.done + 1 := by
  rw [complete, if_neg (Nat.ne_of_lt h)]

/-- A waiter takes one. -/
theorem done_wait {c d : Completion} (hd : c.wait = some d) (h : c.done < UINT_MAX) :
    c.done = d.done + 1 := by
  rw [wait, if_neg (Nat.ne_of_lt h)] at hd
  split at hd
  · contradiction
  · next hpos =>
      obtain rfl := Option.some.inj hd
      show c.done = c.done - 1 + 1
      exact (Nat.succ_pred hpos).symm

end Completion

end Cmsc421

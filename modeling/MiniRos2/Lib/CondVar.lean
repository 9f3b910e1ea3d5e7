import Mathlib.Logic.Function.Basic
import Mathlib.Tactic.Common
/-!
# CondVar — who is blocked on a condition variable

A thread that waits is blocked until it is notified or wakes without a reason; from then on it has only its mutex to
wait for.  `notify_one` unblocks any one of the threads that are blocked when it is called, and none if there are none.
-/
namespace CondVar

variable {ω : Type}

/-- The threads that are blocked, and not notified since. -/
abbrev Waiters (ω : Type) := ω → Bool

def none : Waiters ω := fun _ => false

section Ops

variable [DecidableEq ω]

def Waiters.block (c : Waiters ω) (i : ω) : Waiters ω := Function.update c i true

/-- A notification, or a spurious wake-up. -/
def Waiters.wake (c : Waiters ω) (i : ω) : Waiters ω := Function.update c i false

/-- **`notify_one`**: the implementation chooses whom. -/
inductive Waiters.NotifyOne (c : Waiters ω) : Waiters ω → Prop where
  | one {i : ω} : c i = true → NotifyOne c (c.wake i)
  | nobody : (∀ i, c i = false) → NotifyOne c c

@[simp] theorem Waiters.block_self (c : Waiters ω) (i : ω) : c.block i i = true := Function.update_self ..

@[simp] theorem Waiters.wake_self (c : Waiters ω) (i : ω) : c.wake i i = false := Function.update_self ..

theorem Waiters.wake_le (c : Waiters ω) (i j : ω) (h : c.wake i j = true) : c j = true := by
  by_cases hij : j = i
  · subst hij; simp at h
  · rwa [wake, Function.update_of_ne hij] at h

/-- **`notify_one` blocks nobody.** -/
theorem Waiters.NotifyOne.le {c c' : Waiters ω} (h : c.NotifyOne c') (j : ω) (hj : c' j = true) : c j = true := by
  cases h with
  | one _ => exact c.wake_le _ j hj
  | nobody _ => exact hj

/-- **After `notify_one` not every thread is blocked.** -/
theorem Waiters.NotifyOne.exists_awake [Nonempty ω] {c c' : Waiters ω} (h : c.NotifyOne c') :
    ∃ i, c' i = false := by
  cases h with
  | @one i _ => exact ⟨i, c.wake_self i⟩
  | nobody hall => exact ⟨Classical.arbitrary ω, hall _⟩

end Ops

end CondVar

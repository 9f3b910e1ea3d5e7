import MiniRos2.Lib.CondVar
import MiniRos2.Lib.Trans
/-!
# PoolWaits — `ThreadPool` never sleeps on work

`cv_.wait` tests its predicate and blocks in two steps, both with `mutex_` held, and a worker may wake without a
reason.  A worker that has found nothing to do holds `mutex_` until it is blocked, so neither `enqueue` nor `stop` comes
between; from this no notification is lost (`sleepless_of_run`).
-/
namespace MiniRos2

/-- Where a worker is in its loop: `testing` and `refused` are inside `cv_.wait`, before and after a test of the
predicate that failed; `waiting` is without the mutex. -/
inductive WaiterPc where
  | ready
  | testing
  | refused
  | waiting
  | passed
  | running
  | returned
  deriving DecidableEq

/-- Where a thread that calls the pool is: in `enqueue` before and after it gives `mutex_` back, or in `stop` before it
sets `stop_`, before its `notify_all` and behind it. -/
inductive CallerPc where
  | idle
  | enqueuing
  | notifying
  | stopping
  | stopped
  | notified
  deriving DecidableEq

def WaiterPc.holds : WaiterPc → Bool
  | .testing | .refused | .passed => true
  | _ => false

def CallerPc.holds : CallerPc → Bool
  | .enqueuing | .stopping | .stopped | .notified => true
  | _ => false

/-- The pool with `n` workers, called by the threads `κ`; `notifiedAll` says that a `notify_all` was issued. -/
structure WaitPool (n : Nat) (κ : Type) where
  mutex_ : Option (Fin n ⊕ κ)
  tasks_ : Nat
  stop_ : Bool
  cv_ : CondVar.Waiters (Fin n)
  workers_ : Fin n → WaiterPc
  callers : κ → CallerPc
  notifiedAll : Bool

inductive WaitAct (n : Nat) (κ : Type) where
  | lock (i : Fin n)
  | test (i : Fin n)
  | block (i : Fin n)
  | spurious (i : Fin n)
  | relock (i : Fin n)
  | take (i : Fin n)
  | finish (i : Fin n)
  | enqueueLock (k : κ)
  | enqueueUnlock (k : κ)
  | notifyOne (k : κ)
  | stopLock (k : κ)
  | stopSet (k : κ)
  | notifyAll (k : κ)
  | stopUnlock (k : κ)

variable {n : Nat} {κ : Type}

namespace WaitPool

def init : WaitPool n κ := ⟨none, 0, false, CondVar.none, fun _ => .ready, fun _ => .idle, false⟩

/-- The predicate of `cv_.wait`. -/
def predicate (s : WaitPool n κ) : Bool := s.stop_ || s.tasks_ != 0

def worker (s : WaitPool n κ) (i : Fin n) (pc : WaiterPc) : WaitPool n κ :=
  { s with workers_ := Function.update s.workers_ i pc }

def caller [DecidableEq κ] (s : WaitPool n κ) (k : κ) (pc : CallerPc) : WaitPool n κ :=
  { s with callers := Function.update s.callers k pc }

@[simp] theorem worker_self (s : WaitPool n κ) (i : Fin n) (pc : WaiterPc) : (s.worker i pc).workers_ i = pc :=
  Function.update_self ..

@[simp] theorem caller_self [DecidableEq κ] (s : WaitPool n κ) (k : κ) (pc : CallerPc) :
    (s.caller k pc).callers k = pc :=
  Function.update_self ..

/-- The worker's body behind the wait: it returns, or takes a task; either way it gives the mutex back. -/
def take (s : WaitPool n κ) (i : Fin n) : WaitPool n κ :=
  if s.stop_ && s.tasks_ == 0 then { s.worker i .returned with mutex_ := none }
  else { s.worker i .running with mutex_ := none, tasks_ := s.tasks_ - 1 }

end WaitPool

open WaitPool

/-- **One step of a worker or of a caller.**  `tasks_` is read with `mutex_` held only, so what `enqueue` puts there
shows when it gives the mutex back. -/
inductive WaitAct.Step [DecidableEq κ] (s : WaitPool n κ) : WaitAct n κ → WaitPool n κ → Prop where
  | lock {i : Fin n} : s.workers_ i = .ready → s.mutex_ = none →
      Step s (.lock i) { s.worker i .testing with mutex_ := some (.inl i) }
  | test {i : Fin n} : s.workers_ i = .testing →
      Step s (.test i) (s.worker i (if s.predicate then .passed else .refused))
  | block {i : Fin n} : s.workers_ i = .refused →
      Step s (.block i) { s.worker i .waiting with mutex_ := none, cv_ := s.cv_.block i }
  | spurious {i : Fin n} : s.workers_ i = .waiting → Step s (.spurious i) { s with cv_ := s.cv_.wake i }
  | relock {i : Fin n} : s.workers_ i = .waiting → s.cv_ i = false → s.mutex_ = none →
      Step s (.relock i) { s.worker i .testing with mutex_ := some (.inl i) }
  | take {i : Fin n} : s.workers_ i = .passed → Step s (.take i) (s.take i)
  | finish {i : Fin n} : s.workers_ i = .running → Step s (.finish i) (s.worker i .ready)
  | enqueueLock {k : κ} : s.callers k = .idle → s.mutex_ = none →
      Step s (.enqueueLock k) { s.caller k .enqueuing with mutex_ := some (.inr k) }
  | enqueueUnlock {k : κ} : s.callers k = .enqueuing →
      Step s (.enqueueUnlock k) { s.caller k .notifying with mutex_ := none, tasks_ := s.tasks_ + 1 }
  | notifyOne {k : κ} {c : CondVar.Waiters (Fin n)} : s.callers k = .notifying → s.cv_.NotifyOne c →
      Step s (.notifyOne k) { s.caller k .idle with cv_ := c }
  | stopLock {k : κ} : s.callers k = .idle → s.mutex_ = none →
      Step s (.stopLock k) { s.caller k .stopping with mutex_ := some (.inr k) }
  | stopSet {k : κ} : s.callers k = .stopping → Step s (.stopSet k) { s.caller k .stopped with stop_ := true }
  | notifyAll {k : κ} : s.callers k = .stopped →
      Step s (.notifyAll k) { s.caller k .notified with cv_ := CondVar.none, notifiedAll := true }
  | stopUnlock {k : κ} : s.callers k = .notified → Step s (.stopUnlock k) { s.caller k .idle with mutex_ := none }

namespace WaitPool

/-- **Worker `i` is blocked and no notification is pending for it.** -/
def Blocked (s : WaitPool n κ) (i : Fin n) : Prop := s.workers_ i = .waiting ∧ s.cv_ i = true

/-- **Nobody sleeps on work**: not when `stop_` is set and announced, and not all when a task is in the queue and each
`enqueue` that gave the mutex back has notified. -/
structure Sleepless (s : WaitPool n κ) : Prop where
  stopped : s.stop_ = true → s.notifiedAll = true → ∀ i, ¬ s.Blocked i
  work : s.stop_ = false → s.tasks_ ≠ 0 → (∀ k, s.callers k ≠ .notifying) → ∃ i, ¬ s.Blocked i

/-! ## The mutex -/

/-- Who is in a critical section owns the mutex. -/
structure Held (s : WaitPool n κ) : Prop where
  worker : ∀ i, (s.workers_ i).holds = true → s.mutex_ = some (.inl i)
  caller : ∀ k, (s.callers k).holds = true → s.mutex_ = some (.inr k)

theorem Held.not_refused {s : WaitPool n κ} (h : s.Held) {k : κ} (hk : (s.callers k).holds = true) (i : Fin n) :
    s.workers_ i ≠ .refused := by
  intro hi
  have hown := h.worker i (by rw [hi]; rfl)
  rw [h.caller k hk] at hown
  cases hown

/-- One worker moves, and the mutex is as it was, or was its own to take or to give back. -/
theorem Held.move_worker {s s' : WaitPool n κ} (h : s.Held) {i : Fin n} {pc : WaiterPc}
    (hw : s'.workers_ = Function.update s.workers_ i pc) (hc : s'.callers = s.callers)
    (hself : pc.holds = true → s'.mutex_ = some (.inl i))
    (hm : s'.mutex_ = s.mutex_ ∨ s.mutex_ = none ∨ s.mutex_ = some (.inl i)) : s'.Held := by
  constructor
  · intro j hj
    rw [hw] at hj
    by_cases hij : j = i
    · subst hij
      exact hself (by simpa using hj)
    · rw [Function.update_of_ne hij] at hj
      have hown := h.worker j hj
      rcases hm with hm | hm | hm
      · rw [hm, hown]
      · rw [hm] at hown; cases hown
      · rw [hm] at hown
        exact absurd (Sum.inl.inj (Option.some.inj hown)).symm hij
  · intro k hk
    rw [hc] at hk
    have hown := h.caller k hk
    rcases hm with hm | hm | hm
    · rw [hm, hown]
    · rw [hm] at hown; cases hown
    · rw [hm] at hown; cases hown

theorem Held.move_caller [DecidableEq κ] {s s' : WaitPool n κ} (h : s.Held) {k : κ} {pc : CallerPc}
    (hc : s'.callers = Function.update s.callers k pc) (hw : s'.workers_ = s.workers_)
    (hself : pc.holds = true → s'.mutex_ = some (.inr k))
    (hm : s'.mutex_ = s.mutex_ ∨ s.mutex_ = none ∨ s.mutex_ = some (.inr k)) : s'.Held := by
  constructor
  · intro i hi
    rw [hw] at hi
    have hown := h.worker i hi
    rcases hm with hm | hm | hm
    · rw [hm, hown]
    · rw [hm] at hown; cases hown
    · rw [hm] at hown; cases hown
  · intro l hl
    rw [hc] at hl
    by_cases hkl : l = k
    · subst hkl
      exact hself (by simpa using hl)
    · rw [Function.update_of_ne hkl] at hl
      have hown := h.caller l hl
      rcases hm with hm | hm | hm
      · rw [hm, hown]
      · rw [hm] at hown; cases hown
      · rw [hm] at hown
        exact absurd (Sum.inr.inj (Option.some.inj hown)).symm hkl

theorem take_workers (s : WaitPool n κ) (i : Fin n) :
    ∃ pc, pc.holds = false ∧ pc ≠ .refused ∧ pc ≠ .passed ∧ pc ≠ .waiting ∧
      (s.take i).workers_ = Function.update s.workers_ i pc := by
  unfold take
  by_cases h : (s.stop_ && s.tasks_ == 0) = true
  · rw [if_pos h]
    exact ⟨.returned, rfl, WaiterPc.noConfusion, WaiterPc.noConfusion, WaiterPc.noConfusion, rfl⟩
  · rw [if_neg h]
    exact ⟨.running, rfl, WaiterPc.noConfusion, WaiterPc.noConfusion, WaiterPc.noConfusion, rfl⟩

theorem take_tasks (s : WaitPool n κ) (i : Fin n) (h : (s.take i).tasks_ ≠ 0) : s.tasks_ ≠ 0 := by
  unfold take at h
  split at h
  · exact h
  · intro hz
    exact h (by simp [hz])

theorem take_callers (s : WaitPool n κ) (i : Fin n) : (s.take i).callers = s.callers := by
  unfold take
  split <;> rfl

/-- **One step keeps the mutex with whoever is in a critical section.** -/
theorem Held.step [DecidableEq κ] {s s' : WaitPool n κ} {a : WaitAct n κ} (h : s.Held) (hs : WaitAct.Step s a s') :
    s'.Held := by
  cases hs with
  | lock _ hfree => exact h.move_worker rfl rfl (fun _ => rfl) (.inr (.inl hfree))
  | @test i hi =>
    have hown := h.worker i (by rw [hi]; rfl)
    exact h.move_worker rfl rfl (fun _ => hown) (.inl rfl)
  | @block i hi =>
    have hown := h.worker i (by rw [hi]; rfl)
    exact h.move_worker rfl rfl (fun hf => Bool.noConfusion hf) (.inr (.inr hown))
  | spurious _ => exact ⟨h.worker, h.caller⟩
  | relock _ _ hfree => exact h.move_worker rfl rfl (fun _ => rfl) (.inr (.inl hfree))
  | @take i hi =>
    have hown := h.worker i (by rw [hi]; rfl)
    obtain ⟨pc, hpc, -, -, -, hw⟩ := take_workers s i
    refine h.move_worker hw (take_callers s i) (fun hf => ?_) (.inr (.inr hown))
    rw [hpc] at hf
    cases hf
  | finish _ => exact h.move_worker rfl rfl (fun hf => Bool.noConfusion hf) (.inl rfl)
  | enqueueLock _ hfree => exact h.move_caller rfl rfl (fun _ => rfl) (.inr (.inl hfree))
  | @enqueueUnlock k hk =>
    have hown := h.caller k (by rw [hk]; rfl)
    exact h.move_caller rfl rfl (fun hf => Bool.noConfusion hf) (.inr (.inr hown))
  | notifyOne _ _ => exact h.move_caller rfl rfl (fun hf => Bool.noConfusion hf) (.inl rfl)
  | stopLock _ hfree => exact h.move_caller rfl rfl (fun _ => rfl) (.inr (.inl hfree))
  | @stopSet k hk =>
    have hown := h.caller k (by rw [hk]; rfl)
    exact h.move_caller rfl rfl (fun _ => hown) (.inl rfl)
  | @notifyAll k hk =>
    have hown := h.caller k (by rw [hk]; rfl)
    exact h.move_caller rfl rfl (fun _ => hown) (.inl rfl)
  | @stopUnlock k hk =>
    have hown := h.caller k (by rw [hk]; rfl)
    exact h.move_caller rfl rfl (fun hf => Bool.noConfusion hf) (.inr (.inr hown))

/-! ## The notifications -/

/-- A worker that is about to block has found nothing to do; what is in the queue was announced to a worker that is
not blocked, or is still to be announced. -/
structure Announced (s : WaitPool n κ) : Prop where
  refused : ∀ i, s.workers_ i = .refused → s.predicate = false
  set : ∀ k, s.callers k = .stopped → s.stop_ = true
  stopped : s.notifiedAll = true → s.stop_ = true ∧ ∀ i, s.cv_ i = false
  work : s.stop_ = false → s.tasks_ ≠ 0 → (∃ k, s.callers k = .notifying) ∨ ∃ i, s.cv_ i = false

theorem refused_of_move {s : WaitPool n κ} {i j : Fin n} {pc : WaiterPc} (hpc : pc ≠ .refused)
    (hj : Function.update s.workers_ i pc j = .refused) : s.workers_ j = .refused := by
  by_cases hij : j = i
  · subst hij
    exact absurd (by simpa using hj) hpc
  · rwa [Function.update_of_ne hij] at hj

section Step

variable [DecidableEq κ] {s s' : WaitPool n κ} {a : WaitAct n κ}

theorem Announced.step_refused (h : s.Announced) (hm : s.Held) (hs : WaitAct.Step s a s') (j : Fin n)
    (hj : s'.workers_ j = .refused) : s'.predicate = false := by
  cases hs with
  | lock _ _ => exact h.refused j (refused_of_move WaiterPc.noConfusion hj)
  | @test i hi =>
    by_cases hp : s.predicate = true
    · rw [if_pos hp] at hj
      exact h.refused j (refused_of_move WaiterPc.noConfusion hj)
    · exact Bool.eq_false_iff.2 hp
  | block _ => exact h.refused j (refused_of_move WaiterPc.noConfusion hj)
  | spurious _ => exact h.refused j hj
  | relock _ _ _ => exact h.refused j (refused_of_move WaiterPc.noConfusion hj)
  | @take i hi =>
    -- the two would own the mutex both
    obtain ⟨pc, -, hne, -, -, hw⟩ := take_workers s i
    rw [hw] at hj
    have hj' := refused_of_move hne hj
    have hown := hm.worker j (by rw [hj']; rfl)
    rw [hm.worker i (by rw [hi]; rfl)] at hown
    have hij : i = j := Sum.inl.inj (Option.some.inj hown)
    rw [← hij, hi] at hj'
    cases hj'
  | finish _ => exact h.refused j (refused_of_move WaiterPc.noConfusion hj)
  | enqueueLock _ _ => exact h.refused j hj
  | @enqueueUnlock k hk => exact absurd hj (hm.not_refused (by rw [hk]; rfl) j)
  | notifyOne _ _ => exact h.refused j hj
  | stopLock _ _ => exact h.refused j hj
  | @stopSet k hk => exact absurd hj (hm.not_refused (by rw [hk]; rfl) j)
  | notifyAll _ => exact h.refused j hj
  | stopUnlock _ => exact h.refused j hj

/-- **A worker blocks only when it found nothing to do**, so no other step takes a worker's notification away. -/
theorem cv_of_step (hr : ∀ i, s.workers_ i = .refused → s.predicate = false) (hs : WaitAct.Step s a s') :
    s.predicate = false ∨ ∀ i, s.cv_ i = false → s'.cv_ i = false := by
  cases hs with
  | block hi => exact .inl (hr _ hi)
  | spurious _ => exact .inr (fun j hj => Bool.eq_false_iff.2 (fun hc => by simp [s.cv_.wake_le _ j hc] at hj))
  | notifyOne _ hc => exact .inr (fun j hj => Bool.eq_false_iff.2 (fun hc' => by simp [hc.le j hc'] at hj))
  | notifyAll _ => exact .inr (fun _ _ => rfl)
  | take hi =>
    refine .inr (fun j hj => ?_)
    unfold WaitPool.take
    split <;> exact hj
  | _ => exact .inr (fun _ hj => hj)

theorem stop_of_step (hs : WaitAct.Step s a s') (h : s.stop_ = true) : s'.stop_ = true := by
  cases hs with
  | stopSet _ => rfl
  | take _ =>
    unfold WaitPool.take
    split <;> exact h
  | _ => exact h

/-- **A caller that is to notify is left so by every step but its own**, which unblocks a worker if all are blocked. -/
theorem notifying_of_step [Nonempty (Fin n)] (hs : WaitAct.Step s a s') {k : κ} (hk : s.callers k = .notifying) :
    s'.callers k = .notifying ∨ ∃ i, s'.cv_ i = false := by
  have hother : ∀ {l : κ} {pc : CallerPc}, s.callers l ≠ .notifying →
      Function.update s.callers l pc k = .notifying := by
    intro l pc hl
    have hne : k ≠ l := by
      rintro rfl
      exact hl hk
    rw [Function.update_of_ne hne, hk]
  cases hs with
  | enqueueLock hl _ => exact .inl (hother (by simp [hl]))
  | enqueueUnlock hl => exact .inl (hother (by simp [hl]))
  | notifyOne _ hc => exact .inr hc.exists_awake
  | stopLock hl _ => exact .inl (hother (by simp [hl]))
  | stopSet hl => exact .inl (hother (by simp [hl]))
  | notifyAll hl => exact .inl (hother (by simp [hl]))
  | stopUnlock hl => exact .inl (hother (by simp [hl]))
  | @take i _ => exact .inl ((congrFun (take_callers s i) k).trans hk)
  | _ => exact .inl hk

/-- **A task comes into the queue only by a caller that is still to notify.** -/
theorem tasks_of_step (hs : WaitAct.Step s a s') (h : s'.tasks_ ≠ 0) :
    s.tasks_ ≠ 0 ∨ ∃ k, s'.callers k = .notifying := by
  cases hs with
  | @enqueueUnlock k _ => exact .inr ⟨k, Function.update_self ..⟩
  | take _ => exact .inl (take_tasks s _ h)
  | _ => exact .inl h

theorem Announced.step_set (h : s.Announced) (hs : WaitAct.Step s a s') (k : κ) (hk : s'.callers k = .stopped) :
    s'.stop_ = true := by
  have hother : ∀ {l : κ} {pc : CallerPc}, pc ≠ .stopped → Function.update s.callers l pc k = .stopped →
      s.stop_ = true := by
    intro l pc hpc hk
    by_cases hl : k = l
    · subst hl
      exact absurd (by simpa using hk) hpc
    · exact h.set k (by rwa [Function.update_of_ne hl] at hk)
  cases hs with
  | enqueueLock _ _ => exact hother CallerPc.noConfusion hk
  | enqueueUnlock _ => exact hother CallerPc.noConfusion hk
  | notifyOne _ _ => exact hother CallerPc.noConfusion hk
  | stopLock _ _ => exact hother CallerPc.noConfusion hk
  | stopSet _ => rfl
  | notifyAll _ => exact hother CallerPc.noConfusion hk
  | stopUnlock _ => exact hother CallerPc.noConfusion hk
  | @take i hi =>
    rw [take_callers] at hk
    exact stop_of_step (.take hi) (h.set k hk)
  | _ => exact h.set k hk

theorem Announced.step_stopped (h : s.Announced) (hs : WaitAct.Step s a s') (hn : s'.notifiedAll = true) :
    s'.stop_ = true ∧ ∀ i, s'.cv_ i = false := by
  by_cases hall : s.notifiedAll = true
  · obtain ⟨hstop, hcv⟩ := h.stopped hall
    refine ⟨stop_of_step hs hstop, fun i => ?_⟩
    rcases cv_of_step h.refused hs with hp | hkeep
    · simp [predicate, hstop] at hp
    · exact hkeep i (hcv i)
  · cases hs with
    | notifyAll hk => exact ⟨h.set _ hk, fun _ => rfl⟩
    | take _ =>
      refine absurd ?_ hall
      unfold WaitPool.take at hn
      split at hn <;> exact hn
    | _ => exact absurd hn hall

theorem Announced.step_work [Nonempty (Fin n)] (h : s.Announced) (hs : WaitAct.Step s a s') (hstop : s'.stop_ = false)
    (htasks : s'.tasks_ ≠ 0) : (∃ k, s'.callers k = .notifying) ∨ ∃ i, s'.cv_ i = false := by
  have hstop' : s.stop_ = false := Bool.eq_false_iff.2 (fun ht => by simp [stop_of_step hs ht] at hstop)
  rcases tasks_of_step hs htasks with htasks' | hk
  · rcases h.work hstop' htasks' with ⟨k, hk⟩ | ⟨i, hi⟩
    · rcases notifying_of_step hs hk with hk' | hi
      · exact .inl ⟨k, hk'⟩
      · exact .inr hi
    · -- nobody blocks while there is a task
      rcases cv_of_step h.refused hs with hp | hkeep
      · simp [predicate, htasks'] at hp
      · exact .inr ⟨i, hkeep i hi⟩
  · exact .inl hk

theorem Announced.step [Nonempty (Fin n)] (h : s.Announced) (hm : s.Held) (hs : WaitAct.Step s a s') : s'.Announced :=
  ⟨h.step_refused hm hs, h.step_set hs, h.step_stopped hs, h.step_work hs⟩

end Step

theorem held_init : (init : WaitPool n κ).Held where
  worker _ h := by cases h
  caller _ h := by cases h

theorem announced_init : (init : WaitPool n κ).Announced where
  refused _ h := by cases h
  set _ h := by cases h
  stopped h := by cases h
  work _ h := absurd rfl h

theorem Announced.sleepless {s : WaitPool n κ} (h : s.Announced) : s.Sleepless := by
  constructor
  · rintro _ hall i ⟨-, hi⟩
    rw [(h.stopped hall).2 i] at hi
    cases hi
  · intro hstop htasks hquiet
    rcases h.work hstop htasks with ⟨k, hk⟩ | ⟨i, hi⟩
    · exact absurd hk (hquiet k)
    · refine ⟨i, ?_⟩
      rintro ⟨-, hb⟩
      rw [hi] at hb
      cases hb

/-- **The thread pool never sleeps on work**, in any state of any run of its workers and of the threads that call
`enqueue` and `stop`. -/
theorem sleepless_of_run [DecidableEq κ] (hn : 1 ≤ n) {s : WaitPool n κ} {as : List (WaitAct n κ)}
    (h : Trans.Run WaitAct.Step Trans.free init as s) : s.Sleepless := by
  have : Nonempty (Fin n) := ⟨⟨0, hn⟩⟩
  have hinv : s.Held ∧ s.Announced :=
    h.invariant (P := fun s => s.Held ∧ s.Announced) ⟨held_init, announced_init⟩
      (fun _ _ _ hp _ hs => ⟨hp.1.step hs, hp.2.step hp.1 hs⟩)
  exact hinv.2.sleepless

/-- The one worker blocks, and a task is enqueued and announced to it. -/
theorem sleepless_of_enqueue : ∃ s : WaitPool 1 Unit, s.tasks_ = 1 ∧ s.stop_ = false ∧
    (∀ k, s.callers k ≠ .notifying) ∧ s.Sleepless := by
  let s₁ : WaitPool 1 Unit := { init.worker 0 .testing with mutex_ := some (.inl 0) }
  let s₂ := s₁.worker 0 .refused
  let s₃ := { s₂.worker 0 .waiting with mutex_ := none, cv_ := s₂.cv_.block 0 }
  let s₄ := { s₃.caller () .enqueuing with mutex_ := some (.inr ()) }
  let s₅ := { s₄.caller () .notifying with mutex_ := none, tasks_ := s₄.tasks_ + 1 }
  let s₆ := { s₅.caller () .idle with cv_ := s₅.cv_.wake 0 }
  have h₁ : WaitAct.Step init (.lock 0) s₁ := .lock rfl rfl
  have h₂ : WaitAct.Step s₁ (.test 0) s₂ := .test (by simp [s₁])
  have h₃ : WaitAct.Step s₂ (.block 0) s₃ := .block (by simp [s₂])
  have h₄ : WaitAct.Step s₃ (.enqueueLock ()) s₄ := .enqueueLock rfl rfl
  have h₅ : WaitAct.Step s₄ (.enqueueUnlock ()) s₅ := .enqueueUnlock (by simp [s₄])
  have h₆ : WaitAct.Step s₅ (.notifyOne ()) s₆ := .notifyOne (by simp [s₅]) (.one (s₂.cv_.block_self 0))
  have hblocked : Trans.Run WaitAct.Step Trans.free init _ s₃ :=
    ((Trans.Run.single trivial h₁).snoc trivial h₂).snoc trivial h₃
  have hrun := ((hblocked.snoc trivial h₄).snoc trivial h₅).snoc trivial h₆
  exact ⟨s₆, rfl, rfl, fun _ => by simp [s₆], sleepless_of_run (Nat.le_refl 1) hrun⟩

end WaitPool

end MiniRos2

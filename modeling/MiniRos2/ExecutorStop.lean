import MiniRos2.Lib.CondVar
import MiniRos2.Lib.Trans
/-!
# ExecutorStop — `Executor::stop` and the worker of a `SingleThreadedExecutor`

`stop` clears `running_` and calls `notify_all` without `mtx_`, so both can fall between a worker's test of the
predicate and its block, where nobody is there to be notified; `ThreadPool` has the mutex at both.  The worker is not
left asleep as long as the `notify_all` does not fall there (`not_hung_of_run`), and where it does and no task comes any
more, `join` waits for ever (`hung_of_notify`).
-/
namespace MiniRos2

/-- Where the worker is: at `while (running_)`, before the lock, inside `cv_.wait` before and after a test that failed,
blocked, behind the wait, in a task, or at its end. -/
inductive LoopPc where
  | looping
  | locking
  | testing
  | refused
  | waiting
  | passed
  | running
  | returned
  deriving DecidableEq

/-- Where a thread that calls `add_task` is. -/
inductive AddPc where
  | idle
  | locked
  | pushed
  | notified
  deriving DecidableEq

/-- Where the thread that calls `stop` is: before it, behind the store, behind `notify_all`, behind `join`. -/
inductive HaltPc where
  | idle
  | cleared
  | notified
  | joined
  deriving DecidableEq

def LoopPc.holds : LoopPc → Bool
  | .testing | .refused | .passed => true
  | _ => false

/-- `notify_all` was issued. -/
def HaltPc.announced : HaltPc → Bool
  | .notified | .joined => true
  | _ => false

/-- A started executor whose `add_task` is called by the threads `κ`, for `toCome` more times. -/
structure Execution (κ : Type) where
  mtx_ : Option (Unit ⊕ κ)
  tasks_ : Nat
  running_ : Bool
  cv_ : CondVar.Waiters Unit
  worker_ : LoopPc
  callers : κ → AddPc
  stop_ : HaltPc
  toCome : Nat

inductive ExecAct (κ : Type) where
  | loop
  | lock
  | test
  | block
  | spurious
  | relock
  | take
  | finish
  | addLock (k : κ)
  | addPush (k : κ)
  | addNotify (k : κ)
  | addUnlock (k : κ)
  | stopClear
  | stopNotify
  | stopJoin

variable {κ : Type}

namespace Execution

/-- After `start`. -/
def started (toCome : Nat) : Execution κ := ⟨none, 0, true, CondVar.none, .looping, fun _ => .idle, .idle, toCome⟩

/-- The predicate of `cv_.wait`. -/
def predicate (s : Execution κ) : Bool := !s.running_ || s.tasks_ != 0

def caller [DecidableEq κ] (s : Execution κ) (k : κ) (pc : AddPc) : Execution κ :=
  { s with callers := Function.update s.callers k pc }

/-- The worker's body behind the wait. -/
def take (s : Execution κ) : Execution κ :=
  if s.running_ then { s with worker_ := .running, mtx_ := none, tasks_ := s.tasks_ - 1 }
  else { s with worker_ := .returned, mtx_ := none }

end Execution

open Execution

/-- **One step of the worker, of a caller or of `stop`.** -/
inductive ExecAct.Step [DecidableEq κ] (s : Execution κ) : ExecAct κ → Execution κ → Prop where
  | loop : s.worker_ = .looping → Step s .loop { s with worker_ := if s.running_ then .locking else .returned }
  | lock : s.worker_ = .locking → s.mtx_ = none → Step s .lock { s with worker_ := .testing, mtx_ := some (.inl ()) }
  | test : s.worker_ = .testing → Step s .test { s with worker_ := if s.predicate then .passed else .refused }
  | block : s.worker_ = .refused →
      Step s .block { s with worker_ := .waiting, mtx_ := none, cv_ := s.cv_.block () }
  | spurious : s.worker_ = .waiting → Step s .spurious { s with cv_ := s.cv_.wake () }
  | relock : s.worker_ = .waiting → s.cv_ () = false → s.mtx_ = none →
      Step s .relock { s with worker_ := .testing, mtx_ := some (.inl ()) }
  | take : s.worker_ = .passed → Step s .take s.take
  | finish : s.worker_ = .running → Step s .finish { s with worker_ := .looping }
  | addLock {k : κ} {n : Nat} : s.callers k = .idle → s.toCome = n + 1 → s.mtx_ = none →
      Step s (.addLock k) { s.caller k .locked with mtx_ := some (.inr k), toCome := n }
  | addPush {k : κ} : s.callers k = .locked → Step s (.addPush k) { s.caller k .pushed with tasks_ := s.tasks_ + 1 }
  | addNotify {k : κ} {c : CondVar.Waiters Unit} : s.callers k = .pushed → s.cv_.NotifyOne c →
      Step s (.addNotify k) { s.caller k .notified with cv_ := c }
  | addUnlock {k : κ} : s.callers k = .notified → Step s (.addUnlock k) { s.caller k .idle with mtx_ := none }
  | stopClear : s.stop_ = .idle → Step s .stopClear { s with stop_ := .cleared, running_ := false }
  | stopNotify : s.stop_ = .cleared → Step s .stopNotify { s with stop_ := .notified, cv_ := CondVar.none }
  | stopJoin : s.stop_ = .notified → s.worker_ = .returned → Step s .stopJoin { s with stop_ := .joined }

namespace Execution

/-- **`join` waits for ever**: `running_` is false and announced, the worker is blocked, no notification is pending for
it, and no `add_task` is under way or to come. -/
structure Hung (s : Execution κ) : Prop where
  cleared : s.running_ = false
  announced : s.stop_.announced = true
  waiting : s.worker_ = .waiting
  blocked : s.cv_ () = true
  idle : ∀ k, s.callers k = .idle
  noMore : s.toCome = 0

/-- **The `notify_all` of `stop` does not fall between a test that failed and the block.** -/
def NotifiesBlocked (s : Execution κ) : ExecAct κ → Prop
  | .stopNotify => s.worker_ ≠ .refused
  | _ => True

/-- What `stop` has said was heard: behind its `notify_all` the worker is not about to block, nor blocked. -/
structure Heard (s : Execution κ) : Prop where
  cleared : s.stop_ ≠ .idle → s.running_ = false
  refused : s.stop_.announced = true → s.worker_ ≠ .refused
  awake : s.stop_.announced = true → s.cv_ () = false

theorem heard_started (n : Nat) : (started n : Execution κ).Heard := by
  constructor
  · exact fun h => absurd rfl h
  · exact fun h => Bool.noConfusion h
  · exact fun _ => rfl

theorem Heard.not_hung {s : Execution κ} (h : s.Heard) : ¬ s.Hung := by
  intro hh
  have hawake := h.awake hh.announced
  rw [hh.blocked] at hawake
  cases hawake

theorem ne_idle_of_announced {pc : HaltPc} (h : pc.announced = true) : pc ≠ .idle := by
  rintro rfl
  cases h

section Step

variable [DecidableEq κ] {s s' : Execution κ} {a : ExecAct κ}

theorem cleared_of_step (h : s.stop_ ≠ .idle → s.running_ = false) (hs : ExecAct.Step s a s') :
    s'.stop_ ≠ .idle → s'.running_ = false := by
  cases hs with
  | take _ =>
    unfold Execution.take
    split <;> exact h
  | stopClear _ => exact fun _ => rfl
  | stopNotify hc => exact fun _ => h (by rw [hc]; exact HaltPc.noConfusion)
  | stopJoin hc _ => exact fun _ => h (by rw [hc]; exact HaltPc.noConfusion)
  | _ => exact h

theorem Heard.step (h : s.Heard) (hg : s.NotifiesBlocked a) (hs : ExecAct.Step s a s') : s'.Heard := by
  obtain ⟨hcleared, hrefused, hawake⟩ := h
  have hcleared' := cleared_of_step hcleared hs
  cases hs with
  | loop _ =>
    refine ⟨hcleared', fun _ => ?_, hawake⟩
    show (if s.running_ = true then LoopPc.locking else .returned) ≠ .refused
    split <;> exact LoopPc.noConfusion
  | test _ =>
    refine ⟨hcleared', fun hann => ?_, hawake⟩
    have hpred : s.predicate = true := by
      unfold predicate
      rw [hcleared (ne_idle_of_announced hann)]
      rfl
    show (if s.predicate = true then LoopPc.passed else .refused) ≠ .refused
    rw [if_pos hpred]
    exact LoopPc.noConfusion
  | block hw => exact ⟨hcleared', fun _ => LoopPc.noConfusion, fun hann => absurd hw (hrefused hann)⟩
  | spurious _ => exact ⟨hcleared', hrefused, fun _ => s.cv_.wake_self ()⟩
  | take _ =>
    refine ⟨hcleared', ?_, ?_⟩
    · unfold Execution.take
      split <;> exact fun _ => LoopPc.noConfusion
    · unfold Execution.take
      split <;> exact hawake
  | lock _ _ | relock _ _ _ | finish _ => exact ⟨hcleared', fun _ => LoopPc.noConfusion, hawake⟩
  | addNotify _ hc =>
    refine ⟨hcleared', hrefused, fun hann => Bool.eq_false_iff.2 fun hblocked => ?_⟩
    have hblocked := hc.le () hblocked
    rw [hawake hann] at hblocked
    cases hblocked
  | addLock _ _ _ | addPush _ | addUnlock _ => exact ⟨hcleared', hrefused, hawake⟩
  | stopClear _ => exact ⟨hcleared', fun hann => Bool.noConfusion hann, fun hann => Bool.noConfusion hann⟩
  | stopNotify _ => exact ⟨hcleared', fun _ => hg, fun _ => rfl⟩
  | stopJoin hc _ =>
    have hann : s.stop_.announced = true := by rw [hc]; rfl
    exact ⟨hcleared', fun _ => hrefused hann, fun _ => hawake hann⟩

/-- **`stop` never hangs** in a run whose `notify_all` does not fall between a test of the predicate that failed and the
block. -/
theorem not_hung_of_run {n : Nat} {as : List (ExecAct κ)}
    (hrun : Trans.Run ExecAct.Step NotifiesBlocked (started n) as s) : ¬ s.Hung :=
  (hrun.invariant (P := Heard) (heard_started n) (fun _ _ _ h hg hs => h.step hg hs)).not_hung

/-- **A hang is for good**: only a wake-up without a reason ends it. -/
theorem Hung.only_spurious (h : s.Hung) (hs : ExecAct.Step s a s') : a = .spurious := by
  obtain ⟨-, hann, hwaiting, hblocked, hidle, hnone⟩ := h
  have hworker : ∀ {pc}, s.worker_ = pc → pc = .waiting := fun h => by rw [← h, hwaiting]
  have hcaller : ∀ {k pc}, s.callers k = pc → pc = .idle := fun h => by rw [← h, hidle]
  have hstop : ∀ {pc}, s.stop_ = pc → pc.announced = true := fun h => by rw [← h, hann]
  cases hs with
  | spurious _ => rfl
  | relock _ hawake _ =>
    rw [hblocked] at hawake
    cases hawake
  | addLock _ hcome _ =>
    rw [hnone] at hcome
    cases hcome
  | loop h | lock h _ | test h | block h | take h | finish h => cases hworker h
  | addPush h | addNotify h _ | addUnlock h => cases hcaller h
  | stopClear h | stopNotify h => cases hstop h
  | stopJoin _ h => cases hworker h

/-! ## The hang -/

/-- Who is in a critical section owns the mutex. -/
structure Held (s : Execution κ) : Prop where
  worker : s.worker_.holds = true → s.mtx_ = some (.inl ())
  caller : ∀ k, s.callers k ≠ .idle → s.mtx_ = some (.inr k)

omit [DecidableEq κ] in
theorem held_started (n : Nat) : (started n : Execution κ).Held :=
  ⟨fun h => Bool.noConfusion h, fun _ h => absurd rfl h⟩

omit [DecidableEq κ] in
theorem Held.move_worker (h : s.Held) (hc : s'.callers = s.callers) (hself : s'.worker_.holds = true →
    s'.mtx_ = some (.inl ())) (hm : s'.mtx_ = s.mtx_ ∨ s.mtx_ = none ∨ s.mtx_ = some (.inl ())) : s'.Held := by
  refine ⟨hself, fun k hk => ?_⟩
  rw [hc] at hk
  have hown := h.caller k hk
  rcases hm with hm | hm | hm
  · rw [hm, hown]
  · rw [hm] at hown; cases hown
  · rw [hm] at hown; cases hown

theorem Held.move_caller (h : s.Held) {k : κ} {pc : AddPc} (hw : s'.worker_ = s.worker_)
    (hc : s'.callers = Function.update s.callers k pc) (hm : s.mtx_ = none ∨ s.mtx_ = some (.inr k))
    (hself : pc ≠ .idle → s'.mtx_ = some (.inr k)) : s'.Held := by
  constructor
  · intro hi
    rw [hw] at hi
    have hown := h.worker hi
    rcases hm with hm | hm
    · rw [hm] at hown; cases hown
    · rw [hm] at hown; cases hown
  · intro l hl
    rw [hc] at hl
    by_cases hkl : l = k
    · subst hkl
      exact hself (by simpa using hl)
    · rw [Function.update_of_ne hkl] at hl
      have hown := h.caller l hl
      rcases hm with hm | hm
      · rw [hm] at hown; cases hown
      · rw [hm] at hown
        exact absurd (Sum.inr.inj (Option.some.inj hown)).symm hkl

theorem Held.step (h : s.Held) (hs : ExecAct.Step s a s') : s'.Held := by
  have hworker : ∀ {pc : LoopPc}, s.worker_ = pc → pc.holds = true → s.mtx_ = some (.inl ()) := by
    rintro pc rfl hpc
    exact h.worker hpc
  have hcaller : ∀ {k : κ} {pc : AddPc}, s.callers k = pc → pc ≠ .idle → s.mtx_ = some (.inr k) := by
    rintro k pc rfl hpc
    exact h.caller k hpc
  cases hs with
  | loop _ =>
    refine h.move_worker rfl (fun hpc => ?_) (.inl rfl)
    cases hr : s.running_ <;> simp [hr, LoopPc.holds] at hpc
  | lock _ hfree | relock _ _ hfree => exact h.move_worker rfl (fun _ => rfl) (.inr (.inl hfree))
  | test hw => exact h.move_worker rfl (fun _ => hworker hw rfl) (.inl rfl)
  | block hw => exact h.move_worker rfl (fun hpc => Bool.noConfusion hpc) (.inr (.inr (hworker hw rfl)))
  | take hw =>
    unfold Execution.take
    split
    · exact h.move_worker rfl (fun hpc => Bool.noConfusion hpc) (.inr (.inr (hworker hw rfl)))
    · exact h.move_worker rfl (fun hpc => Bool.noConfusion hpc) (.inr (.inr (hworker hw rfl)))
  | finish _ => exact h.move_worker rfl (fun hpc => Bool.noConfusion hpc) (.inl rfl)
  | spurious _ | stopClear _ | stopNotify _ | stopJoin _ _ => exact ⟨h.worker, h.caller⟩
  | addLock _ _ hfree => exact h.move_caller rfl rfl (.inl hfree) (fun _ => rfl)
  | addPush hk =>
    have hown := hcaller hk AddPc.noConfusion
    exact h.move_caller rfl rfl (.inr hown) (fun _ => hown)
  | addNotify hk _ =>
    have hown := hcaller hk AddPc.noConfusion
    exact h.move_caller rfl rfl (.inr hown) (fun _ => hown)
  | addUnlock hk => exact h.move_caller rfl rfl (.inr (hcaller hk AddPc.noConfusion)) (fun hpc => absurd rfl hpc)

/-- **A `notify_all` that falls there hangs**, when no task comes any more: the worker blocks behind it. -/
theorem hung_of_notify {n : Nat} {as : List (ExecAct κ)}
    (hrun : Trans.Run ExecAct.Step Trans.free (started n) as s) (hs : ExecAct.Step s .stopNotify s')
    (hg : ¬ s.NotifiesBlocked .stopNotify) (hnone : s.toCome = 0) :
    ∃ s'', ExecAct.Step s' .block s'' ∧ s''.Hung := by
  have hheld : s.Held := hrun.invariant (held_started n) (fun _ _ _ h _ hs => h.step hs)
  have hrefused : s.worker_ = .refused := not_not.1 hg
  have hown := hheld.worker (by rw [hrefused]; rfl)
  have hidle : ∀ k, s.callers k = .idle := by
    intro k
    by_contra hk
    have hother := hheld.caller k hk
    rw [hown] at hother
    cases hother
  cases hs with
  | stopNotify hc =>
    have hcleared := hrun.invariant (P := fun s => s.stop_ ≠ .idle → s.running_ = false) (fun h => absurd rfl h)
      (fun _ _ _ h _ hs => cleared_of_step h hs)
    have hrunning := hcleared (by rw [hc]; exact HaltPc.noConfusion)
    exact ⟨_, .block hrefused, hrunning, rfl, rfl, rfl, hidle, hnone⟩

end Step

/-- The worker is blocked before `stop` begins. -/
theorem not_hung_of_blocked : ∃ s : Execution Unit, s.stop_ = .notified ∧ ¬ s.Hung := by
  have hrun : Trans.Run ExecAct.Step NotifiesBlocked (started 0 : Execution Unit) _ _ :=
    (((((Trans.Run.single trivial (.loop rfl)).snoc trivial (.lock rfl rfl)).snoc trivial (.test rfl)).snoc trivial
      (.block rfl)).snoc trivial (.stopClear rfl)).snoc (by exact LoopPc.noConfusion) (.stopNotify rfl)
  exact ⟨_, rfl, not_hung_of_run hrun⟩

/-- `stop` falls between the test and the block. -/
theorem not_hung_not_always : ¬ ∀ (n : Nat) (as : List (ExecAct Unit)) (s : Execution Unit),
    Trans.Run ExecAct.Step Trans.free (started n) as s → ¬ s.Hung := by
  intro h
  have hrun : Trans.Run ExecAct.Step Trans.free (started 0 : Execution Unit) _ _ :=
    (((((Trans.Run.single trivial (.loop rfl)).snoc trivial (.lock rfl rfl)).snoc trivial (.test rfl)).snoc trivial
      (.stopClear rfl)).snoc trivial (.stopNotify rfl)).snoc trivial (.block rfl)
  exact h _ _ _ hrun ⟨rfl, rfl, rfl, rfl, fun _ => rfl, rfl⟩

end Execution

end MiniRos2

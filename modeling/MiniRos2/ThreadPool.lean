import MiniRos2.Lib.Trans
import Mathlib.Data.List.Range
import Mathlib.Data.List.Nodup
import Mathlib.Data.Fintype.Basic
/-!
# ThreadPool — what becomes of a task

The pool never looks into a task, so a task is known here by the number it was accepted under.  `started` has the tasks
in the order in which workers took them from the queue, `finished` in the order in which they returned.  A worker
leaves its loop only when it finds the queue empty and `stop_` set; since it is one of the workers that `stop` joins,
every task that was accepted before `stop_` was set has returned when `stop` does (`drains_of_run`).
-/
namespace MiniRos2

/-- Where a worker's loop is: about to lock `mutex_`, in `cv_.wait`, in a task, or behind its `return`. -/
inductive WorkerPc where
  | ready
  | waiting
  | running (task : Nat)
  | returned
  deriving DecidableEq

/-- Where the one call of `stop` is: `joining i` is about to join worker `i`. -/
inductive StopPc where
  | before
  | joining (i : Nat)
  | returned
  deriving DecidableEq

structure ThreadPool (n : Nat) where
  tasks_ : List Nat
  stop_ : Bool
  workers_ : Fin n → WorkerPc
  stopper : StopPc
  accepted : Nat
  acceptedAtStop : Nat
  started : List Nat
  finished : List Nat

inductive PoolAct (n : Nat) where
  | enqueue
  | lock (i : Fin n)
  | wake (i : Fin n)
  | finish (i : Fin n)
  | stop
  | join

variable {n : Nat}

namespace ThreadPool

def init : ThreadPool n := ⟨[], false, fun _ => .ready, .before, 0, 0, [], []⟩

/-- The critical section of `enqueue`, which any thread may call, a task included. -/
def enqueue (s : ThreadPool n) : ThreadPool n :=
  { s with tasks_ := s.tasks_ ++ [s.accepted], accepted := s.accepted + 1 }

/-- The critical section of worker `i`: it takes a task, returns, or waits. -/
def lock (s : ThreadPool n) (i : Fin n) : ThreadPool n :=
  match s.tasks_ with
  | task :: tasks =>
    { s with tasks_ := tasks, workers_ := Function.update s.workers_ i (.running task), started := s.started ++ [task] }
  | [] => { s with workers_ := Function.update s.workers_ i (if s.stop_ then .returned else .waiting) }

/-- A worker that waits was notified, or wakes without a reason. -/
def wake (s : ThreadPool n) (i : Fin n) : ThreadPool n :=
  { s with workers_ := Function.update s.workers_ i .ready }

def finish (s : ThreadPool n) (i : Fin n) (task : Nat) : ThreadPool n :=
  { s with workers_ := Function.update s.workers_ i .ready, finished := s.finished ++ [task] }

def WorkerPc.notified : WorkerPc → WorkerPc
  | .waiting => .ready
  | pc => pc

/-- The critical section of `stop`, with its `notify_all`. -/
def stop (s : ThreadPool n) : ThreadPool n :=
  { s with stop_ := true, workers_ := fun i => WorkerPc.notified (s.workers_ i), stopper := .joining 0,
           acceptedAtStop := s.accepted }

/-- One turn of the loop of joins, or its end. -/
def join (s : ThreadPool n) (i : Nat) : ThreadPool n :=
  { s with stopper := if i < n then .joining (i + 1) else .returned }

end ThreadPool

inductive PoolAct.Step (s : ThreadPool n) : PoolAct n → ThreadPool n → Prop where
  | enqueue : Step s .enqueue s.enqueue
  | lock {i : Fin n} : s.workers_ i = .ready → Step s (.lock i) (s.lock i)
  | wake {i : Fin n} : s.workers_ i = .waiting → Step s (.wake i) (s.wake i)
  | finish {i : Fin n} {task : Nat} : s.workers_ i = .running task → Step s (.finish i) (s.finish i task)
  | stop : s.stopper = .before → Step s .stop s.stop
  | join {i : Nat} : s.stopper = .joining i → (∀ h : i < n, s.workers_ ⟨i, h⟩ = .returned) → Step s .join (s.join i)

namespace ThreadPool

/-- **Tasks are taken in the order in which they were accepted, none is run twice, and when `stop` has returned, every
task that was accepted before `stop_` was set has returned.** -/
structure Drains (s : ThreadPool n) : Prop where
  inOrder : s.started <+: List.range s.accepted
  once : s.started.Nodup ∧ s.finished.Nodup ∧ s.finished ⊆ s.started
  drained : s.stopper = .returned → ∀ task, task < s.acceptedAtStop → task ∈ s.finished

/-! ## The invariant -/

/-- The tasks: each is in the queue, with one worker, or finished. -/
structure Accounted (s : ThreadPool n) : Prop where
  queue : s.started ++ s.tasks_ = List.range s.accepted
  started : ∀ task ∈ s.started, task ∈ s.finished ∨ ∃ i, s.workers_ i = .running task
  running : ∀ i task, s.workers_ i = .running task → task ∈ s.started ∧ task ∉ s.finished
  apart : ∀ i j task, s.workers_ i = .running task → s.workers_ j = .running task → i = j
  finished : s.finished.Nodup ∧ s.finished ⊆ s.started

/-- The stop: a worker that has returned has seen the queue empty after it was set. -/
structure Stopping (s : ThreadPool n) : Prop where
  before : s.stop_ = false ↔ s.stopper = .before
  le : s.acceptedAtStop ≤ s.accepted
  returned : ∀ i, s.workers_ i = .returned → s.stop_ = true ∧ s.acceptedAtStop ≤ s.started.length
  awake : s.stop_ = true → ∀ i, s.workers_ i ≠ .waiting
  joined : ∀ k, s.stopper = .joining k → ∀ i : Fin n, i.val < k → s.workers_ i = .returned
  all : s.stopper = .returned → ∀ i, s.workers_ i = .returned

theorem init_accounted : (init : ThreadPool n).Accounted where
  queue := rfl
  started := fun _ h => absurd h List.not_mem_nil
  running := fun _ _ h => by cases h
  apart := fun _ _ _ h => by cases h
  finished := ⟨List.nodup_nil, List.nil_subset _⟩

theorem init_stopping : (init : ThreadPool n).Stopping where
  before := by simp [init]
  le := Nat.le_refl _
  returned := fun _ h => by cases h
  awake := fun h => by cases h
  joined := fun _ h => by cases h
  all := fun h => by cases h

theorem Accounted.enqueue {s : ThreadPool n} (h : s.Accounted) : s.enqueue.Accounted where
  queue := by
    show s.started ++ (s.tasks_ ++ [s.accepted]) = List.range (s.accepted + 1)
    rw [← List.append_assoc, h.queue, List.range_succ]
  started := h.started
  running := h.running
  apart := h.apart
  finished := h.finished

theorem lock_of_cons {s : ThreadPool n} {task : Nat} {tasks : List Nat} (h : s.tasks_ = task :: tasks) (i : Fin n) :
    s.lock i = { s with tasks_ := tasks, workers_ := Function.update s.workers_ i (.running task),
                        started := s.started ++ [task] } := by
  unfold lock
  rw [h]

theorem lock_of_nil {s : ThreadPool n} (h : s.tasks_ = []) (i : Fin n) :
    s.lock i = { s with workers_ := Function.update s.workers_ i (if s.stop_ then .returned else .waiting) } := by
  unfold lock
  rw [h]

theorem update_eq_running {f : Fin n → WorkerPc} {i j : Fin n} {pc : WorkerPc} {task : Nat}
    (hi : ∀ task, f i ≠ .running task) (hpc : ∀ task, pc ≠ .running task) :
    Function.update f i pc j = .running task ↔ f j = .running task := by
  by_cases hij : j = i
  · subst hij
    simp [hi, hpc]
  · rw [Function.update_of_ne hij]

theorem Accounted.idle {s s' : ThreadPool n} (h : s.Accounted) (htasks : s'.tasks_ = s.tasks_)
    (haccepted : s'.accepted = s.accepted) (hstarted : s'.started = s.started) (hfinished : s'.finished = s.finished)
    (hw : ∀ i task, s'.workers_ i = .running task ↔ s.workers_ i = .running task) : s'.Accounted := by
  constructor
  · rw [hstarted, htasks, haccepted]
    exact h.queue
  · simpa only [hstarted, hfinished, hw] using h.started
  · simpa only [hstarted, hfinished, hw] using h.running
  · simpa only [hw] using h.apart
  · rw [hstarted, hfinished]
    exact h.finished

theorem Accounted.notMem_started {s : ThreadPool n} (h : s.Accounted) {task : Nat} {tasks : List Nat}
    (ht : s.tasks_ = task :: tasks) : task ∉ s.started := by
  have hnodup : (s.started ++ s.tasks_).Nodup := by
    rw [h.queue]
    exact List.nodup_range
  intro hmem
  exact List.disjoint_of_nodup_append hnodup hmem (by simp [ht])

theorem Accounted.take {s : ThreadPool n} (h : s.Accounted) {task : Nat} {tasks : List Nat} {i : Fin n}
    (ht : s.tasks_ = task :: tasks) (hi : s.workers_ i = .ready) : (s.lock i).Accounted := by
  have hnew := h.notMem_started ht
  rw [lock_of_cons ht]
  constructor
  · simpa [ht] using h.queue
  · intro t hmem
    rcases List.mem_append.1 hmem with hmem | hmem
    · rcases h.started t hmem with hfin | ⟨j, hj⟩
      · exact .inl hfin
      · have hij : j ≠ i := by
          rintro rfl
          rw [hi] at hj
          cases hj
        exact .inr ⟨j, by simpa [hij] using hj⟩
    · obtain rfl := List.mem_singleton.1 hmem
      exact .inr ⟨i, by simp⟩
  · intro j t hj
    by_cases hij : j = i
    · subst hij
      obtain rfl : task = t := by simpa using hj
      exact ⟨by simp, fun hmem => hnew (h.finished.2 hmem)⟩
    · have hold := h.running j t (by simpa [hij] using hj)
      exact ⟨List.mem_append_left _ hold.1, hold.2⟩
  · intro j k t hj hk
    -- the task that is taken runs nowhere else
    have hother : ∀ l, s.workers_ l ≠ .running task := fun l hl => hnew (h.running l task hl).1
    by_cases hji : j = i <;> by_cases hki : k = i
    · rw [hji, hki]
    · subst hji
      obtain rfl : task = t := by simpa using hj
      exact absurd (by simpa [hki] using hk) (hother k)
    · subst hki
      obtain rfl : task = t := by simpa using hk
      exact absurd (by simpa [hji] using hj) (hother j)
    · exact h.apart j k t (by simpa [hji] using hj) (by simpa [hki] using hk)
  · exact ⟨h.finished.1, fun t hmem => List.mem_append_left _ (h.finished.2 hmem)⟩

theorem Accounted.finish {s : ThreadPool n} (h : s.Accounted) {i : Fin n} {task : Nat}
    (hi : s.workers_ i = .running task) : (s.finish i task).Accounted := by
  obtain ⟨hstarted, hnot⟩ := h.running i task hi
  constructor
  · exact h.queue
  · intro t hmem
    rcases h.started t hmem with hfin | ⟨j, hj⟩
    · exact .inl (List.mem_append_left _ hfin)
    · by_cases hij : j = i
      · subst hij
        obtain rfl : task = t := WorkerPc.running.inj (hi.symm.trans hj)
        exact .inl (by simp [ThreadPool.finish])
      · exact .inr ⟨j, by simpa [ThreadPool.finish, hij] using hj⟩
  · intro j t hj
    by_cases hij : j = i
    · simp [ThreadPool.finish, hij] at hj
    · have hold : s.workers_ j = .running t := by simpa [ThreadPool.finish, hij] using hj
      obtain ⟨hmem, hfin⟩ := h.running j t hold
      refine ⟨hmem, fun hin => ?_⟩
      rcases List.mem_append.1 hin with hin | hin
      · exact hfin hin
      · obtain rfl := List.mem_singleton.1 hin
        exact hij (h.apart j i _ hold hi)
  · intro j k t hj hk
    by_cases hji : j = i
    · simp [ThreadPool.finish, hji] at hj
    by_cases hki : k = i
    · simp [ThreadPool.finish, hki] at hk
    exact h.apart j k t (by simpa [ThreadPool.finish, hji] using hj) (by simpa [ThreadPool.finish, hki] using hk)
  · constructor
    · refine List.nodup_append.2 ⟨h.finished.1, List.nodup_singleton _, ?_⟩
      rintro t hmem u hu rfl
      exact hnot (List.mem_singleton.1 hu ▸ hmem)
    · intro t hmem
      rcases List.mem_append.1 hmem with hmem | hmem
      · exact h.finished.2 hmem
      · obtain rfl := List.mem_singleton.1 hmem
        exact hstarted

/-- **One step keeps every task accounted for.** -/
theorem Accounted.step {s s' : ThreadPool n} {a : PoolAct n} (h : s.Accounted) (hs : PoolAct.Step s a s') :
    s'.Accounted := by
  cases hs with
  | enqueue => exact h.enqueue
  | @lock i hi =>
    cases ht : s.tasks_ with
    | cons task tasks => exact h.take ht hi
    | nil =>
      rw [lock_of_nil ht]
      refine h.idle rfl rfl rfl rfl fun j task => update_eq_running (by simp [hi]) ?_
      intro task
      split <;> simp
  | @wake i hi => exact h.idle rfl rfl rfl rfl fun j task => update_eq_running (by simp [hi]) (by simp)
  | finish hi => exact h.finish hi
  | stop _ =>
    refine h.idle rfl rfl rfl rfl fun j task => ?_
    cases hj : s.workers_ j <;> simp [stop, WorkerPc.notified, hj]
  | join _ _ => exact h.idle rfl rfl rfl rfl fun _ _ => Iff.rfl

theorem Stopping.worker {s s' : ThreadPool n} (h : s.Stopping) {i : Fin n} {pc : WorkerPc} (hstop : s'.stop_ = s.stop_)
    (hstopper : s'.stopper = s.stopper) (haccepted : s'.accepted = s.accepted)
    (hatStop : s'.acceptedAtStop = s.acceptedAtStop) (hstarted : s.started.length ≤ s'.started.length)
    (hw : s'.workers_ = Function.update s.workers_ i pc) (hi : s.workers_ i ≠ .returned)
    (hreturned : pc = .returned → s.stop_ = true ∧ s.acceptedAtStop ≤ s.started.length)
    (hwaiting : pc = .waiting → s.stop_ = false) : s'.Stopping := by
  have hother : ∀ j, s.workers_ j = .returned → s'.workers_ j = .returned := by
    intro j hj
    have hji : j ≠ i := by
      rintro rfl
      exact hi hj
    simpa [hw, hji] using hj
  constructor
  · rw [hstop, hstopper]
    exact h.before
  · rw [hatStop, haccepted]
    exact h.le
  · intro j hj
    rw [hstop, hatStop]
    by_cases hji : j = i
    · have hpc : pc = .returned := by simpa [hw, hji] using hj
      exact ⟨(hreturned hpc).1, (hreturned hpc).2.trans hstarted⟩
    · have hold := h.returned j (by simpa [hw, hji] using hj)
      exact ⟨hold.1, hold.2.trans hstarted⟩
  · intro hset j hj
    rw [hstop] at hset
    by_cases hji : j = i
    · have hpc : pc = .waiting := by simpa [hw, hji] using hj
      simp [hwaiting hpc] at hset
    · exact h.awake hset j (by simpa [hw, hji] using hj)
  · intro k hk j hj
    rw [hstopper] at hk
    exact hother j (h.joined k hk j hj)
  · intro hret j
    rw [hstopper] at hret
    exact hother j (h.all hret j)

theorem Stopping.lock {s : ThreadPool n} {i : Fin n} (h : s.Stopping) (ha : s.Accounted)
    (hi : s.workers_ i = .ready) : (s.lock i).Stopping := by
  have hne : s.workers_ i ≠ .returned := by simp [hi]
  cases ht : s.tasks_ with
  | cons task tasks =>
    rw [lock_of_cons ht]
    exact h.worker rfl rfl rfl rfl (by simp) rfl hne (by simp) (by simp)
  | nil =>
    rw [lock_of_nil ht]
    -- with the queue empty every task that was accepted has been taken
    have hall : s.started.length = s.accepted := by
      have hlen := congrArg List.length ha.queue
      simpa [ht] using hlen
    refine h.worker rfl rfl rfl rfl (Nat.le_refl _) rfl hne ?_ ?_
    · intro hpc
      by_cases hstop : s.stop_ = true
      · exact ⟨hstop, hall ▸ h.le⟩
      · simp [hstop] at hpc
    · intro hpc
      by_cases hstop : s.stop_ = true
      · simp [hstop] at hpc
      · simpa using hstop

/-- No worker has returned before `stop_` is set, and none waits once it is. -/
theorem Stopping.stop {s : ThreadPool n} (h : s.Stopping) (hbefore : s.stopper = .before) : s.stop.Stopping := by
  have hunset := h.before.2 hbefore
  constructor
  · simp [ThreadPool.stop]
  · exact Nat.le_refl _
  · intro i hi
    have hold : s.workers_ i = .returned := by
      cases hw : s.workers_ i <;> simp [ThreadPool.stop, WorkerPc.notified, hw] at hi
      rfl
    simp [(h.returned i hold).1] at hunset
  · intro _ i hi
    cases hw : s.workers_ i <;> simp [ThreadPool.stop, WorkerPc.notified, hw] at hi
  · intro k hk i hi
    cases hk
    exact absurd hi (Nat.not_lt_zero _)
  · intro hret
    cases hret

theorem Stopping.join {s : ThreadPool n} {k : Nat} (h : s.Stopping) (hk : s.stopper = .joining k)
    (hjoin : ∀ hkn : k < n, s.workers_ ⟨k, hkn⟩ = .returned) : (s.join k).Stopping := by
  constructor
  · have hset : s.stop_ ≠ false := fun hunset => by simp [h.before.1 hunset] at hk
    refine iff_of_false hset ?_
    simp only [ThreadPool.join]
    split <;> simp
  · exact h.le
  · exact h.returned
  · exact h.awake
  · intro k' hk' i hi
    by_cases hkn : k < n
    · obtain rfl : k + 1 = k' := by simpa [ThreadPool.join, hkn] using hk'
      rcases Nat.lt_succ_iff_lt_or_eq.1 hi with hi | hi
      · exact h.joined k hk i hi
      · subst hi
        exact hjoin i.isLt
    · simp [ThreadPool.join, hkn] at hk'
  · intro hret i
    by_cases hkn : k < n
    · simp [ThreadPool.join, hkn] at hret
    · exact h.joined k hk i (by omega)

/-- **One step keeps the stop in order.** -/
theorem Stopping.step {s s' : ThreadPool n} {a : PoolAct n} (h : s.Stopping) (ha : s.Accounted)
    (hs : PoolAct.Step s a s') : s'.Stopping := by
  cases hs with
  | enqueue => exact ⟨h.before, Nat.le_succ_of_le h.le, h.returned, h.awake, h.joined, h.all⟩
  | @lock i hi => exact h.lock ha hi
  | @wake i hi =>
    exact h.worker rfl rfl rfl rfl (Nat.le_refl _) rfl (by simp [hi]) (by simp) (by simp)
  | @finish i task hi =>
    exact h.worker rfl rfl rfl rfl (Nat.le_refl _) rfl (by simp [hi]) (by simp) (by simp)
  | stop hbefore => exact h.stop hbefore
  | @join k hk hjoin => exact h.join hk hjoin

/-! ## Every run -/

structure Sound (s : ThreadPool n) : Prop where
  accounted : s.Accounted
  stopping : s.Stopping

theorem sound_of_run {s : ThreadPool n} {as : List (PoolAct n)} (h : Trans.Run PoolAct.Step Trans.free init as s) :
    s.Sound :=
  h.invariant ⟨init_accounted, init_stopping⟩ fun _ _ _ hs _ ha =>
    ⟨hs.accounted.step ha, hs.stopping.step hs.accounted ha⟩

/-- With a worker that has returned, what was accepted before the stop has been started. -/
theorem Sound.drained {s : ThreadPool n} (h : s.Sound) (hn : 0 < n) (hret : s.stopper = .returned) {task : Nat}
    (ht : task < s.acceptedAtStop) : task ∈ s.finished := by
  have hall := h.stopping.all hret
  have hlen := (h.stopping.returned ⟨0, hn⟩ (hall _)).2
  have hmem : task ∈ s.started := by
    have hget : (s.started ++ s.tasks_)[task]? = some task := by
      rw [h.accounted.queue, List.getElem?_range (ht.trans_le h.stopping.le)]
    rw [List.getElem?_append_left (ht.trans_le hlen)] at hget
    exact List.mem_of_getElem? hget
  rcases h.accounted.started task hmem with hfin | ⟨i, hi⟩
  · exact hfin
  · simp [hall i] at hi

/-- **The pool runs its tasks in order and once, and drains on `stop`**, in every state of every run. -/
theorem drains_of_run (hn : 0 < n) {s : ThreadPool n} {as : List (PoolAct n)}
    (h : Trans.Run PoolAct.Step Trans.free init as s) : s.Drains := by
  have hs := sound_of_run h
  have hfront : s.started <+: List.range s.accepted := hs.accounted.queue ▸ List.prefix_append _ _
  exact ⟨hfront, ⟨hfront.sublist.nodup List.nodup_range, hs.accounted.finished⟩, fun hret _ ht => hs.drained hn hret ht⟩

/-- One worker, one task, and the stop while it runs. -/
theorem drains_of_one : ∃ s : ThreadPool 1, s.stopper = .returned ∧ 0 < s.acceptedAtStop ∧ s.Drains := by
  have h₁ : PoolAct.Step (init : ThreadPool 1) .enqueue _ := .enqueue
  have h₂ : PoolAct.Step (init : ThreadPool 1).enqueue (.lock 0) _ := .lock rfl
  have h₃ : PoolAct.Step ((init : ThreadPool 1).enqueue.lock 0) .stop _ := .stop rfl
  have hone : Trans.Run PoolAct.Step Trans.free init _ _ := .single trivial h₁
  have hrun := (hone.snoc trivial h₂).snoc trivial h₃
  have hfinished := hrun.snoc trivial (.finish (i := 0) rfl)
  have hreturned := hfinished.snoc trivial (.lock (i := 0) rfl)
  have hjoined := (hreturned.snoc trivial (.join rfl fun _ => rfl)).snoc trivial (.join rfl nofun)
  exact ⟨_, rfl, Nat.zero_lt_one, drains_of_run Nat.zero_lt_one hjoined⟩

/-- **The stop is never stuck**: until it returns, a worker or the loop of joins can move on. -/
theorem progress_of_run {s : ThreadPool n} {as : List (PoolAct n)} (h : Trans.Run PoolAct.Step Trans.free init as s)
    (hstop : s.stop_ = true) (hret : s.stopper ≠ .returned) : ∃ a s', a ≠ .enqueue ∧ PoolAct.Step s a s' := by
  have hs := (sound_of_run h).stopping
  cases hk : s.stopper with
  | before => simp [hs.before.2 hk] at hstop
  | returned => exact absurd hk hret
  | joining k =>
    by_cases hkn : k < n
    · cases hw : s.workers_ ⟨k, hkn⟩ with
      | ready => exact ⟨.lock ⟨k, hkn⟩, _, nofun, .lock hw⟩
      | waiting => exact absurd hw (hs.awake hstop _)
      | running task => exact ⟨.finish ⟨k, hkn⟩, _, nofun, .finish hw⟩
      | returned => exact ⟨.join, _, nofun, .join hk fun _ => hw⟩
    · exact ⟨.join, _, nofun, .join hk fun h => absurd h hkn⟩

end ThreadPool

end MiniRos2

import MiniRos2.Lib.Trans
import MiniRos2.Lib.Earlier
import Mathlib.Logic.Function.Basic
/-!
# CallbackOrder — the order of one subscription's callbacks

The spin thread reads a message under `Subscriber::mutex_` and enqueues its task; a worker takes the first task under
the pool's mutex and only then locks `Subscriber::mutex_` for the callback.  Between the two another worker may take the
next task and lock first.  The callbacks start in the order of their tasks exactly in the runs in which no worker starts
one while another holds an earlier task of the same subscription (`inOrder_iff_of_run`).
-/
namespace MiniRos2

/-! ## The spin thread and the workers -/

/-- The task of the message that was read as number `message`, of the subscription `id`. -/
structure ReadTask where
  id : Nat
  message : Nat
  deriving DecidableEq

/-- Where the spin thread is: `reading` is inside `createTaskFromSubEvent`. -/
inductive ReadPc where
  | idle
  | reading (id : Nat)
  | read (task : ReadTask)

/-- Where a worker is: `taken` has the task and has not locked `Subscriber::mutex_`. -/
inductive CallPc where
  | idle
  | taken (task : ReadTask)
  | calling (task : ReadTask)

inductive CallThread (n : Nat) where
  | spin
  | worker (i : Fin n)

/-- The pool of a node with `n` workers; `dequeued` and `started` have the tasks in the order in which they were taken
and in which their callbacks began. -/
structure CallPool (n : Nat) where
  spin : ReadPc
  messages : Nat
  tasks_ : List ReadTask
  workers_ : Fin n → CallPc
  mutex_ : Nat → Option (CallThread n)
  enqueued : List ReadTask
  dequeued : List ReadTask
  started : List ReadTask

inductive CallAct (n : Nat) where
  | lockSub (id : Nat)
  | read
  | enqueue
  | take (i : Fin n)
  | call (i : Fin n)
  | finish (i : Fin n)

namespace CallPool

variable {n : Nat}

def init : CallPool n := ⟨.idle, 0, [], fun _ => .idle, fun _ => none, [], [], []⟩

def worker (s : CallPool n) (i : Fin n) (pc : CallPc) : CallPool n :=
  { s with workers_ := Function.update s.workers_ i pc }

def lock (s : CallPool n) (id : Nat) (t : Option (CallThread n)) : CallPool n :=
  { s with mutex_ := Function.update s.mutex_ id t }

end CallPool

variable {n : Nat}

/-- **One step of one thread.**  What is done under the pool's mutex is one step. -/
inductive CallAct.Step (s : CallPool n) : CallAct n → CallPool n → Prop where
  | lockSub {id : Nat} : s.spin = .idle → s.mutex_ id = none →
      Step s (.lockSub id) { s.lock id (some .spin) with spin := .reading id }
  | read {id : Nat} : s.spin = .reading id →
      Step s .read { s.lock id none with spin := .read ⟨id, s.messages⟩, messages := s.messages + 1 }
  | enqueue {task : ReadTask} : s.spin = .read task →
      Step s .enqueue { s with spin := .idle, tasks_ := s.tasks_ ++ [task], enqueued := s.enqueued ++ [task] }
  | take {i : Fin n} {task : ReadTask} {tasks : List ReadTask} : s.workers_ i = .idle → s.tasks_ = task :: tasks →
      Step s (.take i) { s.worker i (.taken task) with tasks_ := tasks, dequeued := s.dequeued ++ [task] }
  | call {i : Fin n} {task : ReadTask} : s.workers_ i = .taken task → s.mutex_ task.id = none →
      Step s (.call i)
        { (s.worker i (.calling task)).lock task.id (some (.worker i)) with started := s.started ++ [task] }
  | finish {i : Fin n} {task : ReadTask} : s.workers_ i = .calling task →
      Step s (.finish i) ((s.worker i .idle).lock task.id none)

namespace CallPool

/-- **The callbacks of each subscription start in the order of their tasks**: of two tasks enqueued one after the other
the first one's callback is there before the second one's. -/
def InOrder (s : CallPool n) : Prop :=
  ∀ t u, t.id = u.id → Earlier s.enqueued t u → u ∈ s.started → Earlier s.started t u

/-- **No callback starts while another worker holds an earlier task of the same subscription.** -/
def NotOvertaking (s : CallPool n) : CallAct n → Prop
  | .call i => ∀ u, s.workers_ i = .taken u → ∀ j t, s.workers_ j = .taken t → t.id = u.id → ¬ Earlier s.enqueued t u
  | _ => True

/-! ## Where the tasks are -/

/-- The queue has what was enqueued last, and every task that was dequeued has started or is one worker's. -/
structure Sound (s : CallPool n) : Prop where
  queue : s.enqueued = s.dequeued ++ s.tasks_
  nodup : s.enqueued.Nodup
  old : ∀ t ∈ s.enqueued, t.message < s.messages
  new : ∀ t, s.spin = .read t → t.message < s.messages ∧ t ∉ s.enqueued
  dequeued : ∀ t ∈ s.dequeued, t ∈ s.started ∨ ∃ i, s.workers_ i = .taken t
  taken : ∀ i t, s.workers_ i = .taken t → t ∈ s.dequeued ∧ t ∉ s.started
  unique : ∀ i j t, s.workers_ i = .taken t → s.workers_ j = .taken t → i = j
  started : ∀ t ∈ s.started, t ∈ s.dequeued

theorem init_sound : (init : CallPool n).Sound where
  queue := rfl
  nodup := .nil
  old _ h := by cases h
  new _ h := by cases h
  dequeued _ h := by cases h
  taken _ _ h := by cases h
  unique _ _ _ h := by cases h
  started _ h := by cases h

variable {s s' : CallPool n}

/-- A worker that comes to hold no task leaves the others theirs. -/
theorem taken_of_update {i j : Fin n} {pc : CallPc} {t : ReadTask} (hpc : ∀ t, pc ≠ .taken t)
    (h : Function.update s.workers_ i pc j = .taken t) : j ≠ i ∧ s.workers_ j = .taken t := by
  by_cases hj : j = i
  · subst hj
    rw [Function.update_self] at h
    exact absurd h (hpc t)
  · rw [Function.update_of_ne hj] at h
    exact ⟨hj, h⟩

theorem update_taken {i j : Fin n} {pc : CallPc} {t : ReadTask} (hj : j ≠ i) (h : s.workers_ j = .taken t) :
    Function.update s.workers_ i pc j = .taken t := by
  rw [Function.update_of_ne hj, h]

theorem Sound.read (h : s.Sound) {id : Nat} :
    Sound { s.lock id none with spin := .read ⟨id, s.messages⟩, messages := s.messages + 1 } where
  queue := h.queue
  nodup := h.nodup
  old t ht := Nat.lt_succ_of_lt (h.old t ht)
  new t ht := by
    cases ht
    exact ⟨Nat.lt_succ_self _, fun hmem => Nat.lt_irrefl _ (h.old _ hmem)⟩
  dequeued := h.dequeued
  taken := h.taken
  unique := h.unique
  started := h.started

theorem Sound.enqueue (h : s.Sound) {task : ReadTask} (hspin : s.spin = .read task) :
    Sound { s with spin := .idle, tasks_ := s.tasks_ ++ [task], enqueued := s.enqueued ++ [task] } where
  queue := by simp [h.queue]
  nodup := List.nodup_append.2 ⟨h.nodup, List.nodup_singleton task, by
    rintro t ht u hu rfl
    rw [List.mem_singleton.1 hu] at ht
    exact (h.new task hspin).2 ht⟩
  old t ht := by
    rcases List.mem_append.1 ht with ht | ht
    · exact h.old t ht
    · rw [List.mem_singleton.1 ht]
      exact (h.new task hspin).1
  new t ht := by cases ht
  dequeued := h.dequeued
  taken := h.taken
  unique := h.unique
  started := h.started

/-- The first of the queue was not dequeued before. -/
theorem Sound.head_notMem (h : s.Sound) {task : ReadTask} {tasks : List ReadTask} (htasks : s.tasks_ = task :: tasks) :
    task ∉ s.dequeued := by
  have hnd := h.nodup
  rw [h.queue, htasks] at hnd
  exact fun hmem => List.disjoint_of_nodup_append hnd hmem List.mem_cons_self

theorem Sound.take (h : s.Sound) {i : Fin n} {task : ReadTask} {tasks : List ReadTask} (hi : s.workers_ i = .idle)
    (htasks : s.tasks_ = task :: tasks) :
    Sound { s.worker i (.taken task) with tasks_ := tasks, dequeued := s.dequeued ++ [task] } := by
  have hnew := h.head_notMem htasks
  have hworker : ∀ j t, Function.update s.workers_ i (.taken task) j = .taken t →
      j = i ∧ t = task ∨ j ≠ i ∧ s.workers_ j = .taken t := by
    intro j t ht
    by_cases hj : j = i
    · subst hj
      rw [Function.update_self] at ht
      cases ht
      exact .inl ⟨rfl, rfl⟩
    · rw [Function.update_of_ne hj] at ht
      exact .inr ⟨hj, ht⟩
  constructor
  · show s.enqueued = (s.dequeued ++ [task]) ++ tasks
    rw [h.queue, htasks]
    simp
  · exact h.nodup
  · exact h.old
  · exact h.new
  · intro t ht
    rcases List.mem_append.1 ht with ht | ht
    · rcases h.dequeued t ht with hs | ⟨j, hj⟩
      · exact .inl hs
      · refine .inr ⟨j, update_taken ?_ hj⟩
        rintro rfl
        rw [hi] at hj
        cases hj
    · rw [List.mem_singleton.1 ht]
      exact .inr ⟨i, Function.update_self ..⟩
  · intro j t ht
    rcases hworker j t ht with ⟨-, rfl⟩ | ⟨-, ht⟩
    · exact ⟨by simp, fun hs => hnew (h.started t hs)⟩
    · exact ⟨List.mem_append_left _ (h.taken j t ht).1, (h.taken j t ht).2⟩
  · intro j k t hj hk
    rcases hworker j t hj with ⟨hji, hjt⟩ | ⟨-, hj⟩ <;> rcases hworker k t hk with ⟨hki, hkt⟩ | ⟨-, hk⟩
    · exact hji.trans hki.symm
    · exact absurd (hjt ▸ (h.taken k t hk).1) hnew
    · exact absurd (hkt ▸ (h.taken j t hj).1) hnew
    · exact h.unique j k t hj hk
  · exact fun t ht => List.mem_append_left _ (h.started t ht)

theorem Sound.call (h : s.Sound) {i : Fin n} {task : ReadTask} (hi : s.workers_ i = .taken task) :
    Sound { (s.worker i (.calling task)).lock task.id (some (.worker i)) with started := s.started ++ [task] } := by
  have hworker : ∀ j t, Function.update s.workers_ i (.calling task) j = .taken t → j ≠ i ∧ s.workers_ j = .taken t :=
    fun j t ht => taken_of_update (by simp) ht
  constructor
  · exact h.queue
  · exact h.nodup
  · exact h.old
  · exact h.new
  · intro t ht
    rcases h.dequeued t ht with hs | ⟨j, hj⟩
    · exact .inl (List.mem_append_left _ hs)
    · by_cases hji : j = i
      · subst hji
        rw [hi] at hj
        cases hj
        exact .inl (by simp)
      · exact .inr ⟨j, update_taken hji hj⟩
  · intro j t ht
    obtain ⟨hj, ht⟩ := hworker j t ht
    refine ⟨(h.taken j t ht).1, fun hs => ?_⟩
    rcases List.mem_append.1 hs with hs | hs
    · exact (h.taken j t ht).2 hs
    · rw [List.mem_singleton.1 hs] at ht
      exact hj (h.unique j i task ht hi)
  · intro j k t hj hk
    exact h.unique j k t (hworker j t hj).2 (hworker k t hk).2
  · intro t ht
    rcases List.mem_append.1 ht with ht | ht
    · exact h.started t ht
    · rw [List.mem_singleton.1 ht]
      exact (h.taken i task hi).1

theorem Sound.finish (h : s.Sound) {i : Fin n} {task : ReadTask} (hi : s.workers_ i = .calling task) :
    Sound ((s.worker i .idle).lock task.id none) where
  queue := h.queue
  nodup := h.nodup
  old := h.old
  new := h.new
  dequeued t ht := by
    rcases h.dequeued t ht with hs | ⟨j, hj⟩
    · exact .inl hs
    · refine .inr ⟨j, update_taken ?_ hj⟩
      rintro rfl
      rw [hi] at hj
      cases hj
  taken j t ht := h.taken j t (taken_of_update (by simp) ht).2
  unique j k t hj hk := h.unique j k t (taken_of_update (by simp) hj).2 (taken_of_update (by simp) hk).2
  started := h.started

/-- **One step of any thread keeps the tasks where they are accounted for.** -/
theorem Sound.step {a : CallAct n} (h : s.Sound) (hs : CallAct.Step s a s') : s'.Sound := by
  cases hs with
  | lockSub _ _ => exact { h with new := fun t ht => by cases ht }
  | read _ => exact h.read
  | enqueue hspin => exact h.enqueue hspin
  | take hi htasks => exact h.take hi htasks
  | call hi _ => exact h.call hi
  | finish hi => exact h.finish hi

theorem sound_of_run {as : List (CallAct n)} {guard : CallPool n → CallAct n → Prop}
    (h : Trans.Run CallAct.Step guard init as s) : s.Sound :=
  h.invariant (P := Sound) init_sound (fun _ _ _ hp _ hs => hp.step hs)

/-! ## The order of the callbacks -/

/-- **A callback that starts is in order exactly when it overtakes none**: its earlier tasks were dequeued before it, so
they have started or are still with a worker. -/
theorem Sound.inOrder_call (h : s.Sound) {i : Fin n} {task : ReadTask} (hi : s.workers_ i = .taken task) :
    InOrder { (s.worker i (.calling task)).lock task.id (some (.worker i)) with started := s.started ++ [task] } ↔
      s.InOrder ∧ s.NotOvertaking (.call i) := by
  obtain ⟨hdeq, hnew⟩ := h.taken i task hi
  constructor
  · intro hin
    refine ⟨fun t u hid he hu => ?_, fun u hu j t ht hid he => ?_⟩
    · have hu' : u ∈ s.started ++ [task] := List.mem_append_left _ hu
      rcases (hin t u hid he hu').snoc_cases with hearly | ⟨-, rfl⟩
      · exact hearly
      · exact absurd hu hnew
    · rw [hi] at hu
      cases hu
      have hmem := (hin t task hid he (by simp)).left_mem
      rcases List.mem_append.1 hmem with hmem | hmem
      · exact (h.taken j t ht).2 hmem
      · exact he.ne h.nodup (List.mem_singleton.1 hmem)
  · rintro ⟨hin, hover⟩ t u hid he hu
    rcases List.mem_append.1 hu with hu | hu
    · exact (hin t u hid he hu).append
    · obtain rfl := List.mem_singleton.1 hu
      have hearly : Earlier s.dequeued t u := by
        have hnd := h.nodup
        have he' : Earlier s.enqueued t u := he
        rw [h.queue] at hnd he'
        exact he'.of_mem hnd hdeq
      rcases h.dequeued t hearly.left_mem with hs | ⟨j, hj⟩
      · exact .snoc hs
      · exact absurd he (hover u hi j t hj hid)

/-- A task that was just enqueued has not started. -/
theorem Sound.inOrder_enqueue (h : s.Sound) {task : ReadTask} (hspin : s.spin = .read task) :
    InOrder { s with spin := .idle, tasks_ := s.tasks_ ++ [task], enqueued := s.enqueued ++ [task] } ↔ s.InOrder := by
  constructor
  · exact fun hin t u hid he hu => hin t u hid he.append hu
  · intro hin t u hid he hu
    have hu' : u ∈ s.started := hu
    rcases he.snoc_cases with he | ⟨-, rfl⟩
    · exact hin t u hid he hu
    · have hmem : u ∈ s.enqueued := by
        rw [h.queue]
        exact List.mem_append_left _ (h.started u hu')
      exact absurd hmem (h.new u hspin).2

theorem Sound.inOrder_step {a : CallAct n} (h : s.Sound) (hs : CallAct.Step s a s') :
    s'.InOrder ↔ s.InOrder ∧ s.NotOvertaking a := by
  cases hs with
  | call hi _ => exact h.inOrder_call hi
  | enqueue hspin => exact (h.inOrder_enqueue hspin).trans (and_iff_left trivial).symm
  | _ => exact ⟨fun hin => ⟨hin, trivial⟩, And.left⟩

theorem init_inOrder : (init : CallPool n).InOrder := fun _ _ _ _ hu => by cases hu

/-- **The callbacks of each subscription start in the order in which its messages were read**, in every run in which no
callback overtakes an earlier task, and in no other. -/
theorem inOrder_iff_of_run {as : List (CallAct n)} (h : Trans.Run CallAct.Step Trans.free init as s) :
    s.InOrder ↔ Trans.Run CallAct.Step NotOvertaking init as s := by
  constructor
  · intro hin
    induction h with
    | nil => exact .nil
    | snoc hrun _ hs ih =>
      obtain ⟨hin', hg⟩ := ((sound_of_run hrun).inOrder_step hs).1 hin
      exact (ih hin').snoc hg hs
  · intro hguarded
    have hboth : s.Sound ∧ s.InOrder := by
      refine hguarded.invariant (P := fun s => s.Sound ∧ s.InOrder) ⟨init_sound, init_inOrder⟩ ?_
      exact fun _ _ _ hp hg hs => ⟨hp.1.step hs, (hp.1.inOrder_step hs).2 ⟨hp.2, hg⟩⟩
    exact hboth.2

/-! ## Two workers of four -/

/-- The first of two tasks of one subscription is with worker 0, the second one with worker 1. -/
structure TwoTaken (s : CallPool 4) : Prop where
  enqueued : s.enqueued = [⟨0, 0⟩, ⟨0, 1⟩]
  started : s.started = []
  mutex : s.mutex_ 0 = none
  workers : s.workers_ = Function.update (Function.update (fun _ => .idle) 0 (.taken ⟨0, 0⟩)) 1 (.taken ⟨0, 1⟩)

theorem exists_twoTaken : ∃ (as : List (CallAct 4)) (s : CallPool 4),
    Trans.Run CallAct.Step NotOvertaking init as s ∧ s.TwoTaken := by
  let s₀ : CallPool 4 := init
  have hfirst : CallAct.Step s₀ (.lockSub 0) _ := .lockSub rfl rfl
  have h₀ : Trans.Run CallAct.Step NotOvertaking s₀ _ _ := .single (by trivial) hfirst
  have h₁ := h₀.snoc (a := .read) (by trivial) (.read rfl)
  have h₂ := h₁.snoc (a := .enqueue) (by trivial) (.enqueue rfl)
  have h₃ := h₂.snoc (a := .lockSub 0) (by trivial) (.lockSub rfl rfl)
  have h₄ := h₃.snoc (a := .read) (by trivial) (.read rfl)
  have h₅ := h₄.snoc (a := .enqueue) (by trivial) (.enqueue rfl)
  have h₆ := h₅.snoc (a := .take 0) (by trivial) (.take rfl rfl)
  have h₇ := h₆.snoc (a := .take 1) (by trivial) (.take rfl rfl)
  exact ⟨_, _, h₇, rfl, rfl, rfl, rfl⟩

theorem TwoTaken.cases {s : CallPool 4} (h : s.TwoTaken) {j : Fin 4} {t : ReadTask} (ht : s.workers_ j = .taken t) :
    j = 0 ∧ t = ⟨0, 0⟩ ∨ j = 1 ∧ t = ⟨0, 1⟩ := by
  rw [h.workers] at ht
  by_cases hone : j = 1
  · subst hone
    rw [Function.update_self] at ht
    cases ht
    exact .inr ⟨rfl, rfl⟩
  · rw [Function.update_of_ne hone] at ht
    by_cases hzero : j = 0
    · subst hzero
      rw [Function.update_self] at ht
      cases ht
      exact .inl ⟨rfl, rfl⟩
    · rw [Function.update_of_ne hzero] at ht
      cases ht

/-- The worker that took the first task starts it first. -/
theorem inOrder_of_two : ∃ (as : List (CallAct 4)) (s : CallPool 4), Trans.Run CallAct.Step Trans.free init as s ∧
    s.started = [⟨0, 0⟩, ⟨0, 1⟩] ∧ s.InOrder := by
  obtain ⟨as, s, hrun, htwo⟩ := exists_twoTaken
  have hfirst : s.workers_ 0 = .taken ⟨0, 0⟩ := by simp [htwo.workers]
  have hsecond : s.workers_ 1 = .taken ⟨0, 1⟩ := by simp [htwo.workers]
  have hguard : s.NotOvertaking (.call 0) := by
    intro u hu j t ht _ he
    rw [hfirst] at hu
    cases hu
    rw [htwo.enqueued] at he
    rcases htwo.cases ht with ⟨-, rfl⟩ | ⟨-, rfl⟩ <;> exact absurd he (by unfold Earlier; decide)
  obtain ⟨s₁, hcall, hworkers₁, henq₁, hstarted₁⟩ : ∃ s₁, CallAct.Step s (.call 0) s₁ ∧
      s₁.workers_ = Function.update s.workers_ 0 (.calling ⟨0, 0⟩) ∧ s₁.enqueued = s.enqueued ∧
      s₁.started = s.started ++ [⟨0, 0⟩] := ⟨_, .call hfirst htwo.mutex, rfl, rfl, rfl⟩
  have hcalling : s₁.workers_ 0 = .calling ⟨0, 0⟩ := by simp [hworkers₁]
  obtain ⟨s₂, hfinish, hworkers₂, henq₂, hstarted₂, hmutex₂⟩ : ∃ s₂, CallAct.Step s₁ (.finish 0) s₂ ∧
      s₂.workers_ = Function.update s₁.workers_ 0 .idle ∧ s₂.enqueued = s₁.enqueued ∧ s₂.started = s₁.started ∧
      s₂.mutex_ 0 = none := ⟨_, .finish hcalling, rfl, rfl, rfl, by simp [lock]⟩
  have hsecond₂ : s₂.workers_ 1 = .taken ⟨0, 1⟩ := by simp [hworkers₂, hworkers₁, hsecond]
  have hguard₂ : s₂.NotOvertaking (.call 1) := by
    intro u hu j t ht _ he
    rw [hsecond₂] at hu
    cases hu
    rw [hworkers₂] at ht
    obtain ⟨hj, ht⟩ := taken_of_update (by simp) ht
    rw [hworkers₁] at ht
    obtain ⟨-, ht⟩ := taken_of_update (by simp) ht
    rw [henq₂, henq₁, htwo.enqueued] at he
    rcases htwo.cases ht with ⟨hzero, -⟩ | ⟨-, rfl⟩
    · exact hj hzero
    · exact absurd he (by unfold Earlier; decide)
  have hguarded := ((hrun.snoc hguard hcall).snoc (by trivial) hfinish).snoc hguard₂ (.call hsecond₂ hmutex₂)
  have hstarted : s₂.started ++ [⟨0, 1⟩] = [⟨0, 0⟩, ⟨0, 1⟩] := by rw [hstarted₂, hstarted₁, htwo.started]; rfl
  exact ⟨_, _, hguarded.weaken fun _ _ _ => trivial, hstarted,
    (inOrder_iff_of_run (hguarded.weaken fun _ _ _ => trivial)).2 hguarded⟩

/-- The worker that took the second task starts it first. -/
theorem not_inOrder_of_swap : ¬ ∀ (s : CallPool 4) (as : List (CallAct 4)),
    Trans.Run CallAct.Step Trans.free init as s → s.InOrder := by
  intro h
  obtain ⟨as, s, hrun, htwo⟩ := exists_twoTaken
  have hsecond : s.workers_ 1 = .taken ⟨0, 1⟩ := by simp [htwo.workers]
  have hfree : Trans.Run CallAct.Step Trans.free init as s := hrun.weaken (fun _ _ _ => trivial)
  have hswap := hfree.snoc trivial (.call hsecond htwo.mutex)
  have hearly : Earlier s.enqueued ⟨0, 0⟩ ⟨0, 1⟩ := by
    rw [htwo.enqueued]
    exact List.Sublist.refl _
  have hmem : (⟨0, 1⟩ : ReadTask) ∈ s.started ++ [⟨0, 1⟩] := by simp
  have hin : Earlier (s.started ++ [⟨0, 1⟩]) ⟨0, 0⟩ ⟨0, 1⟩ := h _ _ hswap _ _ rfl hearly hmem
  have hlen := List.Sublist.length_le hin
  simp [htwo.started] at hlen

end CallPool

end MiniRos2

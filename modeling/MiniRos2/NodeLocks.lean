import MiniRos2.Lib.Locks
import MiniRos2.Lib.Trans
/-!
# NodeLocks — the mutexes of one node

The spin thread and the workers of the thread pool, each with the locks and unlocks that the source makes.  Everything
is taken in the order of `Mutex.rank`, but for one place: `spinLoop` takes `Subscriber::mutex_` while it holds
`registry_mutex_` and `node_mutex_`.  A callback runs with `Subscriber::mutex_` held, and `publish` takes
`registry_mutex_`.  In a run where the two never cross nobody is deadlocked (`not_deadlocked_of_run`); once they have
crossed they stay so (`crossed_of_run`).
-/
namespace MiniRos2
namespace NodeLocks

open Locks (Scoped Block critical)

/-- The mutexes that the threads of a node take; `shm` is the region of the registry, `topic` that of a topic. -/
inductive Mutex where
  | sub (id : Nat)
  | registry_mutex_
  | node_mutex_
  | pool
  | timer (id : Nat)
  | shm
  | topic (id : Nat)
  | event
  deriving DecidableEq

inductive Thread where
  | spin
  | worker (i : Nat)
  deriving DecidableEq

/-- **One call of `Publisher::publish`**: the region it writes, whether the topic is new to the registry and how many of
its two sections are then written, whether the event has an id, and how many of its critical sections the call gets
through. -/
structure Publish where
  topic : Nat
  isNew : Bool
  writes : Fin 3
  hasId : Bool
  reached : Nat

/-- A task of the pool, with the publishes that its callback makes. -/
inductive Task where
  | subscription (id : Nat) (callback : List Publish)
  | timer (callback : List Publish)

inductive Effect where
  | enqueue (task : Task)
  | dequeue

abbrev Program := List (Locks.Op Mutex Effect)

/-! ## The locks of each function -/

def isTopicExist : Program := critical .registry_mutex_ []

/-- `writeRegistryToShm_` writes two sections, each under the lock of the region. -/
def addPubTopic (writes : Fin 3) : Program :=
  critical .registry_mutex_ ((List.range writes).flatMap fun _ => critical .shm [])

/-- `ShmBase::Write`. -/
def write (topic : Nat) : Program := critical (.topic topic) []

def triggerEvent (hasId : Bool) : Program :=
  critical .registry_mutex_ (if hasId then critical .event [] else [])

def Publish.sections (c : Publish) : List Program :=
  [isTopicExist] ++ (if c.isNew then [addPubTopic c.writes] else []) ++ [write c.topic, triggerEvent c.hasId]

def publish (c : Publish) : Program := (c.sections.take c.reached).flatMap id

/-- `Subscriber::execute`. -/
def execute (id : Nat) (callback : List Publish) : Program := critical (.sub id) (callback.flatMap publish)

def Task.program : Task → Program
  | .subscription id callback => execute id callback
  | .timer callback => callback.flatMap publish

/-- What a worker does when it wakes: it takes the first task if there is one, and waits again if not. -/
def takeTask : Program := critical .pool [.run .dequeue]

def enqueue (task : Task) : Program := critical .pool [.run (.enqueue task)]

/-- The condition variable releases the mutex and takes it again. -/
def waitForEvent : Program := critical .event [] ++ critical .event []

def clearTriggerEvent : Program := critical .event []

/-- `createTaskFromSubEvent`, and the task given to the pool. -/
def dispatch (task : Nat × List Publish) : Program :=
  critical (.sub task.1) [] ++ enqueue (.subscription task.1 task.2)

def syncRegistryFromShm : Program := critical .registry_mutex_ (critical .shm [] ++ critical .shm [])

/-- `isReady`, and the task given to the pool if the timer is. -/
def checkTimer (timer : Nat × Option (List Publish)) : Program :=
  critical (.timer timer.1) [] ++ timer.2.elim [] fun callback => enqueue (.timer callback)

/-- **What one round of `spinLoop` finds**: whether a bit is set, the subscriptions whose bit is, whether the last bit
is, and the timers with the callbacks of those that are ready. -/
structure Round where
  any : Bool
  triggered : List (Nat × List Publish)
  sync : Bool
  timers : List (Nat × Option (List Publish))

def Round.dispatched (r : Round) : Program :=
  if r.any then critical .node_mutex_ (r.triggered.flatMap dispatch) ++ r.triggered.flatMap fun _ => clearTriggerEvent
  else []

/-- **One round of `Node::spinLoop`.** -/
def spinRound (r : Round) : Program :=
  waitForEvent ++ critical .registry_mutex_ r.dispatched ++
    (if r.sync then syncRegistryFromShm ++ clearTriggerEvent else []) ++ r.timers.flatMap checkTimer

/-! ## The node -/

structure NodeState where
  locks : Locks.State Thread Mutex Effect
  tasks_ : List Task

def NodeState.init : NodeState := ⟨.init, []⟩

inductive Act where
  | spinRound (r : Round)
  | wake (w : Nat)
  | lock (t : Thread) (m : Mutex)
  | unlock (t : Thread) (m : Mutex)
  | enqueue (task : Task)
  | dequeue (w : Nat)

/-- **One step of one thread.** -/
inductive Act.Step (s : NodeState) : Act → NodeState → Prop where
  | spinRound {r : Round} : s.locks.program .spin = [] →
      Step s (.spinRound r) { s with locks := s.locks.append .spin (NodeLocks.spinRound r) }
  | wake {w : Nat} : s.locks.program (.worker w) = [] →
      Step s (.wake w) { s with locks := s.locks.append (.worker w) takeTask }
  | lock {t : Thread} {m : Mutex} {l : Locks.State Thread Mutex Effect} :
      Locks.Step s.locks t (.lock m) l → Step s (.lock t m) { s with locks := l }
  | unlock {t : Thread} {m : Mutex} {l : Locks.State Thread Mutex Effect} :
      Locks.Step s.locks t (.unlock m) l → Step s (.unlock t m) { s with locks := l }
  | enqueue {task : Task} {l : Locks.State Thread Mutex Effect} :
      Locks.Step s.locks .spin (.run (.enqueue task)) l → Step s (.enqueue task) ⟨l, s.tasks_ ++ [task]⟩
  | dequeue {w : Nat} {task : Task} {tasks : List Task} {l : Locks.State Thread Mutex Effect} :
      Locks.Step s.locks (.worker w) (.run .dequeue) l → s.tasks_ = task :: tasks →
      Step s (.dequeue w) ⟨l.append (.worker w) task.program, tasks⟩
  | empty {w : Nat} {l : Locks.State Thread Mutex Effect} :
      Locks.Step s.locks (.worker w) (.run .dequeue) l → s.tasks_ = [] →
      Step s (.dequeue w) { s with locks := l }

/-! ## The order of the mutexes -/

def Mutex.rank : Mutex → Nat
  | .sub _ => 0
  | .registry_mutex_ => 1
  | .node_mutex_ => 2
  | .pool => 3
  | .timer _ => 4
  | .shm => 4
  | .topic _ => 4
  | .event => 4

theorem Mutex.rank_le (m : Mutex) : m.rank ≤ 4 := by cases m <;> simp [Mutex.rank]

/-- Everything held comes before the mutex. -/
def Above (held : Finset Mutex) (m : Mutex) : Prop := ∀ h ∈ held, h.rank < m.rank

/-- **What a thread may do with the mutexes it holds**: the spin thread takes a subscriber's mutex out of order, and a
worker looks at the queue outside of callbacks. -/
def Rule : Thread → Finset Mutex → Locks.Op Mutex Effect → Prop
  | .spin, held, .lock m => Above held m ∨ held = {.node_mutex_, .registry_mutex_} ∧ ∃ id, m = .sub id
  | .worker _, held, .lock m => Above held m ∧ m ≠ .node_mutex_
  | .worker _, held, .run .dequeue => ∀ id, .sub id ∉ held
  | _, _, _ => True

theorem rule_lock {held : Finset Mutex} {m : Mutex} (h : Above held m) (hm : m ≠ .node_mutex_) :
    ∀ t, Rule t held (.lock m)
  | .spin => .inl h
  | .worker _ => ⟨h, hm⟩

theorem Above.notMem {held : Finset Mutex} {m : Mutex} (h : Above held m) : m ∉ held :=
  fun hmem => lt_irrefl _ (h m hmem)

theorem block_critical {t : Thread} {held : Finset Mutex} {m : Mutex} {p : Program} (h : Above held m)
    (hm : m ≠ .node_mutex_) (hp : Block (Rule t) (insert m held) p) : Block (Rule t) held (critical m p) :=
  .critical (rule_lock h hm t) h.notMem hp

theorem block_leaf {t : Thread} {held : Finset Mutex} {m : Mutex} (hm : m.rank = 4) (h : ∀ n ∈ held, n.rank < 4) :
    Block (Rule t) held (critical m []) := by
  have habove : Above held m := fun n hn => hm ▸ h n hn
  refine block_critical habove ?_ .nil
  rintro rfl
  cases hm

section Publish

variable {t : Thread} {held : Finset Mutex}

/-- A callback holds at most the mutex of its subscriber. -/
def OnlySubs (held : Finset Mutex) : Prop := ∀ n ∈ held, n.rank = 0

theorem OnlySubs.above_registry (h : OnlySubs held) : Above held .registry_mutex_ := by
  intro n hn
  rw [h n hn]
  exact Nat.zero_lt_one

theorem OnlySubs.lt_leaf (h : OnlySubs held) : ∀ n ∈ insert .registry_mutex_ held, n.rank < 4 := by
  intro n hn
  rcases Finset.mem_insert.1 hn with rfl | hn
  · decide
  · rw [h n hn]
    decide

theorem block_registry {p : Program} (h : OnlySubs held) (hp : Block (Rule t) (insert .registry_mutex_ held) p) :
    Block (Rule t) held (critical .registry_mutex_ p) :=
  block_critical h.above_registry Mutex.noConfusion hp

theorem block_isTopicExist (h : OnlySubs held) : Block (Rule t) held isTopicExist := block_registry h .nil

theorem block_addPubTopic (h : OnlySubs held) (writes : Fin 3) : Block (Rule t) held (addPubTopic writes) :=
  block_registry h (.flatMap fun _ _ => block_leaf rfl h.lt_leaf)

theorem block_triggerEvent (h : OnlySubs held) (hasId : Bool) : Block (Rule t) held (triggerEvent hasId) := by
  refine block_registry h ?_
  cases hasId with
  | false => exact .nil
  | true => exact block_leaf rfl h.lt_leaf

theorem block_write (h : OnlySubs held) (topic : Nat) : Block (Rule t) held (write topic) :=
  block_leaf rfl fun n hn => h.lt_leaf n (Finset.mem_insert_of_mem hn)

/-- **A publish takes its mutexes in order**, from a callback as well as outside of one. -/
theorem block_publish (h : OnlySubs held) (c : Publish) : Block (Rule t) held (publish c) := by
  refine .flatMap fun p hp => ?_
  have hmem : p ∈ c.sections := List.mem_of_mem_take hp
  simp only [Publish.sections, List.mem_append, List.mem_cons, List.not_mem_nil, or_false] at hmem
  rcases hmem with (rfl | hnew) | rfl | rfl
  · exact block_isTopicExist h
  · cases hc : c.isNew with
    | false => simp [hc] at hnew
    | true =>
      obtain rfl : p = addPubTopic c.writes := by simpa [hc] using hnew
      exact block_addPubTopic h c.writes
  · exact block_write h c.topic
  · exact block_triggerEvent h c.hasId

theorem block_callback (h : OnlySubs held) (callback : List Publish) :
    Block (Rule t) held (callback.flatMap publish) :=
  .flatMap fun c _ => block_publish h c

end Publish

theorem OnlySubs.empty : OnlySubs ∅ := fun _ hn => absurd hn (Finset.notMem_empty _)

/-- **A task takes its mutexes in order.** -/
theorem scoped_task (w : Nat) : ∀ task : Task, Scoped (Rule (.worker w)) ∅ task.program
  | .timer callback => (block_callback .empty callback).scoped
  | .subscription id callback => by
    have hsub : OnlySubs {.sub id} := fun n hn => by
      rw [Finset.mem_singleton.1 hn]
      rfl
    have habove : Above ∅ (.sub id) := fun n hn => absurd hn (Finset.notMem_empty n)
    have hexec := block_critical (t := .worker w) habove Mutex.noConfusion (block_callback hsub callback)
    exact hexec.scoped

theorem scoped_takeTask (w : Nat) : Scoped (Rule (.worker w)) ∅ takeTask := by
  have habove : Above ∅ .pool := fun n hn => absurd hn (Finset.notMem_empty n)
  have hrun : Rule (.worker w) {.pool} (.run .dequeue) := fun id hmem => Mutex.noConfusion (Finset.mem_singleton.1 hmem)
  exact (block_critical habove Mutex.noConfusion (.run hrun)).scoped

/-! ## The spin thread -/

/-- Where the source takes `Subscriber::mutex_` out of order. -/
theorem block_sub (id : Nat) :
    Block (Rule .spin) {.node_mutex_, .registry_mutex_} (critical (.sub id) []) := by
  refine .critical (.inr ⟨rfl, id, rfl⟩) ?_ .nil
  simp

theorem block_enqueue {held : Finset Mutex} (h : ∀ n ∈ held, n.rank < 3) (task : Task) :
    Block (Rule .spin) held (enqueue task) :=
  block_critical (m := .pool) h Mutex.noConfusion (.run trivial)

theorem block_dispatched (r : Round) : Block (Rule .spin) {.registry_mutex_} r.dispatched := by
  unfold Round.dispatched
  split
  · have hnode : Above {.registry_mutex_} .node_mutex_ := by simp [Above, Mutex.rank]
    have htasks : Block (Rule .spin) {.node_mutex_, .registry_mutex_} (r.triggered.flatMap dispatch) := by
      refine .flatMap fun task _ => (block_sub task.1).append (block_enqueue ?_ _)
      simp [Mutex.rank]
    have hclear : Block (Rule .spin) {.registry_mutex_} (r.triggered.flatMap fun _ => clearTriggerEvent) :=
      .flatMap fun _ _ => block_leaf rfl (by simp [Mutex.rank])
    exact (Block.critical (.inl hnode) (by simp) htasks).append hclear
  · exact .nil

theorem block_checkTimer (timer : Nat × Option (List Publish)) : Block (Rule .spin) ∅ (checkTimer timer) := by
  refine Block.append (block_leaf rfl (by simp)) ?_
  cases timer.2 with
  | none => exact .nil
  | some callback => exact block_enqueue (by simp) _

/-- **A round releases what it takes**, in order but for the subscribers' mutexes. -/
theorem scoped_spinRound (r : Round) : Scoped (Rule .spin) ∅ (spinRound r) := by
  have hleaf {m : Mutex} (hm : m.rank = 4) : Block (Rule .spin) ∅ (critical m []) := block_leaf hm (by simp)
  have hround : Block (Rule .spin) ∅ (critical .registry_mutex_ r.dispatched) :=
    block_registry .empty (by simpa using block_dispatched r)
  have hsync : Block (Rule .spin) ∅ (if r.sync then syncRegistryFromShm ++ clearTriggerEvent else []) := by
    split
    · have hshm : Block (Rule .spin) (insert .registry_mutex_ ∅) (critical .shm []) :=
        block_leaf rfl OnlySubs.empty.lt_leaf
      exact (block_registry .empty (hshm.append hshm)).append (hleaf rfl)
    · exact .nil
  have htimers : Block (Rule .spin) ∅ (r.timers.flatMap checkTimer) := .flatMap fun timer _ => block_checkTimer timer
  exact (((((hleaf rfl).append (hleaf rfl)).append hround).append hsync).append htimers).scoped

/-- **One step of the node keeps every thread in its scope.** -/
theorem sound_step {s s' : NodeState} {a : Act} (h : s.locks.Sound Rule) (hs : Act.Step s a s') :
    s'.locks.Sound Rule := by
  cases hs with
  | spinRound _ => exact h.append (scoped_spinRound _)
  | wake _ => exact h.append (scoped_takeTask _)
  | lock hl => exact h.step hl
  | unlock hl => exact h.step hl
  | enqueue hl => exact h.step hl
  | dequeue hl _ => exact (h.step hl).append (scoped_task _ _)
  | empty hl _ => exact h.step hl

/-! ## Where the two orders cross -/

open Locks (LocksBefore)

/-- The spin thread holds the registry and is still to take a subscriber's mutex, and the worker that holds it is still
to take the registry. -/
def Crossed (s : NodeState) (id w : Nat) : Prop :=
  s.locks.Crossed .spin (.worker w) .registry_mutex_ (.sub id)

/-- **The spin thread and the callbacks keep out of each other's way**: `registry_mutex_` is not taken for a round that
takes the mutex of a subscription whose callback is still to publish, and no callback that publishes is started while
the spin thread holds `registry_mutex_` and is still to take its subscription's mutex. -/
def NotAcross (s : NodeState) : Act → Prop
  | .lock .spin .registry_mutex_ => ∀ id w, LocksBefore (.sub id) .registry_mutex_ (s.locks.program .spin) →
      s.locks.owner (.sub id) = some (.worker w) →
      ¬ LocksBefore .registry_mutex_ (.sub id) (s.locks.program (.worker w))
  | .lock (.worker w) (.sub id) => LocksBefore .registry_mutex_ (.sub id) (s.locks.program (.worker w)) →
      s.locks.owner .registry_mutex_ = some .spin →
      ¬ LocksBefore (.sub id) .registry_mutex_ (s.locks.program .spin)
  | _ => True

/-- No thread is across another, and every thread is in its scope. -/
structure NodeState.Clear (s : NodeState) : Prop where
  sound : s.locks.Sound Rule
  notCrossed : ∀ id w, ¬ Crossed s id w

theorem NodeState.init_clear : NodeState.init.Clear where
  sound := .init
  notCrossed _ _ h := by cases h.left

theorem not_crossed_of_op {s : NodeState} {t : Thread} {o : Locks.Op Mutex Effect}
    {l : Locks.State Thread Mutex Effect} (h : s.Clear) (hs : Locks.Step s.locks t o l)
    (hg : ∀ m, o = .lock m → NotAcross s (.lock t m)) (id w : Nat) :
    ¬ l.Crossed .spin (.worker w) .registry_mutex_ (.sub id) := by
  intro hc
  rcases hc.of_step Thread.noConfusion hs with hc | ⟨hspin, hworker, ⟨rfl, rfl, hown⟩ | ⟨rfl, rfl, hown⟩⟩
  · exact h.notCrossed id w hc
  · exact hg _ rfl id w hspin hown hworker
  · exact hg _ rfl hworker hown hspin

theorem not_crossed_of_idle {s : NodeState} {t : Thread} {p : Program} (h : s.Clear) (ht : s.locks.program t = [])
    (id w : Nat) : ¬ (s.locks.append t p).Crossed .spin (.worker w) .registry_mutex_ (.sub id) :=
  fun hc => h.notCrossed id w (hc.of_append (h.sound.idle ht _) (h.sound.idle ht _))

/-- A worker that takes a task holds no subscriber's mutex. -/
theorem not_held_of_dequeue {s : NodeState} {w : Nat} {l : Locks.State Thread Mutex Effect} (h : s.Clear)
    (hs : Locks.Step s.locks (.worker w) (.run .dequeue) l) (id : Nat) : l.owner (.sub id) ≠ some (.worker w) := by
  obtain ⟨held, howner, hrule⟩ := h.sound.next hs.next nofun
  intro hown
  obtain ⟨-, hown | ⟨-, heq⟩⟩ := hs.owner_cases hown
  · exact hrule id ((howner _).1 hown)
  · cases heq

/-- **One step that is not across keeps the node clear.** -/
theorem NodeState.Clear.step {s s' : NodeState} {a : Act} (h : s.Clear) (hg : NotAcross s a) (hs : Act.Step s a s') :
    s'.Clear where
  sound := sound_step h.sound hs
  notCrossed id w := by
    cases hs with
    | spinRound hidle => exact not_crossed_of_idle h hidle id w
    | wake hidle => exact not_crossed_of_idle h hidle id w
    | lock hl =>
      refine not_crossed_of_op h hl (fun m hm => ?_) id w
      obtain rfl := Locks.Op.lock.inj hm
      exact hg
    | unlock hl => exact not_crossed_of_op h hl nofun id w
    | enqueue hl => exact not_crossed_of_op h hl nofun id w
    | @dequeue v task tasks l hl _ =>
      intro hc
      have hreg : l.owner .registry_mutex_ ≠ some (.worker v) := fun hown => by
        have hspin := hc.left
        change l.owner .registry_mutex_ = some .spin at hspin
        rw [hspin] at hown
        cases hown
      exact not_crossed_of_op h hl nofun id w (hc.of_append hreg (not_held_of_dequeue h hl id))
    | empty hl _ => exact not_crossed_of_op h hl nofun id w

/-! ## No deadlock -/

/-- **A thread that takes a mutex out of order is the spin thread**, with the registry and the node in its hands. -/
theorem spin_of_unranked {s : NodeState} (h : s.locks.Sound Rule) {t : Thread} {m n : Mutex} (hw : s.locks.Wants t m)
    (hown : s.locks.owner n = some t) (hle : m.rank ≤ n.rank) :
    t = .spin ∧ (∃ id, m = .sub id) ∧ n.rank ≤ 2 ∧ s.locks.owner .registry_mutex_ = some .spin := by
  obtain ⟨p, hp⟩ := hw
  obtain ⟨held, howner, hrule⟩ := h.next hp nofun
  have hn : n ∈ held := (howner n).1 hown
  cases t with
  | worker w => exact absurd (hrule.1 n hn) (by omega)
  | spin =>
    rcases hrule with habove | ⟨rfl, hid⟩
    · exact absurd (habove n hn) (by omega)
    · refine ⟨rfl, hid, ?_, (howner _).2 (by simp)⟩
      rcases Finset.mem_insert.1 hn with rfl | hn
      · rfl
      · rw [Finset.mem_singleton.1 hn]
        decide

/-- A worker that holds a subscriber's mutex waits neither for `node_mutex_` nor for a subscriber's mutex. -/
theorem wants_of_callback {s : NodeState} (h : s.locks.Sound Rule) {w id : Nat} {m : Mutex}
    (hw : s.locks.Wants (.worker w) m) (hown : s.locks.owner (.sub id) = some (.worker w)) :
    m ≠ .node_mutex_ ∧ 0 < m.rank := by
  obtain ⟨p, hp⟩ := hw
  obtain ⟨held, howner, hrule⟩ := h.next hp nofun
  exact ⟨hrule.2, hrule.1 _ ((howner _).1 hown)⟩

/-- **Where nobody is crossed nobody is deadlocked.** -/
theorem NodeState.Clear.not_deadlocked {s : NodeState} (h : s.Clear) (D : Set Thread) : ¬ s.locks.Deadlocked D := by
  intro hd
  obtain ⟨t₀, ht₀⟩ := hd.1
  obtain ⟨m₀, hm₀, -⟩ := hd.2 t₀ ht₀
  -- the chain of owners leads to the spin thread, which waits for a subscriber's mutex
  obtain ⟨t, ht, m, n, hw, hown, -, hle⟩ := hd.exists_unranked Mutex.rank_le ht₀ hm₀
  obtain ⟨rfl, ⟨id, rfl⟩, -, hreg⟩ := spin_of_unranked h.sound hw hown hle
  obtain ⟨m', hm', u, hu, hne, hsub⟩ := hd.2 _ ht
  obtain rfl := hw.unique hm'
  cases u with
  | spin => exact hne rfl
  | worker w =>
    -- its owner waits in turn, for the registry or for a mutex whose owner comes back to the spin thread
    obtain ⟨k, hk, -⟩ := hd.2 _ hu
    obtain ⟨hnode, hpos⟩ := wants_of_callback h.sound hk hsub
    obtain ⟨v, -, i, j, hv, hj, hkj, hij⟩ := hd.exists_unranked Mutex.rank_le hu hk
    obtain ⟨-, -, hj2, -⟩ := spin_of_unranked h.sound hv hj hij
    obtain ⟨p, hp⟩ := hw
    obtain ⟨q, hq⟩ := hk
    cases k with
    | registry_mutex_ =>
      refine h.notCrossed id w ⟨hreg, hsub, ?_, ?_⟩
      · rw [hp]
        exact .head
      · rw [hq]
        exact .head
    | node_mutex_ => exact hnode rfl
    | sub i => exact absurd hpos (lt_irrefl 0)
    | pool => exact absurd (hkj.trans hj2) (by decide)
    | timer i => exact absurd (hkj.trans hj2) (by simp [Mutex.rank])
    | shm => exact absurd (hkj.trans hj2) (by decide)
    | topic i => exact absurd (hkj.trans hj2) (by simp [Mutex.rank])
    | event => exact absurd (hkj.trans hj2) (by decide)

/-- **No set of threads is deadlocked**, in any state of any run in which the spin thread and the callbacks keep out of
each other's way. -/
theorem not_deadlocked_of_run {s : NodeState} {as : List Act} (h : Trans.Run Act.Step NotAcross NodeState.init as s)
    (D : Set Thread) : ¬ s.locks.Deadlocked D := by
  refine (h.invariant (P := NodeState.Clear) NodeState.init_clear ?_).not_deadlocked D
  exact fun _ _ _ hc hg hs => hc.step hg hs

/-- **Crossed threads never come apart**: the spin thread keeps the registry and the worker its subscriber's mutex in
every state that is reached from there. -/
theorem crossed_of_run {s s' : NodeState} {as : List Act} {id w : Nat} (h : Crossed s id w)
    (hr : Trans.Run Act.Step Trans.free s as s') : Crossed s' id w := by
  refine hr.invariant (P := fun s => Crossed s id w) h ?_
  intro s a s' hc _ hs
  cases hs with
  | spinRound _ => exact hc.append
  | wake _ => exact hc.append
  | lock hl => exact hc.step hl
  | unlock hl => exact hc.step hl
  | enqueue hl => exact hc.step hl
  | dequeue hl _ => exact (Locks.State.Crossed.step hc hl).append
  | empty hl _ => exact hc.step hl

/-- **A step that is across is the end of both threads**: whatever is done after it, the spin thread keeps the registry,
and a worker the mutex that the spin thread waits for. -/
theorem crossed_of_across {s s' t : NodeState} {a : Act} {as : List Act} (hg : ¬ NotAcross s a) (hs : Act.Step s a s')
    (hr : Trans.Run Act.Step Trans.free s' as t) : ∃ id w, Crossed t id w := by
  cases hs with
  | @lock t m l hl =>
    cases t with
    | spin =>
      cases m with
      | registry_mutex_ =>
        simp only [NotAcross, not_forall, not_not] at hg
        obtain ⟨id, w, hspin, hown, hworker⟩ := hg
        have hc : Crossed { s with locks := l } id w := .of_lock hl Thread.noConfusion hown hspin hworker
        exact ⟨id, w, crossed_of_run hc hr⟩
      | _ => exact absurd trivial hg
    | worker w =>
      cases m with
      | sub id =>
        simp only [NotAcross, not_forall, not_not] at hg
        obtain ⟨hworker, hown, hspin⟩ := hg
        have hc : Crossed { s with locks := l } id w :=
          Locks.State.Crossed.symm (.of_lock hl Thread.noConfusion hown hworker hspin)
        exact ⟨id, w, crossed_of_run hc hr⟩
      | _ => exact absurd trivial hg
  | _ => exact absurd trivial hg

/-! ## Schedules -/

/-- What the thread does next, if it is not idle and does not wait. -/
def NodeState.advance (s : NodeState) (t : Thread) : Option (Act × NodeState) :=
  match t, s.locks.advance t with
  | t, some (.lock m, l) => some (.lock t m, { s with locks := l })
  | t, some (.unlock m, l) => some (.unlock t m, { s with locks := l })
  | .spin, some (.run (.enqueue task), l) => some (.enqueue task, ⟨l, s.tasks_ ++ [task]⟩)
  | .worker w, some (.run .dequeue, l) =>
    match s.tasks_ with
    | [] => some (.dequeue w, { s with locks := l })
    | task :: tasks => some (.dequeue w, ⟨l.append (.worker w) task.program, tasks⟩)
  | _, _ => none

theorem NodeState.step_of_advance {s s' : NodeState} {t : Thread} {a : Act} (h : s.advance t = some (a, s')) :
    Act.Step s a s' := by
  unfold NodeState.advance at h
  split at h
  · rename_i hl
    obtain ⟨rfl, rfl⟩ := Prod.mk.inj (Option.some.inj h)
    exact .lock (Locks.State.step_of_advance hl)
  · rename_i hl
    obtain ⟨rfl, rfl⟩ := Prod.mk.inj (Option.some.inj h)
    exact .unlock (Locks.State.step_of_advance hl)
  · rename_i hl
    obtain ⟨rfl, rfl⟩ := Prod.mk.inj (Option.some.inj h)
    exact .enqueue (Locks.State.step_of_advance hl)
  · rename_i hl
    split at h
    · rename_i hempty
      obtain ⟨rfl, rfl⟩ := Prod.mk.inj (Option.some.inj h)
      exact .empty (Locks.State.step_of_advance hl) hempty
    · rename_i htasks
      obtain ⟨rfl, rfl⟩ := Prod.mk.inj (Option.some.inj h)
      exact .dequeue (Locks.State.step_of_advance hl) htasks
  · cases h

/-- The threads of the list take one step each, in that order, as long as the steps are `ok`. -/
def NodeState.schedule (ok : NodeState → Act → Bool) : NodeState → List Thread → Option NodeState
  | s, [] => some s
  | s, t :: ts => match s.advance t with
    | some (a, s') => if ok s a then s'.schedule ok ts else none
    | none => none

theorem NodeState.run_of_schedule {ok : NodeState → Act → Bool} {guard : NodeState → Act → Prop}
    (hok : ∀ s a, ok s a = true → guard s a) : ∀ {ts : List Thread} {s s' : NodeState},
    s.schedule ok ts = some s' → ∃ as, Trans.Run Act.Step guard s as s'
  | [], _, _, h => by
    obtain rfl := Option.some.inj h
    exact ⟨[], .nil⟩
  | t :: ts, s, s', h => by
    unfold NodeState.schedule at h
    split at h
    · rename_i a u hu
      split at h
      · rename_i ha
        obtain ⟨as, hr⟩ := NodeState.run_of_schedule hok h
        exact ⟨a :: as, (Trans.Run.single (hok s a ha) (NodeState.step_of_advance hu)).trans hr⟩
      · cases h
    · cases h

/-! ## Two runs -/

/-- A publish on a topic that the registry knows. -/
def echo : Publish := ⟨0, false, 0, true, 3⟩

/-- A round in which one subscription is triggered, whose callback publishes. -/
def echoRound : Round := ⟨true, [(0, [echo])], false, []⟩

def NodeState.startRound (s : NodeState) (r : Round) : NodeState :=
  { s with locks := s.locks.append .spin (spinRound r) }

def NodeState.wake (s : NodeState) (w : Nat) : NodeState :=
  { s with locks := s.locks.append (.worker w) takeTask }

/-- The spin thread does not take the registry, and no worker a subscriber's mutex while the spin thread has it. -/
def apart (s : NodeState) : Act → Bool
  | .lock .spin .registry_mutex_ => false
  | .lock (.worker _) (.sub _) => s.locks.owner .registry_mutex_ ≠ some .spin
  | _ => true

theorem notAcross_of_apart (s : NodeState) (a : Act) (h : apart s a = true) : NotAcross s a := by
  cases a with
  | lock t m =>
    cases t with
    | spin =>
      cases m with
      | registry_mutex_ => cases h
      | _ => trivial
    | worker w =>
      cases m with
      | sub id => exact fun _ hown => absurd hown (of_decide_eq_true h)
      | _ => trivial
  | _ => trivial

/-- The spin thread is about to take the registry. -/
def waited : NodeState := ((NodeState.init.startRound echoRound).schedule apart (List.replicate 4 .spin)).get rfl

def registryTaken : NodeState := { waited with locks := (waited.locks.advance .spin).get rfl |>.2 }

/-- The round is over: the task of the subscription is in the pool's queue. -/
def enqueued : NodeState := (registryTaken.schedule apart (List.replicate 10 .spin)).get rfl

/-- A worker has taken the task, and its callback is about to publish. -/
def inCallback : NodeState := ((enqueued.wake 0).schedule apart (List.replicate 4 (.worker 0))).get rfl

theorem run_inCallback : ∃ as, Trans.Run Act.Step NotAcross NodeState.init as inCallback := by
  have hstart : Act.Step NodeState.init (.spinRound echoRound) (NodeState.init.startRound echoRound) := .spinRound rfl
  have hfirst : Trans.Run Act.Step NotAcross NodeState.init _ _ := .single (by trivial) hstart
  obtain ⟨as₁, h₁⟩ : ∃ as, Trans.Run Act.Step NotAcross (NodeState.init.startRound echoRound) as waited :=
    NodeState.run_of_schedule notAcross_of_apart (Option.some_get _).symm
  have htake : Act.Step waited (.lock .spin .registry_mutex_) registryTaken := .lock (.lock rfl rfl)
  obtain ⟨as₂, h₂⟩ : ∃ as, Trans.Run Act.Step NotAcross registryTaken as enqueued :=
    NodeState.run_of_schedule notAcross_of_apart (Option.some_get _).symm
  have hwake : Act.Step enqueued (.wake 0) (enqueued.wake 0) := .wake rfl
  obtain ⟨as₃, h₃⟩ : ∃ as, Trans.Run Act.Step NotAcross (enqueued.wake 0) as inCallback :=
    NodeState.run_of_schedule notAcross_of_apart (Option.some_get _).symm
  have hround := ((hfirst.trans h₁).snoc (by intro id w _ hown; cases hown) htake).trans h₂
  exact ⟨_, (hround.snoc (by trivial) hwake).trans h₃⟩

/-- The worker triggers the event, with the subscriber's mutex and the registry in its hands. -/
def publishing : NodeState := (inCallback.schedule apart (List.replicate 6 (.worker 0))).get rfl

/-- A round enqueues the task of a subscription, and its callback publishes. -/
theorem clear_of_round : publishing.locks.owner (.sub 0) = some (.worker 0) ∧
    publishing.locks.owner .registry_mutex_ = some (.worker 0) ∧
    publishing.locks.owner .event = some (.worker 0) ∧ ∀ D : Set Thread, ¬ publishing.locks.Deadlocked D := by
  obtain ⟨as, h⟩ := run_inCallback
  obtain ⟨bs, hpublish⟩ : ∃ as, Trans.Run Act.Step NotAcross inCallback as publishing :=
    NodeState.run_of_schedule notAcross_of_apart (Option.some_get _).symm
  exact ⟨rfl, rfl, rfl, not_deadlocked_of_run (h.trans hpublish)⟩

/-- The spin thread is back, with the registry and the node in its hands, and waits for the subscriber's mutex. -/
def deadlocked : NodeState :=
  ((inCallback.startRound echoRound).schedule (fun _ _ => true) (List.replicate 6 .spin)).get rfl

theorem run_deadlocked : ∃ as, Trans.Run Act.Step Trans.free NodeState.init as deadlocked := by
  obtain ⟨as, h⟩ := run_inCallback
  have hsecond : Act.Step inCallback (.spinRound echoRound) (inCallback.startRound echoRound) := .spinRound rfl
  obtain ⟨bs, hspin⟩ : ∃ as, Trans.Run Act.Step Trans.free (inCallback.startRound echoRound) as deadlocked :=
    NodeState.run_of_schedule (fun _ _ _ => trivial) (Option.some_get _).symm
  exact ⟨_, ((h.weaken fun _ _ _ => trivial).snoc trivial hsecond).trans hspin⟩

/-- The spin thread waits for the callback's worker, and the worker for the spin thread. -/
theorem not_deadlocked_not_always : ¬ ∀ (s : NodeState) (as : List Act),
    Trans.Run Act.Step Trans.free NodeState.init as s → ∀ D : Set Thread, ¬ s.locks.Deadlocked D := by
  intro h
  obtain ⟨as, hrun⟩ := run_deadlocked
  refine h _ as hrun {.spin, .worker 0} ⟨⟨.spin, .inl rfl⟩, ?_⟩
  rintro t (rfl | rfl)
  · exact ⟨.sub 0, ⟨_, rfl⟩, .worker 0, .inr rfl, nofun, rfl⟩
  · exact ⟨.registry_mutex_, ⟨_, rfl⟩, .spin, .inl rfl, nofun, rfl⟩

end NodeLocks
end MiniRos2

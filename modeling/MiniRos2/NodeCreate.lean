import MiniRos2.NodeLocks
/-!
# NodeCreate — subscriptions created while the node spins

`createSubscriber` takes `node_mutex_` and inside it, by `addSubTopic` and `registerTopicEvent`, `registry_mutex_`; a
round of `spinLoop` that has an event takes them the other way round.  While no operation crosses the two nobody is
deadlocked (`not_deadlocked_creating`), and one that does is the end of both threads (`creation_crossed_of_across`).
-/
namespace MiniRos2
namespace NodeCreate

open Locks (Scoped Block critical LocksBefore)
open NodeLocks (Mutex Effect Program Round Above block_leaf scoped_spinRound spinRound)

/-- The spin thread, and the threads that create. -/
inductive Thread where
  | spin
  | caller (k : Nat)
  deriving DecidableEq

/-- **One call of `createSubscriber`**: its subscriber, whether `subscribe` returns, whether the node table is written,
which throws if not, and whether the topics are. -/
structure Subscription where
  id : Nat
  opened : Bool
  counted : Bool
  named : Bool

inductive Creation where
  | subscriber (c : Subscription)
  | publisher
  | timer

/-! ## The locks of each function -/

def setCallback (id : Nat) : Program := critical (.sub id) []

/-- The write of a section, if it gets as far as the lock of the region. -/
def writeSection (writes : Bool) : Program := if writes then critical .shm [] else []

def addSubTopic (counted : Bool) : Program := critical .registry_mutex_ (writeSection counted)

def registerTopicEvent (named : Bool) : Program := critical .registry_mutex_ (writeSection named)

def createSubscriber (c : Subscription) : Program :=
  setCallback c.id ++
    if c.opened then
      critical .node_mutex_ (addSubTopic c.counted ++ if c.counted then registerTopicEvent c.named else [])
    else []

def createPublisher : Program := critical .node_mutex_ []

def createTimer : Program := critical .node_mutex_ []

def Creation.program : Creation → Program
  | .subscriber c => createSubscriber c
  | .publisher => createPublisher
  | .timer => createTimer

/-! ## The node -/

abbrev NodeState := Locks.State Thread Mutex Effect

inductive Act where
  | spinRound (r : Round)
  | create (k : Nat) (c : Creation)
  | op (t : Thread) (o : Locks.Op Mutex Effect)

/-- **One step of one thread.** -/
inductive Act.Step (s : NodeState) : Act → NodeState → Prop where
  | spinRound {r : Round} : s.program .spin = [] → Step s (.spinRound r) (s.append .spin (NodeLocks.spinRound r))
  | create {k : Nat} {c : Creation} : s.program (.caller k) = [] →
      Step s (.create k c) (s.append (.caller k) c.program)
  | op {t : Thread} {o : Locks.Op Mutex Effect} {s' : NodeState} : Locks.Step s t o s' → Step s (.op t o) s'

/-! ## The order of the mutexes -/

/-- **What a thread that creates may hold when it takes a mutex.** -/
inductive CallerRule : Finset Mutex → Mutex → Prop where
  | first {m : Mutex} : m ≠ .registry_mutex_ → CallerRule ∅ m
  | registry : CallerRule {.node_mutex_} .registry_mutex_
  | shm : CallerRule {.registry_mutex_, .node_mutex_} .shm

def Rule : Thread → Finset Mutex → Locks.Op Mutex Effect → Prop
  | .spin, held, o => NodeLocks.Rule .spin held o
  | .caller _, held, .lock m => CallerRule held m
  | .caller _, _, _ => True

section Blocks

variable {k : Nat}

theorem block_first {m : Mutex} {p : Program} (hm : m ≠ .registry_mutex_) (hp : Block (Rule (.caller k)) {m} p) :
    Block (Rule (.caller k)) ∅ (critical m p) :=
  .critical (.first hm) (Finset.notMem_empty m) hp

theorem block_section (writes : Bool) :
    Block (Rule (.caller k)) {.node_mutex_} (critical .registry_mutex_ (writeSection writes)) := by
  refine .critical .registry (by simp) ?_
  cases writes with
  | false => exact .nil
  | true => exact .critical .shm (by simp) .nil

theorem block_createSubscriber (c : Subscription) : Block (Rule (.caller k)) ∅ (createSubscriber c) := by
  refine (block_first Mutex.noConfusion .nil).append ?_
  split
  · refine block_first Mutex.noConfusion ((block_section c.counted).append ?_)
    split
    · exact block_section c.named
    · exact .nil
  · exact .nil

/-- **A creation releases what it takes**, and takes `registry_mutex_` inside `node_mutex_` only. -/
theorem scoped_creation (c : Creation) : Scoped (Rule (.caller k)) ∅ c.program := by
  cases c with
  | subscriber c => exact (block_createSubscriber c).scoped
  | publisher => exact (block_first Mutex.noConfusion .nil).scoped
  | timer => exact (block_first Mutex.noConfusion .nil).scoped

end Blocks

theorem sound_step {s s' : NodeState} {a : Act} (h : s.Sound Rule) (hs : Act.Step s a s') : s'.Sound Rule := by
  cases hs with
  | spinRound _ => exact h.append (scoped_spinRound _)
  | create _ => exact h.append (scoped_creation _)
  | op ho => exact h.step ho

/-! ## Where the two orders cross -/

/-- The spin thread holds the registry and is still to take `node_mutex_`, whose owner is still to take the registry. -/
def Crossed (s : NodeState) (k : Nat) : Prop :=
  Locks.State.Crossed s .spin (.caller k) .registry_mutex_ .node_mutex_

/-- **The spin thread and the creations keep out of each other's way**: `registry_mutex_` is not taken for a round with
an event while `node_mutex_` is held by a `createSubscriber` that is still to register, and `createSubscriber` does not
take `node_mutex_` while the spin thread holds `registry_mutex_` and is still to take `node_mutex_`. -/
def NotAcross (s : NodeState) : Act → Prop
  | .op t o => ∀ k, ¬ Locks.State.Across s .spin (.caller k) .registry_mutex_ .node_mutex_ t o
  | _ => True

structure Clear (s : NodeState) : Prop where
  sound : s.Sound Rule
  notCrossed : ∀ k, ¬ Crossed s k

theorem init_clear : Clear .init where
  sound := .init
  notCrossed _ h := by cases h.left

/-- **One step that is not across keeps the node clear.** -/
theorem Clear.step {s s' : NodeState} {a : Act} (h : Clear s) (hg : NotAcross s a) (hs : Act.Step s a s') :
    Clear s' where
  sound := sound_step h.sound hs
  notCrossed k hc := by
    cases hs with
    | spinRound hidle => exact h.notCrossed k (hc.of_append (h.sound.idle hidle _) (h.sound.idle hidle _))
    | create hidle => exact h.notCrossed k (hc.of_append (h.sound.idle hidle _) (h.sound.idle hidle _))
    | op ho =>
      rcases hc.of_step Thread.noConfusion ho with hc | hacross
      · exact h.notCrossed k hc
      · exact hg k hacross

/-! ## No deadlock -/

/-- A thread that creates owns what it holds, and takes the registry last. -/
theorem caller_next {s : NodeState} (h : s.Sound Rule) {k : Nat} {m : Mutex} (hw : s.Wants (.caller k) m) :
    ∃ held : Finset Mutex, (∀ n, s.owner n = some (.caller k) ↔ n ∈ held) ∧ CallerRule held m := by
  obtain ⟨p, hp⟩ := hw
  exact h.next hp (by simp)

theorem spin_next {s : NodeState} (h : s.Sound Rule) {m : Mutex} (hw : s.Wants .spin m) :
    ∃ held : Finset Mutex, (∀ n, s.owner n = some .spin ↔ n ∈ held) ∧
      (Above held m ∨ held = {.node_mutex_, .registry_mutex_} ∧ ∃ id, m = .sub id) := by
  obtain ⟨p, hp⟩ := hw
  exact h.next hp (by simp)

theorem lt_of_unranked {s : NodeState} (h : s.Sound Rule) {t : Thread} {m n : Mutex} (hw : s.Wants t m)
    (hown : s.owner n = some t) (hle : m.rank ≤ n.rank) : n.rank < 3 := by
  cases t with
  | spin =>
    obtain ⟨held, howner, habove | ⟨rfl, -⟩⟩ := spin_next h hw
    · exact absurd (habove n ((howner n).1 hown)) (by omega)
    · have hn := (howner n).1 hown
      simp only [Finset.mem_insert, Finset.mem_singleton] at hn
      rcases hn with rfl | rfl <;> decide
  | caller k =>
    obtain ⟨held, howner, hrule⟩ := caller_next h hw
    have hn := (howner n).1 hown
    cases hrule with
    | first _ => exact absurd hn (Finset.notMem_empty n)
    | registry =>
      rw [Finset.mem_singleton.1 hn]
      decide
    | shm =>
      simp only [Finset.mem_insert, Finset.mem_singleton] at hn
      rcases hn with rfl | rfl <;> decide

theorem eq_node_of_rank {m : Mutex} (h : m.rank = 2) : m = .node_mutex_ := by
  cases m <;> simp [Mutex.rank] at h ⊢

/-- A creation that waits for the registry has `node_mutex_`, and any other thread that has the registry is the spin
thread. -/
theorem caller_of_unranked {s : NodeState} (h : s.Sound Rule) {k : Nat} {m n : Mutex} (hw : s.Wants (.caller k) m)
    (hown : s.owner n = some (.caller k)) (hle : m.rank ≤ n.rank) :
    m = .registry_mutex_ ∧ s.owner .node_mutex_ = some (.caller k) := by
  obtain ⟨held, howner, hrule⟩ := caller_next h hw
  have hn := (howner n).1 hown
  cases hrule with
  | first _ => exact absurd hn (Finset.notMem_empty n)
  | registry => exact ⟨rfl, (howner _).2 (Finset.mem_singleton_self _)⟩
  | shm =>
    simp only [Finset.mem_insert, Finset.mem_singleton] at hn
    rcases hn with rfl | rfl <;> exact absurd hle (by decide)

/-- **Where nobody is crossed nobody is deadlocked.** -/
theorem Clear.not_deadlocked {s : NodeState} (h : Clear s) (D : Set Thread) : ¬ s.Deadlocked D := by
  intro hd
  obtain ⟨t₀, ht₀⟩ := hd.1
  obtain ⟨m₀, hm₀, -⟩ := hd.2 t₀ ht₀
  obtain ⟨t, ht, m, n, hw, hown, -, hle⟩ := hd.exists_unranked Mutex.rank_le ht₀ hm₀
  obtain ⟨m', hm', u, hu, hne, howner⟩ := hd.2 t ht
  obtain rfl := hw.unique hm'
  obtain ⟨i, hi, -⟩ := hd.2 u hu
  cases t with
  | spin =>
    -- the spin thread waits for a subscriber's mutex, whose owner waits for nothing
    obtain ⟨held, hheld, habove | ⟨-, id, rfl⟩⟩ := spin_next h.sound hw
    · exact absurd (habove n ((hheld n).1 hown)) (by omega)
    cases u with
    | spin => exact hne rfl
    | caller k =>
      obtain ⟨held', hheld', hrule⟩ := caller_next h.sound hi
      have hsub := (hheld' _).1 howner
      cases hrule <;> simp at hsub
  | caller k =>
    obtain ⟨rfl, hnode⟩ := caller_of_unranked h.sound hw hown hle
    cases u with
    | caller l =>
      obtain ⟨held, hheld, hrule⟩ := caller_next h.sound hi
      have hreg := (hheld _).1 howner
      cases hrule with
      | first _ => exact absurd hreg (Finset.notMem_empty _)
      | registry => exact absurd (Finset.mem_singleton.1 hreg) Mutex.noConfusion
      | shm =>
        have hnode' := (hheld .node_mutex_).2 (by simp)
        rw [hnode, Option.some.injEq] at hnode'
        exact hne hnode'.symm
    | spin =>
      -- the spin thread waits for `node_mutex_`, or for a mutex from whose owner nothing leads back
      obtain ⟨held, hheld, habove | ⟨rfl, -⟩⟩ := spin_next h.sound hi
      · have hlt : 1 < i.rank := habove _ ((hheld _).1 howner)
        obtain ⟨v, -, j, l, hv, hl, hij, hjl⟩ := hd.exists_unranked Mutex.rank_le hu hi
        have hl3 := lt_of_unranked h.sound hv hl hjl
        obtain rfl := eq_node_of_rank (m := i) (by omega)
        obtain ⟨p, hp⟩ := hi
        obtain ⟨q, hq⟩ := hw
        refine h.notCrossed k ⟨howner, hnode, ?_, ?_⟩
        · rw [hp]
          exact .head
        · rw [hq]
          exact .head
      · have hnode' := (hheld .node_mutex_).2 (by simp)
        rw [hnode] at hnode'
        cases hnode'

/-- **No set of threads is deadlocked**, in any state of any run in which no operation crosses the spin thread and a
creation. -/
theorem not_deadlocked_creating {s : NodeState} {as : List Act} (h : Trans.Run Act.Step NotAcross .init as s)
    (D : Set Thread) : ¬ s.Deadlocked D := by
  refine (h.invariant (P := Clear) init_clear ?_).not_deadlocked D
  exact fun _ _ _ hc hg hs => hc.step hg hs

/-- Crossed threads never come apart. -/
theorem creation_crossed_of_run {s s' : NodeState} {as : List Act} {k : Nat} (h : Crossed s k)
    (hr : Trans.Run Act.Step Trans.free s as s') : Crossed s' k := by
  refine hr.invariant (P := fun s => Crossed s k) h ?_
  intro s a s' hc _ hs
  cases hs with
  | spinRound _ => exact hc.append
  | create _ => exact hc.append
  | op ho => exact hc.step ho

/-- **A step that is across is the end of both threads**: whatever is done after it, the spin thread keeps the registry,
and a thread that creates keeps `node_mutex_`. -/
theorem creation_crossed_of_across {s s' u : NodeState} {a : Act} {as : List Act} (hg : ¬ NotAcross s a)
    (hs : Act.Step s a s') (hr : Trans.Run Act.Step Trans.free s' as u) : ∃ k, Crossed u k := by
  cases hs with
  | op ho =>
    simp only [NotAcross, not_forall, not_not] at hg
    obtain ⟨k, hacross⟩ := hg
    exact ⟨k, creation_crossed_of_run (hacross.crossed Thread.noConfusion ho) hr⟩
  | _ => exact absurd trivial hg

/-! ## Two runs -/

/-- A round with an event, for which no subscription is there yet. -/
def eventRound : Round := ⟨true, [], false, []⟩

theorem notAcross_of_ne {s : NodeState} {t : Thread} {o : Locks.Op Mutex Effect} (hreg : o ≠ .lock .registry_mutex_)
    (hnode : o ≠ .lock .node_mutex_) : NotAcross s (.op t o) := by
  rintro k ⟨-, -, ⟨-, rfl, -⟩ | ⟨-, rfl, -⟩⟩
  · exact hreg rfl
  · exact hnode rfl

/-- No creation is still to register. -/
theorem notAcross_of_notMem {s : NodeState} {t : Thread} {o : Locks.Op Mutex Effect}
    (h : ∀ k, .lock .registry_mutex_ ∉ s.program (.caller k)) : NotAcross s (.op t o) :=
  fun k hacross => h k hacross.2.1.mem

/-- The spin thread waits for a thread that creates a timer. -/
theorem not_deadlocked_timer : ∃ s : NodeState, s.Wants .spin .node_mutex_ ∧ s.owner .node_mutex_ = some (.caller 0) ∧
    ∀ D : Set Thread, ¬ s.Deadlocked D := by
  have hcreate : Act.Step .init (.create 0 .timer) _ := .create rfl
  have hrun : Trans.Run Act.Step NotAcross .init _ _ := .single (by trivial) hcreate
  have hothers (s : NodeState) (hs : ∀ k, s.program (.caller k) = [] ∨ s.program (.caller k) = createTimer ∨
      s.program (.caller k) = [.unlock .node_mutex_]) (k : Nat) : .lock .registry_mutex_ ∉ s.program (.caller k) := by
    rcases hs k with h | h | h <;> simp [h, createTimer, critical]
  have h₁ := hrun.snoc (a := .op (.caller 0) (.lock .node_mutex_))
    (notAcross_of_notMem (hothers _ fun k => by
      cases k with
      | zero => exact .inr (.inl rfl)
      | succ k => exact .inl rfl)) (.op (.lock rfl rfl))
  have h₂ := h₁.snoc (a := .spinRound eventRound) (by trivial) (.spinRound rfl)
  have h₃ := h₂.snoc (a := .op .spin (.lock .event))
    (by exact notAcross_of_ne (by simp) (by simp)) (.op (.lock rfl rfl))
  have h₄ := h₃.snoc (a := .op .spin (.unlock .event))
    (by exact notAcross_of_ne (by simp) (by simp)) (.op (.unlock rfl rfl))
  have h₅ := h₄.snoc (a := .op .spin (.lock .event))
    (by exact notAcross_of_ne (by simp) (by simp)) (.op (.lock rfl rfl))
  have h₆ := h₅.snoc (a := .op .spin (.unlock .event))
    (by exact notAcross_of_ne (by simp) (by simp)) (.op (.unlock rfl rfl))
  have h₇ := h₆.snoc (a := .op .spin (.lock .registry_mutex_))
    (notAcross_of_notMem (hothers _ fun k => by
      cases k with
      | zero => exact .inr (.inr rfl)
      | succ k => exact .inl rfl)) (.op (.lock rfl rfl))
  exact ⟨_, ⟨_, rfl⟩, rfl, not_deadlocked_creating h₇⟩

/-- An event arrives while a subscription is being created. -/
theorem deadlocked_creating : ¬ ∀ (s : NodeState) (as : List Act), Trans.Run Act.Step Trans.free .init as s →
    ∀ D : Set Thread, ¬ s.Deadlocked D := by
  intro h
  have hcreate : Act.Step .init (.create 0 (.subscriber ⟨0, true, true, true⟩)) _ := .create rfl
  have hrun : Trans.Run Act.Step Trans.free .init _ _ := .single trivial hcreate
  have h₁ := hrun.snoc trivial (a := .op (.caller 0) (.lock (.sub 0))) (.op (.lock rfl rfl))
  have h₂ := h₁.snoc trivial (a := .op (.caller 0) (.unlock (.sub 0))) (.op (.unlock rfl rfl))
  have h₃ := h₂.snoc trivial (a := .op (.caller 0) (.lock .node_mutex_)) (.op (.lock rfl rfl))
  have h₄ := h₃.snoc trivial (a := .spinRound eventRound) (.spinRound rfl)
  have h₅ := h₄.snoc trivial (a := .op .spin (.lock .event)) (.op (.lock rfl rfl))
  have h₆ := h₅.snoc trivial (a := .op .spin (.unlock .event)) (.op (.unlock rfl rfl))
  have h₇ := h₆.snoc trivial (a := .op .spin (.lock .event)) (.op (.lock rfl rfl))
  have h₈ := h₇.snoc trivial (a := .op .spin (.unlock .event)) (.op (.unlock rfl rfl))
  have h₉ := h₈.snoc trivial (a := .op .spin (.lock .registry_mutex_)) (.op (.lock rfl rfl))
  refine h _ _ h₉ {.spin, .caller 0} ⟨⟨.spin, .inl rfl⟩, ?_⟩
  rintro t (rfl | rfl)
  · exact ⟨.node_mutex_, ⟨_, rfl⟩, .caller 0, .inr rfl, Thread.noConfusion, rfl⟩
  · exact ⟨.registry_mutex_, ⟨_, rfl⟩, .spin, .inl rfl, Thread.noConfusion, rfl⟩

end NodeCreate
end MiniRos2

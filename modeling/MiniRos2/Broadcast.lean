import MiniRos2.SpinLoop
import MiniRos2.Lib.Signal
/-!
# Broadcast — one publisher, and any number of subscribers in other nodes

`triggerEvent` sets one bit and wakes every waiting node, and each node clears the bit by itself when it has made its
task; the last bit, that of registry changes, it clears once more behind the loop.  A node that takes its snapshot after
another's clear does not find the bit: its message is lost, unless the publisher is about to set the bit again.  The
nodes are the readers of `Signal`; the run lemmas are its rules.
-/
namespace MiniRos2

/-- The region, the event bits, and for every subscribing node where its round is and what it has read last. -/
structure Broadcast (ι M : Type) where
  region : Option M
  event_flag_ : EventFlags
  publisher : PublisherPc
  spin : ι → SpinPc
  msg_ : ι → Option M

inductive BroadcastAct (ι M : Type) where
  | write (data : M)
  | triggerEvent
  | waitForEvent (i : ι)
  | createTask (i : ι)
  | clearEvents (i : ι)
  | syncRegistry (i : ι)
  | other (event_id : Nat) (b : Bool)

variable {ι M : Type}

/-- Nothing was announced, and the bit is clear. -/
def Broadcast.init : Broadcast ι M := ⟨none, fun _ => false, .idle, fun _ => .top, fun _ => none⟩

/-- **The publisher is between publishes, every node at the top of its loop, and the bit is clear.** -/
structure Broadcast.Quiet (event_id : Nat) (s : Broadcast ι M) : Prop where
  publisher : s.publisher = .idle
  spin : ∀ i, s.spin i = .top
  flag : s.event_flag_ event_id = false

/-- **In a quiet state the last message that each node has read is the last message written.** -/
def Broadcast.Delivered (event_id : Nat) (s : Broadcast ι M) : Prop := s.Quiet event_id → ∀ i, s.msg_ i = s.region

/-- The node has read the last message, has the bit in its snapshot, or will find it set again. -/
def Broadcast.Due (s : Broadcast ι M) (i : ι) : Prop :=
  s.msg_ i = s.region ∨ s.publisher = .written ∨ s.spin i = .triggered

/-- **The bit is cleared only when every node has read the last message, has the bit in its snapshot, or is about to get
it set again.** -/
def Broadcast.NobodyBehind (event_id : Nat) (s : Broadcast ι M) : BroadcastAct ι M → Prop
  | .clearEvents _ | .syncRegistry _ => ∀ i, s.Due i
  | .other j false => j = event_id → ∀ i, s.Due i
  | _ => True

section Steps

variable [DecidableEq ι] (event_id : Nat)

def Broadcast.write (data : M) (s : Broadcast ι M) : Broadcast ι M :=
  { s with region := some data, publisher := .written }

def Broadcast.triggerEvent (s : Broadcast ι M) : Broadcast ι M :=
  { s with event_flag_ := s.event_flag_.triggerEvent event_id, publisher := .idle }

def Broadcast.waitForEvent (i : ι) (s : Broadcast ι M) : Broadcast ι M :=
  { s with spin := Function.update s.spin i (if s.event_flag_ event_id then .triggered else .top) }

def Broadcast.createTask (i : ι) (s : Broadcast ι M) : Broadcast ι M :=
  { s with msg_ := Function.update s.msg_ i s.region, spin := Function.update s.spin i .processed }

def Broadcast.clearEvents (i : ι) (s : Broadcast ι M) : Broadcast ι M :=
  { s with
    event_flag_ := s.event_flag_.clearEvents event_id
    spin := Function.update s.spin i (if event_id = EVENT_MAX_COUNT - 1 then .cleared else .top) }

/-- Behind the loop, when the registry has been read again. -/
def Broadcast.syncRegistry (i : ι) (s : Broadcast ι M) : Broadcast ι M :=
  { s with event_flag_ := s.event_flag_.clearEvents (EVENT_MAX_COUNT - 1), spin := Function.update s.spin i .top }

/-- **One critical section of the publisher or of a node**, or another event's bit set or cleared, or that of registry
changes by a node that has no subscription. -/
inductive BroadcastAct.Step (s : Broadcast ι M) : BroadcastAct ι M → Broadcast ι M → Prop where
  | write {data : M} : s.publisher = .idle → Step s (.write data) (s.write data)
  | triggerEvent : s.publisher = .written → Step s .triggerEvent (s.triggerEvent event_id)
  | waitForEvent {i : ι} : s.spin i = .top → Step s (.waitForEvent i) (s.waitForEvent event_id i)
  | createTask {i : ι} : s.spin i = .triggered → Step s (.createTask i) (s.createTask i)
  | clearEvents {i : ι} : s.spin i = .processed → Step s (.clearEvents i) (s.clearEvents event_id i)
  | syncRegistry {i : ι} : event_id = EVENT_MAX_COUNT - 1 → s.spin i = .cleared →
      Step s (.syncRegistry i) (s.syncRegistry i)
  | other {i : Nat} {b : Bool} : i ≠ event_id ∨ event_id = EVENT_MAX_COUNT - 1 →
      Step s (.other i b) { s with event_flag_ := Function.update s.event_flag_ i b }

/-! ## As readers of a signal -/

def PublisherPc.pending : PublisherPc → Bool
  | .idle => false
  | .written => true

def SpinPc.phase : SpinPc → Signal.Phase
  | .top | .cleared => .top
  | .triggered => .seen
  | .processed => .read

def Broadcast.signal (s : Broadcast ι M) : Signal.State Unit ι (Option M) where
  cell := s.region
  bit := s.event_flag_ event_id
  pending _ := s.publisher.pending
  phase i := (s.spin i).phase
  last := s.msg_

def BroadcastAct.signal (event_id : Nat) : BroadcastAct ι M → Option (Signal.Act Unit ι (Option M))
  | .write data => some (.write () (some data))
  | .triggerEvent => some (.announce ())
  | .waitForEvent i => some (.look i)
  | .createTask i => some (.read i)
  | .clearEvents i => some (.clear i)
  | .syncRegistry _ => some (.put false)
  | .other i b => if i = event_id then some (.put b) else none

variable {event_id}

@[simp] theorem PublisherPc.pending_idle : PublisherPc.idle.pending = false := rfl

@[simp] theorem PublisherPc.pending_written : PublisherPc.written.pending = true := rfl

theorem PublisherPc.pending_eq_true {pc : PublisherPc} : pc.pending = true ↔ pc = .written := by
  cases pc <;> simp

@[simp] theorem SpinPc.phase_top : SpinPc.top.phase = .top := rfl

@[simp] theorem SpinPc.phase_triggered : SpinPc.triggered.phase = .seen := rfl

@[simp] theorem SpinPc.phase_cleared : SpinPc.cleared.phase = .top := rfl

@[simp] theorem SpinPc.phase_processed : SpinPc.processed.phase = .read := rfl

theorem SpinPc.phase_eq_seen {pc : SpinPc} : pc.phase = .seen ↔ pc = .triggered := by
  cases pc <;> simp

theorem SpinPc.phase_update (f : ι → SpinPc) (i : ι) (pc : SpinPc) :
    (fun j => (Function.update f i pc j).phase) = Function.update (fun j => (f j).phase) i pc.phase := by
  funext j
  by_cases hji : j = i
  · subst hji
    simp
  · simp [hji]

section Operations

variable (s : Broadcast ι M)

omit [DecidableEq ι] in
theorem Broadcast.write_signal (data : M) :
    (s.write data).signal event_id = (s.signal event_id).write () (some data) := by
  simp [Broadcast.signal, Broadcast.write, Signal.State.write, Function.update_eq_const_of_subsingleton]
  rfl

omit [DecidableEq ι] in
theorem Broadcast.triggerEvent_signal (he : event_id < MAX_TOPICS_PER_NODE) :
    (s.triggerEvent event_id).signal event_id = (s.signal event_id).announce () := by
  simp [Broadcast.signal, Broadcast.triggerEvent, Signal.State.announce, EventFlags.triggerEvent_self he,
    Function.update_eq_const_of_subsingleton]
  rfl

theorem Broadcast.waitForEvent_signal (i : ι) :
    (s.waitForEvent event_id i).signal event_id = (s.signal event_id).look i := by
  by_cases hf : s.event_flag_ event_id = true <;>
    simp [Broadcast.signal, Broadcast.waitForEvent, Signal.State.look, SpinPc.phase_update, hf]

theorem Broadcast.createTask_signal (i : ι) : (s.createTask i).signal event_id = (s.signal event_id).read i := by
  simp [Broadcast.signal, Broadcast.createTask, Signal.State.read, SpinPc.phase_update]

theorem Broadcast.clearEvents_signal (he : event_id < MAX_TOPICS_PER_NODE) (i : ι) :
    (s.clearEvents event_id i).signal event_id = (s.signal event_id).clear i := by
  have hphase : (if event_id = EVENT_MAX_COUNT - 1 then SpinPc.cleared else .top).phase = .top := by split <;> rfl
  simp only [Broadcast.signal, Broadcast.clearEvents, Signal.State.clear, SpinPc.phase_update,
    EventFlags.clearEvents_self he, hphase]

/-- The node is at the top of its loop for the signal already. -/
theorem Broadcast.syncRegistry_signal (he : event_id < MAX_TOPICS_PER_NODE) (hid : event_id = EVENT_MAX_COUNT - 1)
    {i : ι} (hs : s.spin i = .cleared) : (s.syncRegistry i).signal event_id = (s.signal event_id).put false := by
  have hphase : Function.update (fun j => (s.spin j).phase) i .top = fun j => (s.spin j).phase := by
    rw [show Signal.Phase.top = (s.spin i).phase by rw [hs]; rfl]
    exact Function.update_eq_self ..
  simp only [Broadcast.signal, Broadcast.syncRegistry, Signal.State.put, SpinPc.phase_update, ← hid,
    EventFlags.clearEvents_self he, SpinPc.phase_top, hphase]

end Operations

/-- **Each step is one of the signal, or none.** -/
theorem BroadcastAct.Step.signal (he : event_id < MAX_TOPICS_PER_NODE) {s s' : Broadcast ι M} {a : BroadcastAct ι M}
    (h : BroadcastAct.Step event_id s a s') :
    Trans.Moves Signal.Step (s.signal event_id) (a.signal event_id) (s'.signal event_id) := by
  cases h with
  | write hidle =>
    rw [Broadcast.write_signal]
    exact .write (by simp [Broadcast.signal, hidle])
  | triggerEvent hwritten =>
    rw [Broadcast.triggerEvent_signal s he]
    exact .announce (by simp [Broadcast.signal, hwritten])
  | waitForEvent htop =>
    rw [Broadcast.waitForEvent_signal]
    exact .look (by simp [Broadcast.signal, htop])
  | createTask htriggered =>
    rw [Broadcast.createTask_signal]
    exact .read (by simp [Broadcast.signal, htriggered])
  | clearEvents hprocessed =>
    rw [Broadcast.clearEvents_signal s he]
    exact .clear (by simp [Broadcast.signal, hprocessed])
  | syncRegistry hid hcleared =>
    rw [Broadcast.syncRegistry_signal s he hid hcleared]
    exact .put
  | @other i b _ =>
    by_cases hi : i = event_id
    · subst hi
      have hto : ({ s with event_flag_ := Function.update s.event_flag_ i b } : Broadcast ι M).signal i =
          (s.signal i).put b := by
        simp only [Broadcast.signal, Signal.State.put, Function.update_self]
      rw [hto, BroadcastAct.signal, if_pos rfl]
      exact .put
    · have hne : event_id ≠ i := Ne.symm hi
      rw [BroadcastAct.signal, if_neg hi]
      simp [Trans.Moves, Broadcast.signal, hne]

omit [DecidableEq ι] in
theorem Broadcast.due_iff (event_id : Nat) {s : Broadcast ι M} {i : ι} : (s.signal event_id).Due i ↔ s.Due i := by
  simp [Signal.State.Due, Broadcast.Due, Broadcast.signal, SpinPc.phase_eq_seen, PublisherPc.pending_eq_true]

omit [DecidableEq ι] in
/-- The signal's bit is cleared with nobody behind exactly when the event's is. -/
theorem Broadcast.covers_iff (event_id : Nat) {s : Broadcast ι M} {a : BroadcastAct ι M} :
    (∀ b, a.signal event_id = some b → (s.signal event_id).Covers b) ↔ s.NobodyBehind event_id a := by
  cases a with
  | other i b =>
    cases b <;> by_cases hi : i = event_id <;>
      simp [BroadcastAct.signal, Signal.State.Covers, Broadcast.NobodyBehind, Broadcast.due_iff, hi]
  | _ => simp [BroadcastAct.signal, Signal.State.Covers, Broadcast.NobodyBehind, Broadcast.due_iff]

/-- **The last message reaches every node**, in any state of any run in which the bit is not cleared while a node is
behind. -/
theorem everyNode_of_run (he : event_id < MAX_TOPICS_PER_NODE) {s : Broadcast ι M} {as : List (BroadcastAct ι M)}
    (h : Trans.Run (BroadcastAct.Step event_id) (Broadcast.NobodyBehind event_id) Broadcast.init as s) :
    s.Delivered event_id := by
  intro hq i
  have hrun := h.simulate (P := fun _ => True) (g := BroadcastAct.signal event_id) (q := Signal.State.Covers) trivial
    fun t a u _ hg hs => ⟨trivial, hs.signal he, (Broadcast.covers_iff event_id).2 hg⟩
  have hquiet : (s.signal event_id).Quiet :=
    ⟨fun _ => by simp [Broadcast.signal, hq.publisher], fun j => by simp [Broadcast.signal, hq.spin j],
      hq.flag⟩
  exact Signal.read_of_run (fun _ => rfl) hrun.2 hquiet i

/-- No message is written, and nobody sets the bit but the publisher. -/
def Broadcast.Silent (event_id : Nat) (_ : Broadcast ι M) : BroadcastAct ι M → Prop
  | .write _ => False
  | .other j true => j ≠ event_id
  | _ => True

omit [DecidableEq ι] in
theorem Broadcast.Silent.signal {s : Broadcast ι M} {a : BroadcastAct ι M} (h : s.Silent event_id a)
    (b : Signal.Act Unit ι (Option M)) (hb : a.signal event_id = some b) : Signal.Silent (s.signal event_id) b := by
  cases a with
  | write _ => exact h.elim
  | other i c =>
    by_cases hi : i = event_id
    · rw [BroadcastAct.signal, if_pos hi] at hb
      cases hb
      cases c with
      | true => exact h hi
      | false => trivial
    · rw [BroadcastAct.signal, if_neg hi] at hb
      cases hb
  | _ =>
    cases hb
    trivial

/-- **A bit that is cleared while a node is behind makes the node miss the message**: until the next one is written, or
the bit set without one, it has not read the last. -/
theorem missed_of_clear (he : event_id < MAX_TOPICS_PER_NODE) {s s' t : Broadcast ι M} {a : BroadcastAct ι M}
    {as : List (BroadcastAct ι M)} (hg : ¬ s.NobodyBehind event_id a) (hs : BroadcastAct.Step event_id s a s')
    (h : Trans.Run (BroadcastAct.Step event_id) (Broadcast.Silent event_id) s' as t) : ∃ i, t.msg_ i ≠ t.region := by
  have hcovers : ∃ b, a.signal event_id = some b ∧ ¬ (s.signal event_id).Covers b := by
    by_contra hno
    push Not at hno
    exact hg ((Broadcast.covers_iff event_id).1 hno)
  obtain ⟨b, hb, hnot⟩ := hcovers
  have hmoves := hs.signal he
  rw [hb] at hmoves
  obtain ⟨i, hi⟩ := Signal.Step.lost hmoves hnot
  have hrun := h.simulate (P := fun _ => True) (g := BroadcastAct.signal event_id) (q := Signal.Silent) trivial
    fun t a u _ hg hs => ⟨trivial, hs.signal he, hg.signal⟩
  exact ⟨i, (hi.of_run hrun.2).last⟩

end Steps

/-! ## Two runs -/

/-- The message is in the region, and the bit is set. -/
def announced : Broadcast Bool Nat := (Broadcast.init.write 5).triggerEvent 1

theorem run_announced : Trans.Run (BroadcastAct.Step 1) (Broadcast.NobodyBehind 1) Broadcast.init
    [.write 5, .triggerEvent] announced := by
  have h₁ : BroadcastAct.Step 1 (Broadcast.init : Broadcast Bool Nat) (.write 5) _ := .write rfl
  have h₂ : BroadcastAct.Step 1 ((Broadcast.init : Broadcast Bool Nat).write 5) .triggerEvent announced :=
    .triggerEvent rfl
  exact .snoc (.single (by trivial) h₁) (by trivial) h₂

/-- Both nodes take their snapshots before one of them clears the bit. -/
theorem everyNode_of_both : ∃ s : Broadcast Bool Nat, s.Quiet 1 ∧ (∀ i, s.msg_ i = some 5) ∧ s.Delivered 1 := by
  have h₁ := run_announced.snoc (by trivial) (.waitForEvent (i := false) rfl)
  have h₂ := h₁.snoc (by trivial) (.waitForEvent (i := true) rfl)
  have h₃ := h₂.snoc (by trivial) (.createTask (i := false) rfl)
  have h₄ := h₃.snoc (by trivial) (.createTask (i := true) rfl)
  have h₅ := h₄.snoc (a := .clearEvents false) (fun i => .inl (by cases i <;> rfl)) (.clearEvents rfl)
  have h₆ := h₅.snoc (a := .clearEvents true) (fun i => .inl (by cases i <;> rfl)) (.clearEvents rfl)
  exact ⟨_, ⟨rfl, by decide, rfl⟩, by decide, everyNode_of_run (by decide) h₆⟩

/-- One node has cleared the bit before the other takes its snapshot. -/
theorem everyNode_not_always : ¬ ∀ (s : Broadcast Bool Nat) (as : List (BroadcastAct Bool Nat)),
    Trans.Run (BroadcastAct.Step 1) Trans.free Broadcast.init as s → s.Delivered 1 := by
  intro h
  have hfree : Trans.Run (BroadcastAct.Step 1) Trans.free Broadcast.init _ announced :=
    run_announced.weaken (fun _ _ _ => trivial)
  have h₁ := hfree.snoc trivial (.waitForEvent (i := false) rfl)
  have h₂ := h₁.snoc trivial (.createTask (i := false) rfl)
  have h₃ := h₂.snoc trivial (.clearEvents (i := false) rfl)
  have h₄ := h₃.snoc trivial (.waitForEvent (i := true) rfl)
  have hunread := h _ _ h₄ ⟨rfl, by decide, rfl⟩ true
  exact absurd hunread (by decide)

end MiniRos2

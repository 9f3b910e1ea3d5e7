import MiniRos2.SpinLoop
import MiniRos2.Lib.Signal
/-!
# NodeChannel — publishers and a subscriber of one node

`triggerEvent` sets the bit under `registry_mutex_`, and `spinLoop` reads the region and clears the bit under it, but
the snapshot is taken before and the region is written outside.  A publisher that has written while the spin thread
holds the mutex has its trigger still to come, so this clear is always covered (`NodeChannel.Sound`) and the signal's
rule applies: no last message is lost (`lastRead_of_ne`).  Only the last bit, that of registry changes, is cleared once
more without the mutex; a message that was announced between the read and this clear is lost (`missed_of_sync`).
-/
namespace MiniRos2

/-- Where a call of `publish` is: before its write, before `triggerEvent`, in it with the bit to set, or with the mutex
to unlock. -/
inductive PublishPc where
  | idle
  | written
  | locked
  | triggered
  deriving DecidableEq

/-- Where a round of `spinLoop` is, with the event's bit of its snapshot; behind the loop the last bit is to be cleared
once more. -/
inductive RoundPc where
  | top
  | snapshot (b : Bool)
  | locked (b : Bool)
  | processed
  | cleared
  | syncing
  deriving DecidableEq

inductive Holder (κ : Type) where
  | publisher (k : κ)
  | spin
  deriving DecidableEq

structure NodeChannel (κ M : Type) where
  region : Option M
  event_flag_ : EventFlags
  registry_mutex_ : Option (Holder κ)
  publisher : κ → PublishPc
  spin : RoundPc
  msg_ : Option M

inductive NodeChannelAct (κ M : Type) where
  | write (k : κ) (data : M)
  | lock (k : κ)
  | triggerEvent (k : κ)
  | unlock (k : κ)
  | waitForEvent
  | lockRegistry
  | createTask
  | clearTriggerEvent
  | unlockRegistry
  | syncRegistry
  | other (event_id : Nat) (b : Bool)

def PublishPc.pending : PublishPc → Bool
  | .written | .locked => true
  | .idle | .triggered => false

/-- The publisher holds the mutex. -/
def PublishPc.inside : PublishPc → Bool
  | .locked | .triggered => true
  | .idle | .written => false

def RoundPc.inside : RoundPc → Bool
  | .locked _ | .processed | .cleared => true
  | .top | .snapshot _ | .syncing => false

/-- A round whose snapshot does not have the bit does nothing for the event. -/
def RoundPc.phase : RoundPc → Signal.Phase
  | .snapshot true | .locked true => .seen
  | .processed => .read
  | .top | .snapshot false | .locked false | .cleared | .syncing => .top

variable {κ M : Type}

def NodeChannel.init : NodeChannel κ M := ⟨none, fun _ => false, none, fun _ => .idle, .top, none⟩

/-- **No publish is between its write and its trigger, `spinLoop` is at the top of its loop, and the bit is clear.** -/
structure NodeChannel.Quiet (event_id : Nat) (s : NodeChannel κ M) : Prop where
  publisher : ∀ k, (s.publisher k).pending = false
  spin : s.spin = .top
  flag : s.event_flag_ event_id = false

section Steps

variable [DecidableEq κ] (event_id : Nat)

def NodeChannel.write (k : κ) (data : M) (s : NodeChannel κ M) : NodeChannel κ M :=
  { s with region := some data, publisher := Function.update s.publisher k .written }

def NodeChannel.lock (k : κ) (s : NodeChannel κ M) : NodeChannel κ M :=
  { s with registry_mutex_ := some (.publisher k), publisher := Function.update s.publisher k .locked }

def NodeChannel.triggerEvent (k : κ) (s : NodeChannel κ M) : NodeChannel κ M :=
  { s with event_flag_ := s.event_flag_.triggerEvent event_id, publisher := Function.update s.publisher k .triggered }

def NodeChannel.unlock (k : κ) (s : NodeChannel κ M) : NodeChannel κ M :=
  { s with registry_mutex_ := none, publisher := Function.update s.publisher k .idle }

def NodeChannel.waitForEvent (s : NodeChannel κ M) : NodeChannel κ M :=
  { s with spin := .snapshot (s.event_flag_ event_id) }

def NodeChannel.lockRegistry (b : Bool) (s : NodeChannel κ M) : NodeChannel κ M :=
  { s with registry_mutex_ := some .spin, spin := .locked b }

/-- `createTaskFromSubEvent`, and the task given to the pool. -/
def NodeChannel.createTask (s : NodeChannel κ M) : NodeChannel κ M := { s with msg_ := s.region, spin := .processed }

def NodeChannel.clearTriggerEvent (s : NodeChannel κ M) : NodeChannel κ M :=
  { s with event_flag_ := s.event_flag_.clearEvents event_id, spin := .cleared }

/-- A round that has found and cleared the last bit goes on to read the registry again. -/
def NodeChannel.unlockRegistry (s : NodeChannel κ M) : NodeChannel κ M :=
  { s with
    registry_mutex_ := none
    spin := if s.spin = .cleared ∧ event_id = EVENT_MAX_COUNT - 1 then .syncing else .top }

/-- Behind the loop, when the registry has been read again. -/
def NodeChannel.syncRegistry (s : NodeChannel κ M) : NodeChannel κ M :=
  { s with event_flag_ := s.event_flag_.clearEvents (EVENT_MAX_COUNT - 1), spin := .top }

/-- **One step of a publisher or of the spin thread**, or another event's bit set or cleared, or this one set by another
node. -/
inductive NodeChannelAct.Step (s : NodeChannel κ M) : NodeChannelAct κ M → NodeChannel κ M → Prop where
  | write {k : κ} {data : M} : s.publisher k = .idle → Step s (.write k data) (s.write k data)
  | lock {k : κ} : s.publisher k = .written → s.registry_mutex_ = none → Step s (.lock k) (s.lock k)
  | triggerEvent {k : κ} : s.publisher k = .locked → Step s (.triggerEvent k) (s.triggerEvent event_id k)
  | unlock {k : κ} : s.publisher k = .triggered → Step s (.unlock k) (s.unlock k)
  | waitForEvent : s.spin = .top → Step s .waitForEvent (s.waitForEvent event_id)
  | lockRegistry {b : Bool} : s.spin = .snapshot b → s.registry_mutex_ = none →
      Step s .lockRegistry (s.lockRegistry b)
  | createTask : s.spin = .locked true → Step s .createTask s.createTask
  | clearTriggerEvent : s.spin = .processed → Step s .clearTriggerEvent (s.clearTriggerEvent event_id)
  | unlockRegistry : s.spin = .locked false ∨ s.spin = .cleared →
      Step s .unlockRegistry (s.unlockRegistry event_id)
  | syncRegistry : event_id = EVENT_MAX_COUNT - 1 → s.spin = .syncing → Step s .syncRegistry s.syncRegistry
  | other {i : Nat} {b : Bool} : i ≠ event_id ∨ b = true →
      Step s (.other i b) { s with event_flag_ := Function.update s.event_flag_ i b }

/-- **The last bit is cleared without the mutex only when the last message has been read** or a publisher is about to
set the bit again. -/
def NodeChannel.Caught (s : NodeChannel κ M) : NodeChannelAct κ M → Prop
  | .syncRegistry => event_id = EVENT_MAX_COUNT - 1 → s.msg_ = s.region ∨ ∃ k, (s.publisher k).pending = true
  | _ => True

/-! ## As a signal -/

def NodeChannel.signal (s : NodeChannel κ M) : Signal.State κ Unit (Option M) where
  cell := s.region
  bit := s.event_flag_ event_id
  pending k := (s.publisher k).pending
  phase _ := s.spin.phase
  last _ := s.msg_

/-- What a step is to the signal: `triggerEvent` announces, and a snapshot looks. -/
def NodeChannelAct.signal : NodeChannelAct κ M → Option (Signal.Act κ Unit (Option M))
  | .write k data => some (.write k (some data))
  | .triggerEvent k => some (.announce k)
  | .waitForEvent => some (.look ())
  | .createTask => some (.read ())
  | .clearTriggerEvent => some (.clear ())
  | .syncRegistry => some (.put false)
  | .other i b => if i = event_id then some (.put b) else none
  | .lock _ | .unlock _ | .lockRegistry | .unlockRegistry => none

variable {event_id}

theorem RoundPc.phase_snapshot (b : Bool) : (RoundPc.snapshot b).phase = if b then .seen else .top := by
  cases b <;> rfl

theorem PublishPc.pending_update (f : κ → PublishPc) (k : κ) (pc : PublishPc) :
    (fun j => (Function.update f k pc j).pending) = Function.update (fun j => (f j).pending) k pc.pending := by
  funext j
  by_cases hjk : j = k
  · subst hjk
    simp
  · simp [hjk]

theorem PublishPc.pending_update_same {f : κ → PublishPc} {k : κ} {pc : PublishPc} (h : (f k).pending = pc.pending) :
    (fun j => (Function.update f k pc j).pending) = fun j => (f j).pending := by
  rw [PublishPc.pending_update, ← h]
  exact Function.update_eq_self k _

section Updates

variable {s : NodeChannel κ M}

theorem NodeChannel.signal_write (k : κ) (data : M) :
    (s.write k data).signal event_id = (s.signal event_id).write k (some data) := by
  simp only [NodeChannel.signal, NodeChannel.write, Signal.State.write, PublishPc.pending_update]
  rfl

theorem NodeChannel.signal_triggerEvent (he : event_id < MAX_TOPICS_PER_NODE) (k : κ) :
    (s.triggerEvent event_id k).signal event_id = (s.signal event_id).announce k := by
  simp only [NodeChannel.signal, NodeChannel.triggerEvent, Signal.State.announce, PublishPc.pending_update,
    EventFlags.triggerEvent_self he]
  rfl

omit [DecidableEq κ] in
theorem NodeChannel.signal_waitForEvent : (s.waitForEvent event_id).signal event_id = (s.signal event_id).look () := by
  simp only [NodeChannel.signal, NodeChannel.waitForEvent, Signal.State.look, RoundPc.phase_snapshot,
    Function.update_eq_const_of_subsingleton]
  rfl

omit [DecidableEq κ] in
theorem NodeChannel.signal_createTask : s.createTask.signal event_id = (s.signal event_id).read () := by
  simp only [NodeChannel.signal, NodeChannel.createTask, Signal.State.read, Function.update_eq_const_of_subsingleton]
  rfl

omit [DecidableEq κ] in
theorem NodeChannel.signal_clearTriggerEvent (he : event_id < MAX_TOPICS_PER_NODE) :
    (s.clearTriggerEvent event_id).signal event_id = (s.signal event_id).clear () := by
  simp only [NodeChannel.signal, NodeChannel.clearTriggerEvent, Signal.State.clear,
    Function.update_eq_const_of_subsingleton, EventFlags.clearEvents_self he]
  rfl

omit [DecidableEq κ] in
/-- The round did nothing for the event, or is behind it. -/
theorem NodeChannel.signal_unlockRegistry (h : s.spin.phase = .top) :
    (s.unlockRegistry event_id).signal event_id = s.signal event_id := by
  have hsame : (s.unlockRegistry event_id).spin.phase = s.spin.phase := by
    rw [h, NodeChannel.unlockRegistry]
    dsimp only
    split <;> rfl
  unfold NodeChannel.signal
  rw [hsame]
  rfl

omit [DecidableEq κ] in
theorem NodeChannel.signal_syncRegistry (he : event_id < MAX_TOPICS_PER_NODE) (hid : event_id = EVENT_MAX_COUNT - 1)
    (h : s.spin = .syncing) : s.syncRegistry.signal event_id = (s.signal event_id).put false := by
  have hphase : RoundPc.top.phase = s.spin.phase := by rw [h]; rfl
  simp only [NodeChannel.signal, NodeChannel.syncRegistry, Signal.State.put, ← hid, EventFlags.clearEvents_self he,
    hphase]

omit [DecidableEq κ] in
theorem NodeChannel.signal_other_self (b : Bool) :
    ({ s with event_flag_ := Function.update s.event_flag_ event_id b } : NodeChannel κ M).signal event_id =
      (s.signal event_id).put b := by
  simp only [NodeChannel.signal, Signal.State.put, Function.update_self]

end Updates

/-- **Each step is one of the signal, or none.** -/
theorem NodeChannelAct.Step.signal (he : event_id < MAX_TOPICS_PER_NODE) {s s' : NodeChannel κ M}
    {a : NodeChannelAct κ M} (h : NodeChannelAct.Step event_id s a s') :
    Trans.Moves Signal.Step (s.signal event_id) (a.signal event_id) (s'.signal event_id) := by
  cases h with
  | write hidle =>
    rw [NodeChannel.signal_write]
    exact .write (by simp [NodeChannel.signal, hidle, PublishPc.pending])
  | @lock k hwritten _ =>
    have hsame : (s.publisher k).pending = PublishPc.locked.pending := by rw [hwritten]; rfl
    simp only [NodeChannelAct.signal, Trans.Moves, NodeChannel.signal, NodeChannel.lock,
      PublishPc.pending_update_same hsame]
  | triggerEvent hlocked =>
    rw [NodeChannel.signal_triggerEvent he]
    exact .announce (by simp [NodeChannel.signal, hlocked, PublishPc.pending])
  | @unlock k htriggered =>
    have hsame : (s.publisher k).pending = PublishPc.idle.pending := by rw [htriggered]; rfl
    simp only [NodeChannelAct.signal, Trans.Moves, NodeChannel.signal, NodeChannel.unlock,
      PublishPc.pending_update_same hsame]
  | waitForEvent htop =>
    rw [NodeChannel.signal_waitForEvent]
    exact .look (by simp [NodeChannel.signal, htop, RoundPc.phase])
  | @lockRegistry b hsnapshot _ =>
    have hsame : (RoundPc.locked b).phase = s.spin.phase := by
      rw [hsnapshot]
      cases b <;> rfl
    simp only [NodeChannelAct.signal, Trans.Moves, NodeChannel.signal, NodeChannel.lockRegistry, hsame]
  | createTask hlocked =>
    rw [NodeChannel.signal_createTask]
    exact .read (by simp [NodeChannel.signal, hlocked, RoundPc.phase])
  | clearTriggerEvent hprocessed =>
    rw [NodeChannel.signal_clearTriggerEvent he]
    exact .clear (by simp [NodeChannel.signal, hprocessed, RoundPc.phase])
  | unlockRegistry hdone =>
    exact NodeChannel.signal_unlockRegistry (by rcases hdone with hdone | hdone <;> rw [hdone] <;> rfl)
  | syncRegistry hid hsyncing =>
    rw [NodeChannel.signal_syncRegistry he hid hsyncing]
    exact .put
  | @other i b _ =>
    by_cases hi : i = event_id
    · rw [hi, NodeChannel.signal_other_self, NodeChannelAct.signal, if_pos rfl]
      exact .put
    · have hne : event_id ≠ i := Ne.symm hi
      rw [NodeChannelAct.signal, if_neg hi]
      simp [Trans.Moves, NodeChannel.signal, hne]

/-! ## The mutex -/

/-- Whoever is inside holds the mutex, and a message that the spin thread has not read has its trigger to come. -/
structure NodeChannel.Sound (s : NodeChannel κ M) : Prop where
  publisher : ∀ k, (s.publisher k).inside = true → s.registry_mutex_ = some (.publisher k)
  spin : s.spin.inside = true → s.registry_mutex_ = some .spin
  unread : s.spin = .processed → s.msg_ = s.region ∨ ∃ k, (s.publisher k).pending = true

omit [DecidableEq κ] in
theorem NodeChannel.init_sound : (NodeChannel.init : NodeChannel κ M).Sound where
  publisher _ h := by cases h
  spin h := by cases h
  unread h := by cases h

/-- **One step keeps the mutex in order.** -/
theorem NodeChannel.Sound.step {s s' : NodeChannel κ M} {a : NodeChannelAct κ M} (h : s.Sound)
    (hs : NodeChannelAct.Step event_id s a s') : s'.Sound := by
  cases hs with
  | @write k data hidle =>
    refine ⟨fun j hj => ?_, h.spin, fun _ => .inr ⟨k, by simp [NodeChannel.write, PublishPc.pending]⟩⟩
    by_cases hjk : j = k
    · simp [NodeChannel.write, hjk, PublishPc.inside] at hj
    · exact h.publisher j (by simpa [NodeChannel.write, hjk] using hj)
  | @lock k hwritten hfree =>
    have hout : s.spin.inside ≠ true := fun hin => by simp [h.spin hin] at hfree
    refine ⟨fun j hj => ?_, fun hin => absurd hin hout, fun hp => absurd (congrArg RoundPc.inside hp) hout⟩
    by_cases hjk : j = k
    · rw [hjk]
      rfl
    · have hin := h.publisher j (by simpa [NodeChannel.lock, hjk] using hj)
      simp [hin] at hfree
  | @triggerEvent k hlocked =>
    have hheld := h.publisher k (by simp [hlocked, PublishPc.inside])
    have hout : s.spin.inside ≠ true := fun hin => by simp [h.spin hin] at hheld
    refine ⟨fun j hj => ?_, fun hin => absurd hin hout, fun hp => absurd (congrArg RoundPc.inside hp) hout⟩
    by_cases hjk : j = k
    · rw [hjk]
      exact hheld
    · exact h.publisher j (by simpa [NodeChannel.triggerEvent, hjk] using hj)
  | @unlock k htriggered =>
    have hheld := h.publisher k (by simp [htriggered, PublishPc.inside])
    have hout : s.spin.inside ≠ true := fun hin => by simp [h.spin hin] at hheld
    refine ⟨fun j hj => ?_, fun hin => absurd hin hout, fun hp => absurd (congrArg RoundPc.inside hp) hout⟩
    by_cases hjk : j = k
    · simp [NodeChannel.unlock, hjk, PublishPc.inside] at hj
    · have hin := h.publisher j (by simpa [NodeChannel.unlock, hjk] using hj)
      rw [hheld] at hin
      exact absurd (Holder.publisher.inj (Option.some.inj hin)).symm hjk
  | waitForEvent _ => exact ⟨h.publisher, nofun, nofun⟩
  | lockRegistry _ hfree =>
    refine ⟨fun j hj => ?_, fun _ => rfl, nofun⟩
    simp [h.publisher j hj] at hfree
  | createTask hlocked =>
    exact ⟨h.publisher, fun _ => h.spin (by simp [hlocked, RoundPc.inside]), fun _ => .inl rfl⟩
  | clearTriggerEvent hprocessed =>
    exact ⟨h.publisher, fun _ => h.spin (by simp [hprocessed, RoundPc.inside]), nofun⟩
  | unlockRegistry hdone =>
    have hheld := h.spin (by rcases hdone with hdone | hdone <;> simp [hdone, RoundPc.inside])
    have hout : (s.unlockRegistry event_id).spin.inside = false := by
      unfold NodeChannel.unlockRegistry
      dsimp only
      split <;> rfl
    refine ⟨fun j hj => ?_, fun hin => ?_, fun hp => ?_⟩
    · have hin := h.publisher j hj
      rw [hheld] at hin
      cases hin
    · cases hin.symm.trans hout
    · rw [hp] at hout
      cases hout
  | syncRegistry _ hsyncing =>
    exact ⟨h.publisher, nofun, nofun⟩
  | other _ => exact ⟨h.publisher, h.spin, h.unread⟩

/-- Under the mutex no clear leaves a message unread. -/
theorem NodeChannel.Sound.covers {s s' : NodeChannel κ M} {a : NodeChannelAct κ M} (h : s.Sound)
    (hg : s.Caught event_id a) (hs : NodeChannelAct.Step event_id s a s') {b : Signal.Act κ Unit (Option M)}
    (hb : a.signal event_id = some b) : (s.signal event_id).Covers b := by
  have hdue (hd : s.msg_ = s.region ∨ ∃ k, (s.publisher k).pending = true) : ∀ i, (s.signal event_id).Due i :=
    fun _ => hd.imp_right .inl
  cases hs with
  | clearTriggerEvent hprocessed =>
    cases hb
    exact hdue (h.unread hprocessed)
  | syncRegistry hid _ =>
    cases hb
    exact hdue (hg hid)
  | @other i b' hother =>
    by_cases hi : i = event_id
    · rw [NodeChannelAct.signal, if_pos hi] at hb
      cases hb
      rw [hother.resolve_left (not_not_intro hi)]
      trivial
    · rw [NodeChannelAct.signal, if_neg hi] at hb
      cases hb
  | _ => cases hb <;> trivial

theorem NodeChannel.signal_of_run (he : event_id < MAX_TOPICS_PER_NODE) {s : NodeChannel κ M}
    {as : List (NodeChannelAct κ M)}
    (h : Trans.Run (NodeChannelAct.Step event_id) (NodeChannel.Caught event_id) NodeChannel.init as s) :
    Trans.Run Signal.Step Signal.State.Covers (NodeChannel.init.signal event_id)
      (as.filterMap (NodeChannelAct.signal event_id)) (s.signal event_id) :=
  (h.simulate (P := NodeChannel.Sound) NodeChannel.init_sound fun _ _ _ ht hg hs =>
    ⟨ht.step hs, hs.signal he, fun _ hb => ht.covers hg hs hb⟩).2

omit [DecidableEq κ] in
theorem NodeChannel.Quiet.signal {s : NodeChannel κ M} (h : s.Quiet event_id) : (s.signal event_id).Quiet :=
  ⟨h.publisher, fun _ => by simp [NodeChannel.signal, h.spin, RoundPc.phase], h.flag⟩

/-- **The last message is not lost**: in every run in which the last bit is caught, whenever no publish is between its
write and its trigger, `spinLoop` is at the top of its loop and the bit is clear, the last message read is the last one
written. -/
theorem lastRead_of_run (he : event_id < MAX_TOPICS_PER_NODE) {s : NodeChannel κ M} {as : List (NodeChannelAct κ M)}
    (h : Trans.Run (NodeChannelAct.Step event_id) (NodeChannel.Caught event_id) NodeChannel.init as s)
    (hq : s.Quiet event_id) : s.msg_ = s.region :=
  Signal.read_of_run (fun _ => rfl) (NodeChannel.signal_of_run he h) hq.signal ()

/-- A second message is written while the first is read, and announced after both clears of the last bit. -/
theorem lastRead_of_two : ∃ s : NodeChannel Bool Nat, s.Quiet (EVENT_MAX_COUNT - 1) ∧ s.region = some 6 ∧
    s.msg_ = s.region := by
  have h₁ : Trans.Run (NodeChannelAct.Step (EVENT_MAX_COUNT - 1)) (NodeChannel.Caught (EVENT_MAX_COUNT - 1))
      (NodeChannel.init : NodeChannel Bool Nat) _ _ := .single (a := .write false 5) (by trivial) (.write rfl)
  have h₂ := h₁.snoc (by trivial) (.lock (k := false) rfl rfl)
  have h₃ := h₂.snoc (by trivial) (.triggerEvent (k := false) rfl)
  have h₄ := h₃.snoc (by trivial) (.unlock (k := false) rfl)
  have h₅ := h₄.snoc (by trivial) (.waitForEvent rfl)
  have h₆ := h₅.snoc (by trivial) (.lockRegistry rfl rfl)
  have h₇ := h₆.snoc (by trivial) (.createTask rfl)
  have h₈ := h₇.snoc (a := .write true 6) (by trivial) (.write rfl)
  have h₉ := h₈.snoc (by trivial) (.clearTriggerEvent rfl)
  have hfirst := h₉.snoc (by trivial) (.unlockRegistry (.inr rfl))
  have hpending := hfirst.snoc (a := .syncRegistry) (fun _ => .inr ⟨true, rfl⟩) (.syncRegistry rfl rfl)
  have hlock := hpending.snoc (by trivial) (.lock (k := true) rfl rfl)
  have hset := hlock.snoc (by trivial) (.triggerEvent (k := true) rfl)
  have hfree := hset.snoc (by trivial) (.unlock (k := true) rfl)
  have hlook := hfree.snoc (by trivial) (.waitForEvent rfl)
  have hheld := hlook.snoc (by trivial) (.lockRegistry rfl rfl)
  have hread := hheld.snoc (by trivial) (.createTask rfl)
  have hclear := hread.snoc (by trivial) (.clearTriggerEvent rfl)
  have hsecond := hclear.snoc (by trivial) (.unlockRegistry (.inr rfl))
  have hdone := hsecond.snoc (a := .syncRegistry) (fun _ => .inl rfl) (.syncRegistry rfl rfl)
  refine ⟨_, ?quiet, rfl, lastRead_of_run (by decide) hdone ?quiet⟩
  exact ⟨by decide, rfl, rfl⟩

/-- **Of an event but the last no message is lost**: its bit is cleared under the mutex only. -/
theorem lastRead_of_ne (he : event_id < EVENT_MAX_COUNT - 1) {s : NodeChannel κ M} {as : List (NodeChannelAct κ M)}
    (h : Trans.Run (NodeChannelAct.Step event_id) Trans.free NodeChannel.init as s) (hq : s.Quiet event_id) :
    s.msg_ = s.region := by
  have hlt : event_id < MAX_TOPICS_PER_NODE := Nat.lt_of_lt_of_le he (Nat.sub_le ..)
  have hcaught : Trans.Run (NodeChannelAct.Step event_id) (NodeChannel.Caught event_id) NodeChannel.init as s :=
    h.weaken fun t a _ => by
      cases a with
      | syncRegistry => exact fun hid => absurd hid (by omega)
      | _ => trivial
  exact Signal.read_of_run (fun _ => rfl) (NodeChannel.signal_of_run hlt hcaught) hq.signal ()

/-- No message is written, and nobody sets the bit but the publishers. -/
def NodeChannel.Silent (event_id : Nat) (_ : NodeChannel κ M) : NodeChannelAct κ M → Prop
  | .write _ _ => False
  | .other j true => j ≠ event_id
  | _ => True

omit [DecidableEq κ] in
theorem NodeChannel.Silent.signal {s : NodeChannel κ M} {a : NodeChannelAct κ M} (h : s.Silent event_id a)
    (b : Signal.Act κ Unit (Option M)) (hb : a.signal event_id = some b) : Signal.Silent (s.signal event_id) b := by
  cases a with
  | write _ _ => exact h.elim
  | other i c =>
    by_cases hi : i = event_id
    · rw [NodeChannelAct.signal, if_pos hi] at hb
      cases hb
      cases c with
      | true => exact h hi
      | false => trivial
    · rw [NodeChannelAct.signal, if_neg hi] at hb
      cases hb
  | _ => cases hb <;> trivial

/-- **A message that the last clear does not leave to anybody is missed**: until the next one is written, or the bit set
without one, the last message is not read. -/
theorem missed_of_sync (he : event_id < MAX_TOPICS_PER_NODE) {s s' t : NodeChannel κ M} {as : List (NodeChannelAct κ M)}
    (hg : ¬ s.Caught event_id .syncRegistry) (hs : NodeChannelAct.Step event_id s .syncRegistry s')
    (h : Trans.Run (NodeChannelAct.Step event_id) (NodeChannel.Silent event_id) s' as t) : t.msg_ ≠ t.region := by
  have hspin : s.spin = .syncing := by
    cases hs with
    | syncRegistry _ hsyncing => exact hsyncing
  have hnot : ¬ (s.signal event_id).Covers (.put false) := by
    intro hc
    refine hg fun _ => (hc ()).imp_right fun hdue => hdue.resolve_right fun hseen => ?_
    rw [NodeChannel.signal, hspin] at hseen
    cases hseen
  obtain ⟨i, hi⟩ := Signal.Step.lost (hs.signal he) hnot
  have hrun := h.simulate (P := fun _ => True) (g := NodeChannelAct.signal event_id) (q := Signal.Silent) trivial
    fun _ _ _ _ hg hs => ⟨trivial, hs.signal he, hg.signal⟩
  exact (hi.of_run hrun.2).last

/-- The second message is announced between the two clears of the last bit. -/
theorem lastRead_not_always : ¬ ∀ (s : NodeChannel Bool Nat) (as : List (NodeChannelAct Bool Nat)),
    Trans.Run (NodeChannelAct.Step (EVENT_MAX_COUNT - 1)) Trans.free NodeChannel.init as s →
    s.Quiet (EVENT_MAX_COUNT - 1) → s.msg_ = s.region := by
  intro h
  have h₁ : Trans.Run (NodeChannelAct.Step (EVENT_MAX_COUNT - 1)) Trans.free
      (NodeChannel.init : NodeChannel Bool Nat) _ _ := .single (a := .write false 5) trivial (.write rfl)
  have h₂ := h₁.snoc trivial (.lock (k := false) rfl rfl)
  have h₃ := h₂.snoc trivial (.triggerEvent (k := false) rfl)
  have h₄ := h₃.snoc trivial (.unlock (k := false) rfl)
  have h₅ := h₄.snoc trivial (.waitForEvent rfl)
  have h₆ := h₅.snoc trivial (.lockRegistry rfl rfl)
  have h₇ := h₆.snoc trivial (.createTask rfl)
  have h₈ := h₇.snoc trivial (.clearTriggerEvent rfl)
  have h₉ := h₈.snoc trivial (.unlockRegistry (.inr rfl))
  have hwrite := h₉.snoc (a := .write true 6) trivial (.write rfl)
  have hlock := hwrite.snoc trivial (.lock (k := true) rfl rfl)
  have hset := hlock.snoc trivial (.triggerEvent (k := true) rfl)
  have hfree := hset.snoc trivial (.unlock (k := true) rfl)
  have hsync := hfree.snoc trivial (.syncRegistry rfl rfl)
  exact absurd (h _ _ hsync ⟨by decide, rfl, rfl⟩) (by decide)

end Steps

end MiniRos2

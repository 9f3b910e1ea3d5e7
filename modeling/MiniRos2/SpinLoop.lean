import MiniRos2.ShmManager
import MiniRos2.Lib.Trans
/-!
# SpinLoop — one publisher and one subscriber across nodes

`publish` writes the message and then sets the event's bit; a round of `spinLoop` takes the flags, reads the message if
the bit was set, and then clears the bit.  The last bit, which is also that of registry changes, it clears once more
behind the loop, and so does every other node.  A bit that is set between the read and the last clear is cleared unread.
As long as no message is announced there that the subscriber has not read yet, and no other node clears the bit of one,
the last message is never lost (`delivered_of_run`); otherwise it is (`lost_of_set`, `lost_of_other`).
-/
namespace MiniRos2

/-- `MAX_TOPICS_PER_NODE` is defined as this. -/
abbrev EVENT_MAX_COUNT : Nat := MAX_TOPICS_PER_NODE

/-- `std::bitset<EVENT_MAX_COUNT>`. -/
abbrev EventFlags := Nat → Bool

/-- `EventNotificationShm::triggerEvent`. -/
def EventFlags.triggerEvent (event_id : Nat) (event_flag_ : EventFlags) : EventFlags :=
  if MAX_TOPICS_PER_NODE ≤ event_id then event_flag_ else Function.update event_flag_ event_id true

/-- `ShmManager::clearTriggerEvent`, and `EventNotificationShm::clearEvents` of one id. -/
def EventFlags.clearEvents (event_id : Nat) (event_flag_ : EventFlags) : EventFlags :=
  if MAX_TOPICS_PER_NODE ≤ event_id then event_flag_ else Function.update event_flag_ event_id false

/-- Where `publish` is: between calls, or between the write and the trigger. -/
inductive PublisherPc where
  | idle
  | written
  deriving DecidableEq

/-- Where a round of `spinLoop` is: at the top, with the bit in its snapshot, with the task made and the bit still to
clear, or with the last bit, which was in its snapshot, to clear once more. -/
inductive SpinPc where
  | top
  | triggered
  | processed
  | cleared
  deriving DecidableEq

/-- The region, the event bits, and what the subscriber has read last. -/
structure Channel (M : Type) where
  region : Option M
  event_flag_ : EventFlags
  publisher : PublisherPc
  spin : SpinPc
  msg_ : Option M

inductive ChannelAct (M : Type) where
  | write (data : M)
  | triggerEvent
  | waitForEvent
  | createTask
  | clearEvents
  | syncRegistry
  | other (event_id : Nat) (b : Bool)

section Steps

variable {M : Type} (event_id : Nat)

def Channel.write (data : M) (s : Channel M) : Channel M := { s with region := some data, publisher := .written }

def Channel.triggerEvent (s : Channel M) : Channel M :=
  { s with event_flag_ := s.event_flag_.triggerEvent event_id, publisher := .idle }

def Channel.waitForEvent (s : Channel M) : Channel M :=
  { s with spin := if s.event_flag_ event_id then .triggered else .top }

def Channel.createTask (s : Channel M) : Channel M := { s with msg_ := s.region, spin := .processed }

def Channel.clearEvents (s : Channel M) : Channel M :=
  { s with
    event_flag_ := s.event_flag_.clearEvents event_id
    spin := if event_id = EVENT_MAX_COUNT - 1 then .cleared else .top }

/-- Behind the loop, when the registry has been read again. -/
def Channel.syncRegistry (s : Channel M) : Channel M :=
  { s with event_flag_ := s.event_flag_.clearEvents (EVENT_MAX_COUNT - 1), spin := .top }

/-- **One critical section of the publisher or of the subscriber**, or another node setting or clearing another bit or
that of registry changes. -/
inductive ChannelAct.Step (s : Channel M) : ChannelAct M → Channel M → Prop where
  | write {data : M} : s.publisher = .idle → Step s (.write data) (s.write data)
  | triggerEvent : s.publisher = .written → Step s .triggerEvent (s.triggerEvent event_id)
  | waitForEvent : s.spin = .top → Step s .waitForEvent (s.waitForEvent event_id)
  | createTask : s.spin = .triggered → Step s .createTask s.createTask
  | clearEvents : s.spin = .processed → Step s .clearEvents (s.clearEvents event_id)
  | syncRegistry : event_id = EVENT_MAX_COUNT - 1 → s.spin = .cleared → Step s .syncRegistry s.syncRegistry
  | other {i : Nat} {b : Bool} : i ≠ event_id ∨ event_id = EVENT_MAX_COUNT - 1 →
      Step s (.other i b) { s with event_flag_ := Function.update s.event_flag_ i b }

/-- Nothing was published, and the bit is clear. -/
def Channel.init : Channel M := ⟨none, fun _ => false, .idle, .top, none⟩

/-- **The publisher is between publishes, the subscriber at the top of its loop, and the bit is clear.** -/
structure Channel.Quiet (s : Channel M) : Prop where
  publisher : s.publisher = .idle
  spin : s.spin = .top
  flag : s.event_flag_ event_id = false

/-- **In a quiet state the last message read is the last message written.** -/
def Channel.Delivered (s : Channel M) : Prop := s.Quiet event_id → s.msg_ = s.region

/-- **Between the subscriber's read and its last clear the bit is set only for a message it has read**, and another node
clears it only when the subscriber has read the last message, is about to, or will find the bit set again. -/
def Channel.NotBetween (s : Channel M) : ChannelAct M → Prop
  | .triggerEvent => s.spin = .processed ∨ s.spin = .cleared → s.msg_ = s.region
  | .other i false => i = event_id → s.msg_ = s.region ∨ s.publisher = .written ∨ s.spin = .triggered
  | _ => True

/-- A message that was not read yet is still to be announced, about to be read, or announced by a bit that will be
seen. -/
def Channel.Pending (s : Channel M) : Prop :=
  s.msg_ = s.region ∨ s.publisher = .written ∨ s.spin = .triggered ∨ s.event_flag_ event_id = true ∧ s.spin = .top

variable {event_id}

theorem EventFlags.triggerEvent_self (h : event_id < MAX_TOPICS_PER_NODE) (f : EventFlags) :
    f.triggerEvent event_id event_id = true := by
  unfold EventFlags.triggerEvent
  rw [if_neg (by omega), Function.update_self]

theorem EventFlags.clearEvents_self (h : event_id < MAX_TOPICS_PER_NODE) (f : EventFlags) :
    f.clearEvents event_id event_id = false := by
  unfold EventFlags.clearEvents
  rw [if_neg (by omega), Function.update_self]

/-- **One step keeps every unread message pending.** -/
theorem Channel.Pending.step (he : event_id < MAX_TOPICS_PER_NODE) {s s' : Channel M} {a : ChannelAct M}
    (h : s.Pending event_id) (hg : s.NotBetween event_id a) (hs : ChannelAct.Step event_id s a s') :
    s'.Pending event_id := by
  cases hs with
  | write _ => exact .inr (.inl rfl)
  | triggerEvent _ =>
    cases hp : s.spin with
    | top => exact .inr (.inr (.inr ⟨EventFlags.triggerEvent_self he _, hp⟩))
    | triggered => exact .inr (.inr (.inl hp))
    | processed => exact .inl (hg (.inl hp))
    | cleared => exact .inl (hg (.inr hp))
  | waitForEvent htop =>
    rcases h with h | h | h | ⟨hf, -⟩
    · exact .inl h
    · exact .inr (.inl h)
    · cases htop.symm.trans h
    · refine .inr (.inr (.inl ?_))
      show (if s.event_flag_ event_id then SpinPc.triggered else SpinPc.top) = .triggered
      rw [if_pos hf]
  | createTask _ => exact .inl rfl
  | clearEvents hp =>
    rcases h with h | h | h | ⟨-, h⟩
    · exact .inl h
    · exact .inr (.inl h)
    · cases hp.symm.trans h
    · cases hp.symm.trans h
  | syncRegistry _ hp =>
    rcases h with h | h | h | ⟨-, h⟩
    · exact .inl h
    · exact .inr (.inl h)
    · cases hp.symm.trans h
    · cases hp.symm.trans h
  | @other i b _ =>
    rcases h with h | h | h | ⟨hf, hp⟩
    · exact .inl h
    · exact .inr (.inl h)
    · exact .inr (.inr (.inl h))
    · by_cases hi : event_id = i
      · subst hi
        cases b with
        | true => exact .inr (.inr (.inr ⟨Function.update_self .., hp⟩))
        | false =>
          rcases hg rfl with h | h | h
          · exact .inl h
          · exact .inr (.inl h)
          · exact .inr (.inr (.inl h))
      · exact .inr (.inr (.inr ⟨(Function.update_of_ne hi _ _).trans hf, hp⟩))

theorem Channel.Pending.delivered {s : Channel M} (h : s.Pending event_id) : s.Delivered event_id := by
  rintro ⟨hp, htop, hf⟩
  rcases h with h | h | h | ⟨h, -⟩
  · exact h
  · cases hp.symm.trans h
  · cases htop.symm.trans h
  · cases hf.symm.trans h

/-- **The last message is not lost**, in any state of any run in which no unread message is announced between the
subscriber's read and its last clear, or taken away by another node. -/
theorem delivered_of_run (he : event_id < MAX_TOPICS_PER_NODE) {s : Channel M} {as : List (ChannelAct M)}
    (h : Trans.Run (ChannelAct.Step event_id) (Channel.NotBetween event_id) Channel.init as s) :
    s.Delivered event_id := by
  refine (h.invariant (P := Channel.Pending event_id) (.inl rfl) ?_).delivered
  exact fun _ _ _ hp hg hs => hp.step he hg hs

/-! ### What is lost -/

/-- The last message was not read, and nothing will make the subscriber read it. -/
structure Channel.Lost (event_id : Nat) (s : Channel M) : Prop where
  msg_ : s.msg_ ≠ s.region
  publisher : s.publisher = .idle
  spin : s.spin ≠ .triggered
  cleared : s.spin = .cleared → event_id = EVENT_MAX_COUNT - 1
  flag : s.event_flag_ event_id = false

theorem Channel.lost_of_clearEvents (he : event_id < MAX_TOPICS_PER_NODE) {s : Channel M} (hp : s.publisher = .idle)
    (hne : s.msg_ ≠ s.region) :
    (s.clearEvents event_id).Lost event_id ∧ (s.clearEvents event_id).spin ≠ .processed := by
  have hflag := EventFlags.clearEvents_self he s.event_flag_
  by_cases hid : event_id = EVENT_MAX_COUNT - 1
  · have hspin : (s.clearEvents event_id).spin = .cleared := if_pos hid
    refine ⟨⟨hne, hp, ?_, fun _ => hid, hflag⟩, ?_⟩
    all_goals
      rw [hspin]
      exact SpinPc.noConfusion
  · have hspin : (s.clearEvents event_id).spin = .top := if_neg hid
    refine ⟨⟨hne, hp, ?_, fun hc => (by cases hspin.symm.trans hc), hflag⟩, ?_⟩
    all_goals
      rw [hspin]
      exact SpinPc.noConfusion

theorem Channel.Lost.ends_of_cleared (he : event_id < MAX_TOPICS_PER_NODE) {s : Channel M} (h : s.Lost event_id)
    (hs : s.spin ≠ .processed) :
    ∃ as s', Trans.Run (ChannelAct.Step event_id) Trans.free s as s' ∧ ¬ s'.Delivered event_id := by
  cases hspin : s.spin with
  | top => exact ⟨_, s, .nil, fun hd => h.msg_ (hd ⟨h.publisher, hspin, h.flag⟩)⟩
  | triggered => exact absurd hspin h.spin
  | processed => exact absurd hspin hs
  | cleared =>
    have hid := h.cleared hspin
    have hflag : s.event_flag_.clearEvents (EVENT_MAX_COUNT - 1) event_id = false :=
      hid ▸ EventFlags.clearEvents_self he _
    exact ⟨_, _, .single trivial (.syncRegistry hid hspin), fun hd => h.msg_ (hd ⟨h.publisher, rfl, hflag⟩)⟩

/-- When the round is over nothing is left to do. -/
theorem Channel.Lost.ends (he : event_id < MAX_TOPICS_PER_NODE) {s : Channel M} (h : s.Lost event_id) :
    ∃ as s', Trans.Run (ChannelAct.Step event_id) Trans.free s as s' ∧ ¬ s'.Delivered event_id := by
  by_cases hs : s.spin = .processed
  · obtain ⟨hlost, hne⟩ := Channel.lost_of_clearEvents he h.publisher h.msg_
    obtain ⟨as, s', hrun, hno⟩ := hlost.ends_of_cleared he hne
    exact ⟨_, s', (Trans.Run.single trivial (.clearEvents hs)).trans hrun, hno⟩
  · exact h.ends_of_cleared he hs

/-- **A message announced between the read and the clear is lost**: when the round is over nothing is left to do, and it
was not read. -/
theorem lost_of_set (he : event_id < MAX_TOPICS_PER_NODE) {s : Channel M} (hp : s.publisher = .written)
    (hs : s.spin = .processed ∨ event_id = EVENT_MAX_COUNT - 1 ∧ s.spin = .cleared) (hne : s.msg_ ≠ s.region) :
    ∃ as s', Trans.Run (ChannelAct.Step event_id) Trans.free s (.triggerEvent :: as) s' ∧ ¬ s'.Delivered event_id := by
  have hset : Trans.Run (ChannelAct.Step event_id) Trans.free s [.triggerEvent] (s.triggerEvent event_id) :=
    .single trivial (.triggerEvent hp)
  rcases hs with hs | ⟨hid, hs⟩
  · have hclear : ChannelAct.Step event_id (s.triggerEvent event_id) .clearEvents _ := .clearEvents hs
    have hlost := (Channel.lost_of_clearEvents he (s := s.triggerEvent event_id) rfl hne).1
    obtain ⟨as, s', hrun, hno⟩ := hlost.ends he
    exact ⟨_, s', (hset.snoc trivial hclear).trans hrun, hno⟩
  · have hclear : ChannelAct.Step event_id (s.triggerEvent event_id) .syncRegistry _ := .syncRegistry hid hs
    have hflag : ((s.triggerEvent event_id).event_flag_.clearEvents (EVENT_MAX_COUNT - 1)) event_id = false :=
      hid ▸ EventFlags.clearEvents_self he _
    exact ⟨_, _, hset.snoc trivial hclear, fun hd => hne (hd ⟨rfl, rfl, hflag⟩)⟩

/-- **So is one whose bit another node takes away.** -/
theorem lost_of_other (he : event_id < MAX_TOPICS_PER_NODE) {s : Channel M} (hid : event_id = EVENT_MAX_COUNT - 1)
    (hg : ¬ s.NotBetween event_id (.other event_id false)) :
    ∃ as s', Trans.Run (ChannelAct.Step event_id) Trans.free s (.other event_id false :: as) s' ∧
      ¬ s'.Delivered event_id := by
  have hlast : ¬ (s.msg_ = s.region ∨ s.publisher = .written ∨ s.spin = .triggered) := fun h => hg fun _ => h
  rw [not_or, not_or] at hlast
  have hidle : s.publisher = .idle := by
    cases hp : s.publisher with
    | idle => rfl
    | written => exact absurd hp hlast.2.1
  have hlost : ({ s with event_flag_ := Function.update s.event_flag_ event_id false } : Channel M).Lost event_id :=
    ⟨hlast.1, hidle, hlast.2.2, fun _ => hid, Function.update_self ..⟩
  obtain ⟨as, s', hrun, hno⟩ := hlost.ends he
  exact ⟨as, s', (Trans.Run.single trivial (.other (.inr hid))).trans hrun, hno⟩

end Steps

/-! ## Two runs -/

/-- A first message has been read, and its bit is still set. -/
def firstRead : Channel Nat := (((Channel.init.write 5).triggerEvent 1).waitForEvent 1).createTask

theorem run_firstRead : Trans.Run (ChannelAct.Step 1) (Channel.NotBetween 1) Channel.init
    [.write 5, .triggerEvent, .waitForEvent, .createTask] firstRead := by
  have h₁ : ChannelAct.Step 1 Channel.init (.write 5) _ := .write rfl
  have h₂ : ChannelAct.Step 1 (Channel.init.write 5) .triggerEvent _ := .triggerEvent rfl
  have h₃ : ChannelAct.Step 1 _ .waitForEvent _ := .waitForEvent (s := (Channel.init.write 5).triggerEvent 1) rfl
  have h₄ : ChannelAct.Step 1 _ .createTask firstRead := .createTask rfl
  have hg : (Channel.init.write 5).NotBetween 1 .triggerEvent := fun h => by rcases h with h | h <;> cases h
  exact .snoc (.snoc (.snoc (.single (by trivial) h₁) hg h₂) (by trivial) h₃) (by trivial) h₄

/-- A second message is written and announced after the bit of the first was cleared, and read in the next round. -/
theorem delivered_of_publish : ∃ s : Channel Nat, s.msg_ = some 6 ∧ s.Quiet 1 ∧ s.Delivered 1 := by
  have hclear := run_firstRead.snoc (by trivial) (.clearEvents rfl)
  have hwrite := hclear.snoc (a := .write 6) (by trivial) (.write rfl)
  have hset := hwrite.snoc (a := .triggerEvent) (fun h => by rcases h with h | h <;> cases h) (.triggerEvent rfl)
  have hlook := hset.snoc (by trivial) (.waitForEvent rfl)
  have hread := hlook.snoc (by trivial) (.createTask rfl)
  have hagain := hread.snoc (by trivial) (.clearEvents rfl)
  exact ⟨_, rfl, ⟨rfl, rfl, rfl⟩, delivered_of_run (by decide) hagain⟩

/-- A second message is announced after the first was read and before the bit is cleared. -/
theorem delivered_not_always : ¬ ∀ (s : Channel Nat) (as : List (ChannelAct Nat)),
    Trans.Run (ChannelAct.Step 1) Trans.free Channel.init as s → s.Delivered 1 := by
  intro h
  have hfree : Trans.Run (ChannelAct.Step 1) Trans.free Channel.init _ firstRead :=
    run_firstRead.weaken (fun _ _ _ => trivial)
  have hwrite : ChannelAct.Step 1 firstRead (.write 6) _ := .write rfl
  have hrun := hfree.snoc trivial hwrite
  have hone : 1 < MAX_TOPICS_PER_NODE := by decide
  have hunread : (firstRead.write 6).msg_ ≠ (firstRead.write 6).region := by decide
  obtain ⟨as, s, hlost, hno⟩ := lost_of_set hone rfl (.inl rfl) hunread
  exact hno (h _ _ (hrun.trans hlost))

end MiniRos2

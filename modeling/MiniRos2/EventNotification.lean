import MiniRos2.DispatchRound
import MiniRos2.Lib.Monitor
/-!
# EventNotification — the calls of `EventNotificationShm`, word by word

Threads of any processes call the object at once; the mutex is taken and given back, the flags are read and written
a word at a time, and any thread may come between.  `log` records what the calls did, in the order they did it, and
nothing reads it.  Whatever the threads do, each set of flags that a call returns has just the events that were
triggered and not taken or cleared since, and a trigger is taken once (`faithful_of_run`).  `clearEvents` of an id that
the bitset does not have throws with the mutex held, and `lock()` is there to return with it; after that no call gets to
the flags any more unless somebody calls `unlock()` (`inside_iff_of_run`).
-/
namespace MiniRos2
namespace EventNotification

open Monitor

/-! ## `std::bitset<EVENT_MAX_COUNT>` -/

/-- The words of a bitset. -/
abbrev Bits := Nat → BitVec 64

/-- How many words there are. -/
def WORDS : Nat := 16

def mask (pos : Nat) : BitVec 64 := 1#64 <<< (pos % 64)

/-- `operator[]`. -/
def test (b : Bits) (pos : Nat) : Bool := (b (pos / 64)).getLsbD (pos % 64)

/-- The word of a bit that is set, or reset. -/
def assign (set : Bool) (pos : Nat) (word : BitVec 64) : BitVec 64 :=
  if set then word ||| mask pos else word &&& ~~~ mask pos

theorem test_assign (b : Bits) (set : Bool) (pos id : Nat) :
    test (Function.update b (pos / 64) (assign set pos (b (pos / 64)))) id = if id = pos then set else test b id := by
  unfold test
  by_cases hw : id / 64 = pos / 64
  · rw [hw, Function.update_self]
    have hi : id % 64 < 64 := Nat.mod_lt _ (by decide)
    have hdec : decide (id = pos) = decide (id % 64 = pos % 64) :=
      decide_eq_decide.2 ⟨fun h => by rw [h], fun h => by omega⟩
    have hbit : (mask pos).getLsbD (id % 64) = decide (id = pos) := by
      rw [mask, BitVec.getLsbD_shiftLeft, BitVec.getLsbD_one, hdec]
      rcases Nat.lt_trichotomy (id % 64) (pos % 64) with h | h | h
      · simp [h, Nat.ne_of_lt h, hi]
      · simp [h, h ▸ hi]
      · have hne : id % 64 - pos % 64 ≠ 0 := by omega
        simp [Nat.ne_of_gt h, hne]
    cases set with
    | true => rw [assign, if_pos rfl, BitVec.getLsbD_or, hbit]; by_cases h : id = pos <;> simp [h]
    | false =>
      rw [assign, if_neg Bool.false_ne_true, BitVec.getLsbD_and, BitVec.getLsbD_not, hbit]
      by_cases h : id = pos <;> simp [h, hi]
  · rw [Function.update_of_ne hw, if_neg (fun h => hw (by rw [h]))]

theorem test_congr (b b' : Bits) (h : ∀ j, j < WORDS → b j = b' j) {id : Nat} (hid : id < EVENT_MAX_COUNT) :
    test b id = test b' id := by
  have hlt : id / 64 < WORDS := by
    have hid' : id < 1024 := hid
    unfold WORDS
    omega
  rw [test, test, h _ hlt]

/-! ## The calls -/

inductive Call where
  | triggerEvent (event_id : Int32) (now : UInt64)
  | waitForEvent (timeout_ms : UInt64) (now : Timespec)
  | readAndClearEvents
  | readEvents
  | clearEvents
  /-- `clearEvents(int)`. -/
  | clearEvent (event_id : Int32)
  /-- `ShmManager::clearTriggerEvent`. -/
  | clearTriggerEvent (event_id : Int32)
  | notifyAll
  | lock
  | unlock

/-- How a call ended. -/
inductive Result where
  | returned
  | saw (event_flag : Bits)
  | took (event_flag : Bits)
  | threw (e : Exn)

/-- What a call did to the flags, or learned of them. -/
inductive Entry where
  | triggered (event_id : Nat)
  | cleared (event_id : Nat)
  | clearedAll
  | saw (event_flag : Bits)
  | took (event_flag : Bits)

structure EventNotificationData where
  event_flag_ : Bits
  time_ : UInt64
  log : List Entry

/-- Where a thread is in a call; `copy` and `zero` are the loops over the words. -/
inductive Point where
  | outside
  | enter (c : Call)
  | load (set : Bool) (now : UInt64) (event_id : Nat)
  | store (set : Bool) (now : UInt64) (event_id : Nat) (word : BitVec 64)
  | stamp (now : UInt64)
  | broadcast
  | timedwait (abstime : Timespec)
  | copy (clear : Bool) (i : Nat) (event_flag : Bits)
  | zero (taken : Option Bits) (i : Nat)
  | leave (r : Result)
  | failed (ret : Nat)
  | caught (ret : Nat)
  | done (r : Result)

def InRange (event_id : Int32) : Prop := 0 ≤ event_id.toInt ∧ event_id.toInt < EVENT_MAX_COUNT

instance (event_id : Int32) : Decidable (InRange event_id) := inferInstanceAs (Decidable (_ ∧ _))

/-- The deadline of `waitForEvent`. -/
def deadline (now : Timespec) (timeout_ms : UInt64) : Timespec :=
  let tv_sec := now.tv_sec + (timeout_ms.toNat / 1000 : Nat)
  let tv_nsec := now.tv_nsec + (timeout_ms.toNat % 1000 * 1000000 : Nat)
  if 1000000000 ≤ tv_nsec then ⟨tv_sec + 1, tv_nsec - 1000000000⟩ else ⟨tv_sec, tv_nsec⟩

/-- What `std::bitset::reset` throws; the id is converted to a `size_t`. -/
def resetOutOfRange (event_id : Int32) : Exn :=
  .outOfRange (utf8 "bitset::reset: __position (which is " ++ toString (event_id.toInt % 2 ^ 64).toNat ++
    utf8 ") >= _Nb (which is " ++ toString EVENT_MAX_COUNT ++ utf8 ")")

variable (strerror : Nat → List UInt8)

namespace Call

/-- Behind the lock. -/
def body : Call → Point
  | .triggerEvent event_id now => .load true now event_id.toInt.toNat
  | .waitForEvent timeout_ms now => .timedwait (deadline now timeout_ms)
  | .readAndClearEvents => .copy true 0 (fun _ => 0)
  | .readEvents => .copy false 0 (fun _ => 0)
  | .clearEvents => .zero none 0
  | .clearEvent event_id =>
    if InRange event_id then .load false 0 event_id.toInt.toNat else .done (.threw (resetOutOfRange event_id))
  | .clearTriggerEvent event_id =>
    if InRange event_id then .load false 0 event_id.toInt.toNat else .done (.threw (resetOutOfRange event_id))
  | .notifyAll => .broadcast
  -- the mutex is not given back
  | .lock => .done .returned
  | .unlock => .leave .returned

/-- `pthread_mutex_lock` returned `ret`. -/
def locked (c : Call) (ret : Nat) : Point :=
  if ret = 0 then c.body
  else match c with
    | .notifyAll => .done .returned
    | _ => .done (.threw (.runtimeError (utf8 "Failed to lock mutex: " ++ strerror ret)))

/-- Before the lock: an id that is not checked, or one that is checked and good. -/
def Locks : Call → Prop
  | .triggerEvent event_id _ => InRange event_id
  | .clearTriggerEvent event_id => InRange event_id
  | _ => True

instance (c : Call) : Decidable c.Locks := by
  cases c <;> unfold Locks <;> infer_instance

end Call

/-- One turn of the loop that copies the flags, and what follows the last. -/
def copyWord (clear : Bool) (i : Nat) (event_flag : Bits) (x : EventNotificationData) : EventNotificationData × Point :=
  let event_flag := Function.update event_flag i (x.event_flag_ i)
  if i + 1 < WORDS then (x, .copy clear (i + 1) event_flag)
  else if clear then (x, .zero (some event_flag) 0)
  else ({ x with log := x.log ++ [.saw event_flag] }, .leave (.saw event_flag))

/-- One turn of the loop that resets the flags, and what follows the last. -/
def zeroWord (taken : Option Bits) (i : Nat) (x : EventNotificationData) : EventNotificationData × Point :=
  let x := { x with event_flag_ := Function.update x.event_flag_ i 0 }
  if i + 1 < WORDS then (x, .zero taken (i + 1))
  else match taken with
    | some event_flag => ({ x with log := x.log ++ [.took event_flag] }, .leave (.took event_flag))
    | none => ({ x with log := x.log ++ [.clearedAll] }, .leave .returned)

/-- `pthread_mutex_unlock`, and what follows. -/
def giveBack (r : Result) : Instr Point EventNotificationData := .unlock fun ret =>
  if ret ≠ 0 then .done (.threw (.runtimeError (utf8 "Failed to unlock mutex: " ++ strerror ret))) else .done r

/-- **The calls, instruction by instruction**; `unlock()` takes no lock before. -/
def instr : Point → Instr Point EventNotificationData
  | .outside => .idle
  | .done _ => .idle
  | .enter .unlock => giveBack strerror .returned
  | .enter c => if c.Locks then .lock (c.locked strerror) else .access fun x => (x, .done .returned)
  | .load set now event_id => .access fun x => (x, .store set now event_id (x.event_flag_ (event_id / 64)))
  | .store set now event_id word => .access fun x =>
    ({ x with event_flag_ := Function.update x.event_flag_ (event_id / 64) (assign set event_id word),
              log := x.log ++ [if set then .triggered event_id else .cleared event_id] },
      if set then .stamp now else .leave .returned)
  | .stamp now => .access fun x => ({ x with time_ := now }, .broadcast)
  | .broadcast => .notify true (.leave .returned)
  | .timedwait abstime => .wait (some abstime) fun ret =>
    if ret = ETIMEDOUT then .copy false 0 (fun _ => 0)
    else if ret ≠ 0 then .failed ret
    else .copy false 0 (fun _ => 0)
  | .copy clear i event_flag => .access (copyWord clear i event_flag)
  | .zero taken i => .access (zeroWord taken i)
  | .leave r => giveBack strerror r
  | .failed ret => .unlock fun _ => .caught ret
  -- the handler unlocks what is unlocked already
  | .caught ret => .unlock fun _ => .done (.threw (.runtimeError (utf8 "Failed to wait cond: " ++ strerror ret)))

/-- Where a call begins; `clock_gettime` gives a valid time. -/
def Begins : Point → Prop
  | .enter (.waitForEvent _ now) => now.Valid
  | .enter _ => True
  | _ => False

/-! ## What the calls are for -/

namespace Entry

def Clears (event_id : Nat) : Entry → Prop
  | .cleared id => event_id = id
  | .clearedAll => True
  | .took _ => True
  | _ => False

/-- The flags that were shown to the caller. -/
def shown : Entry → Option Bits
  | .saw event_flag => some event_flag
  | .took event_flag => some event_flag
  | _ => none

end Entry

/-- The event was triggered, and not taken or cleared since. -/
def Pending (event_id : Nat) (log : List Entry) : Prop :=
  ∃ l₁ l₂, log = l₁ ++ .triggered event_id :: l₂ ∧ ∀ e ∈ l₂, ¬ e.Clears event_id

/-- The flags have just the events that are pending. -/
def Shows (event_flag : Bits) (log : List Entry) : Prop :=
  ∀ id, id < EVENT_MAX_COUNT → (test event_flag id = true ↔ Pending id log)

/-- **All that was shown was pending, and all that was pending shown.** -/
def Exact (log : List Entry) : Prop :=
  ∀ l₁ e l₂, log = l₁ ++ e :: l₂ → ∀ event_flag, e.shown = some event_flag → Shows event_flag l₁

theorem pending_snoc {id : Nat} {log : List Entry} {e : Entry} :
    Pending id (log ++ [e]) ↔ e = .triggered id ∨ Pending id log ∧ ¬ e.Clears id := by
  constructor
  · rintro ⟨l₁, l₂, heq, hl₂⟩
    rcases List.eq_nil_or_concat l₂ with rfl | ⟨l₂, x, rfl⟩
    · obtain ⟨-, hx⟩ := List.append_inj' heq rfl
      cases hx
      exact .inl rfl
    · rw [List.concat_eq_append] at heq hl₂
      rw [← List.cons_append, ← List.append_assoc] at heq
      obtain ⟨rfl, hx⟩ := List.append_inj' heq rfl
      cases hx
      exact .inr ⟨⟨l₁, l₂, rfl, fun y hy => hl₂ y (List.mem_append_left _ hy)⟩,
        hl₂ e (List.mem_append_right _ (List.mem_singleton_self e))⟩
  · rintro (rfl | ⟨⟨l₁, l₂, rfl, hl₂⟩, he⟩)
    · exact ⟨log, [], rfl, nofun⟩
    · refine ⟨l₁, l₂ ++ [e], by rw [List.append_assoc, List.cons_append], fun y hy => ?_⟩
      rcases List.mem_append.1 hy with hy | hy
      · exact hl₂ y hy
      · rw [List.mem_singleton.1 hy]
        exact he

theorem Exact.snoc {log : List Entry} {e : Entry} (h : Exact log)
    (he : ∀ event_flag, e.shown = some event_flag → Shows event_flag log) : Exact (log ++ [e]) := by
  intro l₁ e' l₂ heq event_flag hshown
  rcases List.eq_nil_or_concat l₂ with rfl | ⟨l₂, x, rfl⟩
  · obtain ⟨rfl, hx⟩ := List.append_inj' heq rfl
    cases hx
    exact he event_flag hshown
  · rw [List.concat_eq_append, ← List.cons_append, ← List.append_assoc] at heq
    obtain ⟨hlog, -⟩ := List.append_inj' heq rfl
    exact h l₁ e' l₂ hlog event_flag hshown

/-- **A trigger is taken once**: between two calls that took the event it was triggered again. -/
theorem Exact.once {l₁ l₂ l₃ : List Entry} {b b' : Bits} {id : Nat}
    (h : Exact (l₁ ++ .took b :: l₂ ++ .took b' :: l₃)) (hid : id < EVENT_MAX_COUNT) (hb : test b' id = true) :
    .triggered id ∈ l₂ := by
  obtain ⟨m₁, m₂, heq, hm₂⟩ := (h _ _ _ rfl b' rfl id hid).1 hb
  by_contra hnot
  -- the trigger is before the first call, which then clears it
  have hmem : Entry.took b ∈ m₂ := by
    have hpre : m₁ ++ .triggered id :: m₂ = l₁ ++ .took b :: l₂ := heq.symm
    rcases List.append_eq_append_iff.1 hpre with ⟨c, rfl, hc⟩ | ⟨c, rfl, hc⟩
    · cases c with
      | nil => cases hc
      | cons x c =>
        rw [List.cons_append, List.cons.injEq] at hc
        rw [hc.2]
        exact List.mem_append_right _ List.mem_cons_self
    · cases c with
      | nil => cases hc
      | cons x c =>
        rw [List.cons_append, List.cons.injEq] at hc
        exact absurd (by rw [hc.2]; exact List.mem_append_right _ List.mem_cons_self) hnot
  exact hm₂ _ hmem trivial

/-! ## The deadline -/

/-- The instant, in nanoseconds. -/
def instant (t : Timespec) : Int := t.tv_sec * 1000000000 + t.tv_nsec

/-- **The deadline is valid and exact**, whatever the clock says and however long the timeout. -/
theorem deadline_spec {now : Timespec} (h : now.Valid) (timeout_ms : UInt64) :
    (deadline now timeout_ms).Valid ∧
      instant (deadline now timeout_ms) = instant now + (timeout_ms.toNat : Int) * 1000000 := by
  obtain ⟨hlo, hhi⟩ := h
  have hdiv := Nat.div_add_mod timeout_ms.toNat 1000
  have hmod := Nat.mod_lt timeout_ms.toNat (show 0 < 1000 by decide)
  by_cases hcarry : 1000000000 ≤ now.tv_nsec + (timeout_ms.toNat % 1000 * 1000000 : Nat)
  · have heq : deadline now timeout_ms = ⟨now.tv_sec + (timeout_ms.toNat / 1000 : Nat) + 1,
        now.tv_nsec + (timeout_ms.toNat % 1000 * 1000000 : Nat) - 1000000000⟩ := if_pos hcarry
    rw [heq]
    refine ⟨⟨?_, ?_⟩, ?_⟩ <;> simp only [instant] <;> omega
  · have heq : deadline now timeout_ms = ⟨now.tv_sec + (timeout_ms.toNat / 1000 : Nat),
        now.tv_nsec + (timeout_ms.toNat % 1000 * 1000000 : Nat)⟩ := if_neg hcarry
    rw [heq]
    refine ⟨⟨?_, ?_⟩, ?_⟩ <;> simp only [instant] <;> omega

/-! ## The outline -/

/-- The flags show what is pending, and so did all that was shown. -/
def Right (x : EventNotificationData) : Prop := Exact x.log ∧ Shows x.event_flag_ x.log

/-- What the call returns is in the log. -/
def Result.Logged (log : List Entry) : Result → Prop
  | .saw event_flag => .saw event_flag ∈ log
  | .took event_flag => .took event_flag ∈ log
  | _ => True

def held : Point → Bool
  | .outside | .enter _ | .done _ => false
  | _ => true

/-- What a thread in its section knows of the flags. -/
def known : Point → EventNotificationData → Prop
  | .load _ _ event_id, x => Right x ∧ event_id < EVENT_MAX_COUNT
  | .store _ _ event_id word, x => Right x ∧ event_id < EVENT_MAX_COUNT ∧ word = x.event_flag_ (event_id / 64)
  | .timedwait abstime, x => Right x ∧ abstime.Valid
  | .copy _ i event_flag, x => Right x ∧ i < WORDS ∧ ∀ j, j < i → event_flag j = x.event_flag_ j
  | .zero taken i, x => Exact x.log ∧ i < WORDS ∧ (∀ j, j < i → x.event_flag_ j = 0) ∧
    ∀ event_flag, taken = some event_flag → Shows event_flag x.log
  | .leave r, x => Right x ∧ r.Logged x.log
  | .failed _, _ => False
  | .caught _, _ => False
  | _, x => Right x

/-- What stands for a thread outside its section, whatever the others do. -/
def away : Point → EventNotificationData → Prop
  | .enter (.waitForEvent _ now), _ => now.Valid
  | .timedwait abstime, _ => abstime.Valid
  | .done r, x => r.Logged x.log
  | _, _ => True

def outline : Outline Point EventNotificationData := ⟨held, Right, known, away⟩

theorem Result.Logged.append {log : List Entry} {r : Result} (h : r.Logged log) (e : Entry) :
    r.Logged (log ++ [e]) := by
  cases r with
  | saw event_flag => exact List.mem_append_left _ h
  | took event_flag => exact List.mem_append_left _ h
  | _ => trivial

/-- What stands outside stands when the log grows. -/
theorem away_append {q : Point} {x y : EventNotificationData} (hlog : y.log = x.log ∨ ∃ e, y.log = x.log ++ [e])
    (h : away q x) : away q y := by
  cases q with
  | done r =>
    have hr : r.Logged x.log := h
    show r.Logged y.log
    rcases hlog with heq | ⟨e, heq⟩
    · rwa [heq]
    · rw [heq]
      exact hr.append e
  | enter c => cases c <;> exact h
  | timedwait abstime => exact h
  | _ => trivial

theorem Right.assign {x : EventNotificationData} (h : Right x) (set : Bool) (id : Nat) :
    Right { x with
      event_flag_ := Function.update x.event_flag_ (id / 64) (assign set id (x.event_flag_ (id / 64)))
      log := x.log ++ [if set then .triggered id else .cleared id] } := by
  refine ⟨h.1.snoc (fun event_flag hshown => by cases set <;> cases hshown), fun j hj => ?_⟩
  rw [pending_snoc, test_assign]
  cases set with
  | true =>
    by_cases hji : j = id
    · subst hji
      simp
    · rw [if_neg hji, h.2 j hj]
      simp [Entry.Clears, Ne.symm hji]
  | false =>
    by_cases hji : j = id
    · subst hji
      simp [Entry.Clears]
    · rw [if_neg hji, h.2 j hj]
      simp [Entry.Clears, hji]

/-- No flag is set, after everything was cleared. -/
theorem Right.zeroed {x : EventNotificationData} {e : Entry} (hlog : Exact x.log)
    (hzero : ∀ j, j < WORDS → x.event_flag_ j = 0) (he : ∀ id, e.Clears id)
    (hshown : ∀ event_flag, e.shown = some event_flag → Shows event_flag x.log) :
    Right { x with log := x.log ++ [e] } := by
  refine ⟨hlog.snoc hshown, fun id hid => ?_⟩
  have htest : test x.event_flag_ id = false := by
    rw [test_congr _ (fun _ => 0) hzero hid, test]
    exact BitVec.getLsbD_zero
  show test x.event_flag_ id = true ↔ _
  rw [htest, pending_snoc]
  have hnot := he id
  constructor
  · intro h
    cases h
  · rintro (rfl | ⟨-, h⟩)
    · exact hnot.elim
    · exact absurd hnot h

/-- What is known behind the lock; an id that `clearEvents(int)` does not check has to be good. -/
theorem known_body {c : Call} {x : EventNotificationData} (hx : Right x) (hlocks : c.Locks) (hlock : c ≠ .lock)
    (hgood : ∀ id, c = .clearEvent id → InRange id) (hclock : away (.enter c) x) :
    outline.Inside c.body x := by
  have hload : ∀ {set now id}, InRange id → outline.Inside (.load set now id.toInt.toNat) x := fun {_ _ id} hid =>
    ⟨rfl, hx, by have h1 := hid.1; have h2 := hid.2; omega⟩
  cases c with
  | triggerEvent event_id now => exact hload hlocks
  | waitForEvent timeout_ms now => exact ⟨rfl, hx, (deadline_spec hclock timeout_ms).1⟩
  | readAndClearEvents => exact ⟨rfl, hx, by decide, nofun⟩
  | readEvents => exact ⟨rfl, hx, by decide, nofun⟩
  | clearEvents => exact ⟨rfl, hx.1, by decide, nofun, nofun⟩
  | clearEvent event_id =>
    rw [Call.body, if_pos (hgood event_id rfl)]
    exact hload (hgood event_id rfl)
  | clearTriggerEvent event_id =>
    have hid : InRange event_id := hlocks
    rw [Call.body, if_pos hid]
    exact hload hid
  | notifyAll => exact ⟨rfl, hx⟩
  | lock => exact absurd rfl hlock
  | unlock => exact ⟨rfl, hx, trivial⟩

theorem outside_lockFailed (c : Call) (x : EventNotificationData) {ret : Nat} (hret : ret ≠ 0) :
    outline.Outside (c.locked strerror ret) x := by
  unfold Call.locked
  rw [if_neg hret]
  cases c <;> exact ⟨rfl, trivial⟩

theorem copied {x : EventNotificationData} {i : Nat} {event_flag : Bits}
    (h : ∀ j, j < i → event_flag j = x.event_flag_ j) :
    ∀ j, j < i + 1 → Function.update event_flag i (x.event_flag_ i) j = x.event_flag_ j := by
  intro j hj
  by_cases hji : j = i
  · rw [hji, Function.update_self]
  · rw [Function.update_of_ne hji]
    exact h j (by omega)

theorem zeroed {b : Bits} {i : Nat} (h : ∀ j, j < i → b j = 0) : ∀ j, j < i + 1 → Function.update b i 0 j = 0 := by
  intro j hj
  by_cases hji : j = i
  · rw [hji, Function.update_self]
  · rw [Function.update_of_ne hji]
    exact h j (by omega)

theorem checks_copy (clear : Bool) (i : Nat) (event_flag : Bits) :
    outline.Checks (.copy clear i event_flag) 0 (.access (copyWord clear i event_flag)) := by
  refine ⟨fun _ x hx => ?_, nofun⟩
  obtain ⟨hright, hi, hcopy⟩ := hx
  have hnext := copied hcopy
  by_cases hlt : i + 1 < WORDS
  · have heq : copyWord clear i event_flag x = (x, _) := if_pos hlt
    rw [heq]
    exact ⟨⟨rfl, hright, hlt, hnext⟩, fun _ hq => hq⟩
  · have hshows : Shows (Function.update event_flag i (x.event_flag_ i)) x.log := fun id hid => by
      rw [test_congr _ x.event_flag_ (fun j hj => hnext j (by omega)) hid]
      exact hright.2 id hid
    cases clear with
    | true =>
      have heq : copyWord true i event_flag x = (x, .zero (some _) 0) := (if_neg hlt).trans (if_pos rfl)
      rw [heq]
      refine ⟨⟨rfl, hright.1, by decide, nofun, fun b hb => ?_⟩, fun _ hq => hq⟩
      cases hb
      exact hshows
    | false =>
      have heq : copyWord false i event_flag x = ({ x with log := x.log ++ [.saw _] }, .leave (.saw _)) :=
        (if_neg hlt).trans (if_neg Bool.false_ne_true)
      rw [heq]
      refine ⟨⟨rfl, ⟨hright.1.snoc (fun b hb => ?_), fun id hid => ?_⟩,
        List.mem_append_right _ (List.mem_singleton_self _)⟩, fun _ hq => away_append (x := x) (.inr ⟨_, rfl⟩) hq⟩
      · cases hb
        exact hshows
      · rw [pending_snoc]
        simp only [Entry.Clears, reduceCtorEq, false_or, not_false_eq_true, and_true]
        exact hright.2 id hid

theorem checks_zero (taken : Option Bits) (i : Nat) :
    outline.Checks (.zero taken i) 0 (.access (zeroWord taken i)) := by
  refine ⟨fun _ x hx => ?_, nofun⟩
  obtain ⟨hexact, hi, hzero, htaken⟩ := hx
  have hnext := zeroed hzero
  have hlog : ∀ (e : Entry) (q : Point), away q x →
      away q { x with event_flag_ := Function.update x.event_flag_ i 0, log := x.log ++ [e] } :=
    fun e q hq => away_append (x := x) (.inr ⟨e, rfl⟩) hq
  by_cases hlt : i + 1 < WORDS
  · have heq : zeroWord taken i x = (_, .zero taken (i + 1)) := if_pos hlt
    rw [heq]
    exact ⟨⟨rfl, hexact, hlt, hnext, htaken⟩, fun _ hq => away_append (x := x) (.inl rfl) hq⟩
  · have hall : ∀ j, j < WORDS → Function.update x.event_flag_ i 0 j = 0 := fun j hj => hnext j (by omega)
    cases taken with
    | some b =>
      have heq : zeroWord (some b) i x = (_, .leave (.took b)) := if_neg hlt
      rw [heq]
      refine ⟨⟨rfl, Right.zeroed (x := { x with event_flag_ := Function.update x.event_flag_ i 0 }) hexact hall
        (fun _ => trivial) (fun b' hb' => ?_), List.mem_append_right _ (List.mem_singleton_self _)⟩, hlog _⟩
      cases hb'
      exact htaken b rfl
    | none =>
      have heq : zeroWord none i x = (_, .leave .returned) := if_neg hlt
      rw [heq]
      exact ⟨⟨rfl, Right.zeroed (x := { x with event_flag_ := Function.update x.event_flag_ i 0 }) hexact hall
        (fun _ => trivial) nofun, trivial⟩, hlog _⟩

/-- Nobody calls `unlock()`. -/
def Kept (p : Point) (_ : Nat) : Prop := p ≠ .enter .unlock

/-- Nor is the mutex taken by `lock()`, or for a `clearEvents` of an id that the bitset does not have. -/
def Good (p : Point) (ret : Nat) : Prop :=
  Kept p ret ∧ (ret = 0 → p ≠ .enter .lock ∧ ∀ id, p = .enter (.clearEvent id) → InRange id)

/-- What a call that is not `unlock()` does first. -/
theorem instr_enter {c : Call} (h : c ≠ .unlock) : instr strerror (.enter c) =
    if c.Locks then .lock (c.locked strerror) else .access fun x => (x, .done .returned) := by
  cases c with
  | unlock => exact absurd rfl h
  | _ => rfl

/-- **Every other instruction fits.** -/
theorem checks {p : Point} {ret : Nat} (hp : Good p ret) : outline.Checks p ret (instr strerror p) := by
  cases p with
  | outside => rfl
  | done r => rfl
  | enter c =>
    rw [instr_enter strerror (fun hc => hp.1 (by rw [hc]))]
    split
    · rename_i hlocks
      refine ⟨rfl, fun x hx => ⟨fun hret hright => ?_, fun hret => outside_lockFailed strerror c x hret⟩⟩
      obtain ⟨hlock, hclear⟩ := hp.2 hret
      exact known_body hright hlocks (fun hc => hlock (by rw [hc])) (fun id hid => hclear id (by rw [hid])) hx
    · exact ⟨nofun, fun _ x _ => ⟨rfl, rfl, trivial⟩⟩
  | load set now event_id => exact ⟨fun _ x hx => ⟨⟨rfl, hx.1, hx.2, rfl⟩, fun _ hq => hq⟩, nofun⟩
  | store set now event_id word =>
    refine ⟨fun _ x hx => ?_, nofun⟩
    obtain ⟨hright, hid, rfl⟩ := hx
    have hassign := hright.assign set event_id
    cases set with
    | true => exact ⟨⟨rfl, hassign⟩, fun _ hq => away_append (.inr ⟨_, rfl⟩) hq⟩
    | false => exact ⟨⟨rfl, hassign, trivial⟩, fun _ hq => away_append (.inr ⟨_, rfl⟩) hq⟩
  | stamp now =>
    exact ⟨fun _ x hx => ⟨⟨rfl, hx⟩, fun _ hq => away_append (x := x) (.inl rfl) hq⟩, nofun⟩
  | broadcast => exact ⟨fun _ x hx => ⟨rfl, hx, trivial⟩, nofun⟩
  | timedwait abstime =>
    refine ⟨rfl, fun x hx => ⟨hx.1, hx.2⟩, fun x hret habs hx => ?_⟩
    have hcopy : outline.Inside (.copy false 0 (fun _ => 0)) x := ⟨rfl, hx, by decide, nofun⟩
    rcases hret with rfl | ⟨t, -, -, rfl⟩ | ⟨t, ht, hnot, -⟩
    · exact hcopy
    · exact hcopy
    · cases ht
      exact absurd habs hnot
  | copy clear i event_flag => exact checks_copy clear i event_flag
  | zero taken i => exact checks_zero taken i
  | leave r => exact ⟨rfl, fun x hx => ⟨hx.1, rfl, hx.2⟩⟩
  | failed ret => exact ⟨rfl, fun x hx => hx.elim⟩
  | caught ret => exact ⟨rfl, fun x hx => hx.elim⟩

/-! ## Runs -/

variable {κ : Type} [DecidableEq κ] {s t u : State κ Point EventNotificationData} {as bs : List (Act κ Point)}

/-- The flags are clear and nobody calls. -/
def init : State κ Point EventNotificationData := State.init ⟨fun _ => 0, 0, []⟩ .outside

def Steps : State κ Point EventNotificationData → Act κ Point → State κ Point EventNotificationData → Prop :=
  Step (instr strerror) Begins

omit [DecidableEq κ] in
theorem sound_init : outline.Sound (instr strerror) (init : State κ Point EventNotificationData) := by
  refine Outline.sound_init ⟨fun l₁ e l₂ heq => ?_, fun id _ => ?_⟩ ⟨rfl, trivial⟩
  · cases l₁ <;> cases heq
  · have htest : test (fun _ => 0) id = false := BitVec.getLsbD_zero
    rw [htest]
    refine ⟨fun h => (by cases h), ?_⟩
    rintro ⟨l₁, l₂, heq, -⟩
    cases l₁ <;> cases heq

theorem outside_of_begins (p : Point) (hp : Begins p) (x : EventNotificationData) : outline.Outside p x := by
  cases p with
  | enter c =>
    refine ⟨rfl, ?_⟩
    cases c <;> exact hp
  | _ => exact hp.elim

theorem sound_of_run (h : Trans.Run (Steps strerror) (fun s a => a.Meets Good s) init as t) :
    outline.Sound (instr strerror) t := by
  refine Outline.sound_of_run (h.weaken (fun s a hg => ?_)) (sound_init strerror)
    (fun p hp _ x _ => outside_of_begins p hp x)
  cases a with
  | wake k ret => trivial
  | _ => exact checks strerror hg

theorem exact_of_known {p : Point} {x : EventNotificationData} (hheld : held p = true) (h : known p x) :
    Exact x.log := by
  cases p with
  | zero taken i => exact h.1
  | load set now event_id => exact h.1.1
  | store set now event_id word => exact h.1.1
  | timedwait abstime => exact h.1.1
  | copy clear i event_flag => exact h.1.1
  | leave r => exact h.1.1
  | failed ret => exact h.elim
  | caught ret => exact h.elim
  | outside => cases hheld
  | enter c => cases hheld
  | done r => cases hheld
  | stamp now => exact h.1
  | broadcast => exact h.1

/-- **The object does what it is for.** -/
structure Faithful (t : State κ Point EventNotificationData) : Prop where
  exact : Exact t.shared.log
  once : ∀ l₁ l₂ l₃ b b' id, t.shared.log = l₁ ++ .took b :: l₂ ++ .took b' :: l₃ → id < EVENT_MAX_COUNT →
    test b' id = true → .triggered id ∈ l₂
  returns : ∀ k r, t.point k = .done r → r.Logged t.shared.log
  shows : t.owner = none → Shows t.shared.event_flag_ t.shared.log
  inside : ∀ k, t.owner = some k → held (t.point k) = true
  defined : t.undefined = false

/-- **Whatever any number of threads call, the flags that are returned are the events that are pending**, each
trigger is taken once at most, and the mutex is unlocked by who holds it, once; as long as no `clearEvents` is
called with an id that the bitset does not have, and nobody uses `lock()` and `unlock()`. -/
theorem faithful_of_run (h : Trans.Run (Steps strerror) (fun s a => a.Meets Good s) init as t) : Faithful t := by
  have hsound := sound_of_run strerror h
  have hexact : Exact t.shared.log := by
    cases hown : t.owner with
    | none => exact (hsound.free hown).1
    | some k => exact exact_of_known ((hsound.owner k).1 hown).2 (hsound.known k hown)
  refine ⟨hexact, fun l₁ l₂ l₃ b b' id hlog hid hb => ?_, fun k r hk => ?_, fun hown => (hsound.free hown).2,
    fun k hown => ((hsound.owner k).1 hown).2, hsound.defined⟩
  · rw [hlog] at hexact
    exact hexact.once hid hb
  · have hnot : t.owner ≠ some k := hsound.not_owns (by rw [hk]; rfl)
    have haway := hsound.away k hnot
    rw [hk] at haway
    exact haway

/-- The first words of `c`, the others of `b`. -/
def fill (b c : Bits) : Nat → Bits
  | 0 => b
  | i + 1 => Function.update (fill b c i) i (c i)

/-- No call begins here. -/
theorem good_of_inside {p : Point} {ret : Nat} (h : ∀ c, p ≠ .enter c) : Good p ret :=
  ⟨h _, fun _ => ⟨h _, fun _ hid => absurd hid (h _)⟩⟩

/-- One thread triggers event 3, and the other takes it. -/
theorem faithful_of_run_trigger : ∃ (t : State Bool Point EventNotificationData) (event_flag : Bits),
    t.shared.log = [.triggered 3, .took event_flag] ∧ t.point true = .done .returned ∧
    t.point false = .done (.took event_flag) ∧ test event_flag 3 = true ∧ test t.shared.event_flag_ 3 = false ∧
    Faithful t := by
  have h₁ : Trans.Run (Steps (fun _ => [])) (fun s a => a.Meets Good s) (init : State Bool Point EventNotificationData)
    [.call true (.enter (.triggerEvent 3 0))] _ := .single (good_of_inside nofun) (.call ⟨rfl, rfl⟩ trivial)
  have h₂ := run_advance h₁ true ⟨rfl, rfl⟩ ⟨nofun, fun _ => ⟨nofun, nofun⟩⟩
  have h₃ := run_advance h₂ true ⟨rfl, trivial⟩ (good_of_inside nofun)
  have h₄ := run_advance h₃ true ⟨rfl, trivial⟩ (good_of_inside nofun)
  have h₅ := run_advance h₄ true ⟨rfl, trivial⟩ (good_of_inside nofun)
  have h₆ := run_advance h₅ true ⟨rfl, rfl⟩ (good_of_inside nofun)
  have h₇ := run_advance h₆ true ⟨rfl, rfl⟩ (good_of_inside nofun)
  have h₈ := h₇.snoc (a := .call false (.enter .readAndClearEvents)) (show Good .outside 0 from good_of_inside nofun)
    (.call ⟨rfl, rfl⟩ trivial)
  have h₉ := run_advance h₈ false ⟨rfl, rfl⟩ ⟨nofun, fun _ => ⟨nofun, nofun⟩⟩
  -- the flags are copied word by word, then reset word by word
  have hcopy := run_loop false (fun i => .copy true i (fill (fun _ => 0) (Function.update (fun _ => 0) 0 8#64) i))
    (fun _ => ⟨Function.update (fun _ => 0) 0 8#64, 0, [.triggered 3]⟩) h₉ rfl rfl rfl
    (fun i u hu => by rw [Act.Meets, hu]; exact good_of_inside nofun) 15
    (fun i hi => ⟨_, rfl, if_pos (by unfold WORDS; omega)⟩)
  have h₁₀ := run_advance hcopy false ⟨rfl, trivial⟩ (good_of_inside nofun)
  have hzero := run_loop false (fun i => .zero (some (fill (fun _ => 0) (Function.update (fun _ => 0) 0 8#64) 16)) i)
    (fun i => ⟨fill (Function.update (fun _ => 0) 0 8#64) (fun _ => 0) i, 0, [.triggered 3]⟩) h₁₀ rfl rfl rfl
    (fun i u hu => by rw [Act.Meets, hu]; exact good_of_inside nofun) 15
    (fun i hi => ⟨_, rfl, if_pos (by unfold WORDS; omega)⟩)
  have h₁₁ := run_advance hzero false ⟨rfl, trivial⟩ (good_of_inside nofun)
  have h₁₂ := run_advance h₁₁ false ⟨rfl, rfl⟩ (good_of_inside nofun)
  exact ⟨_, _, rfl, rfl, rfl, by decide, by decide, faithful_of_run (fun _ => []) h₁₂⟩

/-! ## The mutex that is not given back -/

theorem guarded {p : Point} (hp : p ≠ .enter .unlock) : Guarded held p (instr strerror p) := by
  cases p with
  | enter c =>
    rw [instr_enter strerror (fun hc => hp (by rw [hc]))]
    split
    · exact fun ret hret => (outside_lockFailed strerror c ⟨fun _ => 0, 0, []⟩ hret).1
    · exact fun _ x => ⟨rfl, rfl⟩
  | outside => trivial
  | done r => trivial
  | leave r => rfl
  | failed ret => rfl
  | caught ret => rfl
  | timedwait abstime => rfl
  | _ => exact nofun

omit [DecidableEq κ] in
theorem meets_guarded {a : Act κ Point} (h : a.Meets Kept s) :
    a.Meets (fun p _ => Guarded held p (instr strerror p)) s := by
  cases a with
  | wake k ret => trivial
  | _ => exact guarded strerror h

/-- The call that keeps the mutex, and gets it. -/
theorem keeps_of_bad {p : Point} {ret : Nat} (hkept : Kept p ret) (hbad : ¬ Good p ret) :
    ret = 0 ∧ ∃ next r, instr strerror p = .lock next ∧ next 0 = .done r := by
  have hnot : ¬ (ret = 0 → p ≠ .enter .lock ∧ ∀ id, p = .enter (.clearEvent id) → InRange id) :=
    fun h => hbad ⟨hkept, h⟩
  rw [Classical.not_imp] at hnot
  obtain ⟨hret, hnot⟩ := hnot
  refine ⟨hret, ?_⟩
  by_cases hlock : p = .enter .lock
  · subst hlock
    exact ⟨_, _, rfl, rfl⟩
  · obtain ⟨id, hid⟩ := not_forall.1 (fun h => hnot ⟨hlock, h⟩)
    rw [Classical.not_imp] at hid
    obtain ⟨rfl, hout⟩ := hid
    exact ⟨_, _, rfl, (if_pos rfl).trans (if_neg hout)⟩

/-- **The call that does not give the mutex back** ends with the mutex its own. -/
theorem leaked_of_bad {a : Act κ Point} (h : outline.Sound (instr strerror) s) (hs : Steps strerror s a t)
    (hkept : a.Meets Kept s) (hbad : ¬ a.Meets Good s) : ∃ k, Leaked held t k := by
  cases a with
  | call k p =>
    obtain ⟨-, next, r, hi, -⟩ := keeps_of_bad strerror hkept hbad
    have hidle : At (instr strerror) s k .idle := by cases hs; assumption
    rw [hidle.2] at hi
    cases hi
  | wake k ret => exact absurd trivial hbad
  | step k ret =>
    obtain ⟨rfl, next, r, hi, hnext⟩ := keeps_of_bad strerror hkept hbad
    have hnone : ∀ {i}, At (instr strerror) s k i → (∀ next, i ≠ .lock next) → False := fun hat hne =>
      hne _ (hat.2.symm.trans hi)
    cases hs with
    | @lock _ next' hat hn =>
      have heq := hi.symm.trans hat.2
      cases heq
      refine ⟨k, rfl, hat.1, fun j hj => ?_⟩
      show held ((s.goto k (next 0)).point j) = false
      by_cases hjk : j = k
      · subst hjk
        rw [State.goto_self, hnext]
        rfl
      · rw [State.goto_of_ne _ _ hjk]
        by_contra hheld
        have hown := h.owns hj ((Bool.not_eq_false _).mp hheld)
        rw [hn] at hown
        cases hown
    | lockFails _ hret => exact absurd rfl hret
    | unlock hat _ => exact (hnone hat nofun).elim
    | unlockFree hat _ => exact (hnone hat nofun).elim
    | access hat => exact (hnone hat nofun).elim
    | wait hat _ _ => exact (hnone hat nofun).elim
    | waitFree hat _ => exact (hnone hat nofun).elim
    | resume hw _ _ =>
      rw [hi] at hw
      cases hw
    | signal hat _ => exact (hnone hat nofun).elim
    | signalNobody hat _ => exact (hnone hat nofun).elim
    | broadcast hat => exact (hnone hat nofun).elim

theorem good_or_leaked (h : Trans.Run (Steps strerror) (fun s a => a.Meets Kept s) init as t) :
    Trans.Run (Steps strerror) (fun s a => a.Meets Good s) init as t ∨ ∃ k, Leaked held t k := by
  induction h with
  | nil => exact .inl .nil
  | @snoc as a t u _ hkept hstep ih =>
    rcases ih with hgood | ⟨k, hk⟩
    · by_cases hg : a.Meets Good t
      · exact .inl (hgood.snoc hg hstep)
      · exact .inr (leaked_of_bad strerror (sound_of_run strerror hgood) hstep hkept hg)
    · exact .inr ⟨k, (hk.step hstep (meets_guarded strerror hkept)
        (fun p hp => (outside_of_begins p hp t.shared).1)).1⟩

/-- **The mutex is held in calls only exactly when no `lock()` got it, and no `clearEvents` of an id that the bitset
does not have**, while nobody calls `unlock()`; a thread that is out of its call with the mutex keeps it, and the flags
are never changed again. -/
theorem inside_iff_of_run (h : Trans.Run (Steps strerror) (fun s a => a.Meets Kept s) init as t) :
    (Trans.Run (Steps strerror) (fun s a => a.Meets Good s) init as t ↔
      ∀ k, t.owner = some k → held (t.point k) = true) ∧
    ∀ k, t.owner = some k → held (t.point k) = false → ∀ bs u,
      Trans.Run (Steps strerror) (fun s a => a.Meets Kept s) t bs u → u.owner = some k ∧ u.shared = t.shared := by
  have hentry : ∀ p, Begins p → held p = false := fun p hp => (outside_of_begins p hp t.shared).1
  refine ⟨⟨fun hgood => (faithful_of_run strerror hgood).inside, fun hin => ?_⟩, fun k hk hout bs u hu => ?_⟩
  · refine (good_or_leaked strerror h).resolve_right (fun ⟨k, hk⟩ => ?_)
    have hheld := hin k hk.owner
    rw [hk.outside k hk.running] at hheld
    cases hheld
  · rcases good_or_leaked strerror h with hgood | ⟨j, hj⟩
    · have hheld := (faithful_of_run strerror hgood).inside k hk
      rw [hout] at hheld
      cases hheld
    · have hjk : j = k := Option.some.inj (hj.owner.symm.trans hk)
      subst hjk
      obtain ⟨hl, hx⟩ := Leaked.of_run (hu.weaken fun s a hg => meets_guarded strerror hg) hj hentry
      exact ⟨hl.owner, hx⟩

/-- One thread clears event -1, while the other is about to trigger event 3. -/
theorem inside_iff_of_run_negative : ∃ t : State Bool Point EventNotificationData,
    t.point true = .done (.threw (resetOutOfRange (-1))) ∧ t.point false = .enter (.triggerEvent 3 0) ∧
    ∀ bs u, Trans.Run (Steps (fun _ => [])) (fun s a => a.Meets Kept s) t bs u →
      u.owner = some true ∧ u.shared = t.shared := by
  have h₁ : Trans.Run (Steps (fun _ => [])) (fun s a => a.Meets Kept s) (init : State Bool Point EventNotificationData)
    [.call false (.enter (.triggerEvent 3 0))] _ := .single nofun (.call ⟨rfl, rfl⟩ trivial)
  have h₂ := h₁.snoc (a := .call true (.enter (.clearEvent (-1)))) (show Kept .outside 0 from nofun)
    (.call ⟨rfl, rfl⟩ trivial)
  have h₃ := run_advance h₂ true ⟨rfl, rfl⟩ (show Kept (.enter (.clearEvent (-1))) 0 from nofun)
  exact ⟨_, rfl, rfl, (inside_iff_of_run (fun _ => []) h₃).2 true rfl rfl⟩

end EventNotification
end MiniRos2

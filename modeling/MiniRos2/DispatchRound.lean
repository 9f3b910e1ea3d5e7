import MiniRos2.SpinLoop
import Mathlib.Data.List.Range
/-!
# DispatchRound — one round of `spinLoop`, over all subscriptions

A round has its snapshot of the flags; what it then does to the pool, to the flags and to the registry is a list of
calls (`spinCalls`).  Other processes set and clear flags between any two of them.  Whatever they do, the round
enqueues one task for each subscription whose flag is in the snapshot, in the order of the subscriptions, and clears no
flag but those it made a task for and the reserved one (`exact_of_run`).
-/
namespace MiniRos2

/-- `SubscriberBase`, by the task its `createTaskFromSubEvent` returns or what it throws. -/
structure SubscriberBase (Task : Type) where
  createTaskFromSubEvent : Except Exn Task

/-- What a round calls outside the node. -/
inductive SpinCall (Task : Type) where
  | enqueue (task : Task)
  | clearTriggerEvent (event_id : Int32)
  | syncRegistryFromShm

variable {Task : Type}

/-- The body of the loop over the subscriptions: the task it enqueues and the id it records. -/
def checkSubscription (trigger_event : EventFlags) (thread_pool_ spinning_ : Bool) (sub : SubscriberBase Task)
    (event_id : Int32) : Option (Task × Int32) :=
  if 0 ≤ event_id.toInt ∧ event_id.toInt < EVENT_MAX_COUNT then
    let is_triggered := trigger_event event_id.toInt.toNat
    if is_triggered then
      if thread_pool_ && spinning_ then
        match sub.createTaskFromSubEvent with
        | .ok task_func => some (task_func, event_id)
        | .error _ => none
      else none
    else none
  else none

/-- The loop over `subscriptions_` and `subscription_event_ids_`; `spinning_ id` is the value it finds at `id`. -/
def checkSubscriptions (trigger_event : EventFlags) (thread_pool_ : Bool) :
    (Nat → Bool) → List (SubscriberBase Task) → List Int32 → List (Task × Int32)
  | spinning_, sub :: subscriptions_, event_id :: subscription_event_ids_ =>
    (checkSubscription trigger_event thread_pool_ (spinning_ 0) sub event_id).toList ++
      checkSubscriptions trigger_event thread_pool_ (fun id => spinning_ (id + 1)) subscriptions_
        subscription_event_ids_
  | _, _, _ => []

/-- `std::bitset::any`. -/
def EventFlags.any (trigger_event : EventFlags) : Bool := (List.range EVENT_MAX_COUNT).any trigger_event

/-- A round of `spinLoop` behind `waitForEvent`, up to the timers. -/
def spinCalls (trigger_event : EventFlags) (thread_pool_ : Bool) (spinning_ : Nat → Bool)
    (subscriptions_ : List (SubscriberBase Task)) (subscription_event_ids_ : List Int32) : List (SpinCall Task) :=
  let processed :=
    if trigger_event.any then
      checkSubscriptions trigger_event thread_pool_ spinning_ subscriptions_ subscription_event_ids_
    else []
  processed.map (fun p => .enqueue p.1) ++ processed.map (fun p => .clearTriggerEvent p.2) ++
    if trigger_event (EVENT_MAX_COUNT - 1) then
      [.syncRegistryFromShm, .clearTriggerEvent (EVENT_MAX_COUNT - 1 : Nat).toInt32]
    else []

/-- `ShmManager::clearTriggerEvent`, on the flags. -/
def EventFlags.clearTriggerEvent (event_id : Int32) (event_flag_ : EventFlags) : EventFlags :=
  if event_id.toInt < 0 ∨ (MAX_TOPICS_PER_NODE : Int) ≤ event_id.toInt then event_flag_
  else event_flag_.clearEvents event_id.toInt.toNat

/-- A round under way: the calls still to come, the tasks it has enqueued, the shared flags, and how often it has read
the registry. -/
structure DispatchRound (Task : Type) where
  calls : List (SpinCall Task)
  enqueued : List Task
  event_flag_ : EventFlags
  synced : Nat

def SpinCall.exec (r : DispatchRound Task) : SpinCall Task → DispatchRound Task
  | .enqueue task => { r with enqueued := r.enqueued ++ [task] }
  | .clearTriggerEvent event_id => { r with event_flag_ := r.event_flag_.clearTriggerEvent event_id }
  | .syncRegistryFromShm => { r with synced := r.synced + 1 }

inductive DispatchAct where
  | call
  | other (event_id : Nat) (b : Bool)
  deriving DecidableEq

/-- **The round's next call, or another process that sets or clears a flag.** -/
inductive DispatchAct.Step (r : DispatchRound Task) : DispatchAct → DispatchRound Task → Prop where
  | call {c : SpinCall Task} {calls : List (SpinCall Task)} : r.calls = c :: calls →
      Step r .call (c.exec { r with calls := calls })
  | other {i : Nat} {b : Bool} : Step r (.other i b) { r with event_flag_ := Function.update r.event_flag_ i b }

def DispatchRound.start (calls : List (SpinCall Task)) (event_flag_ : EventFlags) : DispatchRound Task :=
  ⟨calls, [], event_flag_, 0⟩

/-- What the other processes did to the flags. -/
def othersOnly (event_flag_ : EventFlags) : List DispatchAct → EventFlags
  | [] => event_flag_
  | .call :: as => othersOnly event_flag_ as
  | .other i b :: as => othersOnly (Function.update event_flag_ i b) as

/-! ## What the calls of a list do -/

def SpinCall.task? : SpinCall Task → Option Task
  | .enqueue task => some task
  | _ => none

def flagOf? (event_id : Int32) : Option Nat :=
  if event_id.toInt < 0 ∨ (MAX_TOPICS_PER_NODE : Int) ≤ event_id.toInt then none else some event_id.toInt.toNat

/-- The flag a call clears. -/
def SpinCall.cleared? : SpinCall Task → Option Nat
  | .clearTriggerEvent event_id => flagOf? event_id
  | _ => none

def SpinCall.syncs : SpinCall Task → Nat
  | .syncRegistryFromShm => 1
  | _ => 0

theorem SpinCall.exec_calls (r : DispatchRound Task) (c : SpinCall Task) : (c.exec r).calls = r.calls := by
  cases c <;> rfl

theorem SpinCall.exec_enqueued (r : DispatchRound Task) (c : SpinCall Task) :
    (c.exec r).enqueued = r.enqueued ++ c.task?.toList := by
  cases c <;> simp [exec, task?]

theorem SpinCall.exec_synced (r : DispatchRound Task) (c : SpinCall Task) : (c.exec r).synced = r.synced + c.syncs := by
  cases c <;> rfl

theorem SpinCall.exec_flag (r : DispatchRound Task) (c : SpinCall Task) (j : Nat) :
    (c.exec r).event_flag_ j = if c.cleared? = some j then false else r.event_flag_ j := by
  cases c with
  | clearTriggerEvent event_id =>
    show r.event_flag_.clearTriggerEvent event_id j = if flagOf? event_id = some j then false else r.event_flag_ j
    unfold EventFlags.clearTriggerEvent flagOf?
    by_cases hout : event_id.toInt < 0 ∨ (MAX_TOPICS_PER_NODE : Int) ≤ event_id.toInt
    · simp [hout]
    · have hin : ¬ MAX_TOPICS_PER_NODE ≤ event_id.toInt.toNat := by omega
      rw [if_neg hout, if_neg hout, EventFlags.clearEvents, if_neg hin]
      by_cases hj : event_id.toInt.toNat = j
      · subst hj; simp
      · rw [Function.update_of_ne (Ne.symm hj), if_neg (by simpa using hj)]
  | _ => simp [exec, cleared?]

theorem othersOnly_append (f : EventFlags) (as bs : List DispatchAct) :
    othersOnly f (as ++ bs) = othersOnly (othersOnly f as) bs := by
  induction as generalizing f with
  | nil => rfl
  | cons a as ih => cases a <;> exact ih _

/-- **A run of a round, after the calls `done`**: each flag that none of them cleared is as the others left it. -/
structure DispatchRound.After (r₀ r : DispatchRound Task) (as : List DispatchAct) (done : List (SpinCall Task)) :
    Prop where
  calls : r₀.calls = done ++ r.calls
  enqueued : r.enqueued = r₀.enqueued ++ done.filterMap SpinCall.task?
  synced : r.synced = r₀.synced + (done.map SpinCall.syncs).sum
  kept : ∀ j, j ∉ done.filterMap SpinCall.cleared? → r.event_flag_ j = othersOnly r₀.event_flag_ as j
  cleared : ∀ j, j ∈ done.filterMap SpinCall.cleared? → DispatchAct.other j true ∉ as → r.event_flag_ j = false

theorem DispatchRound.After.call {r₀ r : DispatchRound Task} {as : List DispatchAct} {done calls : List (SpinCall Task)}
    {c : SpinCall Task} (h : r₀.After r as done) (hc : r.calls = c :: calls) :
    r₀.After (c.exec { r with calls := calls }) (as ++ [.call]) (done ++ [c]) where
  calls := by rw [c.exec_calls, h.calls, hc]; simp
  enqueued := by rw [c.exec_enqueued, h.enqueued]; cases hc : c.task? <;> simp [hc]
  synced := by rw [c.exec_synced, h.synced]; simp; omega
  kept j hj := by
    rw [List.filterMap_append, List.mem_append, not_or] at hj
    have hne : c.cleared? ≠ some j := by simpa using hj.2
    rw [c.exec_flag, if_neg hne, othersOnly_append]
    exact h.kept j hj.1
  cleared j hj hno := by
    rw [c.exec_flag]
    by_cases hcj : c.cleared? = some j
    · simp [hcj]
    · rw [if_neg hcj]
      refine h.cleared j (by simpa [hcj] using hj) (fun hmem => hno ?_)
      simp [hmem]

theorem DispatchRound.After.other {r₀ r : DispatchRound Task} {as : List DispatchAct} {done : List (SpinCall Task)}
    {i : Nat} {b : Bool} (h : r₀.After r as done) :
    r₀.After { r with event_flag_ := Function.update r.event_flag_ i b } (as ++ [.other i b]) done where
  calls := h.calls
  enqueued := h.enqueued
  synced := h.synced
  kept j hj := by
    rw [othersOnly_append]
    show Function.update r.event_flag_ i b j = Function.update (othersOnly r₀.event_flag_ as) i b j
    by_cases hij : j = i
    · subst hij; simp
    · simp [hij, h.kept j hj]
  cleared j hj hno := by
    simp only [List.mem_append, List.mem_singleton, not_or, DispatchAct.other.injEq, not_and] at hno
    show Function.update r.event_flag_ i b j = false
    by_cases hij : j = i
    · subst hij
      have hb : b = false := by simpa using fun ht => hno.2 rfl (Eq.symm ht)
      simp [hb]
    · rw [Function.update_of_ne hij]
      exact h.cleared j hj hno.1

theorem DispatchRound.after_of_run {r₀ r : DispatchRound Task} {as : List DispatchAct}
    (h : Trans.Run DispatchAct.Step Trans.free r₀ as r) : ∃ done, r₀.After r as done := by
  induction h with
  | nil => exact ⟨[], by simp, by simp, by simp, fun _ _ => rfl, by simp⟩
  | snoc _ _ hs ih =>
    obtain ⟨done, hafter⟩ := ih
    cases hs with
    | call hc => exact ⟨_, hafter.call hc⟩
    | other => exact ⟨done, hafter.other⟩

/-! ## The calls of a round -/

/-- **The event id is valid, and its flag is in the snapshot.** -/
def isTriggered (trigger_event : EventFlags) (event_id : Int32) : Bool :=
  decide (0 ≤ event_id.toInt ∧ event_id.toInt < EVENT_MAX_COUNT) && trigger_event event_id.toInt.toNat

/-- The indices of the subscriptions that are to get a task, in ascending order. -/
def triggeredIds (trigger_event : EventFlags) (ids : List Int32) : List Nat :=
  (List.range ids.length).filter (fun id => (ids[id]?).any (isTriggered trigger_event))

theorem checkSubscription_ok {F : EventFlags} {sub : SubscriberBase Task} {task : Task} (event_id : Int32)
    (h : sub.createTaskFromSubEvent = .ok task) :
    checkSubscription F true true sub event_id = if isTriggered F event_id then some (task, event_id) else none := by
  unfold checkSubscription isTriggered
  by_cases hin : 0 ≤ event_id.toInt ∧ event_id.toInt < EVENT_MAX_COUNT
  · simp [hin, h]
  · simp [hin]

theorem triggeredIds_cons (F : EventFlags) (e : Int32) (ids : List Int32) :
    triggeredIds F (e :: ids) = (if isTriggered F e then [0] else []) ++ (triggeredIds F ids).map Nat.succ := by
  unfold triggeredIds
  rw [List.length_cons, List.range_succ_eq_map, List.filter_cons, List.filter_map]
  by_cases h : isTriggered F e <;> simp [h, Function.comp_def]

/-- **The loop makes one task for each triggered subscription, in order**, and records its id. -/
theorem checkSubscriptions_eq (F : EventFlags) {spinning_ : Nat → Bool} {subs : List (SubscriberBase Task)}
    {ids : List Int32} {task : Nat → Task} (hlen : subs.length = ids.length) (hspin : ∀ id, spinning_ id = true)
    (hok : ∀ id (h : id < subs.length), subs[id].createTaskFromSubEvent = .ok (task id)) :
    checkSubscriptions F true spinning_ subs ids = (triggeredIds F ids).map (fun id => (task id, ids.getD id 0)) := by
  induction subs generalizing ids spinning_ task with
  | nil =>
    cases ids with
    | nil => rfl
    | cons e ids => cases hlen
  | cons sub subs ih =>
    cases ids with
    | nil => cases hlen
    | cons e ids =>
      have hhead : sub.createTaskFromSubEvent = .ok (task 0) := hok 0 (Nat.succ_pos _)
      have htail : checkSubscriptions F true (fun id => spinning_ (id + 1)) subs ids =
          (triggeredIds F ids).map (fun id => (task (id + 1), ids.getD id 0)) :=
        ih (Nat.succ.inj hlen) (fun id => hspin (id + 1)) (fun id h => hok (id + 1) (Nat.succ_lt_succ h))
      rw [checkSubscriptions, htail, hspin 0, checkSubscription_ok e hhead, triggeredIds_cons]
      by_cases h : isTriggered F e <;> simp [h, Function.comp_def]

theorem mem_triggeredIds {F : EventFlags} {ids : List Int32} {id : Nat} :
    id ∈ triggeredIds F ids ↔ ∃ e, ids[id]? = some e ∧ isTriggered F e = true := by
  unfold triggeredIds
  rw [List.mem_filter, List.mem_range, Option.any_eq_true]
  constructor
  · rintro ⟨-, h⟩
    exact h
  · rintro ⟨e, he, ht⟩
    exact ⟨(List.getElem?_eq_some_iff.1 he).1, e, he, ht⟩

theorem triggeredIds_of_not_any {F : EventFlags} (ids : List Int32) (h : F.any = false) : triggeredIds F ids = [] := by
  refine List.eq_nil_iff_forall_not_mem.2 (fun id hid => ?_)
  obtain ⟨e, -, ht⟩ := mem_triggeredIds.1 hid
  unfold isTriggered at ht
  unfold EventFlags.any at h
  simp only [Bool.and_eq_true, decide_eq_true_eq] at ht
  simp only [List.any_eq_false, List.mem_range] at h
  exact h _ (by omega) ht.2

theorem flagOf?_eq_some {e : Int32} {j : Nat} : flagOf? e = some j ↔ e.toInt = j ∧ j < EVENT_MAX_COUNT := by
  unfold flagOf? EVENT_MAX_COUNT
  by_cases hout : e.toInt < 0 ∨ (MAX_TOPICS_PER_NODE : Int) ≤ e.toInt
  · simp only [hout, if_true, reduceCtorEq, false_iff, not_and]
    omega
  · rw [if_neg hout, Option.some_inj]
    omega

/-- **The flags the round may clear**: the ids it made a task for, and the reserved one if it was in the snapshot. -/
def Processed (trigger_event : EventFlags) (ids : List Int32) (j : Nat) : Prop :=
  (∃ id ∈ triggeredIds trigger_event ids, (ids.getD id 0).toInt = j) ∨
    j = EVENT_MAX_COUNT - 1 ∧ trigger_event (EVENT_MAX_COUNT - 1) = true

section Calls

variable {F : EventFlags} {spinning_ : Nat → Bool} {subs : List (SubscriberBase Task)} {ids : List Int32}
  {task : Nat → Task}

theorem spinCalls_eq (hlen : subs.length = ids.length) (hspin : ∀ id, spinning_ id = true)
    (hok : ∀ id (h : id < subs.length), subs[id].createTaskFromSubEvent = .ok (task id)) :
    spinCalls F true spinning_ subs ids = (triggeredIds F ids).map (fun id => .enqueue (task id)) ++
      (triggeredIds F ids).map (fun id => .clearTriggerEvent (ids.getD id 0)) ++
      if F (EVENT_MAX_COUNT - 1) then
        [.syncRegistryFromShm, .clearTriggerEvent (EVENT_MAX_COUNT - 1 : Nat).toInt32]
      else [] := by
  have hprocessed : (if F.any then checkSubscriptions F true spinning_ subs ids else []) =
      (triggeredIds F ids).map (fun id => (task id, ids.getD id 0)) := by
    by_cases hany : F.any
    · rw [if_pos hany, checkSubscriptions_eq F hlen hspin hok]
    · simp [hany, triggeredIds_of_not_any ids (by simpa using hany)]
  unfold spinCalls
  simp only [hprocessed, List.map_map, Function.comp_def]

theorem spinCalls_tasks (hlen : subs.length = ids.length) (hspin : ∀ id, spinning_ id = true)
    (hok : ∀ id (h : id < subs.length), subs[id].createTaskFromSubEvent = .ok (task id)) :
    (spinCalls F true spinning_ subs ids).filterMap SpinCall.task? = (triggeredIds F ids).map task := by
  rw [spinCalls_eq hlen hspin hok]
  by_cases hres : F (EVENT_MAX_COUNT - 1) <;>
    simp [hres, List.filterMap_map, Function.comp_def, SpinCall.task?]

theorem spinCalls_syncs (hlen : subs.length = ids.length) (hspin : ∀ id, spinning_ id = true)
    (hok : ∀ id (h : id < subs.length), subs[id].createTaskFromSubEvent = .ok (task id)) :
    ((spinCalls F true spinning_ subs ids).map SpinCall.syncs).sum = if F (EVENT_MAX_COUNT - 1) then 1 else 0 := by
  rw [spinCalls_eq hlen hspin hok]
  by_cases hres : F (EVENT_MAX_COUNT - 1) <;> simp [hres, Function.comp_def, SpinCall.syncs]

theorem mem_spinCalls_cleared (hlen : subs.length = ids.length) (hspin : ∀ id, spinning_ id = true)
    (hok : ∀ id (h : id < subs.length), subs[id].createTaskFromSubEvent = .ok (task id)) {j : Nat} :
    j ∈ (spinCalls F true spinning_ subs ids).filterMap SpinCall.cleared? ↔ Processed F ids j := by
  let clears : List (SpinCall Task) := (triggeredIds F ids).map (fun id => .clearTriggerEvent (ids.getD id 0))
  have hids : j ∈ clears.filterMap SpinCall.cleared? ↔ ∃ id ∈ triggeredIds F ids, (ids.getD id 0).toInt = j := by
    simp only [clears, List.mem_filterMap, List.mem_map, exists_exists_and_eq_and, SpinCall.cleared?, flagOf?_eq_some]
    refine exists_congr (fun id => and_congr_right (fun hid => and_iff_left_of_imp (fun hj => ?_)))
    obtain ⟨e, he, ht⟩ := mem_triggeredIds.1 hid
    have hd : ids.getD id 0 = e := by simp [he]
    simp only [isTriggered, Bool.and_eq_true, decide_eq_true_eq] at ht
    rw [hd] at hj
    omega
  have hreserved : (flagOf? (EVENT_MAX_COUNT - 1 : Nat).toInt32 = some j) ↔ j = EVENT_MAX_COUNT - 1 := by
    have hint : (EVENT_MAX_COUNT - 1 : Nat).toInt32.toInt = (EVENT_MAX_COUNT - 1 : Nat) := by decide
    rw [flagOf?_eq_some, hint]
    simp only [EVENT_MAX_COUNT, MAX_TOPICS_PER_NODE]
    omega
  rw [spinCalls_eq hlen hspin hok, List.filterMap_append, List.filterMap_append, List.mem_append, List.mem_append, hids]
  unfold Processed
  by_cases hres : F (EVENT_MAX_COUNT - 1)
  · simp [hres, List.filterMap_map, Function.comp_def, SpinCall.cleared?, hreserved]
  · simp [hres, List.filterMap_map, Function.comp_def, SpinCall.cleared?]

/-- **A round was exact**, with `live` the flags when it began and `as` what happened during it. -/
structure DispatchRound.Exact (r : DispatchRound Task) (F live : EventFlags) (ids : List Int32) (task : Nat → Task)
    (as : List DispatchAct) : Prop where
  enqueued : r.enqueued = (triggeredIds F ids).map task
  synced : r.synced = if F (EVENT_MAX_COUNT - 1) then 1 else 0
  cleared : ∀ j, Processed F ids j → DispatchAct.other j true ∉ as → r.event_flag_ j = false
  kept : ∀ j, ¬ Processed F ids j → r.event_flag_ j = othersOnly live as j

/-- **A dispatch round is exact**, whatever the flags are by then and whatever other processes do to them during it. -/
theorem exact_of_run {live : EventFlags} {as : List DispatchAct} {r : DispatchRound Task}
    (hlen : subs.length = ids.length) (hspin : ∀ id, spinning_ id = true)
    (hok : ∀ id (h : id < subs.length), subs[id].createTaskFromSubEvent = .ok (task id))
    (hrun : Trans.Run DispatchAct.Step Trans.free (DispatchRound.start (spinCalls F true spinning_ subs ids) live) as r)
    (hdone : r.calls = []) : r.Exact F live ids task as := by
  obtain ⟨done, h⟩ := DispatchRound.after_of_run hrun
  have hcalls : done = spinCalls F true spinning_ subs ids := by
    have := h.calls
    rw [hdone, List.append_nil] at this
    exact this.symm
  rw [hcalls] at h
  constructor
  · rw [h.enqueued, spinCalls_tasks hlen hspin hok]
    exact List.nil_append _
  · rw [h.synced, spinCalls_syncs hlen hspin hok]
    exact Nat.zero_add _
  · exact fun j hj => h.cleared j ((mem_spinCalls_cleared hlen hspin hok).2 hj)
  · exact fun j hj => h.kept j (fun hmem => hj ((mem_spinCalls_cleared hlen hspin hok).1 hmem))

end Calls

/-- **A round comes to its end**, whatever the calls. -/
theorem exists_run_done (r : DispatchRound Task) :
    ∃ s, Trans.Run DispatchAct.Step Trans.free r (List.replicate r.calls.length .call) s ∧ s.calls = [] := by
  induction hc : r.calls generalizing r with
  | nil => exact ⟨r, .nil, hc⟩
  | cons c calls ih =>
    obtain ⟨s, hrun, hdone⟩ := ih (c.exec { r with calls := calls }) (c.exec_calls _)
    refine ⟨s, ?_, hdone⟩
    have hfirst : Trans.Run DispatchAct.Step Trans.free r [.call] _ := .single trivial (.call hc)
    exact hfirst.trans hrun

theorem exists_run_other (r : DispatchRound Task) (i : Nat) (b : Bool) :
    ∃ as s, Trans.Run DispatchAct.Step Trans.free r ([.other i b] ++ as) s ∧ s.calls = [] := by
  obtain ⟨s, hrun, hdone⟩ := exists_run_done { r with event_flag_ := Function.update r.event_flag_ i b }
  have hfirst : Trans.Run DispatchAct.Step Trans.free r [.other i b] _ := .single trivial .other
  exact ⟨_, s, hfirst.trans hrun, hdone⟩

/-- Two subscriptions of event 5, one that failed to register, and one of the reserved event; another process sets
flag 7 during the round. -/
theorem exact_of_round : ∃ (r : DispatchRound Nat) (as : List DispatchAct),
    .other 7 true ∈ as ∧ r.Exact (fun j => j == 5 || j == 1023) (fun _ => true) [5, -1, 5, 1023] id as := by
  obtain ⟨as, r, hrun, hdone⟩ := exists_run_other (DispatchRound.start (spinCalls (fun j => j == 5 || j == 1023) true
    (fun _ => true) [⟨.ok 0⟩, ⟨.ok 1⟩, ⟨.ok 2⟩, ⟨.ok 3⟩] [5, -1, 5, 1023]) (fun _ => true)) 7 true
  refine ⟨r, _, List.mem_append_left as (List.mem_singleton_self _), exact_of_run rfl (fun _ => rfl) ?_ hrun hdone⟩
  intro id hid
  have hlt : id < 4 := hid
  interval_cases id <;> rfl

end MiniRos2

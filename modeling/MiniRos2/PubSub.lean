import MiniRos2.ShmBase
import MiniRos2.RegistryCalls
import MiniRos2.JsonRoundTrip
/-!
# PubSub — a publisher, and the message that its subscriber's task carries

The first message a publisher sends sizes the region; every later one is written over the region's start, and its
length is kept nowhere.  A subscriber that opened the region by name reads the whole data area, parses it, and keeps
the message it had if that throws.  So what a task carries depends on what the earlier messages left behind the last
one (`carries_iff_delivers`).
-/
namespace MiniRos2

open ByteMem (overlay writeAll)

namespace Serializer

variable {D : Type} [DoubleText D]

def getSerializedSize (data : JsonValue D) : Nat := data.serialize.length

/-- `memcpy` takes `buffer_size` bytes from `c_str()`: the text and, if they reach that far, its terminator. -/
def serialize (data : JsonValue D) (buffer_size : Nat) : Except Abort (List UInt8) :=
  if buffer_size < data.serialize.length then
    .error (.throws (.runtimeError (utf8 "Buffer size is too small or buffer is null")))
  else if data.serialize.length + 1 < buffer_size then .error .undefined
  else .ok ((data.serialize ++ [0]).take buffer_size)

/-- `data` is the value that is overwritten: the buffer must be as long as its text. -/
def deserialize (buffer : List UInt8) (data : JsonValue D) : Except Abort (JsonValue D) :=
  if buffer.length < data.serialize.length then
    .error (.throws (.runtimeError (utf8 "Buffer size is too small or buffer is null")))
  else MiniRos2.deserialize buffer

/-- **What a buffer gives**: the value it is a text of, if the old value's text fits in it, and an exception
otherwise. -/
theorem deserialize_buffer (buffer : List UInt8) (data : JsonValue D) :
    (∀ v, deserialize buffer data = .ok v ↔ data.serialize.length ≤ buffer.length ∧ Text buffer v) ∧
      ((∃ e, deserialize buffer data = .error (.throws e)) ↔
        buffer.length < data.serialize.length ∨ ∀ v : JsonValue D, ¬ Text buffer v) := by
  obtain ⟨hok, hthrows⟩ := MiniRos2.deserialize_decides (D := D) buffer
  unfold deserialize
  split
  · rename_i hlt
    refine ⟨fun v => ⟨fun h => (by cases h), fun h => absurd h.1 (by omega)⟩, fun _ => .inl hlt, fun _ => ⟨_, rfl⟩⟩
  · rename_i hle
    refine ⟨fun v => ?_, ?_⟩
    · rw [hok v]
      exact ⟨fun h => ⟨by omega, h⟩, fun h => h.2⟩
    · constructor
      · rintro ⟨e, he⟩
        refine .inr (fun v hv => ?_)
        rw [(hok v).2 hv] at he
        cases he
      · rintro (h | h)
        · exact absurd h hle
        · rcases hthrows with ⟨v, hv⟩ | he
          · exact absurd hv (h v)
          · exact he

theorem serialize_getSerializedSize (data : JsonValue D) :
    serialize data (getSerializedSize data) = .ok data.serialize := by
  unfold serialize getSerializedSize
  rw [if_neg (Nat.lt_irrefl _), if_neg (by omega), List.take_left' rfl]

end Serializer

/-! ## The publisher -/

structure Publisher where
  topic_ : List UInt8
  shm_ : Option ShmBase
  topic_name_for_event_ : List UInt8

/-- **What a publish works on**; `shm_manager_` is a pointer that the node sets. -/
structure PubState (D : Type) where
  publisher : Publisher
  shm_manager_ : Option (Registry D)
  space : ShmSpace

abbrev Pub (D α : Type) := EStateM Abort (PubState D) α

namespace Pub

variable {D α : Type}

def lift (x : Except Abort α) : Pub D α := fun s =>
  match x with
  | .ok a => .ok a s
  | .error e => .error e s

def setShm (b : ShmBase) : Pub D Unit := modify (fun s => { s with publisher := { s.publisher with shm_ := some b } })

def setSpace (sp : ShmSpace) : Pub D Unit := modify (fun s => { s with space := sp })

/-- `shm_manager_->x`. -/
def manager (x : Op D α) : Pub D α := fun s =>
  match s.shm_manager_ with
  | none => .error .undefined s
  | some r =>
    match x r with
    | .ok a r' => .ok a { s with shm_manager_ := some r' }
    | .error e r' => .error e { s with shm_manager_ := some r' }

end Pub

namespace Publisher

variable {D : Type} [DoubleText D]

omit [DoubleText D] in
/-- `if (shm_ == nullptr)`; the pointer is set before `Create` can throw. -/
def ensureShm (topic_str : List UInt8) (msg_serialize_size : Nat) : Pub D Unit := do
  let s ← get
  match s.publisher.shm_ with
  | some _ => pure ()
  | none =>
    let made ← Pub.lift (ShmBase.ofSize topic_str msg_serialize_size)
    Pub.setShm made
    let (created, sp) ← Pub.lift (made.create s.space)
    Pub.setShm created
    Pub.setSpace sp
    let opened ← Pub.lift (created.open_ sp)
    Pub.setShm opened

omit [DoubleText D] in
/-- `shm_->Write(buffer, msg_serialize_size)`. -/
def writeShm (buffer : List UInt8) : Pub D Unit := do
  let s ← get
  match s.publisher.shm_ with
  | none => Pub.lift (.error .undefined)
  | some shm_ =>
    let sp ← Pub.lift (shm_.write buffer 0 s.space)
    Pub.setSpace sp

omit [DoubleText D] in
/-- The event bit, and with it the subscribers that wait. -/
def notify (event : List UInt8) : Pub D Unit := do
  let s ← get
  if s.shm_manager_.isNone ∨ s.publisher.topic_name_for_event_ = [] then pure ()
  else Pub.manager (triggerEvent s.publisher.topic_name_for_event_ event)

def ensureTopic (event : List UInt8) : Pub D Unit := do
  let s ← get
  let known ← Pub.manager (isTopicExist s.publisher.topic_ event)
  if known then pure () else Pub.manager (addPubTopic s.publisher.topic_ event)

def publish (event : List UInt8) (data : JsonValue D) : Pub D Int32 := do
  let s ← get
  let msg_serialize_size := Serializer.getSerializedSize data
  let buffer ← Pub.lift (Serializer.serialize data msg_serialize_size)
  ensureShm (fullName s.publisher.topic_ event) msg_serialize_size
  ensureTopic event
  writeShm buffer
  notify event
  return 0

/-- Messages published one after the other. -/
def publishAll (event : List UInt8) : List (Message D) → Pub D Unit
  | [] => pure ()
  | m :: ms => do
    let _ ← publish event m.val
    publishAll event ms

end Publisher

/-! ## The subscriber -/

structure Subscriber (D : Type) where
  topic_ : List UInt8
  shm_ : Option ShmBase
  msg_ : JsonValue D

namespace Subscriber

variable {D : Type} [DoubleText D]

omit [DoubleText D] in
def subscribe (sub : Subscriber D) (event : List UInt8) (sp : ShmSpace) : Except Abort (Subscriber D) := do
  let shm_ ← match sub.shm_ with
    | some shm_ => pure shm_
    | none => ShmBase.ofName sp (fullName sub.topic_ event)
  let opened ← shm_.open_ sp
  return { sub with shm_ := some opened }

/-- The `try` block of `getMessage`. -/
def readMessage (sub : Subscriber D) (sp : ShmSpace) : Except Abort (JsonValue D) :=
  match sub.shm_ with
  | none => .error .undefined
  | some shm_ => do
    let data ← shm_.readUnlocked shm_.getDataSize 0 sp
    Serializer.deserialize data sub.msg_

def getMessage (sub : Subscriber D) (sp : ShmSpace) : Except Abort (Subscriber D) :=
  match sub.readMessage sp with
  | .ok msg => .ok { sub with msg_ := msg }
  | .error (.throws _) => .ok sub
  | .error e => .error e

/-- The task is known by the message that it hands to the callback. -/
def createTaskFromSubEvent (sub : Subscriber D) (sp : ShmSpace) : Except Abort (JsonValue D × Subscriber D) := do
  let sub' ← sub.getMessage sp
  return (sub'.msg_, sub')

end Subscriber

/-! ## What a publish does -/

section Publishing

variable {D : Type}

/-- **What a sequence that returned did**: its first part returned, and the rest did from there. -/
theorem Pub.bind_eq_ok {α β : Type} {x : Pub D α} {f : α → Pub D β} {s t : PubState D} {b : β}
    (h : (x >>= f) s = .ok b t) : ∃ a u, x s = .ok a u ∧ f a u = .ok b t := by
  change EStateM.bind x f s = .ok b t at h
  unfold EStateM.bind at h
  cases hx : x s with
  | ok a u =>
    rw [hx] at h
    exact ⟨a, u, rfl, h⟩
  | error e u =>
    rw [hx] at h
    cases h

theorem Pub.lift_bind_eq_ok {α β : Type} {x : Except Abort α} {f : α → Pub D β} {s t : PubState D} {b : β}
    (h : (Pub.lift x >>= f) s = .ok b t) : ∃ a, x = .ok a ∧ f a s = .ok b t := by
  obtain ⟨a, u, hx, hf⟩ := Pub.bind_eq_ok h
  unfold Pub.lift at hx
  split at hx
  · cases hx
    exact ⟨a, rfl, hf⟩
  · cases hx

theorem Pub.bind_of_ok {α β : Type} {x : Pub D α} {f : α → Pub D β} {s t : PubState D} {a : α} (h : x s = .ok a t) :
    (x >>= f) s = f a t := by
  change EStateM.bind x f s = f a t
  unfold EStateM.bind
  rw [h]

theorem Pub.bind_of_error {α β : Type} {x : Pub D α} {f : α → Pub D β} {s t : PubState D} {e : Abort}
    (h : x s = .error e t) : (x >>= f) s = .error e t := by
  change EStateM.bind x f s = .error e t
  unfold EStateM.bind
  rw [h]

theorem Pub.lift_bind {α β : Type} {x : Except Abort α} {f : α → Pub D β} {s : PubState D} {a : α} (h : x = .ok a) :
    (Pub.lift x >>= f) s = f a s := by
  subst h
  rfl

theorem Pub.get_bind {β : Type} (f : PubState D → Pub D β) (s : PubState D) : (get >>= f) s = f s s := rfl

theorem Pub.setShm_bind {β : Type} (b : ShmBase) (f : Unit → Pub D β) (s : PubState D) :
    (Pub.setShm b >>= f) s = f () { s with publisher := { s.publisher with shm_ := some b } } := rfl

theorem Pub.setSpace_bind {β : Type} (sp : ShmSpace) (f : Unit → Pub D β) (s : PubState D) :
    (Pub.setSpace sp >>= f) s = f () { s with space := sp } := rfl

/-- The manager does not reach the publisher's own region. -/
theorem Pub.manager_eq_ok {α : Type} {x : Op D α} {s t : PubState D} {a : α} (h : Pub.manager x s = .ok a t) :
    t.publisher = s.publisher ∧ t.space = s.space := by
  unfold Pub.manager at h
  split at h
  · cases h
  split at h <;> cases h
  exact ⟨rfl, rfl⟩

theorem Pub.manager_of_ok {α : Type} {x : Op D α} {s : PubState D} {r r' : Registry D} {a : α}
    (hm : s.shm_manager_ = some r) (hx : x r = .ok a r') :
    Pub.manager x s = .ok a { s with shm_manager_ := some r' } := by
  unfold Pub.manager
  rw [hm]
  simp only [hx]

theorem Pub.manager_of_error {α : Type} {x : Op D α} {s : PubState D} {r r' : Registry D} {e : Abort}
    (hm : s.shm_manager_ = some r) (hx : x r = .error e r') :
    Pub.manager x s = .error e { s with shm_manager_ := some r' } := by
  unfold Pub.manager
  rw [hm]
  simp only [hx]

theorem notify_frame {event : List UInt8} {s t : PubState D} (h : Publisher.notify event s = .ok () t) :
    t.publisher = s.publisher ∧ t.space = s.space := by
  unfold Publisher.notify at h
  rw [Pub.get_bind] at h
  split at h
  · cases h
    exact ⟨rfl, rfl⟩
  · exact Pub.manager_eq_ok h

theorem ensureTopic_frame [DoubleText D] {event : List UInt8} {s t : PubState D}
    (h : Publisher.ensureTopic event s = .ok () t) : t.publisher = s.publisher ∧ t.space = s.space := by
  unfold Publisher.ensureTopic at h
  rw [Pub.get_bind] at h
  obtain ⟨known, u, hknown, h⟩ := Pub.bind_eq_ok h
  obtain ⟨hp, hs⟩ := Pub.manager_eq_ok hknown
  split at h
  · cases h
    exact ⟨hp, hs⟩
  · obtain ⟨hp', hs'⟩ := Pub.manager_eq_ok h
    exact ⟨hp'.trans hp, hs'.trans hs⟩

/-- **The publisher owns the region of that name**, and the texts were written to it one over another. -/
structure PubState.Holds (s : PubState D) (name : List UInt8) (id n : Nat) (ts : List (List UInt8)) : Prop where
  shm : s.publisher.shm_ = some ⟨⟨name, sizeofShmHead + n, some id, true⟩, true⟩
  named : s.space.lookup name = some id
  region : s.space.obj id = ⟨sizeofShmHead + n, writeAll ByteMem.zero 0 ts⟩

theorem PubState.Holds.congr {s t : PubState D} {name : List UInt8} {id n : Nat} {ts : List (List UInt8)}
    (h : s.Holds name id n ts) (hp : t.publisher = s.publisher) (hs : t.space = s.space) : t.Holds name id n ts := by
  refine ⟨?_, ?_, ?_⟩
  · rw [hp]
    exact h.shm
  · rw [hs]
    exact h.named
  · rw [hs]
    exact h.region

theorem ensureShm_of_some {s : PubState D} {name : List UInt8} {size : Nat} {b : ShmBase}
    (h : s.publisher.shm_ = some b) : Publisher.ensureShm name size s = .ok () s := by
  unfold Publisher.ensureShm
  rw [Pub.get_bind, h]
  rfl

theorem ensureShm_of_holds {s t : PubState D} {name name' : List UInt8} {id n size : Nat} {ts : List (List UInt8)}
    (h : s.Holds name id n ts) (he : Publisher.ensureShm name' size s = .ok () t) : t = s := by
  rw [ensureShm_of_some h.shm] at he
  cases he
  rfl

theorem ensureShm_of_none {s t : PubState D} {name : List UInt8} {size : Nat} (hn : s.publisher.shm_ = none)
    (he : Publisher.ensureShm name size s = .ok () t) :
    s.space.lookup name = none ∧ t.Holds name s.space.next size [] := by
  unfold Publisher.ensureShm at he
  rw [Pub.get_bind, hn] at he
  obtain ⟨made, hmade, he⟩ := Pub.lift_bind_eq_ok he
  rw [Pub.setShm_bind] at he
  obtain ⟨⟨created, sp⟩, hcreate, he⟩ := Pub.lift_bind_eq_ok he
  dsimp only at he
  rw [Pub.setShm_bind, Pub.setSpace_bind] at he
  obtain ⟨opened, hopen, he⟩ := Pub.lift_bind_eq_ok he
  cases he
  cases ShmBase.ofSize_eq_ok hmade
  obtain ⟨hsp, rfl⟩ := ShmBase.create_eq_ok rfl hcreate
  rw [ShmBase.open_of_owner sp rfl] at hopen
  cases hopen
  obtain ⟨hfree, -, -, hname, hobj, -, -⟩ := Posix.Space.create_eq_some hsp
  exact ⟨hfree, rfl, hname, hobj⟩

theorem writeShm_of_holds {s t : PubState D} {name buffer : List UInt8} {id n : Nat} {ts : List (List UInt8)}
    (h : s.Holds name id n ts) (hw : Publisher.writeShm buffer s = .ok () t) :
    t.Holds name id n (ts ++ [buffer]) := by
  unfold Publisher.writeShm at hw
  rw [Pub.get_bind, h.shm] at hw
  obtain ⟨sp, hsp, hw⟩ := Pub.lift_bind_eq_ok hw
  cases hw
  obtain ⟨id', r, hid, hr, rfl⟩ := ShmBase.write_eq_ok hsp
  cases hid
  obtain ⟨-, rfl⟩ := Region.write_eq_ok hr
  refine ⟨h.shm, h.named, ?_⟩
  rw [h.region, ByteMem.writeAll_append]
  exact Posix.Space.obj_put_self _ _ _

variable [DoubleText D]

/-- **What a publish that returned did**: the region was there or was made, and the text was written to it; what the
manager did changed neither the publisher nor the region. -/
theorem publish_eq_ok {event : List UInt8} {data : JsonValue D} {s t : PubState D} {a : Int32}
    (h : Publisher.publish event data s = .ok a t) :
    ∃ u v w : PubState D, Publisher.ensureShm (fullName s.publisher.topic_ event) data.serialize.length s = .ok () u ∧
      (v.publisher = u.publisher ∧ v.space = u.space) ∧ Publisher.writeShm data.serialize v = .ok () w ∧
      t.publisher = w.publisher ∧ t.space = w.space := by
  unfold Publisher.publish at h
  rw [Pub.get_bind] at h
  obtain ⟨buffer, hbuf, h⟩ := Pub.lift_bind_eq_ok h
  rw [Serializer.serialize_getSerializedSize] at hbuf
  cases hbuf
  obtain ⟨_, u, hensure, h⟩ := Pub.bind_eq_ok h
  obtain ⟨_, v, htopic, h⟩ := Pub.bind_eq_ok h
  obtain ⟨_, w, hwrite, h⟩ := Pub.bind_eq_ok h
  obtain ⟨_, t', hnotify, h⟩ := Pub.bind_eq_ok h
  cases h
  exact ⟨u, v, w, hensure, ensureTopic_frame htopic, hwrite, notify_frame hnotify⟩

theorem publish_of_holds {event name : List UInt8} {data : JsonValue D} {s t : PubState D} {a : Int32} {id n : Nat}
    {ts : List (List UInt8)} (h : s.Holds name id n ts) (hp : Publisher.publish event data s = .ok a t) :
    t.Holds name id n (ts ++ [data.serialize]) := by
  obtain ⟨u, v, w, hensure, ⟨hv, hvs⟩, hwrite, ht, hts⟩ := publish_eq_ok hp
  cases ensureShm_of_holds h hensure
  exact (writeShm_of_holds (h.congr hv hvs) hwrite).congr ht hts

theorem publish_of_none {event : List UInt8} {data : JsonValue D} {s t : PubState D} {a : Int32}
    (hn : s.publisher.shm_ = none) (hp : Publisher.publish event data s = .ok a t) :
    s.space.lookup (fullName s.publisher.topic_ event) = none ∧
      t.Holds (fullName s.publisher.topic_ event) s.space.next data.serialize.length [data.serialize] := by
  obtain ⟨u, v, w, hensure, ⟨hv, hvs⟩, hwrite, ht, hts⟩ := publish_eq_ok hp
  obtain ⟨hfree, hu⟩ := ensureShm_of_none hn hensure
  exact ⟨hfree, (writeShm_of_holds (hu.congr hv hvs) hwrite).congr ht hts⟩

/-- The texts of a series of messages. -/
def texts (ms : List (Message D)) : List (List UInt8) := ms.map (fun m => m.val.serialize)

/-- The size of the region's data area: the first message's. -/
def dataSize (ms : List (Message D)) : Nat := ((texts ms).headD []).length

/-- **A whole series**: every message is written over the ones before it. -/
theorem publishAll_of_holds {event name : List UInt8} {id n : Nat} : ∀ {ms : List (Message D)}
    {ts : List (List UInt8)} {s t : PubState D}, s.Holds name id n ts →
    Publisher.publishAll event ms s = .ok () t → t.Holds name id n (ts ++ texts ms)
  | [], ts, s, t, h, hp => by
    cases hp
    rw [texts, List.map_nil, List.append_nil]
    exact h
  | m :: ms, ts, s, t, h, hp => by
    obtain ⟨_, u, hpub, hp⟩ := Pub.bind_eq_ok hp
    have hall := publishAll_of_holds (publish_of_holds h hpub) hp
    rw [List.append_assoc] at hall
    exact hall

/-- A series that starts with a new publisher: the first message makes the region. -/
theorem publishAll_of_none {event : List UInt8} {ms : List (Message D)} {s t : PubState D}
    (hn : s.publisher.shm_ = none) (hne : ms ≠ []) (hp : Publisher.publishAll event ms s = .ok () t) :
    s.space.lookup (fullName s.publisher.topic_ event) = none ∧
      t.Holds (fullName s.publisher.topic_ event) s.space.next (dataSize ms) (texts ms) := by
  cases ms with
  | nil => exact absurd rfl hne
  | cons m ms =>
    obtain ⟨_, u, hpub, hp⟩ := Pub.bind_eq_ok hp
    obtain ⟨hfree, hu⟩ := publish_of_none hn hpub
    exact ⟨hfree, publishAll_of_holds hu hp⟩

end Publishing

/-! ## What a task carries -/

section Carrying

variable {D : Type} [DoubleText D]

/-- A task that is built now hands this message to the callback. -/
def Subscriber.Carries (sub : Subscriber D) (sp : ShmSpace) (v : JsonValue D) : Prop :=
  ∃ sub', sub.createTaskFromSubEvent sp = .ok (v, sub')

omit [DoubleText D] in
/-- A subscriber that opens the region by its name maps the publisher's object. -/
theorem subscribe_of_holds {sub sub' : Subscriber D} {event : List UInt8} {s : PubState D} {id n : Nat}
    {ts : List (List UInt8)} (hn : sub.shm_ = none) (h : s.Holds (fullName sub.topic_ event) id n ts)
    (hs : sub.subscribe event s.space = .ok sub') :
    sub' = { sub with shm_ := some ⟨⟨fullName sub.topic_ event, sizeofShmHead + n, some id, false⟩, true⟩ } := by
  unfold Subscriber.subscribe at hs
  rw [hn] at hs
  obtain ⟨made, hmade, hs⟩ := Except.bind_eq_ok hs
  obtain ⟨opened, hopen, hs⟩ := Except.bind_eq_ok hs
  cases hs
  cases ShmBase.ofName_of_lookup h.named hmade
  rw [ShmBase.open_of_lookup rfl h.named] at hopen
  cases hopen
  rw [h.region]

omit [DoubleText D] in
theorem lookup_of_subscribe {sub sub' : Subscriber D} {event : List UInt8} {sp : ShmSpace} (hn : sub.shm_ = none)
    (hs : sub.subscribe event sp = .ok sub') : ∃ id, sp.lookup (fullName sub.topic_ event) = some id := by
  unfold Subscriber.subscribe at hs
  rw [hn] at hs
  obtain ⟨made, hmade, -⟩ := Except.bind_eq_ok hs
  exact ShmBase.lookup_of_ofName hmade

omit [DoubleText D] in
theorem subscribe_of_lookup {sub : Subscriber D} {event : List UInt8} {sp : ShmSpace} {id : Nat} (hn : sub.shm_ = none)
    (hname : (fullName sub.topic_ event).head? = some 47) (hl : sp.lookup (fullName sub.topic_ event) = some id) :
    ∃ sub', sub.subscribe event sp = .ok sub' := by
  have hof : ShmBase.ofName sp (fullName sub.topic_ event) =
      .ok ⟨⟨fullName sub.topic_ event, (sp.obj id).size, none, false⟩, false⟩ := by
    unfold ShmBase.ofName SharedMemory.ofName
    rw [if_neg (by simp [hname]), hl]
    rfl
  unfold Subscriber.subscribe
  rw [hn]
  simp only [hof, Except.ok_bind]
  rw [ShmBase.open_of_lookup rfl hl]
  exact ⟨_, rfl⟩

/-- The bytes that earlier messages have left behind the last one in the data area. -/
def leftover (front : List (Message D)) (m : Message D) : List UInt8 :=
  ((overlay (texts front)).take (dataSize (front ++ [m]))).drop m.val.serialize.length

/-- The data area after a series of messages. -/
def dataArea (ms : List (Message D)) : List UInt8 := (overlay (texts ms)).take (dataSize ms)

theorem dataSize_le_overlay (ms : List (Message D)) : dataSize ms ≤ (overlay (texts ms)).length := by
  cases ms with
  | nil => exact Nat.zero_le _
  | cons m ms => exact ByteMem.length_le_overlay List.mem_cons_self

theorem length_dataArea (ms : List (Message D)) : (dataArea ms).length = dataSize ms := by
  rw [dataArea, List.length_take, Nat.min_eq_left (dataSize_le_overlay ms)]

/-- **The whole data area is read**, at every length of the last message. -/
theorem readMessage_of_region {sub : Subscriber D} {sp : ShmSpace} {name : List UInt8} {id : Nat}
    {ms : List (Message D)}
    (hs : sub.shm_ = some ⟨⟨name, sizeofShmHead + dataSize ms, some id, false⟩, true⟩)
    (hr : sp.obj id = ⟨sizeofShmHead + dataSize ms, writeAll ByteMem.zero 0 (texts ms)⟩) :
    sub.readMessage sp = Serializer.deserialize (dataArea ms) sub.msg_ := by
  unfold Subscriber.readMessage
  rw [hs]
  have hread : ShmBase.readUnlocked ⟨⟨name, sizeofShmHead + dataSize ms, some id, false⟩, true⟩
      (sizeofShmHead + dataSize ms - sizeofShmHead) 0 sp = .ok (dataArea ms) := by
    have hsize : (sp.obj id).size = sizeofShmHead + dataSize ms := by rw [hr]
    rw [Nat.add_sub_cancel_left, ShmBase.readUnlocked_of_le rfl hsize (by simp), hr,
      ByteMem.read_writeAll_take _ _ _ _ (dataSize_le_overlay ms)]
    rfl
  show (ShmBase.readUnlocked _ _ 0 sp >>= _) = _
  rw [ShmBase.getDataSize, hread]
  rfl

/-- A task carries what was read, or what the subscriber had if reading threw. -/
theorem carries_iff (sub : Subscriber D) (sp : ShmSpace) (v : JsonValue D) :
    sub.Carries sp v ↔
      sub.readMessage sp = .ok v ∨ ((∃ e, sub.readMessage sp = .error (.throws e)) ∧ v = sub.msg_) := by
  unfold Subscriber.Carries Subscriber.createTaskFromSubEvent Subscriber.getMessage
  cases hr : sub.readMessage sp with
  | ok w =>
    constructor
    · rintro ⟨sub', h⟩
      cases h
      exact .inl rfl
    · rintro (h | ⟨⟨e, h⟩, -⟩)
      · cases h
        exact ⟨_, rfl⟩
      · cases h
  | error e =>
    cases e with
    | throws e =>
      constructor
      · rintro ⟨sub', h⟩
        cases h
        exact .inr ⟨⟨e, rfl⟩, rfl⟩
      · rintro (h | ⟨-, rfl⟩)
        · cases h
        · exact ⟨_, rfl⟩
    | _ =>
      constructor
      · rintro ⟨sub', h⟩
        cases h
      · rintro (h | ⟨⟨e, h⟩, -⟩) <;> cases h

/-- **When the last message is delivered** to a subscriber whose message was `d`: the text of `d` and the last text fit
in the data area, no string of the message has a backspace and only padding stands behind its text, or `d` is that
message already and what is read is no other value's text. -/
def Delivers (front : List (Message D)) (m : Message D) (d : JsonValue D) : Prop :=
  (d.serialize.length ≤ dataSize (front ++ [m]) ∧ m.val.serialize.length ≤ dataSize (front ++ [m]) ∧
      m.val.NoBackspace ∧ Padding m (leftover front m)) ∨
    (d = m.val ∧ (dataSize (front ++ [m]) < m.val.serialize.length ∨
      ∀ v, Text (m.val.serialize ++ leftover front m) v → v = m.val))

theorem texts_append (front : List (Message D)) (m : Message D) :
    texts (front ++ [m]) = texts front ++ [m.val.serialize] := List.map_append

/-- The last text stands at the start, whole if it fits. -/
theorem dataArea_of_le {front : List (Message D)} {m : Message D}
    (h : m.val.serialize.length ≤ dataSize (front ++ [m])) :
    dataArea (front ++ [m]) = m.val.serialize ++ leftover front m := by
  rw [dataArea, texts_append, ByteMem.overlay_append, List.take_append, List.take_of_length_le h, leftover,
    List.drop_take]

theorem dataArea_of_lt {front : List (Message D)} {m : Message D}
    (h : dataSize (front ++ [m]) < m.val.serialize.length) :
    dataArea (front ++ [m]) = m.val.serialize.take (dataSize (front ++ [m])) := by
  rw [dataArea, texts_append, ByteMem.overlay_append, List.take_append_of_le_length (by omega)]

theorem text_dataArea (front : List (Message D)) (m : Message D) :
    Text (dataArea (front ++ [m])) m.val ↔
      m.val.serialize.length ≤ dataSize (front ++ [m]) ∧ m.val.NoBackspace ∧ Padding m (leftover front m) := by
  by_cases h : m.val.serialize.length ≤ dataSize (front ++ [m])
  · rw [dataArea_of_le h, text_serialize_append]
    exact ⟨fun hp => ⟨h, hp⟩, fun hp => hp.2⟩
  · rw [dataArea_of_lt (by omega)]
    exact ⟨fun ht => absurd ht (not_text_take m (by omega)), fun hp => absurd hp.1 h⟩

theorem carries_dataArea {sub : Subscriber D} {sp : ShmSpace} {front : List (Message D)} {m : Message D}
    (hr : sub.readMessage sp = Serializer.deserialize (dataArea (front ++ [m])) sub.msg_) :
    sub.Carries sp m.val ↔ Delivers front m sub.msg_ := by
  obtain ⟨hok, hthrows⟩ := Serializer.deserialize_buffer (dataArea (front ++ [m])) sub.msg_
  rw [carries_iff, hr, hok, hthrows, length_dataArea, text_dataArea]
  constructor
  · rintro (⟨hd, hm, hpad⟩ | ⟨hfail, hd⟩)
    · exact .inl ⟨hd, hm, hpad⟩
    · refine .inr ⟨hd.symm, ?_⟩
      by_cases hm : dataSize (front ++ [m]) < m.val.serialize.length
      · exact .inl hm
      · -- nothing was read, so what stands there is no text at all
        rw [← hd] at hfail
        refine .inr (fun v hv => ?_)
        rw [dataArea_of_le (by omega)] at hfail
        rcases hfail with hlt | hnone
        · exact absurd hlt hm
        · exact absurd hv (hnone v)
  · rintro (⟨hd, hm, hpad⟩ | ⟨hd, hother⟩)
    · exact .inl ⟨hd, hm, hpad⟩
    · rw [hd]
      by_cases hm : dataSize (front ++ [m]) < m.val.serialize.length
      · exact .inr ⟨.inl hm, rfl⟩
      · have hle : m.val.serialize.length ≤ dataSize (front ++ [m]) := by omega
        rcases hother with hlt | hother
        · exact absurd hlt hm
        · by_cases ht : Text (dataArea (front ++ [m])) m.val
          · exact .inl ⟨hle, (text_dataArea front m).1 ht⟩
          · rw [dataArea_of_le hle] at ht ⊢
            exact .inr ⟨.inr (fun v hv => ht (hother v hv ▸ hv)), rfl⟩

/-- **What is read after the last publish**, wherever between the publishes the subscriber opened the region. -/
theorem readMessage_of_publishAll {s t u : PubState D} {sub sub' : Subscriber D} {event : List UInt8}
    {xs ys front : List (Message D)} {m : Message D} (hms : xs ++ ys = front ++ [m])
    (hn : s.publisher.shm_ = none) (htopic : s.publisher.topic_ = sub.topic_) (hsub : sub.shm_ = none)
    (hxs : Publisher.publishAll event xs s = .ok () t) (hopen : sub.subscribe event t.space = .ok sub')
    (hys : Publisher.publishAll event ys t = .ok () u) (d : JsonValue D) :
    ({ sub' with msg_ := d } : Subscriber D).readMessage u.space =
      Serializer.deserialize (dataArea (front ++ [m])) d := by
  by_cases hne : xs = []
  · -- the region is there already, so the first publish could not have made it
    subst hne
    cases hxs
    obtain ⟨id, hid⟩ := lookup_of_subscribe hsub hopen
    have hys_ne : ys ≠ [] := by
      rw [List.nil_append] at hms
      rw [hms]
      exact List.append_ne_nil_of_right_ne_nil _ (List.cons_ne_nil _ _)
    have hfree := (publishAll_of_none hn hys_ne hys).1
    rw [htopic, hid] at hfree
    cases hfree
  · obtain ⟨-, ht⟩ := publishAll_of_none hn hne hxs
    rw [htopic] at ht
    rw [subscribe_of_holds hsub ht hopen]
    have hu := publishAll_of_holds ht hys
    have htexts : texts xs ++ texts ys = texts (front ++ [m]) := by
      rw [← hms]
      exact List.map_append.symm
    have hsize : dataSize xs = dataSize (front ++ [m]) := by
      rw [← hms]
      cases xs with
      | nil => exact absurd rfl hne
      | cons x xs => rfl
    have hregion := hu.region
    rw [htexts, hsize] at hregion
    rw [hsize]
    exact readMessage_of_region rfl hregion

/-- **Delivery of the latest message**: messages are published one after the other through a new publisher, a subscriber
opens the region by name at some point in between, and its message is `d` when a task is built after the last publish.
The task carries the last message exactly when `Delivers` holds of the messages and of `d`. -/
theorem carries_iff_delivers {s t u : PubState D} {sub sub' : Subscriber D} {event : List UInt8}
    {xs ys front : List (Message D)} {m : Message D} (hms : xs ++ ys = front ++ [m])
    (hn : s.publisher.shm_ = none) (htopic : s.publisher.topic_ = sub.topic_) (hsub : sub.shm_ = none)
    (hxs : Publisher.publishAll event xs s = .ok () t) (hopen : sub.subscribe event t.space = .ok sub')
    (hys : Publisher.publishAll event ys t = .ok () u) (d : JsonValue D) :
    ({ sub' with msg_ := d } : Subscriber D).Carries u.space m.val ↔ Delivers front m d :=
  carries_dataArea (readMessage_of_publishAll hms hn htopic hsub hxs hopen hys d)

end Carrying

/-! ## Runs -/

def stringMessage (s : List UInt8) : Message (List UInt8) :=
  ⟨.string s, fun _ h => (by cases h), fun _ h => (by cases h)⟩

def boolMessage (b : Bool) : Message (List UInt8) := ⟨.bool b, fun _ h => (by cases h), fun _ h => (by cases h)⟩

/-- A publisher of a node whose manager has an empty registry. -/
def newPublisher : PubState (List UInt8) :=
  ⟨⟨utf8 "/t", none, utf8 "t"⟩, some (Registry.fresh 0), ⟨fun _ => none, fun _ => Region.fresh 0, 0⟩⟩

def newSubscriber : Subscriber (List UInt8) := ⟨utf8 "/t", none, .null⟩

/-- A message is published, the subscriber opens the region, and a second message is published. -/
theorem run_of_answers (m m' : Message (List UInt8))
    (h : answer (Publisher.publishAll (utf8 "e") [m] newPublisher) = some ())
    (h' : answer (Publisher.publishAll (utf8 "e") [m']
      (finalState (Publisher.publishAll (utf8 "e") [m] newPublisher))) = some ()) :
    ∃ t u sub', Publisher.publishAll (utf8 "e") [m] newPublisher = .ok () t ∧
      newSubscriber.subscribe (utf8 "e") t.space = .ok sub' ∧
      Publisher.publishAll (utf8 "e") [m'] t = .ok () u := by
  have h₁ := eq_ok_of_answer h
  have hholds := (publishAll_of_none rfl (List.cons_ne_nil _ _) h₁).2
  have hnone : newSubscriber.shm_ = none := rfl
  obtain ⟨sub', hsub⟩ := subscribe_of_lookup hnone (by decide) hholds.named
  exact ⟨_, _, sub', h₁, hsub, eq_ok_of_answer h'⟩

/-- A message of the same length is delivered. -/
theorem carries_same_length : ∃ t u sub',
    Publisher.publishAll (utf8 "e") [stringMessage (utf8 "ab")] newPublisher = .ok () t ∧
      newSubscriber.subscribe (utf8 "e") t.space = .ok sub' ∧
      Publisher.publishAll (utf8 "e") [boolMessage true] t = .ok () u ∧
      ({ sub' with msg_ := .null } : Subscriber (List UInt8)).Carries u.space (.bool true) := by
  obtain ⟨t, u, sub', hxs, hsub, hys⟩ := run_of_answers (stringMessage (utf8 "ab")) (boolMessage true)
    (by decide +kernel) (by decide +kernel)
  have hdel : Delivers [stringMessage (utf8 "ab")] (boolMessage true) .null := by
    refine .inl ⟨by decide +kernel, by decide +kernel, JsonValue.onStrings_of_ne nofun nofun, .inl ?_⟩
    have hnil : leftover [stringMessage (utf8 "ab")] (boolMessage true) = [] := by decide +kernel
    rw [hnil]
    exact blank_nil
  exact ⟨t, u, sub', hxs, hsub, hys, (carries_iff_delivers rfl rfl rfl rfl hxs hsub hys .null).2 hdel⟩

/-- The string "abc" is published and then `true`: the quote of the longer text stays behind the shorter one, the parser
refuses it, and the task carries what the subscriber had. -/
theorem latest_not_always_carried : ¬ ∀ (s t u : PubState (List UInt8)) (sub sub' : Subscriber (List UInt8))
    (event : List UInt8) (xs ys front : List (Message (List UInt8))) (m : Message (List UInt8))
    (d : JsonValue (List UInt8)),
    xs ++ ys = front ++ [m] → s.publisher.shm_ = none → s.publisher.topic_ = sub.topic_ → sub.shm_ = none →
    Publisher.publishAll event xs s = .ok () t → sub.subscribe event t.space = .ok sub' →
    Publisher.publishAll event ys t = .ok () u →
    ({ sub' with msg_ := d } : Subscriber (List UInt8)).Carries u.space m.val := by
  intro h
  obtain ⟨t, u, sub', hxs, hsub, hys⟩ := run_of_answers (stringMessage (utf8 "abc")) (boolMessage true)
    (by decide +kernel) (by decide +kernel)
  have hms : [stringMessage (utf8 "abc")] ++ [boolMessage true] =
      [stringMessage (utf8 "abc")] ++ [boolMessage true] := rfl
  have hcarries := h _ t u newSubscriber sub' _ _ _ _ _ .null hms rfl rfl rfl hxs hsub hys
  have hread := readMessage_of_publishAll hms rfl rfl rfl hxs hsub hys .null
  have hleft : leftover [stringMessage (utf8 "abc")] (boolMessage true) = [chQuote] := by decide +kernel
  rcases (carries_dataArea hread).1 hcarries with ⟨-, -, -, hblank | ⟨hint, -⟩⟩ | ⟨hnull, -⟩
  · rw [hleft] at hblank
    exact absurd (hblank chQuote List.mem_cons_self) (by decide)
  · cases hint
  · cases hnull

end MiniRos2

import MiniRos2.PubSub
/-!
# PublisherEvents — one publisher, several events

`publish` takes the event as an argument and chooses the region on its first call only.  From then on every message goes
to the first event's region, whatever its event is; the regions of the other events stay as they are
(`holdsText_of_publishEach`).
-/
namespace MiniRos2

open ByteMem (writeAll)

variable {D : Type}

/-- **The region of that name holds the text**: a subscriber that opens it by name reads this text and nothing else. -/
def HoldsText (sp : ShmSpace) (name text : List UInt8) : Prop :=
  ∃ id, sp.lookup name = some id ∧ (sp.obj id).size = sizeofShmHead + text.length ∧
    ByteMem.read (sp.obj id).mem 0 text.length = text

/-- Nothing but the object `id` and the name `name` is different. -/
structure OnlyChanged (sp sp' : ShmSpace) (name : List UInt8) (id : Nat) : Prop where
  lookup : ∀ name', name' ≠ name → sp'.lookup name' = sp.lookup name'
  obj : ∀ id', id' ≠ id → sp'.obj id' = sp.obj id'

theorem OnlyChanged.refl (sp : ShmSpace) (name : List UInt8) (id : Nat) : OnlyChanged sp sp name id :=
  ⟨fun _ _ => rfl, fun _ _ => rfl⟩

theorem OnlyChanged.trans {sp sp' sp'' : ShmSpace} {name : List UInt8} {id : Nat} (h : OnlyChanged sp sp' name id)
    (h' : OnlyChanged sp' sp'' name id) : OnlyChanged sp sp'' name id where
  lookup name' hne := (h'.lookup name' hne).trans (h.lookup name' hne)
  obj id' hne := (h'.obj id' hne).trans (h.obj id' hne)

theorem OnlyChanged.holdsText {sp sp' : ShmSpace} {name name' text : List UInt8} {id : Nat}
    (h : OnlyChanged sp sp' name id) (hne : name' ≠ name) (hid : sp.lookup name' ≠ some id) :
    HoldsText sp' name' text ↔ HoldsText sp name' text := by
  have hlook := h.lookup name' hne
  constructor
  · rintro ⟨id', hl, hsize, hread⟩
    rw [hlook] at hl
    have hobj := h.obj id' (fun heq => hid (heq ▸ hl))
    rw [hobj] at hsize hread
    exact ⟨id', hl, hsize, hread⟩
  · rintro ⟨id', hl, hsize, hread⟩
    have hobj := h.obj id' (fun heq => hid (heq ▸ hl))
    rw [← hobj] at hsize hread
    exact ⟨id', hlook.trans hl, hsize, hread⟩

/-- The region holds the last of the texts, when they are all as long. -/
theorem PubState.Holds.holdsText {s : PubState D} {name text text' : List UInt8} {id n : Nat} {ts : List (List UInt8)}
    (h : s.Holds name id n (ts ++ [text])) (hn : text.length = n) (hn' : text'.length = n) :
    HoldsText s.space name text' ↔ text' = text := by
  have hread : ByteMem.read (s.space.obj id).mem 0 n = text := by
    rw [h.region, ByteMem.writeAll_append, ← hn]
    show ByteMem.read (ByteMem.write _ 0 text) 0 text.length = text
    rw [ByteMem.read_write_take _ _ _ _ (Nat.le_refl _), List.take_length]
  constructor
  · rintro ⟨id', hl, -, hread'⟩
    rw [h.named] at hl
    obtain rfl := Option.some.inj hl
    rw [hn', hread] at hread'
    exact hread'.symm
  · rintro rfl
    refine ⟨id, h.named, ?_, ?_⟩
    · rw [h.region, hn]
    · rw [hn]
      exact hread

/-! ## What a publish leaves alone -/

theorem ensureShm_onlyChanged {s t : PubState D} {name : List UInt8} {size : Nat} (hn : s.publisher.shm_ = none)
    (he : Publisher.ensureShm name size s = .ok () t) : OnlyChanged s.space t.space name s.space.next := by
  unfold Publisher.ensureShm at he
  rw [Pub.get_bind, hn] at he
  obtain ⟨made, hmade, he⟩ := Pub.lift_bind_eq_ok he
  rw [Pub.setShm_bind] at he
  obtain ⟨⟨created, sp⟩, hcreate, he⟩ := Pub.lift_bind_eq_ok he
  dsimp only at he
  rw [Pub.setShm_bind, Pub.setSpace_bind] at he
  obtain ⟨opened, -, he⟩ := Pub.lift_bind_eq_ok he
  cases he
  cases ShmBase.ofSize_eq_ok hmade
  obtain ⟨hsp, -⟩ := ShmBase.create_eq_ok rfl hcreate
  obtain ⟨-, -, -, -, -, hlookup, hobj⟩ := Posix.Space.create_eq_some hsp
  exact ⟨hlookup, hobj⟩

theorem writeShm_onlyChanged {s t : PubState D} {name buffer : List UInt8} {id n : Nat} {ts : List (List UInt8)}
    (h : s.Holds name id n ts) (hw : Publisher.writeShm buffer s = .ok () t) :
    OnlyChanged s.space t.space name id := by
  unfold Publisher.writeShm at hw
  rw [Pub.get_bind, h.shm] at hw
  obtain ⟨sp, hsp, hw⟩ := Pub.lift_bind_eq_ok hw
  cases hw
  obtain ⟨id', r, hid, -, rfl⟩ := ShmBase.write_eq_ok hsp
  cases hid
  exact ⟨fun _ _ => rfl, fun id' hne => Function.update_of_ne hne _ _⟩

section Publishing

variable [DoubleText D]

/-- Messages published one after the other through one publisher, each under its event. -/
def Publisher.publishEach : List (List UInt8 × JsonValue D) → Pub D Unit
  | [] => pure ()
  | (event, data) :: calls => do
    let _ ← publish event data
    publishEach calls

theorem publish_onlyChanged {event name : List UInt8} {data : JsonValue D} {s t : PubState D} {a : Int32} {id n : Nat}
    {ts : List (List UInt8)} (h : s.Holds name id n ts) (hp : Publisher.publish event data s = .ok a t) :
    OnlyChanged s.space t.space name id := by
  obtain ⟨u, v, w, hensure, ⟨hv, hvs⟩, hwrite, -, hts⟩ := publish_eq_ok hp
  cases ensureShm_of_holds h hensure
  have hkept := writeShm_onlyChanged (h.congr hv hvs) hwrite
  rwa [hvs, ← hts] at hkept

theorem publish_first_onlyChanged {event : List UInt8} {data : JsonValue D} {s t : PubState D} {a : Int32}
    (hn : s.publisher.shm_ = none) (hp : Publisher.publish event data s = .ok a t) :
    OnlyChanged s.space t.space (fullName s.publisher.topic_ event) s.space.next := by
  obtain ⟨u, v, w, hensure, ⟨hv, hvs⟩, hwrite, -, hts⟩ := publish_eq_ok hp
  obtain ⟨-, hu⟩ := ensureShm_of_none hn hensure
  have hkept := writeShm_onlyChanged (hu.congr hv hvs) hwrite
  rw [hvs, ← hts] at hkept
  exact (ensureShm_onlyChanged hn hensure).trans hkept

/-- **Every message goes to the region the publisher has.** -/
theorem publishEach_of_holds {name : List UInt8} {id n : Nat} {calls : List (List UInt8 × JsonValue D)}
    {ts : List (List UInt8)} {s t : PubState D} (h : s.Holds name id n ts)
    (hp : Publisher.publishEach calls s = .ok () t) :
    t.Holds name id n (ts ++ calls.map (fun c => c.2.serialize)) ∧ OnlyChanged s.space t.space name id := by
  induction calls generalizing s ts with
  | nil =>
    cases hp
    rw [List.map_nil, List.append_nil]
    exact ⟨h, .refl _ _ _⟩
  | cons c calls ih =>
    obtain ⟨_, u, hpub, hp⟩ := Pub.bind_eq_ok hp
    obtain ⟨hall, hkept⟩ := ih (publish_of_holds h hpub) hp
    rw [List.append_assoc] at hall
    exact ⟨hall, (publish_onlyChanged h hpub).trans hkept⟩

/-- The last message published under an event. -/
def lastUnder (event : List UInt8) (calls : List (List UInt8 × JsonValue D)) : Option (JsonValue D) :=
  ((calls.filter (fun c => c.1 == event)).getLast?).map Prod.snd

/-- **Every event's region holds the last message published under it.** -/
def LastHeld (sp : ShmSpace) (topic_ : List UInt8) (calls : List (List UInt8 × JsonValue D)) : Prop :=
  ∀ event data, lastUnder event calls = some data → HoldsText sp (fullName topic_ event) data.serialize

/-- **Each event is the first call's, and its last message reads like the very last one**; or its region was there
before, with its message in it. -/
def OneRegion (sp : ShmSpace) (topic_ : List UInt8) (calls : List (List UInt8 × JsonValue D)) : Prop :=
  ∀ event data, lastUnder event calls = some data →
    if calls.head?.map Prod.fst = some event then
      calls.getLast?.map (fun c => c.2.serialize) = some data.serialize
    else HoldsText sp (fullName topic_ event) data.serialize

omit [DoubleText D] in
theorem mem_of_lastUnder {event : List UInt8} {calls : List (List UInt8 × JsonValue D)} {data : JsonValue D}
    (h : lastUnder event calls = some data) : (event, data) ∈ calls := by
  obtain ⟨c, hc, rfl⟩ := Option.map_eq_some_iff.1 h
  obtain ⟨hmem, he⟩ := List.mem_filter.1 (List.mem_of_getLast? hc)
  rw [← beq_iff_eq.1 he]
  exact hmem

theorem fullName_right_inj {topic event event' : List UInt8} (h : fullName topic event = fullName topic event') :
    event = event' := List.append_cancel_left h

/-- What a sequence of publishes leaves in the region of one of its events. -/
theorem holdsText_of_publishEach {s t : PubState D} {calls : List (List UInt8 × JsonValue D)} {n : Nat}
    (hn : s.publisher.shm_ = none) (hok : s.space.Ok) (hlen : ∀ c ∈ calls, c.2.serialize.length = n)
    (hp : Publisher.publishEach calls s = .ok () t) {event : List UInt8} {data : JsonValue D}
    (hmem : (event, data) ∈ calls) :
    HoldsText t.space (fullName s.publisher.topic_ event) data.serialize ↔
      if calls.head?.map Prod.fst = some event then
        calls.getLast?.map (fun c => c.2.serialize) = some data.serialize
      else HoldsText s.space (fullName s.publisher.topic_ event) data.serialize := by
  have hdata := hlen _ hmem
  cases calls with
  | nil => cases hmem
  | cons c calls =>
    obtain ⟨first, data₁⟩ := c
    obtain ⟨_, u, hpub, hp⟩ := Pub.bind_eq_ok hp
    obtain ⟨-, hu⟩ := publish_of_none hn hpub
    obtain ⟨hall, hkept⟩ := publishEach_of_holds hu hp
    have hkept := (publish_first_onlyChanged hn hpub).trans hkept
    by_cases he : first = event
    · -- the last call's text stands there, whatever its event is
      subst he
      obtain ⟨front, last, hsplit⟩ : ∃ front last, (first, data₁) :: calls = front ++ [last] :=
        ⟨_, _, (List.dropLast_append_getLast (List.cons_ne_nil _ _)).symm⟩
      have htexts : [data₁.serialize] ++ calls.map (fun c => c.2.serialize) =
          front.map (fun c => c.2.serialize) ++ [last.2.serialize] := by
        simpa using congrArg (List.map (fun c => c.2.serialize)) hsplit
      rw [htexts, hlen _ List.mem_cons_self] at hall
      have hlast : last ∈ (first, data₁) :: calls := by simp [hsplit]
      have hgetLast : ((first, data₁) :: calls).getLast?.map (fun c => c.2.serialize) = some last.2.serialize := by
        simp [hsplit]
      have hhead : ((first, data₁) :: calls).head?.map Prod.fst = some first := rfl
      rw [hall.holdsText (hlen _ hlast) hdata, if_pos hhead, hgetLast, Option.some_inj]
      exact eq_comm
    · have hother : fullName s.publisher.topic_ event ≠ fullName s.publisher.topic_ first :=
        fun h => he (fullName_right_inj h).symm
      have hnew : s.space.lookup (fullName s.publisher.topic_ event) ≠ some s.space.next :=
        fun h => Nat.lt_irrefl _ (hok.lt_next h)
      rw [hkept.holdsText hother hnew, if_neg (by simpa using he)]

/-- **One publisher and any sequence of publishes** of messages of one length, from a publisher that has published
nothing. -/
theorem lastHeld_iff_of_publishEach {s t : PubState D} {calls : List (List UInt8 × JsonValue D)} {n : Nat}
    (hn : s.publisher.shm_ = none) (hok : s.space.Ok) (hlen : ∀ c ∈ calls, c.2.serialize.length = n)
    (hp : Publisher.publishEach calls s = .ok () t) :
    LastHeld t.space s.publisher.topic_ calls ↔ OneRegion s.space s.publisher.topic_ calls := by
  refine forall_congr' (fun event => forall_congr' (fun data => forall_congr' (fun hlast => ?_)))
  exact holdsText_of_publishEach hn hok hlen hp (mem_of_lastUnder hlast)

end Publishing

/-! ## Two runs -/

theorem newPublisher_ok : newPublisher.space.Ok := by
  rintro name id ⟨⟩

/-- `true` and then `null`, under the events of the two bytes. -/
def trueThenNull (b b' : UInt8) : List (List UInt8 × JsonValue (List UInt8)) := [([b], .bool true), ([b'], .null)]

theorem length_trueThenNull (b b' : UInt8) : ∀ c ∈ trueThenNull b b', c.2.serialize.length = 4 := by
  simp [trueThenNull, JsonValue.serialize]
  decide +kernel

/-- Two messages under one event. -/
theorem lastHeld_one_event : ∃ t, Publisher.publishEach (trueThenNull 101 101) newPublisher = .ok () t ∧
    LastHeld t.space newPublisher.publisher.topic_ (trueThenNull 101 101) := by
  have hans : answer (Publisher.publishEach (trueThenNull 101 101) newPublisher) = some () := by decide +kernel
  have hrun := eq_ok_of_answer hans
  refine ⟨_, hrun, (lastHeld_iff_of_publishEach rfl newPublisher_ok (length_trueThenNull _ _) hrun).2 ?_⟩
  intro event data hlast
  have hmem := mem_of_lastUnder hlast
  simp only [trueThenNull, List.mem_cons, Prod.mk.injEq, List.not_mem_nil, or_false] at hmem
  obtain rfl : event = [101] := by rcases hmem with ⟨h, -⟩ | ⟨h, -⟩ <;> exact h
  cases hlast
  rfl

/-- A message is published under one event and then one under another: the second one stands in the first one's
region. -/
theorem lastHeld_not_always : ¬ ∀ (s t : PubState (List UInt8)) (calls : List (List UInt8 × JsonValue (List UInt8)))
    (n : Nat), s.publisher.shm_ = none → s.space.Ok → (∀ c ∈ calls, c.2.serialize.length = n) →
    Publisher.publishEach calls s = .ok () t → LastHeld t.space s.publisher.topic_ calls := by
  intro h
  have hans : answer (Publisher.publishEach (trueThenNull 101 102) newPublisher) = some () := by decide +kernel
  have hrun := eq_ok_of_answer hans
  have hheld := h _ _ _ 4 rfl newPublisher_ok (length_trueThenNull _ _) hrun [101] (.bool true) rfl
  have hmem : ([101], .bool true) ∈ trueThenNull 101 102 := List.mem_cons_self
  have hhead : (trueThenNull 101 102).head?.map Prod.fst = some [101] := rfl
  rw [holdsText_of_publishEach rfl newPublisher_ok (length_trueThenNull _ _) hrun hmem, if_pos hhead] at hheld
  have htexts : (JsonValue.null : JsonValue (List UInt8)).serialize = (JsonValue.bool true).serialize :=
    Option.some.inj hheld
  exact absurd htexts (by decide +kernel)

end MiniRos2

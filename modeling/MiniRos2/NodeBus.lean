import MiniRos2.EventAgree
import MiniRos2.EventIds
import MiniRos2.SharedTopic
import MiniRos2.TornRead
import MiniRos2.UnsetMembers
import MiniRos2.Lib.TopicBus
/-!
# NodeBus — nodes that publish and go round

Nodes with their publishers and subscriptions, on one registry, one event region and the regions of their topics: they
publish, and go round in `spinLoop`.  A publish is two steps, the write and the trigger (`publish_eq`), and a round is
one step for each subscription and for each call, so that everything a node does may come between two steps of another.
The nodes are set up (`Ready`) when every publisher and every subscription has its region, and every subscription the
id that the shared table gives its region's name.
-/
namespace MiniRos2

namespace NodeBus

open TornRead (handed)

variable {κ D : Type}

/-- Where a node is in `spinLoop`: in front of `waitForEvent`, at a subscription, or with calls to make. -/
inductive Spin where
  | waiting
  | checking (trigger_event : EventFlags) (id : Nat) (processed_event_ids : List Int32)
  | calling (calls : List (SpinCall Empty))

/-- The nodes with their registry, the regions, the publishers (one for each thread that uses it) with their nodes and
with the events they have written a message for, the nodes' subscriptions, and the tasks that were enqueued: for each
its node and its subscription, the message the subscription had, and the one it handed over. -/
structure System (κ D : Type) where
  nodes : Cluster D
  space : ShmSpace
  publisher : κ → Nat × Publisher
  written : κ → Option (List UInt8)
  subscriptions_ : Nat → List (Subscriber D)
  subscription_event_ids_ : Nat → List Int32
  spin : Nat → Spin
  enqueued : List (Nat × Nat × JsonValue D × JsonValue D)

/-- A publish is known by the name it is under. -/
inductive Act (κ D : Type) where
  | write (k : κ) (full_name : List UInt8) (data : JsonValue D)
  | notify (k : κ) (full_name : List UInt8)
  | waitForEvent (i : Nat)
  | check (i : Nat)
  | leave (i : Nat)
  | call (i : Nat) (c : SpinCall Empty)
  | again (i : Nat)

/-- A publisher's name for an event. -/
def System.full_name (s : System κ D) (k : κ) (event : List UInt8) : List UInt8 :=
  fullName (s.publisher k).2.topic_ event

namespace System

/-- What a publish works on. -/
def pub (s : System κ D) (k : κ) : PubState D := ⟨(s.publisher k).2, some (s.nodes.view (s.publisher k).1), s.space⟩

def goto (s : System κ D) (i : Nat) (pc : Spin) : System κ D := { s with spin := Function.update s.spin i pc }

/-- A task is enqueued, and the subscription keeps what was read. -/
def enqueue (s : System κ D) (i id : Nat) (before v : JsonValue D) (sub : Subscriber D) : System κ D :=
  { s with
    subscriptions_ := Function.update s.subscriptions_ i ((s.subscriptions_ i).set id sub)
    enqueued := s.enqueued ++ [(i, id, before, v)] }

/-- After a call of node `i`'s manager. -/
def putNode (s : System κ D) (i : Nat) (r : Registry D) : System κ D := { s with nodes := s.nodes.put i r }

/-- After a part of a publish. -/
def setPub [DecidableEq κ] (s : System κ D) (k : κ) (t : PubState D) (event : Option (List UInt8)) : System κ D :=
  { s with
    nodes := t.shm_manager_.elim s.nodes (s.nodes.put (s.publisher k).1)
    space := t.space
    publisher := Function.update s.publisher k ((s.publisher k).1, t.publisher)
    written := Function.update s.written k event }

end System

/-- The calls of a round behind the loop over the subscriptions. -/
def roundCalls (trigger_event : EventFlags) (processed_event_ids : List Int32) : List (SpinCall Empty) :=
  processed_event_ids.map .clearTriggerEvent ++
    if trigger_event (EVENT_MAX_COUNT - 1) then
      [.syncRegistryFromShm, .clearTriggerEvent (EVENT_MAX_COUNT - 1 : Nat).toInt32]
    else []

section Steps

variable [DoubleText D]

/-- `publish` up to the write. -/
def publishWrite (event : List UInt8) (data : JsonValue D) : Pub D Unit := do
  let s ← get
  Publisher.ensureShm (fullName s.publisher.topic_ event) (Serializer.getSerializedSize data)
  Publisher.ensureTopic event
  Publisher.writeShm data.serialize

/-- The call itself, of a node's manager. -/
def callOp : SpinCall Empty → Op D Unit
  | .enqueue task => task.elim
  | .clearTriggerEvent event_id => clearTriggerEvent event_id
  | .syncRegistryFromShm => syncRegistryFromShm

variable [DecidableEq κ]

/-- **One step**; calls that throw are not taken. -/
inductive Act.Step (s : System κ D) : Act κ D → System κ D → Prop where
  | write {k : κ} {event : List UInt8} {data : JsonValue D} {t : PubState D} : s.written k = none →
      publishWrite event data (s.pub k) = .ok () t →
      Step s (.write k (s.full_name k event) data) (s.setPub k t (some event))
  | notify {k : κ} {event : List UInt8} {t : PubState D} : s.written k = some event →
      Publisher.notify event (s.pub k) = .ok () t → Step s (.notify k (s.full_name k event)) (s.setPub k t none)
  | waitForEvent {i : Nat} : i < s.nodes.started → s.spin i = .waiting →
      Step s (.waitForEvent i) (s.goto i (.checking s.nodes.event_flag_ 0 []))
  | enqueued {i id : Nat} {F : EventFlags} {ids : List Int32} {sub sub' : Subscriber D} {e e' : Int32}
      {v : JsonValue D} {base : SubscriberBase (JsonValue D × Subscriber D)} : s.spin i = .checking F id ids →
      F.any = true → (s.subscriptions_ i)[id]? = some sub → (s.subscription_event_ids_ i)[id]? = some e →
      sub.createTaskFromSubEvent s.space = base.createTaskFromSubEvent.mapError .throws →
      checkSubscription F true true base e = some ((v, sub'), e') →
      Step s (.check i) ((s.enqueue i id sub.msg_ v sub').goto i (.checking F (id + 1) (ids ++ [e'])))
  | passed {i id : Nat} {F : EventFlags} {ids : List Int32} {sub : Subscriber D} {e : Int32}
      {base : SubscriberBase (JsonValue D × Subscriber D)} : s.spin i = .checking F id ids →
      F.any = true → (s.subscriptions_ i)[id]? = some sub → (s.subscription_event_ids_ i)[id]? = some e →
      sub.createTaskFromSubEvent s.space = base.createTaskFromSubEvent.mapError .throws →
      checkSubscription F true true base e = none →
      Step s (.check i) (s.goto i (.checking F (id + 1) ids))
  | leave {i id : Nat} {F : EventFlags} {ids : List Int32} : s.spin i = .checking F id ids →
      (F.any = false ∨ (s.subscriptions_ i).length ≤ id ∨ (s.subscription_event_ids_ i).length ≤ id) →
      Step s (.leave i) (s.goto i (.calling (roundCalls F ids)))
  | call {i : Nat} {c : SpinCall Empty} {cs : List (SpinCall Empty)} {r : Registry D} :
      s.spin i = .calling (c :: cs) → callOp c (s.nodes.view i) = .ok () r →
      Step s (.call i c) ((s.putNode i r).goto i (.calling cs))
  | again {i : Nat} : s.spin i = .calling [] → Step s (.again i) (s.goto i .waiting)

omit [DecidableEq κ] in
/-- **A publish is the write and the trigger.** -/
theorem publish_eq (event : List UInt8) (data : JsonValue D) (s : PubState D) :
    Publisher.publish event data s =
      (publishWrite event data >>= fun _ => Publisher.notify event >>= fun _ => pure 0) s := by
  unfold Publisher.publish publishWrite
  rw [Pub.get_bind, bind_assoc, Pub.get_bind]
  rw [Pub.lift_bind (Serializer.serialize_getSerializedSize data)]
  simp only [bind_assoc]

end Steps

/-! ## Nodes that are set up -/

/-- **The shared table is `t`**, and what the nodes have is the front of it: all, or nothing after a read of a table
that cannot be read. -/
structure Shares [DoubleText D] (t : TopicsInfo) (nodes : Cluster D) : Prop where
  region : TopicRegion D nodes.shm t
  tidy : t.Tidy
  copies : ∀ i, i < nodes.started → (nodes.cache i).topics_.Extends t

/-- The id of a name in the table. -/
def TopicId (t : TopicsInfo) (full_name : List UInt8) (event_id : Int32) : Prop :=
  ∃ l, t.First full_name l ∧ (t.topics l).event_id_ = event_id

/-- The object of a name is mapped, with its size. -/
def Mapped (sp : ShmSpace) (shm_ : Option ShmBase) (name : List UInt8) : Prop :=
  ∃ id size owner, shm_ = some ⟨⟨name, sizeofShmHead + size, some id, owner⟩, true⟩ ∧ sp.lookup name = some id ∧
    (sp.obj id).size = sizeofShmHead + size

/-- The name of the region that is mapped. -/
def regionName (shm_ : Option ShmBase) : List UInt8 := shm_.elim [] fun b => b.shm_.name_

/-- The ids that a node is to clear are the table's. -/
def Spin.Ok (t : TopicsInfo) : Spin → Prop
  | .waiting => True
  | .checking _ _ ids => ∀ e ∈ ids, ∃ n, TopicId t n e
  | .calling cs => ∀ e, .clearTriggerEvent e ∈ cs →
      e.toInt = ((MAX_TOPICS_PER_NODE - 1 : Nat) : Int) ∨ ∃ n, TopicId t n e

/-- **The nodes are set up**: the shared table is `t`, with its ids below the bit of registry changes; every publisher
and every subscription has its region mapped, a subscription's id is the one of its region's name, and a node still sees
the topic that it has written a message for, if the table can be read. -/
structure System.Ready [DoubleText D] (t : TopicsInfo) (pubs : κ → Nat × Publisher) (s : System κ D) : Prop where
  table : Shares t s.nodes
  ids : ∀ n e, TopicId t n e → e.toInt < (MAX_TOPICS_PER_NODE - 1 : Nat)
  publishers : s.publisher = pubs
  publisher : ∀ k, (pubs k).1 < s.nodes.started ∧
    Mapped s.space (pubs k).2.shm_ (regionName (pubs k).2.shm_) ∧
    (pubs k).2.topic_name_for_event_ = (pubs k).2.topic_ ∧ (pubs k).2.topic_ ≠ []
  written : t.Legible → ∀ k event, s.written k = some event →
    (s.nodes.cache (pubs k).1).topics_.Visible (fullName (pubs k).2.topic_ event)
  subscription : ∀ (i id : Nat) (sub : Subscriber D), (s.subscriptions_ i)[id]? = some sub → i < s.nodes.started ∧
    Mapped s.space sub.shm_ (regionName sub.shm_) ∧
    ∃ e, (s.subscription_event_ids_ i)[id]? = some e ∧ TopicId t (regionName sub.shm_) e
  distinct : ∀ n n' id, s.space.lookup n = some id → s.space.lookup n' = some id → n = n'
  spin : ∀ i, (s.spin i).Ok t ∧ (s.nodes.started ≤ i → s.spin i = .waiting)

/-! ## Ids and names -/

section Names

variable {t : TopicsInfo} {n n' : List UInt8} {e e' : Int32}

theorem TopicId.unique (h : TopicId t n e) (h' : TopicId t n e') : e = e' := by
  obtain ⟨l, hl, rfl⟩ := h
  obtain ⟨l', hl', rfl⟩ := h'
  rw [hl.unique hl']

theorem TopicId.name_eq (ht : t.Tidy) (h : TopicId t n e) (h' : TopicId t n' e) : n = n' := by
  obtain ⟨l, hl, rfl⟩ := h
  obtain ⟨l', hl', heq⟩ := h'
  rw [← hl.2.2.1, ← hl'.2.2.1]
  exact ht.distinct l l' hl.1 hl'.1 heq.symm

theorem TopicId.nonneg (ht : t.Tidy) (h : TopicId t n e) : 0 ≤ e.toInt := by
  obtain ⟨l, hl, rfl⟩ := h
  exact ht.id_nonneg l hl.1

theorem TopicId.ne_of_ne (ht : t.Tidy) (h : TopicId t n e) (h' : TopicId t n' e') (hne : n ≠ n') :
    e.toInt.toNat ≠ e'.toInt.toNat := by
  intro heq
  have hnn := h.nonneg ht
  have hnn' := h'.nonneg ht
  obtain rfl : e = e' := Int32.toInt_inj.1 (by omega)
  exact hne (h.name_eq ht h')

open Classical in
/-- The names whose bits are set. -/
@[irreducible] noncomputable def marked (t : TopicsInfo) (F : EventFlags) (n : List UInt8) : Bool :=
  decide (∃ e, TopicId t n e ∧ F e.toInt.toNat = true)

open Classical in
theorem marked_iff {F : EventFlags} : marked t F n = true ↔ ∃ e, TopicId t n e ∧ F e.toInt.toNat = true := by
  unfold marked
  exact decide_eq_true_iff

theorem TopicId.marked_eq (h : TopicId t n e) (F : EventFlags) : marked t F n = F e.toInt.toNat := by
  refine Bool.eq_iff_iff.2 (marked_iff.trans ⟨?_, fun hF => ⟨e, h, hF⟩⟩)
  rintro ⟨e', he', hF⟩
  rwa [h.unique he']

/-- **A bit is a name's.** -/
theorem TopicId.marked_update (ht : t.Tidy) (h : TopicId t n e) (F : EventFlags) (b : Bool) :
    marked t (Function.update F e.toInt.toNat b) = Function.update (marked t F) n b := by
  funext n'
  by_cases hn : n' = n
  · subst hn
    rw [h.marked_eq, Function.update_self, Function.update_self]
  · rw [Function.update_of_ne hn, Bool.eq_iff_iff, marked_iff, marked_iff]
    refine exists_congr fun e' => and_congr_right fun he' => ?_
    rw [Function.update_of_ne (he'.ne_of_ne ht h hn)]

/-- A bit that is no name's. -/
theorem marked_update_of_ne {j : Nat} (h : ∀ n e, TopicId t n e → e.toInt.toNat ≠ j) (F : EventFlags) (b : Bool) :
    marked t (Function.update F j b) = marked t F := by
  funext n
  rw [Bool.eq_iff_iff, marked_iff, marked_iff]
  refine exists_congr fun e => and_congr_right fun he => ?_
  rw [Function.update_of_ne (h n e he)]

open Classical in
/-- The name that has an id. -/
noncomputable def nameOf (t : TopicsInfo) (e : Int32) : List UInt8 :=
  if h : ∃ n, TopicId t n e then h.choose else []

theorem TopicId.nameOf_eq (ht : t.Tidy) (h : TopicId t n e) : nameOf t e = n := by
  have hex : ∃ n, TopicId t n e := ⟨n, h⟩
  rw [nameOf, dif_pos hex]
  exact hex.choose_spec.name_eq ht h

end Names

end NodeBus

end MiniRos2

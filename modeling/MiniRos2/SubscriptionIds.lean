import MiniRos2.PubSub
import MiniRos2.FailedUpdate
import MiniRos2.DispatchRound
/-!
# SubscriptionIds — the subscriptions of a node, and their event ids

`createSubscriber` appends the subscription before it asks the registry for the event id, and appends the id behind
that; a write of the registry that throws in between takes nothing back.  `spinLoop` pairs the two vectors by index, so
one such failure gives every later id to the subscription before its own.  The ids stay with their subscriptions exactly
as long as the registry has room for every subscription that gets there (`paired_iff_of_run`).
-/
namespace MiniRos2

variable {D : Type}

/-- **A node's subscriptions**, with what its calls reach: its manager, and the machine's name space. -/
structure SubNode (D : Type) where
  shm_prefix_ : List UInt8
  subscriptions_ : List (Subscriber D)
  sub_topics_ : List (List UInt8)
  subscription_event_ids_ : List Int32
  shm_manager_ : Registry D
  space : ShmSpace

abbrev SubOp (D α : Type) := EStateM Abort (SubNode D) α

namespace SubNode

def lift {α : Type} (x : Except Abort α) : SubOp D α := fun n =>
  match x with
  | .ok a => .ok a n
  | .error e => .error e n

/-- `shm_manager_->x`. -/
def manager {α : Type} (x : Op D α) : SubOp D α := fun n =>
  match x n.shm_manager_ with
  | .ok a r => .ok a { n with shm_manager_ := r }
  | .error e r => .error e { n with shm_manager_ := r }

def pushSubscription (sub : Subscriber D) : SubOp D Unit :=
  modify (fun n => { n with subscriptions_ := n.subscriptions_ ++ [sub] })

def pushTopic (topic_name : List UInt8) : SubOp D Unit :=
  modify (fun n => { n with sub_topics_ := n.sub_topics_ ++ [topic_name] })

def pushEventId (event_id : Int32) : SubOp D Unit :=
  modify (fun n => { n with subscription_event_ids_ := n.subscription_event_ids_ ++ [event_id] })

/-- A subscriber that was just constructed, and subscribed. -/
def subscriber (n : SubNode D) (topic_name event_name : List UInt8) : Except Abort (Subscriber D) :=
  Subscriber.subscribe ⟨n.shm_prefix_ ++ topic_name, none, .null⟩ event_name n.space

variable [DoubleText D]

def createSubscriber (topic_name event_name : List UInt8) : SubOp D Unit := do
  let n ← get
  let full_topic := n.shm_prefix_ ++ topic_name
  let sub ← lift (n.subscriber topic_name event_name)
  pushSubscription sub
  pushTopic topic_name
  manager (addSubTopic full_topic event_name)
  let event_id ← manager (registerTopicEvent full_topic event_name)
  if 0 ≤ event_id.toInt then pushEventId event_id else pushEventId (-1)

end SubNode

section Node

variable [DoubleText D]

/-- The registry's part of a subscription. -/
def registration (full_topic event_name : List UInt8) : Op D Int32 := do
  addSubTopic full_topic event_name
  registerTopicEvent full_topic event_name

/-- The subscription a call appends, with what `registerTopicEvent` gives for its topic and event. -/
def SubNode.asked (n : SubNode D) (topic_name event_name : List UInt8) : List (Subscriber D × Option Int32) :=
  match n.subscriber topic_name event_name with
  | .ok sub => [(sub, answer (registration (n.shm_prefix_ ++ topic_name) event_name n.shm_manager_))]
  | .error _ => []

omit [DoubleText D] in
/-- A node, and for each of its subscriptions what `registerTopicEvent` gave. -/
structure Subscribed (D : Type) where
  node : SubNode D
  given : List (Subscriber D × Option Int32)

inductive SubAct (D : Type) where
  | create (topic_name event_name : List UInt8)
  | other (shm_manager_ : Registry D) (space : ShmSpace)

/-- **One call, whether it returned or threw**, or anything else that happens to the registry and to the regions. -/
inductive SubAct.Step (s : Subscribed D) : SubAct D → Subscribed D → Prop where
  | create {topic event : List UInt8} : ¬ Undefined (SubNode.createSubscriber topic event s.node) →
      Step s (.create topic event)
        ⟨finalState (SubNode.createSubscriber topic event s.node), s.given ++ s.node.asked topic event⟩
  | other {r : Registry D} {sp : ShmSpace} :
      Step s (.other r sp) ⟨{ s.node with shm_manager_ := r, space := sp }, s.given⟩

omit [DoubleText D] in
/-- A node that was just constructed. -/
def Subscribed.start (pre : List UInt8) (r : Registry D) (sp : ShmSpace) : Subscribed D :=
  ⟨⟨pre, [], [], [], r, sp⟩, []⟩

omit [DoubleText D] in
/-- **Every subscription has its own event id.** -/
structure Subscribed.Paired (s : Subscribed D) : Prop where
  length : s.node.subscriptions_.length = s.node.subscription_event_ids_.length
  result : ∀ (i : Nat) (sub : Subscriber D) (id : Int32), s.node.subscriptions_[i]? = some sub →
    s.node.subscription_event_ids_[i]? = some id → s.given[i]? = some (sub, some id)

omit [DoubleText D] in
/-- A round of `spinLoop` runs subscriptions only for their own events. -/
def Subscribed.RunsOwn (s : Subscribed D) : Prop :=
  ∀ (Task : Type) (base : Subscriber D → SubscriberBase Task) (trigger_event : EventFlags) (thread_pool_ : Bool)
    (spinning_ : Nat → Bool),
    ∀ p ∈ checkSubscriptions trigger_event thread_pool_ spinning_ (s.node.subscriptions_.map base)
      s.node.subscription_event_ids_,
    ∃ sub, (sub, some p.2) ∈ s.given ∧ (base sub).createTaskFromSubEvent = .ok p.1

/-- **The registry takes a subscription**: the node table has room for the count, and the topic table, with what the
call's two searches put in it, for its entries; and no negative id but -1 is found. -/
structure Takes (r : Registry D) (full_topic event_name : List UInt8) : Prop where
  nodes : (r.mgr.nodes_.set r.mgr.node_id_.toInt.toNat NodeInfo.countSub).Valid ∧ TOPIC_INFO_SIZE +
    (nodesText D (r.mgr.nodes_.set r.mgr.node_id_.toInt.toNat NodeInfo.countSub)).length ≤ r.shm.size
  topics : ∀ id₁ t₁ id t, FindOrCreated r.mgr.topics_ (fullName full_topic event_name) id₁ t₁ →
    FindOrCreated t₁ (fullName full_topic event_name) id t →
    -1 ≤ id.toInt ∧ (0 ≤ id.toInt → t.Valid ∧ (topicsText D t).length ≤ r.shm.size)

/-- **The call does not fail behind `subscribe`**: the region is not there, or the registry takes the subscription. -/
def Room (s : Subscribed D) : SubAct D → Prop
  | .create topic event =>
    let full_topic := s.node.shm_prefix_ ++ topic
    (fullName full_topic event).head? = some 47 → s.node.space.lookup (fullName full_topic event) ≠ none →
      Takes s.node.shm_manager_ full_topic event
  | .other _ _ => True

/-! ## When the registry takes a subscription -/

theorem writeNodesInfo_answer_iff (s : Registry D) : answer (writeNodesInfo_ s) = some () ↔
    s.mgr.nodes_.Valid ∧ TOPIC_INFO_SIZE + (nodesText D s.mgr.nodes_).length ≤ s.shm.size := by
  rcases writeNodesInfo_cases s with ⟨hv, hw, hle⟩ | ⟨hlt, e, hw⟩
  · rw [hw]
    exact iff_of_true rfl ⟨hv, hle⟩
  · rw [hw]
    refine iff_of_false (by rintro ⟨⟩) ?_
    rintro ⟨hv, hle⟩
    have := hlt hv
    omega

theorem writeTopicsInfo_answer_iff (s : Registry D) : answer (writeTopicsInfo_ s) = some () ↔
    s.mgr.topics_.Valid ∧ (topicsText D s.mgr.topics_).length ≤ s.shm.size := by
  by_cases hv : s.mgr.topics_.Valid
  · rw [writeTopicsInfo_of_valid hv]
    rcases shmWrite_cases s (topicsText D s.mgr.topics_) 0 with ⟨hle, hw⟩ | ⟨hlt, e, hw⟩
    · rw [hw]
      exact iff_of_true rfl ⟨hv, by omega⟩
    · rw [hw]
      exact iff_of_false (by rintro ⟨⟩) (by omega)
  · obtain ⟨e, hw⟩ := writeTopicsInfo_of_not_valid hv
    rw [hw]
    exact iff_of_false (by rintro ⟨⟩) (fun h => hv h.1)

/-- `addSubTopic` returns when the node table can be written, and leaves the topic table that its search made. -/
theorem addSubTopic_answer {r : Registry D} {topic event : List UInt8}
    (hdef : ¬ Undefined (addSubTopic topic event r)) :
    ∃ id t, FindOrCreated r.mgr.topics_ (fullName topic event) id t ∧
      (finalState (addSubTopic topic event r)).mgr.topics_ = t ∧
      (finalState (addSubTopic topic event r)).shm.size = r.shm.size ∧
      (answer (addSubTopic topic event r) = some () ↔
        (r.mgr.nodes_.set r.mgr.node_id_.toInt.toNat NodeInfo.countSub).Valid ∧ TOPIC_INFO_SIZE +
          (nodesText D (r.mgr.nodes_.set r.mgr.node_id_.toInt.toNat NodeInfo.countSub)).length ≤ r.shm.size) := by
  rcases addSubTopic_cases r topic event with ⟨i, id, t, hi, hfc, heq⟩ | hu
  · obtain ⟨hslot, -⟩ := arraySlot_eq_ok hi
    obtain rfl : r.mgr.node_id_.toInt.toNat = i := by omega
    obtain ⟨hm, hs⟩ := writeNodesInfo_frame ((r.mapNodes (NodesInfo.set r.mgr.node_id_.toInt.toNat
      NodeInfo.countSub)).mapTopics (fun _ => t))
    refine ⟨id, t, hfc, ?_⟩
    rw [heq, hm, hs]
    exact ⟨rfl, rfl, writeNodesInfo_answer_iff _⟩
  · exact absurd hu hdef

theorem registerTopicEvent_answer {r : Registry D} {topic event : List UInt8}
    (hdef : ¬ Undefined (registerTopicEvent topic event r)) :
    ∃ id t, FindOrCreated r.mgr.topics_ (fullName topic event) id t ∧
      ∀ id', answer (registerTopicEvent topic event r) = some id' ↔
        id' = id ∧ (0 ≤ id.toInt → t.Valid ∧ (topicsText D t).length ≤ r.shm.size) := by
  rcases registerTopicEvent_cases r topic event with ⟨id, t, hfc, heq⟩ | hu
  · refine ⟨id, t, hfc, fun id' => ?_⟩
    have hwrite := writeTopicsInfo_answer_iff (r.mapTopics (fun _ => t))
    rw [heq]
    by_cases hid : 0 ≤ id.toInt
    · rw [if_pos hid]
      cases hw : writeTopicsInfo_ (r.mapTopics (fun _ => t)) with
      | ok u r' =>
        rw [hw] at hwrite
        have hfits := hwrite.1 rfl
        rw [Op.bind_ok hw]
        constructor
        · rintro ⟨⟩
          exact ⟨rfl, fun _ => hfits⟩
        · rintro ⟨rfl, -⟩
          rfl
      | error e r' =>
        rw [hw] at hwrite
        rw [Op.bind_error hw]
        refine iff_of_false (by rintro ⟨⟩) ?_
        rintro ⟨-, hfits⟩
        cases hwrite.2 (hfits hid)
    · rw [if_neg hid]
      constructor
      · rintro ⟨⟩
        exact ⟨rfl, fun h => absurd h hid⟩
      · rintro ⟨rfl, -⟩
        rfl
  · exact absurd hu hdef

/-- **The registry's part returns an id that `createSubscriber` keeps exactly when the registry takes the
subscription.** -/
theorem registration_answer_iff {r : Registry D} {full_topic event : List UInt8}
    (hdef : ¬ Undefined (registration full_topic event r)) :
    (∃ id, answer (registration full_topic event r) = some id ∧ -1 ≤ id.toInt) ↔ Takes r full_topic event := by
  unfold registration at hdef ⊢
  cases hadd : addSubTopic full_topic event r with
  | error e r₁ =>
    rw [Op.bind_error hadd] at hdef ⊢
    have hsub : ¬ Undefined (addSubTopic full_topic event r) := by
      rw [hadd]
      exact hdef
    obtain ⟨-, -, -, -, -, hnodes⟩ := addSubTopic_answer hsub
    refine iff_of_false (by rintro ⟨id, ⟨⟩, -⟩) (fun h => ?_)
    have hans := hnodes.2 h.nodes
    rw [hadd] at hans
    cases hans
  | ok u r₁ =>
    rw [Op.bind_ok hadd] at hdef ⊢
    have hsub : ¬ Undefined (addSubTopic full_topic event r) := by
      rw [hadd]
      exact id
    obtain ⟨id₁, t₁, hfc₁, htable, hsize, hnodes⟩ := addSubTopic_answer hsub
    rw [hadd] at htable hsize hnodes
    obtain ⟨id, t, hfc, hans⟩ := registerTopicEvent_answer hdef
    rw [show r₁.mgr.topics_ = t₁ from htable] at hfc
    rw [show r₁.shm.size = r.shm.size from hsize] at hans
    constructor
    · rintro ⟨id', hid', hle⟩
      obtain ⟨rfl, hfits⟩ := (hans id').1 hid'
      refine ⟨hnodes.1 rfl, fun id₂ t₂ id₃ t₃ h₂ h₃ => ?_⟩
      obtain ⟨-, rfl⟩ := hfc₁.unique h₂
      obtain ⟨rfl, rfl⟩ := hfc.unique h₃
      exact ⟨hle, hfits⟩
    · intro h
      obtain ⟨hle, hfits⟩ := h.topics id₁ t₁ id t hfc₁ hfc
      exact ⟨id, (hans id).2 ⟨rfl, hfits⟩, hle⟩

/-! ## What a call leaves -/

omit [DoubleText D] in
/-- `subscribe` returns when the region is there, and throws otherwise. -/
theorem SubNode.subscriber_cases (n : SubNode D) (topic event : List UInt8) :
    (∃ sub, n.subscriber topic event = .ok sub ∧ (fullName (n.shm_prefix_ ++ topic) event).head? = some 47 ∧
        n.space.lookup (fullName (n.shm_prefix_ ++ topic) event) ≠ none) ∨
      ∃ e, n.subscriber topic event = .error (.throws e) ∧
        ((fullName (n.shm_prefix_ ++ topic) event).head? = some 47 →
          n.space.lookup (fullName (n.shm_prefix_ ++ topic) event) = none) := by
  generalize hname : fullName (n.shm_prefix_ ++ topic) event = name
  have hsub : n.subscriber topic event = ShmBase.ofName n.space name >>= fun shm_ =>
      shm_.open_ n.space >>= fun opened => .ok ⟨n.shm_prefix_ ++ topic, some opened, .null⟩ := by
    rw [← hname]
    rfl
  rw [hsub]
  unfold ShmBase.ofName SharedMemory.ofName
  by_cases hhead : name.head? = some 47
  · rw [if_neg (not_not.2 hhead)]
    cases hl : n.space.lookup name with
    | none => exact .inr ⟨_, rfl, fun _ => rfl⟩
    | some id =>
      refine .inl ⟨⟨n.shm_prefix_ ++ topic, some ⟨⟨name, (n.space.obj id).size, some id, false⟩, true⟩, .null⟩, ?_,
        hhead, Option.some_ne_none _⟩
      have hopen := ShmBase.open_of_lookup (b := ⟨⟨name, (n.space.obj id).size, none, false⟩, false⟩) rfl hl
      show (ShmBase.open_ _ n.space >>= fun opened => _) = _
      rw [hopen]
      rfl
  · rw [if_pos hhead]
    exact .inr ⟨_, rfl, fun h => absurd h hhead⟩

omit [DoubleText D] in
theorem SubNode.manager_bind_ok {α β : Type} {x : Op D α} {f : α → SubOp D β} {n : SubNode D} {r : Registry D} {a : α}
    (h : x n.shm_manager_ = .ok a r) : (manager x >>= f) n = f a { n with shm_manager_ := r } := by
  change EStateM.bind (manager x) f n = _
  unfold EStateM.bind manager
  rw [h]

omit [DoubleText D] in
theorem SubNode.manager_bind_error {α β : Type} {x : Op D α} {f : α → SubOp D β} {n : SubNode D} {r : Registry D}
    {e : Abort} (h : x n.shm_manager_ = .error e r) :
    (manager x >>= f) n = .error e { n with shm_manager_ := r } := by
  change EStateM.bind (manager x) f n = _
  unfold EStateM.bind manager
  rw [h]

theorem SubNode.createSubscriber_of_throws {n : SubNode D} {topic event : List UInt8} {e : Exn}
    (h : n.subscriber topic event = .error (.throws e)) :
    createSubscriber topic event n = .error (.throws e) n := by
  have hlift : ∀ f : Subscriber D → SubOp D Unit,
      (lift (n.subscriber topic event) >>= f) n = .error (.throws e) n := by
    intro f
    rw [h]
    rfl
  exact hlift _

/-- The node with one more subscription, behind the registry's part of the call. -/
def SubNode.subscribed (n : SubNode D) (sub : Subscriber D) (topic_name event_name : List UInt8) : SubNode D :=
  { n with
    subscriptions_ := n.subscriptions_ ++ [sub]
    sub_topics_ := n.sub_topics_ ++ [topic_name]
    shm_manager_ := finalState (registration (n.shm_prefix_ ++ topic_name) event_name n.shm_manager_) }

/-- **A call behind `subscribe`**: it ends as the registry's part does, and appends an id when that returned one. -/
theorem SubNode.createSubscriber_eq {n : SubNode D} {topic event : List UInt8} {sub : Subscriber D}
    (h : n.subscriber topic event = .ok sub) :
    (∃ id r, registration (n.shm_prefix_ ++ topic) event n.shm_manager_ = .ok id r ∧
        createSubscriber topic event n = .ok () { n.subscribed sub topic event with
          subscription_event_ids_ := n.subscription_event_ids_ ++ [if 0 ≤ id.toInt then id else -1] }) ∨
      ∃ e r, registration (n.shm_prefix_ ++ topic) event n.shm_manager_ = .error e r ∧
        createSubscriber topic event n = .error e (n.subscribed sub topic event) := by
  have hlift : ∀ f : Subscriber D → SubOp D Unit, (lift (n.subscriber topic event) >>= f) n = f sub n := by
    intro f
    rw [h]
    rfl
  have hcreate : createSubscriber topic event n = (manager (addSubTopic (n.shm_prefix_ ++ topic) event) >>= fun _ =>
      manager (registerTopicEvent (n.shm_prefix_ ++ topic) event) >>= fun event_id =>
        if 0 ≤ event_id.toInt then pushEventId event_id else pushEventId (-1))
      { n with subscriptions_ := n.subscriptions_ ++ [sub], sub_topics_ := n.sub_topics_ ++ [topic] } := hlift _
  rw [hcreate]
  unfold SubNode.subscribed registration
  cases hadd : addSubTopic (n.shm_prefix_ ++ topic) event n.shm_manager_ with
  | error e r =>
    rw [Op.bind_error hadd]
    exact .inr ⟨e, r, rfl, manager_bind_error hadd⟩
  | ok u r =>
    rw [Op.bind_ok hadd]
    have hmanager := fun f : Unit → SubOp D Unit => manager_bind_ok (f := f) (n := { n with
      subscriptions_ := n.subscriptions_ ++ [sub], sub_topics_ := n.sub_topics_ ++ [topic] }) hadd
    rw [hmanager]
    cases hreg : registerTopicEvent (n.shm_prefix_ ++ topic) event r with
    | error e r' => exact .inr ⟨e, r', rfl, manager_bind_error hreg⟩
    | ok id r' =>
      refine .inl ⟨id, r', rfl, (manager_bind_ok hreg).trans ?_⟩
      split <;> rfl

/-! ## The pairs -/

omit [DoubleText D] in
/-- What every step keeps: there is one record for each subscription. -/
def Subscribed.Ok (s : Subscribed D) : Prop := s.given.map Prod.fst = s.node.subscriptions_

omit [DoubleText D] in
/-- The ids are those that the registry gave. -/
theorem Subscribed.Ok.paired_iff {s : Subscribed D} (h : s.Ok) :
    s.Paired ↔ s.given.map Prod.snd = s.node.subscription_event_ids_.map some := by
  have hlen : s.given.length = s.node.subscriptions_.length := by rw [← h, List.length_map]
  have hfst : ∀ i : Nat, s.node.subscriptions_[i]? = s.given[i]?.map Prod.fst := fun i => by rw [← h, List.getElem?_map]
  constructor
  · intro hp
    apply List.ext_getElem?
    intro i
    rw [List.getElem?_map, List.getElem?_map]
    cases hi : s.node.subscription_event_ids_[i]? with
    | none =>
      have hge := List.getElem?_eq_none_iff.1 hi
      rw [List.getElem?_eq_none_iff.2 (by have := hp.length; omega)]
      rfl
    | some id =>
      obtain ⟨hlt, -⟩ := List.getElem?_eq_some_iff.1 hi
      have hlt' : i < s.node.subscriptions_.length := by rw [hp.length]; exact hlt
      rw [hp.result i _ id (List.getElem?_eq_getElem hlt') hi]
      rfl
  · intro hsnd
    constructor
    · rw [← hlen, ← List.length_map (f := Prod.snd), hsnd, List.length_map]
    · intro i sub id hsub hid
      have hsome : s.given[i]?.map Prod.snd = some (some id) := by
        rw [← List.getElem?_map, hsnd, List.getElem?_map, hid]
        rfl
      rw [hfst i] at hsub
      cases hi : s.given[i]? with
      | none =>
        rw [hi] at hsub
        cases hsub
      | some p =>
        obtain ⟨sub', res⟩ := p
        rw [hi] at hsub hsome
        cases hsub
        cases hsome
        rfl

theorem kept_eq_iff (id : Int32) : id = (if 0 ≤ id.toInt then id else -1) ↔ -1 ≤ id.toInt := by
  have hone : (-1 : Int32).toInt = -1 := rfl
  split
  · exact iff_of_true rfl (by omega)
  · rename_i hneg
    constructor
    · intro heq
      rw [heq, hone]
    · intro hle
      apply Int32.toInt_inj.1
      omega

/-- **What a call did to the two vectors.** -/
theorem SubAct.Step.create_cases {s s' : Subscribed D} {topic event : List UInt8}
    (h : SubAct.Step s (.create topic event) s') :
    (Room s (.create topic event) ∧ s'.given = s.given ∧ s'.node = s.node) ∨
      ∃ sub res, s'.given = s.given ++ [(sub, res)] ∧
        s'.node.subscriptions_ = s.node.subscriptions_ ++ [sub] ∧
        (Room s (.create topic event) ↔ ∃ id, res = some id ∧ -1 ≤ id.toInt) ∧
        s'.node.subscription_event_ids_ = s.node.subscription_event_ids_ ++
          (res.map (fun id => if 0 ≤ id.toInt then id else -1)).toList := by
  cases h with
  | create hdef =>
    unfold SubNode.asked
    rcases s.node.subscriber_cases topic event with ⟨sub, hsub, hhead, hlookup⟩ | ⟨e, hsub, hno⟩
    · rw [hsub]
      refine .inr ⟨sub, _, rfl, ?_⟩
      have hroom : Room s (.create topic event) ↔
          Takes s.node.shm_manager_ (s.node.shm_prefix_ ++ topic) event :=
        ⟨fun h => h hhead hlookup, fun h _ _ => h⟩
      rcases SubNode.createSubscriber_eq hsub with ⟨id, r, hreg, hcreate⟩ | ⟨e, r, hreg, hcreate⟩
      · have hok : ¬ Undefined (registration (s.node.shm_prefix_ ++ topic) event s.node.shm_manager_) := by
          rw [hreg]
          exact not_false
        rw [hroom, ← registration_answer_iff hok, hcreate, hreg]
        exact ⟨rfl, exists_congr fun id' => and_congr_left fun _ => by rfl, rfl⟩
      · have hok : ¬ Undefined (registration (s.node.shm_prefix_ ++ topic) event s.node.shm_manager_) := by
          rw [hcreate] at hdef
          rw [hreg]
          exact hdef
        rw [hroom, ← registration_answer_iff hok, hcreate, hreg]
        exact ⟨rfl, by rfl, (List.append_nil _).symm⟩
    · rw [SubNode.createSubscriber_of_throws hsub, hsub]
      exact .inl ⟨fun hhead hlookup => absurd (hno hhead) hlookup, List.append_nil _, rfl⟩

/-- **One step keeps the ids with their subscriptions exactly when the registry has room.** -/
theorem Subscribed.Ok.step {s s' : Subscribed D} {a : SubAct D} (h : s.Ok) (hs : SubAct.Step s a s') :
    s'.Ok ∧ (s'.Paired ↔ s.Paired ∧ Room s a) := by
  cases a with
  | other r sp =>
    cases hs
    exact ⟨h, ⟨fun hp => ⟨⟨hp.length, hp.result⟩, trivial⟩, fun hp => ⟨hp.1.length, hp.1.result⟩⟩⟩
  | create topic event =>
    rcases hs.create_cases with ⟨hroom, hgiven, hnode⟩ | ⟨sub, res, hgiven, hsubs, hroom, hids⟩
    · have hs' : s' = s := by
        cases s'
        cases s
        cases hgiven
        cases hnode
        rfl
      rw [hs']
      exact ⟨h, ⟨fun hp => ⟨hp, hroom⟩, fun hp => hp.1⟩⟩
    · have h' : s'.Ok := by
        unfold Subscribed.Ok
        rw [hgiven, hsubs, List.map_append, h]
        rfl
      refine ⟨h', ?_⟩
      rw [h'.paired_iff, h.paired_iff, hroom, hgiven, hids, List.map_append, List.map_append]
      cases res with
      | none =>
        refine iff_of_false (fun heq => ?_) (by rintro ⟨-, id, ⟨⟩, -⟩)
        -- no id was appended for the last record
        have hmem := congrArg (none ∈ ·) heq
        simp at hmem
      | some id =>
        show _ ++ [some id] = _ ++ [some (if 0 ≤ id.toInt then id else -1)] ↔ _
        rw [List.append_singleton_inj, Option.some.injEq, kept_eq_iff]
        refine and_congr_right fun _ => ⟨fun hle => ⟨id, rfl, hle⟩, ?_⟩
        rintro ⟨id', ⟨⟩, hle⟩
        exact hle

omit [DoubleText D] in
theorem Subscribed.start_paired (pre : List UInt8) (r : Registry D) (sp : ShmSpace) :
    (start pre r sp).Ok ∧ (start pre r sp).Paired :=
  ⟨rfl, rfl, fun _ _ _ h => by cases h⟩

theorem Subscribed.ok_of_run {guard : Subscribed D → SubAct D → Prop} {s₀ s : Subscribed D} {as : List (SubAct D)}
    (h₀ : s₀.Ok) (hrun : Trans.Run SubAct.Step guard s₀ as s) : s.Ok :=
  hrun.invariant h₀ (fun _ _ _ h _ hs => (h.step hs).1)

omit [DoubleText D] in
theorem mem_checkSubscriptions {Task : Type} {F : EventFlags} {pool : Bool} {p : Task × Int32} :
    ∀ {spinning : Nat → Bool} {subs : List (SubscriberBase Task)} {ids : List Int32},
      p ∈ checkSubscriptions F pool spinning subs ids →
      ∃ (i : Nat) (sub : SubscriberBase Task), subs[i]? = some sub ∧ ids[i]? = some p.2 ∧
        sub.createTaskFromSubEvent = .ok p.1
  | _, [], _, h => by cases h
  | _, _ :: _, [], h => by cases h
  | spinning, sub :: subs, id :: ids, h => by
    rcases List.mem_append.1 h with hhead | htail
    · refine ⟨0, sub, rfl, ?_⟩
      unfold checkSubscription at hhead
      cases htask : sub.createTaskFromSubEvent with
      | ok task =>
        simp only [htask] at hhead
        split at hhead <;> simp at hhead
        obtain ⟨-, -, rfl⟩ := hhead
        exact ⟨rfl, rfl⟩
      | error e =>
        simp [htask] at hhead
    · obtain ⟨i, sub', hsub', hid, htask⟩ := mem_checkSubscriptions htail
      exact ⟨i + 1, sub', hsub', hid, htask⟩

omit [DoubleText D] in
theorem Subscribed.Paired.runsOwn {s : Subscribed D} (h : s.Paired) : s.RunsOwn := by
  intro Task base F pool spinning p hp
  obtain ⟨i, b, hb, hid, htask⟩ := mem_checkSubscriptions hp
  rw [List.getElem?_map, Option.map_eq_some_iff] at hb
  obtain ⟨sub, hsub, rfl⟩ := hb
  exact ⟨sub, List.mem_of_getElem? (h.result i sub p.2 hsub hid), htask⟩

/-- **Every subscription has its own event id exactly when the registry had room in every call that got there**, after
any calls, whether they returned or threw, and whatever else happened in between; and then `spinLoop` runs
subscriptions only for their own events. -/
theorem Subscribed.paired_iff_of_run {pre : List UInt8} {r : Registry D} {sp : ShmSpace} {as : List (SubAct D)}
    {s : Subscribed D} (hrun : Trans.Run SubAct.Step Trans.free (start pre r sp) as s) :
    (s.Paired ↔ Trans.Run SubAct.Step Room (start pre r sp) as s) ∧ (s.Paired → s.RunsOwn) := by
  obtain ⟨hok, hpaired⟩ := start_paired pre r sp
  refine ⟨⟨fun hp => ?_, fun hroom => ?_⟩, Paired.runsOwn⟩
  · induction hrun with
    | nil => exact .nil
    | snoc hrun _ hs ih =>
      obtain ⟨hp', hroom⟩ := ((ok_of_run hok hrun).step hs).2.1 hp
      exact .snoc (ih hp') hroom hs
  · have hboth : s.Ok ∧ s.Paired := hroom.invariant (P := fun s => s.Ok ∧ s.Paired) ⟨hok, hpaired⟩
      (fun _ _ _ h hroom hs => ⟨(h.1.step hs).1, (h.1.step hs).2.2 ⟨h.2, hroom⟩⟩)
    exact hboth.2

end Node

/-- The names of a machine on which two topics have been published. -/
def publishedSpace : ShmSpace :=
  ⟨fun name => if name = fullName (utf8 "/0_t") (utf8 "e") then some 0
    else if name = fullName (utf8 "/0_u") (utf8 "e") then some 1 else none, fun _ => Region.fresh 1, 2⟩

/-- Two subscriptions on a new registry, and between them one whose topic nobody has published: it throws before
anything is appended. -/
theorem Subscribed.paired_of_one : ∃ s : Subscribed (List UInt8),
    Trans.Run SubAct.Step Trans.free (start (utf8 "/0_") (Registry.fresh 0) publishedSpace)
      [.create (utf8 "t") (utf8 "e"), .create (utf8 "v") (utf8 "e"), .create (utf8 "u") (utf8 "e")] s ∧
    s.node.subscription_event_ids_ = [2, 4] ∧ s.RunsOwn ∧
    Trans.Run SubAct.Step Room (start (utf8 "/0_") (Registry.fresh 0) publishedSpace)
      [.create (utf8 "t") (utf8 "e"), .create (utf8 "v") (utf8 "e"), .create (utf8 "u") (utf8 "e")] s := by
  have hok := (start_paired (utf8 "/0_") (Registry.fresh 0 : Registry (List UInt8)) publishedSpace).1
  have h₁ : SubAct.Step (start (utf8 "/0_") (Registry.fresh 0 : Registry (List UInt8)) publishedSpace)
      (.create (utf8 "t") (utf8 "e")) _ := .create (not_undefined_of_answer (a := ()) (by decide +kernel))
  have hrun₁ : Trans.Run SubAct.Step Trans.free _ _ _ := .single trivial h₁
  obtain ⟨e, he⟩ : ∃ e, SubNode.subscriber (D := List UInt8) (finalState (SubNode.createSubscriber (utf8 "t") (utf8 "e")
      (start (utf8 "/0_") (Registry.fresh 0 : Registry (List UInt8)) publishedSpace).node)) (utf8 "v") (utf8 "e") =
      .error (.throws e) := ⟨_, rfl⟩
  have hrun₂ := hrun₁.snoc (a := SubAct.create (utf8 "v") (utf8 "e")) trivial
    (.create (not_undefined_of_throws (SubNode.createSubscriber_of_throws he)))
  have hrun₃ := hrun₂.snoc (a := SubAct.create (utf8 "u") (utf8 "e")) trivial
    (.create (not_undefined_of_answer (a := ()) (by decide +kernel)))
  have hpaired : Subscribed.Paired _ := (ok_of_run hok hrun₃).paired_iff.2 (by decide +kernel)
  exact ⟨_, hrun₃, by decide +kernel, (paired_iff_of_run hrun₃).2 hpaired, (paired_iff_of_run hrun₃).1.1 hpaired⟩

/-- Sixteen nodes leave no room for the count, and the first subscription gets no id. -/
theorem Subscribed.not_always_paired : ¬ ∀ (pre : List UInt8) (r : Registry (List UInt8)) (sp : ShmSpace)
    (as : List (SubAct (List UInt8))) (s : Subscribed (List UInt8)),
    Trans.Run SubAct.Step Trans.free (start pre r sp) as s → s.Paired := by
  intro h
  let n := (start (utf8 "/0_") fullRegistry publishedSpace).node
  have hslot : nodeSlot fullRegistry.mgr.node_id_.toInt = .ok 0 := by decide
  have hshort : ShortName (fullName (utf8 "/0_t") (utf8 "e")) := ⟨_, rfl⟩
  obtain ⟨id, t, -, hfind⟩ := findOrCreate_of_room
    (s := fullRegistry.mapNodes (NodesInfo.set 0 NodeInfo.countSub)) TopicsInfo.zero_bounded hshort
    (.inr (by decide))
  obtain ⟨r₁, hadd⟩ : ∃ r₁, addSubTopic (utf8 "/0_t") (utf8 "e") fullRegistry =
      .error (.throws (.outOfRange (utf8 "Write exceeds shared memory size"))) r₁ := by
    refine ⟨(fullRegistry.mapNodes (NodesInfo.set 0 NodeInfo.countSub)).mapTopics (fun _ => t), ?_⟩
    unfold addSubTopic
    rw [modifyOwn_bind hslot, Op.bind_ok hfind]
    refine writeNodesInfo_throws_of_sixteen ?_ rfl rfl
    have hall := aliveNodes_declared (k := 16) (by decide) (by decide)
    exact hall.set 0 (by decide)
  obtain ⟨sub, hsub⟩ : ∃ sub, n.subscriber (utf8 "t") (utf8 "e") = .ok sub := ⟨_, rfl⟩
  rcases SubNode.createSubscriber_eq hsub with ⟨id, r, hreg, -⟩ | ⟨e, r, hreg, hcreate⟩
  · have hthrows := hreg.symm.trans (Op.bind_error hadd)
    cases hthrows
  · obtain ⟨rfl, -⟩ := EStateM.Result.error.inj (hreg.symm.trans (Op.bind_error hadd))
    have hstep : SubAct.Step (start (utf8 "/0_") fullRegistry publishedSpace) (.create (utf8 "t") (utf8 "e")) _ :=
      .create (not_undefined_of_throws hcreate)
    have hlength := (h _ _ _ _ _ (.single trivial hstep)).length
    rw [hcreate] at hlength
    exact Nat.one_ne_zero hlength

end MiniRos2

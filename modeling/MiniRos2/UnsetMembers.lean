import MiniRos2.FailedUpdate
import MiniRos2.NodeIds
import MiniRos2.ReadMembers
import MiniRos2.SpinLoop
/-!
# UnsetMembers — what a manager does does not depend on what was in its memory

Two managers are constructed on the same region, with whatever was in the memory of their tables, and a node is
registered and the public calls are made with both.  A manager that creates the region reads nothing, and `registerNode`
passes a `NodeInfo` with two members that it does not set: so the node's slot, and the texts, may have what was there.
As long as every step reads only what has been set, the two managers give the same answers and write the same bytes
(`same_of_run`); a registration that writes the node's own entry does so only when the two members are the same by
chance (`TwoAct.same_of_readsSet`).
-/
namespace MiniRos2

open TwoRuns (Matches outcome)

variable {D : Type}

/-- What a call gives. -/
inductive Value where
  | unit
  | int (n : Int32)
  | bool (b : Bool)
  | node (node_info : NodeInfo)
  | events (event_flag : EventFlags)

/-- **The public calls** that touch the tables, the region or the event bits; `now` is `time(nullptr)`, and
`readTopicsInfoUnlocked` does what `readTopicsInfo` does. -/
inductive PublicCall where
  | addSubTopic (topic_name event_name : List UInt8)
  | addPubTopic (topic_name event_name : List UInt8)
  | removeSubTopic (topic_name event_name : List UInt8)
  | removePubTopic (topic_name event_name : List UInt8)
  | updateNodeHeartbeat (now : Int32)
  | isNodeAlive
  | updateNodeAlive
  | updateNodeName (node_name : List UInt8)
  | removeNode
  | addNode (node_info : NodeInfo)
  | updateNodeInfo (node_info : NodeInfo)
  | getNodeInfo
  | getNextNodeId
  | getAliveNodeCount
  | getNodeCount
  | getTriggerEvent
  | readAndClearEvents
  | registerTopicEvent (topic_name event_name : List UInt8)
  | triggerEvent (topic_name event_name : List UInt8)
  | clearTriggerEvent (event_id : Int32)
  | clearAllTriggerEvents
  | isTopicExist (topic_name event_name : List UInt8)
  | setNodeId (node_id : Int32)
  | readTopicsInfo
  | syncRegistryFromShm

section Calls

def getNodeInfo : Op D NodeInfo := do
  let s ← get
  let i ← liftE (nodeSlot s.mgr.node_id_.toInt)
  return s.mgr.nodes_.nodes i

def isNodeAlive : Op D Bool := do
  let s ← get
  let i ← liftE (nodeSlot s.mgr.node_id_.toInt)
  return (s.mgr.nodes_.nodes i).is_alive

def modifyEvents (f : EventFlags → EventFlags) : Op D Unit :=
  modify (fun s => { s with event_flag_ := f s.event_flag_ })

def clearTriggerEvent (event_id : Int32) : Op D Unit :=
  if event_id.toInt < 0 ∨ (MAX_TOPICS_PER_NODE : Int) ≤ event_id.toInt then pure ()
  else modifyEvents (EventFlags.clearEvents event_id.toInt.toNat)

def clearAllTriggerEvents : Op D Unit := modifyEvents (fun _ _ => false)

variable [DoubleText D]

/-- The call, and what it gives. -/
def runCall : PublicCall → Op D Value
  | .addSubTopic topic event => do
    addSubTopic topic event
    return .unit
  | .addPubTopic topic event => do
    addPubTopic topic event
    return .unit
  | .removeSubTopic _ _ => return .unit
  | .removePubTopic _ _ => return .unit
  | .updateNodeHeartbeat now => do
    updateNodeHeartbeat now
    return .unit
  | .isNodeAlive => do
    let is_alive ← isNodeAlive
    return .bool is_alive
  | .updateNodeAlive => do
    updateNodeAlive
    return .unit
  | .updateNodeName node_name => do
    updateNodeName node_name
    return .unit
  | .removeNode => do
    removeNode
    return .unit
  | .addNode node_info => do
    addNode node_info
    return .unit
  | .updateNodeInfo node_info => do
    updateNodeInfo node_info
    return .unit
  | .getNodeInfo => do
    let node_info ← getNodeInfo
    return .node node_info
  | .getNextNodeId => return .int (getNextNodeId (← get).mgr.nodes_)
  | .getAliveNodeCount => return .int (← get).mgr.nodes_.alive_node_count
  | .getNodeCount => return .int (← get).mgr.nodes_.nodes_count
  | .getTriggerEvent => return .events (← get).event_flag_
  | .readAndClearEvents => do
    let event_flag := (← get).event_flag_
    clearAllTriggerEvents
    return .events event_flag
  | .registerTopicEvent topic event => do
    let event_id ← registerTopicEvent topic event
    return .int event_id
  | .triggerEvent topic event => do
    triggerEvent topic event
    return .unit
  | .clearTriggerEvent event_id => do
    clearTriggerEvent event_id
    return .unit
  | .clearAllTriggerEvents => do
    clearAllTriggerEvents
    return .unit
  | .isTopicExist topic event => do
    let exist ← isTopicExist topic event
    return .bool exist
  | .setNodeId node_id => do
    setNodeId node_id
    return .unit
  | .readTopicsInfo => do
    readTopicsInfo_
    return .unit
  | .syncRegistryFromShm => do
    syncRegistryFromShm
    return .unit

end Calls

/-! ## Two managers -/

/-- Two managers, what their calls gave, and which of their members have been set. -/
structure TwoManagers (D : Type) where
  left : Registry D
  right : Registry D
  leftOut : List (Except Abort Value)
  rightOut : List (Except Abort Value)
  known : Known

/-- A registration is with `x` on the left, and on the right with whatever the two members have there. -/
inductive TwoAct where
  | registerNode (x : NewNode) (pub_topic_count sub_topic_count : Int32)
  | call (c : PublicCall)

/-- A registration gives the node's id. -/
def registered (D : Type) [DoubleText D] (x : NewNode) : Op D Value := do
  registerNode x
  return .int (← get).mgr.node_id_

/-- The manager's own slot. -/
def ShmManager.ownSlot (m : ShmManager) : Nat := m.node_id_.toInt.toNat

/-! ## What a step sets -/

/-- A node's entry behind `registerNode`: the two members that it does not set are as good as set when they are the same
on both sides. -/
def Known.register (K : Known) (node_id_ : Int32) (x : NewNode) (pub_topic_count sub_topic_count : Int32) : Known :=
  K.setNode node_id_.toInt.toNat fun f =>
    (f = .pub_topic_count → x.pub_topic_count = pub_topic_count) ∧
      (f = .sub_topic_count → x.sub_topic_count = sub_topic_count)

/-- Behind `addPubTopic`, which takes the slot behind the search's last. -/
def Known.publish (K : Known) (u : TopicsInfo) (full_name : List UInt8) : Known :=
  { K.search u full_name with
    topic := fun i => (K.search u full_name).topic i ∨ ∃ id u', FindOrCreated u full_name id u' ∧ i = u'.count }

/-- Every slot that the scan looks at is known to be free or not. -/
def Known.Scans (K : Known) (n : NodesInfo) : Prop :=
  ∀ i, i < MAX_NODE_COUNT → (∀ j, j < i → (n.nodes j).is_alive = true) → K.node i .is_alive

section Sets

variable [DoubleText D]

def PublicCall.sets (K : Known) (s : Registry D) : PublicCall → Known
  | .addSubTopic topic event => K.search s.mgr.topics_ (fullName topic event)
  | .addPubTopic topic event => K.publish s.mgr.topics_ (fullName topic event)
  | .updateNodeHeartbeat _ => K.setField s.mgr.ownSlot .last_heartbeat
  | .updateNodeAlive => K.setField s.mgr.ownSlot .is_alive
  | .updateNodeName _ => K.setField s.mgr.ownSlot .node_name
  | .removeNode => K.setField s.mgr.ownSlot .is_alive
  | .addNode _ => K.setNode s.mgr.ownSlot fun _ => True
  | .updateNodeInfo _ => K.setNode s.mgr.ownSlot fun _ => True
  | .registerTopicEvent topic event => K.search s.mgr.topics_ (fullName topic event)
  | .readTopicsInfo => K.readTopics D s.shm
  | .syncRegistryFromShm => K.read D s.shm
  | _ => K

/-- **The call reads only what has been set**, or sets it first. -/
def PublicCall.ReadsSet (K : Known) (s : Registry D) : PublicCall → Prop
  | .addSubTopic topic event =>
    K.Searches s.mgr.topics_ (fullName topic event) ∧ K.WritesNodes s.mgr.nodes_.nodes_count
  | .addPubTopic topic event =>
    K.Searches s.mgr.topics_ (fullName topic event) ∧ K.WritesNodes s.mgr.nodes_.nodes_count ∧
      ∀ id u, FindOrCreated s.mgr.topics_ (fullName topic event) id u → ∀ i, i < u.count →
        (K.search s.mgr.topics_ (fullName topic event)).topic i
  | .updateNodeHeartbeat now => ((updateNodeHeartbeat now).sets K s).WritesNodes s.mgr.nodes_.nodes_count
  | .isNodeAlive => K.node s.mgr.ownSlot .is_alive
  | .updateNodeAlive => (updateNodeAlive.sets K s).WritesNodes s.mgr.nodes_.nodes_count
  | .updateNodeName node_name => ((updateNodeName node_name).sets K s).WritesNodes s.mgr.nodes_.nodes_count
  | .removeNode => (removeNode.sets K s).WritesNodes (s.mgr.nodes_.nodes_count - 1)
  | .addNode node_info => ((addNode node_info).sets K s).WritesNodes (s.mgr.nodes_.nodes_count + 1)
  | .updateNodeInfo node_info => ((updateNodeInfo node_info).sets K s).WritesNodes s.mgr.nodes_.nodes_count
  | .getNodeInfo => ∀ f, K.node s.mgr.ownSlot f
  | .getNextNodeId => K.Scans s.mgr.nodes_
  | .getAliveNodeCount => K.alive_node_count
  | .getNodeCount => K.nodes_count
  | .registerTopicEvent topic event =>
    K.Searches s.mgr.topics_ (fullName topic event) ∧
      ∀ id u, FindOrCreated s.mgr.topics_ (fullName topic event) id u → 0 ≤ id.toInt →
        (K.search s.mgr.topics_ (fullName topic event)).WritesTopics u.topics_count
  | .triggerEvent topic event => K.Searches s.mgr.topics_ (fullName topic event)
  | .isTopicExist topic event => K.Searches s.mgr.topics_ (fullName topic event)
  | _ => True

namespace TwoAct

def left : TwoAct → Op D Value
  | .registerNode x _ _ => registered D x
  | .call c => runCall c

def right : TwoAct → Op D Value
  | .registerNode x pub_topic_count sub_topic_count =>
    registered D { x with pub_topic_count := pub_topic_count, sub_topic_count := sub_topic_count }
  | .call c => runCall c

def sets (K : Known) (s : Registry D) : TwoAct → Known
  | .registerNode x pub_topic_count sub_topic_count =>
    let node_id_ := getNextNodeId s.mgr.nodes_
    if (MAX_NODE_COUNT : Int) ≤ s.mgr.nodes_.alive_node_count.toInt ∨ node_id_ = -1 then K
    else K.register node_id_ x pub_topic_count sub_topic_count
  | .call c => c.sets K s

/-- A registration reads the count of live nodes and, when there is room, the slots up to the first free one; then it
writes the nodes' text. -/
def ReadsSet (K : Known) (s : Registry D) : TwoAct → Prop
  | .registerNode x pub_topic_count sub_topic_count =>
    let node_id_ := getNextNodeId s.mgr.nodes_
    K.alive_node_count ∧ (¬ (MAX_NODE_COUNT : Int) ≤ s.mgr.nodes_.alive_node_count.toInt → K.Scans s.mgr.nodes_ ∧
      (node_id_ ≠ -1 →
        (K.register node_id_ x pub_topic_count sub_topic_count).WritesNodes (s.mgr.nodes_.nodes_count + 1)))
  | .call c => c.ReadsSet K s

/-- **A registration that writes its own entry meets it only when the two members are the same on both sides.** -/
theorem same_of_readsSet {K : Known} {s : Registry D} {x : NewNode} {pub sub : Int32}
    (h : (registerNode x pub sub).ReadsSet K s)
    (hroom : ¬ (MAX_NODE_COUNT : Int) ≤ s.mgr.nodes_.alive_node_count.toInt) (hid : getNextNodeId s.mgr.nodes_ ≠ -1)
    (hin : (getNextNodeId s.mgr.nodes_).toInt.toNat < (s.mgr.nodes_.nodes_count + 1).toInt.toNat) :
    x.pub_topic_count = pub ∧ x.sub_topic_count = sub := by
  have hset := ((h.2 hroom).2 hid).node _ hin
  unfold Known.register Known.setNode at hset
  simp only [Function.update_self] at hset
  exact ⟨(hset .pub_topic_count).1 rfl, (hset .sub_topic_count).2 rfl⟩

end TwoAct

end Sets

/-! ## The calls -/

/-- Both calls end alike, and the managers agree on `K` then. -/
abbrev Together {α : Type} (K : Known) (r r' : EStateM.Result Abort (Registry D) α) : Prop :=
  Alike (Agree K) (fun _ => Agree K) r r'

section Together

variable {K : Known} {s t : Registry D} {α : Type}

theorem Together.value {x y : Op D α} (h : Together K (x s) (y t)) (f : α → Value) :
    Together K ((x >>= fun a => pure (f a)) s) ((y >>= fun a => pure (f a)) t) :=
  Matches.bind h fun _ _ _ _ h' => Matches.pure h'

/-- A value that is read from the members. -/
theorem Agree.value (h : Agree K s t) {f : Registry D → Value} (hf : f s = f t) :
    Together K ((get >>= fun s => pure (f s) : Op D Value) s) ((get >>= fun s => pure (f s) : Op D Value) t) := ⟨hf, h⟩

theorem ownSlot_of_nodeSlot {i : Nat} (h : nodeSlot s.mgr.node_id_.toInt = .ok i) : s.mgr.ownSlot = i := by
  obtain ⟨hi, -⟩ := arraySlot_eq_ok h
  unfold ShmManager.ownSlot
  omega

/-- A value that is read from the manager's own entry. -/
theorem Agree.ownEntry (h : Agree K s t) {f : NodeInfo → α}
    (hf : f (s.mgr.nodes_.nodes s.mgr.ownSlot) = f (t.mgr.nodes_.nodes s.mgr.ownSlot)) :
    Together K ((get >>= fun s => liftE (nodeSlot s.mgr.node_id_.toInt) >>= fun i => pure (f (s.mgr.nodes_.nodes i))) s)
      ((get >>= fun s => liftE (nodeSlot s.mgr.node_id_.toInt) >>= fun i => pure (f (s.mgr.nodes_.nodes i))) t) := by
  rw [Op.get_bind, Op.get_bind, ← h.node_id]
  refine Alike.liftE_bind rfl (fun e he => .inl (arraySlot_error he)) fun i hi => ⟨?_, h⟩
  rw [← ownSlot_of_nodeSlot hi]
  exact hf

theorem Agree.modifyEvents (h : Agree K s t) (f : EventFlags → EventFlags) :
    Together K (modifyEvents f s) (modifyEvents f t) :=
  ⟨rfl, { h with event_flag := congrArg f h.event_flag }⟩

theorem Agree.triggerEventById (h : Agree K s t) (event_id : Int32) :
    Together K (triggerEventById_ event_id s) (triggerEventById_ event_id t) := by
  unfold triggerEventById_
  split
  · exact Matches.pure h
  · exact h.modifyEvents fun event_flag => Function.update event_flag event_id.toInt.toNat true

theorem Agree.clearTriggerEvent (h : Agree K s t) (event_id : Int32) :
    Together K (clearTriggerEvent event_id s) (clearTriggerEvent event_id t) := by
  unfold MiniRos2.clearTriggerEvent
  split
  · exact Matches.pure h
  · exact h.modifyEvents _

/-! ### Lookups -/

theorem Agree.isTopicExist (h : Agree K s t) {topic event : List UInt8}
    (hs : K.Searches s.mgr.topics_ (fullName topic event)) :
    Together K (isTopicExist topic event s) (isTopicExist topic event t) := by
  unfold MiniRos2.isTopicExist
  rw [Op.get_bind, Op.get_bind]
  exact Alike.liftE_bind (h.findTopic_eq hs) (fun _ he => .inl (findTopic_error he)) fun i _ => Matches.pure h

theorem Agree.getTopicEventId (h : Agree K s t) {topic event : List UInt8}
    (hs : K.Searches s.mgr.topics_ (fullName topic event)) :
    Together K (getTopicEventId_ topic event s) (getTopicEventId_ topic event t) := by
  unfold getTopicEventId_
  rw [Op.get_bind, Op.get_bind]
  refine Alike.liftE_bind (h.findTopic_eq hs) (fun e he => .inl (findTopic_error he)) fun r hr => ?_
  cases r with
  | some i => exact ⟨congrArg TopicInfo.event_id_ (h.topic i (hs.of_found hr)), h⟩
  | none => exact Matches.pure h

theorem Agree.triggerEvent (h : Agree K s t) {topic event : List UInt8}
    (hs : K.Searches s.mgr.topics_ (fullName topic event)) :
    Together K (triggerEvent topic event s) (triggerEvent topic event t) := by
  refine Matches.bind (h.getTopicEventId hs) fun event_id s' t' _ h' => ?_
  split
  · exact h'.triggerEventById event_id
  · exact Matches.pure h'

theorem Agree.getNextNodeId_eq (h : Agree K s t) (hscan : K.Scans s.mgr.nodes_) :
    getNextNodeId s.mgr.nodes_ = getNextNodeId t.mgr.nodes_ := by
  unfold getNextNodeId
  rw [find?_range_congr fun i hi hbefore => ?_]
  have hset : K.node i .is_alive := hscan i hi fun j hj => by simpa using hbefore j hj
  have hsame : (s.mgr.nodes_.nodes i).is_alive = (t.mgr.nodes_.nodes i).is_alive := h.node i .is_alive hset
  rw [hsame]

theorem findOrCreate_eq_ok {topic event : List UInt8} {id : Int32} {s' : Registry D}
    (h : findOrCreateTopicEvent_ topic event s = .ok id s') :
    ∃ u, FindOrCreated s.mgr.topics_ (fullName topic event) id u ∧ s' = s.mapTopics fun _ => u := by
  rcases findOrCreate_cases topic event s with ⟨id', u, hfc, hok⟩ | ⟨s'', herr⟩
  · cases h.symm.trans hok
    exact ⟨u, hfc, rfl⟩
  · cases h.symm.trans herr

/-! ### Nodes -/

theorem NodeInfo.countSub_same (f : NodeField) (x y : NodeInfo) (h : f.Same x y) : f.Same x.countSub y.countSub := by
  unfold countSub
  cases f <;> split_ifs <;> simp_all [NodeField.Same]

theorem NodeInfo.countPub_same (f : NodeField) (x y : NodeInfo) (h : f.Same x y) : f.Same x.countPub y.countPub := by
  unfold countPub
  cases f <;> split_ifs <;> simp_all [NodeField.Same]

theorem setNodeId_eq (node_id : Int32) (s : Registry D) : setNodeId node_id s = .ok () (s.withId node_id) := rfl

theorem NewNode.info_same (x : NewNode) (pub sub node_id_ : Int32) (node_name : CName) (f : NodeField)
    (hf : (f = .pub_topic_count → x.pub_topic_count = pub) ∧ (f = .sub_topic_count → x.sub_topic_count = sub)) :
    f.Same (x.info node_id_ node_name)
      (({ x with pub_topic_count := pub, sub_topic_count := sub } : NewNode).info node_id_ node_name) := by
  cases f with
  | pub_topic_count => exact hf.1 rfl
  | sub_topic_count => exact hf.2 rfl
  | _ => rfl

variable [DoubleText D]

theorem Agree.writeField (h : Agree K s t) {f : NodeField} {g : NodeInfo → NodeInfo} (hg : f.Assigns g)
    (hw : (K.setField s.mgr.ownSlot f).WritesNodes s.mgr.nodes_.nodes_count) :
    Together (K.setField s.mgr.ownSlot f) ((modifyOwn (fun i => NodesInfo.set i g) >>= fun _ => writeNodesInfo_) s)
      ((modifyOwn (fun i => NodesInfo.set i g) >>= fun _ => writeNodesInfo_) t) := by
  refine h.modifyOwn_bind fun i hi => ?_
  rw [ownSlot_of_nodeSlot hi] at hw ⊢
  exact (h.setField i hg).writeNodesInfo hw

theorem Agree.updateNodeName (h : Agree K s t) {node_name : List UInt8}
    (hw : (K.setField s.mgr.ownSlot .node_name).WritesNodes s.mgr.nodes_.nodes_count) :
    Together (K.setField s.mgr.ownSlot .node_name) (updateNodeName node_name s) (updateNodeName node_name t) :=
  Alike.liftE_bind rfl (fun _ he => .inl (strcpy_error he)) fun name _ =>
    h.writeField (NodeField.assigns_node_name name) hw

theorem Agree.updateNodeInfo (h : Agree K s t) {node_info : NodeInfo}
    (hw : (K.setNode s.mgr.ownSlot fun _ => True).WritesNodes s.mgr.nodes_.nodes_count) :
    Together (K.setNode s.mgr.ownSlot fun _ => True) (updateNodeInfo node_info s) (updateNodeInfo node_info t) := by
  refine h.modifyOwn_bind fun i hi => ?_
  rw [ownSlot_of_nodeSlot hi] at hw ⊢
  exact (h.setNode i fun f _ => .refl node_info f).writeNodesInfo hw

/-- `addNode` of two entries that agree on `P`. -/
theorem Agree.addNode (h : Agree K s t) {x y : NodeInfo} {P : NodeField → Prop} (hxy : ∀ f, P f → f.Same x y)
    (hw : (K.setNode s.mgr.ownSlot P).WritesNodes (s.mgr.nodes_.nodes_count + 1)) :
    Together (K.setNode s.mgr.ownSlot P) (addNode x s) (addNode y t) := by
  refine h.modifyOwn_bind fun i hi => ?_
  rw [ownSlot_of_nodeSlot hi] at hw ⊢
  have h₁ := h.setNode i (P := P) (f := fun _ => x) (g := fun _ => y) hxy
  rw [Op.bind_ok (modifyNodes_eq _ _), Op.bind_ok (modifyNodes_eq _ _)]
  refine Agree.writeNodesInfo ?_ hw
  exact h₁.mapNodes (fun hK => congrArg (· + 1) (h₁.nodes_count hK))
    (fun hK => congrArg (· + 1) (h₁.alive_node_count hK)) h₁.node rfl rfl

theorem Agree.removeNode (h : Agree K s t)
    (hw : (K.setField s.mgr.ownSlot .is_alive).WritesNodes (s.mgr.nodes_.nodes_count - 1)) :
    Together (K.setField s.mgr.ownSlot .is_alive) (removeNode s) (removeNode t) := by
  refine h.modifyOwn_bind fun i hi => ?_
  rw [ownSlot_of_nodeSlot hi] at hw ⊢
  have h₁ := h.setField i (NodeField.assigns_is_alive false)
  rw [Op.bind_ok (modifyNodes_eq _ _), Op.bind_ok (modifyNodes_eq _ _)]
  refine Matches.bind (Agree.writeNodesInfo ?_ hw) fun _ s' t' _ h' => h'.triggerEventById _
  exact h₁.mapNodes (fun hK => congrArg (· - 1) (h₁.nodes_count hK))
    (fun hK => congrArg (· - 1) (h₁.alive_node_count hK)) h₁.node rfl rfl

/-! ### Topics -/

theorem Agree.addSubTopic (h : Agree K s t) {topic event : List UInt8}
    (hs : K.Searches s.mgr.topics_ (fullName topic event)) (hw : K.WritesNodes s.mgr.nodes_.nodes_count) :
    Together (K.search s.mgr.topics_ (fullName topic event)) (addSubTopic topic event s)
      (addSubTopic topic event t) := by
  refine h.modifyOwn_bind fun i hi => ?_
  have h₁ := h.keepNode i NodeInfo.countSub_same
  refine Matches.bind (h₁.findOrCreate hs) fun id s' t' hrun h' => h'.writeNodesInfo ?_
  obtain ⟨u, -, rfl⟩ := findOrCreate_eq_ok hrun
  exact ⟨hw.nodes_count, hw.alive_node_count, hw.node⟩

theorem Agree.registerTopicEvent (h : Agree K s t) {topic event : List UInt8}
    (hs : K.Searches s.mgr.topics_ (fullName topic event))
    (hw : ∀ id u, FindOrCreated s.mgr.topics_ (fullName topic event) id u → 0 ≤ id.toInt →
      (K.search s.mgr.topics_ (fullName topic event)).WritesTopics u.topics_count) :
    Together (K.search s.mgr.topics_ (fullName topic event)) (registerTopicEvent topic event s)
      (registerTopicEvent topic event t) := by
  refine Matches.bind (h.findOrCreate hs) fun id s' t' hrun h' => ?_
  obtain ⟨u, hfc, rfl⟩ := findOrCreate_eq_ok hrun
  by_cases hid : 0 ≤ id.toInt
  · rw [if_pos hid]
    exact Matches.bind (h'.writeTopicsInfo (hw id u hfc hid)) fun _ _ _ _ h'' => Matches.pure h''
  · rw [if_neg hid]
    exact Matches.pure h'

theorem writeTopicsInfo_mgr {s' : Registry D} (h : writeTopicsInfo_ s = .ok () s') : s'.mgr = s.mgr := by
  have hm := (writeTopicsInfo_frame s).1
  rwa [h] at hm

theorem Agree.addPubTopic (h : Agree K s t) {topic event : List UInt8}
    (hs : K.Searches s.mgr.topics_ (fullName topic event)) (hn : K.WritesNodes s.mgr.nodes_.nodes_count)
    (hw : ∀ id u, FindOrCreated s.mgr.topics_ (fullName topic event) id u → ∀ i, i < u.count →
      (K.search s.mgr.topics_ (fullName topic event)).topic i) :
    Together (K.publish s.mgr.topics_ (fullName topic event)) (addPubTopic topic event s)
      (addPubTopic topic event t) := by
  refine h.modifyOwn_bind fun i hi => ?_
  have h₁ := h.keepNode i NodeInfo.countPub_same
  refine Matches.bind (h₁.findOrCreate hs) fun id s' t' hrun h' => ?_
  obtain ⟨u, hfc, rfl⟩ := findOrCreate_eq_ok hrun
  have hcount := h'.topics_count hs.topics_count
  refine Alike.liftE_bind rfl (fun e he => .inl (strcpy_error he)) fun name _ => ?_
  rw [Op.get_bind, Op.get_bind, ← hcount]
  refine Alike.liftE_bind rfl (fun e he => .inl (arraySlot_error he)) fun j hj => ?_
  rw [Op.bind_ok (modifyTopics_eq _ _), Op.bind_ok (modifyTopics_eq _ _), Op.bind_ok (modifyTopics_eq _ _),
    Op.bind_ok (modifyTopics_eq _ _)]
  obtain ⟨hslot, hlt⟩ := arraySlot_eq_ok hj
  have hslot : u.topics_count.toInt = j := hslot
  have hj : j = u.count := by
    unfold TopicsInfo.count
    omega
  have hput := (h'.setTopic j (f := fun _ => ⟨name, id⟩) (g := fun _ => _) rfl).countTopic
  have h₂ : Agree (K.publish s.mgr.topics_ (fullName topic event)) _ _ := hput.weakenTopics fun k hk => by
    rcases hk with hk | ⟨id', u', hfc', rfl⟩
    · exact .inl hk
    · obtain ⟨-, rfl⟩ := hfc.unique hfc'
      exact .inr hj.symm
  refine Matches.bind (h₂.writeTopicsInfo ⟨hs.topics_count, fun k hk => ?_⟩) fun _ s'' t'' hrun h'' =>
    h''.writeNodesInfo ?_
  · have hle : u.topics_count.toInt ≤ MAX_TOPICS_PER_NODE := by omega
    have hk : k < (u.topics_count + 1).toInt.toNat := hk
    rw [TopicsInfo.toInt_count_succ hle] at hk
    by_cases hlast : k = u.count
    · exact .inr ⟨id, u, hfc, hlast⟩
    · exact .inl (hw id u hfc k (by omega))
  · rw [writeTopicsInfo_mgr hrun]
    exact ⟨hn.nodes_count, hn.alive_node_count, hn.node⟩

/-! ### Registration -/

/-- **The two registrations**: the entries differ in what was in the two members only. -/
theorem Agree.registerNode (h : Agree K s t) (x : NewNode) (pub sub : Int32)
    (hr : (TwoAct.registerNode x pub sub).ReadsSet K s) :
    Together ((TwoAct.registerNode x pub sub).sets K s) (registerNode x s)
      (registerNode { x with pub_topic_count := pub, sub_topic_count := sub } t) := by
  obtain ⟨hK, hr⟩ := hr
  have halive := h.alive_node_count hK
  have hsets : (TwoAct.registerNode x pub sub).sets K s =
      if (MAX_NODE_COUNT : Int) ≤ s.mgr.nodes_.alive_node_count.toInt ∨ getNextNodeId s.mgr.nodes_ = -1 then K
      else K.register (getNextNodeId s.mgr.nodes_) x pub sub := rfl
  unfold MiniRos2.registerNode
  rw [hsets, Op.get_bind, Op.get_bind, ← halive]
  by_cases hmax : (MAX_NODE_COUNT : Int) ≤ s.mgr.nodes_.alive_node_count.toInt
  · rw [if_pos hmax, if_pos hmax, if_pos (.inl hmax)]
    exact Matches.pure h
  obtain ⟨hscan, hw⟩ := hr hmax
  rw [if_neg hmax, if_neg hmax, ← h.getNextNodeId_eq hscan]
  clear hsets
  generalize getNextNodeId s.mgr.nodes_ = node_id_ at hw ⊢
  have h₁ : Agree K (s.withId node_id_) (t.withId node_id_) := { h with node_id := rfl }
  rw [Op.bind_ok (setNodeId_eq node_id_ s), Op.bind_ok (setNodeId_eq node_id_ t)]
  by_cases hid : node_id_ = -1
  · rw [if_pos hid, if_pos hid, if_pos (.inr hid)]
    exact Matches.pure h₁
  rw [if_neg hid, if_neg hid, if_neg (not_or.2 ⟨hmax, hid⟩)]
  refine Alike.liftE_bind rfl (fun _ he => .inl (strcpy_error he)) fun node_name _ => ?_
  exact h₁.addNode (x.info_same pub sub node_id_ node_name) (hw hid)

theorem Agree.registered (h : Agree K s t) (x : NewNode) (pub sub : Int32)
    (hr : (TwoAct.registerNode x pub sub).ReadsSet K s) :
    Together ((TwoAct.registerNode x pub sub).sets K s) ((TwoAct.registerNode x pub sub).left s)
      ((TwoAct.registerNode x pub sub).right t) :=
  Matches.bind (h.registerNode x pub sub hr) fun _ _ _ _ h' => h'.value (congrArg Value.int h'.node_id)

/-! ## Every step -/

theorem Agree.runCall (h : Agree K s t) (c : PublicCall) (hr : c.ReadsSet K s) :
    Together (c.sets K s) (runCall c s) (runCall c t) := by
  cases c with
  | addSubTopic topic event => exact Together.value (h.addSubTopic hr.1 hr.2) _
  | addPubTopic topic event => exact Together.value (h.addPubTopic hr.1 hr.2.1 hr.2.2) _
  | removeSubTopic topic event => exact Matches.pure h
  | removePubTopic topic event => exact Matches.pure h
  | updateNodeHeartbeat now => exact Together.value (h.writeField (NodeField.assigns_last_heartbeat now) hr) _
  | isNodeAlive => exact Together.value (h.ownEntry (h.node _ .is_alive hr)) _
  | updateNodeAlive => exact Together.value (h.writeField (NodeField.assigns_is_alive true) hr) _
  | updateNodeName node_name => exact Together.value (h.updateNodeName hr) _
  | removeNode => exact Together.value (h.removeNode hr) _
  | addNode node_info => exact Together.value (h.addNode (fun f _ => .refl node_info f) hr) _
  | updateNodeInfo node_info => exact Together.value (h.updateNodeInfo hr) _
  | getNodeInfo => exact Together.value (h.ownEntry (f := id) (NodeInfo.eq_of_same fun f => h.node _ f (hr f))) _
  | getNextNodeId => exact h.value (congrArg Value.int (h.getNextNodeId_eq hr))
  | getAliveNodeCount => exact h.value (congrArg Value.int (h.alive_node_count hr))
  | getNodeCount => exact h.value (congrArg Value.int (h.nodes_count hr))
  | getTriggerEvent => exact h.value (congrArg Value.events h.event_flag)
  | readAndClearEvents => exact ⟨congrArg Value.events h.event_flag, { h with event_flag := rfl }⟩
  | registerTopicEvent topic event => exact Together.value (h.registerTopicEvent hr.1 hr.2) _
  | triggerEvent topic event => exact Together.value (h.triggerEvent hr) _
  | clearTriggerEvent event_id => exact Together.value (h.clearTriggerEvent event_id) _
  | clearAllTriggerEvents => exact Together.value (h.modifyEvents fun _ _ => false) _
  | isTopicExist topic event => exact Together.value (h.isTopicExist hr) _
  | setNodeId node_id =>
    have h₁ : Agree K (s.withId node_id) (t.withId node_id) := { h with node_id := rfl }
    exact ⟨rfl, h₁⟩
  | readTopicsInfo => exact Together.value h.readTopicsInfo _
  | syncRegistryFromShm => exact Together.value h.syncRegistry _

/-- **Every step** ends alike on both sides. -/
theorem Agree.act (h : Agree K s t) (a : TwoAct) (hr : a.ReadsSet K s) :
    Together (a.sets K s) (a.left s) (a.right t) := by
  cases a with
  | registerNode x pub sub => exact h.registered x pub sub hr
  | call c => exact h.runCall c hr

end Together

/-! ## Runs -/

/-- The call returned or threw. -/
def Ends {σ α : Type} (r : EStateM.Result Abort σ α) : Prop := ∀ e s, r = .error e s → ¬ e.Lost

theorem ends_ok {σ α : Type} (a : α) (s : σ) : Ends (.ok a s) := nofun

theorem Together.final {α : Type} {K : Known} {r r' : EStateM.Result Abort (Registry D) α} (h : Together K r r')
    (hr : Ends r) : outcome r = outcome r' ∧ Agree K (finalState r) (finalState r') := by
  refine ⟨Matches.outcome_eq h hr, ?_⟩
  cases r with
  | ok a s =>
    cases r' with
    | ok b t => exact h.2
    | error e t => exact h.elim
  | error e s =>
    have hkept := hr e s rfl
    cases r' with
    | ok b t => exact absurd h hkept
    | error e' t => exact (h.resolve_left hkept).2

/-- A manager that was just constructed, with `nodes_` and `topics_` in its memory. -/
def constructed (nodes_ : NodesInfo) (topics_ : TopicsInfo) (shm : Region) (event_flag_ : EventFlags) : Registry D :=
  ⟨⟨-1, nodes_, topics_⟩, shm, event_flag_⟩

namespace TwoManagers

/-- The answers and the bytes are the same. -/
structure Same (p : TwoManagers D) : Prop where
  outputs : p.leftOut = p.rightOut
  shm : p.left.shm = p.right.shm

variable [DoubleText D]

/-- Behind a step. -/
def next (p : TwoManagers D) (a : TwoAct) : TwoManagers D :=
  ⟨finalState (a.left p.left), finalState (a.right p.right), p.leftOut ++ [outcome (a.left p.left)],
    p.rightOut ++ [outcome (a.right p.right)], a.sets p.known p.left⟩

/-- **One step of both managers.** -/
def Step (p : TwoManagers D) (a : TwoAct) (q : TwoManagers D) : Prop := Ends (a.left p.left) ∧ q = p.next a

/-- **The step reads only what has been set.** -/
def ReadsSet (p : TwoManagers D) (a : TwoAct) : Prop := a.ReadsSet p.known p.left

/-- The invariant: nothing differs but what has not been set. -/
structure Related (p : TwoManagers D) : Prop extends p.Same where
  agree : Agree p.known p.left p.right

theorem Related.next {p : TwoManagers D} (h : p.Related) {a : TwoAct} (hr : p.ReadsSet a) (ha : Ends (a.left p.left)) :
    (p.next a).Related := by
  obtain ⟨hout, hagree⟩ := (h.agree.act a hr).final ha
  refine ⟨⟨?_, hagree.shm⟩, hagree⟩
  show p.leftOut ++ [outcome (a.left p.left)] = p.rightOut ++ [outcome (a.right p.right)]
  rw [h.outputs, hout]

omit [DoubleText D] in
theorem ends_of_answer {α : Type} {r : EStateM.Result Abort (Registry D) α} (h : (answer r).isSome = true) :
    Ends r := by
  cases r with
  | ok a s => exact ends_ok a s
  | error e s => cases h

theorem Run.next {p q : TwoManagers D} {as : List TwoAct} {a : TwoAct} (h : Trans.Run Step ReadsSet p as q)
    (hr : q.ReadsSet a) (ha : (answer (a.left q.left)).isSome = true) :
    Trans.Run Step ReadsSet p (as ++ [a]) (q.next a) := h.snoc hr ⟨ends_of_answer ha, rfl⟩

end TwoManagers

/-- A table with other values in its memory, and a manager on an empty region that has it. -/
def crowded : NodesInfo := ⟨0, 16, fun _ => ⟨7, 7, 7, 7, true, 7, CName.empty⟩⟩

def emptied (nodes_ : NodesInfo) : Registry (List UInt8) :=
  constructed nodes_ TopicsInfo.zero (Region.fresh (sizeofShmHead + MAX_SHM_MANGER_SIZE)) fun _ => false

namespace TwoManagers

/-- Two managers on a region that is there and empty, with different tables in their memory. -/
def unlike : TwoManagers (List UInt8) :=
  ⟨((emptied NodesInfo.zero).mapTopics fun t => { t with topics_count := 0 }).mapNodes NodesInfo.zero.load,
    ((emptied crowded).mapTopics fun t => { t with topics_count := 0 }).mapNodes NodesInfo.zero.load, [], [],
    Known.none.read (List UInt8) (Region.fresh (sizeofShmHead + MAX_SHM_MANGER_SIZE))⟩

def cleaned : TwoManagers (List UInt8) :=
  (unlike.next (.call (.setNodeId 0))).next (.call (.updateNodeInfo NodeInfo.zero))

/-- A node without a name is registered, with the same in the two members. -/
def luckyNode : NewNode := ⟨[], 1, 5, 7, 7⟩

def lucky : TwoAct := .registerNode luckyNode 7 7

def joined : TwoManagers (List UInt8) := cleaned.next lucky

def asked : TwoManagers (List UInt8) :=
  (joined.next (.call .getAliveNodeCount)).next (.call (.isTopicExist (utf8 "t") (utf8 "e")))

end TwoManagers

end MiniRos2

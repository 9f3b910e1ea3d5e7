import MiniRos2.JsonParse
import MiniRos2.SharedMemory
/-!
# ShmManager — the registry: cached tables, and their texts in the shared region

A `ShmManager` keeps private copies of the node table and of the topic table and writes each as a JSON text into its
section of the region: the topics at offset 0, the nodes at `TOPIC_INFO_SIZE`, neither with a terminator.  A call works
on the manager's copy, the mapped region and the event bits (`Registry`); it returns, throws or does what C++ leaves
undefined, and what it changed before it threw stays changed.  `registry_mutex_` makes each call a step of its own.
The type of doubles of the JSON values that are read back is the parameter `D`.
-/
namespace MiniRos2

open ByteMem (cstr)

def MAX_TOPICS_PER_NODE : Nat := 1024
def MAX_NODE_COUNT : Nat := 16
/-- `MAX_NODE_NAME_LEN` and `MAX_TOPIC_NAME_LEN`. -/
def MAX_NAME_LEN : Nat := 64
/-- `sizeof(TopicsInfo)`: the count, and 1024 entries of a name and an id. -/
def TOPIC_INFO_SIZE : Nat := 69636
/-- `sizeof(NodesInfo)`: two counts, and 16 entries of 88 bytes. -/
def NODE_INFO_SIZE : Nat := 1416
def MAX_SHM_MANGER_SIZE : Nat := 71052

/-- A C string in a `char[64]`. -/
@[ext] structure CName where
  bytes : List UInt8
  noNul : ∀ b ∈ bytes, b ≠ 0
  length_lt : bytes.length < MAX_NAME_LEN
  deriving DecidableEq

def CName.empty : CName := ⟨[], by simp, by decide⟩

/-- `std::strcpy(name, s.c_str())`. -/
def strcpy (s : List UInt8) : Except Abort CName :=
  if h : (cstr s).length < MAX_NAME_LEN then .ok ⟨cstr s, ByteMem.ne_zero_of_mem_cstr s, h⟩ else .error .undefined

structure TopicInfo where
  name_ : CName
  event_id_ : Int32
  deriving DecidableEq

structure TopicsInfo where
  topics_count : Int32
  topics : Nat → TopicInfo

structure NodeInfo where
  node_id : Int32
  pid : Int32
  pub_topic_count : Int32
  sub_topic_count : Int32
  is_alive : Bool
  last_heartbeat : Int32
  node_name : CName
  deriving DecidableEq

structure NodesInfo where
  nodes_count : Int32
  alive_node_count : Int32
  nodes : Nat → NodeInfo

def TopicInfo.zero : TopicInfo := ⟨CName.empty, 0⟩
def TopicsInfo.zero : TopicsInfo := ⟨0, fun _ => TopicInfo.zero⟩
def NodeInfo.zero : NodeInfo := ⟨0, 0, 0, 0, false, 0, CName.empty⟩
def NodesInfo.zero : NodesInfo := ⟨0, 0, fun _ => NodeInfo.zero⟩

/-- A loop bound: a negative count gives no turn. -/
def TopicsInfo.count (t : TopicsInfo) : Nat := t.topics_count.toInt.toNat
def NodesInfo.count (n : NodesInfo) : Nat := n.nodes_count.toInt.toNat

structure ShmManager where
  node_id_ : Int32
  nodes_ : NodesInfo
  topics_ : TopicsInfo

/-- **What a call works on**: the manager, the registry region and the event bits. -/
structure Registry (D : Type) where
  mgr : ShmManager
  shm : Region
  event_flag_ : Nat → Bool

/-- A manager on a region that was just created, with zero-filled tables. -/
def Registry.fresh {D : Type} (node_id : Int32) : Registry D :=
  ⟨⟨node_id, NodesInfo.zero, TopicsInfo.zero⟩, Region.fresh (sizeofShmHead + MAX_SHM_MANGER_SIZE), fun _ => false⟩

abbrev Op (D α : Type) := EStateM Abort (Registry D) α

/-! ## The texts of the tables -/

section Texts

variable {D : Type}

/-- `JsonArray(n)`. -/
def jsonArray (n : Int32) : Except Abort Unit :=
  if n.toInt < 0 then .error (.throws (.lengthError (utf8 "cannot create std::vector larger than max_size()")))
  else .ok ()

/-- The assignments to `json["nodes"][i]`, in order. -/
def nodeFields (n : NodeInfo) : List (List UInt8 × JsonValue D) :=
  [(utf8 "node_id", .int n.node_id), (utf8 "pid", .int n.pid), (utf8 "pub_topic_count", .int n.pub_topic_count),
    (utf8 "sub_topic_count", .int n.sub_topic_count), (utf8 "node_name", .string n.node_name.bytes),
    (utf8 "is_alive", .bool n.is_alive), (utf8 "last_heartbeat", .int n.last_heartbeat)]

def nodeJson (n : NodeInfo) : JsonValue D := .object (OrdMap.ofList (nodeFields n))

def nodesFields (n : NodesInfo) : List (List UInt8 × JsonValue D) :=
  [(utf8 "node_count", .int n.nodes_count), (utf8 "alive_node_count", .int n.alive_node_count),
    (utf8 "nodes", .array ((List.range n.count).map (fun i => nodeJson (n.nodes i))))]

def nodesJson (n : NodesInfo) : Except Abort (JsonValue D) := do
  jsonArray n.nodes_count
  if MAX_NODE_COUNT < n.count then .error .undefined else .ok (.object (OrdMap.ofList (nodesFields n)))

/-- The assignments to `json["topics"][i]`, in order. -/
def topicFields (t : TopicInfo) : List (List UInt8 × JsonValue D) :=
  [(utf8 "topic_id", .int t.event_id_), (utf8 "name", .string t.name_.bytes)]

def topicJson (t : TopicInfo) : JsonValue D := .object (OrdMap.ofList (topicFields t))

def topicsFields (t : TopicsInfo) : List (List UInt8 × JsonValue D) :=
  [(utf8 "topic_count", .int t.topics_count),
    (utf8 "topics", .array ((List.range t.count).map (fun i => topicJson (t.topics i))))]

def topicsJson (t : TopicsInfo) : Except Abort (JsonValue D) := do
  jsonArray t.topics_count
  if MAX_TOPICS_PER_NODE < t.count then .error .undefined else .ok (.object (OrdMap.ofList (topicsFields t)))

end Texts

/-! ## Calls -/

section Calls

variable {D : Type}

/-- A call that only looks. -/
def liftE {α : Type} (x : Except Abort α) : Op D α := fun s =>
  match x with
  | .ok a => .ok a s
  | .error e => .error e s

def modifyNodes (f : NodesInfo → NodesInfo) : Op D Unit :=
  modify (fun s => { s with mgr := { s.mgr with nodes_ := f s.mgr.nodes_ } })

def modifyTopics (f : TopicsInfo → TopicsInfo) : Op D Unit :=
  modify (fun s => { s with mgr := { s.mgr with topics_ := f s.mgr.topics_ } })

/-- An index of type `int` into an array of `bound` entries. -/
def arraySlot (bound : Nat) (i : Int) : Except Abort Nat :=
  if 0 ≤ i ∧ i < bound then .ok i.toNat else .error .undefined

/-- `nodes_.nodes[i]`. -/
abbrev nodeSlot (i : Int) : Except Abort Nat := arraySlot MAX_NODE_COUNT i

/-- `topics_.topics[i]`. -/
abbrev topicSlot (i : Int) : Except Abort Nat := arraySlot MAX_TOPICS_PER_NODE i

/-- A change of `nodes_` that knows this manager's own slot. -/
def modifyOwn (f : Nat → NodesInfo → NodesInfo) : Op D Unit := do
  let s ← get
  let i ← liftE (nodeSlot s.mgr.node_id_.toInt)
  modifyNodes (f i)

def NodesInfo.set (i : Nat) (f : NodeInfo → NodeInfo) (n : NodesInfo) : NodesInfo :=
  { n with nodes := Function.update n.nodes i (f (n.nodes i)) }

def TopicsInfo.set (i : Nat) (f : TopicInfo → TopicInfo) (t : TopicsInfo) : TopicsInfo :=
  { t with topics := Function.update t.topics i (f (t.topics i)) }

/-- `shm_->Write(data, size, offset)`. -/
def shmWrite (data : List UInt8) (offset : Nat) : Op D Unit := fun s =>
  match s.shm.write data offset with
  | .ok r => .ok () { s with shm := r }
  | .error e => .error e s

/-- `catch (const std::exception& e)`. -/
def catchStd (x handler : Op D Unit) : Op D Unit := fun s =>
  match x s with
  | .error (.throws _) s' => handler s'
  | r => r

/-- `std::string(buffer)`, which must have a terminator. -/
def stringOf (buffer : List UInt8) : Except Abort (List UInt8) :=
  if 0 ∈ buffer then .ok (cstr buffer) else .error .undefined

variable [DoubleText D]

def writeNodesInfo_ : Op D Unit := do
  let s ← get
  let json ← liftE (nodesJson s.mgr.nodes_ : Except Abort (JsonValue D))
  shmWrite json.serialize TOPIC_INFO_SIZE

def writeTopicsInfo_ : Op D Unit := do
  let s ← get
  let json ← liftE (topicsJson s.mgr.topics_ : Except Abort (JsonValue D))
  shmWrite json.serialize 0

def writeRegistryToShm_ : Op D Unit := do
  writeTopicsInfo_
  writeNodesInfo_

/-- `json[table][i][key]`. -/
def entryField (json : JsonValue D) (table : String) (i : Nat) (key : String) : Except Abort (JsonValue D) := do
  let xs ← json.atKey (utf8 table)
  let x ← xs.atIndex i
  x.atKey (utf8 key)

/-- One turn of the loop of `readNodesInfo_`. -/
def readNode (json : JsonValue D) (i : Nat) : Op D Unit := do
  let field := entryField json "nodes" i
  let node_id ← liftE (field "node_id" >>= JsonValue.asInt)
  let i ← liftE (nodeSlot i)
  modifyNodes (NodesInfo.set i (fun n => { n with node_id := node_id }))
  let pid ← liftE (field "pid" >>= JsonValue.asInt)
  modifyNodes (NodesInfo.set i (fun n => { n with pid := pid }))
  let pub_topic_count ← liftE (field "pub_topic_count" >>= JsonValue.asInt)
  modifyNodes (NodesInfo.set i (fun n => { n with pub_topic_count := pub_topic_count }))
  let sub_topic_count ← liftE (field "sub_topic_count" >>= JsonValue.asInt)
  modifyNodes (NodesInfo.set i (fun n => { n with sub_topic_count := sub_topic_count }))
  let node_name ← liftE (field "node_name" >>= JsonValue.asString >>= strcpy)
  modifyNodes (NodesInfo.set i (fun n => { n with node_name := node_name }))
  let is_alive ← liftE (field "is_alive" >>= JsonValue.asBool)
  modifyNodes (NodesInfo.set i (fun n => { n with is_alive := is_alive }))
  let last_heartbeat ← liftE (field "last_heartbeat" >>= JsonValue.asInt)
  modifyNodes (NodesInfo.set i (fun n => { n with last_heartbeat := last_heartbeat }))

/-- The loop from index `i` on. -/
def readNodesFrom (json : JsonValue D) : Nat → Nat → Op D Unit
  | _, 0 => pure ()
  | i, n + 1 => do
    readNode json i
    readNodesFrom json (i + 1) n

def clearNodeCounts : Op D Unit := modifyNodes (fun n => { n with nodes_count := 0, alive_node_count := 0 })

/-- The `try` block of `readNodesInfo_`. -/
def parseNodesInfo : Op D Unit := do
  let s ← get
  let node_data ← liftE (s.shm.read NODE_INFO_SIZE TOPIC_INFO_SIZE)
  let jsonStr ← liftE (stringOf node_data)
  if jsonStr.all isSpace then clearNodeCounts
  else do
    let json ← liftE (deserialize jsonStr : Except Abort (JsonValue D))
    let nodes_count ← liftE (json.atKey (utf8 "node_count") >>= JsonValue.asInt)
    modifyNodes (fun n => { n with nodes_count := nodes_count })
    let alive_node_count ← liftE (json.atKey (utf8 "alive_node_count") >>= JsonValue.asInt)
    modifyNodes (fun n => { n with alive_node_count := alive_node_count })
    readNodesFrom json 0 nodes_count.toInt.toNat

def readNodesInfo_ : Op D Unit := catchStd parseNodesInfo clearNodeCounts

/-- One turn of the loop of `readTopicsInfo_`. -/
def readTopic (json : JsonValue D) (i : Nat) : Op D Unit := do
  let event_id_ ← liftE (entryField json "topics" i "topic_id" >>= JsonValue.asInt)
  let i ← liftE (topicSlot i)
  modifyTopics (TopicsInfo.set i (fun t => { t with event_id_ := event_id_ }))
  let name_ ← liftE (entryField json "topics" i "name" >>= JsonValue.asString >>= strcpy)
  modifyTopics (TopicsInfo.set i (fun t => { t with name_ := name_ }))

def readTopicsFrom (json : JsonValue D) : Nat → Nat → Op D Unit
  | _, 0 => pure ()
  | i, n + 1 => do
    readTopic json i
    readTopicsFrom json (i + 1) n

def clearTopicCount : Op D Unit := modifyTopics (fun t => { t with topics_count := 0 })

/-- The `try` block of `readTopicsInfo_`. -/
def parseTopicsInfo : Op D Unit := do
  let s ← get
  let topic_data ← liftE (s.shm.read TOPIC_INFO_SIZE 0)
  let jsonStr ← liftE (stringOf topic_data)
  if jsonStr.all isSpace then clearTopicCount
  else do
    let json ← liftE (deserialize jsonStr : Except Abort (JsonValue D))
    let topics_count ← liftE (json.atKey (utf8 "topic_count") >>= JsonValue.asInt)
    modifyTopics (fun t => { t with topics_count := topics_count })
    readTopicsFrom json 0 topics_count.toInt.toNat

def readTopicsInfo_ : Op D Unit := catchStd parseTopicsInfo clearTopicCount

def initializeRegistry_ : Op D Unit := do
  readTopicsInfo_
  readNodesInfo_

def syncRegistryFromShm : Op D Unit := do
  readTopicsInfo_
  readNodesInfo_

/-! ## Nodes -/

/-- `now` is `time(nullptr)`. -/
def updateNodeHeartbeat (now : Int32) : Op D Unit := do
  modifyOwn (fun i => NodesInfo.set i (fun n => { n with last_heartbeat := now }))
  writeNodesInfo_

def addNode (node_info : NodeInfo) : Op D Unit := do
  modifyOwn (fun i => NodesInfo.set i (fun _ => node_info))
  modifyNodes (fun n => { n with nodes_count := n.nodes_count + 1, alive_node_count := n.alive_node_count + 1 })
  writeNodesInfo_

def updateNodeInfo (node_info : NodeInfo) : Op D Unit := do
  modifyOwn (fun i => NodesInfo.set i (fun _ => node_info))
  writeNodesInfo_

def updateNodeAlive : Op D Unit := do
  modifyOwn (fun i => NodesInfo.set i (fun n => { n with is_alive := true }))
  writeNodesInfo_

def updateNodeName (node_name : List UInt8) : Op D Unit := do
  let name ← liftE (strcpy node_name)
  modifyOwn (fun i => NodesInfo.set i (fun n => { n with node_name := name }))
  writeNodesInfo_

omit [DoubleText D] in
def triggerEventById_ (event_id : Int32) : Op D Unit :=
  if event_id.toInt < 0 ∨ (MAX_TOPICS_PER_NODE : Int) ≤ event_id.toInt then pure ()
  else modify (fun s => { s with event_flag_ := Function.update s.event_flag_ event_id.toInt.toNat true })

def removeNode : Op D Unit := do
  modifyOwn (fun i => NodesInfo.set i (fun n => { n with is_alive := false }))
  modifyNodes (fun n => { n with alive_node_count := n.alive_node_count - 1, nodes_count := n.nodes_count - 1 })
  writeNodesInfo_
  triggerEventById_ (MAX_TOPICS_PER_NODE - 1 : Nat).toInt32

end Calls

/-- The first free slot, or -1. -/
def getNextNodeId (n : NodesInfo) : Int32 :=
  match (List.range MAX_NODE_COUNT).find? (fun i => !(n.nodes i).is_alive) with
  | some i => i.toInt32
  | none => -1

/-! ## Topics -/

def fullName (topic_name event_name : List UInt8) : List UInt8 := topic_name ++ utf8 "_" ++ event_name

/-- The loop of the lookups: the first entry with this name, or the first index behind the array. -/
def findTopic (t : TopicsInfo) (full_name : List UInt8) : Except Abort (Option Nat) :=
  match (List.range t.count).find? (fun i => decide (MAX_TOPICS_PER_NODE ≤ i) || (t.topics i).name_.bytes == full_name)
  with
  | none => .ok none
  | some i => if MAX_TOPICS_PER_NODE ≤ i then .error .undefined else .ok (some i)

section Topics

variable {D : Type}

def findOrCreateTopicEvent_ (topic_name event_name : List UInt8) : Op D Int32 := do
  let full_name := fullName topic_name event_name
  let t := (← get).mgr.topics_
  match ← liftE (findTopic t full_name) with
  | some i => return (t.topics i).event_id_
  | none =>
    if (MAX_TOPICS_PER_NODE : Int) ≤ t.topics_count.toInt then return -1
    else
      let new_event_id := t.topics_count + 1
      let i ← liftE (topicSlot new_event_id.toInt)
      modifyTopics (TopicsInfo.set i (fun t => { t with event_id_ := new_event_id }))
      let name ← liftE (strcpy full_name)
      modifyTopics (TopicsInfo.set i (fun t => { t with name_ := name }))
      modifyTopics (fun t => { t with topics_count := t.topics_count + 1 })
      return new_event_id

def isTopicExist (topic_name event_name : List UInt8) : Op D Bool := do
  let i ← liftE (findTopic (← get).mgr.topics_ (fullName topic_name event_name))
  return i.isSome

def getTopicEventId_ (topic_name event_name : List UInt8) : Op D Int32 := do
  let t := (← get).mgr.topics_
  match ← liftE (findTopic t (fullName topic_name event_name)) with
  | some i => return (t.topics i).event_id_
  | none => return -1

def triggerEvent (topic_name event_name : List UInt8) : Op D Unit := do
  let event_id ← getTopicEventId_ topic_name event_name
  if 0 ≤ event_id.toInt then triggerEventById_ event_id

variable [DoubleText D]

def NodeInfo.countSub (n : NodeInfo) : NodeInfo :=
  if n.sub_topic_count.toInt < MAX_TOPICS_PER_NODE then { n with sub_topic_count := n.sub_topic_count + 1 } else n

def NodeInfo.countPub (n : NodeInfo) : NodeInfo :=
  if n.pub_topic_count.toInt < MAX_TOPICS_PER_NODE then { n with pub_topic_count := n.pub_topic_count + 1 } else n

def registerTopicEvent (topic_name event_name : List UInt8) : Op D Int32 := do
  let event_id ← findOrCreateTopicEvent_ topic_name event_name
  if 0 ≤ event_id.toInt then writeTopicsInfo_
  return event_id

def addSubTopic (topic_name event_name : List UInt8) : Op D Unit := do
  modifyOwn (fun i => NodesInfo.set i NodeInfo.countSub)
  let _event_id ← findOrCreateTopicEvent_ topic_name event_name
  writeNodesInfo_

def addPubTopic (topic_name event_name : List UInt8) : Op D Unit := do
  let full_name := fullName topic_name event_name
  modifyOwn (fun i => NodesInfo.set i NodeInfo.countPub)
  let event_id ← findOrCreateTopicEvent_ topic_name event_name
  let name ← liftE (strcpy full_name)
  let i ← liftE (topicSlot (← get).mgr.topics_.topics_count.toInt)
  modifyTopics (TopicsInfo.set i (fun _ => ⟨name, event_id⟩))
  modifyTopics (fun t => { t with topics_count := t.topics_count + 1 })
  writeRegistryToShm_

end Topics

end MiniRos2

import MiniRos2.NodeSection
import MiniRos2.TextLength
import Mathlib.Data.Finset.Card
/-!
# NodeCounts — several nodes, each with its own copy of the node table

A node reads the table when it starts, enters itself in its copy and writes the copy out; when it exits it takes itself
out of its copy, which knows nothing of the nodes that came later, and writes that out.  An exit makes the text shorter
than what the section holds, so nothing is read back after it.  The counts are right in every run in which only a node
that is alone exits, no node has a backspace in its name, and a node that starts alone writes a text that covers what
the section still holds (`countsRight_of_run`).
-/
namespace MiniRos2

variable {D : Type}

/-- What a node is registered with.  `registerNode` leaves the last two members of its `NodeInfo` uninitialised: they
have any values. -/
structure NewNode where
  node_name_ : List UInt8
  pid : Int32
  last_heartbeat : Int32
  pub_topic_count : Int32
  sub_topic_count : Int32

def NewNode.info (x : NewNode) (node_id_ : Int32) (node_name : CName) : NodeInfo :=
  ⟨node_id_, x.pid, x.pub_topic_count, x.sub_topic_count, true, x.last_heartbeat, node_name⟩

def setNodeId (node_id : Int32) : Op D Unit := modify (fun s => { s with mgr := { s.mgr with node_id_ := node_id } })

/-- The members of a `ShmManager` that was just constructed. -/
def ShmManager.init : ShmManager := ⟨-1, NodesInfo.zero, TopicsInfo.zero⟩

section Calls

variable [DoubleText D]

def registerNode (x : NewNode) : Op D Unit := do
  let n := (← get).mgr.nodes_
  if (MAX_NODE_COUNT : Int) ≤ n.alive_node_count.toInt then pure ()
  else
    let node_id_ := getNextNodeId n
    setNodeId node_id_
    if node_id_ = -1 then pure ()
    else
      let node_name ← liftE (strcpy x.node_name_)
      addNode (x.info node_id_ node_name)

/-- The constructors of `ShmManager`, on a region that exists, and of `Node`. -/
def startNode (x : NewNode) : Op D Unit := do
  initializeRegistry_
  registerNode x

end Calls

/-! ## Nodes on one region -/

/-- The shared region and event bits, and every node's manager; nodes are numbered as they start. -/
structure Cluster (D : Type) where
  shm : Region
  event_flag_ : Nat → Bool
  started : Nat
  cache : Nat → ShmManager
  live : Finset Nat

inductive NodeAct where
  | start (x : NewNode)
  | sync (i : Nat)
  | exit (i : Nat)

/-- What a call of node `i` works on. -/
def Cluster.view (c : Cluster D) (i : Nat) : Registry D := ⟨c.cache i, c.shm, c.event_flag_⟩

/-- After a call of node `i`. -/
def Cluster.put (c : Cluster D) (i : Nat) (s : Registry D) : Cluster D :=
  { c with shm := s.shm, event_flag_ := s.event_flag_, cache := Function.update c.cache i s.mgr }

/-- After the start of a node, and after the exit of node `i`. -/
def Cluster.enrol (c : Cluster D) (s : Registry D) : Cluster D :=
  { c.put c.started s with started := c.started + 1, live := insert c.started c.live }

def Cluster.release (c : Cluster D) (i : Nat) (s : Registry D) : Cluster D :=
  { c.put i s with live := c.live.erase i }

def Cluster.init : Cluster D :=
  ⟨Region.fresh (sizeofShmHead + MAX_SHM_MANGER_SIZE), fun _ => false, 0, fun _ => ShmManager.init, ∅⟩

section Step

variable [DoubleText D]

/-- The table's text, if it has one, is shorter than the section. -/
def TextFits (s : Registry D) : Prop :=
  s.mgr.nodes_.Valid → (nodesText D s.mgr.nodes_).length < NODE_INFO_SIZE

/-- The state of a node before its start. -/
def Cluster.newcomer (c : Cluster D) : Registry D := ⟨ShmManager.init, c.shm, c.event_flag_⟩

/-- **One start, one sync or one exit.** -/
inductive NodeAct.Step (c : Cluster D) : NodeAct → Cluster D → Prop where
  | start {x : NewNode} : c.live.card + 1 < MAX_NODE_COUNT → ¬ Undefined (startNode x c.newcomer) →
      TextFits (finalState (startNode x c.newcomer)) →
      Step c (.start x) (c.enrol (finalState (startNode x c.newcomer)))
  | sync {i : Nat} : i ∈ c.live → ¬ Undefined (syncRegistryFromShm (c.view i)) →
      Step c (.sync i) (c.put i (finalState (syncRegistryFromShm (c.view i))))
  | exit {i : Nat} : i ∈ c.live → ¬ Undefined (removeNode (c.view i)) → TextFits (finalState (removeNode (c.view i))) →
      Step c (.exit i) (c.release i (finalState (removeNode (c.view i))))

/-- Reading the node section gives these counts. -/
def ReadsCounts (shm : Region) (k : Nat) : Prop :=
  ∀ s : Registry D, s.shm = shm → ∃ s', readNodesInfo_ s = .ok () s' ∧ s'.mgr.nodes_.nodes_count.toInt = k ∧
    s'.mgr.nodes_.alive_node_count.toInt = k

/-- **The counts are right**: none is negative, and the region has the number of live nodes. -/
structure Cluster.CountsRight (c : Cluster D) : Prop where
  nonneg : ∀ i, i < c.started →
    0 ≤ (c.cache i).nodes_.nodes_count.toInt ∧ 0 ≤ (c.cache i).nodes_.alive_node_count.toInt
  region : ReadsCounts (D := D) c.shm c.live.card

/-- **Only a node that is alone exits**, no node that starts has a backspace in its name, and one that starts alone
writes a text that covers what the section holds. -/
def Cluster.Orderly (c : Cluster D) : NodeAct → Prop
  | .start x => ∀ name, strcpy x.node_name_ = .ok name → 8 ∉ name.bytes ∧ (c.live = ∅ →
      nodeSectionLength c.shm ≤ (nodesText D (NodeCall.table 0 NodesInfo.zero (.add (x.info 0 name)))).length)
  | .sync _ => True
  | .exit i => c.live = {i}

/-! ## What a reader finds -/

/-- The region's section is read as this table. -/
def Reads (D : Type) [DoubleText D] (shm : Region) (n : NodesInfo) : Prop :=
  ∀ s : Registry D, s.shm = shm → readNodesInfo_ s = .ok () (s.mapNodes n.load)

/-- A table of `k` live nodes. -/
structure NodesInfo.Full (n : NodesInfo) (k : Nat) : Prop where
  count : n.nodes_count.toInt = k
  alive_count : n.alive_node_count.toInt = k
  alive : ∀ j, j < k → (n.nodes j).is_alive = true

omit [DoubleText D] in
theorem NodesInfo.Full.valid {n : NodesInfo} {k : Nat} (h : n.Full k) (hk : k ≤ MAX_NODE_COUNT) : n.Valid := by
  have hc := h.count
  exact ⟨by omega, by unfold NodesInfo.count; omega⟩

theorem NodesInfo.zero_full : NodesInfo.zero.Full 0 := ⟨rfl, rfl, fun j hj => absurd hj (Nat.not_lt_zero j)⟩

theorem NodesInfo.zero_legible : NodesInfo.zero.Legible := fun i hi => absurd hi (Nat.not_lt_zero i)

theorem Reads.counts {shm : Region} {n : NodesInfo} {k : Nat} (h : Reads D shm n) (hn : n.Full k) :
    ReadsCounts (D := D) shm k := fun s hs => ⟨_, h s hs, hn.count, hn.alive_count⟩

/-- A section that holds one text, or one and the rest of another, or nothing. -/
theorem Reads.of_text {shm : Region} {n : NodesInfo} (hn : n.Valid) (h : nodeSection shm = .ok (nodesText D n)) :
    Reads D shm n.seen := fun s hs => readNodesInfo_seen hn (by rw [hs]; exact h)

theorem Reads.of_residue {shm : Region} {n : NodesInfo} {r : List UInt8}
    (h : nodeSection shm = .ok (nodesText D n ++ r)) (hr : r.getLast? = some chRBrace) :
    Reads D shm NodesInfo.zero := fun s hs => by
  rw [NodesInfo.load_zero]
  exact readNodesInfo_of_residue (by rw [hs]; exact h) hr

theorem Reads.of_blank {shm : Region} (h : nodeSection shm = .ok []) : Reads D shm NodesInfo.zero := fun s hs => by
  rw [NodesInfo.load_zero]
  exact readNodesInfo_of_blank (by rw [hs]; exact h) rfl

/-- **A table that is written** is read back when its text covers what the section held, and otherwise an empty one
is. -/
theorem Reads.of_write {shm : Region} {n : NodesInfo} {h : Nat} (f : Holds shm.mem TOPIC_INFO_SIZE NODE_INFO_SIZE h)
    (hlt : h < NODE_INFO_SIZE) (hsize : TOPIC_INFO_SIZE + NODE_INFO_SIZE ≤ shm.size) (hn : n.Valid)
    (hfits : (nodesText D n).length < NODE_INFO_SIZE) :
    let shm' : Region := ⟨shm.size, ByteMem.write shm.mem TOPIC_INFO_SIZE (nodesText D n)⟩
    (h ≤ (nodesText D n).length ∧ Holds shm'.mem TOPIC_INFO_SIZE NODE_INFO_SIZE (nodesText D n).length ∧
        Reads D shm' n.seen) ∨
      ((nodesText D n).length < h ∧ Holds shm'.mem TOPIC_INFO_SIZE NODE_INFO_SIZE h ∧ Reads D shm' NodesInfo.zero) := by
  intro shm'
  have ht := nodesText_tableText (D := D) n
  by_cases hle : h ≤ (nodesText D n).length
  · obtain ⟨f', hread⟩ := f.read_covering ht hle (Nat.le_of_lt hfits)
    refine .inl ⟨hle, f', Reads.of_text hn ?_⟩
    rw [nodeSection_of_holds (r := shm') f' hfits hsize, hread]
  · obtain ⟨f', r, hread, hr⟩ := f.read_shorter ht (by omega)
    refine .inr ⟨by omega, f', Reads.of_residue (n := n) (r := r) ?_ hr⟩
    rw [nodeSection_of_holds (r := shm') f' hlt hsize, hread]

/-! ## The invariant -/

/-- The region: no topics, and a node section that is read as a table of `k` live nodes and, when there are any, holds
that table's text alone. -/
structure SoundRegion (D : Type) [DoubleText D] (shm : Region) (k : Nat) : Prop where
  size : shm.size = sizeofShmHead + MAX_SHM_MANGER_SIZE
  topics : Holds shm.mem 0 TOPIC_INFO_SIZE 0
  section_ : ∃ h n, Holds shm.mem TOPIC_INFO_SIZE NODE_INFO_SIZE h ∧ h < NODE_INFO_SIZE ∧ n.Full k ∧ n.Legible ∧
    Reads D shm n ∧ (0 < k → h = (nodesText D n).length)

/-- A live node's copy, among `k` live nodes: it counts the node itself and no node that has not started. -/
structure ShmManager.Counted (m : ShmManager) (k : Nat) : Prop where
  slot : ∃ i, nodeSlot m.node_id_.toInt = .ok i
  pos : 1 ≤ m.nodes_.nodes_count.toInt ∧ 1 ≤ m.nodes_.alive_node_count.toInt
  le : m.nodes_.nodes_count.toInt ≤ k ∧ m.nodes_.alive_node_count.toInt ≤ k

def ShmManager.NonNeg (m : ShmManager) : Prop :=
  0 ≤ m.nodes_.nodes_count.toInt ∧ 0 ≤ m.nodes_.alive_node_count.toInt

/-- **What holds as long as the nodes are orderly.** -/
structure Cluster.Sound (c : Cluster D) : Prop where
  region : SoundRegion D c.shm c.live.card
  card : c.live.card < MAX_NODE_COUNT
  live_lt : ∀ i ∈ c.live, i < c.started
  copies : ∀ i, (i < c.started → (c.cache i).NonNeg) ∧ (i ∈ c.live → (c.cache i).Counted c.live.card)

theorem Cluster.Sound.countsRight {c : Cluster D} (h : c.Sound) : c.CountsRight := by
  obtain ⟨_, n, -, -, hn, -, hr, -⟩ := h.region.section_
  exact ⟨fun i => (h.copies i).1, hr.counts hn⟩

theorem reads_fresh : Reads D (Region.fresh (sizeofShmHead + MAX_SHM_MANGER_SIZE)) NodesInfo.zero := by
  have hsize : TOPIC_INFO_SIZE + NODE_INFO_SIZE ≤ sizeofShmHead + MAX_SHM_MANGER_SIZE := by decide
  have hpos : 0 < NODE_INFO_SIZE := by decide
  exact Reads.of_blank (nodeSection_of_holds (ByteMem.Filled.zero _ _ _) hpos hsize)

theorem soundRegion_fresh : SoundRegion D (Region.fresh (sizeofShmHead + MAX_SHM_MANGER_SIZE)) 0 :=
  ⟨rfl, ByteMem.Filled.zero _ _ _, 0, NodesInfo.zero, ByteMem.Filled.zero _ _ _, by decide, NodesInfo.zero_full,
    NodesInfo.zero_legible, reads_fresh, fun h => absurd h (Nat.lt_irrefl 0)⟩

theorem Cluster.init_sound : (Cluster.init : Cluster D).Sound where
  region := soundRegion_fresh
  card := by
    rw [show (Cluster.init : Cluster D).live = ∅ from rfl, Finset.card_empty]
    decide
  live_lt := fun i hi => absurd hi (Finset.notMem_empty i)
  copies := fun i => ⟨fun hi => absurd hi (Nat.not_lt_zero i), fun hi => absurd hi (Finset.notMem_empty i)⟩

/-- Every reader of a region without topics gets the table. -/
theorem Reads.sync_eq {shm : Region} {n : NodesInfo} (hr : Reads D shm n)
    (hsize : shm.size = sizeofShmHead + MAX_SHM_MANGER_SIZE) (htopics : Holds shm.mem 0 TOPIC_INFO_SIZE 0)
    {s : Registry D} (hs : s.shm = shm) : syncRegistryFromShm s =
      .ok () ((s.mapTopics TopicsInfo.clear).mapNodes n.load) := by
  have hsec : topicSection s.shm = .ok [] := by
    rw [hs]
    exact topicSection_of_holds htopics (by decide) (by rw [hsize]; decide)
  rw [syncRegistryFromShm, Op.bind_ok (readTopicsInfo_of_blank hsec rfl)]
  exact hr _ hs

/-! ## Starts -/

omit [DoubleText D] in
theorem getNextNodeId_of_first {n : NodesInfo} {k : Nat} (hk : k < MAX_NODE_COUNT)
    (halive : ∀ j, j < k → (n.nodes j).is_alive = true) (hfree : (n.nodes k).is_alive = false) :
    getNextNodeId n = k.toInt32 := by
  have hfind : (List.range MAX_NODE_COUNT).find? (fun i => !(n.nodes i).is_alive) = some k := by
    refine List.find?_range_eq_some.2 ⟨by simp [hfree], List.mem_range.2 hk, fun j hj => ?_⟩
    simp [halive j hj]
  unfold getNextNodeId
  rw [hfind]

theorem toInt_small {k : Nat} (hk : k < MAX_NODE_COUNT) : k.toInt32.toInt = k := by
  have hall : ∀ k : Nat, k < 16 → k.toInt32.toInt = (k : Int) := by decide
  exact hall k hk

omit [DoubleText D] in
theorem NodesInfo.Full.load {n : NodesInfo} {k : Nat} (hn : n.Full k) (old : NodesInfo) : (n.load old).Full k := by
  refine ⟨hn.count, hn.alive_count, fun j hj => ?_⟩
  have hc := hn.count
  show (if j < n.count then n.nodes j else old.nodes j).is_alive = true
  rw [if_pos (by unfold NodesInfo.count; omega)]
  exact hn.alive j hj

/-- The table a new node writes when it has read `n`. -/
def NodesInfo.enter (n : NodesInfo) (k : Nat) (node_info : NodeInfo) : NodesInfo :=
  NodeCall.table k (n.load NodesInfo.zero) (.add node_info)

omit [DoubleText D] in
theorem NodesInfo.Full.enter {n : NodesInfo} {k : Nat} (hn : n.Full k) (hk : k < MAX_NODE_COUNT)
    {node_info : NodeInfo} (hi : node_info.is_alive = true) : (n.enter k node_info).Full (k + 1) := by
  have hc := hn.count
  have ha := hn.alive_count
  unfold MAX_NODE_COUNT at hk
  refine ⟨?_, ?_, fun j hj => ?_⟩
  · show (n.nodes_count + 1).toInt = _
    rw [Int32.toInt_succ (by omega)]
    omega
  · show (n.alive_node_count + 1).toInt = _
    rw [Int32.toInt_succ (by omega)]
    omega
  · show (Function.update (n.load NodesInfo.zero).nodes k node_info j).is_alive = true
    by_cases hjk : j = k
    · rw [hjk, Function.update_self]
      exact hi
    · rw [Function.update_of_ne hjk]
      exact (hn.load NodesInfo.zero).alive j (by omega)

omit [DoubleText D] in
theorem NodesInfo.Full.enter_nodes {n : NodesInfo} {k : Nat} (hn : n.Full k) (node_info : NodeInfo) {j : Nat}
    (hj : j < n.count) : (n.enter k node_info).nodes j = n.nodes j := by
  have hc := hn.count
  have hjk : j ≠ k := by
    unfold NodesInfo.count at hj
    omega
  exact (Function.update_of_ne hjk _ _).trans (if_pos hj)

omit [DoubleText D] in
/-- A new node without a backspace in its name keeps the table legible. -/
theorem NodesInfo.Full.enter_legible {n : NodesInfo} {k : Nat} (hn : n.Full k) (hl : n.Legible)
    (hk : k < MAX_NODE_COUNT) {node_info : NodeInfo} (hi : node_info.is_alive = true)
    (h8 : 8 ∉ node_info.node_name.bytes) : (n.enter k node_info).Legible := by
  have hc := hn.count
  have hfull := (hn.enter hk hi).count
  intro j hj
  by_cases hjk : j = k
  · subst hjk
    have hself : (n.enter j node_info).nodes j = node_info := Function.update_self _ _ _
    rw [hself]
    exact h8
  · have hlt : j < n.count := by
      unfold NodesInfo.count at hj ⊢
      omega
    rw [hn.enter_nodes node_info hlt]
    exact hl j hlt

omit [DoubleText D] in
theorem NodesInfo.Full.enter_info {n : NodesInfo} {k : Nat} (hn : n.Full k) (hk : k < MAX_NODE_COUNT) (x : NewNode)
    (name : CName) : (n.enter k (x.info k.toInt32 name)).Full (k + 1) := hn.enter hk rfl

theorem startNode_bind {c : Cluster D} (h : c.Sound) {n : NodesInfo} (hn : n.Full c.live.card) (hr : Reads D c.shm n)
    (x : NewNode) : ∃ s : Registry D, s.shm = c.shm ∧ s.mgr.nodes_ = n.load NodesInfo.zero ∧
      s.mgr.node_id_ = c.live.card.toInt32 ∧ startNode x c.newcomer =
        (liftE (strcpy x.node_name_) >>= fun name => addNode (x.info c.live.card.toInt32 name)) s := by
  have hcard := h.card
  have hload := hn.load NodesInfo.zero
  have hfree : ((n.load NodesInfo.zero).nodes c.live.card).is_alive = false := by
    have hc := hn.count
    show (if c.live.card < n.count then n.nodes c.live.card else NodeInfo.zero).is_alive = false
    rw [if_neg (by unfold NodesInfo.count; omega)]
    rfl
  have hid := getNextNodeId_of_first hcard hload.alive hfree
  have hne : c.live.card.toInt32 ≠ -1 := fun he => by
    have hint := toInt_small hcard
    rw [he, show (-1 : Int32).toInt = -1 from rfl] at hint
    omega
  have halive : ¬ (MAX_NODE_COUNT : Int) ≤ (n.load NodesInfo.zero).alive_node_count.toInt := by
    rw [hload.alive_count]
    omega
  have hinit := hr.sync_eq h.region.size h.region.topics (s := c.newcomer) rfl
  generalize hs₁ : (c.newcomer.mapTopics TopicsInfo.clear).mapNodes n.load = s₁ at hinit
  have hnodes : s₁.mgr.nodes_ = n.load NodesInfo.zero := by rw [← hs₁]; rfl
  have hset : setNodeId c.live.card.toInt32 s₁ =
      .ok () { s₁ with mgr := { s₁.mgr with node_id_ := c.live.card.toInt32 } } := rfl
  refine ⟨{ s₁ with mgr := { s₁.mgr with node_id_ := c.live.card.toInt32 } }, by rw [← hs₁]; rfl, hnodes, rfl, ?_⟩
  rw [startNode, Op.bind_ok (show initializeRegistry_ c.newcomer = .ok () s₁ from hinit), registerNode, Op.get_bind,
    hnodes, if_neg halive, hid, Op.bind_ok hset, if_neg hne]

/-- **A start writes out what it has read and itself.** -/
theorem startNode_eq {c : Cluster D} (h : c.Sound) {n : NodesInfo} (hn : n.Full c.live.card) (hr : Reads D c.shm n)
    {x : NewNode} {name : CName} (hname : strcpy x.node_name_ = .ok name) :
    ∃ s : Registry D, startNode x c.newcomer = writeNodesInfo_ s ∧ s.shm = c.shm ∧
      s.mgr.nodes_ = n.enter c.live.card (x.info c.live.card.toInt32 name) ∧
      s.mgr.node_id_ = c.live.card.toInt32 := by
  obtain ⟨s, hshm, hnodes, hid, heq⟩ := startNode_bind h hn hr x
  have hslot : nodeSlot s.mgr.node_id_.toInt = .ok c.live.card := by
    rw [hid, toInt_small h.card]
    exact arraySlot_of_lt h.card
  rw [heq, Op.bind_ok (liftE_ok hname s), addNode_eq hslot]
  refine ⟨_, rfl, hshm, ?_, hid⟩
  exact congrArg (fun t => NodeCall.table c.live.card t (.add (x.info c.live.card.toInt32 name))) hnodes

theorem writeNodesInfo_of_fits {s : Registry D} (hsize : s.shm.size = sizeofShmHead + MAX_SHM_MANGER_SIZE)
    (hn : s.mgr.nodes_.Valid) (hfits : (nodesText D s.mgr.nodes_).length < NODE_INFO_SIZE) :
    writeNodesInfo_ s = .ok () (s.store (nodesText D s.mgr.nodes_) TOPIC_INFO_SIZE) := by
  rw [writeNodesInfo_of_valid hn]
  refine shmWrite_of_le ?_
  rw [hsize]
  unfold sizeofShmHead MAX_SHM_MANGER_SIZE TOPIC_INFO_SIZE
  unfold NODE_INFO_SIZE at hfits
  omega

omit [DoubleText D] in
theorem holds_topics {m : ByteMem.Mem} {t : List UInt8} (f : Holds m 0 TOPIC_INFO_SIZE 0) :
    Holds (ByteMem.write m TOPIC_INFO_SIZE t) 0 TOPIC_INFO_SIZE 0 :=
  f.congr (ByteMem.read_write_disjoint _ _ _ _ _ (.inl (by omega)))

/-- What a node finds when it has started. -/
structure Cluster.Entered (c : Cluster D) (n : NodesInfo) (s : Registry D) : Prop where
  fits : (nodesText D n).length < NODE_INFO_SIZE
  shm : s.shm = ⟨c.shm.size, ByteMem.write c.shm.mem TOPIC_INFO_SIZE (nodesText D n)⟩
  nodes : s.mgr.nodes_ = n
  node_id : s.mgr.node_id_ = c.live.card.toInt32

theorem startNode_ok {c : Cluster D} (h : c.Sound) {n : NodesInfo} (hn : n.Full c.live.card) (hr : Reads D c.shm n)
    {x : NewNode} {name : CName} (hname : strcpy x.node_name_ = .ok name)
    (hfits : (nodesText D (n.enter c.live.card (x.info c.live.card.toInt32 name))).length < NODE_INFO_SIZE) :
    ∃ s, startNode x c.newcomer = .ok () s ∧
      c.Entered (n.enter c.live.card (x.info c.live.card.toInt32 name)) s := by
  obtain ⟨s, heq, hshm, hnodes, hid⟩ := startNode_eq h hn hr hname
  have hfull := hn.enter_info h.card x name
  rw [← hnodes] at hfits hfull
  have hw := writeNodesInfo_of_fits (by rw [hshm, h.region.size]) (hfull.valid h.card) hfits
  refine ⟨_, heq.trans hw, by rw [← hnodes]; exact hfits, ?_, hnodes, hid⟩
  rw [← hnodes, ← hshm]
  rfl

theorem NodeAct.Step.start_inv {c c' : Cluster D} (h : c.Sound) {n : NodesInfo} (hn : n.Full c.live.card)
    (hr : Reads D c.shm n) {x : NewNode} (hstep : NodeAct.Step c (.start x) c') :
    ∃ name s, strcpy x.node_name_ = .ok name ∧ c.Entered (n.enter c.live.card (x.info c.live.card.toInt32 name)) s ∧
      c.live.card + 1 < MAX_NODE_COUNT ∧ c' = c.enrol s := by
  cases hstep with
  | start hcard hdef hfits =>
    rcases strcpy_cases x.node_name_ with ⟨name, hname⟩ | hname
    · obtain ⟨s, heq, hshm, hnodes, hid⟩ := startNode_eq h hn hr hname
      have hmgr := (writeNodesInfo_frame s).1
      have hfull := hn.enter_info h.card x name
      rw [heq, TextFits, hmgr, hnodes] at hfits
      obtain ⟨s', hok, he⟩ := startNode_ok h hn hr hname (hfits (hfull.valid h.card))
      exact ⟨name, s', hname, he, hcard, by rw [hok]; rfl⟩
    · obtain ⟨s, -, -, -, heq⟩ := startNode_bind h hn hr x
      rw [heq, Op.bind_error (liftE_error hname s)] at hdef
      exact absurd rfl hdef

/-- **A node that enters over a section it covers** keeps the invariant, and the region is read as its table. -/
theorem Cluster.Sound.enter {c : Cluster D} (h : c.Sound) {n : NodesInfo} (hn : n.Full (c.live.card + 1))
    (hl : n.Legible) {s : Registry D} (he : c.Entered n s) (hcard : c.live.card + 1 < MAX_NODE_COUNT)
    (hcov : nodeSectionLength c.shm ≤ (nodesText D n).length) :
    (c.enrol s).Sound ∧ Reads D s.shm n := by
  obtain ⟨hfits, hshm, hnodes, hid⟩ := he
  obtain ⟨hsize, htopics, l, _, f, hlt, -⟩ := h.region
  rw [nodeSectionLength_of_holds f] at hcov
  have hnew : c.started ∉ c.live := fun hmem => Nat.lt_irrefl _ (h.live_lt _ hmem)
  have hcount : (insert c.started c.live).card = c.live.card + 1 := Finset.card_insert_of_notMem hnew
  have hc := hn.count
  have ha := hn.alive_count
  rcases Reads.of_write (D := D) f hlt (by rw [hsize]; decide) (hn.valid h.card) hfits with
    ⟨-, f', hr⟩ | ⟨hshort, -⟩
  swap
  · omega
  rw [← hshm, NodesInfo.seen_of_legible hl] at hr
  have hregion : SoundRegion D s.shm (c.live.card + 1) :=
    ⟨by rw [hshm]; exact hsize, by rw [hshm]; exact holds_topics htopics,
      _, n, by rw [hshm]; exact f', hfits, hn, hl, hr, fun _ => rfl⟩
  refine ⟨⟨hcount ▸ hregion, hcount ▸ hcard, fun i hi => ?_, ?_⟩, hr⟩
  · show i < c.started + 1
    rcases Finset.mem_insert.1 hi with rfl | hi
    · exact Nat.lt_succ_self _
    · exact Nat.lt_succ_of_lt (h.live_lt i hi)
  · refine (Function.forall_update_iff c.cache (p := fun i m => (i < c.started + 1 → m.NonNeg) ∧
      (i ∈ insert c.started c.live → m.Counted (insert c.started c.live).card))).2 ⟨⟨fun _ => ?_, fun _ => ?_⟩,
        fun i hi => ⟨fun hlt' => ?_, fun hmem => ?_⟩⟩
    · unfold ShmManager.NonNeg
      rw [hnodes]
      omega
    · rw [hcount]
      refine ⟨?_, ?_, ?_⟩
      · rw [hid, toInt_small h.card]
        exact ⟨_, arraySlot_of_lt h.card⟩
      · rw [hnodes]
        omega
      · rw [hnodes]
        omega
    · exact (h.copies i).1 (by omega)
    · obtain ⟨hslot, hpos, hle⟩ := (h.copies i).2 (Finset.mem_of_mem_insert_of_ne hmem hi)
      rw [hcount]
      exact ⟨hslot, hpos, by omega⟩

omit [DoubleText D] in
theorem NodesInfo.Full.load_nil {n : NodesInfo} (hn : n.Full 0) : n.load NodesInfo.zero = NodesInfo.zero := by
  have hc : n.nodes_count = 0 := Int32.toInt_inj.1 hn.count
  have ha : n.alive_node_count = 0 := Int32.toInt_inj.1 hn.alive_count
  unfold NodesInfo.load NodesInfo.zero
  rw [hc, ha]
  simp only [NodesInfo.mk.injEq, true_and]
  funext j
  have hj : ¬ j < n.count := by
    unfold NodesInfo.count
    rw [hn.count]
    exact Nat.not_lt_zero j
  exact if_neg hj

/-- An orderly start covers what the section holds. -/
theorem Cluster.Sound.covers {c : Cluster D} (h : c.Sound) {n : NodesInfo} {l : Nat}
    (f : Holds c.shm.mem TOPIC_INFO_SIZE NODE_INFO_SIZE l) (hn : n.Full c.live.card)
    (hl : 0 < c.live.card → l = (nodesText D n).length) {x : NewNode} (hord : c.Orderly (.start x)) {name : CName}
    (hname : strcpy x.node_name_ = .ok name) :
    nodeSectionLength c.shm ≤ (nodesText D (n.enter c.live.card (x.info c.live.card.toInt32 name))).length := by
  by_cases hk : c.live.card = 0
  · have hcov := (hord name hname).2 (Finset.card_eq_zero.1 hk)
    rw [hk] at hn ⊢
    unfold NodesInfo.enter
    rw [hn.load_nil]
    exact hcov
  · -- the text grows by the new node's entry
    have hfull := hn.enter_info h.card x name
    have h₁ := hn.count
    have h₂ := hn.alive_count
    have h₃ := hfull.count
    have h₄ := hfull.alive_count
    rw [nodeSectionLength_of_holds f, hl (Nat.pos_of_ne_zero hk)]
    exact length_nodesText_mono (by omega) (by omega) (by omega) (by omega)
      (fun j hj => (hn.enter_nodes _ hj).symm)

/-- **One orderly start.** -/
theorem Cluster.Sound.start {c c' : Cluster D} (h : c.Sound) {x : NewNode} (hord : c.Orderly (.start x))
    (hstep : NodeAct.Step c (.start x) c') : c'.Sound := by
  obtain ⟨l, n, f, -, hn, hleg, hr, hl⟩ := h.region.section_
  obtain ⟨name, s, hname, he, hcard, rfl⟩ := hstep.start_inv h hn hr
  exact (h.enter (hn.enter h.card rfl) (hn.enter_legible hleg h.card rfl (hord name hname).1) he hcard
    (h.covers f hn hl hord hname)).1

/-! ## Syncs and exits -/

/-- **One sync**: the node's copy becomes the table. -/
theorem Cluster.Sound.sync {c c' : Cluster D} (h : c.Sound) {i : Nat} (hstep : NodeAct.Step c (.sync i) c') :
    c'.Sound := by
  obtain ⟨l, n, f, hlt, hn, -, hr, hl⟩ := h.region.section_
  cases hstep with
  | sync hi hdef =>
    have hpos : 0 < c.live.card := Finset.card_pos.2 ⟨i, hi⟩
    have hc := hn.count
    have ha := hn.alive_count
    rw [hr.sync_eq h.region.size h.region.topics (s := c.view i) rfl]
    refine ⟨h.region, h.card, h.live_lt, ?_⟩
    refine (Function.forall_update_iff c.cache (p := fun j m => (j < c.started → m.NonNeg) ∧
      (j ∈ c.live → m.Counted c.live.card))).2 ⟨⟨fun _ => ?_, fun _ => ?_⟩, fun j _ => h.copies j⟩
    · show 0 ≤ n.nodes_count.toInt ∧ 0 ≤ n.alive_node_count.toInt
      omega
    · refine ⟨((h.copies i).2 hi).slot, ?_, ?_⟩
      · show 1 ≤ n.nodes_count.toInt ∧ 1 ≤ n.alive_node_count.toInt
        omega
      · show n.nodes_count.toInt ≤ c.live.card ∧ n.alive_node_count.toInt ≤ c.live.card
        omega

/-- A node whose copy counts it alone writes an empty table when it exits, and so it is read. -/
theorem removeNode_alone {c : Cluster D} (h : c.Sound) {i : Nat} (hi : i ∈ c.live)
    (hc : (c.cache i).nodes_.nodes_count.toInt = 1) (ha : (c.cache i).nodes_.alive_node_count.toInt = 1) :
    ∃ s, removeNode (c.view i) = .ok () s ∧ s.mgr.nodes_.Full 0 ∧ TextFits s ∧ SoundRegion D s.shm 0 := by
  obtain ⟨k, hslot⟩ := ((h.copies i).2 hi).slot
  obtain ⟨hsize, htopics, l, _, f, hlt, -⟩ := h.region
  rw [removeNode_eq (s := c.view i) hslot]
  generalize hs : (c.view i).mapNodes (fun n => NodeCall.table k n .remove) = s
  have hshm : s.shm = c.shm := by rw [← hs]; rfl
  have hfull : s.mgr.nodes_.Full 0 := by
    rw [← hs]
    refine ⟨?_, ?_, fun j hj => absurd hj (Nat.not_lt_zero j)⟩
    · show ((c.cache i).nodes_.nodes_count - 1).toInt = _
      rw [Int32.toInt_pred (by omega), hc]
      rfl
    · show ((c.cache i).nodes_.alive_node_count - 1).toInt = _
      rw [Int32.toInt_pred (by omega), ha]
      rfl
  have hnil : s.mgr.nodes_.count = 0 := by
    unfold NodesInfo.count
    rw [hfull.count]
    rfl
  have hleg : s.mgr.nodes_.Legible := fun j hj => absurd hj (by omega)
  have hfits : (nodesText D s.mgr.nodes_).length < NODE_INFO_SIZE := by
    rw [length_nodesText, hfull.count, hfull.alive_count, hnil]
    show nodesFrame + (printInt 0).length + (printInt 0).length + 0 < NODE_INFO_SIZE
    decide +kernel
  have hv := hfull.valid (Nat.zero_le _)
  rw [Op.bind_ok (writeNodesInfo_of_fits (by rw [hshm]; exact hsize) hv hfits)]
  refine ⟨_, rfl, hfull, fun _ => hfits, ?_, ?_, ?_⟩
  · show s.shm.size = _
    rw [hshm]
    exact hsize
  · show Holds (ByteMem.write s.shm.mem _ _) _ _ _
    rw [hshm]
    exact holds_topics htopics
  · show ∃ h n, Holds (ByteMem.write s.shm.mem _ _) _ _ h ∧ _ ∧ n.Full 0 ∧ _ ∧
      Reads D ⟨s.shm.size, _⟩ n ∧ _
    rw [hshm]
    -- the text covers what was there, or is read with the rest of it
    rcases Reads.of_write (D := D) f hlt (by rw [hsize]; decide) hv hfits with ⟨-, f', hr⟩ | ⟨-, f', hr⟩
    · rw [NodesInfo.seen_of_legible hleg] at hr
      exact ⟨_, _, f', hfits, hfull, hleg, hr, fun h => absurd h (Nat.lt_irrefl 0)⟩
    · exact ⟨_, _, f', hlt, NodesInfo.zero_full, NodesInfo.zero_legible, hr, fun h => absurd h (Nat.lt_irrefl 0)⟩

/-- **One orderly exit.** -/
theorem Cluster.Sound.exit {c c' : Cluster D} (h : c.Sound) {i : Nat} (hord : c.Orderly (.exit i))
    (hstep : NodeAct.Step c (.exit i) c') : c'.Sound := by
  have hlive : c.live = {i} := hord
  have hone : c.live.card = 1 := by rw [hlive, Finset.card_singleton]
  have hnone : c.live.erase i = ∅ := by rw [hlive, Finset.erase_singleton]
  cases hstep with
  | exit hi hdef hfits =>
    obtain ⟨-, hpos, hle⟩ := (h.copies i).2 hi
    rw [hone] at hle
    obtain ⟨s, hok, hfull, -, hregion⟩ := removeNode_alone h hi (by omega) (by omega)
    have hc := hfull.count
    have ha := hfull.alive_count
    rw [hok]
    refine ⟨?_, ?_, fun j hj => ?_, ?_⟩
    · show SoundRegion D s.shm (c.live.erase i).card
      rw [hnone]
      exact hregion
    · show (c.live.erase i).card < _
      rw [hnone]
      decide
    · exact h.live_lt j (Finset.mem_of_mem_erase hj)
    · show ∀ j, (j < c.started → (Function.update c.cache i s.mgr j).NonNeg) ∧
        (j ∈ c.live.erase i → (Function.update c.cache i s.mgr j).Counted (c.live.erase i).card)
      rw [hnone]
      refine (Function.forall_update_iff c.cache (p := fun j m => (j < c.started → m.NonNeg) ∧
        (j ∈ (∅ : Finset Nat) → m.Counted (∅ : Finset Nat).card))).2
          ⟨⟨fun _ => ?_, fun hj => ?_⟩, fun j _ => ⟨(h.copies j).1, fun hj => ?_⟩⟩
      · unfold ShmManager.NonNeg
        omega
      · exact absurd hj (Finset.notMem_empty i)
      · exact absurd hj (Finset.notMem_empty j)

/-- **The counts are right in every state of every orderly run.** -/
theorem countsRight_of_run {c : Cluster D} {as : List NodeAct}
    (h : Trans.Run NodeAct.Step Cluster.Orderly Cluster.init as c) : c.CountsRight := by
  refine (h.invariant Cluster.init_sound ?_).countsRight
  rintro c a c' hs hord hstep
  cases a with
  | start x => exact hs.start hord hstep
  | sync i => exact hs.sync hstep
  | exit i => exact hs.exit hord hstep

/-! ## Two runs -/

theorem NodeAct.Step.of_start {c : Cluster D} (h : c.Sound) {n : NodesInfo} (hn : n.Full c.live.card)
    (hr : Reads D c.shm n) {x : NewNode} {name : CName} (hname : strcpy x.node_name_ = .ok name)
    (hcard : c.live.card + 1 < MAX_NODE_COUNT)
    (hfits : (nodesText D (n.enter c.live.card (x.info c.live.card.toInt32 name))).length < NODE_INFO_SIZE) :
    ∃ s, c.Entered (n.enter c.live.card (x.info c.live.card.toInt32 name)) s ∧
      NodeAct.Step c (.start x) (c.enrol s) := by
  obtain ⟨s, hok, he⟩ := startNode_ok h hn hr hname hfits
  refine ⟨s, he, ?_⟩
  have hstep := NodeAct.Step.start (c := c) (x := x) hcard (by rw [hok]; exact id) (by
    rw [hok]
    show s.mgr.nodes_.Valid → (nodesText D s.mgr.nodes_).length < NODE_INFO_SIZE
    rw [he.nodes]
    exact fun _ => hfits)
  rw [hok] at hstep
  exact hstep

end Step

def talkerNode : NewNode := ⟨utf8 "talker", 0, 0, 0, 0⟩

def talkerName : CName := ⟨utf8 "talker", talker_ne_zero, talker_length_lt⟩

theorem strcpy_talker : strcpy talkerNode.node_name_ = .ok talkerName := by decide +kernel

/-- The table with one node. -/
def oneNode : NodesInfo := NodesInfo.zero.enter 0 (talkerNode.info 0 talkerName)

theorem oneNode_full : oneNode.Full 1 := NodesInfo.zero_full.enter (by decide) rfl

theorem oneNode_legible : oneNode.Legible := by decide +kernel

theorem eight_not_mem_talker {name : CName} (h : strcpy talkerNode.node_name_ = .ok name) : 8 ∉ name.bytes := by
  cases strcpy_talker.symm.trans h
  decide +kernel

theorem one_started : ∃ c : Cluster (List UInt8),
    NodeAct.Step Cluster.init (.start talkerNode) c ∧ Cluster.Orderly (Cluster.init : Cluster (List UInt8))
      (.start talkerNode) ∧ c.started = 1 ∧ c.live = {0} ∧ c.Sound ∧ Reads (List UInt8) c.shm oneNode := by
  have hcard : (Cluster.init : Cluster (List UInt8)).live.card = 0 := rfl
  have hfits : (nodesText (List UInt8) oneNode).length < NODE_INFO_SIZE := by decide +kernel
  have hone : (Cluster.init : Cluster (List UInt8)).live.card + 1 < MAX_NODE_COUNT := by rw [hcard]; decide
  obtain ⟨s, he, hstep⟩ := NodeAct.Step.of_start Cluster.init_sound NodesInfo.zero_full reads_fresh strcpy_talker hone
    hfits
  have hzero : nodeSectionLength (Cluster.init : Cluster (List UInt8)).shm = 0 :=
    nodeSectionLength_of_holds (ByteMem.Filled.zero _ _ _)
  obtain ⟨hs, hr⟩ := Cluster.init_sound.enter oneNode_full oneNode_legible he hone (by omega)
  exact ⟨_, hstep, fun name hname => ⟨eight_not_mem_talker hname, fun _ => by omega⟩, rfl, rfl, hs, hr⟩

/-- Two nodes of one name start. -/
theorem two_started : ∃ c₁ c₂ : Cluster (List UInt8),
    NodeAct.Step Cluster.init (.start talkerNode) c₁ ∧ NodeAct.Step c₁ (.start talkerNode) c₂ ∧
      Cluster.Orderly (Cluster.init : Cluster (List UInt8)) (.start talkerNode) ∧ c₁.Orderly (.start talkerNode) ∧
      c₂.live = {0, 1} ∧ c₂.Sound ∧ ((c₂.cache 0).nodes_.nodes_count.toInt = 1 ∧
        (c₂.cache 0).nodes_.alive_node_count.toInt = 1) := by
  obtain ⟨c₁, hstep₁, hord₁, hstarted, hlive, hs₁, hr₁⟩ := one_started
  have hcard : c₁.live.card = 1 := by rw [hlive]; rfl
  have hfull : oneNode.Full c₁.live.card := by rw [hcard]; exact oneNode_full
  have hfits : (nodesText (List UInt8) (oneNode.enter c₁.live.card
      (talkerNode.info c₁.live.card.toInt32 talkerName))).length < NODE_INFO_SIZE := by
    rw [hcard]
    decide +kernel
  obtain ⟨s, he, hstep₂⟩ := NodeAct.Step.of_start hs₁ hfull hr₁ strcpy_talker (by rw [hcard]; decide) hfits
  have hord₂ : c₁.Orderly (.start talkerNode) := fun name hname =>
    ⟨eight_not_mem_talker hname, fun hnone => absurd hnone (by rw [hlive]; decide)⟩
  have hs₂ := hs₁.start hord₂ hstep₂
  generalize hc₂ : c₁.enrol s = c₂ at hstep₂ hs₂
  have hlive₂ : c₂.live = {0, 1} := by
    rw [← hc₂]
    show insert c₁.started c₁.live = _
    rw [hstarted, hlive]
    decide
  -- the first node's copy knows nothing of the second
  have hcopy : c₂.cache 0 = c₁.cache 0 := by
    rw [← hc₂]
    exact Function.update_of_ne (by rw [hstarted]; decide) _ _
  obtain ⟨-, hpos, hle⟩ := (hs₁.copies 0).2 (by rw [hlive]; decide)
  rw [hcard] at hle
  exact ⟨c₁, c₂, hstep₁, hstep₂, hord₁, hord₂, hlive₂, hs₂, by rw [hcopy]; omega⟩

/-- Two nodes start and the first looks at the region again. -/
theorem countsRight_of_start : ∃ c : Cluster (List UInt8), c.live.card = 2 ∧ c.CountsRight := by
  obtain ⟨c₁, c₂, hstep₁, hstep₂, hord₁, hord₂, hlive, hs₂, -⟩ := two_started
  have hmem : 0 ∈ c₂.live := by rw [hlive]; decide
  obtain ⟨_, n, -, -, -, -, hr, -⟩ := hs₂.region.section_
  have hsync := hr.sync_eq hs₂.region.size hs₂.region.topics (s := c₂.view 0) rfl
  have hstep₃ : NodeAct.Step c₂ (.sync 0) _ := .sync hmem (by rw [hsync]; exact id)
  have hord₃ : c₂.Orderly (.sync 0) := trivial
  exact ⟨_, by show c₂.live.card = 2; rw [hlive]; rfl,
    countsRight_of_run (.snoc (.snoc (.single hord₁ hstep₁) hord₂ hstep₂) hord₃ hstep₃)⟩

/-- Two nodes start and the first exits: the region has no nodes, and one is live. -/
theorem countsRight_not_always : ¬ ∀ (c : Cluster (List UInt8)) (as : List NodeAct),
    Trans.Run NodeAct.Step Trans.free Cluster.init as c → c.CountsRight := by
  intro h
  obtain ⟨c₁, c₂, hstep₁, hstep₂, -, -, hlive, hs₂, hcount, halive⟩ := two_started
  have hmem : 0 ∈ c₂.live := by rw [hlive]; decide
  obtain ⟨s₃, hok, -, hfits₃, hregion⟩ := removeNode_alone hs₂ hmem hcount halive
  have hstep₃ := NodeAct.Step.exit hmem (by rw [hok]; exact id) (by rw [hok]; exact hfits₃)
  have hright : ReadsCounts (D := List UInt8) s₃.shm (c₂.live.erase 0).card := by
    have hall := (h _ _ (.snoc (.snoc (.single trivial hstep₁) trivial hstep₂) trivial hstep₃)).region
    rw [hok] at hall
    exact hall
  rw [show (c₂.live.erase 0).card = 1 by rw [hlive]; decide] at hright
  obtain ⟨-, -, _, n, -, -, hn, -, hr, -⟩ := hregion
  obtain ⟨s₄, h₄, hcount, -⟩ := hright s₃ rfl
  obtain ⟨s₅, h₅, hzero, -⟩ := hr.counts hn s₃ rfl
  rw [h₄] at h₅
  cases h₅
  rw [hcount] at hzero
  exact absurd hzero (by decide)

end MiniRos2

import MiniRos2.NodeCounts
/-!
# NodeIds — nodes that start at the same time

A start reads the node table when the manager is constructed, takes the first slot that is free in its copy, and writes
its copy out with itself in that slot; `registry_mutex_` protects each of the three from the other threads of the
process only.  Two nodes that read before either has written take the same slot.  As long as every node still has all
live nodes in its copy when it writes, and what is written can be read back, which takes names without a backspace, no
two live nodes have one id (`idsDiffer_of_run`).
-/
namespace MiniRos2

variable {D : Type}

section Calls

variable [DoubleText D]

/-- `registerNode` up to the choice of the slot: whether the node goes on. -/
def chooseNodeId : Op D Bool := do
  let n := (← get).mgr.nodes_
  if (MAX_NODE_COUNT : Int) ≤ n.alive_node_count.toInt then pure false
  else
    let node_id_ := getNextNodeId n
    setNodeId node_id_
    pure (decide (node_id_ ≠ -1))

/-- The rest of `registerNode`. -/
def enterNode (x : NewNode) : Op D Unit := do
  let node_id_ := (← get).mgr.node_id_
  let node_name ← liftE (strcpy x.node_name_)
  addNode (x.info node_id_ node_name)

def Registry.withId (s : Registry D) (node_id : Int32) : Registry D :=
  { s with mgr := { s.mgr with node_id_ := node_id } }

omit [DoubleText D] in
theorem chooseNodeId_full {s : Registry D} (h : (MAX_NODE_COUNT : Int) ≤ s.mgr.nodes_.alive_node_count.toInt) :
    chooseNodeId s = .ok false s := by
  rw [chooseNodeId, Op.get_bind, if_pos h]
  rfl

omit [DoubleText D] in
theorem chooseNodeId_of_room {s : Registry D} (h : ¬ (MAX_NODE_COUNT : Int) ≤ s.mgr.nodes_.alive_node_count.toInt) :
    chooseNodeId s =
      .ok (decide (getNextNodeId s.mgr.nodes_ ≠ -1)) (s.withId (getNextNodeId s.mgr.nodes_)) := by
  rw [chooseNodeId, Op.get_bind, if_neg h]
  rfl

/-- The two parts are the source's function. -/
theorem registerNode_eq (x : NewNode) :
    (registerNode x : Op D Unit) = chooseNodeId >>= fun go => if go then enterNode x else pure () := by
  funext s
  by_cases h : (MAX_NODE_COUNT : Int) ≤ s.mgr.nodes_.alive_node_count.toInt
  · rw [registerNode, Op.get_bind, if_pos h, Op.bind_ok (chooseNodeId_full h)]
    rfl
  · have hset : setNodeId (getNextNodeId s.mgr.nodes_) s = .ok () (s.withId (getNextNodeId s.mgr.nodes_)) := rfl
    rw [registerNode, Op.get_bind, if_neg h, Op.bind_ok hset, Op.bind_ok (chooseNodeId_of_room h)]
    by_cases hid : getNextNodeId s.mgr.nodes_ = -1
    · simp [hid]
    · simp only [hid, if_false, ne_eq, not_false_eq_true, decide_true, if_true]
      rfl

end Calls

section Tables

variable [DoubleText D]

/-! ## What the section holds -/

/-- The text of the table fits the section. -/
def NodesInfo.Fits (D : Type) [DoubleText D] (n : NodesInfo) : Prop :=
  n.Valid → (nodesText D n).length < NODE_INFO_SIZE

/-- The region has no topics, and its node section is read as this table. -/
structure HoldsTable (D : Type) [DoubleText D] (shm : Region) (n : NodesInfo) : Prop where
  size : shm.size = sizeofShmHead + MAX_SHM_MANGER_SIZE
  topics : Holds shm.mem 0 TOPIC_INFO_SIZE 0
  section_ : ∃ h, Holds shm.mem TOPIC_INFO_SIZE NODE_INFO_SIZE h ∧ h < NODE_INFO_SIZE
  valid : n.Valid
  legible : n.Legible
  reads : Reads D shm n

omit [DoubleText D] in
theorem NodesInfo.Valid.seen {n : NodesInfo} (h : n.Valid) : n.seen.Valid := by
  unfold NodesInfo.seen
  split
  · exact h
  · exact NodesInfo.zero_full.valid (Nat.zero_le _)

omit [DoubleText D] in
theorem NodesInfo.seen_legible (n : NodesInfo) : n.seen.Legible := by
  unfold NodesInfo.seen
  split
  · assumption
  · exact NodesInfo.zero_legible

theorem holdsTable_fresh :
    HoldsTable D (Region.fresh (sizeofShmHead + MAX_SHM_MANGER_SIZE)) NodesInfo.zero where
  size := rfl
  topics := ByteMem.Filled.zero _ _ _
  section_ := ⟨0, ByteMem.Filled.zero _ _ _, by decide⟩
  valid := NodesInfo.zero_full.valid (Nat.zero_le _)
  legible := NodesInfo.zero_legible
  reads := reads_fresh

/-- **A call that writes the node table** leaves the region alone, or leaves it with the table, as a reader sees it, or
with an empty one when the text does not cover what was there. -/
theorem HoldsTable.outcome {s : Registry D} {n₀ n : NodesInfo} {c : NodeCall}
    {r : EStateM.Result Abort (Registry D) Unit} (h : HoldsTable D s.shm n₀)
    (hc : ∀ topic event, c ≠ .addPub topic event) (ho : c.Outcome n s r) (hfits : n.Fits D) :
    (finalState r).shm = s.shm ∧ answer r = none ∨
      ((finalState r).mgr.nodes_ = n ∧ n.Valid ∧
        (HoldsTable D (finalState r).shm n.seen ∨
          (nodesText D n).length < nodeSectionLength s.shm ∧ HoldsTable D (finalState r).shm NodesInfo.zero)) := by
  obtain ⟨hsize, htopics, ⟨l, f, hlt⟩, -, -, -⟩ := h
  have hmem : ∀ {m : ByteMem.Mem}, TopicsWritten c s m → m = s.shm.mem := by
    rintro m (⟨-, rfl⟩ | ⟨topic, event, t, he, -⟩)
    · rfl
    · exact absurd he (hc topic event)
  cases ho with
  | @returned s' m hm hn hv hshm =>
    rw [hmem hm] at hshm
    refine .inr ⟨hn, hv, ?_⟩
    rw [nodeSectionLength_of_holds f]
    have hsize' : s'.shm.size = sizeofShmHead + MAX_SHM_MANGER_SIZE := by rw [hshm, hsize]
    have htopics' := holds_topics (t := nodesText D n) htopics
    rcases Reads.of_write (D := D) f hlt (by rw [hsize]; decide) hv (hfits hv) with ⟨-, f', hr⟩ | ⟨hshort, f', hr⟩
    · rw [← hshm] at f' hr
      exact .inl ⟨hsize', by rw [finalState, hshm]; exact htopics', ⟨_, f', hfits hv⟩, hv.seen, n.seen_legible, hr⟩
    · rw [← hshm] at f' hr
      exact .inr ⟨hshort, hsize', by rw [finalState, hshm]; exact htopics', ⟨_, f', hlt⟩,
        NodesInfo.zero_full.valid (Nat.zero_le _), NodesInfo.zero_legible, hr⟩
  | kept hshm => exact .inl ⟨hshm, rfl⟩
  | half hm _ hshm =>
    rw [hmem hm] at hshm
    exact .inl ⟨hshm, rfl⟩

end Tables

/-! ## Nodes on one region -/

/-- Where the start of a node is, and what became of it. -/
inductive StartPc where
  | absent
  | constructed
  | chosen
  | live
  | gone
  deriving DecidableEq

/-- The shared region and event bits, and every node's manager. -/
structure Starting (ι D : Type) where
  shm : Region
  event_flag_ : Nat → Bool
  cache : ι → ShmManager
  pc : ι → StartPc

inductive StartAct (ι : Type) where
  | construct (i : ι)
  | choose (i : ι)
  | enter (i : ι) (x : NewNode)
  | sync (i : ι)
  | exit (i : ι)

variable {ι : Type}

/-- What a call of node `i` works on. -/
def Starting.view (c : Starting ι D) (i : ι) : Registry D := ⟨c.cache i, c.shm, c.event_flag_⟩

/-- The manager of a node that starts. -/
def Starting.newcomer (c : Starting ι D) : Registry D := ⟨ShmManager.init, c.shm, c.event_flag_⟩

def Starting.init : Starting ι D :=
  ⟨Region.fresh (sizeofShmHead + MAX_SHM_MANGER_SIZE), fun _ => false, fun _ => ShmManager.init, fun _ => .absent⟩

/-- **No two live nodes have one id.** -/
def Starting.IdsDiffer (c : Starting ι D) : Prop :=
  ∀ i j, c.pc i = .live → c.pc j = .live → (c.cache i).node_id_ = (c.cache j).node_id_ → i = j

section Step

variable [DoubleText D] [DecidableEq ι]

/-- After a call of node `i`. -/
def Starting.after {α : Type} (c : Starting ι D) (i : ι) (r : EStateM.Result Abort (Registry D) α) (pc : StartPc) :
    Starting ι D where
  shm := (finalState r).shm
  event_flag_ := (finalState r).event_flag_
  cache := Function.update c.cache i (finalState r).mgr
  pc := Function.update c.pc i pc

/-- A node whose constructor threw is gone. -/
def StartPc.unlessThrown {α : Type} (r : EStateM.Result Abort (Registry D) α) (pc : StartPc) : StartPc :=
  if (answer r).isSome then pc else .gone

/-- **One step of one node**: one of the three of its start, a sync, or its exit. -/
inductive StartAct.Step (c : Starting ι D) : StartAct ι → Starting ι D → Prop where
  | construct {i : ι} : c.pc i = .absent → ¬ Undefined (initializeRegistry_ c.newcomer) →
      Step c (.construct i)
        (c.after i (initializeRegistry_ c.newcomer) (.unlessThrown (initializeRegistry_ c.newcomer) .constructed))
  | choose {i : ι} : c.pc i = .constructed →
      Step c (.choose i)
        (c.after i (chooseNodeId (c.view i)) (if answer (chooseNodeId (c.view i)) = some true then .chosen else .gone))
  | enter {i : ι} {x : NewNode} : c.pc i = .chosen → ¬ Undefined (enterNode x (c.view i)) →
      Step c (.enter i x) (c.after i (enterNode x (c.view i)) (.unlessThrown (enterNode x (c.view i)) .live))
  | sync {i : ι} : c.pc i = .live → ¬ Undefined (syncRegistryFromShm (c.view i)) →
      Step c (.sync i) (c.after i (syncRegistryFromShm (c.view i)) .live)
  | exit {i : ι} : c.pc i = .live → ¬ Undefined (removeNode (c.view i)) →
      Step c (.exit i) (c.after i (removeNode (c.view i)) .gone)

/-- Every live node is alive in the copy of node `i`. -/
def Starting.Current (c : Starting ι D) (i : ι) : Prop :=
  ∀ j, c.pc j = .live → ∃ k : Nat, (c.cache j).node_id_.toInt = k ∧ ((c.cache i).nodes_.nodes k).is_alive = true

/-- **A node enters with all live nodes in its copy, no backspace in its name and a text that covers what the section
holds, and only a node that is alone exits.**  What is written fits the section. -/
def Starting.Orderly (c : Starting ι D) : StartAct ι → Prop
  | .enter i x => c.Current i ∧ ∀ k name, nodeSlot (c.cache i).node_id_.toInt = .ok k → strcpy x.node_name_ = .ok name →
      8 ∉ name.bytes ∧ (NodeCall.table k (c.cache i).nodes_ (.add (x.info (c.cache i).node_id_ name))).Fits D ∧
        nodeSectionLength c.shm ≤
          (nodesText D (NodeCall.table k (c.cache i).nodes_ (.add (x.info (c.cache i).node_id_ name)))).length
  | .exit i => (∀ j, c.pc j = .live → j = i) ∧
      ∀ k, nodeSlot (c.cache i).node_id_.toInt = .ok k → (NodeCall.table k (c.cache i).nodes_ .remove).Fits D
  | _ => True

/-! ## The invariant -/

/-- The table has this id's slot among those that are written, and alive. -/
def NodesInfo.Has (n : NodesInfo) (node_id : Int32) : Prop :=
  ∃ k : Nat, node_id.toInt = k ∧ k < n.count ∧ (n.nodes k).is_alive = true

/-- No slot that is not written is alive. -/
def NodesInfo.Trim (n : NodesInfo) : Prop := ∀ k, (n.nodes k).is_alive = true → k < n.count

/-- No name has a backspace, in the slots that are written or behind them. -/
def NodesInfo.Plain (n : NodesInfo) : Prop := ∀ k, 8 ∉ (n.nodes k).node_name.bytes

/-- The id's slot is free, and will be written. -/
def NodesInfo.Free (n : NodesInfo) (node_id : Int32) : Prop :=
  ∃ k : Nat, node_id.toInt = k ∧ k ≤ n.count ∧ (n.nodes k).is_alive = false

/-- **What holds as long as the nodes are orderly.** -/
structure Starting.Sound (c : Starting ι D) : Prop where
  table : ∃ n, HoldsTable D c.shm n ∧ ∀ i, c.pc i = .live → n.Has (c.cache i).node_id_
  copies : ∀ i, c.pc i = .constructed ∨ c.pc i = .chosen → (c.cache i).nodes_.Valid ∧
    (c.cache i).nodes_.Trim ∧ (c.cache i).nodes_.Plain
  chosen : ∀ i, c.pc i = .chosen → (c.cache i).nodes_.Free (c.cache i).node_id_
  apart : c.IdsDiffer

omit [DecidableEq ι] in
theorem Starting.init_sound : (Starting.init : Starting ι D).Sound where
  table := ⟨_, holdsTable_fresh, nofun⟩
  copies := nofun
  chosen := nofun
  apart := nofun

/-- One node moves: the table still has the others, and the node's own part holds. -/
theorem Starting.Sound.after {α : Type} {c : Starting ι D} (h : c.Sound) {i : ι}
    {r : EStateM.Result Abort (Registry D) α} {pc : StartPc} {n : NodesInfo}
    (htable : HoldsTable D (finalState r).shm n)
    (hothers : ∀ j, j ≠ i → c.pc j = .live → n.Has (c.cache j).node_id_)
    (hlive : pc = .live → n.Has (finalState r).mgr.node_id_ ∧
      ∀ j, j ≠ i → c.pc j = .live → (finalState r).mgr.node_id_ ≠ (c.cache j).node_id_)
    (hcopy : pc = .constructed ∨ pc = .chosen → (finalState r).mgr.nodes_.Valid ∧ (finalState r).mgr.nodes_.Trim ∧
      (finalState r).mgr.nodes_.Plain)
    (hchosen : pc = .chosen → (finalState r).mgr.nodes_.Free (finalState r).mgr.node_id_) :
    (c.after i r pc).Sound := by
  have hself : (c.after i r pc).pc i = pc ∧ (c.after i r pc).cache i = (finalState r).mgr :=
    ⟨Function.update_self .., Function.update_self ..⟩
  have hother : ∀ j, j ≠ i → (c.after i r pc).pc j = c.pc j ∧ (c.after i r pc).cache j = c.cache j :=
    fun j hj => ⟨Function.update_of_ne hj _ _, Function.update_of_ne hj _ _⟩
  refine ⟨⟨n, htable, fun j => ?_⟩, fun j => ?_, fun j => ?_, fun j k hj hk hid => ?_⟩
  · by_cases hji : j = i
    · rw [hji, hself.1, hself.2]
      exact fun hl => (hlive hl).1
    · rw [(hother j hji).1, (hother j hji).2]
      exact hothers j hji
  · by_cases hji : j = i
    · rw [hji, hself.1, hself.2]
      exact hcopy
    · rw [(hother j hji).1, (hother j hji).2]
      exact h.copies j
  · by_cases hji : j = i
    · rw [hji, hself.1, hself.2]
      exact hchosen
    · rw [(hother j hji).1, (hother j hji).2]
      exact h.chosen j
  · by_cases hji : j = i
    · by_cases hki : k = i
      · rw [hji, hki]
      · rw [hji, hself.1] at hj
        rw [(hother k hki).1] at hk
        rw [hji, hself.2, (hother k hki).2] at hid
        exact absurd hid ((hlive hj).2 k hki hk)
    · by_cases hki : k = i
      · rw [(hother j hji).1] at hj
        rw [hki, hself.1] at hk
        rw [hki, hself.2, (hother j hji).2] at hid
        exact absurd hid.symm ((hlive hk).2 j hji hj)
      · rw [(hother j hji).1] at hj
        rw [(hother k hki).1] at hk
        rw [(hother j hji).2, (hother k hki).2] at hid
        exact h.apart j k hj hk hid

omit [DoubleText D] [DecidableEq ι] in
theorem NodesInfo.load_trim (n : NodesInfo) : (n.load NodesInfo.zero).Trim := by
  intro k hk
  have hcount : (n.load NodesInfo.zero).count = n.count := rfl
  rw [hcount]
  by_cases hlt : k < n.count
  · exact hlt
  · simp [NodesInfo.load, hlt, NodesInfo.zero, NodeInfo.zero] at hk

omit [DoubleText D] [DecidableEq ι] in
theorem NodesInfo.Legible.load_plain {n : NodesInfo} (h : n.Legible) : (n.load NodesInfo.zero).Plain := by
  intro k
  show 8 ∉ (if k < n.count then n.nodes k else NodeInfo.zero).node_name.bytes
  split
  · exact h k ‹_›
  · exact List.not_mem_nil

omit [DoubleText D] [DecidableEq ι] in
theorem NodesInfo.Plain.add {n : NodesInfo} (h : n.Plain) {k : Nat} {x : NodeInfo} (hx : 8 ∉ x.node_name.bytes) :
    (NodeCall.table k n (.add x)).Legible :=
  fun j _ => (Function.forall_update_iff n.nodes (p := fun _ m => 8 ∉ m.node_name.bytes)).2 ⟨hx, fun j _ => h j⟩ j

omit [DoubleText D] [DecidableEq ι] in
theorem NodesInfo.Trim.free {n : NodesInfo} (h : n.Trim) (hid : getNextNodeId n ≠ -1) :
    n.Free (getNextNodeId n) := by
  unfold getNextNodeId at hid ⊢
  cases hfind : (List.range MAX_NODE_COUNT).find? (fun i => !(n.nodes i).is_alive) with
  | none => simp [hfind] at hid
  | some k =>
    obtain ⟨hk, hmem, hbefore⟩ := List.find?_range_eq_some.1 hfind
    refine ⟨k, toInt_small (List.mem_range.1 hmem), ?_, by simpa using hk⟩
    -- all slots before it are alive
    by_contra hlt
    have halive : (n.nodes n.count).is_alive = true := by simpa using hbefore n.count (by omega)
    exact Nat.lt_irrefl _ (h _ halive)

/-! ## The steps -/

/-- The copy of a manager that was just constructed is the table. -/
theorem Starting.Sound.construct {c : Starting ι D} (h : c.Sound) {i : ι} :
    (c.after i (initializeRegistry_ c.newcomer)
      (.unlessThrown (initializeRegistry_ c.newcomer) .constructed)).Sound := by
  obtain ⟨n, htable, hlive⟩ := h.table
  have hread : initializeRegistry_ c.newcomer = _ :=
    htable.reads.sync_eq htable.size htable.topics (s := c.newcomer) rfl
  rw [hread]
  exact h.after htable (fun j _ => hlive j) nofun (fun _ => ⟨htable.valid, n.load_trim, htable.legible.load_plain⟩)
    nofun

theorem Starting.Sound.choose {c : Starting ι D} (h : c.Sound) {i : ι} (hi : c.pc i = .constructed) :
    (c.after i (chooseNodeId (c.view i))
      (if answer (chooseNodeId (c.view i)) = some true then .chosen else .gone)).Sound := by
  obtain ⟨n, htable, hlive⟩ := h.table
  obtain ⟨hvalid, htrim, hplain⟩ := h.copies i (.inl hi)
  by_cases hfull : (MAX_NODE_COUNT : Int) ≤ (c.cache i).nodes_.alive_node_count.toInt
  · rw [chooseNodeId_full (s := c.view i) hfull]
    exact h.after htable (fun j _ => hlive j) nofun (by simp [answer]) (by simp [answer])
  · rw [chooseNodeId_of_room (s := c.view i) hfull]
    refine h.after htable (fun j _ => hlive j) ?_ (fun _ => ⟨hvalid, htrim, hplain⟩) fun hchosen => htrim.free ?_
    · intro hpc
      split at hpc <;> cases hpc
    · intro hid
      simp [answer, Starting.view, hid] at hchosen

/-- Only the node's own copy is read. -/
theorem Starting.Sound.sync {c : Starting ι D} (h : c.Sound) {i : ι} (hi : c.pc i = .live) :
    (c.after i (syncRegistryFromShm (c.view i)) .live).Sound := by
  obtain ⟨n, htable, hlive⟩ := h.table
  rw [htable.reads.sync_eq htable.size htable.topics (s := c.view i) rfl]
  refine h.after htable (fun j _ => hlive j) (fun _ => ⟨hlive i hi, fun j hj hlj hid => hj ?_⟩) nofun nofun
  exact (h.apart i j hi hlj hid).symm

/-- A node that is alone leaves no live node. -/
theorem Starting.Sound.exit {c : Starting ι D} (h : c.Sound) {i : ι} (hord : c.Orderly (.exit i))
    (hdef : ¬ Undefined (removeNode (c.view i))) : (c.after i (removeNode (c.view i)) .gone).Sound := by
  obtain ⟨n, htable, -⟩ := h.table
  obtain ⟨halone, hfits⟩ := hord
  have hnone : ∀ m : NodesInfo, ∀ j, j ≠ i → c.pc j = .live → m.Has (c.cache j).node_id_ :=
    fun m j hj hlj => absurd (halone j hlj) hj
  rcases NodeCall.remove.run_cases (c.view i) with hu | ⟨k, hk, ho⟩
  · exact absurd hu hdef
  · rcases htable.outcome (s := c.view i) (by simp) ho (hfits k hk) with ⟨hsame, -⟩ | ⟨-, -, hnew | ⟨-, hnew⟩⟩
    · exact h.after (r := removeNode (c.view i)) (n := n) (hsame ▸ htable) (hnone n) nofun nofun nofun
    · exact h.after hnew (hnone _) nofun nofun nofun
    · exact h.after hnew (hnone _) nofun nofun nofun

omit [DoubleText D] [DecidableEq ι] in
theorem NodesInfo.has_of_add {n : NodesInfo} (hn : n.Valid) {k j : Nat} {x : NodeInfo} (hx : x.is_alive = true)
    {node_id : Int32} (hid : node_id.toInt = j) (hj : j ≤ n.count) (halive : j = k ∨ (n.nodes j).is_alive = true) :
    (NodeCall.table k n (.add x)).Has node_id := by
  obtain ⟨hpos, hmax⟩ := hn
  have hcount : (NodeCall.table k n (.add x)).count = n.count + 1 := by
    unfold NodesInfo.count MAX_NODE_COUNT at *
    simp only [NodeCall.table]
    rw [Int32.toInt_succ (by omega)]
    omega
  refine ⟨j, hid, by omega, ?_⟩
  by_cases hjk : j = k
  · simp [NodeCall.table, NodesInfo.set, hjk, hx]
  · simp [NodeCall.table, NodesInfo.set, hjk, halive.resolve_left hjk]

theorem enterNode_eq {x : NewNode} {name : CName} (hname : strcpy x.node_name_ = .ok name) (s : Registry D) :
    enterNode x s = (NodeCall.add (x.info s.mgr.node_id_ name)).run s := by
  rw [enterNode, Op.get_bind, Op.bind_ok (liftE_ok hname s)]
  rfl

/-- **A node that has all live nodes in its copy** enters beside them. -/
theorem Starting.Sound.enter {c : Starting ι D} (h : c.Sound) {i : ι} {x : NewNode} (hi : c.pc i = .chosen)
    (hord : c.Orderly (.enter i x)) (hdef : ¬ Undefined (enterNode x (c.view i))) :
    (c.after i (enterNode x (c.view i)) (.unlessThrown (enterNode x (c.view i)) .live)).Sound := by
  obtain ⟨n, htable, hlive⟩ := h.table
  obtain ⟨hcurrent, htext⟩ := hord
  obtain ⟨hvalid, htrim, hplain⟩ := h.copies i (.inr hi)
  rcases strcpy_cases x.node_name_ with ⟨name, hname⟩ | hname
  swap
  · rw [enterNode, Op.get_bind, Op.bind_error (liftE_error hname _)] at hdef
    exact absurd rfl hdef
  have heq : enterNode x (c.view i) = (NodeCall.add (x.info (c.cache i).node_id_ name)).run (c.view i) :=
    enterNode_eq hname (c.view i)
  rcases (NodeCall.add (x.info (c.cache i).node_id_ name)).run_cases (c.view i) with hu | ⟨k, hk, ho⟩
  · rw [heq] at hdef
    exact absurd hu hdef
  rw [heq]
  obtain ⟨h8, hfits, hcov⟩ := htext k name hk hname
  have hid : (finalState ((NodeCall.add (x.info (c.cache i).node_id_ name)).run (c.view i))).mgr.node_id_ =
      (c.cache i).node_id_ := by
    rw [NodeCall.run, addNode_eq hk, (writeNodesInfo_frame _).1]
    rfl
  rcases htable.outcome (s := c.view i) (by simp) ho hfits with ⟨hsame, hthrown⟩ | ⟨-, hnew, hto | ⟨hshort, -⟩⟩
  · rw [StartPc.unlessThrown, hthrown]
    refine h.after (hsame ▸ htable) (fun j _ => hlive j) (fun hpc => ?_) (fun hpc => ?_) fun hpc => ?_
    · cases hpc
    · rcases hpc with hpc | hpc <;> cases hpc
    · cases hpc
  · have hlegible : (NodeCall.table k (c.view i).mgr.nodes_ (.add (x.info (c.cache i).node_id_ name))).Legible :=
      NodesInfo.Plain.add (x := x.info (c.cache i).node_id_ name) hplain h8
    rw [NodesInfo.seen_of_legible hlegible] at hto
    obtain ⟨k', hk', hle, hfree⟩ := h.chosen i hi
    obtain rfl : k = k' := by
      have hslot := (arraySlot_eq_ok hk).1
      change (c.cache i).node_id_.toInt = k at hslot
      omega
    refine h.after hto (fun j _ hlj => ?_) (fun _ => ⟨?_, fun j _ hlj heq => ?_⟩) ?_ ?_
    · obtain ⟨l, hl, halive⟩ := hcurrent j hlj
      exact NodesInfo.has_of_add hvalid rfl hl (Nat.le_of_lt (htrim l halive)) (.inr halive)
    · rw [hid]
      exact NodesInfo.has_of_add hvalid rfl hk' hle (.inl rfl)
    · obtain ⟨l, hl, halive⟩ := hcurrent j hlj
      rw [hid] at heq
      rw [← heq, hk'] at hl
      rw [Int.ofNat_inj.1 hl, halive] at hfree
      cases hfree
    · unfold StartPc.unlessThrown
      split <;> simp
    · unfold StartPc.unlessThrown
      split <;> simp
  · exact absurd hshort (Nat.not_lt.2 hcov)

/-- **No two live nodes have one id**, in any state of any run in which every node that enters has all live nodes in its
copy, what is written can be read back, and only a node that is alone exits. -/
theorem idsDiffer_of_run {c : Starting ι D} {as : List (StartAct ι)}
    (h : Trans.Run StartAct.Step Starting.Orderly Starting.init as c) : c.IdsDiffer := by
  refine (h.invariant (P := Starting.Sound) Starting.init_sound ?_).apart
  intro c a c' hc hord hs
  cases hs with
  | construct _ _ => exact hc.construct
  | choose hi => exact hc.choose hi
  | enter hi hdef => exact hc.enter hi hord hdef
  | sync hi _ => exact hc.sync hi
  | exit _ hdef => exact hc.exit hord hdef

end Step

/-! ## Two runs -/

section Runs

variable [DecidableEq ι] [DoubleText D]

/-- The manager of a node that has read the table and chosen its slot. -/
def entering (n : NodesInfo) (k : Nat) : ShmManager := ⟨k.toInt32, n.load NodesInfo.zero, TopicsInfo.zero⟩

/-- A node that starts takes the first free slot. -/
theorem run_chosen {c : Starting ι D} {n : NodesInfo} (htable : HoldsTable D c.shm n) {k : Nat}
    (hk : k < MAX_NODE_COUNT) (hid : getNextNodeId (n.load NodesInfo.zero) = k.toInt32)
    (hroom : n.alive_node_count.toInt < MAX_NODE_COUNT) {i : ι} (hi : c.pc i = .absent) : ∃ c' : Starting ι D,
      Trans.Run StartAct.Step Starting.Orderly c [.construct i, .choose i] c' ∧ c'.shm = c.shm ∧
        c'.pc = Function.update c.pc i .chosen ∧ c'.cache = Function.update c.cache i (entering n k) := by
  have hread : initializeRegistry_ c.newcomer = _ :=
    htable.reads.sync_eq htable.size htable.topics (s := c.newcomer) rfl
  have hconstruct : StartAct.Step c (.construct i) _ := .construct hi (by rw [hread]; exact id)
  rw [hread] at hconstruct
  generalize hc₁ : c.after i (EStateM.Result.ok () _) _ = c₁ at hconstruct
  have hpc : c₁.pc = Function.update c.pc i .constructed := by rw [← hc₁]; rfl
  have hcache : c₁.cache = Function.update c.cache i { entering n k with node_id_ := -1 } := by rw [← hc₁]; rfl
  have hshm : c₁.shm = c.shm := by rw [← hc₁]; rfl
  have hself : c₁.cache i = { entering n k with node_id_ := -1 } := by rw [hcache, Function.update_self]
  have hnext : getNextNodeId (c₁.view i).mgr.nodes_ = k.toInt32 := by
    rw [Starting.view, hself]
    exact hid
  have hne : k.toInt32 ≠ -1 := fun he => by
    have hint := toInt_small hk
    rw [he, show (-1 : Int32).toInt = -1 from rfl] at hint
    omega
  have hroom₁ : ¬ (MAX_NODE_COUNT : Int) ≤ (c₁.view i).mgr.nodes_.alive_node_count.toInt := by
    rw [Starting.view, hself]
    exact not_le.2 hroom
  have hchoose : StartAct.Step c₁ (.choose i) _ := .choose (by rw [hpc, Function.update_self])
  rw [chooseNodeId_of_room hroom₁, hnext] at hchoose
  refine ⟨_, .snoc (.single trivial hconstruct) trivial hchoose, hshm, ?_, ?_⟩
  · rw [Starting.after, hpc, Function.update_idem, answer, decide_eq_true hne]
    rfl
  · have hmgr : ((c₁.view i).withId k.toInt32).mgr = entering n k := by
      rw [Starting.view, hself]
      rfl
    rw [Starting.after, hcache, Function.update_idem, finalState, hmgr]

/-- The table of a region into which one more node was entered. -/
def NodesInfo.enterTalker (n : NodesInfo) (k : Nat) : NodesInfo := n.enter k (talkerNode.info k.toInt32 talkerName)

/-- The node enters itself at its slot, whatever the region holds by then. -/
theorem step_entered {c : Starting ι D} (hsize : c.shm.size = sizeofShmHead + MAX_SHM_MANGER_SIZE) {i : ι}
    (hi : c.pc i = .chosen) {n : NodesInfo} {k : Nat} (hk : k < MAX_NODE_COUNT) (hcache : c.cache i = entering n k)
    (hv : (n.enterTalker k).Valid) (hfits : (nodesText D (n.enterTalker k)).length < NODE_INFO_SIZE) :
    ∃ c' m, StartAct.Step c (.enter i talkerNode) c' ∧
      c'.shm = ⟨c.shm.size, ByteMem.write c.shm.mem TOPIC_INFO_SIZE (nodesText D (n.enterTalker k))⟩ ∧
      c'.pc = Function.update c.pc i .live ∧ c'.cache = Function.update c.cache i m ∧ m.node_id_ = k.toInt32 := by
  have hview : (c.view i).mgr = entering n k := hcache
  have hslot : nodeSlot (c.view i).mgr.node_id_.toInt = .ok k := by
    rw [hview]
    show nodeSlot k.toInt32.toInt = .ok k
    rw [toInt_small hk]
    exact arraySlot_of_lt hk
  have hnodes : ((c.view i).mapNodes fun n =>
      NodeCall.table k n (.add (talkerNode.info k.toInt32 talkerName))).mgr.nodes_ = n.enterTalker k :=
    congrArg (fun m : ShmManager => NodeCall.table k m.nodes_ (.add (talkerNode.info k.toInt32 talkerName))) hview
  have henter := enterNode_eq strcpy_talker (c.view i)
  rw [show (c.view i).mgr.node_id_ = k.toInt32 by rw [hview]; rfl, NodeCall.run, addNode_eq hslot,
    writeNodesInfo_of_fits (by exact hsize) (by rw [hnodes]; exact hv) (by rw [hnodes]; exact hfits), hnodes] at henter
  have hstep : StartAct.Step c (.enter i talkerNode) _ := .enter hi (by rw [henter]; exact id)
  rw [henter] at hstep
  exact ⟨_, _, hstep, rfl, rfl, rfl, congrArg ShmManager.node_id_ hview⟩

/-- The node enters with a text that covers what the section holds: the region is read as the new table. -/
theorem HoldsTable.entered {shm : Region} {n m : NodesInfo} (h : HoldsTable D shm n) (hv : m.Valid) (hl : m.Legible)
    (hfits : (nodesText D m).length < NODE_INFO_SIZE) (hcov : nodeSectionLength shm ≤ (nodesText D m).length) :
    HoldsTable D ⟨shm.size, ByteMem.write shm.mem TOPIC_INFO_SIZE (nodesText D m)⟩ m ∧
      nodeSectionLength ⟨shm.size, ByteMem.write shm.mem TOPIC_INFO_SIZE (nodesText D m)⟩ =
        (nodesText D m).length := by
  obtain ⟨hsize, htopics, ⟨l, f, hlt⟩, -, -, -⟩ := h
  rw [nodeSectionLength_of_holds f] at hcov
  rcases Reads.of_write (D := D) f hlt (by rw [hsize]; decide) hv hfits with ⟨-, f', hr⟩ | ⟨hshort, -⟩
  · rw [NodesInfo.seen_of_legible hl] at hr
    exact ⟨⟨hsize, holds_topics htopics, ⟨_, f', hfits⟩, hv, hl, hr⟩, nodeSectionLength_of_holds f'⟩
  · omega

/-- Two nodes start, one after the other. -/
theorem idsDiffer_of_start :
    ∃ c : Starting Bool (List UInt8), c.pc false = .live ∧ c.pc true = .live ∧ c.IdsDiffer := by
  have hone : (nodesText (List UInt8) (NodesInfo.zero.enterTalker 0)).length < NODE_INFO_SIZE := by decide +kernel
  have hlegible : (NodesInfo.zero.enterTalker 0).Legible := by decide +kernel
  have htwo : (nodesText (List UInt8) ((NodesInfo.zero.enterTalker 0).enterTalker 1)).length < NODE_INFO_SIZE := by
    decide +kernel
  have htable : HoldsTable (List UInt8) (Starting.init : Starting Bool (List UInt8)).shm NodesInfo.zero :=
    holdsTable_fresh
  obtain ⟨c₁, hrun₁, hshm₁, hpc₁, hcache₁⟩ := run_chosen htable (k := 0) (by decide) (by decide) (by decide)
    (i := false) rfl
  have hself₁ : c₁.cache false = entering NodesInfo.zero 0 := by rw [hcache₁, Function.update_self]
  obtain ⟨c₂, m₂, hstep₂, hshm₂, hpc₂, hcache₂, hid₂⟩ := step_entered (c := c₁) (by rw [hshm₁]; rfl) (i := false)
    (by rw [hpc₁, Function.update_self]) (by decide) hself₁ (by decide) hone
  have hzero : nodeSectionLength c₁.shm = 0 := by
    rw [hshm₁]
    exact nodeSectionLength_of_holds (ByteMem.Filled.zero _ _ _)
  have hord₁ : c₁.Orderly (.enter false talkerNode) := by
    refine ⟨fun j hj => ?_, fun k name hk hname => ?_⟩
    · rw [hpc₁] at hj
      cases j <;> simp [Starting.init] at hj
    · rw [hself₁] at hk ⊢
      obtain rfl : 0 = k := Except.ok.inj hk
      obtain rfl : talkerName = name := Except.ok.inj (strcpy_talker.symm.trans hname)
      exact ⟨eight_not_mem_talker hname, fun _ => hone, by omega⟩
  obtain ⟨htable₂, hlen₂⟩ := HoldsTable.entered (by rw [hshm₁]; exact htable) (by decide) hlegible hone
    (by omega : nodeSectionLength c₁.shm ≤ _)
  rw [← hshm₂] at htable₂ hlen₂
  -- the second node reads the first one's record
  obtain ⟨c₃, hrun₃, hshm₃, hpc₃, hcache₃⟩ := run_chosen htable₂ (k := 1) (by decide) (by decide) (by decide)
    (i := true) (by rw [hpc₂, hpc₁]; rfl)
  have hself₃ : c₃.cache true = entering (NodesInfo.zero.enterTalker 0) 1 := by rw [hcache₃, Function.update_self]
  have hfirst₃ : c₃.cache false = m₂ := by rw [hcache₃, hcache₂]; rfl
  obtain ⟨c₄, m₄, hstep₄, -, hpc₄, -⟩ := step_entered (c := c₃) (by rw [hshm₃]; exact htable₂.size) (i := true)
    (by rw [hpc₃, Function.update_self]) (by decide) hself₃ (by decide) htwo
  have hord₃ : c₃.Orderly (.enter true talkerNode) := by
    refine ⟨fun j hj => ?_, fun k name hk hname => ?_⟩
    · cases j with
      | false => exact ⟨0, by rw [hfirst₃, hid₂]; rfl, by rw [hself₃]; decide⟩
      | true =>
        rw [hpc₃, Function.update_self] at hj
        cases hj
    · rw [hself₃] at hk ⊢
      obtain rfl : 1 = k := Except.ok.inj hk
      obtain rfl : talkerName = name := Except.ok.inj (strcpy_talker.symm.trans hname)
      refine ⟨eight_not_mem_talker hname, fun _ => htwo, ?_⟩
      rw [hshm₃, hlen₂]
      decide +kernel
  refine ⟨c₄, by rw [hpc₄, hpc₃, hpc₂]; rfl, by rw [hpc₄, Function.update_self], ?_⟩
  exact idsDiffer_of_run (((hrun₁.snoc hord₁ hstep₂).trans hrun₃).snoc hord₃ hstep₄)

/-- Two nodes read the region before either of them has written it. -/
theorem idsDiffer_not_always : ¬ ∀ (c : Starting Bool (List UInt8)) (as : List (StartAct Bool)),
    Trans.Run StartAct.Step Trans.free Starting.init as c → c.IdsDiffer := by
  intro h
  have hone : (nodesText (List UInt8) (NodesInfo.zero.enterTalker 0)).length < NODE_INFO_SIZE := by decide +kernel
  have htable : HoldsTable (List UInt8) (Starting.init : Starting Bool (List UInt8)).shm NodesInfo.zero :=
    holdsTable_fresh
  obtain ⟨c₁, hrun₁, hshm₁, hpc₁, hcache₁⟩ := run_chosen htable (k := 0) (by decide) (by decide) (by decide)
    (i := false) rfl
  obtain ⟨c₂, hrun₂, hshm₂, hpc₂, hcache₂⟩ := run_chosen (c := c₁) (by rw [hshm₁]; exact htable) (k := 0) (by decide)
    (by decide) (by decide) (i := true) (by rw [hpc₁]; rfl)
  have hrun : Trans.Run StartAct.Step Trans.free Starting.init _ c₂ :=
    (hrun₁.trans hrun₂).weaken fun _ _ _ => trivial
  obtain ⟨c₃, m₃, hstep₃, hshm₃, hpc₃, hcache₃, hid₃⟩ :=
    step_entered (c := c₂) (by rw [hshm₂, hshm₁]; rfl) (i := false) (by rw [hpc₂, hpc₁]; rfl) (by decide)
      (by rw [hcache₂, hcache₁]; rfl) (by decide) hone
  obtain ⟨c₄, m₄, hstep₄, -, hpc₄, hcache₄, hid₄⟩ := step_entered (c := c₃) (by rw [hshm₃, hshm₂, hshm₁]; rfl)
    (i := true) (by rw [hpc₃, hpc₂]; rfl) (by decide) (by rw [hcache₃, hcache₂]; rfl) (by decide) hone
  have hsame := h c₄ _ ((hrun.snoc trivial hstep₃).snoc trivial hstep₄) false true (by rw [hpc₄, hpc₃]; rfl)
    (by rw [hpc₄]; rfl) ?_
  · cases hsame
  · rw [hcache₄, hcache₃]
    exact hid₃.trans hid₄.symm

end Runs

end MiniRos2

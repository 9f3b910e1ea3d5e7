import MiniRos2.NodeCounts
/-!
# NodeRoster — the nodes that the node table's text lists

A node that joins takes the first slot that is not alive, and one that leaves frees its slot; the text lists the slots
below `nodes_count`, which each of them moves by one.  As long as only the node in the highest slot leaves, the live
slots are exactly those (`complete_of_run`); when another leaves, the highest is no longer listed
(`leave_complete_iff`).
-/
namespace MiniRos2

variable {D : Type}

section Calls

variable [DoubleText D]

/-- `node_id_ = getNextNodeId()`, and then `addNode`. -/
def joinNode (node_info : NodeInfo) : Op D Unit := do
  let n := (← get).mgr.nodes_
  setNodeId (getNextNodeId n)
  addNode node_info

def leaveNode (node_id : Int32) : Op D Unit := do
  setNodeId node_id
  removeNode

end Calls

/-- The registry, and the nodes that have joined and not left, by their slots. -/
structure Roster (D : Type) where
  reg : Registry D
  members : Nat → Option NodeInfo

inductive RosterAct where
  | join (node_info : NodeInfo)
  | leave (i : Nat)

def Roster.init (node_id : Int32) : Roster D := ⟨Registry.fresh node_id, fun _ => none⟩

/-- The table's text lists this record. -/
def Lists (D : Type) (n : NodesInfo) (x : NodeInfo) : Prop :=
  ∃ (json : JsonValue D) (xs : List (JsonValue D)),
    nodesJson n = .ok json ∧ json.atKey (utf8 "nodes") = .ok (.array xs) ∧ nodeJson x ∈ xs

/-- **Every node that has joined and not left is listed.** -/
def Roster.Complete (w : Roster D) : Prop := ∀ i x, w.members i = some x → Lists D w.reg.mgr.nodes_ x

/-- **Only the node in the highest slot leaves.** -/
def Roster.LastLeaves (w : Roster D) : RosterAct → Prop
  | .join _ => True
  | .leave i => ∀ j, (w.members j).isSome → j ≤ i

/-- **The members are in the slots below the count.** -/
structure Roster.Packed (w : Roster D) (k : Nat) : Prop where
  le : k ≤ MAX_NODE_COUNT
  count : w.reg.mgr.nodes_.nodes_count.toInt = k
  member : ∀ j, j < k → w.members j = some (w.reg.mgr.nodes_.nodes j) ∧ (w.reg.mgr.nodes_.nodes j).is_alive = true
  free : ∀ j, k ≤ j → w.members j = none ∧ (w.reg.mgr.nodes_.nodes j).is_alive = false

theorem Roster.init_packed (node_id : Int32) : (Roster.init node_id : Roster D).Packed 0 :=
  ⟨Nat.zero_le _, rfl, fun j hj => absurd hj (Nat.not_lt_zero j), fun _ _ => ⟨rfl, rfl⟩⟩

theorem lists_iff {n : NodesInfo} (hn : n.Valid) (x : NodeInfo) :
    Lists D n x ↔ ∃ j, j < n.count ∧ (nodeJson (n.nodes j) : JsonValue D) = nodeJson x := by
  have hnodes : (JsonValue.object (OrdMap.ofList (nodesFields n)) : JsonValue D).atKey (utf8 "nodes") =
      .ok (.array ((List.range n.count).map (fun i => nodeJson (n.nodes i)))) :=
    atKey_ofList (nodesFields_nodup n) (by simp [nodesFields])
  unfold Lists
  rw [nodesJson_of_valid hn]
  constructor
  · rintro ⟨json, xs, hjson, hxs, hmem⟩
    cases hjson
    rw [hnodes] at hxs
    cases hxs
    simpa using hmem
  · rintro ⟨j, hj, hx⟩
    refine ⟨_, _, rfl, hnodes, ?_⟩
    simpa using ⟨j, hj, hx⟩

theorem node_id_of_nodeJson {x y : NodeInfo} (h : (nodeJson x : JsonValue D) = nodeJson y) : x.node_id = y.node_id := by
  have hid (z : NodeInfo) : (nodeJson z : JsonValue D).atKey (utf8 "node_id") = .ok (.int z.node_id) :=
    atKey_ofList (nodeFields_nodup z) (by simp [nodeFields])
  have hx := hid x
  rw [h, hid y] at hx
  exact (JsonValue.int.inj (Except.ok.inj hx)).symm

theorem Roster.Packed.valid {w : Roster D} {k : Nat} (h : w.Packed k) :
    w.reg.mgr.nodes_.Valid ∧ w.reg.mgr.nodes_.count = k := by
  have hc := h.count
  have hle := h.le
  unfold NodesInfo.Valid NodesInfo.count
  omega

theorem Roster.Packed.complete {w : Roster D} {k : Nat} (h : w.Packed k) : w.Complete := by
  intro j x hx
  obtain ⟨hv, hc⟩ := h.valid
  by_cases hj : j < k
  · rw [(h.member j hj).1] at hx
    cases hx
    exact (lists_iff hv _).2 ⟨j, by omega, rfl⟩
  · rw [(h.free j (by omega)).1] at hx
    cases hx

/-! ## Joins and leaves -/

section Steps

variable [DoubleText D]

def Roster.join (w : Roster D) (x : NodeInfo) : Roster D :=
  ⟨finalState (joinNode x w.reg),
    Function.update w.members (getNextNodeId w.reg.mgr.nodes_).toInt.toNat (some x)⟩

def Roster.leave (w : Roster D) (i : Nat) : Roster D :=
  ⟨finalState (leaveNode i.toInt32 w.reg), Function.update w.members i none⟩

inductive RosterAct.Step (w : Roster D) : RosterAct → Roster D → Prop where
  | join {x : NodeInfo} : x.is_alive = true → ¬ Undefined (joinNode x w.reg) → Step w (.join x) (w.join x)
  | leave {i : Nat} : (w.members i).isSome → ¬ Undefined (leaveNode i.toInt32 w.reg) → Step w (.leave i) (w.leave i)

/-- Whether the write returns or throws, the copy has the node. -/
theorem joinNode_cases (x : NodeInfo) (s : Registry D) :
    Undefined (joinNode x s) ∨ ∃ i, nodeSlot (getNextNodeId s.mgr.nodes_).toInt = .ok i ∧
      (finalState (joinNode x s)).mgr.nodes_ = NodeCall.table i s.mgr.nodes_ (.add x) := by
  have heq : joinNode x s =
      addNode x { s with mgr := { s.mgr with node_id_ := getNextNodeId s.mgr.nodes_ } } := rfl
  generalize hs : ({ s with mgr := { s.mgr with node_id_ := getNextNodeId s.mgr.nodes_ } } : Registry D) = t at heq
  have hid : t.mgr.node_id_ = getNextNodeId s.mgr.nodes_ := by rw [← hs]
  have hnodes : t.mgr.nodes_ = s.mgr.nodes_ := by rw [← hs]
  rw [heq, ← hid]
  cases hi : nodeSlot t.mgr.node_id_.toInt with
  | error e =>
    rw [addNode, modifyOwn_bind_error hi]
    exact .inl rfl
  | ok i =>
    rw [addNode_eq hi, (writeNodesInfo_frame _).1, ← hnodes]
    exact .inr ⟨i, rfl, rfl⟩

theorem leaveNode_cases (node_id : Int32) (s : Registry D) :
    Undefined (leaveNode node_id s) ∨ ∃ i, nodeSlot node_id.toInt = .ok i ∧
      (finalState (leaveNode node_id s)).mgr.nodes_ = NodeCall.table i s.mgr.nodes_ .remove := by
  have heq : leaveNode node_id s = removeNode { s with mgr := { s.mgr with node_id_ := node_id } } := rfl
  generalize hs : ({ s with mgr := { s.mgr with node_id_ := node_id } } : Registry D) = t at heq
  have hid : t.mgr.node_id_ = node_id := by rw [← hs]
  have hnodes : t.mgr.nodes_ = s.mgr.nodes_ := by rw [← hs]
  rw [heq, ← hid]
  cases hi : nodeSlot t.mgr.node_id_.toInt with
  | error e =>
    rw [removeNode, modifyOwn_bind_error hi]
    exact .inl rfl
  | ok i =>
    refine .inr ⟨i, rfl, ?_⟩
    rw [removeNode_eq hi, ← hnodes]
    generalize ht : t.mapNodes (fun n => NodeCall.table i n .remove) = u
    have hu : u.mgr.nodes_ = NodeCall.table i t.mgr.nodes_ .remove := by rw [← ht]; rfl
    have hframe := (writeNodesInfo_frame u).1
    cases hw : writeNodesInfo_ u with
    | error e u' =>
      rw [hw] at hframe
      rw [Op.bind_error hw, ← hu]
      exact congrArg ShmManager.nodes_ hframe
    | ok a u' =>
      rw [hw] at hframe
      rw [Op.bind_ok hw, ← hu]
      exact congrArg ShmManager.nodes_ hframe

omit [DoubleText D] in
theorem getNextNodeId_of_packed {n : NodesInfo} {k : Nat} (hk : k ≤ MAX_NODE_COUNT)
    (halive : ∀ j, j < k → (n.nodes j).is_alive = true) (hfree : ∀ j, k ≤ j → (n.nodes j).is_alive = false) :
    getNextNodeId n = if k < MAX_NODE_COUNT then k.toInt32 else -1 := by
  by_cases hlt : k < MAX_NODE_COUNT
  · rw [if_pos hlt]
    exact getNextNodeId_of_first hlt halive (hfree k (Nat.le_refl k))
  · have hnone : (List.range MAX_NODE_COUNT).find? (fun i => !(n.nodes i).is_alive) = none := by
      apply List.find?_eq_none.2
      intro j hj
      simp [halive j (by have := List.mem_range.1 hj; omega)]
    unfold getNextNodeId
    rw [hnone, if_neg hlt]

/-- **A join takes the slot behind the members.** -/
theorem Roster.Packed.join {w : Roster D} {k : Nat} (h : w.Packed k) {x : NodeInfo} (hx : x.is_alive = true)
    (hdef : ¬ Undefined (joinNode x w.reg)) : (w.join x).Packed (k + 1) := by
  have hnext := getNextNodeId_of_packed h.le (fun j hj => (h.member j hj).2) (fun j hj => (h.free j hj).2)
  obtain ⟨i, hi, hnodes⟩ := (joinNode_cases x w.reg).resolve_left hdef
  have hlt : k < MAX_NODE_COUNT := by
    by_contra hge
    rw [hnext, if_neg hge] at hi
    cases hi
  rw [if_pos hlt] at hnext
  have hint := toInt_small hlt
  obtain rfl : i = k := by
    rw [hnext, hint] at hi
    exact (Int.ofNat_inj.1 (arraySlot_eq_ok hi).1).symm
  have hmem : (w.join x).members = Function.update w.members i (some x) := by
    unfold Roster.join
    rw [hnext, hint]
    rfl
  have htable : (w.join x).reg.mgr.nodes_ = NodeCall.table i w.reg.mgr.nodes_ (.add x) := hnodes
  have hc := h.count
  refine ⟨hlt, ?_, fun j hj => ?_, fun j hj => ?_⟩
  · rw [htable, NodeCall.table]
    have hsucc : (w.reg.mgr.nodes_.nodes_count + 1).toInt = w.reg.mgr.nodes_.nodes_count.toInt + 1 :=
      Int32.toInt_succ (by unfold MAX_NODE_COUNT at hlt; omega)
    simp only [hsucc, hc]
    rfl
  · rw [hmem, htable]
    by_cases hji : j = i
    · simp [hji, NodeCall.table, NodesInfo.set, hx]
    · simpa [hji, NodeCall.table, NodesInfo.set] using h.member j (by omega)
  · rw [hmem, htable]
    have hji : j ≠ i := by omega
    simpa [hji, NodeCall.table, NodesInfo.set] using h.free j (by omega)

/-- **A leave of the highest member leaves the others listed.** -/
theorem Roster.Packed.leave {w : Roster D} {k i : Nat} (h : w.Packed k) (hi : (w.members i).isSome)
    (hlast : ∀ j, (w.members j).isSome → j ≤ i) (hdef : ¬ Undefined (leaveNode i.toInt32 w.reg)) :
    k = i + 1 ∧ (w.leave i).Packed i := by
  have hik : i < k := by
    by_contra hge
    rw [(h.free i (by omega)).1] at hi
    cases hi
  obtain rfl : k = i + 1 := by
    have hle := hlast (k - 1) (by rw [(h.member (k - 1) (by omega)).1]; rfl)
    omega
  have hle := h.le
  have hint := toInt_small (k := i) (by omega)
  obtain ⟨l, hl, hnodes⟩ := (leaveNode_cases i.toInt32 w.reg).resolve_left hdef
  obtain rfl : l = i := by
    rw [hint] at hl
    exact (Int.ofNat_inj.1 (arraySlot_eq_ok hl).1).symm
  have htable : (w.leave l).reg.mgr.nodes_ = NodeCall.table l w.reg.mgr.nodes_ .remove := hnodes
  have hmem : (w.leave l).members = Function.update w.members l none := rfl
  have hc := h.count
  refine ⟨rfl, by omega, ?_, fun j hj => ?_, fun j hj => ?_⟩
  · rw [htable, NodeCall.table]
    have hpred : (w.reg.mgr.nodes_.nodes_count - 1).toInt = w.reg.mgr.nodes_.nodes_count.toInt - 1 :=
      Int32.toInt_pred (by omega)
    simp only [hpred, hc]
    omega
  · rw [hmem, htable]
    have hjl : j ≠ l := by omega
    simpa [hjl, NodeCall.table, NodesInfo.set] using h.member j (by omega)
  · rw [hmem, htable]
    by_cases hjl : j = l
    · simp [hjl, NodeCall.table, NodesInfo.set]
    · simpa [hjl, NodeCall.table, NodesInfo.set] using h.free j (by omega)

/-- **A leave keeps the others listed exactly when the node was the highest**, given that every record has the id of its
slot, as `registerNode` makes it. -/
theorem leave_complete_iff {w : Roster D} {k i : Nat} (h : w.Packed k)
    (hid : ∀ j, j < k → (w.reg.mgr.nodes_.nodes j).node_id = j.toInt32) (hi : (w.members i).isSome)
    (hdef : ¬ Undefined (leaveNode i.toInt32 w.reg)) :
    (w.leave i).Complete ↔ ∀ j, (w.members j).isSome → j ≤ i := by
  constructor
  · intro hcomplete j hj
    by_contra hlt
    have hle := h.le
    have hjk : j < k := by
      by_contra hge
      rw [(h.free j (by omega)).1] at hj
      cases hj
    obtain ⟨l, hl, hnodes⟩ := (leaveNode_cases i.toInt32 w.reg).resolve_left hdef
    obtain rfl : l = i := by
      rw [toInt_small (k := i) (by omega)] at hl
      exact (Int.ofNat_inj.1 (arraySlot_eq_ok hl).1).symm
    have htable : (w.leave l).reg.mgr.nodes_ = NodeCall.table l w.reg.mgr.nodes_ .remove := hnodes
    have hc := h.count
    have hpred : (NodeCall.table l w.reg.mgr.nodes_ .remove).nodes_count.toInt = k - 1 := by
      have hone : (w.reg.mgr.nodes_.nodes_count - 1).toInt = w.reg.mgr.nodes_.nodes_count.toInt - 1 :=
        Int32.toInt_pred (by omega)
      simp only [NodeCall.table, hone, hc]
    have hv : (NodeCall.table l w.reg.mgr.nodes_ .remove).Valid ∧
        (NodeCall.table l w.reg.mgr.nodes_ .remove).count = k - 1 := by
      unfold NodesInfo.Valid NodesInfo.count
      omega
    -- the record of the highest slot is behind the count
    have hmem : (w.leave l).members (k - 1) = some (w.reg.mgr.nodes_.nodes (k - 1)) := by
      have hne : k - 1 ≠ l := by omega
      simpa [Roster.leave, hne] using (h.member (k - 1) (by omega)).1
    have hlists := hcomplete _ _ hmem
    rw [htable, lists_iff hv.1, hv.2] at hlists
    obtain ⟨m, hm, hrec⟩ := hlists
    have hsame := node_id_of_nodeJson hrec
    have hm_id : ((NodeCall.table l w.reg.mgr.nodes_ .remove).nodes m).node_id = m.toInt32 := by
      rw [← hid m (by omega)]
      by_cases hml : m = l
      · simp [hml, NodeCall.table, NodesInfo.set]
      · simp [hml, NodeCall.table, NodesInfo.set]
    rw [hm_id, hid (k - 1) (by omega)] at hsame
    have h₁ := toInt_small (k := m) (by omega)
    have h₂ := toInt_small (k := k - 1) (by omega)
    rw [hsame] at h₁
    omega
  · intro hlast
    exact (h.leave hi hlast hdef).2.complete

/-- **Every live node is listed**, in every state of every run in which only the node in the highest slot leaves. -/
theorem complete_of_run {node_id : Int32} {w : Roster D} {as : List RosterAct}
    (h : Trans.Run RosterAct.Step Roster.LastLeaves (Roster.init node_id) as w) : w.Complete := by
  obtain ⟨k, hk⟩ := h.invariant (P := fun w => ∃ k, w.Packed k) ⟨0, Roster.init_packed node_id⟩ (by
    rintro w a w' ⟨k, hk⟩ hg hstep
    cases hstep with
    | join hx hdef => exact ⟨k + 1, hk.join hx hdef⟩
    | leave hi hdef => exact ⟨_, (hk.leave hi hg hdef).2⟩)
  exact hk.complete

end Steps

/-! ## Two runs -/

def firstNode : Roster (List UInt8) := (Roster.init 0).join talker

def secondNode : Roster (List UInt8) := firstNode.join { talker with node_id := 1 }

theorem firstNode_defined : ¬ Undefined (joinNode talker (Roster.init 0 : Roster (List UInt8)).reg) :=
  not_undefined_of_answer (a := ()) (by decide +kernel)

theorem secondNode_defined : ¬ Undefined (joinNode { talker with node_id := 1 } firstNode.reg) :=
  not_undefined_of_answer (a := ()) (by decide +kernel)

theorem run_firstNode :
    Trans.Run RosterAct.Step Roster.LastLeaves (Roster.init 0) [.join talker] firstNode :=
  .single trivial (.join rfl firstNode_defined)

theorem secondNode_packed : secondNode.Packed 2 :=
  ((Roster.init_packed 0).join rfl firstNode_defined).join rfl secondNode_defined

/-- Two nodes join and the second leaves again. -/
theorem complete_of_join :
    ∃ w : Roster (List UInt8), w.members 0 = some talker ∧ w.members 1 = none ∧ w.Complete := by
  have hdef : ¬ Undefined (leaveNode (1 : Nat).toInt32 secondNode.reg) :=
    not_undefined_of_answer (a := ()) (by decide +kernel)
  have hlast : secondNode.LastLeaves (.leave 1) := fun j hj => by
    by_contra hlt
    rw [(secondNode_packed.free j (by omega)).1] at hj
    cases hj
  refine ⟨secondNode.leave 1, by decide +kernel, by decide +kernel, ?_⟩
  have hjoin : firstNode.LastLeaves (.join { talker with node_id := 1 }) := trivial
  exact complete_of_run ((run_firstNode.snoc hjoin (.join rfl secondNode_defined)).snoc hlast
    (.leave (by decide +kernel) hdef))

/-- Two nodes join and the first leaves: the second is not listed. -/
theorem complete_not_always : ¬ ∀ (node_id : Int32) (w : Roster (List UInt8)) (as : List RosterAct),
    Trans.Run RosterAct.Step Trans.free (Roster.init node_id) as w → w.Complete := by
  intro h
  have hdef : ¬ Undefined (leaveNode (0 : Nat).toInt32 secondNode.reg) :=
    not_undefined_of_answer (a := ()) (by decide +kernel)
  have hstep : RosterAct.Step secondNode (.leave 0) (secondNode.leave 0) := .leave (by decide +kernel) hdef
  have hfree : Trans.Run RosterAct.Step Trans.free (Roster.init 0) _ firstNode :=
    run_firstNode.weaken (fun _ _ _ => trivial)
  have hcomplete := h _ _ _ ((hfree.snoc trivial (.join rfl secondNode_defined)).snoc trivial hstep)
  have hlast := (leave_complete_iff secondNode_packed (by decide +kernel) (by decide +kernel) hdef).1 hcomplete 1
    (by decide +kernel)
  exact absurd hlast (by decide)

end MiniRos2

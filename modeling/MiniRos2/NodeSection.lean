import MiniRos2.RegistrySection
import MiniRos2.TopicTable
/-!
# NodeSection — the node section of one manager over a whole run

Every call that changes the node table ends with the table's text being written at `TOPIC_INFO_SIZE`, over what earlier
texts have left there and, after `addPubTopic`, over what the topic table's text may have put there.  As long as no text
is shorter than what the section holds and no name in it has a backspace, the last table written is read back in every
state of the run (`readsBack_of_run`); after a shorter one the parser throws (`parseNodesInfo_of_shorter`).
-/
namespace MiniRos2

variable {D : Type} [DoubleText D]

inductive NodeCall where
  | add (node_info : NodeInfo)
  | updateInfo (node_info : NodeInfo)
  | updateName (node_name : List UInt8)
  | updateAlive
  | updateHeartbeat (now : Int32)
  | addSub (topic_name event_name : List UInt8)
  | addPub (topic_name event_name : List UInt8)
  | remove

def NodeCall.run : NodeCall → Op D Unit
  | .add node_info => addNode node_info
  | .updateInfo node_info => updateNodeInfo node_info
  | .updateName node_name => updateNodeName node_name
  | .updateAlive => updateNodeAlive
  | .updateHeartbeat now => updateNodeHeartbeat now
  | .addSub topic event => addSubTopic topic event
  | .addPub topic event => addPubTopic topic event
  | .remove => removeNode

/-! ## What a call stores -/

/-- The node table a call is about to write, when the manager's own slot is `i`. -/
def NodeCall.table (i : Nat) (n : NodesInfo) : NodeCall → NodesInfo
  | .add node_info => { n.set i (fun _ => node_info) with
      nodes_count := n.nodes_count + 1, alive_node_count := n.alive_node_count + 1 }
  | .updateInfo node_info => n.set i (fun _ => node_info)
  | .updateName node_name =>
    match strcpy node_name with
    | .ok name => n.set i (fun x => { x with node_name := name })
    | .error _ => n
  | .updateAlive => n.set i (fun x => { x with is_alive := true })
  | .updateHeartbeat now => n.set i (fun x => { x with last_heartbeat := now })
  | .addSub _ _ => n.set i NodeInfo.countSub
  | .addPub _ _ => n.set i NodeInfo.countPub
  | .remove => { n.set i (fun x => { x with is_alive := false }) with
      alive_node_count := n.alive_node_count - 1, nodes_count := n.nodes_count - 1 }

/-- The bytes when the node table's text is written: only `addPubTopic` has changed them. -/
def TopicsWritten (c : NodeCall) (s : Registry D) (m : ByteMem.Mem) : Prop :=
  (∀ topic event, c ≠ .addPub topic event) ∧ m = s.shm.mem ∨
    ∃ topic event t, c = .addPub topic event ∧ (TopicCall.addPub topic event).Effect s.mgr.topics_ t ∧ t.Valid ∧
      (topicsText D t).length ≤ s.shm.size ∧ m = ByteMem.write s.shm.mem 0 (topicsText D t)

/-- **How a call ends**: it has stored the text of the table `n`, or it threw and has not. -/
inductive NodeCall.Outcome (c : NodeCall) (n : NodesInfo) (s : Registry D) :
    EStateM.Result Abort (Registry D) Unit → Prop where
  | returned {s' : Registry D} {m : ByteMem.Mem} : TopicsWritten c s m → s'.mgr.nodes_ = n → n.Valid →
      s'.shm = ⟨s.shm.size, ByteMem.write m TOPIC_INFO_SIZE (nodesText D n)⟩ → Outcome c n s (.ok () s')
  | kept {s' : Registry D} {e : Abort} : s'.shm = s.shm → Outcome c n s (.error e s')
  | half {s' : Registry D} {m : ByteMem.Mem} {e : Abort} : TopicsWritten c s m →
      (n.Valid → s.shm.size < TOPIC_INFO_SIZE + (nodesText D n).length) → s'.shm = ⟨s.shm.size, m⟩ →
      Outcome c n s (.error e s')

theorem outcome_of_write {c : NodeCall} {n : NodesInfo} {s s₁ : Registry D}
    (hc : ∀ topic event, c ≠ .addPub topic event) (hn : s₁.mgr.nodes_ = n) (h : s₁.shm = s.shm) :
    c.Outcome n s (writeNodesInfo_ s₁) := by
  subst hn
  rcases writeNodesInfo_cases s₁ with ⟨hv, hw, -⟩ | ⟨-, e, hw⟩
  · rw [hw]
    exact .returned (.inl ⟨hc, rfl⟩) rfl hv (by rw [← h]; rfl)
  · rw [hw]
    exact .kept h

theorem outcome_of_writeRegistry {topic event : List UInt8} {n : NodesInfo} {s s₁ : Registry D}
    (hn : s₁.mgr.nodes_ = n) (ht : (TopicCall.addPub topic event).Effect s.mgr.topics_ s₁.mgr.topics_)
    (h : s₁.shm = s.shm) : (NodeCall.addPub topic event).Outcome n s (writeRegistryToShm_ s₁) := by
  subst hn
  unfold writeRegistryToShm_
  rcases writeTopicsInfo_cases s₁ with ⟨htv, hw, hle⟩ | ⟨e, hw⟩
  · rw [Op.bind_ok hw]
    rw [h] at hle
    have hm : TopicsWritten (.addPub topic event) s (ByteMem.write s.shm.mem 0 (topicsText D s₁.mgr.topics_)) :=
      .inr ⟨topic, event, _, rfl, ht, htv, hle, rfl⟩
    rcases writeNodesInfo_cases (s₁.store (topicsText D s₁.mgr.topics_) 0) with ⟨hv, hw', -⟩ | ⟨hlt, e, hw'⟩
    · rw [hw']
      exact .returned hm rfl hv (by rw [← h]; rfl)
    · rw [hw']
      exact .half hm (fun hv => by rw [← h]; exact hlt hv) (by rw [← h]; rfl)
  · rw [Op.bind_error hw]
    exact .kept h

/-- The wake-up at the end of `removeNode` leaves the region and the tables alone. -/
theorem outcome_of_trigger {c : NodeCall} {n : NodesInfo} {s s₁ : Registry D} {x : Op D Unit} {id : Int32}
    (h : c.Outcome n s (x s₁)) : c.Outcome n s ((x >>= fun _ => triggerEventById_ id) s₁) := by
  cases hx : x s₁ with
  | error e t => rwa [Op.bind_error hx, ← hx]
  | ok u t =>
    rw [hx] at h
    rw [Op.bind_ok hx]
    cases h with
    | returned hm hn hv hshm =>
      unfold triggerEventById_
      by_cases hid : id.toInt < 0 ∨ (MAX_TOPICS_PER_NODE : Int) ≤ id.toInt
      · rw [if_pos hid]
        exact .returned hm hn hv hshm
      · rw [if_neg hid]
        exact .returned hm hn hv hshm

theorem addNode_eq {node_info : NodeInfo} {s : Registry D} {i : Nat} (hi : nodeSlot s.mgr.node_id_.toInt = .ok i) :
    addNode node_info s = writeNodesInfo_ (s.mapNodes (fun n => NodeCall.table i n (.add node_info))) := by
  rw [addNode, modifyOwn_bind hi, Op.bind_ok (modifyNodes_eq _ _)]
  rfl

theorem removeNode_eq {s : Registry D} {i : Nat} (hi : nodeSlot s.mgr.node_id_.toInt = .ok i) :
    removeNode s = (writeNodesInfo_ >>= fun _ => triggerEventById_ (MAX_TOPICS_PER_NODE - 1 : Nat).toInt32)
      (s.mapNodes (fun n => NodeCall.table i n .remove)) := by
  rw [removeNode, modifyOwn_bind hi, Op.bind_ok (modifyNodes_eq _ _)]
  rfl

theorem outcome_of_own {c : NodeCall} {f : Nat → NodesInfo → NodesInfo} {n : NodesInfo} {s : Registry D} {i : Nat}
    (hc : ∀ topic event, c ≠ .addPub topic event) (hi : nodeSlot s.mgr.node_id_.toInt = .ok i)
    (hn : f i s.mgr.nodes_ = n) : c.Outcome n s ((modifyOwn f >>= fun _ => writeNodesInfo_) s) := by
  rw [modifyOwn_bind hi]
  exact outcome_of_write hc hn rfl

/-- **What every call does**: at the manager's own slot it changes the table as `NodeCall.table` says, and writes it. -/
theorem NodeCall.run_cases (c : NodeCall) (s : Registry D) :
    Undefined (c.run s) ∨
      ∃ i, nodeSlot s.mgr.node_id_.toInt = .ok i ∧ c.Outcome (c.table i s.mgr.nodes_) s (c.run s) := by
  cases hi : nodeSlot s.mgr.node_id_.toInt with
  | error e =>
    have hown : ∀ (f : Nat → NodesInfo → NodesInfo) (k : Unit → Op D Unit), Undefined ((modifyOwn f >>= k) s) :=
      fun f k => by rw [modifyOwn_bind_error hi]; rfl
    refine .inl ?_
    cases c with
    | updateName node_name =>
      rcases strcpy_cases node_name with ⟨name, hn⟩ | hn
      · rw [show (NodeCall.updateName node_name).run s = (modifyOwn _ >>= fun _ => writeNodesInfo_) s from
          Op.bind_ok (liftE_ok hn s)]
        exact hown _ _
      · rw [show (NodeCall.updateName node_name).run s = .error .undefined s from Op.bind_error (liftE_error hn s)]
        rfl
    | _ => exact hown _ _
  | ok i =>
    cases c with
    | add node_info =>
      refine .inr ⟨i, rfl, ?_⟩
      rw [NodeCall.run, addNode_eq hi]
      exact outcome_of_write (by simp) rfl rfl
    | updateInfo node_info => exact .inr ⟨i, rfl, outcome_of_own (by simp) hi rfl⟩
    | updateName node_name =>
      rcases strcpy_cases node_name with ⟨name, hn⟩ | hn
      · rw [show (NodeCall.updateName node_name).run s = (modifyOwn _ >>= fun _ => writeNodesInfo_) s from
          Op.bind_ok (liftE_ok hn s)]
        exact .inr ⟨i, rfl, outcome_of_own (by simp) hi (by simp only [NodeCall.table, hn])⟩
      · rw [show (NodeCall.updateName node_name).run s = .error .undefined s from Op.bind_error (liftE_error hn s)]
        exact .inl rfl
    | updateAlive => exact .inr ⟨i, rfl, outcome_of_own (by simp) hi rfl⟩
    | updateHeartbeat now => exact .inr ⟨i, rfl, outcome_of_own (by simp) hi rfl⟩
    | addSub topic event =>
      rcases addSubTopic_cases s topic event with ⟨j, id, t, hj, -, heq⟩ | hu
      · rw [hi] at hj
        cases hj
        exact .inr ⟨i, rfl, by rw [NodeCall.run, heq]; exact outcome_of_write (by simp) rfl rfl⟩
      · exact .inl hu
    | addPub topic event =>
      rcases addPubTopic_cases s topic event with ⟨j, id, t, k, name, hj, hfc, hn, hk, heq⟩ | hu
      · rw [hi] at hj
        cases hj
        refine .inr ⟨i, rfl, ?_⟩
        rw [NodeCall.run, heq]
        exact outcome_of_writeRegistry rfl ⟨id, t, k, name, hfc, hn, hk, rfl⟩ rfl
      · exact .inl hu
    | remove =>
      refine .inr ⟨i, rfl, ?_⟩
      rw [NodeCall.run, removeNode_eq hi]
      exact outcome_of_trigger (outcome_of_write (by simp) rfl rfl)

/-! ## Runs -/

/-- A manager on its region, and the node table it wrote last. -/
structure NodeHistory (D : Type) where
  reg : Registry D
  last : Option NodesInfo

/-- A manager on a region that was just created. -/
def NodeHistory.start (mgr : ShmManager) (event_flag_ : Nat → Bool) : NodeHistory D :=
  ⟨⟨mgr, Region.fresh (sizeofShmHead + MAX_SHM_MANGER_SIZE), event_flag_⟩, none⟩

/-- One call, whether it returned or threw; a table's text is shorter than the section. -/
structure NodeCall.Step (w : NodeHistory D) (c : NodeCall) (w' : NodeHistory D) : Prop where
  defined : ¬ Undefined (c.run w.reg)
  shorter : ∀ i, nodeSlot w.reg.mgr.node_id_.toInt = .ok i → (c.table i w.reg.mgr.nodes_).Valid →
    (nodesText D (c.table i w.reg.mgr.nodes_)).length < NODE_INFO_SIZE
  reg : w'.reg = finalState (c.run w.reg)
  last : w'.last = match c.run w.reg with
    | .ok _ s => some s.mgr.nodes_
    | .error _ _ => w.last

/-- **The text about to be written reaches the end of what the node section holds**, and no name in it has a backspace.
When there is none to write, nothing else is written into the section. -/
def NodeCall.Covers (w : NodeHistory D) (c : NodeCall) : Prop :=
  ∀ i m, nodeSlot w.reg.mgr.node_id_.toInt = .ok i → TopicsWritten c w.reg m →
    if (c.table i w.reg.mgr.nodes_).Valid then (c.table i w.reg.mgr.nodes_).Legible ∧
      nodeSectionLength ⟨w.reg.shm.size, m⟩ ≤ (nodesText D (c.table i w.reg.mgr.nodes_)).length
    else ByteMem.read m TOPIC_INFO_SIZE NODE_INFO_SIZE = ByteMem.read w.reg.shm.mem TOPIC_INFO_SIZE NODE_INFO_SIZE

/-- **Reading gives this table**: the text is parsed, and the counts and the slots below the count are the table's. -/
def ReadsBack (s : Registry D) (n : NodesInfo) : Prop :=
  ∃ s', parseNodesInfo s = .ok () s' ∧ readNodesInfo_ s = .ok () s' ∧ s'.mgr.nodes_.nodes_count = n.nodes_count ∧
    s'.mgr.nodes_.alive_node_count = n.alive_node_count ∧
    ∀ j : Nat, (j : Int) < n.nodes_count.toInt → s'.mgr.nodes_.nodes j = n.nodes j

/-- The section holds the last table's text and nothing else. -/
structure NodeHistory.Clean (w : NodeHistory D) : Prop where
  size : w.reg.shm.size = sizeofShmHead + MAX_SHM_MANGER_SIZE
  section_ : ∃ h, Holds w.reg.shm.mem TOPIC_INFO_SIZE NODE_INFO_SIZE h ∧ h < NODE_INFO_SIZE ∧
    ∀ n, w.last = some n → n.Valid ∧ n.Legible ∧ ByteMem.read w.reg.shm.mem TOPIC_INFO_SIZE h = nodesText D n

theorem start_clean (mgr : ShmManager) (flags : Nat → Bool) : (NodeHistory.start mgr flags : NodeHistory D).Clean :=
  ⟨rfl, 0, ByteMem.Filled.zero _ _ _, by decide, fun n hn => by cases hn⟩

/-- A topic table's text that leaves a NUL in the node section has kept the section's shape. -/
theorem TopicsWritten.holds {c : NodeCall} {s : Registry D} {m : ByteMem.Mem} {h : Nat} (hm : TopicsWritten c s m)
    (f : Holds s.shm.mem TOPIC_INFO_SIZE NODE_INFO_SIZE h)
    (hlt : nodeSectionLength ⟨s.shm.size, m⟩ < NODE_INFO_SIZE) :
    Holds m TOPIC_INFO_SIZE NODE_INFO_SIZE (nodeSectionLength ⟨s.shm.size, m⟩) := by
  rcases hm with ⟨-, rfl⟩ | ⟨topic, event, t, -, -, -, -, rfl⟩
  · rw [nodeSectionLength_of_holds (r := ⟨s.shm.size, s.shm.mem⟩) f]
    exact f
  · have ht := topicsText_tableText (D := D) t
    by_cases hend : (topicsText D t).length ≤ TOPIC_INFO_SIZE + NODE_INFO_SIZE
    · have hf := f.write_text ht 0 (Nat.zero_le _) (by omega)
      have hlen : nodeSectionLength ⟨s.shm.size, ByteMem.write s.shm.mem 0 (topicsText D t)⟩ = _ :=
        nodeSectionLength_of_holds hf
      rw [hlen]
      exact hf
    · -- the text fills the whole section
      exfalso
      have hall : ∀ b ∈ ByteMem.read (ByteMem.write s.shm.mem 0 (topicsText D t)) TOPIC_INFO_SIZE NODE_INFO_SIZE,
          b ≠ 0 := by
        intro b hb
        obtain ⟨i, hi, rfl⟩ := List.mem_map.1 hb
        have hi := List.mem_range.1 hi
        rw [ByteMem.write_of_mem _ _ _ _ (Nat.zero_le _) (by omega)]
        exact ht.noNul _ (List.getElem_mem _)
      rw [nodeSectionLength, ByteMem.cstr_eq_self _ hall, ByteMem.length_read] at hlt
      omega

/-- **One covering call keeps the section clean.** -/
theorem NodeCall.Step.clean {w w' : NodeHistory D} {c : NodeCall} (hw : w.Clean) (hg : c.Covers w)
    (hs : c.Step w w') : w'.Clean := by
  obtain ⟨hsize, h, f, hlt, hread⟩ := hw
  obtain ⟨hdef, hshort, hreg, hlast⟩ := hs
  rcases c.run_cases w.reg with hu | ⟨i, hi, ho⟩
  · exact absurd hu hdef
  have hsh := hshort i hi
  generalize c.run w.reg = r at ho hreg hlast
  cases ho with
  | @returned s' m hm hn hv hshm =>
    have hcov := hg i m hi hm
    rw [if_pos hv] at hcov
    obtain ⟨hl, hcov⟩ := hcov
    have hsh := hsh hv
    obtain ⟨hf, htext⟩ := (hm.holds f (by omega)).read_covering (nodesText_tableText _) hcov (Nat.le_of_lt hsh)
    have hmem : w'.reg.shm = _ := (congrArg Registry.shm hreg).trans hshm
    refine ⟨by rw [hmem]; exact hsize, _, by rw [hmem]; exact hf, hsh, fun n hlast' => ?_⟩
    rw [hlast] at hlast'
    cases Option.some.inj (hlast' : some s'.mgr.nodes_ = some n)
    rw [hn, hmem]
    exact ⟨hv, hl, htext⟩
  | @kept s' e hshm =>
    have hmem : w'.reg.shm = w.reg.shm := (congrArg Registry.shm hreg).trans hshm
    exact ⟨by rw [hmem]; exact hsize, h, by rw [hmem]; exact f, hlt, by rw [hlast, hmem]; exact hread⟩
  | @half s' m e hm hlong hshm =>
    -- a table with a text fits, so there was none
    have hv : ¬ (c.table i w.reg.mgr.nodes_).Valid := fun hv => by
      have h₁ := hlong hv
      have h₂ := hsh hv
      rw [hsize] at h₁
      unfold sizeofShmHead MAX_SHM_MANGER_SIZE TOPIC_INFO_SIZE at h₁
      unfold NODE_INFO_SIZE at h₂
      omega
    have hcov := hg i m hi hm
    rw [if_neg hv] at hcov
    have hmem : w'.reg.shm = _ := (congrArg Registry.shm hreg).trans hshm
    refine ⟨by rw [hmem]; exact hsize, h, by rw [hmem]; exact f.congr hcov, hlt, ?_⟩
    rw [hlast, hmem]
    intro n hn
    obtain ⟨hv, hl, htext⟩ := hread n hn
    refine ⟨hv, hl, (ByteMem.read_congr _ _ _ _ (fun j hj => ?_)).trans htext⟩
    exact ByteMem.eq_of_read_eq hcov j (by omega)

theorem NodeHistory.Clean.readsBack {w : NodeHistory D} (hw : w.Clean) {n : NodesInfo} (hn : w.last = some n)
    {s : Registry D} (hs : s.shm = w.reg.shm) : ReadsBack s n := by
  obtain ⟨hsize, h, f, hlt, hread⟩ := hw
  obtain ⟨hv, hl, htext⟩ := hread n hn
  have hsec : nodeSection s.shm = .ok (nodesText D n) := by
    rw [hs, nodeSection_of_holds f hlt (by rw [hsize]; decide), htext]
  refine ⟨_, parseNodesInfo_of_text hv hl hsec, readNodesInfo_of_text hv hl hsec, rfl, rfl, fun j hj => ?_⟩
  exact if_pos (by unfold NodesInfo.count; omega)

/-- **The last node table written is read back**, in every state of every run whose texts cover what the section
holds and have no name with a backspace, by this manager or by any other on the region. -/
theorem readsBack_of_run {mgr : ShmManager} {flags : Nat → Bool} {w : NodeHistory D} {cs : List NodeCall}
    {n : NodesInfo} {s : Registry D}
    (h : Trans.Run NodeCall.Step NodeCall.Covers (NodeHistory.start mgr flags) cs w)
    (hn : w.last = some n) (hs : s.shm = w.reg.shm) : ReadsBack s n :=
  (h.invariant (start_clean mgr flags) (fun _ _ _ hw hg hstep => hstep.clean hw hg)).readsBack hn hs

/-- **After a shorter text nothing is read back**: the parser throws, and the reader takes the table to be empty. -/
theorem parseNodesInfo_of_shorter {s : Registry D} {n : NodesInfo} {m : ByteMem.Mem} {h : Nat}
    (hsize : TOPIC_INFO_SIZE + NODE_INFO_SIZE ≤ s.shm.size)
    (f : Holds m TOPIC_INFO_SIZE NODE_INFO_SIZE h) (hlt : h < NODE_INFO_SIZE) (hshort : (nodesText D n).length < h)
    (hm : s.shm.mem = ByteMem.write m TOPIC_INFO_SIZE (nodesText D n)) :
    ∃ e, parseNodesInfo s = .error (.throws e) s := by
  obtain ⟨f', r, hread, hr⟩ := f.read_shorter (nodesText_tableText n) hshort
  rw [← hm] at f' hread
  have hsec : nodeSection s.shm = .ok (nodesText D n ++ r) := by rw [nodeSection_of_holds f' hlt hsize, hread]
  exact parseNodesInfo_of_residue hsec hr

/-! ## Two runs -/

/-- A call that returned and was not `addPubTopic` has stored the text of the table it changed. -/
theorem NodeCall.stored_of_answer {c : NodeCall} {s : Registry D} {i : Nat}
    (hc : ∀ topic event, c ≠ .addPub topic event) (h : answer (c.run s) = some ())
    (hi : nodeSlot s.mgr.node_id_.toInt = .ok i) :
    ∃ s', c.run s = .ok () s' ∧ s'.mgr.nodes_ = c.table i s.mgr.nodes_ ∧
      s'.shm = ⟨s.shm.size, ByteMem.write s.shm.mem TOPIC_INFO_SIZE (nodesText D (c.table i s.mgr.nodes_))⟩ := by
  have hok := eq_ok_of_answer h
  rcases c.run_cases s with hu | ⟨j, hj, ho⟩
  · exact absurd hu (not_undefined_of_answer h)
  · rw [hi] at hj
    cases hj
    rw [hok] at ho
    cases ho with
    | returned hm hn hv hshm =>
      rcases hm with ⟨-, rfl⟩ | ⟨topic, event, t, he, -⟩
      · exact ⟨_, hok, hn, hshm⟩
      · exact absurd he (hc topic event)

theorem NodeCall.step_of_run {c : NodeCall} {w : NodeHistory D} {s' : Registry D} {i : Nat}
    (hi : nodeSlot w.reg.mgr.node_id_.toInt = .ok i)
    (hlen : (nodesText D (c.table i w.reg.mgr.nodes_)).length < NODE_INFO_SIZE) (h : c.run w.reg = .ok () s') :
    c.Step w ⟨s', some s'.mgr.nodes_⟩ := by
  refine ⟨by rw [h]; exact id, fun j hj _ => ?_, by rw [h]; rfl, by rw [h]⟩
  rw [hi] at hj
  cases hj
  exact hlen

theorem talker_ne_zero : ∀ b ∈ utf8 "talker", b ≠ 0 := by decide +kernel

theorem talker_length_lt : (utf8 "talker").length < MAX_NAME_LEN := by decide +kernel

def talker : NodeInfo :=
  { NodeInfo.zero with is_alive := true, node_name := ⟨utf8 "talker", talker_ne_zero, talker_length_lt⟩ }

/-- The first text covers what the section holds. -/
theorem covers_start {flags : Nat → Bool} {node_info : NodeInfo} (i : Nat) (id : Int32)
    (hid : nodeSlot id.toInt = .ok i) (hl : (NodeCall.table i NodesInfo.zero (.add node_info)).Legible) :
    NodeCall.Covers (NodeHistory.start ⟨id, NodesInfo.zero, TopicsInfo.zero⟩ flags : NodeHistory D)
      (.add node_info) := by
  rintro j m hj (⟨-, rfl⟩ | ⟨topic, event, t, he, -⟩)
  · cases hid.symm.trans hj
    have hzero : nodeSectionLength (NodeHistory.start ⟨id, NodesInfo.zero, TopicsInfo.zero⟩ flags :
        NodeHistory D).reg.shm = 0 := nodeSectionLength_of_holds (ByteMem.Filled.zero _ _ _)
    split
    · exact ⟨hl, Nat.le_trans (Nat.le_of_eq hzero) (Nat.zero_le _)⟩
    · rfl
  · cases he

/-- A text that is no shorter than the last one covers it. -/
theorem NodeHistory.Clean.covers {w : NodeHistory D} (hw : w.Clean) {n : NodesInfo} (hn : w.last = some n)
    {c : NodeCall} {i : Nat} (hc : ∀ topic event, c ≠ .addPub topic event)
    (hi : nodeSlot w.reg.mgr.node_id_.toInt = .ok i) (hl : (c.table i w.reg.mgr.nodes_).Legible)
    (hlen : (nodesText D n).length ≤ (nodesText D (c.table i w.reg.mgr.nodes_)).length) : c.Covers w := by
  obtain ⟨-, h, f, -, hread⟩ := hw
  rintro j m hj (⟨-, rfl⟩ | ⟨topic, event, t, he, -⟩)
  · cases hi.symm.trans hj
    obtain ⟨-, -, htext⟩ := hread n hn
    have hh : nodeSectionLength ⟨w.reg.shm.size, w.reg.shm.mem⟩ = (nodesText D n).length := by
      rw [nodeSectionLength_of_holds (r := ⟨w.reg.shm.size, w.reg.shm.mem⟩) f, ← htext, ByteMem.length_read]
    split
    · exact ⟨hl, by omega⟩
    · rfl
  · exact absurd he (hc topic event)

/-- The run that adds one node, on a region that was just created. -/
theorem talker_added : ∃ s₁ : Registry (List UInt8), (NodeCall.add talker).run (Registry.fresh 0) = .ok () s₁ ∧
    s₁.mgr.node_id_ = 0 ∧ s₁.mgr.nodes_ = NodeCall.table 0 NodesInfo.zero (.add talker) ∧
    NodeCall.Step (NodeHistory.start ⟨0, NodesInfo.zero, TopicsInfo.zero⟩ (fun _ => false)) (.add talker)
      ⟨s₁, some s₁.mgr.nodes_⟩ := by
  obtain ⟨s₁, h₁, hn₁, -⟩ := (NodeCall.add talker).stored_of_answer (i := 0)
    (s := (Registry.fresh 0 : Registry (List UInt8))) (by simp) (by decide +kernel) (by decide)
  refine ⟨s₁, h₁, ?_, hn₁, NodeCall.step_of_run (i := 0) (by decide) (by decide +kernel) h₁⟩
  have hans : answer (((NodeCall.add talker).run >>= fun _ => get >>= fun s => pure s.mgr.node_id_)
      (Registry.fresh 0 : Registry (List UInt8))) = some 0 := by decide +kernel
  rw [Op.bind_ok h₁] at hans
  exact Option.some.inj hans

theorem talker_covers : NodeCall.Covers (NodeHistory.start ⟨0, NodesInfo.zero, TopicsInfo.zero⟩ (fun _ => false) :
    NodeHistory (List UInt8)) (.add talker) :=
  covers_start 0 0 (by decide) (by decide +kernel)

/-- The node is added and gets a longer name. -/
theorem readsBack_of_add : ∃ (w : NodeHistory (List UInt8)) (n : NodesInfo), w.last = some n ∧ n.nodes_count = 1 ∧
    (n.nodes 0).node_name.bytes = utf8 "talkers" ∧ ReadsBack w.reg n := by
  obtain ⟨s₁, h₁, hid, hn₁, hstep₁⟩ := talker_added
  have hown : nodeSlot s₁.mgr.node_id_.toInt = .ok 0 := by rw [hid]; decide
  have hans : answer ((NodeCall.updateName (utf8 "talkers")).run s₁) = some () := by
    have hboth : answer (((NodeCall.add talker).run >>= fun _ => (NodeCall.updateName (utf8 "talkers")).run)
        (Registry.fresh 0 : Registry (List UInt8))) = some () := by decide +kernel
    rwa [Op.bind_ok h₁] at hboth
  obtain ⟨s₂, h₂, hn₂, -⟩ := (NodeCall.updateName (utf8 "talkers")).stored_of_answer (by simp) hans hown
  have hstep₂ : NodeCall.Step ⟨s₁, some s₁.mgr.nodes_⟩ (.updateName (utf8 "talkers")) ⟨s₂, some s₂.mgr.nodes_⟩ :=
    NodeCall.step_of_run hown (by rw [hn₁]; decide +kernel) h₂
  have hclean := hstep₁.clean (start_clean _ _) talker_covers
  have hcov : NodeCall.Covers ⟨s₁, some s₁.mgr.nodes_⟩ (.updateName (utf8 "talkers")) :=
    hclean.covers rfl (by simp) hown (by rw [hn₁]; decide +kernel) (by rw [hn₁]; decide +kernel)
  refine ⟨_, _, rfl, ?_, ?_, readsBack_of_run (.snoc (.single talker_covers hstep₁) hcov hstep₂) rfl rfl⟩
  · rw [hn₂, hn₁]
    rfl
  · rw [hn₂, hn₁]
    decide +kernel

/-- A node is added and then gets a shorter name: the table is not read back. -/
theorem readsBack_not_always :
    ¬ ∀ (mgr : ShmManager) (flags : Nat → Bool) (w : NodeHistory (List UInt8)) (cs : List NodeCall) (n : NodesInfo)
      (s : Registry (List UInt8)), Trans.Run NodeCall.Step Trans.free (NodeHistory.start mgr flags) cs w →
      w.last = some n → s.shm = w.reg.shm → ReadsBack s n := by
  intro h
  obtain ⟨s₁, h₁, hid, hn₁, hstep₁⟩ := talker_added
  obtain ⟨hsize, k, f, hlt, hread⟩ := hstep₁.clean (start_clean _ _) talker_covers
  have hown : nodeSlot s₁.mgr.node_id_.toInt = .ok 0 := by rw [hid]; decide
  have hans : answer ((NodeCall.updateName (utf8 "t")).run s₁) = some () := by
    have hboth : answer (((NodeCall.add talker).run >>= fun _ => (NodeCall.updateName (utf8 "t")).run)
        (Registry.fresh 0 : Registry (List UInt8))) = some () := by decide +kernel
    rwa [Op.bind_ok h₁] at hboth
  obtain ⟨s₂, h₂, hn₂, hshm₂⟩ := (NodeCall.updateName (utf8 "t")).stored_of_answer (by simp) hans hown
  have hstep₂ : NodeCall.Step ⟨s₁, some s₁.mgr.nodes_⟩ (.updateName (utf8 "t")) ⟨s₂, some s₂.mgr.nodes_⟩ :=
    NodeCall.step_of_run hown (by rw [hn₁]; decide +kernel) h₂
  -- the new text is five bytes shorter
  have hshort : (nodesText (List UInt8) s₂.mgr.nodes_).length < k := by
    have hk : (nodesText (List UInt8) s₁.mgr.nodes_).length = k := by
      rw [← (hread _ rfl).2.2, ByteMem.length_read]
    rw [← hk, hn₂, hn₁]
    decide +kernel
  have hsize₂ : TOPIC_INFO_SIZE + NODE_INFO_SIZE ≤ s₂.shm.size := by
    rw [hshm₂, hsize]
    decide
  obtain ⟨e, hthrows⟩ := parseNodesInfo_of_shorter hsize₂ f hlt hshort (by rw [hshm₂, hn₂])
  obtain ⟨s', hparse, -⟩ := h _ _ _ _ _ s₂ (.snoc (.single trivial hstep₁) trivial hstep₂) rfl rfl
  rw [hthrows] at hparse
  cases hparse

end MiniRos2

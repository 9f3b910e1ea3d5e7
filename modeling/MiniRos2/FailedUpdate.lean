import MiniRos2.NodeSection
import MiniRos2.TopicRoom
import MiniRos2.TextSize
/-!
# FailedUpdate — what a registry update that failed has left

An update changes the manager's tables, looks for the topic, and writes; what fails last takes nothing back.  A write
that throws has stored nothing (`shm_of_throws`), and before it `addPubTopic` has stored the topics' text at most
(`shm_of_addPub_throws`); but the tables keep the update, so everything is as it was exactly when there was nothing to
update (`failed_update`).
-/
namespace MiniRos2

open ByteMem (read write)

inductive UpdateCall where
  | add (node_info : NodeInfo)
  | updateName (node_name : List UInt8)
  | addSub (topic_name event_name : List UInt8)
  | addPub (topic_name event_name : List UInt8)
  | register (topic_name event_name : List UInt8)

/-- The names of the call fit into an entry. -/
def UpdateCall.ShortNames : UpdateCall → Prop
  | .add _ => True
  | .updateName node_name => ShortName node_name
  | .addSub topic event | .addPub topic event | .register topic event =>
    ShortName (fullName topic event)

/-- `nodes_.nodes[node_id_]`. -/
def ShmManager.own (m : ShmManager) : NodeInfo := m.nodes_.nodes m.node_id_.toInt.toNat

/-- The search makes no entry: the topic is visible, or there is no room. -/
def TopicsInfo.Settled (t : TopicsInfo) (full_name : List UInt8) : Prop :=
  t.Visible full_name ∨ (MAX_TOPICS_PER_NODE : Int) ≤ t.topics_count.toInt

section Calls

variable {D : Type} [DoubleText D]

def UpdateCall.run : UpdateCall → Op D Unit
  | .add node_info => addNode node_info
  | .updateName node_name => updateNodeName node_name
  | .addSub topic event => addSubTopic topic event
  | .addPub topic event => addPubTopic topic event
  | .register topic event => do
    let _event_id ← registerTopicEvent topic event

omit [DoubleText D] in
/-- `findOrCreateTopicEvent_` returns -1 to the call. -/
def UpdateCall.Refused (s : Registry D) : UpdateCall → Prop
  | .add _ | .updateName _ => False
  | .addSub topic event | .addPub topic event | .register topic event =>
    answer (findOrCreateTopicEvent_ topic event s) = some (-1)

/-- `ShmBase::Write` throws out of the call. -/
def UpdateCall.Throws (c : UpdateCall) (s : Registry D) : Prop :=
  ∃ what, c.run s = .error (.throws (.outOfRange what)) (finalState (c.run s))

def UpdateCall.Fails (c : UpdateCall) (s : Registry D) : Prop := c.Refused s ∨ c.Throws s

omit [DoubleText D] in
/-- **Everything is as it was**: the tables, and the bytes of the region. -/
structure Unchanged (s s' : Registry D) : Prop where
  nodes : s'.mgr.nodes_ = s.mgr.nodes_
  topics : s'.mgr.topics_ = s.mgr.topics_
  shm : s'.shm = s.shm

/-- Writing the node table throws, or stores what is there. -/
def KeepsSection (s : Registry D) : Prop :=
  s.mgr.nodes_.nodes_count.toInt < 0 ∨ s.shm.size < TOPIC_INFO_SIZE + (nodesText D s.mgr.nodes_).length ∨
    read s.shm.mem TOPIC_INFO_SIZE (nodesText D s.mgr.nodes_).length = nodesText D s.mgr.nodes_

/-- **The call has nothing to update.** -/
def UpdateCall.Harmless (s : Registry D) : UpdateCall → Prop
  | .add _ | .addPub _ _ => False
  | .updateName node_name => strcpy node_name = .ok s.mgr.own.node_name
  | .addSub topic event => (MAX_TOPICS_PER_NODE : Int) ≤ s.mgr.own.sub_topic_count.toInt ∧
      s.mgr.topics_.Settled (fullName topic event) ∧ KeepsSection s
  | .register topic event => s.mgr.topics_.Settled (fullName topic event)

/-! ## Tables that stay as they are -/

theorem NodesInfo.set_eq_self {n : NodesInfo} {i : Nat} {f : NodeInfo → NodeInfo} :
    n.set i f = n ↔ f (n.nodes i) = n.nodes i := by
  constructor
  · intro h
    have hi := congrFun (congrArg NodesInfo.nodes h) i
    rwa [show (n.set i f).nodes i = f (n.nodes i) from Function.update_self ..] at hi
  · intro h
    unfold NodesInfo.set
    rw [h, Function.update_eq_self]

theorem Int32.succ_ne (n : Int32) : n + 1 ≠ n := by simp

theorem NodeInfo.countSub_eq_self {n : NodeInfo} :
    n.countSub = n ↔ (MAX_TOPICS_PER_NODE : Int) ≤ n.sub_topic_count.toInt := by
  unfold NodeInfo.countSub
  by_cases h : n.sub_topic_count.toInt < MAX_TOPICS_PER_NODE
  · rw [if_pos h]
    constructor
    · intro heq
      exact absurd (congrArg NodeInfo.sub_topic_count heq) (Int32.succ_ne _)
    · intro hle
      omega
  · rw [if_neg h]
    exact ⟨fun _ => by omega, fun _ => rfl⟩

theorem FindOrCreated.eq_self_iff {t t' : TopicsInfo} {full_name : List UInt8} {id : Int32}
    (h : FindOrCreated t full_name id t') : t' = t ↔ t.Settled full_name := by
  unfold TopicsInfo.Settled
  cases h with
  | found hi => exact ⟨fun _ => .inl ⟨_, hi⟩, fun _ => rfl⟩
  | full _ hmax => exact ⟨fun _ => .inr hmax, fun _ => rfl⟩
  | created ha hlt =>
    constructor
    · intro heq
      exact absurd (congrArg TopicsInfo.topics_count heq) (Int32.succ_ne _)
    · rintro (⟨i, hi⟩ | hmax)
      · exact absurd hi (not_first_of_absent ha i)
      · omega

theorem TopicsInfo.put_topics_count (t : TopicsInfo) (i : Nat) (x : TopicInfo) :
    (t.put i x).topics_count = t.topics_count + 1 := rfl

/-- What `addPubTopic` puts behind the entry that was found or made is one more in any case. -/
theorem TopicsInfo.put_ne {t : TopicsInfo} {full_name : List UInt8} {id : Int32} {t' : TopicsInfo} {j : Nat}
    (x : TopicInfo) (h : FindOrCreated t full_name id t') (hj : topicSlot t'.topics_count.toInt = .ok j) :
    t'.put j x ≠ t := by
  intro heq
  have hcount : t'.topics_count + 1 = t.topics_count := congrArg TopicsInfo.topics_count heq
  obtain ⟨hint, hlt⟩ := arraySlot_eq_ok hj
  have hsucc : (t'.topics_count + 1).toInt = t'.topics_count.toInt + 1 := TopicsInfo.toInt_count_succ (by omega)
  rw [hcount] at hsucc
  cases h with
  | found _ => omega
  | full _ _ => omega
  | created _ hmax =>
    have hsucc' : (t.topics_count + 1).toInt = t.topics_count.toInt + 1 := TopicsInfo.toInt_count_succ (by omega)
    rw [TopicsInfo.put_topics_count, hsucc'] at hsucc
    omega

/-! ## Writes -/

omit [DoubleText D] in
theorem Registry.store_shm_eq {s : Registry D} {data : List UInt8} {offset : Nat} :
    (s.store data offset).shm = s.shm ↔ read s.shm.mem offset data.length = data := by
  rw [← ByteMem.write_eq_self_iff]
  constructor
  · exact fun h => congrArg Region.mem h
  · intro h
    show (⟨s.shm.size, write s.shm.mem offset data⟩ : Region) = s.shm
    rw [h]

omit [DoubleText D] in
theorem shmWrite_throws {s : Registry D} {data : List UInt8} {offset : Nat} (h : s.shm.size < offset + data.length) :
    shmWrite data offset s = .error (.throws (.outOfRange (utf8 "Write exceeds shared memory size"))) s := by
  unfold shmWrite Region.write
  rw [if_pos h]

/-- **When a write of the node table leaves the region as it was.** -/
theorem writeNodesInfo_shm_eq {s : Registry D} (hdef : ¬ Undefined (writeNodesInfo_ s)) :
    (finalState (writeNodesInfo_ s)).shm = s.shm ↔ KeepsSection s := by
  unfold KeepsSection
  rcases writeNodesInfo_cases s with ⟨hv, hw, hle⟩ | ⟨hlt, e, hw⟩
  · have hneg : ¬ s.mgr.nodes_.nodes_count.toInt < 0 := by have := hv.1; omega
    have hlong : ¬ s.shm.size < TOPIC_INFO_SIZE + (nodesText D s.mgr.nodes_).length := by omega
    rw [hw]
    show (s.store _ _).shm = s.shm ↔ _
    rw [Registry.store_shm_eq]
    simp [hneg, hlong]
  · refine iff_of_true (by rw [hw]; rfl) ?_
    by_cases hv : s.mgr.nodes_.Valid
    · exact .inr (.inl (hlt hv))
    · obtain ⟨e', hw', hund⟩ := writeNodesInfo_of_not_valid hv
      refine .inl (not_le.1 (fun hnonneg => hdef ?_))
      rw [hw']
      exact hund.2 hnonneg

omit [DoubleText D] in
theorem unchanged_iff {s s' : Registry D} :
    Unchanged s s' ↔ s'.mgr.nodes_ = s.mgr.nodes_ ∧ s'.mgr.topics_ = s.mgr.topics_ ∧ s'.shm = s.shm :=
  ⟨fun h => ⟨h.nodes, h.topics, h.shm⟩, fun ⟨hn, ht, hs⟩ => ⟨hn, ht, hs⟩⟩

/-- **The manager keeps what the call made of its tables**, whatever became of the write. -/
theorem unchanged_of_write {s s₁ : Registry D} (hdef : ¬ Undefined (writeNodesInfo_ s₁)) (hshm : s₁.shm = s.shm) :
    Unchanged s (finalState (writeNodesInfo_ s₁)) ↔
      s₁.mgr.nodes_ = s.mgr.nodes_ ∧ s₁.mgr.topics_ = s.mgr.topics_ ∧ KeepsSection s₁ := by
  rw [unchanged_iff, (writeNodesInfo_frame s₁).1, ← hshm, writeNodesInfo_shm_eq hdef]

omit [DoubleText D] in
theorem own_eq {s : Registry D} {i : Nat} (hi : nodeSlot s.mgr.node_id_.toInt = .ok i) :
    s.mgr.nodes_.nodes i = s.mgr.own := by
  obtain ⟨hint, -⟩ := arraySlot_eq_ok hi
  unfold ShmManager.own
  rw [hint, Int.toNat_natCast]

theorem updateNodeName_cases (s : Registry D) (node_name : List UInt8) :
    (∃ i name, nodeSlot s.mgr.node_id_.toInt = .ok i ∧ strcpy node_name = .ok name ∧
        updateNodeName node_name s =
          writeNodesInfo_ (s.mapNodes (NodesInfo.set i (fun n => { n with node_name := name })))) ∨
      Undefined (updateNodeName node_name s) := by
  unfold updateNodeName
  rcases strcpy_cases node_name with ⟨name, hn⟩ | hn
  · rw [Op.bind_ok (liftE_ok hn s)]
    cases hi : nodeSlot s.mgr.node_id_.toInt with
    | error e =>
      rw [modifyOwn_bind_error hi]
      exact .inr rfl
    | ok i =>
      rw [modifyOwn_bind hi]
      exact .inl ⟨i, name, rfl, hn, rfl⟩
  · rw [Op.bind_error (liftE_error hn s)]
    exact .inr rfl

theorem addNode_cases (s : Registry D) (node_info : NodeInfo) :
    (∃ i, nodeSlot s.mgr.node_id_.toInt = .ok i ∧
        addNode node_info s = writeNodesInfo_ (s.mapNodes (fun n => NodeCall.table i n (.add node_info)))) ∨
      Undefined (addNode node_info s) := by
  cases hi : nodeSlot s.mgr.node_id_.toInt with
  | error e =>
    unfold addNode
    rw [modifyOwn_bind_error hi]
    exact .inr rfl
  | ok i => exact .inl ⟨i, rfl, addNode_eq hi⟩

omit [DoubleText D] in
theorem Registry.mapNodes_nodes (s : Registry D) (f : NodesInfo → NodesInfo) :
    (s.mapNodes f).mgr.nodes_ = f s.mgr.nodes_ := rfl

/-- A write that fails leaves the state it found. -/
theorem state_of_write_error {s s' : Registry D} {e : Abort} (h : writeNodesInfo_ s = .error e s') : s' = s := by
  rcases writeNodesInfo_cases s with ⟨-, hw, -⟩ | ⟨-, e, hw⟩
  · rw [hw] at h
    cases h
  · rw [hw] at h
    cases h
    rfl

omit [DoubleText D] in
theorem not_undefined_of_throws {σ α : Type} {r : EStateM.Result Abort σ α} {s : σ} {e : Exn}
    (h : r = .error (.throws e) s) : ¬ Undefined r := by
  rw [h]
  rintro ⟨⟩

theorem keepsSection_of_throws {s s' : Registry D} {e : Exn} (h : writeNodesInfo_ s = .error (.throws e) s') :
    KeepsSection s := by
  refine (writeNodesInfo_shm_eq (not_undefined_of_throws h)).1 ?_
  rw [h]
  exact congrArg Registry.shm (state_of_write_error h)

theorem keepsSection_congr {s s' : Registry D} (hn : s'.mgr.nodes_ = s.mgr.nodes_) (hs : s'.shm = s.shm) :
    KeepsSection s' ↔ KeepsSection s := by
  unfold KeepsSection
  rw [hn, hs]

/-! ## The calls -/

theorem unchanged_add (s : Registry D) {node_info : NodeInfo} (hdef : ¬ Undefined (addNode node_info s)) :
    ¬ Unchanged s (finalState (addNode node_info s)) := by
  rcases addNode_cases s node_info with ⟨i, -, heq⟩ | hu
  · rw [heq] at hdef ⊢
    rw [unchanged_of_write (s := s) hdef rfl]
    rintro ⟨hn, -⟩
    exact Int32.succ_ne _ (congrArg NodesInfo.nodes_count hn)
  · exact absurd hu hdef

theorem unchanged_updateName {s : Registry D} {node_name : List UInt8}
    (hthrows : (UpdateCall.updateName node_name).Throws s) :
    Unchanged s (finalState (updateNodeName node_name s)) ↔ strcpy node_name = .ok s.mgr.own.node_name := by
  obtain ⟨what, hthrows⟩ := hthrows
  have hrun : (UpdateCall.updateName node_name).run s = updateNodeName node_name s := rfl
  rw [hrun] at hthrows
  rcases updateNodeName_cases s node_name with ⟨i, name, hi, hname, heq⟩ | hu
  · rw [heq] at hthrows ⊢
    have hkeeps := keepsSection_of_throws hthrows
    have hdef := not_undefined_of_throws hthrows
    rw [unchanged_of_write (s := s) hdef rfl, hname, Registry.mapNodes_nodes, NodesInfo.set_eq_self, own_eq hi,
      Except.ok.injEq]
    constructor
    · rintro ⟨h, -⟩
      exact congrArg NodeInfo.node_name h
    · rintro rfl
      exact ⟨rfl, rfl, hkeeps⟩
  · rw [hthrows] at hu
    cases hu

theorem unchanged_addSub {s : Registry D} {topic event : List UInt8} (hdef : ¬ Undefined (addSubTopic topic event s)) :
    Unchanged s (finalState (addSubTopic topic event s)) ↔
      (MAX_TOPICS_PER_NODE : Int) ≤ s.mgr.own.sub_topic_count.toInt ∧
        s.mgr.topics_.Settled (fullName topic event) ∧ KeepsSection s := by
  rcases addSubTopic_cases s topic event with ⟨i, id, t, hi, hfc, heq⟩ | hu
  · rw [heq] at hdef ⊢
    rw [unchanged_of_write (s := s) hdef rfl]
    show s.mgr.nodes_.set i _ = s.mgr.nodes_ ∧ t = s.mgr.topics_ ∧ _ ↔ _
    rw [hfc.eq_self_iff, ← NodeInfo.countSub_eq_self, ← own_eq hi, ← NodesInfo.set_eq_self]
    refine and_congr_right (fun hn => and_congr_right (fun _ => ?_))
    exact keepsSection_congr hn rfl
  · exact absurd hu hdef

theorem unchanged_addPub (s : Registry D) {topic event : List UInt8} (hdef : ¬ Undefined (addPubTopic topic event s)) :
    ¬ Unchanged s (finalState (addPubTopic topic event s)) := by
  rcases addPubTopic_cases s topic event with ⟨i, id, t, j, name, -, hfc, -, hj, heq⟩ | hu
  · rw [heq]
    intro h
    have ht := h.topics
    rw [(writeRegistryToShm_frame _).1] at ht
    exact TopicsInfo.put_ne _ hfc hj ht
  · exact absurd hu hdef

omit [DoubleText D] in
/-- The search is determined by the table. -/
theorem FindOrCreated.unique {t t₁ t₂ : TopicsInfo} {full_name : List UInt8} {id₁ id₂ : Int32}
    (h₁ : FindOrCreated t full_name id₁ t₁) (h₂ : FindOrCreated t full_name id₂ t₂) : id₁ = id₂ ∧ t₁ = t₂ := by
  cases h₁ with
  | found hi =>
    obtain ⟨hid, ht⟩ := h₂.of_first hi
    exact ⟨hid.symm, ht.symm⟩
  | full ha hmax =>
    cases h₂ with
    | found hi => exact absurd hi (not_first_of_absent ha _)
    | full _ _ => exact ⟨rfl, rfl⟩
    | created _ hlt => omega
  | created ha hlt hslot hname =>
    cases h₂ with
    | found hi => exact absurd hi (not_first_of_absent ha _)
    | full _ hmax => omega
    | created _ _ hslot' hname' =>
      rw [hslot] at hslot'
      rw [hname] at hname'
      cases hslot'
      cases hname'
      exact ⟨rfl, rfl⟩

/-- **A registration that failed** has not written the table out. -/
theorem register_of_fails {s : Registry D} {topic event : List UInt8}
    (hdef : ¬ Undefined ((UpdateCall.register topic event).run s)) (hf : (UpdateCall.register topic event).Fails s) :
    ∃ id t, FindOrCreated s.mgr.topics_ (fullName topic event) id t ∧
      finalState ((UpdateCall.register topic event).run s) = s.mapTopics (fun _ => t) := by
  have hrun : (UpdateCall.register topic event).run s = (registerTopicEvent topic event >>= fun _ => pure ()) s := rfl
  rcases registerTopicEvent_cases s topic event with ⟨id, t, hfc, heq⟩ | hu
  · refine ⟨id, t, hfc, ?_⟩
    by_cases hid : 0 ≤ id.toInt
    · rw [if_pos hid] at heq
      rcases writeTopicsInfo_cases (s.mapTopics (fun _ => t)) with ⟨-, hw, -⟩ | ⟨e, hw⟩
      · -- the call returned an id that is not -1
        rw [Op.bind_ok hw] at heq
        rcases hf with hno | ⟨what, hthrows⟩
        · have hans : answer (findOrCreateTopicEvent_ topic event s) = some (-1) := hno
          rcases findOrCreate_cases topic event s with ⟨id', t', hfc', hok⟩ | ⟨s', herr⟩
          · rw [hok] at hans
            obtain rfl := (hfc.unique hfc').1.trans (Option.some.inj hans)
            exact absurd hid (by decide)
          · rw [herr] at hans
            cases hans
        · rw [hrun, Op.bind_ok heq] at hthrows
          cases hthrows
      · rw [Op.bind_error hw] at heq
        rw [hrun, Op.bind_error heq]
        rfl
    · rw [if_neg hid] at heq
      rw [hrun, Op.bind_ok heq]
      rfl
  · exact absurd ((finalState_answer _ (fun _ => ()) s).2.2 hu) hdef

theorem unchanged_register {s : Registry D} {topic event : List UInt8}
    (hdef : ¬ Undefined ((UpdateCall.register topic event).run s)) (hf : (UpdateCall.register topic event).Fails s) :
    Unchanged s (finalState ((UpdateCall.register topic event).run s)) ↔
      s.mgr.topics_.Settled (fullName topic event) := by
  obtain ⟨id, t, hfc, hfinal⟩ := register_of_fails hdef hf
  rw [hfinal, ← hfc.eq_self_iff]
  constructor
  · exact fun h => h.topics
  · exact fun h => ⟨rfl, h, rfl⟩

/-- **A write that throws has stored nothing.** -/
theorem shm_of_throws {c : UpdateCall} {s : Registry D} (hc : ∀ topic event, c ≠ .addPub topic event)
    (h : c.Throws s) : (finalState (c.run s)).shm = s.shm := by
  obtain ⟨what, h⟩ := h
  have hwrite : ∀ s₁ : Registry D, c.run s = writeNodesInfo_ s₁ → s₁.shm = s.shm →
      (finalState (c.run s)).shm = s.shm := by
    intro s₁ heq hshm
    rw [heq] at h ⊢
    rw [state_of_write_error h, hshm]
  have hdef := not_undefined_of_throws h
  cases c with
  | add node_info =>
    rcases addNode_cases s node_info with ⟨i, -, heq⟩ | hu
    · exact hwrite _ heq rfl
    · exact absurd hu hdef
  | updateName node_name =>
    rcases updateNodeName_cases s node_name with ⟨i, name, -, -, heq⟩ | hu
    · exact hwrite _ heq rfl
    · exact absurd hu hdef
  | addSub topic event =>
    rcases addSubTopic_cases s topic event with ⟨i, id, t, -, -, heq⟩ | hu
    · exact hwrite _ heq rfl
    · exact absurd hu hdef
  | addPub topic event => exact absurd rfl (hc topic event)
  | register topic event =>
    obtain ⟨id, t, -, hfinal⟩ := register_of_fails hdef (.inr ⟨what, h⟩)
    rw [hfinal]
    rfl

/-- **What the two writes have stored when one of them throws**: nothing, or the topics' text. -/
theorem writeRegistryToShm_throws {s s' : Registry D} {e : Abort} (h : writeRegistryToShm_ s = .error e s') :
    s' = s ∨ s' = s.store (topicsText D s.mgr.topics_) 0 := by
  unfold writeRegistryToShm_ at h
  rcases writeTopicsInfo_cases s with ⟨-, hw, -⟩ | ⟨e', hw⟩
  · rw [Op.bind_ok hw] at h
    exact .inr (state_of_write_error h)
  · rw [Op.bind_error hw] at h
    cases h
    exact .inl rfl

theorem shm_of_addPub_throws {s : Registry D} {topic event : List UInt8}
    (h : (UpdateCall.addPub topic event).Throws s) :
    let s' := finalState (addPubTopic topic event s)
    s'.shm = s.shm ∨ s'.shm = (s.store (topicsText D s'.mgr.topics_) 0).shm := by
  obtain ⟨what, h⟩ := h
  have hrun : (UpdateCall.addPub topic event).run s = addPubTopic topic event s := rfl
  rw [hrun] at h
  rcases addPubTopic_cases s topic event with ⟨i, id, t, j, name, -, -, -, -, heq⟩ | hu
  · generalize hs₁ :
      (s.mapNodes (NodesInfo.set i NodeInfo.countPub)).mapTopics (fun _ => t.put j ⟨name, id⟩) = s₁ at heq
    have hshm : s₁.shm = s.shm := by rw [← hs₁]; rfl
    rw [heq] at h
    dsimp only
    rw [heq]
    rcases writeRegistryToShm_throws h with hs | hs
    · rw [hs]
      exact .inl hshm
    · rw [hs]
      refine .inr ?_
      show (⟨s₁.shm.size, write s₁.shm.mem 0 (topicsText D s₁.mgr.topics_)⟩ : Region) = _
      rw [hshm]
      rfl
  · exact absurd hu (not_undefined_of_throws h)

/-- **An update that failed**, in which no array is left: everything is as it was exactly when there was nothing to
update; and a write that throws has stored nothing, but `addPubTopic` may have stored the text of its topics before. -/
theorem failed_update {c : UpdateCall} {s : Registry D} (hdef : ¬ Undefined (c.run s)) (hf : c.Fails s) :
    (Unchanged s (finalState (c.run s)) ↔ c.Harmless s) ∧
      (c.Throws s → (finalState (c.run s)).shm = s.shm ∨ (∃ topic event, c = .addPub topic event) ∧
        (finalState (c.run s)).shm = (s.store (topicsText D (finalState (c.run s)).mgr.topics_) 0).shm) := by
  refine ⟨?_, fun hthrows => ?_⟩
  swap
  · cases c with
    | addPub topic event => exact (shm_of_addPub_throws hthrows).imp_right fun h => ⟨⟨topic, event, rfl⟩, h⟩
    | _ => exact .inl (shm_of_throws (fun _ _ => UpdateCall.noConfusion) hthrows)
  cases c with
  | add node_info => exact iff_of_false (unchanged_add s hdef) id
  | updateName node_name =>
    rcases hf with hno | hthrows
    · cases hno
    · exact unchanged_updateName hthrows
  | addSub topic event => exact unchanged_addSub hdef
  | addPub topic event => exact iff_of_false (unchanged_addPub s hdef) id
  | register topic event => exact unchanged_register hdef hf

end Calls

/-! ## A full registry -/

/-- A manager in the first slot, with all slots taken. -/
def fullRegistry : Registry (List UInt8) :=
  ⟨⟨0, aliveNodes 16, TopicsInfo.zero⟩, Region.fresh (sizeofShmHead + MAX_SHM_MANGER_SIZE), fun _ => false⟩

theorem NodesInfo.Declared.set {n : NodesInfo} (h : n.Declared) (i : Nat) {f : NodeInfo → NodeInfo}
    (hf : 0 ≤ (f (n.nodes i)).node_id.toInt ∧ 0 ≤ (f (n.nodes i)).pid.toInt ∧
      0 ≤ (f (n.nodes i)).pub_topic_count.toInt ∧ 0 ≤ (f (n.nodes i)).sub_topic_count.toInt ∧
      0 ≤ (f (n.nodes i)).last_heartbeat.toInt) : (n.set i f).Declared := by
  refine ⟨h.valid, h.alive, fun j hj => ?_⟩
  by_cases hji : j = i
  · rw [hji, show (n.set i f).nodes i = f (n.nodes i) from Function.update_self ..]
    exact hf
  · rw [show (n.set i f).nodes j = n.nodes j from Function.update_of_ne hji _ _]
    exact h.nonneg j hj

/-- Sixteen nodes have no room behind the topics' section, whatever they are. -/
theorem writeNodesInfo_throws_of_sixteen {D : Type} [DoubleText D] {s : Registry D} (hn : s.mgr.nodes_.Declared)
    (hcount : s.mgr.nodes_.count = 16) (hsize : s.shm.size = sizeofShmHead + MAX_SHM_MANGER_SIZE) :
    writeNodesInfo_ s = .error (.throws (.outOfRange (utf8 "Write exceeds shared memory size"))) s := by
  have hlong : s.shm.size < TOPIC_INFO_SIZE + (nodesText D s.mgr.nodes_).length := by
    have hle := s.mgr.nodes_.le_textSize
    have hshm : sizeofShmHead + MAX_SHM_MANGER_SIZE = 71156 := rfl
    rw [hcount] at hle
    rw [length_nodesText_eq hn, hsize, hshm]
    unfold TOPIC_INFO_SIZE
    omega
  rw [writeNodesInfo_of_valid hn.valid]
  exact shmWrite_throws hlong

theorem updateName_throws {node_name : List UInt8} {name : CName} (hname : strcpy node_name = .ok name) :
    (UpdateCall.updateName node_name).Throws fullRegistry := by
  have hslot : nodeSlot fullRegistry.mgr.node_id_.toInt = .ok 0 := by decide
  let n := (aliveNodes 16).set 0 (fun x => { x with node_name := name })
  have hdeclared : n.Declared := by
    have hall := aliveNodes_declared (k := 16) (by decide) (by decide)
    exact hall.set 0 (hall.nonneg 0 (by decide))
  have hrun : updateNodeName node_name fullRegistry = writeNodesInfo_ (fullRegistry.mapNodes (fun _ => n)) := by
    unfold updateNodeName
    rw [Op.bind_ok (liftE_ok hname _), modifyOwn_bind hslot]
    rfl
  have hthrows := hrun.trans
    (writeNodesInfo_throws_of_sixteen (s := fullRegistry.mapNodes (fun _ => n)) hdeclared rfl rfl)
  have hfinal : finalState ((UpdateCall.updateName node_name).run fullRegistry) = fullRegistry.mapNodes (fun _ => n) :=
    congrArg finalState hthrows
  refine ⟨utf8 "Write exceeds shared memory size", ?_⟩
  rw [hfinal]
  exact hthrows

/-- The slot has no name yet, and is to have none. -/
theorem unchanged_of_same_name : Unchanged fullRegistry (finalState ((UpdateCall.updateName []).run fullRegistry)) := by
  have hname : strcpy [] = .ok CName.empty := rfl
  have hthrows := updateName_throws hname
  obtain ⟨what, h⟩ := hthrows
  exact (failed_update (not_undefined_of_throws h) (.inr ⟨what, h⟩)).1.2 rfl

/-- A node of a full registry is renamed: the region keeps its bytes, and the table has the name. -/
theorem not_always_unchanged : ¬ ∀ (c : UpdateCall) (s : Registry (List UInt8)), c.ShortNames → c.Fails s →
    Unchanged s (finalState (c.run s)) := by
  intro h
  let name : CName := ⟨[97], by simp, by decide⟩
  have hname : strcpy name.bytes = .ok name := strcpy_bytes name
  have hthrows := updateName_throws hname
  have hshort : (UpdateCall.updateName name.bytes).ShortNames := ⟨name, hname⟩
  have hsame := (unchanged_updateName hthrows).1 (h (.updateName name.bytes) fullRegistry hshort (.inr hthrows))
  have hown : fullRegistry.mgr.own.node_name = CName.empty := rfl
  rw [hname, hown] at hsame
  cases congrArg CName.bytes (Except.ok.inj hsame)

end MiniRos2

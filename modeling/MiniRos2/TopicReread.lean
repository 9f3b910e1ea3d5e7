import MiniRos2.TopicSlots
import MiniRos2.TopicRoom
import MiniRos2.TopicSection
/-!
# TopicReread — a newcomer reads the writer's topics

`addSubTopic` enters a topic without writing the topic section, and the registration that `createSubscriber` makes right
behind it writes it.  So between two tasks the section holds the text of the manager's own table, over texts that were
never longer, and whoever reads it gets the table (`topicsReadBack_of_run`), as long as no name has a backspace; with a
visible one that has, it gets no topics (`Stored.topicsReadBack_iff`).
-/
namespace MiniRos2

variable {D : Type} [DoubleText D]

/-! ## One registration -/

/-- **A registration writes the table out**, over a section that holds a table with no more entries; only a full table
is not written. -/
theorem TopicCall.Step.region_of_register {s s' : Registry D} {t : TopicsInfo} {topic event : List UInt8}
    (hstep : TopicCall.Step s (.register topic event) s') (h : TopicRegion D s.shm t) (hext : t.Extends s.mgr.topics_)
    (hc : s.mgr.topics_.Coherent) (hfits : (topicsText D s'.mgr.topics_).length < TOPIC_INFO_SIZE) :
    TopicRegion D s'.shm s'.mgr.topics_ ∨
      (SameTopics s s' ∧ (MAX_TOPICS_PER_NODE : Int) ≤ s.mgr.topics_.topics_count.toInt) := by
  obtain ⟨id, t', hfc, rfl⟩ := hstep.of_register
  obtain ⟨hb, hext', -⟩ := hfc.spec hc.bounded
  obtain ⟨hc', hid⟩ := hfc.coherent hc
  by_cases h0 : 0 ≤ id.toInt
  · left
    rw [if_pos h0, (writeTopicsInfo_frame _).1] at hfits
    rw [if_pos h0]
    have hsize : TOPIC_INFO_SIZE ≤ s.shm.size := by rw [h.size]; decide
    rw [writeTopicsInfo_of_fits (s := s.mapTopics (fun _ => t')) hsize hb.valid hfits]
    exact h.write h.valid.1 (hext.trans hext') hb.valid hfits
  · right
    rw [if_neg h0]
    rcases hid with ⟨-, rfl, hmax⟩ | ⟨i, rfl, -⟩
    · exact ⟨⟨rfl, rfl, rfl⟩, hmax⟩
    · exact absurd (hc'.id_mem i).1 h0

/-! ## The tasks of a node -/

inductive TopicTask where
  | register (topic_name event_name : List UInt8)
  | publish (topic_name event_name : List UInt8)
  | subscribe (topic_name event_name : List UInt8)

/-- What a node has its manager do for topics; `createSubscriber` makes the two calls of a subscription. -/
def TopicTask.run : TopicTask → Op D Unit
  | .register topic event => do
    let _event_id ← registerTopicEvent topic event
  | .publish topic event => addPubTopic topic event
  | .subscribe topic event => do
    addSubTopic topic event
    let _event_id ← registerTopicEvent topic event

/-- Both tables have texts that are shorter than their sections. -/
def Registry.TextsFit (s : Registry D) : Prop :=
  (nodesText D s.mgr.nodes_).length < NODE_INFO_SIZE ∧ (topicsText D s.mgr.topics_).length < TOPIC_INFO_SIZE

/-- One task that is defined and writes no text that does not fit. -/
def TopicTask.Step (s : Registry D) (c : TopicTask) (s' : Registry D) : Prop :=
  ¬ Undefined (c.run s) ∧ s' = finalState (c.run s) ∧ s'.TextsFit

/-- **The section holds the manager's own table.** -/
structure Stored (s : Registry D) : Prop where
  region : TopicRegion D s.shm s.mgr.topics_
  coherent : s.mgr.topics_.Coherent
  nodes : s.mgr.nodes_.Valid

theorem Stored.call {s s' : Registry D} {c : TopicCall} (h : Stored s) (hstep : TopicCall.Step s c s')
    (hregion : TopicRegion D s'.shm s'.mgr.topics_) : Stored s' :=
  ⟨hregion, hstep.effect.1.coherent h.coherent, hstep.valid h.nodes⟩

theorem Stored.register {s s' : Registry D} {topic event : List UInt8} (h : Stored s)
    (hstep : TopicCall.Step s (.register topic event) s')
    (hfits : (topicsText D s'.mgr.topics_).length < TOPIC_INFO_SIZE) : Stored s' := by
  apply h.call hstep
  rcases hstep.region_of_register h.region (.refl _) h.coherent hfits with hregion | ⟨hsame, -⟩
  · exact hregion
  · rw [hsame.table]
    exact h.region.same hsame

theorem Stored.publish {s s' : Registry D} {topic event : List UInt8} (h : Stored s)
    (hstep : TopicCall.Step s (.addPub topic event) s')
    (hfits : (topicsText D s'.mgr.topics_).length < TOPIC_INFO_SIZE) : Stored s' := by
  apply h.call hstep
  obtain ⟨hdef, rfl⟩ := hstep
  have hsize : TOPIC_INFO_SIZE ≤ s.shm.size := by rw [h.region.size]; decide
  obtain ⟨t, heff, hstores⟩ := addPubTopic_stores hsize h.coherent.bounded hdef hfits
  obtain ⟨hb, hext⟩ := heff.spec h.coherent.bounded
  rw [TopicCall.run] at hfits ⊢
  rw [hstores.table] at hfits ⊢
  exact hstores.region h.region h.region.valid.1 hext hb.valid hfits

/-- **A subscription and its registration**: the section is behind the table in between. -/
theorem Stored.subscribe {s s₁ s' : Registry D} {topic event : List UInt8} (h : Stored s)
    (hsub : TopicCall.Step s (.addSub topic event) s₁)
    (hsec : ByteMem.read s₁.shm.mem 0 TOPIC_INFO_SIZE = ByteMem.read s.shm.mem 0 TOPIC_INFO_SIZE)
    (hreg : TopicCall.Step s₁ (.register topic event) s')
    (hfits : (topicsText D s'.mgr.topics_).length < TOPIC_INFO_SIZE) : Stored s' := by
  obtain ⟨⟨id, hfc⟩, hsize⟩ := hsub.effect
  have hext := (hfc.spec h.coherent.bounded).2.1
  have hc₁ := (hfc.coherent h.coherent).1
  have hregion : TopicRegion D s₁.shm s.mgr.topics_ := h.region.congr hsize hsec
  refine ⟨?_, hreg.effect.1.coherent hc₁, hreg.valid (hsub.valid h.nodes)⟩
  rcases hreg.region_of_register hregion hext hc₁ hfits with hnew | ⟨hsame, hmax⟩
  · exact hnew
  · -- a table that is full here was full before, so that the subscription has not entered the topic
    have htable : s₁.mgr.topics_ = s.mgr.topics_ := by
      rcases hfc.room h.coherent.bounded with ⟨heq, -⟩ | ⟨hcount, hlt⟩
      · exact heq
      · omega
    rw [hsame.table, htable]
    exact hregion.same hsame

theorem addSubTopic_section {s s₁ : Registry D} {topic event : List UInt8}
    (h : addSubTopic topic event s = .ok () s₁) :
    ByteMem.read s₁.shm.mem 0 TOPIC_INFO_SIZE = ByteMem.read s.shm.mem 0 TOPIC_INFO_SIZE := by
  rcases addSubTopic_cases s topic event with ⟨i, id, t, -, -, heq⟩ | hu
  · have hkeep := (KeepsTopics.writeNodesInfo_
      ((s.mapNodes (NodesInfo.set i NodeInfo.countSub)).mapTopics (fun _ => t))).section_
    rw [← heq, h] at hkeep
    exact hkeep
  · rw [h] at hu
    exact absurd hu id

/-- Only a node table whose text does not fit makes a subscription throw. -/
theorem addSubTopic_error {s s₁ : Registry D} {topic event : List UInt8} {e : Abort} (h : Stored s)
    (hdef : e ≠ .undefined) (heq : addSubTopic topic event s = .error e s₁) :
    ¬ (nodesText D s₁.mgr.nodes_).length < NODE_INFO_SIZE := by
  rcases addSubTopic_cases s topic event with ⟨i, id, t, -, -, heq'⟩ | hu
  · intro hfits
    rw [heq'] at heq
    rcases writeNodesInfo_cases ((s.mapNodes (NodesInfo.set i NodeInfo.countSub)).mapTopics (fun _ => t)) with
      ⟨-, hw, -⟩ | ⟨hlt, e', hw⟩
    · rw [hw] at heq
      cases heq
    · rw [hw] at heq
      cases heq
      have hlong := hlt h.nodes
      have hsize : ((s.mapNodes (NodesInfo.set i NodeInfo.countSub)).mapTopics (fun _ => t)).shm.size =
        sizeofShmHead + MAX_SHM_MANGER_SIZE := h.region.size
      unfold sizeofShmHead MAX_SHM_MANGER_SIZE TOPIC_INFO_SIZE at *
      unfold NODE_INFO_SIZE at hfits
      omega
  · rw [heq] at hu
    exact absurd hu hdef

/-- **One task leaves the section with the table.** -/
theorem TopicTask.Step.stored {s s' : Registry D} {c : TopicTask} (h : Stored s) (hstep : TopicTask.Step s c s') :
    Stored s' := by
  obtain ⟨hdef, rfl, hnodes, htopics⟩ := hstep
  cases c with
  | register topic event => exact h.register ⟨hdef, rfl⟩ htopics
  | publish topic event => exact h.publish ⟨hdef, rfl⟩ htopics
  | subscribe topic event =>
    have hrun : TopicTask.run (.subscribe topic event) s =
        (addSubTopic topic event >>= fun _ => TopicCall.run (.register topic event)) s := rfl
    rw [hrun] at hdef hnodes htopics ⊢
    cases hsub : addSubTopic topic event s with
    | ok u s₁ =>
      rw [Op.bind_ok hsub] at hdef hnodes htopics ⊢
      have hcall : TopicCall.Step s (.addSub topic event) s₁ := by
        rw [show s₁ = finalState (addSubTopic topic event s) by rw [hsub]; rfl]
        exact ⟨by rw [TopicCall.run, hsub]; exact id, rfl⟩
      exact h.subscribe hcall (addSubTopic_section hsub) ⟨hdef, rfl⟩ htopics
    | error e s₁ =>
      -- only a text of the nodes that does not fit makes a subscription throw
      rw [Op.bind_error hsub] at hdef hnodes
      exact absurd hnodes (addSubTopic_error h hdef hsub)

/-- **Whoever reads the region gets this manager's topics**, over whatever table it has itself. -/
def Registry.TopicsReadBack (s : Registry D) : Prop :=
  ∀ r : Registry D, r.shm = s.shm → ∃ r', readTopicsInfo_ r = .ok () r' ∧
    r'.mgr.topics_.topics_count = s.mgr.topics_.topics_count ∧
    ∀ i, i < s.mgr.topics_.count → r'.mgr.topics_.topics i = s.mgr.topics_.topics i

/-- **A stored table is read back exactly when none of its names has a backspace.** -/
theorem Stored.topicsReadBack_iff {s : Registry D} (h : Stored s) : s.TopicsReadBack ↔ s.mgr.topics_.Legible := by
  constructor
  · intro hread
    by_contra hl
    obtain ⟨r, hr, hcount, -⟩ := hread s rfl
    have hseen := h.region.reads (s := s) rfl
    rw [TopicsInfo.seen, if_neg hl] at hseen
    cases hr.symm.trans hseen
    -- the reader has no topics, so neither has the writer
    refine hl fun i hi => ?_
    unfold TopicsInfo.count at hi
    rw [← hcount] at hi
    exact absurd hi (Nat.not_lt_zero i)
  · intro hl r hr
    have hseen := h.region.reads hr
    rw [TopicsInfo.seen_of_legible hl] at hseen
    exact ⟨_, hseen, rfl, fun i hi => if_pos hi⟩

def TopicTask.full_name : TopicTask → List UInt8
  | .register topic event => fullName topic event
  | .publish topic event => fullName topic event
  | .subscribe topic event => fullName topic event

/-- The task's name has no backspace. -/
def TopicTask.Legible (_ : Registry D) (c : TopicTask) : Prop := 8 ∉ c.full_name

theorem TopicTask.Step.plain {s s' : Registry D} {c : TopicTask} (h : s.mgr.topics_.Plain) (hg : c.Legible s)
    (hstep : TopicTask.Step s c s') : s'.mgr.topics_.Plain := by
  obtain ⟨hdef, rfl, -⟩ := hstep
  cases c with
  | register topic event =>
    have hcall : TopicCall.Step s (.register topic event) _ := ⟨hdef, rfl⟩
    exact hcall.effect.1.plain h hg
  | publish topic event =>
    have hcall : TopicCall.Step s (.addPub topic event) _ := ⟨hdef, rfl⟩
    exact hcall.effect.1.plain h hg
  | subscribe topic event =>
    have hrun : TopicTask.run (.subscribe topic event) s =
        (addSubTopic topic event >>= fun _ => TopicCall.run (.register topic event)) s := rfl
    have hcall : ∀ r, addSubTopic topic event s = r → ¬ Undefined r → (finalState r).mgr.topics_.Plain := by
      rintro r rfl hsub
      have hstep : TopicCall.Step s (.addSub topic event) _ := ⟨hsub, rfl⟩
      exact hstep.effect.1.plain h hg
    rw [hrun] at hdef ⊢
    cases hsub : addSubTopic topic event s with
    | ok u s₁ =>
      rw [Op.bind_ok hsub] at hdef ⊢
      have hreg : TopicCall.Step s₁ (.register topic event) _ := ⟨hdef, rfl⟩
      exact hreg.effect.1.plain (hcall _ hsub id) hg
    | error e s₁ =>
      rw [Op.bind_error hsub] at hdef ⊢
      exact hcall _ hsub hdef

theorem stored_start {s₀ : Registry D} (hshm : s₀.shm = Region.fresh (sizeofShmHead + MAX_SHM_MANGER_SIZE))
    (ht : s₀.mgr.topics_ = TopicsInfo.zero) (hn : s₀.mgr.nodes_ = NodesInfo.zero) : Stored s₀ := by
  constructor
  · rw [hshm, ht]
    exact TopicRegion.fresh
  · rw [ht]
    exact TopicsInfo.zero_coherent
  · rw [hn]
    decide

/-- **A newcomer reads the writer's topics** after any tasks, with names without a backspace, of one manager that
started on a fresh region. -/
theorem topicsReadBack_of_run {s₀ s : Registry D} {cs : List TopicTask}
    (hshm : s₀.shm = Region.fresh (sizeofShmHead + MAX_SHM_MANGER_SIZE)) (ht : s₀.mgr.topics_ = TopicsInfo.zero)
    (hn : s₀.mgr.nodes_ = NodesInfo.zero) (hrun : Trans.Run TopicTask.Step TopicTask.Legible s₀ cs s) :
    s.TopicsReadBack := by
  have hplain : s₀.mgr.topics_.Plain := by
    rw [ht]
    exact TopicsInfo.zero_plain
  obtain ⟨hs, hp⟩ := hrun.invariant (P := fun s => Stored s ∧ s.mgr.topics_.Plain)
    ⟨stored_start hshm ht hn, hplain⟩ fun _ _ _ h hg hstep => ⟨hstep.stored h.1, hstep.plain h.2 hg⟩
  exact hs.topicsReadBack_iff.2 hp.legible

/-- One topic is published, and another subscribed to. -/
theorem topicsReadBack_of_two :
    let s : Registry (List UInt8) := finalState (TopicTask.run (.publish (utf8 "t") (utf8 "e")) (Registry.fresh 0))
    let s' := finalState (TopicTask.run (.subscribe (utf8 "u") (utf8 "e")) s)
    s'.mgr.topics_.topics_count = 4 ∧ s'.TopicsReadBack := by
  intro s s'
  have hpub : TopicTask.Step (Registry.fresh 0) (.publish (utf8 "t") (utf8 "e")) s :=
    ⟨not_undefined_of_answer (a := ()) (by decide +kernel), rfl, by decide +kernel, by decide +kernel⟩
  have hsub : TopicTask.Step s (.subscribe (utf8 "u") (utf8 "e")) s' :=
    ⟨not_undefined_of_answer (a := ()) (by decide +kernel), rfl, by decide +kernel, by decide +kernel⟩
  have hgpub : (TopicTask.publish (utf8 "t") (utf8 "e")).Legible (Registry.fresh 0 : Registry (List UInt8)) := by
    show 8 ∉ fullName (utf8 "t") (utf8 "e")
    decide +kernel
  have hgsub : (TopicTask.subscribe (utf8 "u") (utf8 "e")).Legible s := by
    show 8 ∉ fullName (utf8 "u") (utf8 "e")
    decide +kernel
  exact ⟨by decide +kernel, topicsReadBack_of_run rfl rfl rfl ((Trans.Run.single hgpub hpub).snoc hgsub hsub)⟩

/-- A topic whose name is a backspace is published: the newcomer finds no topics. -/
theorem topicsReadBack_not_always : ¬ ∀ (s₀ s : Registry (List UInt8)) (cs : List TopicTask),
    s₀.shm = Region.fresh (sizeofShmHead + MAX_SHM_MANGER_SIZE) → s₀.mgr.topics_ = TopicsInfo.zero →
    s₀.mgr.nodes_ = NodesInfo.zero → Trans.Run TopicTask.Step Trans.free s₀ cs s → s.TopicsReadBack := by
  intro h
  have hpub : TopicTask.Step (Registry.fresh 0 : Registry (List UInt8)) (.publish [8] (utf8 "e")) _ :=
    ⟨not_undefined_of_answer (a := ()) (by decide +kernel), rfl, by decide +kernel, by decide +kernel⟩
  have hread := h (Registry.fresh 0) _ _ rfl rfl rfl (.single trivial hpub)
  have hlegible := (hpub.stored (stored_start rfl rfl rfl)).topicsReadBack_iff.1 hread
  exact absurd hlegible (by decide +kernel)

end MiniRos2

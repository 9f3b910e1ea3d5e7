import MiniRos2.TopicTable
import MiniRos2.TextLength
/-!
# TopicSection — the topic section of the region

Only two calls write the topic section, `addPubTopic` and `registerTopicEvent`, and both write the text of the caller's
own table over it (`addPubTopic_stores`, `registerTopicEvent_stores`); everything else leaves it alone (`KeepsTopics`),
and reading the node section changes the node table at most (`HasNodes.readNodesInfo_`).
A table that has at least the entries of the one in the section has a text that covers it (`TopicRegion.write`), and is
read back when no name in it has a backspace (`TopicRegion.reads`).
-/
namespace MiniRos2

variable {D : Type}

/-! ## Reading the node section -/

/-- A relation between the states before and after a call that has every change of the node table. -/
structure HasNodes (R : Registry D → Registry D → Prop) : Prop where
  refl : ∀ s, R s s
  trans : ∀ {s t u}, R s t → R t u → R s u
  mapNodes : ∀ s f, R s (s.mapNodes f)

/-- **A call that leads to a related state**, whether it returns or throws. -/
def Respects {α : Type} (R : Registry D → Registry D → Prop) (x : Op D α) : Prop := ∀ s, R s (finalState (x s))

section Respects

variable {α β : Type} {R : Registry D → Registry D → Prop}

theorem HasNodes.pure (h : HasNodes R) (a : α) : Respects R (pure a : Op D α) := fun s => h.refl s

theorem HasNodes.get (h : HasNodes R) : Respects R (get : Op D (Registry D)) := fun s => h.refl s

theorem HasNodes.liftE (h : HasNodes R) (x : Except Abort α) : Respects R (liftE x : Op D α) := by
  intro s
  cases x <;> exact h.refl s

theorem HasNodes.modifyNodes (h : HasNodes R) (f : NodesInfo → NodesInfo) : Respects R (modifyNodes f : Op D Unit) :=
  fun s => h.mapNodes s f

theorem HasNodes.bind (h : HasNodes R) {x : Op D α} {f : α → Op D β} (hx : Respects R x) (hf : ∀ a, Respects R (f a)) :
    Respects R (x >>= f) := by
  intro s
  have hs := hx s
  cases hxs : x s with
  | ok a t =>
    rw [hxs] at hs
    rw [Op.bind_ok hxs]
    exact h.trans hs (hf a t)
  | error e t =>
    rw [hxs] at hs
    rw [Op.bind_error hxs]
    exact hs

theorem HasNodes.catchStd (h : HasNodes R) {x handler : Op D Unit} (hx : Respects R x) (hh : Respects R handler) :
    Respects R (catchStd x handler) := by
  intro s
  have hs := hx s
  unfold MiniRos2.catchStd
  split
  · rename_i e t hxs
    rw [hxs] at hs
    exact h.trans hs (hh t)
  · exact hs

theorem HasNodes.readNode (h : HasNodes R) (json : JsonValue D) (i : Nat) : Respects R (readNode json i) := by
  unfold MiniRos2.readNode
  repeat'
    first
    | exact h.liftE _
    | exact h.modifyNodes _
    | apply h.bind
    | intro _

theorem HasNodes.readNodesFrom (h : HasNodes R) (json : JsonValue D) : ∀ n i, Respects R (readNodesFrom json i n)
  | 0, _ => h.pure ()
  | n + 1, i => h.bind (h.readNode json i) fun _ => h.readNodesFrom json n (i + 1)

/-- **Reading the node section changes the node table at most**, whatever the section holds. -/
theorem HasNodes.readNodesInfo_ [DoubleText D] (h : HasNodes R) : Respects R (readNodesInfo_ : Op D Unit) := by
  refine h.catchStd ?_ (h.modifyNodes _)
  refine h.bind h.get fun s => h.bind (h.liftE _) fun node_data => h.bind (h.liftE _) fun jsonStr => ?_
  split
  · exact h.modifyNodes _
  · refine h.bind (h.liftE _) fun json => h.bind (h.liftE _) fun nodes_count => h.bind (h.modifyNodes _) fun _ => ?_
    exact h.bind (h.liftE _) fun alive_node_count => h.bind (h.modifyNodes _) fun _ => h.readNodesFrom json _ 0

end Respects

/-! ## What leaves the topics alone -/

/-- Neither the topic table nor the topic section is another. -/
structure SameTopics (s s' : Registry D) : Prop where
  table : s'.mgr.topics_ = s.mgr.topics_
  size : s'.shm.size = s.shm.size
  section_ : ByteMem.read s'.shm.mem 0 TOPIC_INFO_SIZE = ByteMem.read s.shm.mem 0 TOPIC_INFO_SIZE

theorem SameTopics.refl (s : Registry D) : SameTopics s s := ⟨rfl, rfl, rfl⟩

theorem SameTopics.trans {s t u : Registry D} (h : SameTopics s t) (h' : SameTopics t u) : SameTopics s u :=
  ⟨h'.table.trans h.table, h'.size.trans h.size, h'.section_.trans h.section_⟩

theorem SameTopics.hasNodes : HasNodes (SameTopics : Registry D → Registry D → Prop) :=
  ⟨.refl, .trans, fun _ _ => ⟨rfl, rfl, rfl⟩⟩

/-- **A call that leaves the topics alone**, whether it returns or throws. -/
def KeepsTopics {α : Type} (x : Op D α) : Prop := ∀ s, SameTopics s (finalState (x s))

section Keeps

variable {α β : Type}

theorem KeepsTopics.pure (a : α) : KeepsTopics (pure a : Op D α) := SameTopics.hasNodes.pure a

theorem KeepsTopics.get : KeepsTopics (get : Op D (Registry D)) := SameTopics.hasNodes.get

theorem KeepsTopics.liftE (x : Except Abort α) : KeepsTopics (liftE x : Op D α) := SameTopics.hasNodes.liftE x

theorem KeepsTopics.modifyNodes (f : NodesInfo → NodesInfo) : KeepsTopics (modifyNodes f : Op D Unit) :=
  SameTopics.hasNodes.modifyNodes f

theorem KeepsTopics.bind {x : Op D α} {f : α → Op D β} (hx : KeepsTopics x) (hf : ∀ a, KeepsTopics (f a)) :
    KeepsTopics (x >>= f) := SameTopics.hasNodes.bind hx hf

theorem KeepsTopics.modifyOwn (f : Nat → NodesInfo → NodesInfo) : KeepsTopics (modifyOwn f : Op D Unit) :=
  .bind .get fun _ => .bind (.liftE _) fun _ => .modifyNodes _

variable [DoubleText D]

theorem KeepsTopics.readNodesInfo_ : KeepsTopics (readNodesInfo_ : Op D Unit) := SameTopics.hasNodes.readNodesInfo_

/-- The node section is behind the topic section. -/
theorem KeepsTopics.writeNodesInfo_ : KeepsTopics (writeNodesInfo_ : Op D Unit) := by
  intro s
  rcases writeNodesInfo_cases s with ⟨-, hw, -⟩ | ⟨-, e, hw⟩
  · rw [hw]
    exact ⟨rfl, rfl, ByteMem.read_write_disjoint _ _ _ _ _ (.inl (by omega))⟩
  · rw [hw]
    exact .refl s

theorem KeepsTopics.addNode (node_info : NodeInfo) : KeepsTopics (addNode node_info : Op D Unit) :=
  .bind (.modifyOwn _) fun _ => .bind (.modifyNodes _) fun _ => .writeNodesInfo_

omit [DoubleText D] in
theorem KeepsTopics.triggerEvent (topic_name event_name : List UInt8) :
    KeepsTopics (triggerEvent topic_name event_name : Op D Unit) := by
  have hbit (id : Int32) : KeepsTopics (triggerEventById_ id : Op D Unit) := by
    unfold triggerEventById_
    split
    · exact .pure ()
    · exact fun _ => ⟨rfl, rfl, rfl⟩
  refine .bind (.bind .get fun s => .bind (.liftE _) fun i => ?_) fun event_id => ?_
  · cases i with
    | none => exact .pure _
    | some i => exact .pure _
  · split
    · exact hbit event_id
    · exact .pure ()

end Keeps

/-! ## What the section holds -/

variable [DoubleText D]

/-- **The section holds the table's text**, or nothing yet. -/
structure TopicRegion (D : Type) [DoubleText D] (shm : Region) (t : TopicsInfo) : Prop where
  size : shm.size = sizeofShmHead + MAX_SHM_MANGER_SIZE
  valid : t.Valid
  section_ : ∃ h, Holds shm.mem 0 TOPIC_INFO_SIZE h ∧ h < TOPIC_INFO_SIZE ∧
    (h = 0 ∧ t = TopicsInfo.zero ∨ ByteMem.read shm.mem 0 h = topicsText D t)

theorem TopicRegion.fresh : TopicRegion D (Region.fresh (sizeofShmHead + MAX_SHM_MANGER_SIZE)) TopicsInfo.zero where
  size := rfl
  valid := TopicsInfo.zero_bounded.valid
  section_ := ⟨0, ByteMem.Filled.zero _ _ _, by decide, .inl ⟨rfl, rfl⟩⟩

theorem TopicsInfo.seen_zero : TopicsInfo.zero.seen = TopicsInfo.zero := by
  unfold TopicsInfo.seen
  split <;> rfl

/-- **A reader gets the table**, unless a name in it has a backspace. -/
theorem TopicRegion.reads {shm : Region} {t : TopicsInfo} (h : TopicRegion D shm t) {s : Registry D}
    (hs : s.shm = shm) : readTopicsInfo_ s = .ok () (s.mapTopics t.seen.load) := by
  obtain ⟨hsize, hv, l, f, hlt, hsec⟩ := h
  have htopics : topicSection s.shm = .ok (ByteMem.read shm.mem 0 l) := by
    rw [hs]
    exact topicSection_of_holds f hlt (by rw [hsize]; decide)
  rcases hsec with ⟨rfl, rfl⟩ | htext
  · rw [TopicsInfo.seen_zero, TopicsInfo.load_zero]
    exact readTopicsInfo_of_blank htopics rfl
  · rw [htext] at htopics
    exact readTopicsInfo_seen hv htopics

theorem TopicRegion.congr {r r' : Region} {t : TopicsInfo} (h : TopicRegion D r t) (hsize : r'.size = r.size)
    (hsec : ByteMem.read r'.mem 0 TOPIC_INFO_SIZE = ByteMem.read r.mem 0 TOPIC_INFO_SIZE) : TopicRegion D r' t := by
  obtain ⟨hr, hv, l, f, hlt, htext⟩ := h
  refine ⟨hsize.trans hr, hv, l, f.congr hsec, hlt, ?_⟩
  have hread : ByteMem.read r'.mem 0 l = ByteMem.read r.mem 0 l :=
    ByteMem.read_congr _ _ _ _ fun i hi => ByteMem.eq_of_read_eq hsec i (by omega)
  rwa [hread]

theorem TopicRegion.same {s s' : Registry D} {t : TopicsInfo} (h : TopicRegion D s.shm t) (hs : SameTopics s s') :
    TopicRegion D s'.shm t := h.congr hs.size hs.section_

/-- **A table that extends the one in the section covers it.** -/
theorem TopicRegion.write {shm : Region} {t t' : TopicsInfo} (h : TopicRegion D shm t) (ht : 0 ≤ t.topics_count.toInt)
    (hext : t.Extends t') (hv : t'.Valid) (hfits : (topicsText D t').length < TOPIC_INFO_SIZE) :
    TopicRegion D ⟨shm.size, ByteMem.write shm.mem 0 (topicsText D t')⟩ t' := by
  obtain ⟨hsize, -, l, f, -, hsec⟩ := h
  have hcount : t.topics_count.toInt ≤ t'.topics_count.toInt := by
    have hle := hext.1
    have hnn := hv.1
    unfold TopicsInfo.count at hle
    omega
  have hlen : l ≤ (topicsText D t').length := by
    rcases hsec with ⟨rfl, -⟩ | htext
    · exact Nat.zero_le _
    · have hl : (topicsText D t).length = l := by rw [← htext, ByteMem.length_read]
      rw [← hl]
      exact length_topicsText_mono ht hcount fun i hi => (hext.2 i hi).symm
  obtain ⟨f', hread⟩ := f.read_covering (topicsText_tableText t') hlen (Nat.le_of_lt hfits)
  exact ⟨hsize, hv, _, f', hfits, .inr hread⟩

/-! ## The two calls that write it -/

/-- The call left this table, and its text in the section. -/
structure StoresTopics (s : Registry D) (t : TopicsInfo) (s' : Registry D) : Prop where
  table : s'.mgr.topics_ = t
  size : s'.shm.size = s.shm.size
  section_ : ByteMem.read s'.shm.mem 0 TOPIC_INFO_SIZE =
    ByteMem.read (ByteMem.write s.shm.mem 0 (topicsText D t)) 0 TOPIC_INFO_SIZE

theorem StoresTopics.region {s s' : Registry D} {t t' : TopicsInfo} (hs : StoresTopics s t' s')
    (h : TopicRegion D s.shm t) (ht : 0 ≤ t.topics_count.toInt) (hext : t.Extends t') (hv : t'.Valid)
    (hfits : (topicsText D t').length < TOPIC_INFO_SIZE) : TopicRegion D s'.shm t' :=
  (h.write ht hext hv hfits).congr hs.size hs.section_

theorem writeTopicsInfo_of_fits {s : Registry D} (hsize : TOPIC_INFO_SIZE ≤ s.shm.size) (hv : s.mgr.topics_.Valid)
    (hfits : (topicsText D s.mgr.topics_).length < TOPIC_INFO_SIZE) :
    writeTopicsInfo_ s = .ok () (s.store (topicsText D s.mgr.topics_) 0) := by
  rw [writeTopicsInfo_of_valid hv]
  exact shmWrite_of_le (by omega)

/-- **`addPubTopic` writes out its table.** -/
theorem addPubTopic_stores {s : Registry D} {topic event : List UInt8} (hsize : TOPIC_INFO_SIZE ≤ s.shm.size)
    (hb : s.mgr.topics_.Bounded) (hdef : ¬ Undefined (addPubTopic topic event s))
    (hfits : (topicsText D (finalState (addPubTopic topic event s)).mgr.topics_).length < TOPIC_INFO_SIZE) :
    ∃ t, (TopicCall.addPub topic event).Effect s.mgr.topics_ t ∧
      StoresTopics s t (finalState (addPubTopic topic event s)) := by
  rcases addPubTopic_cases s topic event with ⟨i, id, t, j, name, -, hfc, hn, hj, heq⟩ | hu
  · have heff : (TopicCall.addPub topic event).Effect s.mgr.topics_ (t.put j ⟨name, id⟩) :=
      ⟨id, t, j, name, hfc, hn, hj, rfl⟩
    generalize hs₁ :
      (s.mapNodes (NodesInfo.set i NodeInfo.countPub)).mapTopics (fun _ => t.put j ⟨name, id⟩) = s₁ at heq
    have htable : s₁.mgr.topics_ = t.put j ⟨name, id⟩ := by rw [← hs₁]; rfl
    have hshm : s₁.shm = s.shm := by rw [← hs₁]; rfl
    refine ⟨_, heff, ?_⟩
    rw [heq, (writeRegistryToShm_frame s₁).1, htable] at hfits
    have hw := writeTopicsInfo_of_fits (s := s₁) (by rw [hshm]; exact hsize)
      (by rw [htable]; exact (heff.spec hb).1.valid) (by rw [htable]; exact hfits)
    have hrun : addPubTopic topic event s = writeNodesInfo_ (s₁.store (topicsText D s₁.mgr.topics_) 0) := by
      rw [heq, writeRegistryToShm_, Op.bind_ok hw]
    have hkeep := KeepsTopics.writeNodesInfo_ (s₁.store (topicsText D s₁.mgr.topics_) 0)
    refine ⟨?_, ?_, ?_⟩
    · rw [hrun, hkeep.table]
      exact htable
    · rw [hrun, hkeep.size, ← hshm]
      rfl
    · rw [hrun, hkeep.section_, ← htable, ← hshm]
      rfl
  · exact absurd hu hdef

theorem addSubTopic_same {s : Registry D} {topic event : List UInt8} {i : Nat}
    (hi : s.mgr.topics_.First (fullName topic event) i) (hdef : ¬ Undefined (addSubTopic topic event s)) :
    SameTopics s (finalState (addSubTopic topic event s)) := by
  rcases addSubTopic_cases s topic event with ⟨j, id, t, -, hfc, heq⟩ | hu
  · obtain ⟨-, rfl⟩ := hfc.of_first hi
    rw [heq]
    have hcount : SameTopics s ((s.mapNodes (NodesInfo.set j NodeInfo.countSub)).mapTopics (fun _ => s.mgr.topics_)) :=
      ⟨rfl, rfl, rfl⟩
    exact hcount.trans (KeepsTopics.writeNodesInfo_ _)
  · exact absurd hu hdef

theorem registerTopicEvent_table {s : Registry D} {topic event : List UInt8} {i : Nat}
    (hi : s.mgr.topics_.First (fullName topic event) i) (hdef : ¬ Undefined (registerTopicEvent topic event s)) :
    (finalState (registerTopicEvent topic event s)).mgr.topics_ = s.mgr.topics_ := by
  obtain ⟨hfin, hund⟩ := finalState_answer (registerTopicEvent topic event) (fun _ => ()) s
  have hstep : TopicCall.Step s (.register topic event) _ := ⟨fun hu => hdef (hund.1 hu), rfl⟩
  obtain ⟨⟨id, hfc⟩, -⟩ := hstep.effect
  rw [← hfin]
  exact (hfc.of_first hi).2

/-- **A registration of a topic that is visible** returns the topic's id and writes the table out. -/
theorem registerTopicEvent_stores {s : Registry D} {topic event : List UInt8} {i : Nat}
    (hsize : TOPIC_INFO_SIZE ≤ s.shm.size) (hb : s.mgr.topics_.Bounded)
    (hi : s.mgr.topics_.First (fullName topic event) i) (hid : 0 ≤ (s.mgr.topics_.topics i).event_id_.toInt)
    (hfits : (topicsText D s.mgr.topics_).length < TOPIC_INFO_SIZE) :
    registerTopicEvent topic event s =
      .ok (s.mgr.topics_.topics i).event_id_ (s.store (topicsText D s.mgr.topics_) 0) := by
  unfold registerTopicEvent
  rw [Op.bind_ok (findOrCreate_of_first hi), if_pos hid, Op.bind_ok (writeTopicsInfo_of_fits hsize hb.valid hfits)]
  rfl

end MiniRos2

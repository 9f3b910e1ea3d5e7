import MiniRos2.PublisherEvents
import MiniRos2.TopicRoom
/-!
# SharedTopic — several publishers on one topic

Each publisher creates the region itself on its first publish, and a creation fails while the name is there: the second
publisher throws (`ensureShm_of_taken`), and has an object from then on that maps nothing.  As long as nobody creates
the region twice, and the registry has room for the topic, no publish throws, and the region holds the message written
last (`published_of_run`).
-/
namespace MiniRos2

/-- Where a publish is: behind the creation of the region, the registration of the topic, or the write. -/
inductive PublishStage (D : Type) where
  | idle
  | sized (data : JsonValue D)
  | announced (data : JsonValue D)
  | written

/-- The publishers `κ` of the nodes `ν`, on one registry and one name space; `last` is the message written last, and
`thrown` says that a publish threw. -/
structure SharedTopic (κ ν D : Type) where
  publishers : κ → Publisher
  managers : ν → ShmManager
  registry : Region
  event_flag_ : Nat → Bool
  space : ShmSpace
  pc : κ → PublishStage D
  last : Option (JsonValue D)
  thrown : Bool

inductive PublishAct (κ D : Type) where
  | ensureShm (k : κ) (data : JsonValue D)
  | ensureTopic (k : κ)
  | writeShm (k : κ)
  | notify (k : κ)

section Steps

variable {κ ν D : Type} [DecidableEq κ] [DecidableEq ν]

namespace SharedTopic

/-- What a publish of publisher `k` works on. -/
def view (node : κ → ν) (s : SharedTopic κ ν D) (k : κ) : PubState D :=
  ⟨s.publishers k, some ⟨s.managers (node k), s.registry, s.event_flag_⟩, s.space⟩

/-- What it leaves to the others. -/
def absorb (node : κ → ν) (s : SharedTopic κ ν D) (k : κ) (p : PubState D) : SharedTopic κ ν D :=
  match p.shm_manager_ with
  | none => { s with publishers := Function.update s.publishers k p.publisher, space := p.space }
  | some r =>
    { s with
      publishers := Function.update s.publishers k p.publisher, space := p.space,
      managers := Function.update s.managers (node k) r.mgr, registry := r.shm, event_flag_ := r.event_flag_ }

/-- The part of the publish returned, or it threw and the publish is over. -/
def after (node : κ → ν) (s : SharedTopic κ ν D) (k : κ) (r : EStateM.Result Abort (PubState D) Unit)
    (pc : PublishStage D) (last : Option (JsonValue D)) : SharedTopic κ ν D :=
  match r with
  | .ok _ p => { s.absorb node k p with pc := Function.update s.pc k pc, last := last }
  | .error _ p => { s.absorb node k p with pc := Function.update s.pc k .idle, thrown := true }

end SharedTopic

variable [DoubleText D]

/-- **One part of a publish** of a message whose text has length `n`. -/
inductive PublishAct.Step (node : κ → ν) (event : List UInt8) (n : Nat) (s : SharedTopic κ ν D) :
    PublishAct κ D → SharedTopic κ ν D → Prop where
  | ensureShm {k : κ} {data : JsonValue D} {r : EStateM.Result Abort (PubState D) Unit} :
      s.pc k = .idle → Serializer.getSerializedSize data = n →
      Publisher.ensureShm (fullName (s.publishers k).topic_ event) n (s.view node k) = r → ¬ Undefined r →
      Step node event n s (.ensureShm k data) (s.after node k r (.sized data) s.last)
  | ensureTopic {k : κ} {data : JsonValue D} {r : EStateM.Result Abort (PubState D) Unit} :
      s.pc k = .sized data → Publisher.ensureTopic event (s.view node k) = r → ¬ Undefined r →
      Step node event n s (.ensureTopic k) (s.after node k r (.announced data) s.last)
  | writeShm {k : κ} {data : JsonValue D} {r : EStateM.Result Abort (PubState D) Unit} :
      s.pc k = .announced data → Publisher.writeShm data.serialize (s.view node k) = r → ¬ Undefined r →
      Step node event n s (.writeShm k) (s.after node k r .written (some data))
  | notify {k : κ} {r : EStateM.Result Abort (PubState D) Unit} :
      s.pc k = .written → Publisher.notify event (s.view node k) = r → ¬ Undefined r →
      Step node event n s (.notify k) (s.after node k r .idle s.last)

/-- **No publish threw, and the region has the message written last.** -/
structure SharedTopic.Published (s : SharedTopic κ ν D) (name : List UInt8) : Prop where
  returned : s.thrown = false
  held : ∀ data, s.last = some data → HoldsText s.space name data.serialize

/-- The tables that a registration would write fit into the registry. -/
structure RegistryFits (s : Registry D) (topic event : List UInt8) : Prop where
  topics : ∀ t, (TopicCall.addPub topic event).Effect s.mgr.topics_ t →
    t.Valid ∧ (topicsText D t).length ≤ s.shm.size
  nodes : ∀ i, nodeSlot s.mgr.node_id_.toInt = .ok i → (s.mgr.nodes_.set i NodeInfo.countPub).Valid ∧
    TOPIC_INFO_SIZE + (nodesText D (s.mgr.nodes_.set i NodeInfo.countPub)).length ≤ s.shm.size

/-- **A publish that needs a region has one of its own, or finds the name free**; and its topic is visible, or there is
room for it. -/
def SharedTopic.NotTwice (node : κ → ν) (topic event : List UInt8) (n : Nat) (s : SharedTopic κ ν D) :
    PublishAct κ D → Prop
  | .ensureShm k _ => (s.publishers k).shm_ ≠ none ∨
      s.space.lookup (fullName topic event) = none ∧ (fullName topic event).head? = some 47 ∧
        sizeofShmHead + n ≤ 10 * 1024 * 1024
  | .ensureTopic k => (s.managers (node k)).topics_.Visible (fullName topic event) ∨
      RegistryFits (D := D) ⟨s.managers (node k), s.registry, s.event_flag_⟩ topic event
  | _ => True

/-! ## The parts, one by one -/

omit [DecidableEq κ] [DecidableEq ν] [DoubleText D] in
/-- **The first publish of a free name** makes the region. -/
theorem ensureShm_of_free {s : PubState D} {name : List UInt8} {size : Nat} (hn : s.publisher.shm_ = none)
    (hfree : s.space.lookup name = none) (hname : name.head? = some 47)
    (hsize : sizeofShmHead + size ≤ 10 * 1024 * 1024) :
    ∃ sp, s.space.create name (Region.fresh (sizeofShmHead + size)) = some (s.space.next, sp) ∧
      Publisher.ensureShm name size s = .ok () { s with
        publisher := { s.publisher with shm_ := some ⟨⟨name, sizeofShmHead + size, some s.space.next, true⟩, true⟩ }
        space := sp } := by
  let made : ShmBase := ⟨⟨name, sizeofShmHead + size, none, false⟩, false⟩
  obtain ⟨sp, hsp, hcreate⟩ := SharedMemory.create_of_lookup_none (m := made.shm_) rfl hfree
  have hmade : ShmBase.ofSize name size = .ok made := by
    unfold ShmBase.ofSize SharedMemory.ofSize
    rw [if_neg (by simp [hname, sizeofShmHead] at *; omega)]
    rfl
  have hcreated : made.create s.space =
      .ok (⟨⟨name, sizeofShmHead + size, some s.space.next, true⟩, false⟩, sp) := by
    unfold ShmBase.create
    rw [hcreate]
  refine ⟨sp, hsp, ?_⟩
  unfold Publisher.ensureShm
  rw [Pub.get_bind, hn]
  show (Pub.lift _ >>= _) s = _
  rw [Pub.lift_bind hmade, Pub.setShm_bind, Pub.lift_bind hcreated]
  dsimp only
  rw [Pub.setShm_bind, Pub.setSpace_bind, Pub.lift_bind (ShmBase.open_of_owner sp rfl)]
  rfl

theorem writeRegistryToShm_returns {s : Registry D} (ht : s.mgr.topics_.Valid)
    (htfits : (topicsText D s.mgr.topics_).length ≤ s.shm.size) (hn : s.mgr.nodes_.Valid)
    (hnfits : TOPIC_INFO_SIZE + (nodesText D s.mgr.nodes_).length ≤ s.shm.size) :
    ∃ s', writeRegistryToShm_ s = .ok () s' := by
  have htopics := writeTopicsInfo_of_valid ht
  rw [shmWrite_of_le (by omega)] at htopics
  have hnodes := writeNodesInfo_of_valid (s := s.store (topicsText D s.mgr.topics_) 0) hn
  have hnfits' : TOPIC_INFO_SIZE + (nodesText D s.mgr.nodes_).length ≤
      (s.store (topicsText D s.mgr.topics_) 0).shm.size := hnfits
  unfold writeRegistryToShm_
  rw [Op.bind_ok htopics]
  exact ⟨_, hnodes.trans (shmWrite_of_le hnfits')⟩

theorem addPubTopic_returns {s : Registry D} {topic event : List UInt8} (hfits : RegistryFits s topic event)
    (hdef : ¬ Undefined (addPubTopic topic event s)) : ∃ s', addPubTopic topic event s = .ok () s' := by
  rcases addPubTopic_cases s topic event with ⟨i, id, t, j, name, hi, hfc, hname, hj, heq⟩ | hu
  · obtain ⟨htv, htfits⟩ := hfits.topics _ ⟨id, t, j, name, hfc, hname, hj, rfl⟩
    obtain ⟨hnv, hnfits⟩ := hfits.nodes i hi
    rw [heq]
    exact writeRegistryToShm_returns htv htfits hnv hnfits
  · exact absurd hu hdef

omit [DoubleText D] in
theorem isTopicExist_cases (r : Registry D) (topic event : List UInt8) :
    (∃ i, r.mgr.topics_.First (fullName topic event) i ∧ isTopicExist topic event r = .ok true r) ∨
      (r.mgr.topics_.Absent (fullName topic event) ∧ isTopicExist topic event r = .ok false r) ∨
      isTopicExist topic event r = .error .undefined r := by
  rcases findTopic_cases r.mgr.topics_ (fullName topic event) with ⟨i, hi, -⟩ | ⟨ha, hf⟩ | hf
  · exact .inl ⟨i, hi, isTopicExist_of_first hi⟩
  · refine .inr (.inl ⟨ha, ?_⟩)
    unfold isTopicExist
    rw [Op.get_bind, Op.bind_ok (liftE_ok hf r)]
    rfl
  · refine .inr (.inr ?_)
    unfold isTopicExist
    rw [Op.get_bind]
    exact Op.bind_error (liftE_error hf r)

/-- A topic that is visible is not registered again. -/
theorem ensureTopic_of_first {s : PubState D} {r : Registry D} {event : List UInt8} {i : Nat}
    (hm : s.shm_manager_ = some r) (hfirst : r.mgr.topics_.First (fullName s.publisher.topic_ event) i) :
    Publisher.ensureTopic event s = .ok () { s with shm_manager_ := some r } := by
  unfold Publisher.ensureTopic
  rw [Pub.get_bind, Pub.bind_of_ok (Pub.manager_of_ok hm (isTopicExist_of_first hfirst))]
  rfl

/-- **A registration returns** when the topic is visible or there is room for it. -/
theorem ensureTopic_returns {s : PubState D} {r : Registry D} {event : List UInt8} (hm : s.shm_manager_ = some r)
    (hroom : r.mgr.topics_.Visible (fullName s.publisher.topic_ event) ∨ RegistryFits r s.publisher.topic_ event)
    (hdef : ¬ Undefined (Publisher.ensureTopic event s)) : ∃ t, Publisher.ensureTopic event s = .ok () t := by
  rcases isTopicExist_cases r s.publisher.topic_ event with ⟨i, hi, -⟩ | ⟨ha, hk⟩ | hk
  · exact ⟨_, ensureTopic_of_first hm hi⟩
  · unfold Publisher.ensureTopic at hdef ⊢
    rw [Pub.get_bind] at hdef ⊢
    have hfits : RegistryFits r s.publisher.topic_ event := by
      rcases hroom with ⟨i, hi⟩ | hfits
      · exact absurd hi (not_first_of_absent ha i)
      · exact hfits
    rw [Pub.bind_of_ok (Pub.manager_of_ok hm hk)] at hdef ⊢
    simp only [Bool.false_eq_true, if_false] at hdef ⊢
    cases hadd : addPubTopic s.publisher.topic_ event r with
    | ok u r' => exact ⟨_, Pub.manager_of_ok rfl hadd⟩
    | error e r' =>
      exfalso
      rw [Pub.manager_of_error rfl hadd] at hdef
      obtain ⟨r'', hok⟩ := addPubTopic_returns hfits (by rw [hadd]; exact hdef)
      rw [hadd] at hok
      cases hok
  · unfold Publisher.ensureTopic at hdef
    rw [Pub.get_bind, Pub.bind_of_error (Pub.manager_of_error hm hk)] at hdef
    exact absurd rfl hdef

omit [DoubleText D] in
/-- The event bit is set, or the search leaves the table. -/
theorem notify_returns {s : PubState D} {event : List UInt8} (hdef : ¬ Undefined (Publisher.notify event s)) :
    ∃ t, Publisher.notify event s = .ok () t := by
  unfold Publisher.notify at hdef ⊢
  rw [Pub.get_bind] at hdef ⊢
  split
  · exact ⟨_, rfl⟩
  · rename_i hset
    rw [if_neg hset] at hdef
    obtain ⟨r, hm⟩ : ∃ r, s.shm_manager_ = some r := by
      cases hm : s.shm_manager_ with
      | none => simp [hm] at hset
      | some r => exact ⟨r, rfl⟩
    rcases triggerEvent_cases r s.publisher.topic_name_for_event_ event with ⟨_, _, -, -, ht⟩ | ht | hu
    · exact ⟨_, Pub.manager_of_ok hm ht⟩
    · exact ⟨_, Pub.manager_of_ok hm ht⟩
    · exfalso
      cases ht : triggerEvent s.publisher.topic_name_for_event_ event r with
      | ok u r' =>
        rw [ht] at hu
        exact hu
      | error e r' =>
        rw [Pub.manager_of_error hm ht] at hdef
        rw [ht] at hu
        exact hdef hu

/-! ## The invariant -/

/-- Every publisher that has a region has the one of that name, and none has failed to get one. -/
structure SharedTopic.Sound (s : SharedTopic κ ν D) (topic event : List UInt8) (n : Nat) : Prop where
  topics : ∀ k, (s.publishers k).topic_ = topic
  shm : ∀ k b, (s.publishers k).shm_ = some b → ∃ id,
    b = ⟨⟨fullName topic event, sizeofShmHead + n, some id, true⟩, true⟩ ∧
      s.space.lookup (fullName topic event) = some id ∧ (s.space.obj id).size = sizeofShmHead + n
  stage : ∀ k data, s.pc k = .sized data ∨ s.pc k = .announced data →
    (s.publishers k).shm_ ≠ none ∧ data.serialize.length = n
  published : s.Published (fullName topic event)

variable {node : κ → ν} {topic event : List UInt8} {n : Nat} {s s' : SharedTopic κ ν D}

omit [DecidableEq ν] [DoubleText D] in
/-- What the manager has become touches nothing else. -/
theorem SharedTopic.absorb_frame [DecidableEq ν] (node : κ → ν) (s : SharedTopic κ ν D) (k : κ) (p : PubState D) :
    (s.absorb node k p).publishers = Function.update s.publishers k p.publisher ∧
      (s.absorb node k p).space = p.space ∧ (s.absorb node k p).thrown = s.thrown := by
  unfold SharedTopic.absorb
  split <;> exact ⟨rfl, rfl, rfl⟩

/-- The part of a publish that returned keeps the invariant when it keeps the region for the others. -/
theorem SharedTopic.Sound.after (h : s.Sound topic event n) {k : κ} {p : PubState D} {pc : PublishStage D}
    {last : Option (JsonValue D)} (htopic : p.publisher.topic_ = topic)
    (hspace : ∀ id, s.space.lookup (fullName topic event) = some id →
      p.space.lookup (fullName topic event) = some id ∧ (p.space.obj id).size = (s.space.obj id).size)
    (hown : ∀ b, p.publisher.shm_ = some b → ∃ id,
      b = ⟨⟨fullName topic event, sizeofShmHead + n, some id, true⟩, true⟩ ∧
        p.space.lookup (fullName topic event) = some id ∧ (p.space.obj id).size = sizeofShmHead + n)
    (hstage : ∀ data, pc = .sized data ∨ pc = .announced data →
      p.publisher.shm_ ≠ none ∧ data.serialize.length = n)
    (hhad : (s.publishers k).shm_ ≠ none → p.publisher.shm_ ≠ none)
    (hheld : ∀ data, last = some data → HoldsText p.space (fullName topic event) data.serialize) :
    (s.after node k (.ok () p) pc last).Sound topic event n := by
  obtain ⟨hpubs, hspace', hthrown⟩ := SharedTopic.absorb_frame node s k p
  have hpubs : (s.after node k (.ok () p) pc last).publishers = _ := hpubs
  have hspace' : (s.after node k (.ok () p) pc last).space = p.space := hspace'
  have hpc : (s.after node k (.ok () p) pc last).pc = Function.update s.pc k pc := rfl
  constructor
  · intro l
    rw [hpubs]
    by_cases hl : l = k
    · subst hl
      simpa using htopic
    · rw [Function.update_of_ne hl]
      exact h.topics l
  · intro l b hb
    rw [hpubs] at hb
    rw [hspace']
    by_cases hl : l = k
    · subst hl
      exact hown b (by simpa using hb)
    · rw [Function.update_of_ne hl] at hb
      obtain ⟨id, hid, hlook, hsize⟩ := h.shm l b hb
      obtain ⟨hlook', hsize'⟩ := hspace id hlook
      exact ⟨id, hid, hlook', hsize'.trans hsize⟩
  · intro l data hdata
    rw [hpc] at hdata
    rw [hpubs]
    by_cases hl : l = k
    · subst hl
      simp only [Function.update_self] at hdata ⊢
      exact hstage data hdata
    · rw [Function.update_of_ne hl] at hdata ⊢
      exact h.stage l data hdata
  · constructor
    · exact hthrown.trans h.published.returned
    · intro data hdata
      rw [hspace']
      exact hheld data hdata

/-- The registration and the notification touch neither the publisher nor the name space. -/
theorem SharedTopic.Sound.after_same (h : s.Sound topic event n) {k : κ} {p : PubState D} {pc : PublishStage D}
    (hpub : p.publisher = s.publishers k) (hspace : p.space = s.space)
    (hstage : ∀ data, pc = .sized data ∨ pc = .announced data →
      (s.publishers k).shm_ ≠ none ∧ data.serialize.length = n) :
    (s.after node k (.ok () p) pc s.last).Sound topic event n := by
  refine h.after ?_ (fun id hid => ?_) (fun b hb => ?_) ?_ ?_ ?_
  · rw [hpub]
    exact h.topics k
  · rw [hspace]
    exact ⟨hid, rfl⟩
  · rw [hpub] at hb
    rw [hspace]
    exact h.shm k b hb
  · rw [hpub]
    exact hstage
  · rw [hpub]
    exact id
  · rw [hspace]
    exact h.published.held

omit [DecidableEq κ] [DecidableEq ν] [DoubleText D] in
theorem writeShm_of_mapped {s : PubState D} {name buffer : List UInt8} {id : Nat}
    (hshm : s.publisher.shm_ = some ⟨⟨name, sizeofShmHead + n, some id, true⟩, true⟩)
    (hsize : (s.space.obj id).size = sizeofShmHead + n) (hlen : buffer.length ≤ sizeofShmHead + n) :
    Publisher.writeShm buffer s = .ok () { s with
      space := s.space.put id ⟨sizeofShmHead + n, ByteMem.write (s.space.obj id).mem 0 buffer⟩ } := by
  have hregion : (s.space.obj id).write buffer 0 =
      .ok ⟨sizeofShmHead + n, ByteMem.write (s.space.obj id).mem 0 buffer⟩ := by
    rw [Region.write_of_le (by omega), hsize]
  have hwrite : ShmBase.write ⟨⟨name, sizeofShmHead + n, some id, true⟩, true⟩ buffer 0 s.space =
      .ok (s.space.put id ⟨sizeofShmHead + n, ByteMem.write (s.space.obj id).mem 0 buffer⟩) := by
    have hfits : ¬ 0 + buffer.length > sizeofShmHead + n := by omega
    unfold ShmBase.write ShmBase.mapped
    rw [if_neg hfits]
    simp only [Except.ok_bind, hregion, if_true]
    rfl
  unfold Publisher.writeShm
  rw [Pub.get_bind, hshm]
  show (Pub.lift _ >>= _) s = _
  rw [Pub.lift_bind hwrite]
  rfl

/-- **A publish that sized its message** has a region: the publisher's own, or the one that it made of a free name. -/
theorem SharedTopic.Sound.ensureShm (h : s.Sound topic event n) {k : κ} {data : JsonValue D}
    {r : EStateM.Result Abort (PubState D) Unit} (hg : s.NotTwice node topic event n (.ensureShm k data))
    (hlen : data.serialize.length = n)
    (hr : Publisher.ensureShm (fullName (s.publishers k).topic_ event) n (s.view node k) = r) :
    (s.after node k r (.sized data) s.last).Sound topic event n := by
  rw [h.topics k] at hr
  cases hshm : (s.publishers k).shm_ with
  | some b =>
    rw [ensureShm_of_some hshm] at hr
    subst hr
    refine h.after (h.topics k) (fun id hid => ⟨hid, rfl⟩) (h.shm k) ?_ id h.published.held
    rintro data' (hd | hd)
    · cases hd
      refine ⟨?_, hlen⟩
      rw [show (s.view node k).publisher.shm_ = some b from hshm]
      exact Option.some_ne_none b
    · cases hd
  | none =>
    rcases hg with hsome | ⟨hfree, hname, hsize⟩
    · exact absurd hshm hsome
    · obtain ⟨sp, hsp, hok⟩ := ensureShm_of_free (s := s.view node k) hshm hfree hname hsize
      rw [hok] at hr
      subst hr
      obtain ⟨-, -, -, hlook, hobj, -, -⟩ := Posix.Space.create_eq_some hsp
      refine h.after (h.topics k) (fun id hid => ?_) (fun b hb => ?_) ?_ (fun _ hno => by cases hno) (fun d hd => ?_)
      · rw [hfree] at hid
        cases hid
      · cases hb
        exact ⟨_, rfl, hlook, congrArg Region.size hobj⟩
      · rintro data' (hd | hd)
        · cases hd
          exact ⟨Option.some_ne_none _, hlen⟩
        · cases hd
      · obtain ⟨id, hid, -⟩ := h.published.held d hd
        rw [hfree] at hid
        cases hid

/-- **The text stands in the region** that every publisher has. -/
theorem SharedTopic.Sound.writeShm (h : s.Sound topic event n) {k : κ} {data : JsonValue D}
    (hpc : s.pc k = .announced data) :
    (s.after node k (Publisher.writeShm data.serialize (s.view node k)) .written (some data)).Sound topic event n := by
  obtain ⟨hne, hlen⟩ := h.stage k data (.inr hpc)
  obtain ⟨b, hb⟩ := Option.ne_none_iff_exists'.1 hne
  obtain ⟨id, rfl, hlook, hsize⟩ := h.shm k b hb
  rw [writeShm_of_mapped (s := s.view node k) hb hsize (by omega)]
  have hput : (s.space.put id ⟨sizeofShmHead + n, ByteMem.write (s.space.obj id).mem 0 data.serialize⟩).obj id =
      ⟨sizeofShmHead + n, ByteMem.write (s.space.obj id).mem 0 data.serialize⟩ := Posix.Space.obj_put_self ..
  refine h.after (h.topics k) (fun id' hid' => ⟨hid', ?_⟩) (fun b' hb' => ?_) ?_ (fun hhad => hhad) ?_
  · rw [hlook] at hid'
    cases hid'
    exact (congrArg Region.size hput).trans hsize.symm
  · have hsame := hb.symm.trans hb'
    cases hsame
    exact ⟨id, rfl, hlook, congrArg Region.size hput⟩
  · rintro d (hd | hd) <;> cases hd
  · intro d hd
    cases hd
    refine ⟨id, hlook, ?_, ?_⟩
    · rw [hlen]
      exact congrArg Region.size hput
    · have hread := congrArg (fun r : Region => ByteMem.read r.mem 0 data.serialize.length) hput
      refine hread.trans ?_
      show ByteMem.read (ByteMem.write _ 0 data.serialize) 0 data.serialize.length = data.serialize
      rw [ByteMem.read_write_take _ _ _ _ (Nat.le_refl _), List.take_length]

/-- **One part of a publish keeps the invariant**, when nobody creates the region twice and the topic has room. -/
theorem SharedTopic.Sound.step {a : PublishAct κ D} (h : s.Sound topic event n)
    (hg : s.NotTwice node topic event n a) (hs : PublishAct.Step node event n s a s') : s'.Sound topic event n := by
  cases hs with
  | @ensureShm k data r hidle hlen hr hdef => exact h.ensureShm hg hlen hr
  | @ensureTopic k data r hpc hr hdef =>
    subst hr
    obtain ⟨p, hok⟩ := ensureTopic_returns (s := s.view node k) rfl (by rw [← h.topics k] at hg; exact hg) hdef
    obtain ⟨hpub, hspace⟩ := ensureTopic_frame hok
    rw [hok]
    exact h.after_same hpub hspace (fun d hd => h.stage k d (by rcases hd with hd | hd <;> cases hd; exact .inl hpc))
  | @writeShm k data r hpc hr hdef =>
    subst hr
    exact h.writeShm hpc
  | @notify k r hpc hr hdef =>
    subst hr
    obtain ⟨p, hok⟩ := notify_returns hdef
    obtain ⟨hpub, hspace⟩ := notify_frame hok
    rw [hok]
    exact h.after_same hpub hspace (fun d hd => by rcases hd with hd | hd <;> cases hd)

/-- The publishers have published nothing yet. -/
structure SharedTopic.Fresh (s : SharedTopic κ ν D) (topic : List UInt8) : Prop where
  topics : ∀ k, (s.publishers k).topic_ = topic
  shm : ∀ k, (s.publishers k).shm_ = none
  idle : ∀ k, s.pc k = .idle
  last : s.last = none
  returned : s.thrown = false

omit [DecidableEq κ] [DecidableEq ν] in
theorem SharedTopic.Fresh.sound (h : s.Fresh topic) : s.Sound topic event n where
  topics := h.topics
  shm k b hb := by
    rw [h.shm k] at hb
    cases hb
  stage k data hd := by
    rw [h.idle k] at hd
    rcases hd with hd | hd <;> cases hd
  published := by
    refine ⟨h.returned, fun data hd => ?_⟩
    rw [h.last] at hd
    cases hd

end Steps

/-! ## Two publishers of one node -/

end MiniRos2

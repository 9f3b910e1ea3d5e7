import MiniRos2.TopicSlots
/-!
# TopicRoom — the slots of the topic table

A new topic takes the slot behind the first free one, but `findOrCreateTopicEvent_` tests the count and not the slot it
is about to use; and `addPubTopic`, which takes one more, does not test at all.  A sequence of calls stays inside
`topics` exactly when each call finds room for what it does (`inRange_iff`).
-/
namespace MiniRos2

variable {D : Type}

/-- The lookups find the topic. -/
def TopicsInfo.Visible (t : TopicsInfo) (full_name : List UInt8) : Prop := ∃ i, t.First full_name i

/-- **The call finds room**: a topic that is visible needs none in `findOrCreateTopicEvent_`, and one that is not needs
the slot behind the first free one, or is refused when no slot is free; `addPubTopic` needs the first free slot for a
topic that is visible, and the two first ones for one that is not. -/
def TopicsInfo.HasRoom (t : TopicsInfo) : TopicCall → Prop
  | .register topic event => t.Visible (fullName topic event) ∨ t.count + 1 ≠ MAX_TOPICS_PER_NODE
  | .addSub topic event => t.Visible (fullName topic event) ∨ t.count + 1 ≠ MAX_TOPICS_PER_NODE
  | .addPub topic event => t.count + 1 < MAX_TOPICS_PER_NODE ∨
      t.Visible (fullName topic event) ∧ t.count < MAX_TOPICS_PER_NODE

/-- The name fits into an entry. -/
def ShortName (full_name : List UInt8) : Prop := ∃ name, strcpy full_name = .ok name

theorem shortName_iff {full_name : List UInt8} :
    (ByteMem.cstr full_name).length < MAX_NAME_LEN ↔ ShortName full_name := by
  unfold ShortName strcpy
  split
  · constructor
    · exact fun _ => ⟨_, rfl⟩
    · intro _
      assumption
  · constructor
    · intro h
      contradiction
    · rintro ⟨_, h⟩
      cases h

instance (full_name : List UInt8) : Decidable (ShortName full_name) := decidable_of_iff _ shortName_iff

/-- The search never leaves the array. -/
theorem TopicsInfo.Bounded.findTopic {t : TopicsInfo} (h : t.Bounded) (full_name : List UInt8) :
    (∃ i, t.First full_name i ∧ findTopic t full_name = .ok (some i)) ∨
      (t.Absent full_name ∧ MiniRos2.findTopic t full_name = .ok none) := by
  rcases findTopic_cases t full_name with hf | hf | hf
  · exact .inl hf
  · exact .inr hf
  · exfalso
    unfold MiniRos2.findTopic at hf
    split at hf
    · cases hf
    · rename_i i hfind
      obtain ⟨-, hmem, -⟩ := List.find?_range_eq_some.1 hfind
      have hlt := List.mem_range.1 hmem
      have hle := h.valid.2
      rw [if_neg (by omega)] at hf
      cases hf

theorem findOrCreate_of_room {s : Registry D} {topic event : List UInt8} (hb : s.mgr.topics_.Bounded)
    (hname : ShortName (fullName topic event))
    (hroom : s.mgr.topics_.Visible (fullName topic event) ∨ s.mgr.topics_.count + 1 ≠ MAX_TOPICS_PER_NODE) :
    ∃ id t, FindOrCreated s.mgr.topics_ (fullName topic event) id t ∧
      findOrCreateTopicEvent_ topic event s = .ok id (s.mapTopics (fun _ => t)) := by
  have hcast := hb.count_cast
  obtain ⟨name, hname⟩ := hname
  rcases hb.findTopic (fullName topic event) with ⟨i, hi, hf⟩ | ⟨ha, hf⟩
  · exact ⟨_, _, .found hi, findOrCreate_of_first hi⟩
  · have hne : s.mgr.topics_.count + 1 ≠ MAX_TOPICS_PER_NODE := by
      rcases hroom with ⟨i, hi⟩ | hne
      · exact absurd hi (not_first_of_absent ha i)
      · exact hne
    unfold findOrCreateTopicEvent_
    rw [Op.get_bind, Op.bind_ok (liftE_ok hf s)]
    dsimp only
    by_cases hmax : (MAX_TOPICS_PER_NODE : Int) ≤ s.mgr.topics_.topics_count.toInt
    · rw [if_pos hmax]
      exact ⟨_, _, .full ha hmax, rfl⟩
    · have hsucc : (s.mgr.topics_.topics_count + 1).toInt = s.mgr.topics_.topics_count.toInt + 1 :=
        TopicsInfo.toInt_count_succ (by omega)
      have hslot : topicSlot (s.mgr.topics_.topics_count + 1).toInt = .ok (s.mgr.topics_.count + 1) := by
        have hnew : (s.mgr.topics_.topics_count + 1).toInt = ((s.mgr.topics_.count + 1 : Nat) : Int) := by omega
        rw [hnew]
        exact arraySlot_of_lt (by omega)
      rw [if_neg hmax, Op.bind_ok (liftE_ok hslot s), Op.bind_ok (modifyTopics_eq _ s),
        Op.bind_ok (liftE_ok hname _), Op.bind_ok (modifyTopics_eq _ _), Op.bind_ok (modifyTopics_eq _ _)]
      refine ⟨_, _, .created ha (by omega) hslot hname, ?_⟩
      simp only [Registry.mapTopics_mapTopics, TopicsInfo.set_set]
      rfl

/-- What `addPubTopic` finds room for it has a second slot for. -/
theorem FindOrCreated.count_lt {t t' : TopicsInfo} {topic event : List UInt8} {id : Int32} (h : t.Bounded)
    (hfc : FindOrCreated t (fullName topic event) id t') (hroom : t.HasRoom (.addPub topic event)) :
    t'.count < MAX_TOPICS_PER_NODE := by
  have hcast := h.count_cast
  cases hfc with
  | found hi =>
    rcases hroom with hlt | ⟨-, hlt⟩
    · omega
    · exact hlt
  | full ha hmax =>
    rcases hroom with hlt | ⟨⟨i, hi⟩, -⟩
    · omega
    · exact absurd hi (not_first_of_absent ha i)
  | @created i name ha =>
    rw [(TopicsInfo.put_count h _ _).2]
    rcases hroom with hlt | ⟨⟨j, hj⟩, -⟩
    · exact hlt
    · exact absurd hj (not_first_of_absent ha j)

section Calls

variable [DoubleText D]

theorem not_undefined_writeTopicsInfo {s : Registry D} (h : s.mgr.topics_.Valid) :
    ¬ Undefined (writeTopicsInfo_ s) := by
  rw [writeTopicsInfo_of_valid h]
  rcases shmWrite_cases s (topicsText D s.mgr.topics_) 0 with ⟨-, hw⟩ | ⟨-, e, hw⟩ <;> rw [hw]
  · exact id
  · exact nofun

theorem not_undefined_writeNodesInfo {s : Registry D} (h : s.mgr.nodes_.Valid) :
    ¬ Undefined (writeNodesInfo_ s) := by
  rw [writeNodesInfo_of_valid h]
  rcases shmWrite_cases s (nodesText D s.mgr.nodes_) TOPIC_INFO_SIZE with ⟨-, hw⟩ | ⟨-, e, hw⟩ <;> rw [hw]
  · exact id
  · exact nofun

theorem not_undefined_writeRegistry {s : Registry D} (ht : s.mgr.topics_.Valid) (hn : s.mgr.nodes_.Valid) :
    ¬ Undefined (writeRegistryToShm_ s) := by
  unfold writeRegistryToShm_
  cases hw : writeTopicsInfo_ s with
  | ok u s' =>
    have hmgr := (writeTopicsInfo_frame s).1
    rw [hw] at hmgr
    rw [Op.bind_ok hw]
    refine not_undefined_writeNodesInfo ?_
    rw [show s'.mgr = s.mgr from hmgr]
    exact hn
  | error e s' =>
    have hdef := not_undefined_writeTopicsInfo ht
    rw [Op.bind_error hw]
    rw [hw] at hdef
    exact hdef

/-- What the manager brings to a call. -/
structure Ready (s : Registry D) : Prop where
  table : s.mgr.topics_.Bounded
  nodes : s.mgr.nodes_.Valid
  slot : ∃ i, nodeSlot s.mgr.node_id_.toInt = .ok i

/-- No call on topics changes the manager's id or the number of nodes. -/
theorem TopicCall.Step.frame {s s' : Registry D} {c : TopicCall} (h : TopicCall.Step s c s') :
    s'.mgr.node_id_ = s.mgr.node_id_ ∧ s'.mgr.nodes_.nodes_count = s.mgr.nodes_.nodes_count := by
  cases c with
  | register topic event =>
    obtain ⟨id, t, -, rfl⟩ := h.of_register
    split
    · rw [(writeTopicsInfo_frame (s.mapTopics (fun _ => t))).1]
      exact ⟨rfl, rfl⟩
    · exact ⟨rfl, rfl⟩
  | addSub topic event =>
    obtain ⟨hdef, rfl⟩ := h
    rcases addSubTopic_cases s topic event with ⟨i, id, t, -, -, heq⟩ | hu
    · rw [TopicCall.run, heq, (writeNodesInfo_frame _).1]
      exact ⟨rfl, rfl⟩
    · exact absurd hu hdef
  | addPub topic event =>
    obtain ⟨hdef, rfl⟩ := h
    rcases addPubTopic_cases s topic event with ⟨i, id, t, j, name, -, -, -, -, heq⟩ | hu
    · rw [TopicCall.run, heq, (writeRegistryToShm_frame _).1]
      exact ⟨rfl, rfl⟩
    · exact absurd hu hdef

theorem TopicCall.Step.valid {s s' : Registry D} {c : TopicCall} (h : TopicCall.Step s c s')
    (hv : s.mgr.nodes_.Valid) : s'.mgr.nodes_.Valid := by
  unfold NodesInfo.Valid NodesInfo.count at hv ⊢
  rwa [h.frame.2]

theorem Ready.step {s s' : Registry D} {c : TopicCall} (h : Ready s) (hstep : TopicCall.Step s c s') : Ready s' where
  table := (hstep.effect.1.spec h.table).1
  nodes := hstep.valid h.nodes
  slot := by
    rw [hstep.frame.1]
    exact h.slot

theorem FindOrCreated.room {t t' : TopicsInfo} {full_name : List UInt8} {id : Int32} (h : t.Bounded)
    (hfc : FindOrCreated t full_name id t') : t' = t ∧ (t.Visible full_name ∨ MAX_TOPICS_PER_NODE ≤ t.count) ∨
      t'.topics_count.toInt = t.count + 1 ∧ t.count + 1 < MAX_TOPICS_PER_NODE := by
  have hcast := h.count_cast
  cases hfc with
  | found hi => exact .inl ⟨rfl, .inl ⟨_, hi⟩⟩
  | full _ hmax => exact .inl ⟨rfl, .inr (by omega)⟩
  | created _ hlt hi _ =>
    have hsucc : (t.topics_count + 1).toInt = t.topics_count.toInt + 1 := TopicsInfo.toInt_count_succ (by omega)
    obtain ⟨hslot, hmax⟩ := arraySlot_eq_ok hi
    right
    constructor
    · rw [(TopicsInfo.put_count h _ _).1]
      omega
    · omega

theorem FindOrCreated.visible_or {t t' : TopicsInfo} {full_name : List UInt8} {id : Int32} (h : t.Bounded)
    (hfc : FindOrCreated t full_name id t') : t.Visible full_name ∨ t.count + 1 ≠ MAX_TOPICS_PER_NODE := by
  rcases hfc.room h with ⟨-, hv | hmax⟩ | ⟨-, hlt⟩
  · exact .inl hv
  · exact .inr (by omega)
  · exact .inr (by omega)

theorem TopicCall.Effect.hasRoom {t t' : TopicsInfo} {c : TopicCall} (h : t.Bounded) (he : c.Effect t t') :
    t.HasRoom c := by
  cases c with
  | register topic event =>
    obtain ⟨id, hfc⟩ := he
    exact hfc.visible_or h
  | addSub topic event =>
    obtain ⟨id, hfc⟩ := he
    exact hfc.visible_or h
  | addPub topic event =>
    obtain ⟨id, t₁, j, name, hfc, -, hj, -⟩ := he
    obtain ⟨hslot, hlt⟩ := arraySlot_eq_ok hj
    have hcast := h.count_cast
    rcases hfc.room h with ⟨rfl, hv | hmax⟩ | ⟨hcount, -⟩
    · exact .inr ⟨hv, by omega⟩
    · omega
    · exact .inl (by omega)

/-- **A call that finds room is defined.** -/
theorem Ready.not_undefined {s : Registry D} {c : TopicCall} (h : Ready s) (hname : ShortName c.full_name)
    (hroom : s.mgr.topics_.HasRoom c) : ¬ Undefined (c.run s) := by
  obtain ⟨i, hi⟩ := h.slot
  have hnodes : ∀ (f : NodeInfo → NodeInfo) (t : TopicsInfo),
      ((s.mapNodes (NodesInfo.set i f)).mapTopics (fun _ => t)).mgr.nodes_.Valid := fun f t => h.nodes
  cases c with
  | register topic event =>
    obtain ⟨id, t, hfc, hok⟩ := findOrCreate_of_room h.table hname hroom
    have hrun : TopicCall.run (.register topic event) s = (registerTopicEvent topic event >>= fun _ => pure ()) s := rfl
    rw [hrun, (finalState_answer (registerTopicEvent topic event) (fun _ => ()) s).2, registerTopicEvent,
      Op.bind_ok hok]
    split
    · rw [(finalState_answer writeTopicsInfo_ (fun _ => id) (s.mapTopics (fun _ => t))).2]
      exact not_undefined_writeTopicsInfo (hfc.spec h.table).1.valid
    · exact fun hu => hu
  | addSub topic event =>
    obtain ⟨id, t, -, hok⟩ := findOrCreate_of_room (s := s.mapNodes (NodesInfo.set i NodeInfo.countSub)) h.table hname
      hroom
    rw [TopicCall.run, addSubTopic, modifyOwn_bind hi, Op.bind_ok hok]
    exact not_undefined_writeNodesInfo (hnodes _ t)
  | addPub topic event =>
    obtain ⟨name, hn⟩ : ShortName (fullName topic event) := hname
    have hroom' : s.mgr.topics_.Visible (fullName topic event) ∨ s.mgr.topics_.count + 1 ≠ MAX_TOPICS_PER_NODE := by
      rcases hroom with hlt | ⟨hv, -⟩
      · exact .inr (by omega)
      · exact .inl hv
    obtain ⟨id, t, hfc, hok⟩ := findOrCreate_of_room (s := s.mapNodes (NodesInfo.set i NodeInfo.countPub)) h.table
      ⟨name, hn⟩ hroom'
    have hb := (hfc.spec h.table).1
    have hcast := hb.count_cast
    have hlt := hfc.count_lt h.table hroom
    have hslot : topicSlot t.topics_count.toInt = .ok t.count := by
      rw [← hcast]
      exact arraySlot_of_lt hlt
    have hid : id.toInt ≤ t.count := hcast ▸ (hfc.spec h.table).2.2
    have hvalid : (t.put t.count ⟨name, id⟩).Valid :=
      (TopicsInfo.put_spec (x := ⟨name, id⟩) hb (Nat.le_refl _) (by omega) hid).1.valid
    generalize hs₁ : s.mapNodes (NodesInfo.set i NodeInfo.countPub) = s₁ at hok
    have hslot' : topicSlot (s₁.mapTopics (fun _ => t)).mgr.topics_.topics_count.toInt = .ok t.count := hslot
    rw [TopicCall.run, addPubTopic, modifyOwn_bind hi, hs₁, Op.bind_ok hok, Op.bind_ok (liftE_ok hn _), Op.get_bind,
      Op.bind_ok (liftE_ok hslot' _), Op.bind_ok (modifyTopics_eq _ _), Op.bind_ok (modifyTopics_eq _ _)]
    refine not_undefined_writeRegistry hvalid ?_
    rw [← hs₁]
    exact hnodes _ t

/-! ## Sequences of calls -/

/-- **No call of the sequence leaves the array**: with names that fit and a slot of its own nothing else in a call is
undefined; and the count stays in range. -/
def InRange (s : Registry D) : List TopicCall → Prop
  | [] => True
  | c :: cs => ¬ Undefined (c.run s) ∧ 0 ≤ (finalState (c.run s)).mgr.topics_.topics_count.toInt ∧
      (finalState (c.run s)).mgr.topics_.topics_count.toInt ≤ MAX_TOPICS_PER_NODE ∧ InRange (finalState (c.run s)) cs

/-- Every call of the sequence finds room where it is made. -/
def AllHaveRoom (s : Registry D) : List TopicCall → Prop
  | [] => True
  | c :: cs => s.mgr.topics_.HasRoom c ∧ AllHaveRoom (finalState (c.run s)) cs

theorem Ready.room_iff {s : Registry D} {cs : List TopicCall} (h : Ready s)
    (hnames : ∀ c ∈ cs, ShortName c.full_name) : InRange s cs ↔ AllHaveRoom s cs := by
  induction cs generalizing s with
  | nil => exact Iff.rfl
  | cons c cs ih =>
    obtain ⟨hname, hrest⟩ := List.forall_mem_cons.1 hnames
    constructor
    · rintro ⟨hdef, -, -, hcs⟩
      have hstep : TopicCall.Step s c (finalState (c.run s)) := ⟨hdef, rfl⟩
      exact ⟨hstep.effect.1.hasRoom h.table, (ih (h.step hstep) hrest).1 hcs⟩
    · rintro ⟨hroom, hcs⟩
      have hstep : TopicCall.Step s c (finalState (c.run s)) := ⟨h.not_undefined hname hroom, rfl⟩
      have hready := h.step hstep
      exact ⟨hstep.1, hready.table.nonneg, hready.table.le, (ih hready hrest).2 hcs⟩

/-- **The calls of one manager stay in the array exactly when each finds room**, from an empty topic table on and in any
order, as many names as there are. -/
theorem inRange_iff {s : Registry D} {cs : List TopicCall} (h₀ : s.mgr.topics_ = TopicsInfo.zero)
    (hnodes : s.mgr.nodes_.Valid) (hslot : ∃ i, nodeSlot s.mgr.node_id_.toInt = .ok i)
    (hnames : ∀ c ∈ cs, ShortName c.full_name) : InRange s cs ↔ AllHaveRoom s cs :=
  Ready.room_iff ⟨h₀ ▸ TopicsInfo.zero_bounded, hnodes, hslot⟩ hnames

/-- Publishing again a topic that is visible takes a slot each time. -/
theorem AllHaveRoom.count_le {topic event : List UInt8} (hname : ShortName (fullName topic event)) :
    ∀ {m : Nat} {s : Registry D}, Ready s → s.mgr.topics_.Visible (fullName topic event) →
      AllHaveRoom s (List.replicate m (.addPub topic event)) → s.mgr.topics_.count + m ≤ MAX_TOPICS_PER_NODE
  | 0, _, h, _, _ => h.table.valid.2
  | m + 1, s, h, ⟨i, hi⟩, hroom => by
    obtain ⟨hfirst, hrest⟩ := hroom
    have hstep : TopicCall.Step s (.addPub topic event) _ := ⟨h.not_undefined hname hfirst, rfl⟩
    have heff := hstep.effect.1
    have hvisible := ((heff.spec h.table).2.first hi).1
    have hle := AllHaveRoom.count_le hname (h.step hstep) ⟨i, hvisible⟩ hrest
    obtain ⟨id, t, j, name, hfc, -, -, htable⟩ := heff
    obtain ⟨-, rfl⟩ := hfc.of_first hi
    rw [htable, (TopicsInfo.put_count h.table _ _).2] at hle
    omega

end Calls

/-- One topic that is published 1024 times: the first time it takes two slots. -/
theorem not_inRange_of_pubs : ¬ InRange (Registry.fresh 0 : Registry (List UInt8))
    (List.replicate 1024 (.addPub (utf8 "t") (utf8 "e"))) := by
  have hname : ShortName (fullName (utf8 "t") (utf8 "e")) := by decide +kernel
  have hready : Ready (Registry.fresh 0 : Registry (List UInt8)) :=
    ⟨TopicsInfo.zero_bounded, by decide, ⟨0, by decide⟩⟩
  rw [hready.room_iff fun c hc => by rw [List.eq_of_mem_replicate hc]; exact hname]
  rw [show (1024 : Nat) = 1023 + 1 from rfl, List.replicate_succ]
  rintro ⟨hfirst, hrest⟩
  have hstep : TopicCall.Step (Registry.fresh 0 : Registry (List UInt8)) (.addPub (utf8 "t") (utf8 "e")) _ :=
    ⟨hready.not_undefined hname hfirst, rfl⟩
  generalize hs : finalState (TopicCall.run (.addPub (utf8 "t") (utf8 "e"))
    (Registry.fresh 0 : Registry (List UInt8))) = s at hstep hrest
  have hfound : answer (isTopicExist (utf8 "t") (utf8 "e") s) = some true := by rw [← hs]; decide +kernel
  have hcount : s.mgr.topics_.count = 2 := by rw [← hs]; decide +kernel
  have hle := AllHaveRoom.count_le hname (hready.step hstep) (first_of_isTopicExist (eq_ok_of_answer hfound)) hrest
  rw [hcount] at hle
  exact absurd hle (by decide)

/-- A topic is published, subscribed to and registered, and another is subscribed to. -/
def fewCalls : List TopicCall :=
  [.addPub (utf8 "t") (utf8 "e"), .addSub (utf8 "t") (utf8 "e"), .register (utf8 "t") (utf8 "e"),
    .addSub (utf8 "u") (utf8 "e")]

theorem inRange_of_register : AllHaveRoom (Registry.fresh 0 : Registry (List UInt8)) fewCalls ∧
    InRange (Registry.fresh 0 : Registry (List UInt8)) fewCalls := by
  have hroom : AllHaveRoom (Registry.fresh 0 : Registry (List UInt8)) fewCalls :=
    ⟨.inl (by decide +kernel), .inr (by decide +kernel), .inr (by decide +kernel), .inr (by decide +kernel), trivial⟩
  refine ⟨hroom, (inRange_iff rfl (by decide) ⟨0, by decide⟩ ?_).2 hroom⟩
  intro c hc
  simp only [fewCalls, List.mem_cons, List.not_mem_nil, or_false] at hc
  rcases hc with rfl | rfl | rfl | rfl <;> decide +kernel

end MiniRos2

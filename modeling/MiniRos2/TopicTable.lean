import MiniRos2.RegistryCalls
import MiniRos2.Lib.Trans
/-!
# TopicTable — event ids of one manager

The lookups scan the entries `0 .. topics_count-1` and take the first with the name (`TopicsInfo.First`).  A name that
is not there gets `topics_count + 1` both as its id and as its slot, and the count goes up by one: the new entry is one
behind the entries the lookups scan.  No call touches an entry once it is scanned (`TopicsInfo.Extends`), and no entry
has an id above its slot (`TopicsInfo.Bounded`); so an id that was just made is the id of no entry that is found, and
an id that was found stays (`registerTopicEvent_stable_iff`).
-/
namespace MiniRos2

variable {D : Type}

/-! ## Lookups -/

/-- The lookups stop at entry `i`. -/
def TopicsInfo.First (t : TopicsInfo) (full_name : List UInt8) (i : Nat) : Prop :=
  i < t.count ∧ i < MAX_TOPICS_PER_NODE ∧ (t.topics i).name_.bytes = full_name ∧
    ∀ j, j < i → (t.topics j).name_.bytes ≠ full_name

/-- The lookups find nothing. -/
def TopicsInfo.Absent (t : TopicsInfo) (full_name : List UInt8) : Prop :=
  t.count ≤ MAX_TOPICS_PER_NODE ∧ ∀ j, j < t.count → (t.topics j).name_.bytes ≠ full_name

theorem findTopic_cases (t : TopicsInfo) (full_name : List UInt8) :
    (∃ i, t.First full_name i ∧ findTopic t full_name = .ok (some i)) ∨
      (t.Absent full_name ∧ findTopic t full_name = .ok none) ∨ findTopic t full_name = .error .undefined := by
  unfold findTopic
  split
  · rename_i hf
    refine .inr (.inl ⟨⟨?_, fun j hj => ?_⟩, rfl⟩)
    · by_contra hlt
      have := List.find?_eq_none.1 hf MAX_TOPICS_PER_NODE (List.mem_range.2 (by omega))
      simp at this
    · have := List.find?_eq_none.1 hf j (List.mem_range.2 hj)
      simp only [Bool.or_eq_true, decide_eq_true_eq, beq_iff_eq, not_or] at this
      exact this.2
  · rename_i i hf
    obtain ⟨hi, hmem, hlt⟩ := List.find?_range_eq_some.1 hf
    split
    · exact .inr (.inr rfl)
    · rename_i hmax
      simp only [Bool.or_eq_true, decide_eq_true_eq, beq_iff_eq, hmax, false_or] at hi
      refine .inl ⟨i, ⟨List.mem_range.1 hmem, by omega, hi, fun j hj hname => ?_⟩, rfl⟩
      have := hlt j hj
      simp [hname] at this

theorem TopicsInfo.First.unique {t : TopicsInfo} {full_name : List UInt8} {i j : Nat} (hi : t.First full_name i)
    (hj : t.First full_name j) : i = j := by
  rcases Nat.lt_trichotomy i j with h | h | h
  · exact absurd hi.2.2.1 (hj.2.2.2 i h)
  · exact h
  · exact absurd hj.2.2.1 (hi.2.2.2 j h)

theorem findTopic_of_first {t : TopicsInfo} {full_name : List UInt8} {i : Nat} (h : t.First full_name i) :
    findTopic t full_name = .ok (some i) := by
  unfold findTopic
  have hf : (List.range t.count).find? (fun i => decide (MAX_TOPICS_PER_NODE ≤ i) ||
      (t.topics i).name_.bytes == full_name) = some i := by
    refine List.find?_range_eq_some.2 ⟨by simp [h.2.2.1], List.mem_range.2 h.1, fun j hj => ?_⟩
    have hne := h.2.2.2 j hj
    have hlt := h.2.1
    simp only [Bool.not_eq_true', Bool.or_eq_false_iff, decide_eq_false_iff_not, beq_eq_false_iff_ne]
    exact ⟨by omega, hne⟩
  rw [hf]
  exact if_neg (by have := h.2.1; omega)

theorem not_first_of_absent {t : TopicsInfo} {full_name : List UInt8} (h : t.Absent full_name) (i : Nat) :
    ¬ t.First full_name i := fun hi => h.2 i hi.1 hi.2.2.1

theorem isTopicExist_of_first {s : Registry D} {topic event : List UInt8} {i : Nat}
    (h : s.mgr.topics_.First (fullName topic event) i) : isTopicExist topic event s = .ok true s := by
  unfold isTopicExist
  rw [Op.get_bind, Op.bind_ok (liftE_ok (findTopic_of_first h) s)]
  rfl

theorem first_of_isTopicExist {s s' : Registry D} {topic event : List UInt8}
    (h : isTopicExist topic event s = .ok true s') : ∃ i, s.mgr.topics_.First (fullName topic event) i := by
  unfold isTopicExist at h
  rw [Op.get_bind] at h
  rcases findTopic_cases s.mgr.topics_ (fullName topic event) with ⟨i, hi, hf⟩ | ⟨-, hf⟩ | hf
  · exact ⟨i, hi⟩
  · rw [Op.bind_ok (liftE_ok hf s)] at h; cases h
  · rw [Op.bind_error (liftE_error hf s)] at h; cases h

theorem getTopicEventId_of_first {s : Registry D} {topic event : List UInt8} {i : Nat}
    (h : s.mgr.topics_.First (fullName topic event) i) :
    getTopicEventId_ topic event s = .ok (s.mgr.topics_.topics i).event_id_ s := by
  unfold getTopicEventId_
  rw [Op.get_bind, Op.bind_ok (liftE_ok (findTopic_of_first h) s)]
  rfl

/-- **What `triggerEvent` does**: it sets the bit of the entry it found, or nothing. -/
theorem triggerEvent_cases (s : Registry D) (topic event : List UInt8) :
    (∃ k, ∃ p : Nat, s.mgr.topics_.First (fullName topic event) k ∧ (s.mgr.topics_.topics k).event_id_.toInt = p ∧
        triggerEvent topic event s = .ok () { s with event_flag_ := Function.update s.event_flag_ p true }) ∨
      triggerEvent topic event s = .ok () s ∨ Undefined (triggerEvent topic event s) := by
  unfold triggerEvent
  rcases findTopic_cases s.mgr.topics_ (fullName topic event) with ⟨k, hk, -⟩ | ⟨-, hf⟩ | hf
  · rw [Op.bind_ok (getTopicEventId_of_first hk)]
    by_cases hid : 0 ≤ (s.mgr.topics_.topics k).event_id_.toInt
    · rw [if_pos hid]
      unfold triggerEventById_
      split
      · exact .inr (.inl rfl)
      · exact .inl ⟨k, _, hk, (Int.toNat_of_nonneg hid).symm, rfl⟩
    · rw [if_neg hid]
      exact .inr (.inl rfl)
  · have hget : getTopicEventId_ topic event s = .ok (-1) s := by
      unfold getTopicEventId_
      rw [Op.get_bind, Op.bind_ok (liftE_ok hf s)]
      rfl
    rw [Op.bind_ok hget]
    exact .inr (.inl rfl)
  · have hget : getTopicEventId_ topic event s = .error .undefined s := by
      unfold getTopicEventId_
      rw [Op.get_bind, Op.bind_error (liftE_error hf s)]
    rw [Op.bind_error hget]
    exact .inr (.inr rfl)

/-! ## What the search did -/

theorem TopicsInfo.toInt_count_succ {t : TopicsInfo} (h : t.topics_count.toInt ≤ MAX_TOPICS_PER_NODE) :
    (t.topics_count + 1).toInt = t.topics_count.toInt + 1 :=
  Int32.toInt_succ (by unfold MAX_TOPICS_PER_NODE at h; omega)

/-- One more entry. -/
def TopicsInfo.put (t : TopicsInfo) (i : Nat) (x : TopicInfo) : TopicsInfo :=
  { topics_count := t.topics_count + 1, topics := Function.update t.topics i x }

/-- **`findOrCreateTopicEvent_` returned this id and left this table.** -/
inductive FindOrCreated (t : TopicsInfo) (full_name : List UInt8) : Int32 → TopicsInfo → Prop where
  | found {i : Nat} : t.First full_name i → FindOrCreated t full_name (t.topics i).event_id_ t
  | full : t.Absent full_name → (MAX_TOPICS_PER_NODE : Int) ≤ t.topics_count.toInt → FindOrCreated t full_name (-1) t
  | created {i : Nat} {name : CName} : t.Absent full_name → t.topics_count.toInt < MAX_TOPICS_PER_NODE →
      topicSlot (t.topics_count + 1).toInt = .ok i → strcpy full_name = .ok name →
      FindOrCreated t full_name (t.topics_count + 1) (t.put i ⟨name, t.topics_count + 1⟩)

theorem FindOrCreated.of_first {t t' : TopicsInfo} {full_name : List UInt8} {id : Int32} {i : Nat}
    (h : FindOrCreated t full_name id t') (hi : t.First full_name i) : id = (t.topics i).event_id_ ∧ t' = t := by
  cases h with
  | found hj =>
    obtain rfl := hi.unique hj
    exact ⟨rfl, rfl⟩
  | full ha => exact absurd hi (not_first_of_absent ha i)
  | created ha => exact absurd hi (not_first_of_absent ha i)

theorem findOrCreate_of_first {s : Registry D} {topic event : List UInt8} {i : Nat}
    (hi : s.mgr.topics_.First (fullName topic event) i) :
    findOrCreateTopicEvent_ topic event s = .ok (s.mgr.topics_.topics i).event_id_ s := by
  unfold findOrCreateTopicEvent_
  rw [Op.get_bind, Op.bind_ok (liftE_ok (findTopic_of_first hi) s)]
  rfl

theorem strcpy_cases (s : List UInt8) : (∃ name, strcpy s = .ok name) ∨ strcpy s = .error .undefined := by
  unfold strcpy
  split
  · exact .inl ⟨_, rfl⟩
  · exact .inr rfl

theorem findOrCreate_cases (topic event : List UInt8) (s : Registry D) :
    (∃ id t, FindOrCreated s.mgr.topics_ (fullName topic event) id t ∧
        findOrCreateTopicEvent_ topic event s = .ok id (s.mapTopics (fun _ => t))) ∨
      ∃ s', findOrCreateTopicEvent_ topic event s = .error .undefined s' := by
  unfold findOrCreateTopicEvent_
  rw [Op.get_bind]
  rcases findTopic_cases s.mgr.topics_ (fullName topic event) with ⟨i, hi, hf⟩ | ⟨ha, hf⟩ | hf
  · rw [Op.bind_ok (liftE_ok hf s)]
    exact .inl ⟨_, _, .found hi, rfl⟩
  · rw [Op.bind_ok (liftE_ok hf s)]
    dsimp only
    by_cases hmax : (MAX_TOPICS_PER_NODE : Int) ≤ s.mgr.topics_.topics_count.toInt
    · rw [if_pos hmax]
      exact .inl ⟨_, _, .full ha hmax, rfl⟩
    · rw [if_neg hmax]
      rcases arraySlot_cases MAX_TOPICS_PER_NODE (s.mgr.topics_.topics_count + 1).toInt with ⟨i, hi⟩ | hi
      · rw [Op.bind_ok (liftE_ok hi s), Op.bind_ok (modifyTopics_eq _ s)]
        rcases strcpy_cases (fullName topic event) with ⟨name, hn⟩ | hn
        · rw [Op.bind_ok (liftE_ok hn _), Op.bind_ok (modifyTopics_eq _ _), Op.bind_ok (modifyTopics_eq _ _)]
          refine .inl ⟨_, _, .created ha (by omega) hi hn, ?_⟩
          simp only [Registry.mapTopics_mapTopics, TopicsInfo.set_set]
          rfl
        · exact .inr ⟨_, Op.bind_error (liftE_error hn _)⟩
      · exact .inr ⟨_, Op.bind_error (liftE_error hi s)⟩
  · exact .inr ⟨_, Op.bind_error (liftE_error hf s)⟩

/-! ## Calls -/

inductive TopicCall where
  | register (topic_name event_name : List UInt8)
  | addSub (topic_name event_name : List UInt8)
  | addPub (topic_name event_name : List UInt8)

def TopicCall.full_name : TopicCall → List UInt8
  | .register topic event => fullName topic event
  | .addSub topic event => fullName topic event
  | .addPub topic event => fullName topic event

/-- What a call does to the topic table. -/
def TopicCall.Effect (t t' : TopicsInfo) : TopicCall → Prop
  | .register topic event => ∃ id, FindOrCreated t (fullName topic event) id t'
  | .addSub topic event => ∃ id, FindOrCreated t (fullName topic event) id t'
  | .addPub topic event => ∃ id t₁ i name, FindOrCreated t (fullName topic event) id t₁ ∧
      strcpy (fullName topic event) = .ok name ∧ topicSlot t₁.topics_count.toInt = .ok i ∧ t' = t₁.put i ⟨name, id⟩

section Calls

variable [DoubleText D]

def TopicCall.run : TopicCall → Op D Unit
  | .register topic event => do
    let _event_id ← registerTopicEvent topic event
  | .addSub topic event => addSubTopic topic event
  | .addPub topic event => addPubTopic topic event

/-- One call, whether it returned or threw. -/
def TopicCall.Step (s : Registry D) (c : TopicCall) (s' : Registry D) : Prop :=
  ¬ Undefined (c.run s) ∧ s' = finalState (c.run s)

/-- **The three calls, inverted**: which tables they write out, or that they are undefined. -/
theorem registerTopicEvent_cases (s : Registry D) (topic event : List UInt8) :
    (∃ id t, FindOrCreated s.mgr.topics_ (fullName topic event) id t ∧
        registerTopicEvent topic event s =
          if 0 ≤ id.toInt then (writeTopicsInfo_ >>= fun _ => pure id) (s.mapTopics (fun _ => t))
          else .ok id (s.mapTopics (fun _ => t))) ∨
      Undefined (registerTopicEvent topic event s) := by
  unfold registerTopicEvent
  rcases findOrCreate_cases topic event s with ⟨id, t, hfc, hok⟩ | ⟨s', herr⟩
  · refine .inl ⟨id, t, hfc, ?_⟩
    rw [Op.bind_ok hok]
    by_cases hid : 0 ≤ id.toInt
    · rw [if_pos hid, if_pos hid]
    · rw [if_neg hid, if_neg hid]
      rfl
  · rw [Op.bind_error herr]
    exact .inr rfl

theorem addSubTopic_cases (s : Registry D) (topic event : List UInt8) :
    (∃ i id t, nodeSlot s.mgr.node_id_.toInt = .ok i ∧ FindOrCreated s.mgr.topics_ (fullName topic event) id t ∧
        addSubTopic topic event s =
          writeNodesInfo_ ((s.mapNodes (NodesInfo.set i NodeInfo.countSub)).mapTopics (fun _ => t))) ∨
      Undefined (addSubTopic topic event s) := by
  unfold addSubTopic
  cases hi : nodeSlot s.mgr.node_id_.toInt with
  | error e =>
    rw [modifyOwn_bind_error hi]
    exact .inr rfl
  | ok i =>
    rw [modifyOwn_bind hi]
    rcases findOrCreate_cases topic event (s.mapNodes (NodesInfo.set i NodeInfo.countSub)) with
      ⟨id, t, hfc, hok⟩ | ⟨s', herr⟩
    · rw [Op.bind_ok hok]
      exact .inl ⟨i, id, t, rfl, hfc, rfl⟩
    · rw [Op.bind_error herr]
      exact .inr rfl

theorem addPubTopic_cases (s : Registry D) (topic event : List UInt8) :
    (∃ i id t j name, nodeSlot s.mgr.node_id_.toInt = .ok i ∧
        FindOrCreated s.mgr.topics_ (fullName topic event) id t ∧ strcpy (fullName topic event) = .ok name ∧
        topicSlot t.topics_count.toInt = .ok j ∧
        addPubTopic topic event s = writeRegistryToShm_
          ((s.mapNodes (NodesInfo.set i NodeInfo.countPub)).mapTopics (fun _ => t.put j ⟨name, id⟩))) ∨
      Undefined (addPubTopic topic event s) := by
  unfold addPubTopic
  cases hi : nodeSlot s.mgr.node_id_.toInt with
  | error e =>
    rw [modifyOwn_bind_error hi]
    exact .inr rfl
  | ok i =>
    rw [modifyOwn_bind hi]
    generalize hs₁ : s.mapNodes (NodesInfo.set i NodeInfo.countPub) = s₁
    have ht : s₁.mgr.topics_ = s.mgr.topics_ := by rw [← hs₁]; rfl
    rcases findOrCreate_cases topic event s₁ with ⟨id, t, hfc, hok⟩ | ⟨s', herr⟩
    · rw [Op.bind_ok hok]
      rcases strcpy_cases (fullName topic event) with ⟨name, hn⟩ | hn
      · rw [Op.bind_ok (liftE_ok hn _), Op.get_bind]
        rcases arraySlot_cases MAX_TOPICS_PER_NODE t.topics_count.toInt with ⟨j, hj⟩ | hj
        · rw [Op.bind_ok (liftE_ok (show topicSlot (s₁.mapTopics (fun _ => t)).mgr.topics_.topics_count.toInt = .ok j
            from hj) _), Op.bind_ok (modifyTopics_eq _ _), Op.bind_ok (modifyTopics_eq _ _)]
          exact .inl ⟨i, id, t, j, name, rfl, ht ▸ hfc, hn, hj, by rw [← hs₁]; rfl⟩
        · rw [Op.bind_error (liftE_error (show topicSlot (s₁.mapTopics (fun _ => t)).mgr.topics_.topics_count.toInt =
            .error .undefined from hj) _)]
          exact .inr rfl
      · rw [Op.bind_error (liftE_error hn _)]
        exact .inr rfl
    · rw [Op.bind_error herr]
      exact .inr rfl

theorem writeRegistryToShm_frame (s : Registry D) :
    (finalState (writeRegistryToShm_ s)).mgr = s.mgr ∧ (finalState (writeRegistryToShm_ s)).shm.size = s.shm.size := by
  unfold writeRegistryToShm_
  obtain ⟨hm, hs⟩ := writeTopicsInfo_frame s
  rcases writeTopicsInfo_cases s with ⟨-, hw, -⟩ | ⟨e, hw⟩
  · rw [Op.bind_ok hw]
    exact writeNodesInfo_frame _
  · rw [Op.bind_error hw]
    exact ⟨rfl, rfl⟩

/-- A registration, whether it returned or threw. -/
theorem TopicCall.Step.of_register {s s' : Registry D} {topic event : List UInt8}
    (h : TopicCall.Step s (.register topic event) s') :
    ∃ id t, FindOrCreated s.mgr.topics_ (fullName topic event) id t ∧
      s' = if 0 ≤ id.toInt then finalState (writeTopicsInfo_ (s.mapTopics (fun _ => t)))
        else s.mapTopics (fun _ => t) := by
  obtain ⟨hdef, rfl⟩ := h
  obtain ⟨hfin, hund⟩ := finalState_answer (registerTopicEvent topic event) (fun _ => ()) s
  have hrun : TopicCall.run (.register topic event) s = (registerTopicEvent topic event >>= fun _ => pure ()) s := rfl
  rw [hrun, hund] at hdef
  rw [hrun, hfin]
  rcases registerTopicEvent_cases s topic event with ⟨id, t, hfc, heq⟩ | hu
  · refine ⟨id, t, hfc, ?_⟩
    rw [heq]
    split
    · exact (finalState_answer writeTopicsInfo_ (fun _ => id) (s.mapTopics (fun _ => t))).1
    · rfl
  · exact absurd hu hdef

/-- **One call on the topic table**, whether it returned or threw. -/
theorem TopicCall.Step.effect {s s' : Registry D} {c : TopicCall} (h : TopicCall.Step s c s') :
    c.Effect s.mgr.topics_ s'.mgr.topics_ ∧ s'.shm.size = s.shm.size := by
  cases c with
  | register topic event =>
    obtain ⟨id, t, hfc, rfl⟩ := h.of_register
    obtain ⟨hm, hs⟩ := writeTopicsInfo_frame (s.mapTopics (fun _ => t))
    split
    · rw [hm, hs]
      exact ⟨⟨id, hfc⟩, rfl⟩
    · exact ⟨⟨id, hfc⟩, rfl⟩
  | addSub topic event =>
    obtain ⟨hdef, rfl⟩ := h
    rcases addSubTopic_cases s topic event with ⟨i, id, t, -, hfc, heq⟩ | hu
    · obtain ⟨hm, hs⟩ := writeNodesInfo_frame
        ((s.mapNodes (NodesInfo.set i NodeInfo.countSub)).mapTopics (fun _ => t))
      rw [TopicCall.run, heq, hm, hs]
      exact ⟨⟨id, hfc⟩, rfl⟩
    · exact absurd hu hdef
  | addPub topic event =>
    obtain ⟨hdef, rfl⟩ := h
    rcases addPubTopic_cases s topic event with ⟨i, id, t, j, name, -, hfc, hn, hj, heq⟩ | hu
    · obtain ⟨hm, hs⟩ := writeRegistryToShm_frame
        ((s.mapNodes (NodesInfo.set i NodeInfo.countPub)).mapTopics (fun _ => t.put j ⟨name, id⟩))
      rw [TopicCall.run, heq, hm, hs]
      exact ⟨⟨id, t, j, name, hfc, hn, hj, rfl⟩, rfl⟩
    · exact absurd hu hdef

end Calls

/-! ## Scanned entries stay -/

/-- The scanned entries of `t` are scanned entries of `t'`. -/
def TopicsInfo.Extends (t t' : TopicsInfo) : Prop :=
  t.count ≤ t'.count ∧ ∀ j, j < t.count → t'.topics j = t.topics j

theorem TopicsInfo.Extends.refl (t : TopicsInfo) : t.Extends t := ⟨Nat.le_refl _, fun _ _ => rfl⟩

theorem TopicsInfo.Extends.trans {t t₁ t₂ : TopicsInfo} (h : t.Extends t₁) (h' : t₁.Extends t₂) : t.Extends t₂ :=
  ⟨Nat.le_trans h.1 h'.1, fun j hj => (h'.2 j (Nat.lt_of_lt_of_le hj h.1)).trans (h.2 j hj)⟩

theorem TopicsInfo.Extends.first {t t' : TopicsInfo} (h : t.Extends t') {full_name : List UInt8} {i : Nat}
    (hi : t.First full_name i) : t'.First full_name i ∧ (t'.topics i).event_id_ = (t.topics i).event_id_ := by
  obtain ⟨hlt, hmax, hname, hbefore⟩ := hi
  refine ⟨⟨Nat.lt_of_lt_of_le hlt h.1, hmax, by rw [h.2 i hlt]; exact hname, fun j hj => ?_⟩, by rw [h.2 i hlt]⟩
  rw [h.2 j (by omega)]
  exact hbefore j hj

/-- **No entry has an id above its slot**, scanned or not; and the count is in range. -/
structure TopicsInfo.Bounded (t : TopicsInfo) : Prop where
  nonneg : 0 ≤ t.topics_count.toInt
  le : t.topics_count.toInt ≤ MAX_TOPICS_PER_NODE
  id_le : ∀ j : Nat, (t.topics j).event_id_.toInt ≤ j

theorem TopicsInfo.Bounded.valid {t : TopicsInfo} (h : t.Bounded) : t.Valid := by
  have h₁ := h.nonneg
  have h₂ := h.le
  exact ⟨h₁, by unfold TopicsInfo.count; omega⟩

theorem TopicsInfo.Bounded.count_cast {t : TopicsInfo} (h : t.Bounded) : (t.count : Int) = t.topics_count.toInt := by
  have := h.nonneg
  unfold TopicsInfo.count
  omega

theorem TopicsInfo.zero_bounded : TopicsInfo.zero.Bounded := ⟨by decide, by decide, fun j => by
  show (0 : Int32).toInt ≤ j
  rw [show (0 : Int32).toInt = 0 from rfl]
  omega⟩

theorem TopicsInfo.put_count {t : TopicsInfo} (h : t.Bounded) (i : Nat) (x : TopicInfo) :
    (t.put i x).topics_count.toInt = t.topics_count.toInt + 1 ∧ (t.put i x).count = t.count + 1 := by
  have hle := h.le
  have hnn := h.nonneg
  have hsucc : (t.topics_count + 1).toInt = t.topics_count.toInt + 1 := TopicsInfo.toInt_count_succ (by omega)
  refine ⟨hsucc, ?_⟩
  show (t.topics_count + 1).toInt.toNat = t.topics_count.toInt.toNat + 1
  omega

/-- An entry put at or behind the end, with an id that is not above its slot. -/
theorem TopicsInfo.put_spec {t : TopicsInfo} (h : t.Bounded) {i : Nat} {x : TopicInfo} (hi : t.count ≤ i)
    (hle : t.topics_count.toInt < MAX_TOPICS_PER_NODE) (hx : x.event_id_.toInt ≤ i) :
    (t.put i x).Bounded ∧ t.Extends (t.put i x) := by
  obtain ⟨hc, hn⟩ := TopicsInfo.put_count h i x
  have hnn := h.nonneg
  refine ⟨⟨by omega, by omega, fun j => ?_⟩, by omega, fun j hj => ?_⟩
  · by_cases hj : j = i
    · subst hj
      rw [show (t.put j x).topics j = x from Function.update_self _ _ _]
      exact hx
    · rw [show (t.put i x).topics j = t.topics j from Function.update_of_ne hj _ _]
      exact h.id_le j
  · exact Function.update_of_ne (by omega) _ _

/-- The id returned: it is not above the last scanned slot when the topic was found, and it is the new entry's slot
when it was made. -/
theorem FindOrCreated.spec {t t' : TopicsInfo} {full_name : List UInt8} {id : Int32} (h : t.Bounded)
    (hfc : FindOrCreated t full_name id t') : t'.Bounded ∧ t.Extends t' ∧ id.toInt ≤ t'.topics_count.toInt := by
  have hle := h.le
  have hcast := h.count_cast
  cases hfc with
  | @found i hi =>
    have hlt := hi.1
    exact ⟨h, .refl t, Int.le_trans (h.id_le i) (by omega)⟩
  | full _ hmax =>
    have hone : (-1 : Int32).toInt = -1 := rfl
    exact ⟨h, .refl t, by omega⟩
  | @created i name ha hlt hi hn =>
    have hsucc : (t.topics_count + 1).toInt = t.topics_count.toInt + 1 := TopicsInfo.toInt_count_succ (by omega)
    obtain ⟨hi', -⟩ := arraySlot_eq_ok hi
    obtain ⟨hb, he⟩ := TopicsInfo.put_spec (x := ⟨name, t.topics_count + 1⟩) h (i := i) (by omega) hlt (by
      show (t.topics_count + 1).toInt ≤ i
      omega)
    exact ⟨hb, he, Int.le_refl _⟩

/-- **One call keeps the bound and every scanned entry.** -/
theorem TopicCall.Effect.spec {t t' : TopicsInfo} {c : TopicCall} (h : t.Bounded) (he : c.Effect t t') :
    t'.Bounded ∧ t.Extends t' := by
  cases c with
  | register topic event =>
    obtain ⟨id, hfc⟩ := he
    exact ⟨(hfc.spec h).1, (hfc.spec h).2.1⟩
  | addSub topic event =>
    obtain ⟨id, hfc⟩ := he
    exact ⟨(hfc.spec h).1, (hfc.spec h).2.1⟩
  | addPub topic event =>
    obtain ⟨id, t₁, j, name, hfc, -, hj, rfl⟩ := he
    obtain ⟨hb, hext, hid⟩ := hfc.spec h
    obtain ⟨hj', hlt⟩ := arraySlot_eq_ok hj
    have hcast := hb.count_cast
    obtain ⟨hb', hext'⟩ := TopicsInfo.put_spec (x := ⟨name, id⟩) hb (i := j) (by omega) (by omega) (by
      show id.toInt ≤ j
      omega)
    exact ⟨hb', hext.trans hext'⟩

section Stable

variable [DoubleText D]

/-- The table's text fits the region. -/
def Registry.Fits (s : Registry D) : Prop := (topicsText D s.mgr.topics_).length ≤ s.shm.size

/-- **The topic is registered under this id**: it is visible, and both the lookup and a further registration give the
id. -/
def Registered (topic event : List UInt8) (id : Int32) (s : Registry D) : Prop :=
  isTopicExist topic event s = .ok true s ∧ getTopicEventId_ topic event s = .ok id s ∧
    ∃ s', registerTopicEvent topic event s = .ok id s'

theorem bounded_of_run {s t : Registry D} {cs : List TopicCall} (hs : s.mgr.topics_.Bounded)
    (h : Trans.Run TopicCall.Step Trans.free s cs t) :
    t.mgr.topics_.Bounded ∧ s.mgr.topics_.Extends t.mgr.topics_ := by
  refine h.invariant (P := fun t => t.mgr.topics_.Bounded ∧ s.mgr.topics_.Extends t.mgr.topics_) ⟨hs, .refl _⟩ ?_
  rintro t c u ⟨hb, hext⟩ - hstep
  obtain ⟨hb', hext'⟩ := hstep.effect.1.spec hb
  exact ⟨hb', hext.trans hext'⟩

theorem registerTopicEvent_of_first {s : Registry D} {topic event : List UInt8} {i : Nat}
    (hb : s.mgr.topics_.Bounded) (hi : s.mgr.topics_.First (fullName topic event) i) (hfits : s.Fits) :
    ∃ s', registerTopicEvent topic event s = .ok (s.mgr.topics_.topics i).event_id_ s' := by
  unfold registerTopicEvent
  rw [Op.bind_ok (findOrCreate_of_first hi)]
  split
  · have hw : writeTopicsInfo_ s = .ok () (s.store (topicsText D s.mgr.topics_) 0) := by
      rw [writeTopicsInfo_of_valid hb.valid]
      exact shmWrite_of_le (by unfold Registry.Fits at hfits; omega)
    rw [Op.bind_ok hw]
    exact ⟨_, rfl⟩
  · exact ⟨_, rfl⟩

theorem registered_of_first {s : Registry D} {topic event : List UInt8} {i : Nat} (hb : s.mgr.topics_.Bounded)
    (hi : s.mgr.topics_.First (fullName topic event) i) (hfits : s.Fits) :
    Registered topic event (s.mgr.topics_.topics i).event_id_ s :=
  ⟨isTopicExist_of_first hi, getTopicEventId_of_first hi, registerTopicEvent_of_first hb hi hfits⟩

theorem registerTopicEvent_ok {s s' : Registry D} {topic event : List UInt8} {id : Int32}
    (h : registerTopicEvent topic event s = .ok id s') (hid : 0 ≤ id.toInt) :
    FindOrCreated s.mgr.topics_ (fullName topic event) id s'.mgr.topics_ ∧ s'.Fits := by
  rcases registerTopicEvent_cases s topic event with ⟨id', t, hfc, heq⟩ | hu
  · rw [heq] at h
    by_cases hid' : 0 ≤ id'.toInt
    · rw [if_pos hid'] at h
      rcases writeTopicsInfo_cases (s.mapTopics (fun _ => t)) with ⟨-, hw, hle⟩ | ⟨e, hw⟩
      · rw [Op.bind_ok hw] at h
        cases h
        exact ⟨hfc, hle⟩
      · rw [Op.bind_error hw] at h
        cases h
    · rw [if_neg hid'] at h
      cases h
      exact absurd hid hid'
  · rw [h] at hu
    exact False.elim hu

/-- **An id that was just made is found nowhere.** -/
theorem not_registered_of_created {s : Registry D} {t : TopicsInfo} {topic event : List UInt8}
    (hs : s.mgr.topics_.Bounded) (hcount : s.mgr.topics_.topics_count.toInt = t.topics_count.toInt + 1)
    (ht : t.topics_count.toInt < MAX_TOPICS_PER_NODE) : ¬ Registered topic event (t.topics_count + 1) s := by
  rintro ⟨hex, hget, -⟩
  obtain ⟨i, hi⟩ := first_of_isTopicExist hex
  rw [getTopicEventId_of_first hi] at hget
  have hid := hs.id_le i
  have hlt := hi.1
  have hcast := hs.count_cast
  have hsucc : (t.topics_count + 1).toInt = t.topics_count.toInt + 1 := TopicsInfo.toInt_count_succ (by omega)
  simp only [EStateM.Result.ok.injEq, and_true] at hget
  rw [hget] at hid
  omega

/-- **A registration lasts exactly when the topic was visible before it.**  The registry is reached from an empty topic
table by any calls, and any further calls may follow. -/
theorem registerTopicEvent_stable_iff {s₀ s s' : Registry D} {cs : List TopicCall} {topic event : List UInt8}
    {id : Int32} (h₀ : s₀.mgr.topics_ = TopicsInfo.zero) (hrun : Trans.Run TopicCall.Step Trans.free s₀ cs s)
    (hreg : registerTopicEvent topic event s = .ok id s') (hid : 0 ≤ id.toInt) :
    (∀ ds t, Trans.Run TopicCall.Step Trans.free s' ds t → t.Fits → Registered topic event id t) ↔
      isTopicExist topic event s = .ok true s := by
  have hb : s.mgr.topics_.Bounded := (bounded_of_run (h₀ ▸ TopicsInfo.zero_bounded) hrun).1
  obtain ⟨hfc, hfits⟩ := registerTopicEvent_ok hreg hid
  obtain ⟨hb', -, -⟩ := hfc.spec hb
  constructor
  · intro h
    have hnow := h [] s' .nil hfits
    generalize ht' : s'.mgr.topics_ = t' at hfc
    cases hfc with
    | found hi => exact isTopicExist_of_first hi
    | full => exact absurd hid (by decide)
    | created ha hlt _ _ =>
      refine absurd hnow (not_registered_of_created hb' ?_ hlt)
      rw [ht']
      exact (TopicsInfo.put_count hb _ _).1
  · intro hex ds t hds hfits'
    obtain ⟨i, hi⟩ := first_of_isTopicExist hex
    obtain ⟨hbt, hext⟩ := bounded_of_run hb' hds
    generalize ht' : s'.mgr.topics_ = t' at hfc hext
    cases hfc with
    | @found j hj =>
      cases hi.unique hj
      obtain ⟨hit, hide⟩ := hext.first hi
      rw [← hide]
      exact registered_of_first hbt hit hfits'
    | full ha => exact absurd hi (not_first_of_absent ha i)
    | created ha => exact absurd hi (not_first_of_absent ha i)

end Stable

/-- A topic that was published before is visible, so its registration lasts. -/
theorem registerTopicEvent_stable_pub :
    let s : Registry (List UInt8) := finalState (addPubTopic (utf8 "t") (utf8 "e") (Registry.fresh 0))
    (∀ ds t, Trans.Run TopicCall.Step Trans.free (finalState (registerTopicEvent (utf8 "t") (utf8 "e") s)) ds t →
      t.Fits → Registered (utf8 "t") (utf8 "e") 1 t) ↔ isTopicExist (utf8 "t") (utf8 "e") s = .ok true s := by
  intro s
  have hrun : Trans.Run TopicCall.Step Trans.free (Registry.fresh 0) [.addPub (utf8 "t") (utf8 "e")] s :=
    .single trivial ⟨not_undefined_of_answer (a := ()) (by decide +kernel), rfl⟩
  have hreg : answer (registerTopicEvent (utf8 "t") (utf8 "e") s) = some 1 := by decide +kernel
  exact registerTopicEvent_stable_iff rfl hrun (eq_ok_of_answer hreg) (by decide)

/-- The first registration of a new topic returns 1, and the topic is not there afterwards. -/
theorem registerTopicEvent_not_stable :
    ¬ ∀ (s₀ s s' : Registry (List UInt8)) (cs : List TopicCall) (topic event : List UInt8) (id : Int32),
      s₀.mgr.topics_ = TopicsInfo.zero → Trans.Run TopicCall.Step Trans.free s₀ cs s →
      registerTopicEvent topic event s = .ok id s' → 0 ≤ id.toInt → Registered topic event id s' := by
  intro h
  have hreg := h (Registry.fresh 0) (Registry.fresh 0)
    (finalState (registerTopicEvent (utf8 "t") (utf8 "e") (Registry.fresh 0))) [] (utf8 "t") (utf8 "e") 1 rfl .nil
    (eq_ok_of_answer (by decide +kernel)) (by decide)
  have hno : answer (isTopicExist (utf8 "t") (utf8 "e") (finalState (registerTopicEvent (utf8 "t") (utf8 "e")
      (Registry.fresh 0 : Registry (List UInt8))))) = some false := by decide +kernel
  rw [hreg.1] at hno
  cases hno

end MiniRos2

import MiniRos2.TextLength
/-!
# UnlockedWriters — the writers for a caller that holds the region's mutex

The unlocked writers are copies of the locked ones.  The copy for the nodes does not pass `TOPIC_INFO_SIZE`, so its text
goes to the default offset 0, over the topics: the two never leave the same data (`dataArea_ne`), and a reader finds no
topics behind the unlocked ones (`readTopicsInfo_of_unlocked`).
-/
namespace MiniRos2

/-- The bytes behind the head. -/
def Region.dataArea (r : Region) : List UInt8 := ByteMem.read r.mem 0 (r.size - sizeofShmHead)

variable {D : Type}

/-- `shm_->WriteUnlocked(data, size, offset)`. -/
def shmWriteUnlocked (data : List UInt8) (offset : Nat) : Op D Unit := fun s =>
  if offset + data.length > s.shm.size then
    .error (.throws (.outOfRange (utf8 "Write exceeds shared memory size"))) s
  else .ok () { s with shm := { s.shm with mem := ByteMem.write s.shm.mem offset data } }

/-- Without other processes the mutex makes no difference. -/
theorem shmWriteUnlocked_eq (data : List UInt8) (offset : Nat) :
    (shmWriteUnlocked data offset : Op D Unit) = shmWrite data offset := by
  funext s
  unfold shmWriteUnlocked shmWrite Region.write
  split <;> rfl

variable [DoubleText D]

def writeTopicsInfoUnlocked_ : Op D Unit := do
  let s ← get
  let json ← liftE (topicsJson s.mgr.topics_ : Except Abort (JsonValue D))
  shmWriteUnlocked json.serialize 0

/-- The offset is the default one. -/
def writeNodesInfoUnlocked_ : Op D Unit := do
  let s ← get
  let json ← liftE (nodesJson s.mgr.nodes_ : Except Abort (JsonValue D))
  shmWriteUnlocked json.serialize 0

def writeRegistryToShmUnlocked_ : Op D Unit := do
  writeTopicsInfoUnlocked_
  writeNodesInfoUnlocked_

/-- The copies for the topics agree. -/
theorem writeTopicsInfoUnlocked_eq : (writeTopicsInfoUnlocked_ : Op D Unit) = writeTopicsInfo_ := by
  unfold writeTopicsInfoUnlocked_ writeTopicsInfo_
  simp only [shmWriteUnlocked_eq]

theorem writeNodesInfoUnlocked_of_valid {s : Registry D} (h : s.mgr.nodes_.Valid) :
    writeNodesInfoUnlocked_ s = shmWrite (nodesText D s.mgr.nodes_) 0 s := by
  unfold writeNodesInfoUnlocked_
  rw [Op.get_bind, Op.bind_ok (liftE_ok (nodesJson_of_valid h) _), shmWriteUnlocked_eq]
  rfl

/-! ## What writers that returned left -/

theorem writeTopicsInfo_eq_ok {s t : Registry D} (h : writeTopicsInfo_ s = .ok () t) :
    t = s.store (topicsText D s.mgr.topics_) 0 := by
  rcases writeTopicsInfo_cases s with ⟨-, hw, -⟩ | ⟨e, hw⟩
  · rw [hw] at h
    cases h
    rfl
  · rw [hw] at h
    cases h

theorem writeNodesInfo_eq_ok {s t : Registry D} (h : writeNodesInfo_ s = .ok () t) :
    t = s.store (nodesText D s.mgr.nodes_) TOPIC_INFO_SIZE ∧
      TOPIC_INFO_SIZE + (nodesText D s.mgr.nodes_).length ≤ s.shm.size := by
  rcases writeNodesInfo_cases s with ⟨-, hw, hle⟩ | ⟨-, e, hw⟩
  · rw [hw] at h
    cases h
    exact ⟨rfl, hle⟩
  · rw [hw] at h
    cases h

omit [DoubleText D] in
theorem valid_of_nodesJson {n : NodesInfo} {json : JsonValue D} (h : nodesJson n = .ok json) : n.Valid := by
  unfold nodesJson jsonArray at h
  by_cases hneg : n.nodes_count.toInt < 0
  · rw [if_pos hneg] at h
    cases h
  · rw [if_neg hneg, Except.ok_bind] at h
    split at h
    · cases h
    · exact ⟨by omega, by omega⟩

theorem writeNodesInfoUnlocked_eq_ok {s t : Registry D} (h : writeNodesInfoUnlocked_ s = .ok () t) :
    t = s.store (nodesText D s.mgr.nodes_) 0 := by
  have hv : s.mgr.nodes_.Valid := by
    cases hj : (nodesJson s.mgr.nodes_ : Except Abort (JsonValue D)) with
    | ok json => exact valid_of_nodesJson hj
    | error e =>
      unfold writeNodesInfoUnlocked_ at h
      rw [Op.get_bind, Op.bind_error (liftE_error hj _)] at h
      cases h
  rw [writeNodesInfoUnlocked_of_valid hv] at h
  rcases shmWrite_cases s (nodesText D s.mgr.nodes_) 0 with ⟨-, hw⟩ | ⟨-, e, hw⟩
  · rw [hw] at h
    cases h
    rfl
  · rw [hw] at h
    cases h

/-- The topics at the front, the nodes in their section. -/
theorem writeRegistryToShm_eq_ok {s t : Registry D} (h : writeRegistryToShm_ s = .ok () t) :
    t = (s.store (topicsText D s.mgr.topics_) 0).store (nodesText D s.mgr.nodes_) TOPIC_INFO_SIZE ∧
      TOPIC_INFO_SIZE + (nodesText D s.mgr.nodes_).length ≤ s.shm.size := by
  unfold writeRegistryToShm_ at h
  cases htopics : writeTopicsInfo_ s with
  | error e s' =>
    rw [Op.bind_error htopics] at h
    cases h
  | ok u s' =>
    rw [Op.bind_ok htopics] at h
    obtain rfl := writeTopicsInfo_eq_ok htopics
    exact writeNodesInfo_eq_ok h

/-- Both at the front. -/
theorem writeRegistryToShmUnlocked_eq_ok {s u : Registry D} (h : writeRegistryToShmUnlocked_ s = .ok () u) :
    u = (s.store (topicsText D s.mgr.topics_) 0).store (nodesText D s.mgr.nodes_) 0 := by
  unfold writeRegistryToShmUnlocked_ at h
  rw [writeTopicsInfoUnlocked_eq] at h
  cases htopics : writeTopicsInfo_ s with
  | error e s' =>
    rw [Op.bind_error htopics] at h
    cases h
  | ok v s' =>
    rw [Op.bind_ok htopics] at h
    obtain rfl := writeTopicsInfo_eq_ok htopics
    exact writeNodesInfoUnlocked_eq_ok h

/-! ## The third byte tells which text is at the front -/

theorem nodesText_eq (n : NodesInfo) : ∃ w, nodesText D n = chLBrace :: chQuote :: 97 :: w := by
  rw [nodesText, ofList_nodesFields]
  exact ⟨_, rfl⟩

theorem topicsText_eq (t : TopicsInfo) : ∃ w, topicsText D t = chLBrace :: chQuote :: chT :: w := by
  rw [topicsText, ofList_topicsFields]
  exact ⟨_, rfl⟩

theorem mem_two_of_locked {s t : Registry D} (h : writeRegistryToShm_ s = .ok () t) : t.shm.mem 2 = chT := by
  obtain ⟨rfl, -⟩ := writeRegistryToShm_eq_ok h
  obtain ⟨w, hw⟩ := topicsText_eq (D := D) s.mgr.topics_
  have hbelow : 2 < TOPIC_INFO_SIZE := by decide
  simp only [Registry.store]
  rw [ByteMem.write_of_lt _ _ _ _ hbelow, hw]
  rfl

theorem mem_two_of_unlocked {s u : Registry D} (h : writeRegistryToShmUnlocked_ s = .ok () u) :
    u.shm.mem 2 = 97 := by
  obtain rfl := writeRegistryToShmUnlocked_eq_ok h
  obtain ⟨w, hw⟩ := nodesText_eq (D := D) s.mgr.nodes_
  simp only [Registry.store]
  rw [hw]
  rfl

theorem size_of_locked {s t : Registry D} (h : writeRegistryToShm_ s = .ok () t) : t.shm.size = s.shm.size := by
  rw [(writeRegistryToShm_eq_ok h).1]
  rfl

theorem size_of_unlocked {s u : Registry D} (h : writeRegistryToShmUnlocked_ s = .ok () u) :
    u.shm.size = s.shm.size := by
  rw [writeRegistryToShmUnlocked_eq_ok h]
  rfl

/-- **The third byte of the data**: it belongs to the text at the front. -/
theorem dataArea_two {s t u : Registry D} (hl : writeRegistryToShm_ s = .ok () t)
    (hu : writeRegistryToShmUnlocked_ s = .ok () u) :
    t.shm.dataArea[2]? = some chT ∧ u.shm.dataArea[2]? = some 97 := by
  have hsize : 2 < s.shm.size - sizeofShmHead := by
    have hle := (writeRegistryToShm_eq_ok hl).2
    have hroom : sizeofShmHead + 2 < TOPIC_INFO_SIZE := by decide
    omega
  unfold Region.dataArea
  rw [size_of_locked hl, size_of_unlocked hu, ByteMem.getElem?_read _ _ _ _ hsize, ByteMem.getElem?_read _ _ _ _ hsize,
    Nat.zero_add, mem_two_of_locked hl, mem_two_of_unlocked hu]
  exact ⟨rfl, rfl⟩

/-- **The two writers never leave the same data.** -/
theorem dataArea_ne (s t u : Registry D) (hl : writeRegistryToShm_ s = .ok () t)
    (hu : writeRegistryToShmUnlocked_ s = .ok () u) : t.shm.dataArea ≠ u.shm.dataArea := by
  intro heq
  obtain ⟨ht, hu⟩ := dataArea_two hl hu
  rw [heq, hu] at ht
  exact absurd ht (by decide)

theorem writers_return {s : Registry D} (ht : s.mgr.topics_.Valid) (hn : s.mgr.nodes_.Valid)
    (htle : (topicsText D s.mgr.topics_).length ≤ s.shm.size)
    (hnle : TOPIC_INFO_SIZE + (nodesText D s.mgr.nodes_).length ≤ s.shm.size) :
    (∃ t, writeRegistryToShm_ s = .ok () t) ∧ ∃ u, writeRegistryToShmUnlocked_ s = .ok () u := by
  have htopics : writeTopicsInfo_ s = .ok () (s.store (topicsText D s.mgr.topics_) 0) := by
    rw [writeTopicsInfo_of_valid ht, shmWrite_of_le (by omega)]
  have hstored : (s.store (topicsText D s.mgr.topics_) 0).mgr.nodes_.Valid := hn
  have hsize : (s.store (topicsText D s.mgr.topics_) 0).shm.size = s.shm.size := rfl
  have hnodes : (s.store (topicsText D s.mgr.topics_) 0).mgr.nodes_ = s.mgr.nodes_ := rfl
  constructor
  · have hw := writeNodesInfo_of_valid hstored
    rw [shmWrite_of_le (by rwa [hnodes, hsize])] at hw
    exact ⟨_, (Op.bind_ok htopics).trans hw⟩
  · have hw := writeNodesInfoUnlocked_of_valid hstored
    rw [shmWrite_of_le (by rw [hnodes, hsize]; omega)] at hw
    rw [← writeTopicsInfoUnlocked_eq] at htopics
    exact ⟨_, (Op.bind_ok htopics).trans hw⟩

/-- On a region that was just created both return. -/
theorem writers_return_fresh : (∃ t, writeRegistryToShm_ (Registry.fresh 0 : Registry (List UInt8)) = .ok () t) ∧
    ∃ u, writeRegistryToShmUnlocked_ (Registry.fresh 0 : Registry (List UInt8)) = .ok () u :=
  writers_return ⟨by decide, by decide⟩ ⟨by decide, by decide⟩ (by decide +kernel) (by decide +kernel)

theorem dataArea_ne_fresh : ∃ t u, writeRegistryToShm_ (Registry.fresh 0 : Registry (List UInt8)) = .ok () t ∧
    writeRegistryToShmUnlocked_ (Registry.fresh 0 : Registry (List UInt8)) = .ok () u ∧
    t.shm.dataArea ≠ u.shm.dataArea := by
  obtain ⟨⟨t, ht⟩, u, hu⟩ := writers_return_fresh
  exact ⟨t, u, ht, hu, dataArea_ne (Registry.fresh 0) t u ht hu⟩

/-- Empty tables on a region that was just created. -/
theorem writers_disagree : ¬ ∀ s t u : Registry (List UInt8), writeRegistryToShm_ s = .ok () t →
    writeRegistryToShmUnlocked_ s = .ok () u → t.shm.dataArea = u.shm.dataArea := by
  intro hall
  obtain ⟨⟨t, ht⟩, u, hu⟩ := writers_return_fresh
  obtain ⟨htwo, hutwo⟩ := dataArea_two ht hu
  rw [hall _ t u ht hu, hutwo] at htwo
  exact absurd htwo (by decide)

/-! ## What a reader finds -/

omit [DoubleText D] in
theorem atKey_topic_count (n : NodesInfo) :
    ((JsonValue.object (OrdMap.ofList (nodesFields n)) : JsonValue D).atKey (utf8 "topic_count") >>= JsonValue.asInt) =
      .error (.throws (.domainError (utf8 "JsonValue: not an integer"))) := by
  have h₁ : utf8 "topic_count" ≠ utf8 "alive_node_count" := by decide +kernel
  have h₂ : utf8 "topic_count" ≠ utf8 "node_count" := by decide +kernel
  have h₃ : utf8 "topic_count" ≠ utf8 "nodes" := by decide +kernel
  rw [ofList_nodesFields]
  simp only [JsonValue.atKey, OrdMap.find?, if_neg h₁, if_neg h₂, if_neg h₃]
  rfl

/-- **The text of the nodes in the section of the topics**: whatever stands behind it, the reader keeps no topic. -/
theorem readTopicsInfo_of_nodesText {n : NodesInfo} {s : Registry D} {r : List UInt8}
    (hsec : topicSection s.shm = .ok (nodesText D n ++ r)) :
    readTopicsInfo_ s = clearTopicCount s := by
  have hblank : ¬ (nodesText D n ++ r).all isSpace = true := not_all_isSpace _ r
  have hthrows : ∃ e, parseTopicsInfo s = .error (.throws e) s := by
    cases hd : (deserialize (nodesText D n ++ r) : Except Abort (JsonValue D)) with
    | error a =>
      obtain ⟨e, rfl, -⟩ := deserialize_onlyThrows _ a hd
      exact ⟨e, parseTopicsInfo_of_throws hsec hblank hd⟩
    | ok v =>
      let m : Message D := (plain_nodes n : Plain (.object _ : JsonValue D)).message
      have hb : m.val.NoBackspace := by
        by_contra hb
        obtain ⟨e, he⟩ := deserialize_backspace m hb r
        cases hd.symm.trans he
      obtain ⟨rfl, -⟩ := (deserialize_append (derives_message m hb) rfl).1 hd
      obtain ⟨buf, hbuf, hstr⟩ := Except.bind_eq_ok hsec
      unfold parseTopicsInfo
      rw [Op.get_bind, Op.bind_ok (liftE_ok hbuf _), Op.bind_ok (liftE_ok hstr _), if_neg hblank,
        Op.bind_ok (liftE_ok hd _)]
      exact ⟨_, Op.bind_error (liftE_error (atKey_topic_count n) _)⟩
  obtain ⟨e, he⟩ := hthrows
  exact catchStd_throws he

/-- **Behind the unlocked writers a reader finds no topics.** -/
theorem readTopicsInfo_of_unlocked {s u : Registry D} (h : writeRegistryToShmUnlocked_ s = .ok () u)
    (hsize : TOPIC_INFO_SIZE ≤ s.shm.size) (hlt : (nodesText D s.mgr.nodes_).length ≤ TOPIC_INFO_SIZE)
    (hnul : 0 ∈ ByteMem.read u.shm.mem 0 TOPIC_INFO_SIZE) : readTopicsInfo_ u = clearTopicCount u := by
  have hbytes : ∃ r, ByteMem.read u.shm.mem 0 TOPIC_INFO_SIZE = nodesText D s.mgr.nodes_ ++ r := by
    have hmem : u.shm.mem = ByteMem.write (s.store (topicsText D s.mgr.topics_) 0).shm.mem 0
        (nodesText D s.mgr.nodes_) := by
      rw [writeRegistryToShmUnlocked_eq_ok h]
      rfl
    rw [hmem, ByteMem.read_write_of_le _ _ _ _ hlt]
    exact ⟨_, rfl⟩
  obtain ⟨r, hr⟩ := hbytes
  have hne : ∀ b ∈ nodesText D s.mgr.nodes_, b ≠ 0 := serialize_ne_zero _ (plain_nodes _)
  have hsec : topicSection u.shm = .ok (nodesText D s.mgr.nodes_ ++ ByteMem.cstr r) := by
    have hread : u.shm.read TOPIC_INFO_SIZE 0 = .ok (nodesText D s.mgr.nodes_ ++ r) := by
      rw [Region.read_of_le (by rw [size_of_unlocked h]; omega), hr]
    rw [hr] at hnul
    unfold topicSection stringOf
    rw [hread, Except.ok_bind, if_pos hnul, ByteMem.cstr_append_of_ne _ _ hne]
  exact readTopicsInfo_of_nodesText hsec

end MiniRos2

import MiniRos2.TextLength
/-!
# TextSize — whether the texts of the tables fit into their sections

A section is as large as the C struct of its table, and holds the table's text, which is longer than the struct where
entries are short of bytes and long of key names.  Its exact size is a sum over the entries (`length_nodesText_eq`,
`length_topicsText_eq`), and a table whose size is not below the section's reaches behind it (`inSections_iff`); no node
table with 13 entries fits, whatever is in it (`not_inSections_of_many`).
-/
namespace MiniRos2

open JsonValue (escapeString escapeByte serializeElems serializeMembers)

/-! ## The size of a text -/

/-- The bytes before which `escapeString` puts a backslash. -/
def isEscaped (c : UInt8) : Bool := [chQuote, chBackslash, 8, 12, 10, 13, 9].contains c

def escapedSize (s : List UInt8) : Nat := s.length + s.countP isEscaped

/-- The number of digits of a number that is not negative. -/
def numeralSize (x : Int32) : Nat := Nat.log 10 x.toInt.toNat + 1

theorem length_escapeString (s : List UInt8) : (escapeString s).length = escapedSize s := by
  induction s with
  | nil => rfl
  | cons c s ih =>
    have hbyte : (escapeByte c).length = if isEscaped c then 2 else 1 := by
      unfold escapeByte isEscaped
      simp only [List.contains_cons, List.contains_nil, Bool.or_false, Bool.or_eq_true, beq_iff_eq]
      split_ifs <;> simp_all
    unfold escapeString at ih ⊢
    rw [List.flatMap_cons, List.length_append, ih, hbyte]
    unfold escapedSize
    rw [List.length_cons, List.countP_cons]
    split <;> omega

theorem length_printInt {x : Int32} (h : 0 ≤ x.toInt) : (printInt x.toInt).length = numeralSize x := by
  have habs : x.toInt.natAbs = x.toInt.toNat := by omega
  unfold printInt numeralSize Decimal.digits
  rw [if_neg (by omega), habs]
  by_cases h0 : x.toInt.toNat = 0
  · rw [if_pos h0, h0]
    simp
  · rw [if_neg h0, List.length_map, List.length_reverse, Nat.length_digits 10 _ (by decide) h0]

section Texts

variable {D : Type} [DoubleText D]

theorem length_serializeElems : ∀ (xs : List (JsonValue D)) (i : Nat), (serializeElems i xs).length =
    (xs.map (fun x => x.serialize.length)).sum + if i = 0 then xs.length - 1 else xs.length
  | [], i => by simp [serializeElems]
  | x :: xs, i => by
    rw [serializeElems, List.length_append, List.length_append, length_serializeElems xs (i + 1)]
    by_cases hi : i = 0
    · simp [hi]
      omega
    · simp [hi, Nat.pos_of_ne_zero hi]
      omega

/-- The size of a member without the comma in front of it. -/
def memberSize (kv : List UInt8 × JsonValue D) : Nat := escapedSize kv.1 + kv.2.serialize.length + 3

theorem length_serializeMembers : ∀ (kvs : List (List UInt8 × JsonValue D)) (i : Nat),
    (serializeMembers i kvs).length =
      (kvs.map memberSize).sum + if i = 0 then kvs.length - 1 else kvs.length
  | [], i => by simp [serializeMembers]
  | (k, v) :: kvs, i => by
    rw [serializeMembers, List.length_append, List.length_cons, List.length_append, List.length_cons, List.length_cons,
      List.length_append, length_serializeMembers kvs (i + 1), length_escapeString]
    by_cases hi : i = 0
    · simp [hi, memberSize]
      omega
    · simp [hi, memberSize, Nat.pos_of_ne_zero hi]
      omega

/-- **The order of the members does not matter for an object's size.** -/
theorem length_object {l : List (List UInt8 × JsonValue D)} (h : (l.map Prod.fst).Nodup) :
    (JsonValue.object (OrdMap.ofList l)).serialize.length = (l.map memberSize).sum + (l.length - 1) + 2 := by
  have hperm := OrdMap.ofList_perm h
  rw [JsonValue.serialize, List.length_cons, List.length_append, length_serializeMembers, if_pos rfl, hperm.length_eq,
    (hperm.map memberSize).sum_eq]
  rfl

theorem length_elems_range (f : Nat → JsonValue D) (n : Nat) : (serializeElems 0 ((List.range n).map f)).length =
    ((List.range n).map (fun i => (f i).serialize.length)).sum + (n - 1) := by
  rw [length_serializeElems, if_pos rfl, List.map_map, List.length_map, List.length_range]
  rfl

end Texts

/-! ## The tables -/

/-- 102 bytes are keys and punctuation. -/
def NodeInfo.textSize (n : NodeInfo) : Nat := 102 + numeralSize n.node_id + numeralSize n.pid +
  numeralSize n.pub_topic_count + numeralSize n.sub_topic_count + escapedSize n.node_name.bytes +
  (if n.is_alive then 4 else 5) + numeralSize n.last_heartbeat

def NodesInfo.textSize (n : NodesInfo) : Nat := 46 + numeralSize n.alive_node_count + numeralSize n.nodes_count +
  ((List.range n.count).map (fun i => (n.nodes i).textSize)).sum + (n.count - 1)

/-- An entry is at least 111 bytes. -/
theorem NodesInfo.le_textSize (n : NodesInfo) : 46 + n.count * 111 ≤ n.textSize := by
  have hentry : ∀ x ∈ (List.range n.count).map (fun i => (n.nodes i).textSize), 111 ≤ x := by
    intro x hx
    obtain ⟨i, -, rfl⟩ := List.mem_map.1 hx
    unfold NodeInfo.textSize numeralSize
    split <;> omega
  have hsum := List.card_nsmul_le_sum _ 111 hentry
  rw [List.length_map, List.length_range, smul_eq_mul] at hsum
  unfold NodesInfo.textSize
  omega

def TopicInfo.textSize (t : TopicInfo) : Nat := 23 + numeralSize t.event_id_ + escapedSize t.name_.bytes

def TopicsInfo.textSize (t : TopicsInfo) : Nat := 28 + numeralSize t.topics_count +
  ((List.range t.count).map (fun i => (t.topics i).textSize)).sum + (t.count - 1)

/-- **A node table within its declared capacity**; that names fit is part of their type. -/
structure NodesInfo.Declared (n : NodesInfo) : Prop where
  valid : n.Valid
  alive : 0 ≤ n.alive_node_count.toInt
  nonneg : ∀ i, i < n.count → 0 ≤ (n.nodes i).node_id.toInt ∧ 0 ≤ (n.nodes i).pid.toInt ∧
    0 ≤ (n.nodes i).pub_topic_count.toInt ∧ 0 ≤ (n.nodes i).sub_topic_count.toInt ∧ 0 ≤ (n.nodes i).last_heartbeat.toInt

structure TopicsInfo.Declared (t : TopicsInfo) : Prop where
  valid : t.Valid
  nonneg : ∀ i, i < t.count → 0 ≤ (t.topics i).event_id_.toInt

section Tables

variable {D : Type} [DoubleText D]

theorem length_nodeJson {n : NodeInfo} (h₁ : 0 ≤ n.node_id.toInt) (h₂ : 0 ≤ n.pid.toInt)
    (h₃ : 0 ≤ n.pub_topic_count.toInt) (h₄ : 0 ≤ n.sub_topic_count.toInt) (h₅ : 0 ≤ n.last_heartbeat.toInt) :
    (nodeJson n : JsonValue D).serialize.length = n.textSize := by
  have hkeys : escapedSize (utf8 "node_id") = 7 ∧ escapedSize (utf8 "pid") = 3 ∧
      escapedSize (utf8 "pub_topic_count") = 15 ∧ escapedSize (utf8 "sub_topic_count") = 15 ∧
      escapedSize (utf8 "node_name") = 9 ∧ escapedSize (utf8 "is_alive") = 8 ∧
      escapedSize (utf8 "last_heartbeat") = 14 := by decide +kernel
  have hbool : (JsonValue.bool n.is_alive : JsonValue D).serialize.length = if n.is_alive then 4 else 5 := by
    rw [JsonValue.serialize]
    cases n.is_alive <;> rfl
  obtain ⟨k₁, k₂, k₃, k₄, k₅, k₆, k₇⟩ := hkeys
  rw [nodeJson, length_object (nodeFields_nodup n)]
  simp only [nodeFields, List.map_cons, List.map_nil, List.sum_cons, List.sum_nil, memberSize, List.length_cons,
    List.length_nil, hbool, k₁, k₂, k₃, k₄, k₅, k₆, k₇]
  simp only [JsonValue.serialize, List.length_cons, List.length_append, List.length_nil, length_printInt h₁,
    length_printInt h₂, length_printInt h₃, length_printInt h₄, length_printInt h₅, length_escapeString]
  unfold NodeInfo.textSize
  omega

theorem length_topicJson {t : TopicInfo} (h : 0 ≤ t.event_id_.toInt) :
    (topicJson t : JsonValue D).serialize.length = t.textSize := by
  have hkeys : escapedSize (utf8 "topic_id") = 8 ∧ escapedSize (utf8 "name") = 4 := by decide +kernel
  obtain ⟨k₁, k₂⟩ := hkeys
  rw [topicJson, length_object (topicFields_nodup t)]
  simp only [topicFields, List.map_cons, List.map_nil, List.sum_cons, List.sum_nil, memberSize, List.length_cons,
    List.length_nil, k₁, k₂]
  simp only [JsonValue.serialize, List.length_cons, List.length_append, List.length_nil, length_printInt h,
    length_escapeString]
  unfold TopicInfo.textSize
  omega

/-- **The exact size of a node table's text.** -/
theorem length_nodesText_eq {n : NodesInfo} (h : n.Declared) : (nodesText D n).length = n.textSize := by
  have hframe : nodesFrame = 46 := by decide +kernel
  have hentries : (List.range n.count).map (fun i => (nodeJson (n.nodes i) : JsonValue D).serialize.length) =
      (List.range n.count).map (fun i => (n.nodes i).textSize) := by
    refine List.map_congr_left fun i hi => ?_
    obtain ⟨h₁, h₂, h₃, h₄, h₅⟩ := h.nonneg i (List.mem_range.1 hi)
    exact length_nodeJson h₁ h₂ h₃ h₄ h₅
  rw [length_nodesText, length_elems_range, hentries, hframe, length_printInt h.alive, length_printInt h.valid.1]
  unfold NodesInfo.textSize
  omega

theorem length_topicsText_eq {t : TopicsInfo} (h : t.Declared) : (topicsText D t).length = t.textSize := by
  have hframe : topicsFrame = 28 := by decide +kernel
  have hentries : (List.range t.count).map (fun i => (topicJson (t.topics i) : JsonValue D).serialize.length) =
      (List.range t.count).map (fun i => (t.topics i).textSize) :=
    List.map_congr_left fun i hi => length_topicJson (h.nonneg i (List.mem_range.1 hi))
  rw [length_topicsText, length_elems_range, hentries, hframe, length_printInt h.valid.1]
  unfold TopicsInfo.textSize
  omega

/-- **The tables stay in their sections**: their texts are shorter, so that a write returns and leaves the other section
as it was. -/
structure InSections (D : Type) [DoubleText D] (n : NodesInfo) (t : TopicsInfo) : Prop where
  nodes_lt : (nodesText D n).length < NODE_INFO_SIZE
  topics_lt : (topicsText D t).length < TOPIC_INFO_SIZE
  writeNodes : ∀ s : Registry D, s.shm.size = sizeofShmHead + MAX_SHM_MANGER_SIZE → s.mgr.nodes_ = n →
    ∃ s', writeNodesInfo_ s = .ok () s' ∧
      ByteMem.read s'.shm.mem 0 TOPIC_INFO_SIZE = ByteMem.read s.shm.mem 0 TOPIC_INFO_SIZE
  writeTopics : ∀ s : Registry D, s.shm.size = sizeofShmHead + MAX_SHM_MANGER_SIZE → s.mgr.topics_ = t →
    ∃ s', writeTopicsInfo_ s = .ok () s' ∧
      ByteMem.read s'.shm.mem TOPIC_INFO_SIZE NODE_INFO_SIZE = ByteMem.read s.shm.mem TOPIC_INFO_SIZE NODE_INFO_SIZE

theorem inSections_of_lt {n : NodesInfo} {t : TopicsInfo} (hn : n.Valid) (ht : t.Valid)
    (hnodes : (nodesText D n).length < NODE_INFO_SIZE) (htopics : (topicsText D t).length < TOPIC_INFO_SIZE) :
    InSections D n t := by
  constructor
  · exact hnodes
  · exact htopics
  · rintro s hsize rfl
    have hle : TOPIC_INFO_SIZE + (nodesText D s.mgr.nodes_).length ≤ s.shm.size := by
      rw [hsize]
      exact Nat.le_trans (Nat.add_le_add_left hnodes.le _) (by decide)
    rw [writeNodesInfo_of_valid hn, shmWrite_of_le hle]
    exact ⟨_, rfl, ByteMem.read_write_disjoint _ _ _ _ _ (.inl (by omega))⟩
  · rintro s hsize rfl
    have hend : 0 + (topicsText D s.mgr.topics_).length ≤ TOPIC_INFO_SIZE := by omega
    have hle : 0 + (topicsText D s.mgr.topics_).length ≤ s.shm.size := by
      rw [hsize]
      exact Nat.le_trans hend (by decide)
    have hkeep := ByteMem.read_write_disjoint s.shm.mem TOPIC_INFO_SIZE 0 NODE_INFO_SIZE _ (.inr hend)
    rw [writeTopicsInfo_of_valid ht, shmWrite_of_le hle]
    exact ⟨_, rfl, hkeep⟩

/-- **Tables within their declared capacity stay in their sections exactly when their sizes do.** -/
theorem inSections_iff {n : NodesInfo} {t : TopicsInfo} (hn : n.Declared) (ht : t.Declared) :
    InSections D n t ↔ n.textSize < NODE_INFO_SIZE ∧ t.textSize < TOPIC_INFO_SIZE := by
  rw [← length_nodesText_eq (D := D) hn, ← length_topicsText_eq (D := D) ht]
  constructor
  · exact fun h => ⟨h.nodes_lt, h.topics_lt⟩
  · exact fun ⟨hnodes, htopics⟩ => inSections_of_lt hn.valid ht.valid hnodes htopics

/-- **No node table with 13 entries fits**, whatever they are. -/
theorem not_inSections_of_many {n : NodesInfo} {t : TopicsInfo} (hn : n.Declared) (h : 13 ≤ n.count) :
    ¬ InSections D n t := by
  intro hin
  have hlt := hin.nodes_lt
  have hsize := n.le_textSize
  rw [length_nodesText_eq hn] at hlt
  unfold NODE_INFO_SIZE at hlt
  omega

theorem numeralSize_le (x : Int32) : numeralSize x ≤ 10 := by
  have hlt : x.toInt.toNat < 10 ^ 10 := by have := Int32.toInt_lt x; omega
  exact Nat.log_lt_of_lt_pow' (by decide) hlt

theorem CName.escapedSize_le (name : CName) : escapedSize name.bytes ≤ 126 := by
  have hlen := name.length_lt
  have hcount := List.countP_le_length (p := isEscaped) (l := name.bytes)
  unfold MAX_NAME_LEN at hlen
  unfold escapedSize
  omega

/-- The entries of topics whose names take at most `k` bytes. -/
theorem TopicsInfo.sum_textSize_le {t : TopicsInfo} {k : Nat}
    (h : ∀ i, i < t.count → escapedSize (t.topics i).name_.bytes ≤ k) :
    ((List.range t.count).map (fun i => (t.topics i).textSize)).sum ≤ t.count * (33 + k) := by
  have hentry : ∀ x ∈ (List.range t.count).map (fun i => (t.topics i).textSize), x ≤ 33 + k := by
    intro x hx
    obtain ⟨i, hi, rfl⟩ := List.mem_map.1 hx
    have hname := h i (List.mem_range.1 hi)
    have hid := numeralSize_le (t.topics i).event_id_
    unfold TopicInfo.textSize
    omega
  have hsum := List.sum_le_card_nsmul _ (33 + k) hentry
  rwa [List.length_map, List.length_range, smul_eq_mul] at hsum

/-- **Tables that always fit**: four nodes and 435 topics, whatever their names are. -/
theorem inSections_of_few {n : NodesInfo} {t : TopicsInfo} (hn : n.Declared) (ht : t.Declared) (hfour : n.count ≤ 4)
    (hfew : t.count ≤ 435) : InSections D n t := by
  have hnode : ∀ x ∈ (List.range n.count).map (fun i => (n.nodes i).textSize), x ≤ 283 := by
    intro x hx
    obtain ⟨i, -, rfl⟩ := List.mem_map.1 hx
    have h₁ := numeralSize_le (n.nodes i).node_id
    have h₂ := numeralSize_le (n.nodes i).pid
    have h₃ := numeralSize_le (n.nodes i).pub_topic_count
    have h₄ := numeralSize_le (n.nodes i).sub_topic_count
    have h₅ := numeralSize_le (n.nodes i).last_heartbeat
    have h₆ := (n.nodes i).node_name.escapedSize_le
    unfold NodeInfo.textSize
    split <;> omega
  have hnodes := List.sum_le_card_nsmul _ 283 hnode
  have htopics := TopicsInfo.sum_textSize_le (t := t) fun i _ => (t.topics i).name_.escapedSize_le
  rw [List.length_map, List.length_range, smul_eq_mul] at hnodes
  rw [inSections_iff hn ht]
  unfold NodesInfo.textSize TopicsInfo.textSize NODE_INFO_SIZE TOPIC_INFO_SIZE
  have h₁ := numeralSize_le n.alive_node_count
  have h₂ := numeralSize_le n.nodes_count
  have h₃ : numeralSize t.topics_count ≤ 3 := by
    have hlt : t.topics_count.toInt.toNat < 10 ^ 3 := Nat.lt_of_le_of_lt hfew (by decide)
    exact Nat.log_lt_of_lt_pow' (by decide) hlt
  omega

end Tables

/-- The first slots taken, by nodes without a name. -/
def aliveNodes (k : Int32) : NodesInfo := ⟨k, k, fun i => ⟨i.toInt32, 1000, 0, 0, true, 0, CName.empty⟩⟩

theorem aliveNodes_declared {k : Int32} (h : 0 ≤ k.toInt) (hle : k.toInt ≤ MAX_NODE_COUNT) :
    (aliveNodes k).Declared := by
  have hcount : (aliveNodes k).count ≤ MAX_NODE_COUNT := by
    show k.toInt.toNat ≤ MAX_NODE_COUNT
    omega
  have hid : ∀ i, i < MAX_NODE_COUNT → 0 ≤ i.toInt32.toInt := by decide
  constructor
  · exact ⟨h, hcount⟩
  · exact h
  · intro i hi
    have hpid : 0 ≤ (1000 : Int32).toInt := by decide
    have hzero : 0 ≤ (0 : Int32).toInt := by decide
    exact ⟨hid i (by omega), hpid, hzero, hzero, hzero⟩

theorem zero_declared : TopicsInfo.zero.Declared :=
  ⟨⟨by decide, Nat.zero_le _⟩, fun i hi => absurd hi (Nat.not_lt_zero i)⟩

/-- Sixteen nodes, as many as there are slots. -/
theorem not_inSections_of_sixteen : (aliveNodes 16).Declared ∧ TopicsInfo.zero.Declared ∧
    ¬ InSections (List UInt8) (aliveNodes 16) TopicsInfo.zero := by
  have hn : (aliveNodes 16).Declared := aliveNodes_declared (by decide) (by decide)
  exact ⟨hn, zero_declared, not_inSections_of_many hn (by decide)⟩

/-- Two nodes fit. -/
theorem inSections_of_two : InSections (List UInt8) (aliveNodes 2) TopicsInfo.zero :=
  (inSections_iff (aliveNodes_declared (by decide) (by decide)) zero_declared).2 (by decide +kernel)

end MiniRos2

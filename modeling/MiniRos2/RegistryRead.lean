import MiniRos2.RegistryText
/-!
# RegistryRead — reading a section of the registry region

What a reader makes of its section depends on the C string there: the table's text alone is loaded
(`readNodesInfo_of_text`, `readTopicsInfo_of_text`) and nothing but blanks is an empty table.  A text with the rest of
an older one behind it, and the text of a table with a backspace in one of its names, make the parser throw, which the
reader also turns into an empty table (`readNodesInfo_of_residue`, `readNodesInfo_seen`, `readTopicsInfo_seen`).
-/
namespace MiniRos2

open ByteMem (Filled)

variable {D : Type} [DoubleText D]

/-- The counts for which a table has a text. -/
def NodesInfo.Valid (n : NodesInfo) : Prop := 0 ≤ n.nodes_count.toInt ∧ n.count ≤ MAX_NODE_COUNT
def TopicsInfo.Valid (t : TopicsInfo) : Prop := 0 ≤ t.topics_count.toInt ∧ t.count ≤ MAX_TOPICS_PER_NODE

instance (n : NodesInfo) : Decidable n.Valid := inferInstanceAs (Decidable (_ ∧ _))

def nodesText (D : Type) [DoubleText D] (n : NodesInfo) : List UInt8 :=
  (JsonValue.object (OrdMap.ofList (nodesFields n)) : JsonValue D).serialize

def topicsText (D : Type) [DoubleText D] (t : TopicsInfo) : List UInt8 :=
  (JsonValue.object (OrdMap.ofList (topicsFields t)) : JsonValue D).serialize

omit [DoubleText D] in
theorem nodesJson_of_valid {n : NodesInfo} (h : n.Valid) :
    nodesJson n = .ok (.object (OrdMap.ofList (nodesFields n)) : JsonValue D) := by
  have hc := h.2
  unfold nodesJson jsonArray
  rw [if_neg (by have := h.1; omega), Except.ok_bind, if_neg (by omega)]

omit [DoubleText D] in
theorem topicsJson_of_valid {t : TopicsInfo} (h : t.Valid) :
    topicsJson t = .ok (.object (OrdMap.ofList (topicsFields t)) : JsonValue D) := by
  have hc := h.2
  unfold topicsJson jsonArray
  rw [if_neg (by have := h.1; omega), Except.ok_bind, if_neg (by omega)]

theorem deserialize_nodesText {n : NodesInfo} (h : n.Legible) :
    deserialize (nodesText D n) = .ok (.object (OrdMap.ofList (nodesFields n)) : JsonValue D) :=
  deserialize_serialize (plain_nodes n).message ((noBackspace_nodes n).2 h)

theorem deserialize_topicsText {t : TopicsInfo} (h : t.Legible) :
    deserialize (topicsText D t) = .ok (.object (OrdMap.ofList (topicsFields t)) : JsonValue D) :=
  deserialize_serialize (plain_topics t).message ((noBackspace_topics t).2 h)

theorem not_all_isSpace (kvs : List (List UInt8 × JsonValue D)) (r : List UInt8) :
    ¬ ((JsonValue.object kvs).serialize ++ r).all isSpace = true := by
  rw [JsonValue.serialize, List.cons_append, List.all_cons, Bool.and_eq_true, not_and_or]
  exact .inl (by decide)

/-! ## The loops over the entries -/

/-- The table with the first entries loaded from `n`. -/
def NodesInfo.load (n old : NodesInfo) : NodesInfo :=
  ⟨n.nodes_count, n.alive_node_count, fun i => if i < n.count then n.nodes i else old.nodes i⟩

def TopicsInfo.load (t old : TopicsInfo) : TopicsInfo :=
  ⟨t.topics_count, fun i => if i < t.count then t.topics i else old.topics i⟩

omit [DoubleText D] in
theorem readNode_nodes (n : NodesInfo) {i : Nat} (hi : i < n.count) (hc : n.count ≤ MAX_NODE_COUNT)
    (s : Registry D) :
    readNode (.object (OrdMap.ofList (nodesFields n))) i s =
      .ok () (s.mapNodes (NodesInfo.set i (fun _ => n.nodes i))) := by
  have hfield : ∀ {key : String} {v : JsonValue D}, (utf8 key, v) ∈ nodeFields (n.nodes i) →
      entryField (.object (OrdMap.ofList (nodesFields n))) "nodes" i key = .ok v := nodes_entryField n hi
  have hint : ∀ (key : String) (x : Int32), (utf8 key, (.int x : JsonValue D)) ∈ nodeFields (n.nodes i) →
      (entryField (.object (OrdMap.ofList (nodesFields n)) : JsonValue D) "nodes" i key >>= JsonValue.asInt) = .ok x :=
    fun key x h => by rw [hfield h]; rfl
  have hname : (entryField (.object (OrdMap.ofList (nodesFields n)) : JsonValue D) "nodes" i "node_name" >>=
      JsonValue.asString >>= strcpy) = .ok (n.nodes i).node_name := by
    rw [hfield (v := .string (n.nodes i).node_name.bytes) (by simp [nodeFields])]
    exact strcpy_bytes _
  have hbool : (entryField (.object (OrdMap.ofList (nodesFields n)) : JsonValue D) "nodes" i "is_alive" >>=
      JsonValue.asBool) = .ok (n.nodes i).is_alive := by
    rw [hfield (v := .bool (n.nodes i).is_alive) (by simp [nodeFields])]
    rfl
  unfold readNode
  rw [Op.bind_ok (liftE_ok (hint "node_id" (n.nodes i).node_id (by simp [nodeFields])) _),
    Op.bind_ok (liftE_ok (arraySlot_of_lt (by omega)) _),
    Op.bind_ok (modifyNodes_eq _ _),
    Op.bind_ok (liftE_ok (hint "pid" (n.nodes i).pid (by simp [nodeFields])) _), Op.bind_ok (modifyNodes_eq _ _),
    Op.bind_ok (liftE_ok (hint "pub_topic_count" (n.nodes i).pub_topic_count (by simp [nodeFields])) _),
    Op.bind_ok (modifyNodes_eq _ _),
    Op.bind_ok (liftE_ok (hint "sub_topic_count" (n.nodes i).sub_topic_count (by simp [nodeFields])) _),
    Op.bind_ok (modifyNodes_eq _ _), Op.bind_ok (liftE_ok hname _), Op.bind_ok (modifyNodes_eq _ _),
    Op.bind_ok (liftE_ok hbool _), Op.bind_ok (modifyNodes_eq _ _),
    Op.bind_ok (liftE_ok (hint "last_heartbeat" (n.nodes i).last_heartbeat (by simp [nodeFields])) _), modifyNodes_eq]
  simp only [Registry.mapNodes_mapNodes, NodesInfo.set_set]

omit [DoubleText D] in
theorem readTopic_topics (t : TopicsInfo) {i : Nat} (hi : i < t.count) (hc : t.count ≤ MAX_TOPICS_PER_NODE)
    (s : Registry D) :
    readTopic (.object (OrdMap.ofList (topicsFields t))) i s =
      .ok () (s.mapTopics (TopicsInfo.set i (fun _ => t.topics i))) := by
  have hid : (entryField (.object (OrdMap.ofList (topicsFields t)) : JsonValue D) "topics" i "topic_id" >>=
      JsonValue.asInt) = .ok (t.topics i).event_id_ := by
    rw [topics_entryField t hi (v := .int (t.topics i).event_id_) (by simp [topicFields])]
    rfl
  have hname : (entryField (.object (OrdMap.ofList (topicsFields t)) : JsonValue D) "topics" i "name" >>=
      JsonValue.asString >>= strcpy) = .ok (t.topics i).name_ := by
    rw [topics_entryField t hi (v := .string (t.topics i).name_.bytes) (by simp [topicFields])]
    exact strcpy_bytes _
  unfold readTopic
  rw [Op.bind_ok (liftE_ok hid _), Op.bind_ok (liftE_ok (arraySlot_of_lt (by omega)) _),
    Op.bind_ok (modifyTopics_eq _ _), Op.bind_ok (liftE_ok hname _), modifyTopics_eq]
  simp only [Registry.mapTopics_mapTopics, TopicsInfo.set_set]

/-- The slots from `i` up to `j` taken from `new`. -/
def loadSlots {α : Type} (new : Nat → α) (i j : Nat) (old : Nat → α) : Nat → α :=
  fun k => if i ≤ k ∧ k < j then new k else old k

theorem loadSlots_self {α : Type} (new : Nat → α) (i : Nat) (old : Nat → α) : loadSlots new i i old = old := by
  funext k
  exact if_neg (by omega)

theorem loadSlots_update {α : Type} (new : Nat → α) (i k : Nat) (old : Nat → α) :
    loadSlots new (i + 1) (i + 1 + k) (Function.update old i (new i)) = loadSlots new i (i + (k + 1)) old := by
  unfold loadSlots
  funext j
  by_cases hj : j = i
  · rw [if_neg (by omega), if_pos (by omega), hj, Function.update_self]
  · rw [Function.update_of_ne hj]
    by_cases hij : i + 1 ≤ j ∧ j < i + 1 + k
    · rw [if_pos hij, if_pos (by omega)]
    · rw [if_neg hij, if_neg (by omega)]

theorem loadSlots_zero {α : Type} (new : Nat → α) (j : Nat) (old : Nat → α) :
    loadSlots new 0 j old = fun k => if k < j then new k else old k := by
  funext k
  simp only [loadSlots, Nat.zero_le, true_and]

def NodesInfo.loadFrom (n : NodesInfo) (i j : Nat) (old : NodesInfo) : NodesInfo :=
  { old with nodes := loadSlots n.nodes i j old.nodes }

def TopicsInfo.loadFrom (t : TopicsInfo) (i j : Nat) (old : TopicsInfo) : TopicsInfo :=
  { old with topics := loadSlots t.topics i j old.topics }

omit [DoubleText D] in
/-- **A reader's loop**: where every turn puts its entry, the loop loads its range of entries. -/
theorem loop_loads (loop : Nat → Nat → Op D Unit) (load : Nat → Nat → Registry D → Registry D)
    {turn : Nat → Op D Unit} {put : Nat → Registry D → Registry D} {count : Nat} (hzero : ∀ i, loop i 0 = pure ())
    (hsucc : ∀ i k, loop i (k + 1) = turn i >>= fun _ => loop (i + 1) k)
    (hturn : ∀ i < count, ∀ s, turn i s = .ok () (put i s)) (hself : ∀ i s, load i i s = s)
    (hput : ∀ i k s, load (i + 1) (i + 1 + k) (put i s) = load i (i + (k + 1)) s) :
    ∀ (k i : Nat) (s : Registry D), i + k ≤ count → loop i k s = .ok () (load i (i + k) s)
  | 0, i, s, _ => by
    rw [hzero, Nat.add_zero, hself]
    rfl
  | k + 1, i, s, hk => by
    rw [hsucc, Op.bind_ok (hturn i (by omega) s), loop_loads loop load hzero hsucc hturn hself hput k (i + 1) _ (by omega),
      hput]

omit [DoubleText D] in
theorem readNodesFrom_nodes (n : NodesInfo) (hc : n.count ≤ MAX_NODE_COUNT) (s : Registry D) :
    readNodesFrom (.object (OrdMap.ofList (nodesFields n))) 0 n.count s =
      .ok () (s.mapNodes (n.loadFrom 0 n.count)) := by
  have h := loop_loads (readNodesFrom (.object (OrdMap.ofList (nodesFields n))))
    (fun i j s => s.mapNodes (n.loadFrom i j)) (fun _ => rfl) (fun _ _ => rfl)
    (fun i hi s => readNode_nodes n hi hc s) (fun i s => ?_) (fun i k s => ?_) n.count 0 s (by omega)
  · rwa [Nat.zero_add] at h
  · simp only [Registry.mapNodes, NodesInfo.loadFrom, loadSlots_self]
  · rw [Registry.mapNodes_mapNodes]
    simp only [Registry.mapNodes, NodesInfo.loadFrom, NodesInfo.set, loadSlots_update]

omit [DoubleText D] in
theorem readTopicsFrom_topics (t : TopicsInfo) (hc : t.count ≤ MAX_TOPICS_PER_NODE) (s : Registry D) :
    readTopicsFrom (.object (OrdMap.ofList (topicsFields t))) 0 t.count s =
      .ok () (s.mapTopics (t.loadFrom 0 t.count)) := by
  have h := loop_loads (readTopicsFrom (.object (OrdMap.ofList (topicsFields t))))
    (fun i j s => s.mapTopics (t.loadFrom i j)) (fun _ => rfl) (fun _ _ => rfl)
    (fun i hi s => readTopic_topics t hi hc s) (fun i s => ?_) (fun i k s => ?_) t.count 0 s (by omega)
  · rwa [Nat.zero_add] at h
  · simp only [Registry.mapTopics, TopicsInfo.loadFrom, loadSlots_self]
  · rw [Registry.mapTopics_mapTopics]
    simp only [Registry.mapTopics, TopicsInfo.loadFrom, TopicsInfo.set, loadSlots_update]

/-! ## The readers -/

/-- The C string in the node section, and in the topic section. -/
def nodeSection (r : Region) : Except Abort (List UInt8) := r.read NODE_INFO_SIZE TOPIC_INFO_SIZE >>= stringOf
def topicSection (r : Region) : Except Abort (List UInt8) := r.read TOPIC_INFO_SIZE 0 >>= stringOf

/-- **Read alone, the text of a node table gives the table.** -/
theorem parseNodesInfo_of_text {n : NodesInfo} (hn : n.Valid) (hl : n.Legible) {s : Registry D}
    (hsec : nodeSection s.shm = .ok (nodesText D n)) : parseNodesInfo s = .ok () (s.mapNodes n.load) := by
  obtain ⟨buf, hbuf, hstr⟩ := Except.bind_eq_ok hsec
  have hblank : ¬ (nodesText D n).all isSpace = true := by
    have := not_all_isSpace (OrdMap.ofList (nodesFields n : List (List UInt8 × JsonValue D))) []
    rwa [List.append_nil] at this
  have hcount : ((JsonValue.object (OrdMap.ofList (nodesFields n)) : JsonValue D).atKey (utf8 "node_count") >>=
      JsonValue.asInt) = .ok n.nodes_count := by
    rw [atKey_ofList (nodesFields_nodup n) (v := .int n.nodes_count) (by simp [nodesFields])]
    rfl
  have halive : ((JsonValue.object (OrdMap.ofList (nodesFields n)) : JsonValue D).atKey (utf8 "alive_node_count") >>=
      JsonValue.asInt) = .ok n.alive_node_count := by
    rw [atKey_ofList (nodesFields_nodup n) (v := .int n.alive_node_count) (by simp [nodesFields])]
    rfl
  unfold parseNodesInfo
  rw [Op.get_bind, Op.bind_ok (liftE_ok hbuf _), Op.bind_ok (liftE_ok hstr _),
    if_neg hblank, Op.bind_ok (liftE_ok (deserialize_nodesText hl) _), Op.bind_ok (liftE_ok hcount _),
    Op.bind_ok (modifyNodes_eq _ _), Op.bind_ok (liftE_ok halive _), Op.bind_ok (modifyNodes_eq _ _),
    show n.nodes_count.toInt.toNat = n.count from rfl, readNodesFrom_nodes n hn.2]
  simp only [Registry.mapNodes_mapNodes, NodesInfo.loadFrom, loadSlots_zero]
  rfl

theorem parseTopicsInfo_of_text {t : TopicsInfo} (ht : t.Valid) (hl : t.Legible) {s : Registry D}
    (hsec : topicSection s.shm = .ok (topicsText D t)) : parseTopicsInfo s = .ok () (s.mapTopics t.load) := by
  obtain ⟨buf, hbuf, hstr⟩ := Except.bind_eq_ok hsec
  have hblank : ¬ (topicsText D t).all isSpace = true := by
    have := not_all_isSpace (OrdMap.ofList (topicsFields t : List (List UInt8 × JsonValue D))) []
    rwa [List.append_nil] at this
  have hcount : ((JsonValue.object (OrdMap.ofList (topicsFields t)) : JsonValue D).atKey (utf8 "topic_count") >>=
      JsonValue.asInt) = .ok t.topics_count := by
    rw [atKey_ofList (topicsFields_nodup t) (v := .int t.topics_count) (by simp [topicsFields])]
    rfl
  unfold parseTopicsInfo
  rw [Op.get_bind, Op.bind_ok (liftE_ok hbuf _), Op.bind_ok (liftE_ok hstr _),
    if_neg hblank, Op.bind_ok (liftE_ok (deserialize_topicsText hl) _), Op.bind_ok (liftE_ok hcount _),
    Op.bind_ok (modifyTopics_eq _ _), show t.topics_count.toInt.toNat = t.count from rfl,
    readTopicsFrom_topics t ht.2]
  simp only [Registry.mapTopics_mapTopics, TopicsInfo.loadFrom, loadSlots_zero]
  rfl

omit [DoubleText D] in
theorem catchStd_ok {x handler : Op D Unit} {s t : Registry D} (h : x s = .ok () t) :
    catchStd x handler s = .ok () t := by
  unfold catchStd
  rw [h]

omit [DoubleText D] in
theorem catchStd_throws {x handler : Op D Unit} {s t : Registry D} {e : Exn} (h : x s = .error (.throws e) t) :
    catchStd x handler s = handler t := by
  unfold catchStd
  rw [h]

theorem readNodesInfo_of_text {n : NodesInfo} (hn : n.Valid) (hl : n.Legible) {s : Registry D}
    (hsec : nodeSection s.shm = .ok (nodesText D n)) : readNodesInfo_ s = .ok () (s.mapNodes n.load) :=
  catchStd_ok (parseNodesInfo_of_text hn hl hsec)

theorem readTopicsInfo_of_text {t : TopicsInfo} (ht : t.Valid) (hl : t.Legible) {s : Registry D}
    (hsec : topicSection s.shm = .ok (topicsText D t)) : readTopicsInfo_ s = .ok () (s.mapTopics t.load) :=
  catchStd_ok (parseTopicsInfo_of_text ht hl hsec)

/-! ## Texts that are not parsed -/

theorem parseNodesInfo_of_throws {s : Registry D} {text : List UInt8} {e : Exn}
    (hsec : nodeSection s.shm = .ok text) (hblank : ¬ text.all isSpace = true)
    (he : (deserialize text : Except Abort (JsonValue D)) = .error (.throws e)) :
    parseNodesInfo s = .error (.throws e) s := by
  obtain ⟨buf, hbuf, hstr⟩ := Except.bind_eq_ok hsec
  unfold parseNodesInfo
  rw [Op.get_bind, Op.bind_ok (liftE_ok hbuf _), Op.bind_ok (liftE_ok hstr _), if_neg hblank]
  exact Op.bind_error (liftE_error he _)

theorem parseTopicsInfo_of_throws {s : Registry D} {text : List UInt8} {e : Exn}
    (hsec : topicSection s.shm = .ok text) (hblank : ¬ text.all isSpace = true)
    (he : (deserialize text : Except Abort (JsonValue D)) = .error (.throws e)) :
    parseTopicsInfo s = .error (.throws e) s := by
  obtain ⟨buf, hbuf, hstr⟩ := Except.bind_eq_ok hsec
  unfold parseTopicsInfo
  rw [Op.get_bind, Op.bind_ok (liftE_ok hbuf _), Op.bind_ok (liftE_ok hstr _), if_neg hblank]
  exact Op.bind_error (liftE_error he _)

def NodesInfo.clear (n : NodesInfo) : NodesInfo := { n with nodes_count := 0, alive_node_count := 0 }
def TopicsInfo.clear (t : TopicsInfo) : TopicsInfo := { t with topics_count := 0 }

/-- **With the rest of an older text behind it the node table's text is not parsed.** -/
theorem parseNodesInfo_of_residue {n : NodesInfo} {s : Registry D} {r : List UInt8}
    (hsec : nodeSection s.shm = .ok (nodesText D n ++ r)) (hr : r.getLast? = some chRBrace) :
    ∃ e, parseNodesInfo s = .error (.throws e) s := by
  obtain ⟨e, he⟩ := deserialize_residue (plain_nodes n : Plain (.object _ : JsonValue D)) hr
  exact ⟨e, parseNodesInfo_of_throws hsec (not_all_isSpace _ r) he⟩

theorem readNodesInfo_of_residue {n : NodesInfo} {s : Registry D} {r : List UInt8}
    (hsec : nodeSection s.shm = .ok (nodesText D n ++ r)) (hr : r.getLast? = some chRBrace) :
    readNodesInfo_ s = .ok () (s.mapNodes NodesInfo.clear) := by
  obtain ⟨e, he⟩ := parseNodesInfo_of_residue hsec hr
  unfold readNodesInfo_
  rw [catchStd_throws he]
  rfl

/-- **What a reader makes of the table's text**: a name with a backspace empties the table. -/
def NodesInfo.seen (n : NodesInfo) : NodesInfo := if n.Legible then n else NodesInfo.zero
def TopicsInfo.seen (t : TopicsInfo) : TopicsInfo := if t.Legible then t else TopicsInfo.zero

theorem NodesInfo.seen_of_legible {n : NodesInfo} (h : n.Legible) : n.seen = n := if_pos h

theorem TopicsInfo.seen_of_legible {t : TopicsInfo} (h : t.Legible) : t.seen = t := if_pos h

theorem NodesInfo.load_zero : NodesInfo.zero.load = NodesInfo.clear := by
  funext old
  have hnone : ∀ j, ¬ j < NodesInfo.zero.count := fun j => Nat.not_lt_zero j
  simp only [NodesInfo.load, hnone, if_false]
  rfl

theorem TopicsInfo.load_zero : TopicsInfo.zero.load = TopicsInfo.clear := by
  funext old
  have hnone : ∀ j, ¬ j < TopicsInfo.zero.count := fun j => Nat.not_lt_zero j
  simp only [TopicsInfo.load, hnone, if_false]
  rfl

theorem readNodesInfo_seen {n : NodesInfo} (hn : n.Valid) {s : Registry D}
    (hsec : nodeSection s.shm = .ok (nodesText D n)) : readNodesInfo_ s = .ok () (s.mapNodes n.seen.load) := by
  by_cases hl : n.Legible
  · rw [NodesInfo.seen_of_legible hl]
    exact readNodesInfo_of_text hn hl hsec
  · obtain ⟨e, he⟩ := deserialize_backspace (plain_nodes n : Plain (.object _ : JsonValue D)).message
      (fun hb => hl ((noBackspace_nodes n).1 hb)) []
    rw [List.append_nil] at he
    have hblank := not_all_isSpace (OrdMap.ofList (nodesFields n : List (List UInt8 × JsonValue D))) []
    rw [List.append_nil] at hblank
    unfold readNodesInfo_ NodesInfo.seen
    rw [catchStd_throws (parseNodesInfo_of_throws hsec hblank he), if_neg hl, NodesInfo.load_zero]
    rfl

theorem readTopicsInfo_seen {t : TopicsInfo} (ht : t.Valid) {s : Registry D}
    (hsec : topicSection s.shm = .ok (topicsText D t)) : readTopicsInfo_ s = .ok () (s.mapTopics t.seen.load) := by
  by_cases hl : t.Legible
  · rw [TopicsInfo.seen_of_legible hl]
    exact readTopicsInfo_of_text ht hl hsec
  · obtain ⟨e, he⟩ := deserialize_backspace (plain_topics t : Plain (.object _ : JsonValue D)).message
      (fun hb => hl ((noBackspace_topics t).1 hb)) []
    rw [List.append_nil] at he
    have hblank := not_all_isSpace (OrdMap.ofList (topicsFields t : List (List UInt8 × JsonValue D))) []
    rw [List.append_nil] at hblank
    unfold readTopicsInfo_ TopicsInfo.seen
    rw [catchStd_throws (parseTopicsInfo_of_throws hsec hblank he), if_neg hl, TopicsInfo.load_zero]
    rfl

theorem readNodesInfo_of_blank {s : Registry D} {w : List UInt8} (hsec : nodeSection s.shm = .ok w)
    (hw : w.all isSpace = true) : readNodesInfo_ s = .ok () (s.mapNodes NodesInfo.clear) := by
  obtain ⟨buf, hbuf, hstr⟩ := Except.bind_eq_ok hsec
  refine catchStd_ok ?_
  unfold parseNodesInfo
  rw [Op.get_bind, Op.bind_ok (liftE_ok hbuf _), Op.bind_ok (liftE_ok hstr _),
    if_pos hw]
  rfl

theorem readTopicsInfo_of_blank {s : Registry D} {w : List UInt8} (hsec : topicSection s.shm = .ok w)
    (hw : w.all isSpace = true) :
    readTopicsInfo_ s = .ok () (s.mapTopics TopicsInfo.clear) := by
  obtain ⟨buf, hbuf, hstr⟩ := Except.bind_eq_ok hsec
  refine catchStd_ok ?_
  unfold parseTopicsInfo
  rw [Op.get_bind, Op.bind_ok (liftE_ok hbuf _), Op.bind_ok (liftE_ok hstr _),
    if_pos hw]
  rfl

end MiniRos2

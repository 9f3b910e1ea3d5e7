import MiniRos2.JsonRoundTrip
import MiniRos2.ShmManager
/-!
# RegistryText — the texts of the registry's tables

The text of a table is the text of a message whose root is an object, without any NUL, ending in a brace.  Read alone
it gives the table back (`parseNodesInfo_of_text`, `parseTopicsInfo_of_text`), unless a name in it has a backspace
(`noBackspace_nodes`, `noBackspace_topics`); then, and with the rest of an older, longer text behind it
(`deserialize_residue`), the parser throws and the reader takes the table to be empty.
-/
namespace MiniRos2

variable {D : Type}

/-! ## Sequencing -/

theorem Op.bind_ok {α β : Type} {x : Op D α} {f : α → Op D β} {s t : Registry D} {a : α} (h : x s = .ok a t) :
    (x >>= f) s = f a t := by
  show EStateM.bind x f s = _
  unfold EStateM.bind
  rw [h]

theorem Op.bind_error {α β : Type} {x : Op D α} {f : α → Op D β} {s t : Registry D} {e : Abort}
    (h : x s = .error e t) : (x >>= f) s = .error e t := by
  show EStateM.bind x f s = _
  unfold EStateM.bind
  rw [h]

theorem Op.get_bind {α : Type} (f : Registry D → Op D α) (s : Registry D) : (get >>= f) s = f s s := rfl

theorem liftE_ok {α : Type} {x : Except Abort α} {a : α} (h : x = .ok a) (s : Registry D) :
    liftE x s = .ok a s := by rw [h]; rfl

theorem liftE_error {α : Type} {x : Except Abort α} {e : Abort} (h : x = .error e) (s : Registry D) :
    liftE x s = .error e s := by rw [h]; rfl

def Registry.mapNodes (s : Registry D) (f : NodesInfo → NodesInfo) : Registry D :=
  { s with mgr := { s.mgr with nodes_ := f s.mgr.nodes_ } }

def Registry.mapTopics (s : Registry D) (f : TopicsInfo → TopicsInfo) : Registry D :=
  { s with mgr := { s.mgr with topics_ := f s.mgr.topics_ } }

theorem modifyNodes_eq (f : NodesInfo → NodesInfo) (s : Registry D) : modifyNodes f s = .ok () (s.mapNodes f) := rfl

theorem modifyTopics_eq (f : TopicsInfo → TopicsInfo) (s : Registry D) :
    modifyTopics f s = .ok () (s.mapTopics f) := rfl

@[simp] theorem Registry.mapNodes_mapNodes (s : Registry D) (f g : NodesInfo → NodesInfo) :
    (s.mapNodes f).mapNodes g = s.mapNodes (fun n => g (f n)) := rfl

@[simp] theorem Registry.mapTopics_mapTopics (s : Registry D) (f g : TopicsInfo → TopicsInfo) :
    (s.mapTopics f).mapTopics g = s.mapTopics (fun t => g (f t)) := rfl

@[simp] theorem NodesInfo.set_set (i : Nat) (f g : NodeInfo → NodeInfo) (n : NodesInfo) :
    (n.set i f).set i g = n.set i (fun x => g (f x)) := by simp [NodesInfo.set]

@[simp] theorem TopicsInfo.set_set (i : Nat) (f g : TopicInfo → TopicInfo) (t : TopicsInfo) :
    (t.set i f).set i g = t.set i (fun x => g (f x)) := by simp [TopicsInfo.set]

theorem arraySlot_of_lt {bound i : Nat} (h : i < bound) : arraySlot bound (i : Int) = .ok i := by
  unfold arraySlot
  rw [if_pos (by omega)]
  rfl

theorem arraySlot_cases (bound : Nat) (i : Int) :
    (∃ j, arraySlot bound i = .ok j) ∨ arraySlot bound i = .error .undefined := by
  unfold arraySlot
  split
  · exact .inl ⟨_, rfl⟩
  · exact .inr rfl

theorem arraySlot_eq_ok {bound j : Nat} {i : Int} (h : arraySlot bound i = .ok j) : i = j ∧ j < bound := by
  unfold arraySlot at h
  split at h
  · cases h
    omega
  · cases h

theorem strcpy_bytes (n : CName) : strcpy n.bytes = .ok n := by
  have hc : ByteMem.cstr n.bytes = n.bytes := ByteMem.cstr_eq_self _ n.noNul
  unfold strcpy
  rw [dif_pos (by rw [hc]; exact n.length_lt)]
  congr 1
  exact CName.ext hc

/-! ## The entries of a text -/

theorem atKey_ofList {k : List UInt8} {v : JsonValue D} {l : List (List UInt8 × JsonValue D)}
    (hl : (l.map Prod.fst).Nodup) (h : (k, v) ∈ l) : (JsonValue.object (OrdMap.ofList l)).atKey k = .ok v := by
  unfold JsonValue.atKey
  simp only [OrdMap.find?_ofList hl h, Option.getD_some]

theorem nodeFields_nodup (n : NodeInfo) : ((nodeFields n : List (List UInt8 × JsonValue D)).map Prod.fst).Nodup := by
  have hkeys : (nodeFields n : List (List UInt8 × JsonValue D)).map Prod.fst = [utf8 "node_id", utf8 "pid",
    utf8 "pub_topic_count", utf8 "sub_topic_count", utf8 "node_name", utf8 "is_alive", utf8 "last_heartbeat"] := rfl
  rw [hkeys]
  decide

theorem nodesFields_nodup (n : NodesInfo) :
    ((nodesFields n : List (List UInt8 × JsonValue D)).map Prod.fst).Nodup := by
  have hkeys : (nodesFields n : List (List UInt8 × JsonValue D)).map Prod.fst =
    [utf8 "node_count", utf8 "alive_node_count", utf8 "nodes"] := rfl
  rw [hkeys]
  decide

theorem topicFields_nodup (t : TopicInfo) :
    ((topicFields t : List (List UInt8 × JsonValue D)).map Prod.fst).Nodup := by
  have hkeys : (topicFields t : List (List UInt8 × JsonValue D)).map Prod.fst = [utf8 "topic_id", utf8 "name"] := rfl
  rw [hkeys]
  decide

theorem topicsFields_nodup (t : TopicsInfo) :
    ((topicsFields t : List (List UInt8 × JsonValue D)).map Prod.fst).Nodup := by
  have hkeys : (topicsFields t : List (List UInt8 × JsonValue D)).map Prod.fst =
    [utf8 "topic_count", utf8 "topics"] := rfl
  rw [hkeys]
  decide

theorem atIndex_map_range {f : Nat → JsonValue D} {n i : Nat} (h : i < n) :
    (JsonValue.array ((List.range n).map f)).atIndex i = .ok (f i) := by
  unfold JsonValue.atIndex
  simp [h]

theorem nodes_entryField (n : NodesInfo) {i : Nat} (hi : i < n.count) {key : String} {v : JsonValue D}
    (h : (utf8 key, v) ∈ nodeFields (n.nodes i)) :
    entryField (.object (OrdMap.ofList (nodesFields n))) "nodes" i key = .ok v := by
  unfold entryField
  rw [atKey_ofList (nodesFields_nodup n) (v := .array _) (by simp [nodesFields]; rfl), Except.ok_bind,
    atIndex_map_range hi, Except.ok_bind]
  exact atKey_ofList (nodeFields_nodup _) h

theorem topics_entryField (t : TopicsInfo) {i : Nat} (hi : i < t.count) {key : String} {v : JsonValue D}
    (h : (utf8 key, v) ∈ topicFields (t.topics i)) :
    entryField (.object (OrdMap.ofList (topicsFields t))) "topics" i key = .ok v := by
  unfold entryField
  rw [atKey_ofList (topicsFields_nodup t) (v := .array _) (by simp [topicsFields]; rfl), Except.ok_bind,
    atIndex_map_range hi, Except.ok_bind]
  exact atKey_ofList (topicFields_nodup _) h

/-! ## Texts without NULs -/

/-- What holds at a node of a table's value: it is no double, an object is a map, and strings and keys are without
NULs. -/
def PlainNode (w : JsonValue D) : Prop :=
  (∀ d, w ≠ .double d) ∧ (∀ s, w = .string s → ∀ b ∈ s, b ≠ 0) ∧
    ∀ kvs, w = .object kvs → OrdMap.Sorted kvs ∧ ∀ p ∈ kvs, ∀ b ∈ p.1, b ≠ 0

def Plain (v : JsonValue D) : Prop := v.All PlainNode

theorem Plain.doubleFree {v : JsonValue D} (h : Plain v) : v.DoubleFree := JsonValue.All.imp (fun _ hw => hw.1) v h

theorem Plain.ordered {v : JsonValue D} (h : Plain v) : v.Ordered :=
  JsonValue.All.imp (fun _ hw kvs hk => (hw.2.2 kvs hk).1) v h

def Plain.message {v : JsonValue D} (h : Plain v) : Message D := ⟨v, h.doubleFree, h.ordered⟩

theorem plain_int (n : Int32) : Plain (.int n : JsonValue D) :=
  ⟨(fun d h => by cases h), (fun s h => by cases h), fun kvs h => by cases h⟩

theorem plain_bool (b : Bool) : Plain (.bool b : JsonValue D) :=
  ⟨(fun d h => by cases h), (fun s h => by cases h), fun kvs h => by cases h⟩

theorem plain_string {s : List UInt8} (hs : ∀ b ∈ s, b ≠ 0) : Plain (.string s : JsonValue D) :=
  ⟨(fun d h => by cases h), (fun t h => by cases h; exact hs), fun kvs h => by cases h⟩

theorem plain_array {xs : List (JsonValue D)} (h : ∀ v ∈ xs, Plain v) : Plain (.array xs) :=
  ⟨⟨(fun d h => by cases h), (fun s h => by cases h), fun kvs h => by cases h⟩, JsonValue.allElems_iff.2 h⟩

theorem plain_object {l : List (List UInt8 × JsonValue D)} (hk : ∀ p ∈ l, ∀ b ∈ p.1, b ≠ 0)
    (hv : ∀ p ∈ l, Plain p.2) : Plain (.object (OrdMap.ofList l)) :=
  JsonValue.all_ofList ⟨(fun d h => by cases h), (fun s h => by cases h), fun kvs h => by
    cases h
    exact ⟨OrdMap.sorted_ofList l, fun p hp => hk p (OrdMap.mem_ofList hp)⟩⟩ hv

theorem keys_ne {l : List (List UInt8 × JsonValue D)} (c : UInt8) (keys : List String)
    (hl : l.map Prod.fst = keys.map utf8) (hkeys : keys.all (fun k => !(utf8 k).contains c) = true) :
    ∀ p ∈ l, ∀ b ∈ p.1, b ≠ c := by
  rintro p hp b hb rfl
  have hmem : p.1 ∈ keys.map utf8 := hl ▸ List.mem_map_of_mem hp
  obtain ⟨k, hk, hkp⟩ := List.mem_map.1 hmem
  have hnot := List.all_eq_true.1 hkeys k hk
  rw [hkp] at hnot
  simp [hb] at hnot

/-- Neither a NUL nor a backspace stands in the keys of the tables' texts. -/
theorem nodeFields_keys {c : UInt8} (hc : c = 0 ∨ c = 8) (n : NodeInfo) :
    ∀ p ∈ (nodeFields n : List (List UInt8 × JsonValue D)), ∀ b ∈ p.1, b ≠ c :=
  keys_ne c ["node_id", "pid", "pub_topic_count", "sub_topic_count", "node_name", "is_alive", "last_heartbeat"] rfl
    (by rcases hc with rfl | rfl <;> decide +kernel)

theorem nodesFields_keys {c : UInt8} (hc : c = 0 ∨ c = 8) (n : NodesInfo) :
    ∀ p ∈ (nodesFields n : List (List UInt8 × JsonValue D)), ∀ b ∈ p.1, b ≠ c :=
  keys_ne c ["node_count", "alive_node_count", "nodes"] rfl (by rcases hc with rfl | rfl <;> decide +kernel)

theorem topicFields_keys {c : UInt8} (hc : c = 0 ∨ c = 8) (t : TopicInfo) :
    ∀ p ∈ (topicFields t : List (List UInt8 × JsonValue D)), ∀ b ∈ p.1, b ≠ c :=
  keys_ne c ["topic_id", "name"] rfl (by rcases hc with rfl | rfl <;> decide +kernel)

theorem topicsFields_keys {c : UInt8} (hc : c = 0 ∨ c = 8) (t : TopicsInfo) :
    ∀ p ∈ (topicsFields t : List (List UInt8 × JsonValue D)), ∀ b ∈ p.1, b ≠ c :=
  keys_ne c ["topic_count", "topics"] rfl (by rcases hc with rfl | rfl <;> decide +kernel)

theorem plain_nodeJson (n : NodeInfo) : Plain (nodeJson n : JsonValue D) := by
  apply plain_object
  · exact nodeFields_keys (.inl rfl) n
  · intro p hp
    simp only [nodeFields, List.mem_cons, List.not_mem_nil, or_false] at hp
    rcases hp with rfl | rfl | rfl | rfl | rfl | rfl | rfl
    · exact plain_int _
    · exact plain_int _
    · exact plain_int _
    · exact plain_int _
    · exact plain_string n.node_name.noNul
    · exact plain_bool _
    · exact plain_int _

theorem plain_nodes (n : NodesInfo) : Plain (.object (OrdMap.ofList (nodesFields n)) : JsonValue D) := by
  apply plain_object
  · exact nodesFields_keys (.inl rfl) n
  · intro p hp
    simp only [nodesFields, List.mem_cons, List.not_mem_nil, or_false] at hp
    rcases hp with rfl | rfl | rfl
    · exact plain_int _
    · exact plain_int _
    · refine plain_array (fun v hv => ?_)
      obtain ⟨i, -, rfl⟩ := List.mem_map.1 hv
      exact plain_nodeJson _

theorem plain_topicJson (t : TopicInfo) : Plain (topicJson t : JsonValue D) := by
  apply plain_object
  · exact topicFields_keys (.inl rfl) t
  · intro p hp
    simp only [topicFields, List.mem_cons, List.not_mem_nil, or_false] at hp
    rcases hp with rfl | rfl
    · exact plain_int _
    · exact plain_string t.name_.noNul

theorem plain_topics (t : TopicsInfo) : Plain (.object (OrdMap.ofList (topicsFields t)) : JsonValue D) := by
  apply plain_object
  · exact topicsFields_keys (.inl rfl) t
  · intro p hp
    simp only [topicsFields, List.mem_cons, List.not_mem_nil, or_false] at hp
    rcases hp with rfl | rfl
    · exact plain_int _
    · refine plain_array (fun v hv => ?_)
      obtain ⟨i, -, rfl⟩ := List.mem_map.1 hv
      exact plain_topicJson _

/-! ## Names without a backspace -/

/-- No name that the table's text holds has the byte 8. -/
def NodesInfo.Legible (n : NodesInfo) : Prop := ∀ i < n.count, 8 ∉ (n.nodes i).node_name.bytes
def TopicsInfo.Legible (t : TopicsInfo) : Prop := ∀ i < t.count, 8 ∉ (t.topics i).name_.bytes

instance (n : NodesInfo) : Decidable n.Legible := inferInstanceAs (Decidable (∀ i < n.count, _))
instance (t : TopicsInfo) : Decidable t.Legible := inferInstanceAs (Decidable (∀ i < t.count, _))

/-- A field of an object without a backspace has none. -/
theorem noBackspace_field {l : List (List UInt8 × JsonValue D)} (hl : (l.map Prod.fst).Nodup)
    (h : (JsonValue.object (OrdMap.ofList l)).NoBackspace) {p : List UInt8 × JsonValue D} (hp : p ∈ l) :
    p.2.NoBackspace :=
  JsonValue.allMembers_iff.1 h.2 p ((OrdMap.ofList_perm hl).mem_iff.2 hp)

theorem noBackspace_leaf {v : JsonValue D} (hs : ∀ s, v ≠ .string s) (ha : ∀ xs, v ≠ .array xs)
    (ho : ∀ kvs, v ≠ .object kvs) : v.NoBackspace := by
  cases v with
  | string s => exact absurd rfl (hs s)
  | array xs => exact absurd rfl (ha xs)
  | object kvs => exact absurd rfl (ho kvs)
  | _ => exact JsonValue.onStrings_of_ne hs ho

theorem noBackspace_nodeJson (n : NodeInfo) :
    (nodeJson n : JsonValue D).NoBackspace ↔ 8 ∉ n.node_name.bytes := by
  constructor
  · intro h
    exact (noBackspace_field (nodeFields_nodup n) h (p := (utf8 "node_name", .string n.node_name.bytes))
      (by simp [nodeFields])).1 _ rfl
  · intro h
    refine noBackspace_object fun p hp => ⟨fun h8 => nodeFields_keys (.inr rfl) n p hp 8 h8 rfl, ?_⟩
    simp only [nodeFields, List.mem_cons, List.not_mem_nil, or_false] at hp
    rcases hp with rfl | rfl | rfl | rfl | rfl | rfl | rfl
    case inr.inr.inr.inr.inl => exact JsonValue.onStrings_string h
    all_goals exact noBackspace_leaf nofun nofun nofun

theorem noBackspace_topicJson (t : TopicInfo) : (topicJson t : JsonValue D).NoBackspace ↔ 8 ∉ t.name_.bytes := by
  constructor
  · intro h
    exact (noBackspace_field (topicFields_nodup t) h (p := (utf8 "name", .string t.name_.bytes))
      (by simp [topicFields])).1 _ rfl
  · intro h
    refine noBackspace_object fun p hp => ⟨fun h8 => topicFields_keys (.inr rfl) t p hp 8 h8 rfl, ?_⟩
    simp only [topicFields, List.mem_cons, List.not_mem_nil, or_false] at hp
    rcases hp with rfl | rfl
    · exact noBackspace_leaf nofun nofun nofun
    · exact JsonValue.onStrings_string h

theorem noBackspace_map_range {f : Nat → JsonValue D} {n : Nat} :
    (JsonValue.array ((List.range n).map f)).NoBackspace ↔ ∀ i < n, (f i).NoBackspace := by
  constructor
  · intro h i hi
    exact JsonValue.allElems_iff.1 h.2 (f i) (List.mem_map_of_mem (List.mem_range.2 hi))
  · intro h
    refine noBackspace_array fun v hv => ?_
    obtain ⟨i, hi, rfl⟩ := List.mem_map.1 hv
    exact h i (List.mem_range.1 hi)

theorem noBackspace_nodes (n : NodesInfo) :
    (.object (OrdMap.ofList (nodesFields n)) : JsonValue D).NoBackspace ↔ n.Legible := by
  have hiff : (JsonValue.array ((List.range n.count).map fun i => nodeJson (n.nodes i)) : JsonValue D).NoBackspace ↔
      n.Legible :=
    noBackspace_map_range.trans (forall₂_congr fun i _ => noBackspace_nodeJson (n.nodes i))
  rw [← hiff]
  constructor
  · intro h
    exact noBackspace_field (nodesFields_nodup n) h (p := (utf8 "nodes", _)) (by simp [nodesFields])
  · intro h
    refine noBackspace_object fun p hp => ⟨fun h8 => nodesFields_keys (.inr rfl) n p hp 8 h8 rfl, ?_⟩
    simp only [nodesFields, List.mem_cons, List.not_mem_nil, or_false] at hp
    rcases hp with rfl | rfl | rfl
    · exact noBackspace_leaf nofun nofun nofun
    · exact noBackspace_leaf nofun nofun nofun
    · exact h

theorem noBackspace_topics (t : TopicsInfo) :
    (.object (OrdMap.ofList (topicsFields t)) : JsonValue D).NoBackspace ↔ t.Legible := by
  have hiff : (JsonValue.array ((List.range t.count).map fun i => topicJson (t.topics i)) : JsonValue D).NoBackspace ↔
      t.Legible :=
    noBackspace_map_range.trans (forall₂_congr fun i _ => noBackspace_topicJson (t.topics i))
  rw [← hiff]
  constructor
  · intro h
    exact noBackspace_field (topicsFields_nodup t) h (p := (utf8 "topics", _)) (by simp [topicsFields])
  · intro h
    refine noBackspace_object fun p hp => ⟨fun h8 => topicsFields_keys (.inr rfl) t p hp 8 h8 rfl, ?_⟩
    simp only [topicsFields, List.mem_cons, List.not_mem_nil, or_false] at hp
    rcases hp with rfl | rfl
    · exact noBackspace_leaf nofun nofun nofun
    · exact h

section Serialize

variable [DoubleText D]

/-- **No text of a table has a NUL.** -/
theorem serialize_ne_zero (v : JsonValue D) (h : Plain v) : ∀ b ∈ v.serialize, b ≠ 0 := by
  have hne : ∀ b : UInt8, 32 ≤ b → b ≠ 0 := by
    rintro _ hle rfl
    exact absurd hle (by decide)
  have hesc : ∀ s : List UInt8, (∀ b ∈ s, b ≠ 0) → ∀ b ∈ JsonValue.escapeString s, b ≠ 0 := by
    intro s hs b hb
    rcases mem_escapeString hb with hle | ⟨hmem, -⟩
    · exact hne b hle
    · exact hs b hmem
  refine forall_serialize (P := (· ≠ 0)) hne v ?_ ?_
  · exact JsonValue.All.imp (fun _ hw d hd => absurd hd (hw.1 d)) v h
  · exact JsonValue.All.imp (fun _ hw => ⟨fun s hs => hesc s (hw.2.1 s hs),
      fun kvs hk p hp => hesc p.1 ((hw.2.2 kvs hk).2 p hp)⟩) v h

theorem getLast?_object (kvs : List (List UInt8 × JsonValue D)) :
    (JsonValue.object kvs).serialize.getLast? = some chRBrace := by
  rw [JsonValue.serialize, ← List.cons_append, List.getLast?_concat]

/-- **With the rest of an older text behind it** an object's text is no text: the parser throws. -/
theorem deserialize_residue {kvs : List (List UInt8 × JsonValue D)} (h : Plain (.object kvs)) {r : List UInt8}
    (hr : r.getLast? = some chRBrace) :
    ∃ e, (deserialize ((JsonValue.object kvs).serialize ++ r) : Except Abort (JsonValue D)) = .error (.throws e) := by
  by_cases hb : (JsonValue.object kvs).NoBackspace
  · cases hd : (deserialize ((JsonValue.object kvs).serialize ++ r) : Except Abort (JsonValue D)) with
    | ok v =>
      obtain ⟨-, hblank⟩ := (deserialize_append (derives_message h.message hb) rfl).1 hd
      have := hblank chRBrace (List.mem_of_getLast? hr)
      exact absurd this (by decide)
    | error a =>
      obtain ⟨e, rfl, -⟩ := deserialize_onlyThrows _ a hd
      exact ⟨e, rfl⟩
  · exact deserialize_backspace h.message hb r

end Serialize

end MiniRos2

import MiniRos2.NodeCounts
import MiniRos2.Lib.TwoRuns
/-!
# SetMembers — the members of a manager that have been set

No initializer sets `nodes_` and `topics_`: a manager that was just constructed has in them what was in its memory.
`Known` records what has been set since, from the region or by a call.  Two managers that agree on it (`Agree`) write
the same texts, find the same topics and choose the same slots, as long as only set members are read.
-/
namespace MiniRos2

open TwoRuns (Matches)

inductive NodeField where
  | node_id
  | pid
  | pub_topic_count
  | sub_topic_count
  | is_alive
  | last_heartbeat
  | node_name
  deriving DecidableEq

/-- Two entries have the same value in this field. -/
def NodeField.Same (x y : NodeInfo) : NodeField → Prop
  | .node_id => x.node_id = y.node_id
  | .pid => x.pid = y.pid
  | .pub_topic_count => x.pub_topic_count = y.pub_topic_count
  | .sub_topic_count => x.sub_topic_count = y.sub_topic_count
  | .is_alive => x.is_alive = y.is_alive
  | .last_heartbeat => x.last_heartbeat = y.last_heartbeat
  | .node_name => x.node_name = y.node_name

theorem NodeField.Same.refl (x : NodeInfo) (f : NodeField) : f.Same x x := by cases f <;> rfl

/-- An assignment to this field. -/
structure NodeField.Assigns (f : NodeField) (g : NodeInfo → NodeInfo) : Prop where
  set : ∀ x y, f.Same (g x) (g y)
  keep : ∀ (f : NodeField) (x y : NodeInfo), f.Same x y → f.Same (g x) (g y)

section Assigns

variable (a : Int32)

theorem NodeField.assigns_node_id : node_id.Assigns fun n => { n with node_id := a } where
  set x y := rfl
  keep f x y h := by cases f <;> first | rfl | exact h

theorem NodeField.assigns_pid : pid.Assigns fun n => { n with pid := a } where
  set x y := rfl
  keep f x y h := by cases f <;> first | rfl | exact h

theorem NodeField.assigns_pub_topic_count : pub_topic_count.Assigns fun n => { n with pub_topic_count := a } where
  set x y := rfl
  keep f x y h := by cases f <;> first | rfl | exact h

theorem NodeField.assigns_sub_topic_count : sub_topic_count.Assigns fun n => { n with sub_topic_count := a } where
  set x y := rfl
  keep f x y h := by cases f <;> first | rfl | exact h

theorem NodeField.assigns_is_alive (b : Bool) : is_alive.Assigns fun n => { n with is_alive := b } where
  set x y := rfl
  keep f x y h := by cases f <;> first | rfl | exact h

theorem NodeField.assigns_last_heartbeat : last_heartbeat.Assigns fun n => { n with last_heartbeat := a } where
  set x y := rfl
  keep f x y h := by cases f <;> first | rfl | exact h

theorem NodeField.assigns_node_name (name : CName) : node_name.Assigns fun n => { n with node_name := name } where
  set x y := rfl
  keep f x y h := by cases f <;> first | rfl | exact h

end Assigns

theorem NodeInfo.eq_of_same {x y : NodeInfo} (h : ∀ f : NodeField, f.Same x y) : x = y := by
  cases x
  cases y
  obtain rfl := h .node_id
  obtain rfl := h .pid
  obtain rfl := h .pub_topic_count
  obtain rfl := h .sub_topic_count
  obtain rfl := h .is_alive
  obtain rfl := h .last_heartbeat
  obtain rfl := h .node_name
  rfl

/-- **Which members have been set.** -/
structure Known where
  nodes_count : Prop
  alive_node_count : Prop
  node : Nat → NodeField → Prop
  topics_count : Prop
  topic : Nat → Prop

def Known.none : Known := ⟨False, False, fun _ _ => False, False, fun _ => False⟩

/-- An entry of the node table with these fields set. -/
def Known.setNode (K : Known) (i : Nat) (P : NodeField → Prop) : Known :=
  { K with node := Function.update K.node i P }

/-- One field more. -/
def Known.setField (K : Known) (i : Nat) (f : NodeField) : Known := K.setNode i (fun g => g = f ∨ K.node i g)

variable {D : Type}

/-- **Two managers on one region that agree on what has been set.** -/
structure Agree (K : Known) (s t : Registry D) : Prop where
  node_id : s.mgr.node_id_ = t.mgr.node_id_
  shm : s.shm = t.shm
  event_flag : s.event_flag_ = t.event_flag_
  nodes_count : K.nodes_count → s.mgr.nodes_.nodes_count = t.mgr.nodes_.nodes_count
  alive_node_count : K.alive_node_count → s.mgr.nodes_.alive_node_count = t.mgr.nodes_.alive_node_count
  node : ∀ i f, K.node i f → f.Same (s.mgr.nodes_.nodes i) (t.mgr.nodes_.nodes i)
  topics_count : K.topics_count → s.mgr.topics_.topics_count = t.mgr.topics_.topics_count
  topic : ∀ i, K.topic i → s.mgr.topics_.topics i = t.mgr.topics_.topics i

/-- The call neither returned nor threw. -/
def Abort.Lost (e : Abort) : Prop := ∀ x, e ≠ .throws x

theorem Abort.lost_undefined : Abort.undefined.Lost := fun _ => nofun

/-- Two calls end alike, or the first neither returned nor threw. -/
abbrev Alike {α : Type} (E : Registry D → Registry D → Prop) (Q : α → Registry D → Registry D → Prop)
    (r r' : EStateM.Result Abort (Registry D) α) : Prop := Matches Abort.Lost E Q r r'

section Rules

variable {K K' : Known} {s t : Registry D} {α β : Type} {E : Registry D → Registry D → Prop}
  {Q : α → Registry D → Registry D → Prop}

theorem Alike.liftE_bind {x y : Except Abort α} {R : β → Registry D → Registry D → Prop} {f g : α → Op D β}
    (h : x = y) (hE : ∀ e, x = .error e → e.Lost ∨ E s t)
    (hf : ∀ a, x = .ok a → Alike E R (f a s) (g a t)) :
    Alike E R ((liftE x >>= f) s) ((liftE y >>= g) t) := by
  subst h
  cases x with
  | ok a => exact hf a rfl
  | error e => exact (hE e rfl).imp_right fun hE => ⟨rfl, hE⟩

/-! ## Entries -/

theorem Agree.mapNodes (h : Agree K s t) {f g : NodesInfo → NodesInfo}
    (hn : K'.nodes_count → (f s.mgr.nodes_).nodes_count = (g t.mgr.nodes_).nodes_count)
    (ha : K'.alive_node_count → (f s.mgr.nodes_).alive_node_count = (g t.mgr.nodes_).alive_node_count)
    (hx : ∀ i x, K'.node i x → x.Same ((f s.mgr.nodes_).nodes i) ((g t.mgr.nodes_).nodes i))
    (hc : K'.topics_count = K.topics_count) (ht : K'.topic = K.topic) :
    Agree K' (s.mapNodes f) (t.mapNodes g) where
  node_id := h.node_id
  shm := h.shm
  event_flag := h.event_flag
  nodes_count := hn
  alive_node_count := ha
  node := hx
  topics_count hK := h.topics_count (hc ▸ hK)
  topic i hK := h.topic i (ht ▸ hK)

theorem Agree.weakenNodes (h : Agree K s t) {P : Nat → NodeField → Prop} (hP : ∀ i f, P i f → K.node i f) :
    Agree { K with node := P } s t := { h with node := fun i f hp => h.node i f (hP i f hp) }

/-- An entry of the node table is changed. -/
theorem Agree.setNode (h : Agree K s t) (i : Nat) {P : NodeField → Prop} {f g : NodeInfo → NodeInfo}
    (hP : ∀ x, P x → x.Same (f (s.mgr.nodes_.nodes i)) (g (t.mgr.nodes_.nodes i))) :
    Agree (K.setNode i P) (s.mapNodes (NodesInfo.set i f)) (t.mapNodes (NodesInfo.set i g)) := by
  refine h.mapNodes h.nodes_count h.alive_node_count (fun j x hx => ?_) rfl rfl
  by_cases hj : j = i
  · subst hj
    unfold Known.setNode at hx
    unfold NodesInfo.set
    simp only [Function.update_self] at hx ⊢
    exact hP x hx
  · unfold Known.setNode at hx
    unfold NodesInfo.set
    simp only [Function.update_of_ne hj] at hx ⊢
    exact h.node j x hx

/-- One field of an entry is set. -/
theorem Agree.setField (h : Agree K s t) (i : Nat) {f : NodeField} {g : NodeInfo → NodeInfo} (hg : f.Assigns g) :
    Agree (K.setField i f) (s.mapNodes (NodesInfo.set i g)) (t.mapNodes (NodesInfo.set i g)) := by
  refine h.setNode i fun x hx => ?_
  rcases hx with rfl | hx
  · exact hg.set _ _
  · exact hg.keep x _ _ (h.node i x hx)

/-- An entry is changed in the same way in both tables. -/
theorem Agree.keepNode (h : Agree K s t) (i : Nat) {g : NodeInfo → NodeInfo}
    (hg : ∀ (f : NodeField) x y, f.Same x y → f.Same (g x) (g y)) :
    Agree K (s.mapNodes (NodesInfo.set i g)) (t.mapNodes (NodesInfo.set i g)) := by
  have hset := h.setNode (P := K.node i) i (f := g) (g := g) fun x hx => hg x _ _ (h.node i x hx)
  rwa [show K.setNode i (K.node i) = K by unfold Known.setNode; rw [Function.update_eq_self]] at hset

/-- The manager's own entry. -/
theorem Agree.modifyOwn_bind (h : Agree K s t) {f g : Nat → NodesInfo → NodesInfo} {k k' : Unit → Op D β}
    {R : β → Registry D → Registry D → Prop}
    (hk : ∀ i, nodeSlot s.mgr.node_id_.toInt = .ok i → Alike E R (k () (s.mapNodes (f i))) (k' () (t.mapNodes (g i)))) :
    Alike E R ((modifyOwn f >>= k) s) ((modifyOwn g >>= k') t) := by
  cases hi : nodeSlot s.mgr.node_id_.toInt with
  | ok i =>
    rw [MiniRos2.modifyOwn_bind hi, MiniRos2.modifyOwn_bind (h.node_id ▸ hi)]
    exact hk i hi
  | error e =>
    rw [modifyOwn_bind_error hi, modifyOwn_bind_error (h.node_id ▸ hi)]
    exact .inl Abort.lost_undefined

/-! ## Topics -/

/-- A search that asks the same of every index up to where it stops. -/
theorem find?_range_congr {n : Nat} {p q : Nat → Bool}
    (h : ∀ i, i < n → (∀ j, j < i → p j = false) → p i = q i) :
    (List.range n).find? p = (List.range n).find? q := by
  cases hp : (List.range n).find? p with
  | none =>
    have hnone : ∀ i, i < n → p i = false := fun i hi => by
      simpa using List.find?_eq_none.1 hp i (List.mem_range.2 hi)
    symm
    rw [List.find?_eq_none]
    intro i hi
    have hin := List.mem_range.1 hi
    rw [← h i hin fun j hj => hnone j (by omega), hnone i hin]
    exact Bool.false_ne_true
  | some i =>
    obtain ⟨hi, hmem, hbefore⟩ := List.find?_range_eq_some.1 hp
    have hin := List.mem_range.1 hmem
    have hfalse : ∀ j, j < i → p j = false := fun j hj => by simpa using hbefore j hj
    symm
    refine List.find?_range_eq_some.2 ⟨?_, hmem, fun j hj => ?_⟩
    · rw [← h i hin hfalse]
      exact hi
    · rw [← h j (by omega) fun k hk => hfalse k (by omega), hfalse j hj]
      rfl

/-- The search makes an entry for the topic. -/
def TopicsInfo.Makes (u : TopicsInfo) (full_name : List UInt8) : Prop :=
  findTopic u full_name = .ok none ∧ ¬ (MAX_TOPICS_PER_NODE : Int) ≤ u.topics_count.toInt

/-- The slot of that entry. -/
def TopicsInfo.made (u : TopicsInfo) : Nat := (u.topics_count + 1).toInt.toNat

/-- What is set behind the search. -/
def Known.search (K : Known) (u : TopicsInfo) (full_name : List UInt8) : Known :=
  { K with topic := fun i => K.topic i ∨ u.Makes full_name ∧ i = u.made }

def Known.setTopic (K : Known) (i : Nat) : Known := { K with topic := fun j => K.topic j ∨ j = i }

/-- Every entry that the search compares has been set. -/
structure Known.Searches (K : Known) (u : TopicsInfo) (full_name : List UInt8) : Prop where
  topics_count : K.topics_count
  topic : ∀ i, i < u.count → (∀ j, j < i → (u.topics j).name_.bytes ≠ full_name) → K.topic i

theorem Agree.findTopic_eq (h : Agree K s t) {full_name : List UInt8} (hs : K.Searches s.mgr.topics_ full_name) :
    findTopic s.mgr.topics_ full_name = findTopic t.mgr.topics_ full_name := by
  have hcount : t.mgr.topics_.count = s.mgr.topics_.count := by
    unfold TopicsInfo.count
    rw [h.topics_count hs.topics_count]
  unfold findTopic
  rw [hcount, find?_range_congr fun i hi hbefore => ?_]
  have hset : K.topic i := hs.topic i hi fun j hj hname => by
    have hj := hbefore j hj
    simp [hname] at hj
  rw [h.topic i hset]

theorem Agree.mapTopics (h : Agree K s t) {f g : TopicsInfo → TopicsInfo}
    (hc : K'.topics_count → (f s.mgr.topics_).topics_count = (g t.mgr.topics_).topics_count)
    (ht : ∀ i, K'.topic i → (f s.mgr.topics_).topics i = (g t.mgr.topics_).topics i)
    (hn : K'.nodes_count = K.nodes_count) (ha : K'.alive_node_count = K.alive_node_count) (hx : K'.node = K.node) :
    Agree K' (s.mapTopics f) (t.mapTopics g) where
  node_id := h.node_id
  shm := h.shm
  event_flag := h.event_flag
  nodes_count hK := h.nodes_count (hn ▸ hK)
  alive_node_count hK := h.alive_node_count (ha ▸ hK)
  node i f hK := h.node i f (hx ▸ hK)
  topics_count := hc
  topic := ht

theorem Agree.weakenTopics (h : Agree K s t) {P : Nat → Prop} (hP : ∀ i, P i → K.topic i) :
    Agree { K with topic := P } s t := { h with topic := fun i hi => h.topic i (hP i hi) }

/-- An entry of the topic table is set. -/
theorem Agree.setTopic (h : Agree K s t) (i : Nat) {f g : TopicInfo → TopicInfo}
    (hfg : f (s.mgr.topics_.topics i) = g (t.mgr.topics_.topics i)) :
    Agree (K.setTopic i) (s.mapTopics (TopicsInfo.set i f)) (t.mapTopics (TopicsInfo.set i g)) := by
  refine h.mapTopics h.topics_count (fun j hj => ?_) rfl rfl rfl
  unfold TopicsInfo.set
  by_cases hji : j = i
  · rw [hji]
    simp only [Function.update_self]
    exact hfg
  · simp only [Function.update_of_ne hji]
    exact h.topic j (hj.resolve_right hji)

/-- An entry of the topic table is changed in the same way in both tables. -/
theorem Agree.keepTopic (h : Agree K s t) (i : Nat) {g : TopicInfo → TopicInfo} :
    Agree K (s.mapTopics (TopicsInfo.set i g)) (t.mapTopics (TopicsInfo.set i g)) := by
  refine h.mapTopics h.topics_count (fun j hj => ?_) rfl rfl rfl
  have hsame := h.topic j hj
  unfold TopicsInfo.set
  by_cases hji : j = i
  · subst hji
    simp only [Function.update_self, hsame]
  · simp only [Function.update_of_ne hji, hsame]

/-- One more entry counted. -/
theorem Agree.countTopic (h : Agree K s t) :
    Agree K (s.mapTopics fun t => { t with topics_count := t.topics_count + 1 })
      (t.mapTopics fun t => { t with topics_count := t.topics_count + 1 }) := by
  refine h.mapTopics (fun hK => ?_) h.topic rfl rfl rfl
  exact congrArg (· + 1) (h.topics_count hK)

theorem findTopic_error {u : TopicsInfo} {full_name : List UInt8} {e : Abort} (h : findTopic u full_name = .error e) :
    e.Lost := by
  rcases findTopic_cases u full_name with ⟨i, -, hf⟩ | ⟨-, hf⟩ | hf <;> rw [hf] at h <;> cases h
  exact Abort.lost_undefined

theorem arraySlot_error {bound : Nat} {i : Int} {e : Abort} (h : arraySlot bound i = .error e) : e.Lost := by
  rcases arraySlot_cases bound i with ⟨j, hj⟩ | hj <;> rw [hj] at h <;> cases h
  exact Abort.lost_undefined

theorem strcpy_error {name : List UInt8} {e : Abort} (h : strcpy name = .error e) : e.Lost := by
  rcases strcpy_cases name with ⟨n, hn⟩ | hn <;> rw [hn] at h <;> cases h
  exact Abort.lost_undefined

theorem Known.Searches.of_found {u : TopicsInfo} {full_name : List UInt8} (h : K.Searches u full_name) {i : Nat}
    (hf : findTopic u full_name = .ok (some i)) : K.topic i := by
  rcases findTopic_cases u full_name with ⟨j, hj, hfj⟩ | ⟨-, hfj⟩ | hfj <;> rw [hfj] at hf <;> cases hf
  exact h.topic i hj.1 hj.2.2.2

/-- **The search finds the same entry, or makes the same one.** -/
theorem Agree.findOrCreate (h : Agree K s t) {topic event : List UInt8}
    (hs : K.Searches s.mgr.topics_ (fullName topic event)) :
    Alike E (fun _ => Agree (K.search s.mgr.topics_ (fullName topic event)))
      (findOrCreateTopicEvent_ topic event s) (findOrCreateTopicEvent_ topic event t) := by
  have hcount := h.topics_count hs.topics_count
  unfold findOrCreateTopicEvent_
  rw [Op.get_bind, Op.get_bind]
  refine Alike.liftE_bind (h.findTopic_eq hs) (fun e he => .inl (findTopic_error he)) fun r hr => ?_
  cases r with
  | some i =>
    refine ⟨congrArg TopicInfo.event_id_ (h.topic i (hs.of_found hr)), h.weakenTopics fun j hj => ?_⟩
    rcases hj with hj | ⟨hmakes, -⟩
    · exact hj
    · cases hr.symm.trans hmakes.1
  | none =>
    dsimp only
    by_cases hmax : (MAX_TOPICS_PER_NODE : Int) ≤ s.mgr.topics_.topics_count.toInt
    · rw [if_pos hmax, if_pos (hcount ▸ hmax)]
      refine ⟨rfl, h.weakenTopics fun j hj => ?_⟩
      rcases hj with hj | ⟨hmakes, -⟩
      · exact hj
      · exact absurd hmax hmakes.2
    · rw [if_neg hmax, if_neg (hcount ▸ hmax), ← hcount]
      refine Alike.liftE_bind rfl (fun e he => .inl (arraySlot_error he)) fun i hi => ?_
      rw [Op.bind_ok (modifyTopics_eq _ _), Op.bind_ok (modifyTopics_eq _ _)]
      refine Alike.liftE_bind rfl (fun e he => .inl (strcpy_error he)) fun name hname => ?_
      rw [Op.bind_ok (modifyTopics_eq _ _), Op.bind_ok (modifyTopics_eq _ _), Op.bind_ok (modifyTopics_eq _ _),
        Op.bind_ok (modifyTopics_eq _ _)]
      simp only [Registry.mapTopics_mapTopics, TopicsInfo.set_set]
      have hset := h.setTopic i (f := fun _ => ⟨name, s.mgr.topics_.topics_count + 1⟩) (g := fun _ => _) rfl
      have hmade := hset.countTopic
      refine ⟨rfl, hmade.weakenTopics fun j hj => ?_⟩
      rcases hj with hj | ⟨-, hj⟩
      · exact .inl hj
      · obtain ⟨hslot, -⟩ := arraySlot_eq_ok hi
        refine .inr ?_
        unfold TopicsInfo.made at hj
        omega

/-! ## Texts -/

theorem nodesJson_congr {n n' : NodesInfo} (hc : n.nodes_count = n'.nodes_count)
    (ha : n.alive_node_count = n'.alive_node_count) (h : ∀ i, i < n.count → n.nodes i = n'.nodes i) :
    (nodesJson n : Except Abort (JsonValue D)) = nodesJson n' := by
  have hcount : n'.count = n.count := by
    unfold NodesInfo.count
    rw [hc]
  have hlist : (List.range n.count).map (fun i => (nodeJson (n.nodes i) : JsonValue D)) =
      (List.range n'.count).map (fun i => nodeJson (n'.nodes i)) := by
    rw [hcount]
    exact List.map_congr_left fun i hi => congrArg nodeJson (h i (List.mem_range.1 hi))
  unfold nodesJson nodesFields
  rw [hlist, hc, ha, hcount]

theorem topicsJson_congr {u u' : TopicsInfo} (hc : u.topics_count = u'.topics_count)
    (h : ∀ i, i < u.count → u.topics i = u'.topics i) :
    (topicsJson u : Except Abort (JsonValue D)) = topicsJson u' := by
  have hcount : u'.count = u.count := by
    unfold TopicsInfo.count
    rw [hc]
  have hlist : (List.range u.count).map (fun i => (topicJson (u.topics i) : JsonValue D)) =
      (List.range u'.count).map (fun i => topicJson (u'.topics i)) := by
    rw [hcount]
    exact List.map_congr_left fun i hi => congrArg topicJson (h i (List.mem_range.1 hi))
  unfold topicsJson topicsFields
  rw [hlist, hc, hcount]

/-- A text of the node table with this count has only set members. -/
structure Known.WritesNodes (K : Known) (n : Int32) : Prop where
  nodes_count : K.nodes_count
  alive_node_count : K.alive_node_count
  node : ∀ i, i < n.toInt.toNat → ∀ f, K.node i f

structure Known.WritesTopics (K : Known) (n : Int32) : Prop where
  topics_count : K.topics_count
  topic : ∀ i, i < n.toInt.toNat → K.topic i

theorem Agree.shmWrite (h : Agree K s t) (data : List UInt8) (offset : Nat) :
    Alike (Agree K) (fun _ => Agree K) (shmWrite data offset s) (shmWrite data offset t) := by
  unfold MiniRos2.shmWrite
  rw [← h.shm]
  cases s.shm.write data offset with
  | ok r => exact ⟨rfl, { h with shm := rfl }⟩
  | error e => exact .inr ⟨rfl, h⟩

variable [DoubleText D]

theorem Agree.writeNodesInfo (h : Agree K s t) (hw : K.WritesNodes s.mgr.nodes_.nodes_count) :
    Alike (Agree K) (fun _ => Agree K) (writeNodesInfo_ s) (writeNodesInfo_ t) := by
  have hjson : (nodesJson s.mgr.nodes_ : Except Abort (JsonValue D)) = nodesJson t.mgr.nodes_ :=
    nodesJson_congr (h.nodes_count hw.nodes_count) (h.alive_node_count hw.alive_node_count)
      fun i hi => NodeInfo.eq_of_same fun f => h.node i f (hw.node i hi f)
  exact Alike.liftE_bind hjson (fun _ _ => .inr h) fun json _ => h.shmWrite _ _

theorem Agree.writeTopicsInfo (h : Agree K s t) (hw : K.WritesTopics s.mgr.topics_.topics_count) :
    Alike (Agree K) (fun _ => Agree K) (writeTopicsInfo_ s) (writeTopicsInfo_ t) := by
  have hjson : (topicsJson s.mgr.topics_ : Except Abort (JsonValue D)) = topicsJson t.mgr.topics_ :=
    topicsJson_congr (h.topics_count hw.topics_count) fun i hi => h.topic i (hw.topic i hi)
  exact Alike.liftE_bind hjson (fun _ _ => .inr h) fun json _ => h.shmWrite _ _

end Rules

end MiniRos2

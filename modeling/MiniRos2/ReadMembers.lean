import MiniRos2.RegistryBytes
import MiniRos2.SetMembers
/-!
# ReadMembers — the members that a reader sets

A reader takes every value it assigns from the region's text, and assigns in the order of the text until a field is
missing: then it throws, and the handler sets the counts.  So what it assigns depends on the region alone
(`Region.NodeField`, `Region.TopicEntry`), two managers on one region agree on that behind it, and they still agree on
what they agreed on before (`Agree.readNodesInfo`, `Agree.readTopicsInfo`).
-/
namespace MiniRos2

open TwoRuns (Matches)

variable {D : Type}

/-! ## The fields of a text -/

/-- Its place among the assignments of a turn. -/
def NodeField.rank : NodeField → Nat
  | .node_id => 0
  | .pid => 1
  | .pub_topic_count => 2
  | .sub_topic_count => 3
  | .node_name => 4
  | .is_alive => 5
  | .last_heartbeat => 6

theorem NodeField.rank_inj {f g : NodeField} (h : f.rank = g.rank) : f = g := by
  cases f <;> cases g <;> first | rfl | cases h

theorem NodeField.rank_lt (f : NodeField) : f.rank < 7 := by cases f <;> decide

/-- The text has this field of entry `i`. -/
def NodeField.Parses (json : JsonValue D) (i : Nat) : NodeField → Prop
  | .node_id => ∃ x, (entryField json "nodes" i "node_id" >>= JsonValue.asInt) = .ok x
  | .pid => ∃ x, (entryField json "nodes" i "pid" >>= JsonValue.asInt) = .ok x
  | .pub_topic_count => ∃ x, (entryField json "nodes" i "pub_topic_count" >>= JsonValue.asInt) = .ok x
  | .sub_topic_count => ∃ x, (entryField json "nodes" i "sub_topic_count" >>= JsonValue.asInt) = .ok x
  | .node_name => ∃ x, (entryField json "nodes" i "node_name" >>= JsonValue.asString >>= strcpy) = .ok x
  | .is_alive => ∃ x, (entryField json "nodes" i "is_alive" >>= JsonValue.asBool) = .ok x
  | .last_heartbeat => ∃ x, (entryField json "nodes" i "last_heartbeat" >>= JsonValue.asInt) = .ok x

/-- The loop gets to the assignment of this field. -/
structure Loads (json : JsonValue D) (i : Nat) (f : NodeField) : Prop where
  before : ∀ j, j < i → ∀ g : NodeField, g.Parses json j
  here : ∀ g : NodeField, g.rank ≤ f.rank → g.Parses json i

/-- What `readTopicsInfo_` takes from entry `i`. -/
structure TopicParses (json : JsonValue D) (i : Nat) : Prop where
  event_id : ∃ x, (entryField json "topics" i "topic_id" >>= JsonValue.asInt) = .ok x
  name : ∃ x, (entryField json "topics" i "name" >>= JsonValue.asString >>= strcpy) = .ok x

section Region

variable [DoubleText D]

/-- The section at `offset` has a text that is parsed as `json`. -/
def Region.Text (shm : Region) (size offset : Nat) (json : JsonValue D) : Prop :=
  ∃ w, (shm.read size offset >>= stringOf) = .ok w ∧ ¬ w.all isSpace = true ∧ deserialize w = .ok json

theorem Region.Text.unique {shm : Region} {size offset : Nat} {json json' : JsonValue D}
    (h : shm.Text size offset json) (h' : shm.Text size offset json') : json = json' := by
  obtain ⟨w, hw, -, hjson⟩ := h
  obtain ⟨w', hw', -, hjson'⟩ := h'
  cases hw.symm.trans hw'
  cases hjson.symm.trans hjson'
  rfl

variable (D)

/-- **A reader of this region assigns this field.** -/
def Region.NodeField (shm : Region) (i : Nat) (f : NodeField) : Prop :=
  ∃ (json : JsonValue D) (n a : Int32), shm.Text NODE_INFO_SIZE TOPIC_INFO_SIZE json ∧
    (json.atKey (utf8 "node_count") >>= JsonValue.asInt) = .ok n ∧
    (json.atKey (utf8 "alive_node_count") >>= JsonValue.asInt) = .ok a ∧ i < n.toInt.toNat ∧ Loads json i f

/-- **A reader of this region assigns this entry.** -/
def Region.TopicEntry (shm : Region) (i : Nat) : Prop :=
  ∃ (json : JsonValue D) (n : Int32), shm.Text TOPIC_INFO_SIZE 0 json ∧
    (json.atKey (utf8 "topic_count") >>= JsonValue.asInt) = .ok n ∧ i < n.toInt.toNat ∧
    ∀ j, j ≤ i → TopicParses json j

/-- What is set when `readNodesInfo_` has thrown, and behind it. -/
def Known.thrownNodes (K : Known) (shm : Region) : Known :=
  { K with node := fun i f => K.node i f ∨ shm.NodeField D i f }

def Known.readNodes (K : Known) (shm : Region) : Known :=
  { K.thrownNodes D shm with nodes_count := True, alive_node_count := True }

def Known.thrownTopics (K : Known) (shm : Region) : Known :=
  { K with topic := fun i => K.topic i ∨ shm.TopicEntry D i }

def Known.readTopics (K : Known) (shm : Region) : Known := { K.thrownTopics D shm with topics_count := True }

end Region

/-! ## The loop over the nodes -/

/-- What is set when the loop has come to the field of rank `m` of entry `i`. -/
def Known.upto (K : Known) (json : JsonValue D) (i m : Nat) : Known :=
  { K with node := fun j f => K.node j f ∨ Loads json j f ∧ (j < i ∨ j = i ∧ f.rank < m) }

def Known.loaded (K : Known) (json : JsonValue D) (n : Nat) : Known :=
  { K with node := fun j f => K.node j f ∨ j < n ∧ Loads json j f }

section Loop

variable {K : Known} {s t : Registry D} {β : Type} {json : JsonValue D} {i m n : Nat}
  {R : β → Registry D → Registry D → Prop}

/-- The loop throws at a field that the text does not have. -/
theorem Agree.stop (h : Agree (K.upto json i m) s t) {f : NodeField} (hm : f.rank = m) (hf : ¬ f.Parses json i) :
    Agree (K.loaded json n) s t := by
  refine h.weakenNodes fun j g hg => hg.imp_right fun ⟨_, hload⟩ => ⟨hload, ?_⟩
  rcases Nat.lt_trichotomy j i with hlt | rfl | hgt
  · exact .inl hlt
  · refine .inr ⟨rfl, ?_⟩
    by_contra hle
    exact hf (hload.here f (by omega))
  · exact absurd (hload.before i hgt f) hf

/-- It assigns a field that the text has. -/
theorem Agree.load (h : Agree (K.upto json i m) s t) {f : NodeField} (hm : f.rank = m) {g : NodeInfo → NodeInfo}
    (hg : f.Assigns g) :
    Agree (K.upto json i (m + 1)) (s.mapNodes (NodesInfo.set i g)) (t.mapNodes (NodesInfo.set i g)) := by
  refine (h.setField i hg).weakenNodes fun j f' hf' => ?_
  by_cases hji : j = i
  · subst hji
    unfold Known.setField Known.setNode
    simp only [Function.update_self]
    rcases hf' with hK | ⟨hload, hpos⟩
    · exact .inr (.inl hK)
    · by_cases hrank : f'.rank = m
      · exact .inl (NodeField.rank_inj (hrank.trans hm.symm))
      · exact .inr (.inr ⟨hload, by omega⟩)
  · unfold Known.setField Known.setNode
    simp only [Function.update_of_ne hji]
    exact hf'.imp_right fun ⟨hload, hpos⟩ => ⟨hload, by omega⟩

/-- **One field of a turn.** -/
theorem Agree.readField {α : Type} (h : Agree (K.upto json i m) s t) {f : NodeField} (hm : f.rank = m)
    {x : Except Abort α} (hx : f.Parses json i ↔ ∃ a, x = .ok a) {g : α → NodeInfo → NodeInfo}
    (hg : ∀ a, f.Assigns (g a)) {k : Op D β} (hk : ∀ s' t' : Registry D, Agree (K.upto json i (m + 1)) s' t' →
      Alike (Agree (K.loaded json n)) R (k s') (k t')) :
    Alike (Agree (K.loaded json n)) R ((liftE x >>= fun a => modifyNodes (NodesInfo.set i (g a)) >>= fun _ => k) s)
      ((liftE x >>= fun a => modifyNodes (NodesInfo.set i (g a)) >>= fun _ => k) t) := by
  refine Alike.liftE_bind rfl (fun e he => .inr (h.stop hm fun hf => ?_)) fun a _ => ?_
  · obtain ⟨a, ha⟩ := hx.1 hf
    rw [ha] at he
    cases he
  · rw [Op.bind_ok (modifyNodes_eq _ _), Op.bind_ok (modifyNodes_eq _ _)]
    exact hk _ _ (h.load hm (hg a))

/-- **One turn.** -/
theorem Agree.readNode (h : Agree (K.upto json i 0) s t) :
    Alike (Agree (K.loaded json n)) (fun _ => Agree (K.upto json (i + 1) 0)) (readNode json i s)
      (readNode json i t) := by
  unfold MiniRos2.readNode
  refine Alike.liftE_bind rfl (fun e he => .inr (h.stop (f := .node_id) rfl ?_)) fun node_id _ => ?_
  · rintro ⟨a, ha⟩
    rw [ha] at he
    cases he
  refine Alike.liftE_bind rfl (fun e he => .inl (arraySlot_error he)) fun slot hslot => ?_
  obtain ⟨hslot, -⟩ := arraySlot_eq_ok hslot
  obtain rfl : slot = i := by omega
  rw [Op.bind_ok (modifyNodes_eq _ _), Op.bind_ok (modifyNodes_eq _ _)]
  have h₁ := h.load rfl (NodeField.assigns_node_id node_id)
  refine h₁.readField rfl Iff.rfl NodeField.assigns_pid fun s₂ t₂ h₂ => ?_
  refine h₂.readField rfl Iff.rfl NodeField.assigns_pub_topic_count fun s₃ t₃ h₃ => ?_
  refine h₃.readField rfl Iff.rfl NodeField.assigns_sub_topic_count fun s₄ t₄ h₄ => ?_
  refine h₄.readField rfl Iff.rfl NodeField.assigns_node_name fun s₅ t₅ h₅ => ?_
  refine h₅.readField rfl Iff.rfl NodeField.assigns_is_alive fun s₆ t₆ h₆ => ?_
  refine h₆.readField (k := pure ()) rfl Iff.rfl NodeField.assigns_last_heartbeat fun s₇ t₇ h₇ => ?_
  exact Matches.pure (h₇.weakenNodes fun j f hf => hf.imp_right fun ⟨hload, hpos⟩ =>
    ⟨hload, by have := f.rank_lt; omega⟩)

theorem Agree.readNodesFrom : ∀ (k i : Nat) {s t : Registry D}, Agree (K.upto json i 0) s t →
    Alike (Agree (K.loaded json n)) (fun _ => Agree (K.upto json (i + k) 0)) (readNodesFrom json i k s)
      (readNodesFrom json i k t)
  | 0, _, _, _, h => Matches.pure h
  | k + 1, i, _, _, h => by
    refine Matches.bind h.readNode fun _ s' t' _ h' => ?_
    rw [show i + (k + 1) = i + 1 + k by omega]
    exact readNodesFrom k (i + 1) h'

/-- **The loop**, whether it gets to the end or throws. -/
theorem Agree.readEntries (h : Agree K s t) (json : JsonValue D) (n : Nat) :
    Alike (Agree (K.loaded json n)) (fun _ => Agree (K.loaded json n)) (MiniRos2.readNodesFrom json 0 n s)
      (MiniRos2.readNodesFrom json 0 n t) := by
  have hstart := h.weakenNodes (P := (K.upto json 0 0).node) fun i f hf => hf.resolve_right fun ⟨_, hpos⟩ => by omega
  refine (Agree.readNodesFrom n 0 hstart).weaken (fun _ _ h' => h') fun _ s' t' h' => ?_
  exact h'.weakenNodes fun i f hf => hf.imp_right fun ⟨hi, hload⟩ => ⟨hload, .inl (by omega)⟩

end Loop

/-! ## The loop over the topics -/

section TopicLoop

variable {K : Known} {s t : Registry D}

/-- What is set when the loop has come to entry `i`, or has thrown before it has read `n` entries. -/
def Known.uptoTopic (K : Known) (json : JsonValue D) (i : Nat) : Known :=
  { K with topic := fun j => K.topic j ∨ j < i ∧ ∀ k, k ≤ j → TopicParses json k }

theorem Agree.readTopic {json : JsonValue D} {i n : Nat} (h : Agree (K.uptoTopic json i) s t) :
    Alike (Agree (K.uptoTopic json n)) (fun _ => Agree (K.uptoTopic json (i + 1))) (readTopic json i s)
      (readTopic json i t) := by
  -- it throws at an entry that the text does not have
  have hstop : ∀ {s' t' : Registry D}, Agree (K.uptoTopic json i) s' t' → ¬ TopicParses json i →
      Agree (K.uptoTopic json n) s' t' := fun h' hnot => h'.weakenTopics fun j hj => hj.imp_right fun ⟨_, hparses⟩ =>
    ⟨by_contra fun hle => hnot (hparses i (by omega)), hparses⟩
  unfold MiniRos2.readTopic
  refine Alike.liftE_bind rfl (fun e he => .inr (hstop h ?_)) fun event_id_ _ => ?_
  · rintro ⟨⟨a, ha⟩, -⟩
    rw [ha] at he
    cases he
  generalize hx : topicSlot (i : Int) = x
  refine Alike.liftE_bind rfl (fun e he => .inl (arraySlot_error (hx.trans he))) fun slot hslot => ?_
  obtain ⟨hslot, -⟩ := arraySlot_eq_ok (hx.trans hslot)
  obtain rfl : slot = i := by omega
  rw [Op.bind_ok (modifyTopics_eq _ _), Op.bind_ok (modifyTopics_eq _ _)]
  refine Alike.liftE_bind rfl (fun e he => .inr (hstop (h.keepTopic slot) ?_)) fun name_ _ => ?_
  · rintro ⟨-, a, ha⟩
    rw [ha] at he
    cases he
  rw [modifyTopics_eq, modifyTopics_eq]
  simp only [Registry.mapTopics_mapTopics, TopicsInfo.set_set]
  refine ⟨rfl, (h.setTopic slot (f := fun _ => ⟨name_, event_id_⟩) (g := fun _ => _) rfl).weakenTopics fun j hj => ?_⟩
  rcases hj with hj | ⟨hlt, hparses⟩
  · exact .inl (.inl hj)
  · by_cases hj : j = slot
    · exact .inr hj
    · exact .inl (.inr ⟨by omega, hparses⟩)

theorem Agree.readTopicsFrom {json : JsonValue D} {n : Nat} : ∀ (k i : Nat) {s t : Registry D},
    Agree (K.uptoTopic json i) s t → Alike (Agree (K.uptoTopic json n)) (fun _ => Agree (K.uptoTopic json (i + k)))
      (readTopicsFrom json i k s) (readTopicsFrom json i k t)
  | 0, _, _, _, h => Matches.pure h
  | k + 1, i, _, _, h => by
    refine Matches.bind h.readTopic fun _ s' t' _ h' => ?_
    rw [show i + (k + 1) = i + 1 + k by omega]
    exact readTopicsFrom k (i + 1) h'

theorem preserves_shm_readTopic (shm : Region) (json : JsonValue D) (i : Nat) :
    Preserves (fun s : Registry D => s.shm = shm) (readTopic json i) := by
  have hset : ∀ f, Preserves (fun s : Registry D => s.shm = shm) (modifyTopics f) := fun f _ hs => hs
  exact .liftE_bind fun _ _ => .liftE_bind fun _ _ => (hset _).bind fun _ => .liftE_bind fun _ _ => hset _

end TopicLoop

/-! ## The readers -/

section Readers

variable {K : Known} {s t : Registry D}

/-- The handler gets two managers that agree as well. -/
theorem Alike.catchStd {E E' Q : Registry D → Registry D → Prop} {x handler : Op D Unit}
    (h : Alike E (fun _ => Q) (x s) (x t))
    (hh : ∀ s' t' : Registry D, E s' t' → Alike E' (fun _ => Q) (handler s') (handler t')) :
    Alike E' (fun _ => Q) (catchStd x handler s) (MiniRos2.catchStd x handler t) := by
  unfold MiniRos2.catchStd
  cases hs : x s with
  | ok a s' =>
    rw [hs] at h
    cases ht : x t with
    | ok b t' =>
      rw [ht] at h
      exact h
    | error e t' =>
      rw [ht] at h
      exact h.elim
  | error e s' =>
    rw [hs] at h
    cases e with
    | throws e =>
      have hkept : ¬ (Abort.throws e).Lost := fun hlost => hlost e rfl
      cases ht : x t with
      | ok b t' =>
        rw [ht] at h
        exact absurd h hkept
      | error e' t' =>
        rw [ht] at h
        obtain ⟨rfl, hE⟩ := h.resolve_left hkept
        exact hh s' t' hE
    | undefined => exact Matches.of_lost Abort.lost_undefined _ _
    | outOfFuel =>
      have hlost : Abort.outOfFuel.Lost := fun _ => nofun
      exact Matches.of_lost hlost _ _

theorem Agree.setNodesCount (h : Agree K s t) (c : Int32) : Agree { K with nodes_count := True }
    (s.mapNodes fun n => { n with nodes_count := c }) (t.mapNodes fun n => { n with nodes_count := c }) :=
  h.mapNodes (fun _ => rfl) h.alive_node_count h.node rfl rfl

theorem Agree.setAliveNodeCount (h : Agree K s t) (c : Int32) : Agree { K with alive_node_count := True }
    (s.mapNodes fun n => { n with alive_node_count := c }) (t.mapNodes fun n => { n with alive_node_count := c }) :=
  h.mapNodes h.nodes_count (fun _ => rfl) h.node rfl rfl

theorem Agree.clearNodes (h : Agree K s t) : Agree { K with nodes_count := True, alive_node_count := True }
    (s.mapNodes NodesInfo.clear) (t.mapNodes NodesInfo.clear) :=
  h.mapNodes (fun _ => rfl) (fun _ => rfl) h.node rfl rfl

theorem Agree.clearTopics (h : Agree K s t) : Agree { K with topics_count := True }
    (s.mapTopics fun t => { t with topics_count := 0 }) (t.mapTopics fun t => { t with topics_count := 0 }) :=
  h.mapTopics (fun _ => rfl) h.topic rfl rfl rfl

variable [DoubleText D]

/-- **The texts are the same**: the two readers go the same way up to the parsed value. -/
theorem Agree.readText (h : Agree K s t) {size offset : Nat} {E Q : Registry D → Registry D → Prop} {c : Op D Unit}
    {body : JsonValue D → Op D Unit} (hstop : (∀ json : JsonValue D, ¬ s.shm.Text size offset json) → E s t)
    (hblank : (∀ json : JsonValue D, ¬ s.shm.Text size offset json) → Alike E (fun _ => Q) (c s) (c t))
    (hbody : ∀ json : JsonValue D, s.shm.Text size offset json → Alike E (fun _ => Q) (body json s) (body json t)) :
    Alike E (fun _ => Q)
      ((get >>= fun s => liftE (s.shm.read size offset) >>= fun data => liftE (stringOf data) >>= fun jsonStr =>
        if jsonStr.all isSpace then c else liftE (deserialize jsonStr) >>= body) s)
      ((get >>= fun s => liftE (s.shm.read size offset) >>= fun data => liftE (stringOf data) >>= fun jsonStr =>
        if jsonStr.all isSpace then c else liftE (deserialize jsonStr) >>= body) t) := by
  rw [Op.get_bind, Op.get_bind, ← h.shm]
  refine Alike.liftE_bind rfl (fun e he => .inr (hstop ?_)) fun data hdata => ?_
  · rintro json ⟨w, hw, -⟩
    obtain ⟨buf, hbuf, -⟩ := Except.bind_eq_ok hw
    cases he.symm.trans hbuf
  have hsec : (s.shm.read size offset >>= stringOf) = stringOf data := by rw [hdata, Except.ok_bind]
  refine Alike.liftE_bind rfl (fun e he => .inr (hstop ?_)) fun jsonStr hstr => ?_
  · rintro json ⟨w, hw, -⟩
    cases he.symm.trans (hsec.symm.trans hw)
  rw [hstr] at hsec
  by_cases hspace : jsonStr.all isSpace = true
  · rw [if_pos hspace]
    refine hblank ?_
    rintro json ⟨w, hw, hnot, -⟩
    cases hsec.symm.trans hw
    exact hnot hspace
  rw [if_neg hspace]
  refine Alike.liftE_bind rfl (fun e he => .inr (hstop ?_)) fun json hjson => hbody json ⟨_, hsec, hspace, hjson⟩
  rintro json ⟨w, hw, -, hjson⟩
  cases hsec.symm.trans hw
  cases he.symm.trans hjson

theorem Agree.parseNodesInfo (h : Agree K s t) :
    Alike (Agree (K.thrownNodes D s.shm)) (fun _ => Agree (K.readNodes D s.shm)) (parseNodesInfo s)
      (parseNodesInfo t) := by
  have hnone : (∀ json : JsonValue D, ¬ s.shm.Text NODE_INFO_SIZE TOPIC_INFO_SIZE json) →
      ∀ i f, K.node i f ∨ s.shm.NodeField D i f → K.node i f := by
    rintro hno i f (hK | ⟨json, n, a, hjson, -⟩)
    · exact hK
    · exact absurd hjson (hno json)
  refine h.readText (fun hno => h.weakenNodes (hnone hno))
    (fun hno => ⟨rfl, h.clearNodes.weakenNodes (hnone hno)⟩) fun json hjson => ?_
  refine Alike.liftE_bind rfl (fun e he => .inr (h.weakenNodes fun i f hf => hf.resolve_right ?_))
    fun nodes_count hcount => ?_
  · rintro ⟨json', n, a, hjson', hn, -⟩
    obtain rfl := hjson.unique hjson'
    cases he.symm.trans hn
  rw [Op.bind_ok (modifyNodes_eq _ _), Op.bind_ok (modifyNodes_eq _ _)]
  have h₁ := h.setNodesCount nodes_count
  have hfield : ∀ i f, s.shm.NodeField D i f → i < nodes_count.toInt.toNat ∧ Loads json i f ∧
      ∃ a, (json.atKey (utf8 "alive_node_count") >>= JsonValue.asInt) = .ok a := by
    rintro i f ⟨json', n, a, hjson', hn, ha, hi, hload⟩
    obtain rfl := hjson.unique hjson'
    cases hcount.symm.trans hn
    exact ⟨hi, hload, a, ha⟩
  refine Alike.liftE_bind rfl (fun e he => .inr ?_) fun alive_node_count _ => ?_
  · refine { h₁.weakenNodes fun i f hf => hf.resolve_right fun hf => ?_ with
      nodes_count := fun _ => h₁.nodes_count trivial }
    obtain ⟨-, -, a, ha⟩ := hfield i f hf
    cases he.symm.trans ha
  rw [Op.bind_ok (modifyNodes_eq _ _), Op.bind_ok (modifyNodes_eq _ _)]
  have hloop := (h₁.setAliveNodeCount alive_node_count).readEntries json nodes_count.toInt.toNat
  have hset : ∀ i f, K.node i f ∨ s.shm.NodeField D i f → K.node i f ∨ i < nodes_count.toInt.toNat ∧ Loads json i f :=
    fun i f hf => hf.imp_right fun hf => ⟨(hfield i f hf).1, (hfield i f hf).2.1⟩
  refine hloop.weaken (fun s' t' h' => ?_) fun _ s' t' h' => h'.weakenNodes hset
  exact { h'.weakenNodes hset with
    nodes_count := fun _ => h'.nodes_count trivial, alive_node_count := fun _ => h'.alive_node_count trivial }

theorem Agree.readNodesInfo (h : Agree K s t) {E : Registry D → Registry D → Prop} :
    Alike E (fun _ => Agree (K.readNodes D s.shm)) (readNodesInfo_ s)
      (readNodesInfo_ t) :=
  h.parseNodesInfo.catchStd fun _ _ h' => ⟨rfl, h'.clearNodes⟩

theorem Agree.parseTopicsInfo (h : Agree K s t) :
    Alike (Agree (K.thrownTopics D s.shm)) (fun _ => Agree (K.readTopics D s.shm)) (parseTopicsInfo s)
      (parseTopicsInfo t) := by
  have hnone : (∀ json : JsonValue D, ¬ s.shm.Text TOPIC_INFO_SIZE 0 json) →
      ∀ i, K.topic i ∨ s.shm.TopicEntry D i → K.topic i := by
    rintro hno i (hK | ⟨json, n, hjson, -⟩)
    · exact hK
    · exact absurd hjson (hno json)
  refine h.readText (fun hno => h.weakenTopics (hnone hno))
    (fun hno => ⟨rfl, h.clearTopics.weakenTopics (hnone hno)⟩) fun json hjson => ?_
  refine Alike.liftE_bind rfl (fun e he => .inr (h.weakenTopics fun i hi => hi.resolve_right ?_))
    fun topics_count hcount => ?_
  · rintro ⟨json', n, hjson', hn, -⟩
    obtain rfl := hjson.unique hjson'
    cases he.symm.trans hn
  rw [Op.bind_ok (modifyTopics_eq _ _), Op.bind_ok (modifyTopics_eq _ _)]
  have h₁ : Agree { K with topics_count := True } (s.mapTopics fun t => { t with topics_count := topics_count })
      (t.mapTopics fun t => { t with topics_count := topics_count }) :=
    h.mapTopics (fun _ => rfl) h.topic rfl rfl rfl
  have hentry : ∀ i, s.shm.TopicEntry D i → i < topics_count.toInt.toNat ∧ ∀ j, j ≤ i → TopicParses json j := by
    rintro i ⟨json', n, hjson', hn, hi, hparses⟩
    obtain rfl := hjson.unique hjson'
    cases hcount.symm.trans hn
    exact ⟨hi, hparses⟩
  have hstart := h₁.weakenTopics (P := (K.uptoTopic json 0).topic) fun i hi =>
    hi.resolve_right fun ⟨hlt, _⟩ => absurd hlt (Nat.not_lt_zero i)
  have hloop := Agree.readTopicsFrom (n := topics_count.toInt.toNat) topics_count.toInt.toNat 0 hstart
  rw [Nat.zero_add] at hloop
  refine hloop.weaken (fun s' t' h' => ?_) fun _ s' t' h' => ?_
  · exact { h'.weakenTopics fun i hi => hi.imp_right (hentry i) with topics_count := fun _ => h'.topics_count trivial }
  · exact h'.weakenTopics fun i hi => hi.imp_right (hentry i)

theorem Agree.readTopicsInfo (h : Agree K s t) {E : Registry D → Registry D → Prop} :
    Alike E (fun _ => Agree (K.readTopics D s.shm)) (readTopicsInfo_ s)
      (readTopicsInfo_ t) :=
  h.parseTopicsInfo.catchStd fun _ _ h' => ⟨rfl, h'.clearTopics⟩

/-- A reader leaves the region alone. -/
theorem readTopicsInfo_shm (s : Registry D) : (finalState (readTopicsInfo_ s)).shm = s.shm := by
  have hset : ∀ f, Preserves (fun s' : Registry D => s'.shm = s.shm) (modifyTopics f) := fun f _ hs => hs
  have hparse : Preserves (fun s' : Registry D => s'.shm = s.shm) parseTopicsInfo := by
    intro s' hs'
    refine (show Preserves (fun s' : Registry D => s'.shm = s.shm) _ from
      .liftE_bind fun data _ => .liftE_bind fun jsonStr _ => ?_) s' hs'
    split
    · exact hset _
    · refine .liftE_bind fun json _ => .liftE_bind fun n _ => (hset _).bind fun _ => ?_
      exact .loop (fun _ => rfl) (fun _ _ => rfl) (preserves_shm_readTopic s.shm json) 0 _
  have hs := hparse s rfl
  unfold readTopicsInfo_ catchStd
  split
  · rename_i e s' h
    rw [h] at hs
    exact hs
  · exact hs

/-- **Both readers**, as the constructor and `syncRegistryFromShm` call them. -/
def Known.read (D : Type) [DoubleText D] (K : Known) (shm : Region) : Known := (K.readTopics D shm).readNodes D shm

theorem Agree.syncRegistry (h : Agree K s t) {E : Registry D → Registry D → Prop} :
    Alike E (fun _ => Agree (K.read D s.shm)) (syncRegistryFromShm s) (syncRegistryFromShm t) := by
  have hshm := readTopicsInfo_shm s
  refine Matches.bind h.readTopicsInfo fun _ s' t' hs' h' => ?_
  rw [hs'] at hshm
  have hnodes := h'.readNodesInfo (E := E)
  rwa [show s'.shm = s.shm from hshm] at hnodes

end Readers

end MiniRos2

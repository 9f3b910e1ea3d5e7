import MiniRos2.NodeCounts
import MiniRos2.TopicSection
import MiniRos2.TopicSlots
/-!
# EventAgree — the event ids of several nodes

Every node makes ids from its own copy of the topic table and writes the copy over the shared one.  As long as a node
adds a topic, with a name that can be read back, only to a copy that is the shared table, or adds the very topic that
the shared table has more, and subscribes only to topics it sees, every copy is the front of the shared table
(`Bus.SoundAt`), and all nodes have the same id for a topic and different ids for different topics (`agree_of_run`).  A
subscription of a topic that its node does not see is recorded under an id that no lookup gives (`agree_not_always`).
-/
namespace MiniRos2

variable {D : Type}

/-! ## Tables with one id for each name -/

/-- **An id belongs to one name**, id 0 to entries without a name; no id is negative, and nothing is behind the scanned
entries. -/
structure TopicsInfo.Tidy (t : TopicsInfo) : Prop where
  bounded : t.Bounded
  blank : ∀ j, t.count ≤ j → t.topics j = TopicInfo.zero
  id_nonneg : ∀ j, j < t.count → 0 ≤ (t.topics j).event_id_.toInt
  unnamed : ∀ j, j < t.count → (t.topics j).event_id_ = 0 → (t.topics j).name_.bytes = []
  distinct : ∀ i j, i < t.count → j < t.count → (t.topics i).event_id_ = (t.topics j).event_id_ →
    (t.topics i).name_.bytes = (t.topics j).name_.bytes

theorem TopicsInfo.zero_tidy : TopicsInfo.zero.Tidy where
  bounded := TopicsInfo.zero_bounded
  blank _ _ := rfl
  id_nonneg j hj := absurd hj (Nat.not_lt_zero j)
  unnamed j hj := absurd hj (Nat.not_lt_zero j)
  distinct i _ hi := absurd hi (Nat.not_lt_zero i)

/-- An entry behind the last one, with the id and the name of an entry that is there. -/
theorem TopicsInfo.Tidy.put_found {t : TopicsInfo} (h : t.Tidy) {i : Nat} (hi : i < t.count) {name : CName}
    (hname : name.bytes = (t.topics i).name_.bytes) (hle : t.topics_count.toInt < MAX_TOPICS_PER_NODE) :
    (t.put t.count ⟨name, (t.topics i).event_id_⟩).Tidy := by
  have hid := h.bounded.id_le i
  obtain ⟨hb, -⟩ := TopicsInfo.put_spec (x := ⟨name, (t.topics i).event_id_⟩) h.bounded (Nat.le_refl t.count) hle
    (hid.trans (by exact_mod_cast Nat.le_of_lt hi))
  obtain ⟨-, hc⟩ := TopicsInfo.put_count h.bounded t.count ⟨name, (t.topics i).event_id_⟩
  -- every entry of the new table has the id and the name of an entry of the old one
  have hold : ∀ j, j < t.count + 1 → ∃ k, k < t.count ∧
      ((t.put t.count ⟨name, (t.topics i).event_id_⟩).topics j).event_id_ = (t.topics k).event_id_ ∧
      ((t.put t.count ⟨name, (t.topics i).event_id_⟩).topics j).name_.bytes = (t.topics k).name_.bytes := by
    intro j hj
    by_cases hjc : j = t.count
    · subst hjc
      rw [TopicsInfo.put_self]
      exact ⟨i, hi, rfl, hname⟩
    · rw [TopicsInfo.put_of_ne _ _ hjc]
      exact ⟨j, by omega, rfl, rfl⟩
  refine ⟨hb, fun j hj => ?_, fun j hj => ?_, fun j hj hz => ?_, fun j k hj hk heq => ?_⟩
  · rw [TopicsInfo.put_of_ne _ _ (by omega)]
    exact h.blank j (by omega)
  · obtain ⟨l, hl, hlid, -⟩ := hold j (by omega)
    rw [hlid]
    exact h.id_nonneg l hl
  · obtain ⟨l, hl, hlid, hlname⟩ := hold j (by omega)
    rw [hlname]
    exact h.unnamed l hl (hlid ▸ hz)
  · obtain ⟨l, hl, hlid, hlname⟩ := hold j (by omega)
    obtain ⟨m, hm, hmid, hmname⟩ := hold k (by omega)
    rw [hlname, hmname]
    exact h.distinct l m hl hm (by rw [← hlid, ← hmid, heq])

/-- The table with a new topic: a blank entry, and the topic's behind it. -/
def TopicsInfo.putNew (t : TopicsInfo) (name₁ name : CName) : TopicsInfo :=
  (t.put (t.count + 1) ⟨name₁, t.topics_count + 1⟩).put (t.count + 1) ⟨name, t.topics_count + 1⟩

theorem TopicsInfo.putNew_count {t : TopicsInfo} (h : t.Bounded) (hlt : t.count + 1 < MAX_TOPICS_PER_NODE)
    (name₁ name : CName) : (t.putNew name₁ name).Bounded ∧ t.Extends (t.putNew name₁ name) ∧
      (t.putNew name₁ name).count = t.count + 2 ∧ (t.topics_count + 1).toInt = t.count + 1 := by
  have hcast := h.count_cast
  have hsucc : (t.topics_count + 1).toInt = t.topics_count.toInt + 1 := TopicsInfo.toInt_count_succ (by omega)
  have hid : (t.topics_count + 1).toInt ≤ ((t.count + 1 : Nat) : Int) := by omega
  obtain ⟨hb, hext⟩ := TopicsInfo.put_spec (x := ⟨name₁, t.topics_count + 1⟩) h (i := t.count + 1) (by omega)
    (by omega) hid
  obtain ⟨hn, hc⟩ := TopicsInfo.put_count h (t.count + 1) ⟨name₁, t.topics_count + 1⟩
  obtain ⟨hb', hext'⟩ := TopicsInfo.put_spec (x := ⟨name, t.topics_count + 1⟩) hb (i := t.count + 1) (by omega)
    (by omega) hid
  obtain ⟨-, hc'⟩ := TopicsInfo.put_count hb (t.count + 1) ⟨name, t.topics_count + 1⟩
  refine ⟨hb', hext.trans hext', ?_, by omega⟩
  rw [TopicsInfo.putNew, hc', hc]

theorem TopicsInfo.putNew_self (t : TopicsInfo) (name₁ name : CName) :
    (t.putNew name₁ name).topics (t.count + 1) = ⟨name, t.topics_count + 1⟩ := TopicsInfo.put_self _ _ _

theorem TopicsInfo.putNew_of_ne (t : TopicsInfo) (name₁ name : CName) {j : Nat} (h : j ≠ t.count + 1) :
    (t.putNew name₁ name).topics j = t.topics j := by
  rw [TopicsInfo.putNew, TopicsInfo.put_of_ne _ _ h, TopicsInfo.put_of_ne _ _ h]

/-- **A new topic's id is above every other.** -/
theorem TopicsInfo.Tidy.put_new {t : TopicsInfo} (h : t.Tidy) (hlt : t.count + 1 < MAX_TOPICS_PER_NODE)
    (name₁ name : CName) : (t.putNew name₁ name).Tidy := by
  obtain ⟨hb, -, hc, hid⟩ := TopicsInfo.putNew_count h.bounded hlt name₁ name
  have hold : ∀ j, j < t.count + 1 → (t.putNew name₁ name).topics j = t.topics j := fun j hj =>
    TopicsInfo.putNew_of_ne t name₁ name (by omega)
  have hcases : ∀ j, j < (t.putNew name₁ name).count → j < t.count + 1 ∨ j = t.count + 1 := fun j hj => by omega
  have hfresh : ∀ j, j < t.count + 1 → (t.topics j).event_id_ ≠ t.topics_count + 1 := fun j hj heq => by
    have hle := h.bounded.id_le j
    rw [heq] at hle
    omega
  -- the entry in front of the new one is blank
  have hhole : ∀ j, j < t.count + 1 → (t.topics j).event_id_ = 0 → (t.topics j).name_.bytes = [] := by
    intro j hj hz
    by_cases hjc : j < t.count
    · exact h.unnamed j hjc hz
    · rw [h.blank j (by omega)]
      rfl
  refine ⟨hb, fun j hj => ?_, fun j hj => ?_, fun j hj hz => ?_, fun j k hj hk heq => ?_⟩
  · rw [TopicsInfo.putNew_of_ne t name₁ name (by omega)]
    exact h.blank j (by omega)
  · rcases hcases j hj with hj | rfl
    · rw [hold j hj]
      by_cases hjc : j < t.count
      · exact h.id_nonneg j hjc
      · rw [h.blank j (by omega)]
        exact Int.le_refl 0
    · rw [TopicsInfo.putNew_self]
      show 0 ≤ (t.topics_count + 1).toInt
      omega
  · rcases hcases j hj with hj | rfl
    · rw [hold j hj] at hz ⊢
      exact hhole j hj hz
    · rw [TopicsInfo.putNew_self] at hz
      have hint : (t.topics_count + 1).toInt = 0 := congrArg Int32.toInt hz
      omega
  · rcases hcases j hj with hj | rfl
    · rcases hcases k hk with hk | rfl
      · rw [hold j hj, hold k hk] at heq ⊢
        by_cases hjc : j < t.count
        · by_cases hkc : k < t.count
          · exact h.distinct j k hjc hkc heq
          · rw [h.blank k (by omega)] at heq ⊢
            exact hhole j hj heq
        · rw [h.blank j (by omega)] at heq ⊢
          exact (hhole k hk heq.symm).symm
      · rw [hold j hj, TopicsInfo.putNew_self] at heq
        exact absurd heq (hfresh j hj)
    · rcases hcases k hk with hk | rfl
      · rw [hold k hk, TopicsInfo.putNew_self] at heq
        exact absurd heq.symm (hfresh k hk)
      · rfl

/-- **What `addPubTopic` makes of a table.** -/
theorem addPub_cases {t t' : TopicsInfo} {topic event : List UInt8} (h : t.Bounded)
    (he : (TopicCall.addPub topic event).Effect t t') :
    (∃ i name, t.First (fullName topic event) i ∧ strcpy (fullName topic event) = .ok name ∧
        t.topics_count.toInt < MAX_TOPICS_PER_NODE ∧ t' = t.put t.count ⟨name, (t.topics i).event_id_⟩) ∨
      ∃ name₁ name, t.Absent (fullName topic event) ∧ strcpy (fullName topic event) = .ok name ∧
        t.count + 1 < MAX_TOPICS_PER_NODE ∧ t' = t.putNew name₁ name := by
  obtain ⟨id, t₁, j, name, hfc, hn, hj, rfl⟩ := he
  obtain ⟨hslot, hlt⟩ := arraySlot_eq_ok hj
  have hcast := h.count_cast
  cases hfc with
  | @found i hi =>
    obtain rfl : j = t.count := by omega
    exact .inl ⟨i, name, hi, hn, by omega, rfl⟩
  | full ha hmax => omega
  | @created i name₁ ha hmax hi _ =>
    obtain ⟨hcount, -⟩ := TopicsInfo.put_count h i ⟨name₁, t.topics_count + 1⟩
    obtain ⟨hislot, -⟩ := arraySlot_eq_ok hi
    have hsucc : (t.topics_count + 1).toInt = t.topics_count.toInt + 1 := TopicsInfo.toInt_count_succ (by omega)
    obtain rfl : i = t.count + 1 := by omega
    obtain rfl : j = t.count + 1 := by omega
    exact .inr ⟨name₁, name, ha, hn, hlt, rfl⟩

theorem TopicsInfo.Tidy.addPub {t t' : TopicsInfo} {topic event : List UInt8} (h : t.Tidy)
    (he : (TopicCall.addPub topic event).Effect t t') : t'.Tidy := by
  rcases addPub_cases h.bounded he with ⟨i, name, hi, hn, hlt, rfl⟩ | ⟨name₁, name, -, -, hlt, rfl⟩
  · refine h.put_found hi.1 ?_ hlt
    rw [strcpy_eq_ok hn, ← hi.2.2.1, CName.cstr_bytes]
  · exact h.put_new hlt name₁ name

/-! ## One shared table and its copies -/

/-- The shared table has one more topic than the copy, and it is this one. -/
structure TopicsInfo.OneMore (t shared : TopicsInfo) (full_name : List UInt8) : Prop where
  absent : t.Absent full_name
  count : shared.count = t.count + 2
  blank : shared.topics t.count = TopicInfo.zero
  name_ : (shared.topics (t.count + 1)).name_.bytes = full_name
  event_id_ : (shared.topics (t.count + 1)).event_id_ = t.topics_count + 1

/-- **A topic added to the front of the shared table extends the shared table** when the front is all of it, or when the
topic is what it has more. -/
theorem extends_of_addPub {t shared t' : TopicsInfo} {topic event : List UInt8} (h : t.Tidy) (hext : t.Extends shared)
    (hord : t.count = shared.count ∨ t.OneMore shared (fullName topic event))
    (he : (TopicCall.addPub topic event).Effect t t') : shared.Extends t' := by
  rcases hord with hall | hmore
  · have hback : shared.Extends t := ⟨hall.ge, fun j hj => (hext.2 j (by omega)).symm⟩
    exact hback.trans (he.spec h.bounded).2
  · rcases addPub_cases h.bounded he with ⟨i, name, hi, -⟩ | ⟨name₁, name, -, hn, hlt, rfl⟩
    · exact absurd hi (not_first_of_absent hmore.absent i)
    · obtain ⟨-, -, hc, -⟩ := TopicsInfo.putNew_count h.bounded hlt name₁ name
      refine ⟨by rw [hc, hmore.count], fun j hj => ?_⟩
      rw [hmore.count] at hj
      by_cases hnew : j = t.count + 1
      · subst hnew
        have hname : name = (shared.topics (t.count + 1)).name_ := by
          refine CName.ext ?_
          rw [strcpy_eq_ok hn, ← hmore.name_, CName.cstr_bytes]
        rw [TopicsInfo.putNew_self, hname, ← hmore.event_id_]
      · rw [TopicsInfo.putNew_of_ne t name₁ name hnew]
        by_cases hjc : j = t.count
        · rw [hjc, h.blank _ (Nat.le_refl _), hmore.blank]
        · exact (hext.2 j (by omega)).symm

/-! ## Nodes on one region -/

/-- An entry of `subscription_event_ids_`. -/
structure Subscription where
  node : Nat
  full_name : List UInt8
  event_id : Int32
  deriving DecidableEq

/-- The nodes, and what they have recorded. -/
structure Bus (D : Type) where
  nodes : Cluster D
  subscriptions : List Subscription

inductive BusCall where
  | registerNode (x : NewNode)
  | addPubTopic (topic_name event_name : List UInt8)
  | addSubTopic (topic_name event_name : List UInt8)
  | registerTopicEvent (topic_name event_name : List UInt8)
  | triggerEvent (topic_name event_name : List UInt8)

inductive BusAct where
  | construct
  | call (i : Nat) (c : BusCall)

def Bus.init : Bus D := ⟨Cluster.init, []⟩

/-- Whatever bits are set, the call sets this one and no other. -/
def SetsBit (s : Registry D) (topic_name event_name : List UInt8) (p : Nat) : Prop :=
  ∀ flags, (triggerEvent topic_name event_name : Op D Unit) { s with event_flag_ := flags } =
    .ok () { s with event_flag_ := Function.update flags p true }

/-- The node has recorded the id for the topic, or finds it in its copy. -/
def Bus.HoldsId (b : Bus D) (i : Nat) (full_name : List UInt8) (event_id : Int32) : Prop :=
  0 ≤ event_id.toInt ∧ (⟨i, full_name, event_id⟩ ∈ b.subscriptions ∨
    ∃ topic event, full_name = fullName topic event ∧
      getTopicEventId_ topic event (b.nodes.view i) = .ok event_id (b.nodes.view i))

/-- **All nodes agree on the event ids**: the bit that a node sets for a topic is the one that another has recorded for
it, and the ids that two nodes hold for different topics are different. -/
structure Bus.Agree (b : Bus D) : Prop where
  same : ∀ (i j : Nat) (topic event : List UInt8) (s : Int32) (p : Nat), i < b.nodes.started →
    j < b.nodes.started → i ≠ j →
    ⟨i, fullName topic event, s⟩ ∈ b.subscriptions → SetsBit (b.nodes.view j) topic event p → s.toInt = p
  different : ∀ i j f g s p, i < b.nodes.started → j < b.nodes.started → i ≠ j → f ≠ g →
    b.HoldsId i f s → b.HoldsId j g p → s ≠ p

section Bus

variable [DoubleText D]

/-- A call, and the event id that it records. -/
def BusCall.run : BusCall → Op D (Option Int32)
  | .registerNode x => MiniRos2.registerNode x >>= fun _ => pure none
  | .addPubTopic topic event => MiniRos2.addPubTopic topic event >>= fun _ => pure none
  | .addSubTopic topic event => MiniRos2.addSubTopic topic event >>= fun _ => pure none
  | .registerTopicEvent topic event => MiniRos2.registerTopicEvent topic event >>= fun event_id => pure (some event_id)
  | .triggerEvent topic event => MiniRos2.triggerEvent topic event >>= fun _ => pure none

/-- What the node adds to `subscription_event_ids_`. -/
def BusCall.record (i : Nat) : BusCall → Option (Option Int32) → List Subscription
  | .registerTopicEvent topic event, some (some event_id) => [⟨i, fullName topic event, event_id⟩]
  | _, _ => []

/-- The table is far from full: its text ends in the topic section. -/
def FarFromFull (s : Registry D) : Prop := (topicsText D s.mgr.topics_).length < TOPIC_INFO_SIZE

instance (s : Registry D) : Decidable (FarFromFull s) := inferInstanceAs (Decidable (_ < _))

/-- After a call of node `i`. -/
def Bus.after (b : Bus D) (i : Nat) (c : BusCall) : Bus D :=
  ⟨b.nodes.put i (finalState (c.run (b.nodes.view i))), b.subscriptions ++ c.record i (answer (c.run (b.nodes.view i)))⟩

/-- **One constructor's reads, or one call.** -/
inductive BusAct.Step (b : Bus D) : BusAct → Bus D → Prop where
  | construct : ¬ Undefined (initializeRegistry_ b.nodes.newcomer) →
      Step b .construct { b with nodes := b.nodes.enrol (finalState (initializeRegistry_ b.nodes.newcomer)) }
  | call {i : Nat} {c : BusCall} : i < b.nodes.started → ¬ Undefined (c.run (b.nodes.view i)) →
      FarFromFull (finalState (c.run (b.nodes.view i))) → Step b (.call i c) (b.after i c)

/-- What a constructor would read now. -/
def Bus.shared (b : Bus D) : TopicsInfo := (finalState (readTopicsInfo_ b.nodes.newcomer)).mgr.topics_

/-- **A node adds a topic to a copy that is the shared table, or adds the one topic that the shared table has more**,
and the topic's name has no backspace; it subscribes to topics it sees, and registers them when its copy is the shared
table. -/
def Bus.InOrder (b : Bus D) : BusAct → Prop
  | .call i (.addPubTopic topic event) => 8 ∉ fullName topic event ∧
      ((b.nodes.cache i).topics_.count = b.shared.count ∨
        (b.nodes.cache i).topics_.OneMore b.shared (fullName topic event))
  | .call i (.addSubTopic topic event) => ∃ k, (b.nodes.cache i).topics_.First (fullName topic event) k
  | .call i (.registerTopicEvent topic event) => (∃ k, (b.nodes.cache i).topics_.First (fullName topic event) k) ∧
      (b.nodes.cache i).topics_.count = b.shared.count
  | _ => True

/-! ## Every copy is the front of the shared table -/

/-- **The region holds the table, which can be read, the copies are fronts of it, and the recorded ids are its ids.** -/
structure Bus.SoundAt (b : Bus D) (t : TopicsInfo) : Prop where
  region : TopicRegion D b.nodes.shm t
  tidy : t.Tidy
  legible : t.Legible
  copies : ∀ i, i < b.nodes.started → (b.nodes.cache i).topics_.Tidy ∧ (b.nodes.cache i).topics_.Extends t
  recorded : ∀ x ∈ b.subscriptions, ∃ k, t.First x.full_name k ∧ (t.topics k).event_id_ = x.event_id

theorem Bus.init_sound : (Bus.init : Bus D).SoundAt TopicsInfo.zero where
  region := .fresh
  tidy := TopicsInfo.zero_tidy
  legible := TopicsInfo.zero_plain.legible
  copies i hi := absurd hi (Nat.not_lt_zero i)
  recorded _ hx := absurd hx List.not_mem_nil

omit [DoubleText D] in
theorem TopicsInfo.Tidy.load_zero {t : TopicsInfo} (h : t.Tidy) : t.load TopicsInfo.zero = t := by
  have htopics : (t.load TopicsInfo.zero).topics = t.topics := by
    funext j
    show (if j < t.count then t.topics j else TopicInfo.zero) = t.topics j
    split
    · rfl
    · exact (h.blank j (by omega)).symm
  exact congrArg (TopicsInfo.mk t.topics_count) htopics

omit [DoubleText D] in
theorem TopicsInfo.Extends.legible {t t' : TopicsInfo} (h : t.Extends t') (hl : t'.Legible) : t.Legible := by
  intro j hj
  rw [← h.2 j hj]
  exact hl j (Nat.lt_of_lt_of_le hj h.1)

omit [DoubleText D] in
theorem TopicsInfo.Tidy.plain {t : TopicsInfo} (h : t.Tidy) (hl : t.Legible) : t.Plain := by
  intro j
  by_cases hj : j < t.count
  · exact hl j hj
  · rw [h.blank j (by omega)]
    exact List.not_mem_nil

theorem Bus.SoundAt.shared_eq {b : Bus D} {t : TopicsInfo} (h : b.SoundAt t) : b.shared = t := by
  unfold Bus.shared
  rw [h.region.reads (s := b.nodes.newcomer) rfl, TopicsInfo.seen_of_legible h.legible]
  exact h.tidy.load_zero

omit [DoubleText D] in
theorem keepsTopics_answer {α β : Type} {x : Op D α} (h : KeepsTopics x) (f : α → β) :
    KeepsTopics (x >>= fun a => pure (f a)) := h.bind fun a => .pure (f a)

/-- **A call that leaves the table alone**, or makes it grow. -/
theorem Bus.SoundAt.put {b : Bus D} {t t' : TopicsInfo} (h : b.SoundAt t) (hext : t.Extends t') (htidy : t'.Tidy)
    (hlegible : t'.Legible) {i : Nat} {s : Registry D} (hregion : TopicRegion D s.shm t')
    (hcopy : s.mgr.topics_.Tidy ∧ s.mgr.topics_.Extends t') {new : List Subscription}
    (hnew : ∀ x ∈ new, ∃ k, t'.First x.full_name k ∧ (t'.topics k).event_id_ = x.event_id) :
    (⟨b.nodes.put i s, b.subscriptions ++ new⟩ : Bus D).SoundAt t' where
  region := hregion
  tidy := htidy
  legible := hlegible
  copies := by
    refine (Function.forall_update_iff b.nodes.cache (p := fun j m => j < b.nodes.started →
      m.topics_.Tidy ∧ m.topics_.Extends t')).2 ⟨fun _ => hcopy, fun j _ hj => ?_⟩
    exact ⟨(h.copies j hj).1, (h.copies j hj).2.trans hext⟩
  recorded x hx := by
    rcases List.mem_append.1 hx with hx | hx
    · obtain ⟨k, hk, hid⟩ := h.recorded x hx
      obtain ⟨hk', hid'⟩ := hext.first hk
      exact ⟨k, hk', hid'.trans hid⟩
    · exact hnew x hx

/-- A call that leaves the topics alone and records nothing. -/
theorem Bus.SoundAt.keep {b : Bus D} {t : TopicsInfo} (h : b.SoundAt t) {i : Nat} (hi : i < b.nodes.started)
    {s : Registry D} (hs : SameTopics (b.nodes.view i) s) :
    (⟨b.nodes.put i s, b.subscriptions ++ []⟩ : Bus D).SoundAt t := by
  refine h.put (.refl t) h.tidy h.legible (h.region.same (s := b.nodes.view i) hs) ?_
    (fun x hx => absurd hx List.not_mem_nil)
  rw [hs.table]
  exact h.copies i hi

theorem KeepsTopics.registerNode (x : NewNode) : KeepsTopics (registerNode x : Op D Unit) := by
  refine .bind .get fun s => ?_
  dsimp only
  split
  · exact .pure ()
  · have hset : KeepsTopics (setNodeId (getNextNodeId s.mgr.nodes_) : Op D Unit) := fun _ => ⟨rfl, rfl, rfl⟩
    refine hset.bind fun _ => ?_
    split
    · exact .pure ()
    · exact .bind (.liftE _) fun name => .addNode _

/-- **One constructor's reads**: the new copy is the shared table. -/
theorem Bus.SoundAt.construct {b : Bus D} {t : TopicsInfo} (h : b.SoundAt t) :
    ({ b with nodes := b.nodes.enrol (finalState (initializeRegistry_ b.nodes.newcomer)) } : Bus D).SoundAt t := by
  have hread := h.region.reads (s := b.nodes.newcomer) rfl
  rw [TopicsInfo.seen_of_legible h.legible] at hread
  have hcopy : (b.nodes.newcomer.mapTopics t.load).mgr.topics_ = t := h.tidy.load_zero
  have hinit : initializeRegistry_ b.nodes.newcomer = readNodesInfo_ (b.nodes.newcomer.mapTopics t.load) :=
    Op.bind_ok hread
  have hkeep := KeepsTopics.readNodesInfo_ (b.nodes.newcomer.mapTopics t.load)
  rw [hinit]
  generalize finalState (readNodesInfo_ (b.nodes.newcomer.mapTopics t.load)) = s at hkeep
  have htable : s.mgr.topics_ = t := hkeep.table.trans hcopy
  refine ⟨h.region.congr hkeep.size hkeep.section_, h.tidy, h.legible, ?_, h.recorded⟩
  refine (Function.forall_update_iff b.nodes.cache (p := fun j m => j < b.nodes.started + 1 →
    m.topics_.Tidy ∧ m.topics_.Extends t)).2 ⟨fun _ => ?_, fun j hne hj => h.copies j (by omega)⟩
  rw [htable]
  exact ⟨h.tidy, .refl t⟩

/-- **A topic added in order** makes the shared table grow. -/
theorem Bus.SoundAt.addPub {b : Bus D} {t : TopicsInfo} (h : b.SoundAt t) {i : Nat} (hi : i < b.nodes.started)
    {topic event : List UInt8} (hord : b.InOrder (.call i (.addPubTopic topic event)))
    (hdef : ¬ Undefined (addPubTopic topic event (b.nodes.view i)))
    (hfits : FarFromFull (finalState (addPubTopic topic event (b.nodes.view i)))) :
    (⟨b.nodes.put i (finalState (addPubTopic topic event (b.nodes.view i))), b.subscriptions ++ []⟩ : Bus D).SoundAt
      (finalState (addPubTopic topic event (b.nodes.view i))).mgr.topics_ := by
  obtain ⟨htidy, hext⟩ := h.copies i hi
  have hsize : TOPIC_INFO_SIZE ≤ (b.nodes.view i).shm.size := by
    have hs : (b.nodes.view i).shm.size = sizeofShmHead + MAX_SHM_MANGER_SIZE := h.region.size
    rw [hs]
    decide
  obtain ⟨t', heff, hstores⟩ := addPubTopic_stores hsize htidy.bounded hdef hfits
  have hord' : (b.nodes.cache i).topics_.count = t.count ∨
      (b.nodes.cache i).topics_.OneMore t (fullName topic event) := by
    rw [← h.shared_eq]
    exact hord.2
  have hgrow := extends_of_addPub htidy hext hord' heff
  have htidy' := htidy.addPub heff
  have hplain := heff.plain (htidy.plain (hext.legible h.legible)) hord.1
  unfold FarFromFull at hfits
  rw [hstores.table] at hfits
  have hregion := hstores.region (t := t) h.region h.tidy.bounded.nonneg hgrow htidy'.bounded.valid hfits
  rw [hstores.table]
  refine h.put hgrow htidy' hplain.legible hregion ?_ (fun x hx => absurd hx List.not_mem_nil)
  rw [hstores.table]
  exact ⟨htidy', .refl t'⟩

/-- **A registration in order** records the shared table's id. -/
theorem Bus.SoundAt.register {b : Bus D} {t : TopicsInfo} (h : b.SoundAt t) {i : Nat} (hi : i < b.nodes.started)
    {topic event : List UInt8} (hord : b.InOrder (.call i (.registerTopicEvent topic event)))
    (hdef : ¬ Undefined (registerTopicEvent topic event (b.nodes.view i)))
    (hfits : FarFromFull (finalState (registerTopicEvent topic event (b.nodes.view i)))) :
    ∃ t' id s, registerTopicEvent topic event (b.nodes.view i) = .ok id s ∧
      (⟨b.nodes.put i s, b.subscriptions ++ [⟨i, fullName topic event, id⟩]⟩ : Bus D).SoundAt t' := by
  obtain ⟨htidy, hext⟩ := h.copies i hi
  obtain ⟨⟨k, hk⟩, hall⟩ := hord
  rw [h.shared_eq] at hall
  have hback : t.Extends (b.nodes.cache i).topics_ := ⟨hall.ge, fun j hj => (hext.2 j (by omega)).symm⟩
  have hsize : TOPIC_INFO_SIZE ≤ b.nodes.shm.size := by
    rw [h.region.size]
    decide
  have hfits' : (topicsText D (b.nodes.cache i).topics_).length < TOPIC_INFO_SIZE := by
    unfold FarFromFull at hfits
    rwa [registerTopicEvent_table (s := b.nodes.view i) hk hdef] at hfits
  have hok := registerTopicEvent_stores (s := b.nodes.view i) hsize htidy.bounded hk (htidy.id_nonneg k hk.1) hfits'
  have hregion := h.region.write h.tidy.bounded.nonneg hback htidy.bounded.valid hfits'
  refine ⟨(b.nodes.cache i).topics_, _, _, hok, ?_⟩
  refine h.put hback htidy (hext.legible h.legible) ?_ ?_ ?_
  · exact hregion
  · exact ⟨htidy, .refl _⟩
  intro x hx
  obtain rfl := List.mem_singleton.1 hx
  exact ⟨k, hk, rfl⟩

/-- **One step in order.** -/
theorem Bus.SoundAt.step {b b' : Bus D} {t : TopicsInfo} {a : BusAct} (h : b.SoundAt t) (hord : b.InOrder a)
    (hs : BusAct.Step b a b') : ∃ t', b'.SoundAt t' := by
  cases hs with
  | construct _ => exact ⟨t, h.construct⟩
  | @call i c hi hdef hfits =>
    cases c with
    | registerNode x => exact ⟨t, h.keep hi (keepsTopics_answer (.registerNode x) _ (b.nodes.view i))⟩
    | triggerEvent topic event =>
      exact ⟨t, h.keep hi (keepsTopics_answer (.triggerEvent topic event) _ (b.nodes.view i))⟩
    | addPubTopic topic event =>
      obtain ⟨hfin, hund⟩ := finalState_answer (addPubTopic topic event) (fun _ => (none : Option Int32))
        (b.nodes.view i)
      have h' := h.addPub hi hord (fun hu => hdef (hund.2 hu)) (hfin ▸ hfits)
      rw [← hfin] at h'
      exact ⟨_, h'⟩
    | addSubTopic topic event =>
      obtain ⟨k, hk⟩ := hord
      obtain ⟨hfin, hund⟩ := finalState_answer (addSubTopic topic event) (fun _ => (none : Option Int32))
        (b.nodes.view i)
      have hsame := addSubTopic_same (s := b.nodes.view i) hk (fun hu => hdef (hund.2 hu))
      rw [← hfin] at hsame
      exact ⟨t, h.keep hi hsame⟩
    | registerTopicEvent topic event =>
      obtain ⟨hfin, hund⟩ := finalState_answer (registerTopicEvent topic event) (fun id => some id) (b.nodes.view i)
      obtain ⟨t', id, s, hok, h'⟩ := h.register hi hord (fun hu => hdef (hund.2 hu)) (hfin ▸ hfits)
      have hrun : (BusCall.registerTopicEvent topic event).run (b.nodes.view i) = .ok (some id) s := Op.bind_ok hok
      refine ⟨t', ?_⟩
      rw [Bus.after, hrun]
      exact h'

/-! ## Agreement -/

omit [DoubleText D] in
theorem first_of_getTopicEventId {s s' : Registry D} {topic event : List UInt8} {id : Int32}
    (h : getTopicEventId_ topic event s = .ok id s') (hid : 0 ≤ id.toInt) :
    ∃ k, s.mgr.topics_.First (fullName topic event) k ∧ (s.mgr.topics_.topics k).event_id_ = id := by
  unfold getTopicEventId_ at h
  rw [Op.get_bind] at h
  rcases findTopic_cases s.mgr.topics_ (fullName topic event) with ⟨k, hk, hf⟩ | ⟨-, hf⟩ | hf
  · rw [Op.bind_ok (liftE_ok hf s)] at h
    cases h
    exact ⟨k, hk, rfl⟩
  · rw [Op.bind_ok (liftE_ok hf s)] at h
    cases h
    exact absurd hid (by decide)
  · rw [Op.bind_error (liftE_error hf s)] at h
    cases h

omit [DoubleText D] in
/-- **The bit that a call sets is the id of the entry it found.** -/
theorem first_of_setsBit {s : Registry D} {topic event : List UInt8} {p : Nat} (h : SetsBit s topic event p) :
    ∃ k, s.mgr.topics_.First (fullName topic event) k ∧ (s.mgr.topics_.topics k).event_id_.toInt = p := by
  have hnone := h (fun _ => false)
  rcases triggerEvent_cases ({ s with event_flag_ := fun _ => false } : Registry D) topic event with
    ⟨k, q, hk, hid, heq⟩ | heq | hu
  · rw [heq] at hnone
    injection hnone with _ hflags
    injection hflags with _ _ hflags
    have hq := congrFun hflags q
    rw [Function.update_self] at hq
    by_cases hqp : q = p
    · exact ⟨k, hk, by rw [← hqp, hid]⟩
    · rw [Function.update_of_ne hqp] at hq
      cases hq
  · rw [heq] at hnone
    injection hnone with _ hflags
    injection hflags with _ _ hflags
    have hp := congrFun hflags p
    rw [Function.update_self] at hp
    cases hp
  · rw [hnone] at hu
    exact False.elim hu

omit [DoubleText D] in
theorem setsBit_of_first {s : Registry D} {topic event : List UInt8} {k p : Nat}
    (hk : s.mgr.topics_.First (fullName topic event) k) (hid : (s.mgr.topics_.topics k).event_id_.toInt = p)
    (hp : p < MAX_TOPICS_PER_NODE) : SetsBit s topic event p := by
  intro flags
  have hget := getTopicEventId_of_first (s := ({ s with event_flag_ := flags } : Registry D)) hk
  generalize hx : (s.mgr.topics_.topics k).event_id_ = id at hid
  have hget' : (getTopicEventId_ topic event : Op D Int32) { s with event_flag_ := flags } =
      .ok id { s with event_flag_ := flags } := hx ▸ hget
  unfold triggerEvent
  rw [Op.bind_ok hget', if_pos (by omega)]
  unfold triggerEventById_
  rw [if_neg (by omega), hid]
  rfl

/-- An id that a node holds is the shared table's. -/
theorem Bus.SoundAt.first_of_holdsId {b : Bus D} {t : TopicsInfo} (h : b.SoundAt t) {i : Nat}
    (hi : i < b.nodes.started) {f : List UInt8} {id : Int32} (hid : b.HoldsId i f id) :
    ∃ k, t.First f k ∧ (t.topics k).event_id_ = id := by
  obtain ⟨hnn, hrec | ⟨topic, event, rfl, hget⟩⟩ := hid
  · exact h.recorded _ hrec
  · obtain ⟨k, hk, hkid⟩ := first_of_getTopicEventId hget hnn
    obtain ⟨hk', hid'⟩ := (h.copies i hi).2.first hk
    exact ⟨k, hk', hid'.trans hkid⟩

theorem Bus.SoundAt.agree {b : Bus D} {t : TopicsInfo} (h : b.SoundAt t) : b.Agree where
  same i j topic event s p hi hj _ hrec hset := by
    obtain ⟨k, hk, hid⟩ := h.recorded _ hrec
    obtain ⟨l, hl, hp⟩ := first_of_setsBit hset
    obtain ⟨hl', hid'⟩ := (h.copies j hj).2.first hl
    obtain rfl := hk.unique hl'
    rw [← hp]
    exact congrArg Int32.toInt (hid.symm.trans hid')
  different i j f g s p hi hj _ hfg hs hp := by
    obtain ⟨k, hk, hks⟩ := h.first_of_holdsId hi hs
    obtain ⟨l, hl, hlp⟩ := h.first_of_holdsId hj hp
    intro heq
    have hname := h.tidy.distinct k l hk.1 hl.1 (by rw [hks, hlp, heq])
    rw [hk.2.2.1, hl.2.2.1] at hname
    exact hfg hname

/-- **All nodes agree on the event ids**, in every state of every run whose steps are in order. -/
theorem agree_of_run {b : Bus D} {as : List BusAct} (h : Trans.Run BusAct.Step Bus.InOrder Bus.init as b) :
    b.Agree := by
  obtain ⟨t, ht⟩ := h.invariant (P := fun b => ∃ t, b.SoundAt t) ⟨_, Bus.init_sound⟩ (by
    rintro b a b' ⟨t, ht⟩ hord hstep
    exact ht.step hord hstep)
  exact ht.agree

/-! ## Two runs -/

theorem BusAct.Step.of_answer {b : Bus D} {i : Nat} {c : BusCall} {a : Option Int32} (hi : i < b.nodes.started)
    (h : answer (c.run (b.nodes.view i)) = some a ∧ FarFromFull (finalState (c.run (b.nodes.view i)))) :
    BusAct.Step b (.call i c) (b.after i c) := .call hi (not_undefined_of_answer h.1) h.2

theorem initializeRegistry_fresh :
    initializeRegistry_ (Cluster.init : Cluster D).newcomer = .ok () Cluster.init.newcomer := by
  have htopics := (TopicRegion.fresh (D := D)).reads (s := Cluster.init.newcomer) rfl
  have hnodes := reads_fresh (D := D) ((Cluster.init : Cluster D).newcomer.mapTopics TopicsInfo.zero.load) rfl
  rw [TopicsInfo.seen_zero] at htopics
  rw [initializeRegistry_, Op.bind_ok htopics, hnodes, NodesInfo.load_zero, TopicsInfo.load_zero]
  rfl

/-- A node is constructed that finds nothing. -/
def Bus.join (b : Bus D) : Bus D := { b with nodes := b.nodes.enrol Cluster.init.newcomer }

theorem Bus.step_join {b : Bus D} (hb : b.nodes.newcomer = Cluster.init.newcomer) :
    BusAct.Step b .construct b.join ∧ ∀ t, b.SoundAt t → b.join.SoundAt t := by
  have hinit : initializeRegistry_ b.nodes.newcomer = .ok () Cluster.init.newcomer := by
    rw [hb]
    exact initializeRegistry_fresh
  have hdef : ¬ Undefined (initializeRegistry_ b.nodes.newcomer) := by
    rw [hinit]
    exact id
  have hstep := BusAct.Step.construct hdef
  have hsound := fun t (h : b.SoundAt t) => h.construct
  rw [hinit] at hstep hsound
  exact ⟨hstep, hsound⟩

/-- Two nodes are constructed on a new region. -/
def Bus.two : Bus D := Bus.init.join.join

theorem Bus.run_two (guard : Bus D → BusAct → Prop) (hg : ∀ b, guard b .construct) :
    Trans.Run BusAct.Step guard Bus.init [.construct, .construct] Bus.two :=
  .snoc (.single (hg _) (Bus.step_join rfl).1) (hg _) (Bus.step_join rfl).1

theorem Bus.two_sound : (Bus.two : Bus D).SoundAt TopicsInfo.zero :=
  (Bus.step_join rfl).2 _ ((Bus.step_join rfl).2 _ Bus.init_sound)

end Bus

/-- The first node is registered. -/
def oneTalker : Bus (List UInt8) := Bus.two.after 0 (.registerNode talkerNode)

theorem oneTalker_step : BusAct.Step Bus.two (.call 0 (.registerNode talkerNode)) oneTalker :=
  .of_answer (by decide) (a := none) (by decide +kernel)

def aTopic : BusCall := .addPubTopic (utf8 "t") (utf8 "e")

theorem agree_of_addPub : ∃ b : Bus (List UInt8), (b.nodes.cache 0).topics_.topics_count = 2 ∧ b.Agree := by
  have hadd : BusAct.Step oneTalker (.call 0 aTopic) (oneTalker.after 0 aTopic) :=
    .of_answer (by decide) (a := none) (by decide +kernel)
  have hsound : oneTalker.SoundAt TopicsInfo.zero :=
    Bus.two_sound.keep (by decide) (keepsTopics_answer (.registerNode talkerNode) _ (Bus.two.nodes.view 0))
  have hord : oneTalker.InOrder (.call 0 aTopic) := by
    refine ⟨by decide +kernel, .inl ?_⟩
    rw [hsound.shared_eq]
    decide +kernel
  have hrun := (Bus.run_two (D := List UInt8) Bus.InOrder fun _ => trivial).snoc (by trivial) oneTalker_step
  exact ⟨_, by decide +kernel, agree_of_run (hrun.snoc hord hadd)⟩

/-- The first node subscribes to a topic that nobody has published, and the second node publishes it. -/
def subscribed : Bus (List UInt8) :=
  (oneTalker.after 0 (.addSubTopic (utf8 "t") (utf8 "e"))).after 0 (.registerTopicEvent (utf8 "t") (utf8 "e"))

def published : Bus (List UInt8) := (subscribed.after 1 (.registerNode talkerNode)).after 1 aTopic

theorem run_published : ∃ as, Trans.Run BusAct.Step Trans.free Bus.init as published := by
  have hsub : BusAct.Step oneTalker (.call 0 (.addSubTopic (utf8 "t") (utf8 "e"))) _ :=
    .of_answer (by decide) (a := none) (by decide +kernel)
  have hrecord : BusAct.Step (oneTalker.after 0 (.addSubTopic (utf8 "t") (utf8 "e")))
      (.call 0 (.registerTopicEvent (utf8 "t") (utf8 "e"))) subscribed :=
    .of_answer (by decide) (a := some 2) (by decide +kernel)
  have hjoin : BusAct.Step subscribed (.call 1 (.registerNode talkerNode)) _ :=
    .of_answer (by decide) (a := none) (by decide +kernel)
  have hadd : BusAct.Step (subscribed.after 1 (.registerNode talkerNode)) (.call 1 aTopic) published :=
    .of_answer (by decide) (a := none) (by decide +kernel)
  have hrun := (Bus.run_two (D := List UInt8) Trans.free fun _ => trivial).snoc trivial oneTalker_step
  exact ⟨_, (((hrun.snoc trivial hsub).snoc trivial hrecord).snoc trivial hjoin).snoc trivial hadd⟩

/-- The first node has recorded 2, and the second sets bit 1. -/
theorem agree_not_always : ¬ ∀ (b : Bus (List UInt8)) (as : List BusAct),
    Trans.Run BusAct.Step Trans.free Bus.init as b → b.Agree := by
  intro h
  obtain ⟨as, hrun⟩ := run_published
  have hrec : (⟨0, fullName (utf8 "t") (utf8 "e"), 2⟩ : Subscription) ∈ published.subscriptions := by decide +kernel
  have hfirst : (published.nodes.view 1).mgr.topics_.First (fullName (utf8 "t") (utf8 "e")) 1 := by
    refine ⟨by decide +kernel, by decide, by decide +kernel, fun j hj => ?_⟩
    obtain rfl : j = 0 := by omega
    decide +kernel
  have hset : SetsBit (published.nodes.view 1) (utf8 "t") (utf8 "e") 1 :=
    setsBit_of_first hfirst (by decide +kernel) (by decide)
  have hsame := (h _ as hrun).same 0 1 (utf8 "t") (utf8 "e") 2 1 (by decide) (by decide) (by decide) hrec hset
  exact absurd hsame (by decide)

end MiniRos2

import MiniRos2.NodeBus
/-!
# BusRun — the bus that the nodes are

Under a name is its region, a name is marked when the bit of its id is set, and a node that has calls to make is about
to take the marks from the names whose ids it clears (`image`).  So every step of nodes that are set up, when only known
topics are published, is a step of a `TopicBus` or none, and leaves them set up (`Ready.step`).  The bus is lossy when
the table cannot be read back: a node that reads it between the write and the trigger of a publish sees no topic, and
sets no bit.
-/
namespace MiniRos2

namespace NodeBus

open TornRead (handed)

variable {κ D : Type}

/-! ## What the steps do -/

section Calls

variable [DoubleText D]

/-- **The write of a publish** whose region is mapped and whose topic is visible. -/
theorem publishWrite_eq_ok {p q : PubState D} {r : Registry D} {event name : List UInt8} {data : JsonValue D}
    {size id : Nat} {owner : Bool}
    (hs : p.publisher.shm_ = some ⟨⟨name, size, some id, owner⟩, true⟩) (hm : p.shm_manager_ = some r)
    (hv : r.mgr.topics_.Visible (fullName p.publisher.topic_ event)) (h : publishWrite event data p = .ok () q) :
    q = { p with space :=
      p.space.put id ⟨(p.space.obj id).size, ByteMem.write (p.space.obj id).mem 0 data.serialize⟩ } := by
  obtain ⟨i, hi⟩ := hv
  unfold publishWrite at h
  rw [Pub.get_bind, Pub.bind_of_ok (ensureShm_of_some hs), Pub.bind_of_ok (ensureTopic_of_first hm hi)] at h
  unfold Publisher.writeShm at h
  rw [Pub.get_bind] at h
  dsimp only at h
  rw [hs] at h
  obtain ⟨sp, hsp, hw⟩ := Pub.lift_bind_eq_ok h
  cases hw
  obtain ⟨id', r', hid, hr, rfl⟩ := ShmBase.write_eq_ok hsp
  cases hid
  obtain ⟨-, rfl⟩ := Region.write_eq_ok hr
  simp only [hm]

omit [DoubleText D] in
/-- **The trigger of a publish** whose topic is visible. -/
theorem notify_of_first {p : PubState D} {r : Registry D} {event : List UInt8} {l : Nat}
    (hm : p.shm_manager_ = some r) (hname : p.publisher.topic_name_for_event_ = p.publisher.topic_)
    (hne : p.publisher.topic_ ≠ []) (hl : r.mgr.topics_.First (fullName p.publisher.topic_ event) l)
    (h0 : 0 ≤ (r.mgr.topics_.topics l).event_id_.toInt)
    (hlt : (r.mgr.topics_.topics l).event_id_.toInt < (MAX_TOPICS_PER_NODE : Int)) :
    Publisher.notify event p = .ok () { p with shm_manager_ := some { r with
      event_flag_ := Function.update r.event_flag_ (r.mgr.topics_.topics l).event_id_.toInt.toNat true } } := by
  have hset := setsBit_of_first hl (Int.toNat_of_nonneg h0).symm (by omega) r.event_flag_
  unfold Publisher.notify
  rw [Pub.get_bind, hname, if_neg (by rw [hm]; simpa using hne), Pub.manager_of_ok hm hset]

omit [DoubleText D] in
/-- **The trigger of a publish** whose topic is not visible does nothing. -/
theorem notify_eq_self {p q : PubState D} {r : Registry D} {event : List UInt8} (hm : p.shm_manager_ = some r)
    (hname : p.publisher.topic_name_for_event_ = p.publisher.topic_) (hne : p.publisher.topic_ ≠ [])
    (hv : ¬ r.mgr.topics_.Visible (fullName p.publisher.topic_ event))
    (h : Publisher.notify event p = .ok () q) : q = p := by
  unfold Publisher.notify at h
  rw [Pub.get_bind, hname, if_neg (by rw [hm]; simpa using hne)] at h
  rcases triggerEvent_cases r p.publisher.topic_ event with ⟨l, -, hl, -⟩ | hsame | hu
  · exact absurd ⟨l, hl⟩ hv
  · rw [Pub.manager_of_ok hm hsame] at h
    cases h
    rw [← hm]
  · cases ht : triggerEvent p.publisher.topic_ event r with
    | ok _ _ =>
      rw [ht] at hu
      exact hu.elim
    | error e r' =>
      rw [Pub.manager_of_error hm ht] at h
      cases h

omit [DoubleText D] in
theorem clearTriggerEvent_eq {e : Int32} (h0 : 0 ≤ e.toInt) (hlt : e.toInt < (MAX_TOPICS_PER_NODE : Int))
    (s : Registry D) : clearTriggerEvent e s =
      .ok () { s with event_flag_ := Function.update s.event_flag_ e.toInt.toNat false } := by
  unfold clearTriggerEvent
  rw [if_neg (by omega)]
  have hclear : EventFlags.clearEvents e.toInt.toNat s.event_flag_ =
      Function.update s.event_flag_ e.toInt.toNat false := by
    unfold EventFlags.clearEvents
    rw [if_neg (by omega)]
  show EStateM.Result.ok () { s with event_flag_ := EventFlags.clearEvents e.toInt.toNat s.event_flag_ } = _
  rw [hclear]

/-- **A task hands over what is read.** -/
theorem createTask_of_mapped {sub : Subscriber D} {sp : ShmSpace} {name : List UInt8} (h : Mapped sp sub.shm_ name) :
    ∃ id sub', sp.lookup name = some id ∧ sub'.shm_ = sub.shm_ ∧
      sub'.msg_ = handed (ByteMem.read (sp.obj id).mem 0 ((sp.obj id).size - sizeofShmHead)) sub.msg_ ∧
      sub.content sp = .ok (ByteMem.read (sp.obj id).mem 0 ((sp.obj id).size - sizeofShmHead)) ∧
      sub.createTaskFromSubEvent sp = .ok (sub'.msg_, sub') := by
  obtain ⟨id, size, owner, hs, hl, hsize⟩ := h
  have hcontent : sub.content sp = .ok (ByteMem.read (sp.obj id).mem 0 ((sp.obj id).size - sizeofShmHead)) := by
    unfold Subscriber.content
    rw [hs, hsize]
    refine ShmBase.readUnlocked_of_le rfl hsize ?_
    show 0 + (sizeofShmHead + size - sizeofShmHead) ≤ sizeofShmHead + size
    omega
  obtain ⟨sub', htask⟩ := TornRead.createTask_of_content hcontent
  obtain ⟨sub'', hget, heq⟩ := Except.bind_eq_ok htask
  obtain ⟨hmsg, rfl⟩ := Prod.mk.inj (Except.ok.inj heq)
  refine ⟨id, sub'', hl, ?_, hmsg, hcontent, htask.trans (by rw [hmsg])⟩
  unfold Subscriber.getMessage at hget
  split at hget <;> cases hget <;> rfl

omit [DoubleText D] in
theorem checkSubscription_eq {Task : Type} {F : EventFlags} {base : SubscriberBase Task} {e : Int32}
    (h0 : 0 ≤ e.toInt) (hlt : e.toInt < (EVENT_MAX_COUNT : Int)) {task : Task}
    (hb : base.createTaskFromSubEvent = .ok task) :
    checkSubscription F true true base e = if F e.toInt.toNat then some (task, e) else none := by
  unfold checkSubscription
  rw [if_pos ⟨h0, hlt⟩, hb]
  rfl

end Calls

/-! ## The bus -/

/-- A message is written over what the region holds, and handed over if it can be read. -/
def medium [DoubleText D] : TopicBus.Medium Region (JsonValue D) (JsonValue D) where
  put r data := ⟨r.size, ByteMem.write r.mem 0 data.serialize⟩
  hand r := handed (ByteMem.read r.mem 0 (r.size - sizeofShmHead))

/-- The name of a publisher's region. -/
def channel (pubs : κ → Nat × Publisher) (k : κ) : List UInt8 := regionName (pubs k).2.shm_

/-- What is under a name. -/
def region (sp : ShmSpace) (n : List UInt8) : Region := (sp.lookup n).elim (Region.fresh 0) sp.obj

/-- The name whose mark a call takes away. -/
noncomputable def cleared (t : TopicsInfo) : SpinCall Empty → Option (List UInt8)
  | .clearTriggerEvent e => if e.toInt = ((MAX_TOPICS_PER_NODE - 1 : Nat) : Int) then none else some (nameOf t e)
  | _ => none

noncomputable def Spin.image (t : TopicsInfo) : Spin → TopicBus.Round (List UInt8)
  | .waiting => .waiting
  | .checking F id ids => .checking (marked t F) id (ids.map (nameOf t))
  | .calling cs => .clearing (cs.filterMap (cleared t))

def subImage (sub : Subscriber D) : TopicBus.Sub (List UInt8) (JsonValue D) := ⟨regionName sub.shm_, sub.msg_⟩

/-- **The bus that the nodes are.** -/
noncomputable def System.image (t : TopicsInfo) (s : System κ D) :
    TopicBus.State κ Nat (List UInt8) Region (JsonValue D) where
  owed k := (s.written k).map (s.full_name k)
  content := region s.space
  pending := marked t s.nodes.event_flag_
  subscriptions i := (s.subscriptions_ i).map subImage
  round i := (s.spin i).image t
  handed := s.enqueued

/-- What a step is for the bus. -/
def Act.image : Act κ D → Option (TopicBus.Act κ Nat (List UInt8) (JsonValue D))
  | .write k full_name data => some (.store k full_name data)
  | .notify k full_name => some (.announce k full_name)
  | .waitForEvent i => some (.wait i)
  | .check i => some (.check i)
  | .leave i => some (.leave i)
  | .call i (.clearTriggerEvent event_id) =>
    if event_id.toInt = ((MAX_TOPICS_PER_NODE - 1 : Nat) : Int) then none else some (.clear i)
  | .call _ _ => none
  | .again i => some (.again i)

/-- **What is published is a topic that the node's copy of the table has.** -/
def Known (s : System κ D) : Act κ D → Prop
  | .write k full_name _ => (s.nodes.cache (s.publisher k).1).topics_.Visible full_name
  | _ => True

section Images

variable {t : TopicsInfo}

theorem goto_spin (s : System κ D) (i : Nat) (pc : Spin) : (s.goto i pc).spin i = pc := Function.update_self ..

theorem goto_image (s : System κ D) (i : Nat) (pc : Spin) :
    (s.goto i pc).image t = (s.image t).goto i (pc.image t) := by
  have hround : ((s.goto i pc).image t).round = ((s.image t).goto i (pc.image t)).round := by
    funext j
    exact Function.apply_update (fun _ => Spin.image t) s.spin i pc j
  exact TopicBus.State.ext rfl rfl rfl rfl hround rfl

theorem enqueue_image (s : System κ D) (i id : Nat) {sub sub' : Subscriber D} (hs : sub'.shm_ = sub.shm_) :
    (s.enqueue i id sub.msg_ sub'.msg_ sub').image t = (s.image t).take i id (subImage sub) sub'.msg_ := by
  refine TopicBus.State.ext rfl rfl rfl ?_ rfl rfl
  have hsub : subImage sub' = ⟨(subImage sub).name, sub'.msg_⟩ := by
    unfold subImage
    rw [hs]
  funext j
  refine (Function.apply_update (fun _ => List.map subImage) s.subscriptions_ i _ j).trans ?_
  rw [List.map_set, hsub]
  rfl

/-- A call that changes the bits at most. -/
theorem putNode_image (s : System κ D) (i : Nat) (r : Registry D) :
    (s.putNode i r).image t = { s.image t with pending := marked t r.event_flag_ } := rfl

theorem holds_image {s : System κ D} {i id : Nat} {x : TopicBus.Sub (List UInt8) (JsonValue D)} :
    (s.image t).Holds i id x ↔ ∃ sub, (s.subscriptions_ i)[id]? = some sub ∧ subImage sub = x := by
  show ((s.subscriptions_ i).map subImage)[id]? = some x ↔ _
  rw [List.getElem?_map, Option.map_eq_some_iff]

theorem region_put {sp : ShmSpace} {name : List UInt8} {id : Nat} (hl : sp.lookup name = some id)
    (hd : ∀ n n' id, sp.lookup n = some id → sp.lookup n' = some id → n = n') (r : Region) :
    region (sp.put id r) = Function.update (region sp) name r := by
  funext n
  by_cases hn : n = name
  · subst hn
    rw [Function.update_self]
    show (sp.lookup n).elim _ (sp.put id r).obj = r
    rw [hl]
    exact Posix.Space.obj_put_self _ _ _
  · rw [Function.update_of_ne hn]
    show (sp.lookup n).elim _ (sp.put id r).obj = (sp.lookup n).elim _ sp.obj
    cases hln : sp.lookup n with
    | none => rfl
    | some id' =>
      have hne : id' ≠ id := by
        rintro rfl
        exact hn (hd n name id' hln hl)
      exact Function.update_of_ne hne _ _

/-- The names that a round takes the marks from. -/
theorem image_roundCalls {F : EventFlags} {ids : List Int32} (hids : ∀ e ∈ ids, ∃ n, TopicId t n e)
    (hlt : ∀ n e, TopicId t n e → e.toInt < ((MAX_TOPICS_PER_NODE - 1 : Nat) : Int)) :
    (Spin.calling (roundCalls F ids)).image t = .clearing (ids.map (nameOf t)) := by
  have htail : (if F (EVENT_MAX_COUNT - 1) then
      [SpinCall.syncRegistryFromShm, .clearTriggerEvent (EVENT_MAX_COUNT - 1 : Nat).toInt32] else []).filterMap
        (cleared t) = [] := by
    have hid : (EVENT_MAX_COUNT - 1 : Nat).toInt32.toInt = ((MAX_TOPICS_PER_NODE - 1 : Nat) : Int) := by decide
    have hlast : cleared t (.clearTriggerEvent (EVENT_MAX_COUNT - 1 : Nat).toInt32) = none := by
      unfold cleared
      exact if_pos hid
    split
    · rw [List.filterMap_cons_none rfl, List.filterMap_cons_none hlast, List.filterMap_nil]
    · rfl
  show TopicBus.Round.clearing ((roundCalls F ids).filterMap (cleared t)) = _
  rw [roundCalls, List.filterMap_append, htail, List.append_nil, List.filterMap_map]
  congr 1
  rw [← List.filterMap_eq_map]
  refine List.filterMap_congr fun e he => ?_
  obtain ⟨n, hn⟩ := hids e he
  have hne := hlt n e hn
  exact if_neg (by omega)

end Images

/-! ## One step -/

section Step

variable [DoubleText D] {t : TopicsInfo} {pubs : κ → Nat × Publisher} {s : System κ D}

/-- A node's manager changed what it has of the registry. -/
theorem Shares.put {nodes : Cluster D} (h : Shares t nodes) {i : Nat} {r : Registry D} (hr : TopicRegion D r.shm t)
    (hcopy : r.mgr.topics_.Extends t) : Shares t (nodes.put i r) where
  region := hr
  tidy := h.tidy
  copies j hj := by
    show (Function.update nodes.cache i r.mgr j).topics_.Extends t
    by_cases hji : j = i
    · rw [hji, Function.update_self]
      exact hcopy
    · rw [Function.update_of_ne hji]
      exact h.copies j hj

omit [DoubleText D] in
theorem Mapped.put {sp : ShmSpace} {shm_ : Option ShmBase} {name : List UInt8} (h : Mapped sp shm_ name) {id : Nat}
    {r : Region} (hr : r.size = (sp.obj id).size) : Mapped (sp.put id r) shm_ name := by
  obtain ⟨id', size, owner, hs, hl, hsize⟩ := h
  refine ⟨id', size, owner, hs, hl, ?_⟩
  by_cases hid : id' = id
  · subst hid
    rw [Posix.Space.obj_put_self, hr, hsize]
  · rw [show (sp.put id r).obj id' = sp.obj id' from Function.update_of_ne hid _ _, hsize]

namespace System.Ready

theorem putNode (h : s.Ready t pubs) {i : Nat} {r : Registry D} (hr : TopicRegion D r.shm t)
    (hcopy : r.mgr.topics_.Extends t) (hext : t.Legible → (s.nodes.cache i).topics_.Extends r.mgr.topics_) :
    (s.putNode i r).Ready t pubs where
  table := h.table.put hr hcopy
  ids := h.ids
  publishers := h.publishers
  publisher := h.publisher
  written hleg k event hw := by
    obtain ⟨l, hl⟩ := h.written hleg k event hw
    show (Function.update s.nodes.cache i r.mgr (pubs k).1).topics_.Visible _
    by_cases hi : (pubs k).1 = i
    · rw [hi] at hl
      rw [hi, Function.update_self]
      exact ⟨l, ((hext hleg).first hl).1⟩
    · rw [Function.update_of_ne hi]
      exact ⟨l, hl⟩
  subscription := h.subscription
  distinct := h.distinct
  spin := h.spin

theorem goto (h : s.Ready t pubs) {i : Nat} {pc : Spin} (hi : i < s.nodes.started) (hpc : pc.Ok t) :
    (s.goto i pc).Ready t pubs where
  table := h.table
  ids := h.ids
  publishers := h.publishers
  publisher := h.publisher
  written := h.written
  subscription := h.subscription
  distinct := h.distinct
  spin j := by
    show (Function.update s.spin i pc j).Ok t ∧ (s.nodes.started ≤ j → Function.update s.spin i pc j = .waiting)
    by_cases hj : j = i
    · subst hj
      rw [Function.update_self]
      exact ⟨hpc, fun hle => absurd hi (by omega)⟩
    · rw [Function.update_of_ne hj]
      exact h.spin j

/-- After a message was written. -/
theorem store (h : s.Ready t pubs) (id : Nat) {r : Region} (hr : r.size = (s.space.obj id).size) :
    ({ s with space := s.space.put id r } : System κ D).Ready t pubs where
  table := h.table
  ids := h.ids
  publishers := h.publishers
  publisher k := by
    obtain ⟨hi, hm, hrest⟩ := h.publisher k
    exact ⟨hi, hm.put hr, hrest⟩
  written := h.written
  subscription i id' sub hsub := by
    obtain ⟨hi, hm, hrest⟩ := h.subscription i id' sub hsub
    exact ⟨hi, hm.put hr, hrest⟩
  distinct := h.distinct
  spin := h.spin

theorem setWritten [DecidableEq κ] (h : s.Ready t pubs) {k : κ} {event : Option (List UInt8)}
    (hv : ∀ e, event = some e → (s.nodes.cache (pubs k).1).topics_.Visible (fullName (pubs k).2.topic_ e)) :
    ({ s with written := Function.update s.written k event } : System κ D).Ready t pubs where
  table := h.table
  ids := h.ids
  publishers := h.publishers
  publisher := h.publisher
  written hleg k' e hw := by
    change Function.update s.written k event k' = some e at hw
    by_cases hk : k' = k
    · subst hk
      rw [Function.update_self] at hw
      exact hv e hw
    · rw [Function.update_of_ne hk] at hw
      exact h.written hleg k' e hw
  subscription := h.subscription
  distinct := h.distinct
  spin := h.spin

theorem enqueue (h : s.Ready t pubs) {i id : Nat} {before v : JsonValue D} {sub sub' : Subscriber D}
    (hsub : (s.subscriptions_ i)[id]? = some sub) (hs : sub'.shm_ = sub.shm_) :
    (s.enqueue i id before v sub').Ready t pubs where
  table := h.table
  ids := h.ids
  publishers := h.publishers
  publisher := h.publisher
  written := h.written
  subscription j id' x hx := by
    change (Function.update s.subscriptions_ i ((s.subscriptions_ i).set id sub') j)[id']? = some x at hx
    by_cases hj : j = i
    · subst hj
      rw [Function.update_self] at hx
      by_cases hid : id' = id
      · subst hid
        obtain ⟨hlt, -⟩ := List.getElem?_eq_some_iff.1 hsub
        rw [List.getElem?_set_self hlt] at hx
        cases hx
        rw [hs]
        exact h.subscription j id' sub hsub
      · rw [List.getElem?_set_ne (fun heq => hid heq.symm)] at hx
        exact h.subscription j id' x hx
    · rw [Function.update_of_ne hj] at hx
      exact h.subscription j id' x hx
  distinct := h.distinct
  spin := h.spin

/-- A node that goes round was started. -/
theorem started (h : s.Ready t pubs) {i : Nat} (hi : s.spin i ≠ .waiting) : i < s.nodes.started := by
  by_contra hge
  exact hi ((h.spin i).2 (by omega))

/-- A node's own state is as it was. -/
theorem putNode_view (h : s.Ready t pubs) {i : Nat} (hi : i < s.nodes.started) {F : EventFlags} :
    (s.putNode i { s.nodes.view i with event_flag_ := F }).Ready t pubs :=
  h.putNode h.table.region (h.table.copies i hi) fun _ => .refl _

end System.Ready

omit [DoubleText D] in
theorem setPub_eq [DecidableEq κ] {k : κ} {q : PubState D} {r : Registry D} (hm : q.shm_manager_ = some r)
    (hp : q.publisher = (s.publisher k).2) (event : Option (List UInt8)) :
    s.setPub k q event = { s.putNode (s.publisher k).1 r with
      space := q.space, written := Function.update s.written k event } := by
  unfold System.setPub
  rw [hm, hp, Function.update_eq_self]
  rfl

/-- **A write.** -/
theorem write_step [DecidableEq κ] (h : s.Ready t pubs) {k : κ} {event : List UInt8} {data : JsonValue D}
    {q : PubState D} (hv : (s.nodes.cache (s.publisher k).1).topics_.Visible (s.full_name k event))
    (hnone : s.written k = none) (hw : publishWrite event data (s.pub k) = .ok () q) :
    (s.setPub k q (some event)).Ready t pubs ∧ TopicBus.Step medium (channel pubs) (¬ t.Legible) (s.image t)
      (.store k (s.full_name k event) data) ((s.setPub k q (some event)).image t) := by
  obtain rfl := h.publishers
  obtain ⟨hi, ⟨id, size, owner, hshm, hl, hsize⟩, -⟩ := h.publisher k
  obtain rfl := publishWrite_eq_ok hshm rfl hv hw
  rw [setPub_eq (r := s.nodes.view (s.publisher k).1) rfl rfl]
  have hstored := (h.putNode_view hi (F := s.nodes.event_flag_)).store id
    (r := ⟨(s.space.obj id).size, ByteMem.write (s.space.obj id).mem 0 data.serialize⟩) rfl
  refine ⟨hstored.setWritten fun e he => ?_, ?_⟩
  · cases he
    show (Function.update s.nodes.cache _ (s.nodes.cache _) _).topics_.Visible _
    rw [Function.update_eq_self]
    exact hv
  have hregion : region s.space (channel s.publisher k) = s.space.obj id := by
    unfold region channel
    rw [hl]
    rfl
  have himage : ({ s.putNode (s.publisher k).1 (s.nodes.view (s.publisher k).1) with
      space := s.space.put id ⟨(s.space.obj id).size, ByteMem.write (s.space.obj id).mem 0 data.serialize⟩
      written := Function.update s.written k (some event) } : System κ D).image t =
      (s.image t).store k (s.full_name k event) (channel s.publisher k)
        (medium.put (region s.space (channel s.publisher k)) data) := by
    rw [hregion]
    refine TopicBus.State.ext ?_ ?_ rfl rfl rfl rfl
    · funext j
      exact Function.apply_update (fun j => Option.map (s.full_name j)) s.written k (some event) j
    · exact region_put hl h.distinct _
  have howed : (s.image t).owed k = none := by
    show Option.map _ (s.written k) = none
    rw [hnone]
    rfl
  exact himage ▸ .store howed

/-- **A trigger.** -/
theorem notify_step [DecidableEq κ] (h : s.Ready t pubs) {k : κ} {event : List UInt8} {q : PubState D}
    (hw : s.written k = some event) (hn : Publisher.notify event (s.pub k) = .ok () q) :
    (s.setPub k q none).Ready t pubs ∧ TopicBus.Step medium (channel pubs) (¬ t.Legible) (s.image t)
      (.announce k (s.full_name k event)) ((s.setPub k q none).image t) := by
  obtain rfl := h.publishers
  obtain ⟨hi, -, hname, hne⟩ := h.publisher k
  have howed : (s.image t).owed k = some (s.full_name k event) := by
    show Option.map _ (s.written k) = _
    rw [hw]
    rfl
  by_cases hv : (s.nodes.cache (s.publisher k).1).topics_.Visible (s.full_name k event)
  swap
  · obtain rfl := notify_eq_self (p := s.pub k) rfl hname hne hv hn
    rw [setPub_eq (r := s.nodes.view (s.publisher k).1) rfl rfl]
    refine ⟨(h.putNode_view hi (F := s.nodes.event_flag_)).setWritten fun _ he => (by cases he), ?_⟩
    have himage : ({ s.putNode (s.publisher k).1 (s.nodes.view (s.publisher k).1) with
        written := Function.update s.written k none } : System κ D).image t = (s.image t).lose k := by
      refine TopicBus.State.ext ?_ rfl rfl rfl rfl rfl
      funext j
      exact Function.apply_update (fun j => Option.map (s.full_name j)) s.written k none j
    exact himage ▸ .lose (fun hleg => hv (h.written hleg k event hw)) howed
  obtain ⟨l, hl⟩ := hv
  obtain ⟨hl', hid⟩ := (h.table.copies _ hi).first hl
  have htopic : TopicId t (s.full_name k event) ((s.nodes.cache (s.publisher k).1).topics_.topics l).event_id_ :=
    ⟨l, hl', hid⟩
  have h0 := htopic.nonneg h.table.tidy
  have hlt := h.ids _ _ htopic
  have hok := notify_of_first (p := s.pub k) rfl hname hne hl h0 (Int.lt_of_lt_of_le hlt (by decide))
  obtain rfl : _ = q := (EStateM.Result.ok.inj (hok.symm.trans hn)).2
  rw [setPub_eq rfl rfl]
  refine ⟨(h.putNode_view hi).setWritten fun _ he => (by cases he), ?_⟩
  have himage : ({ s.putNode (s.publisher k).1 { s.nodes.view (s.publisher k).1 with
      event_flag_ := Function.update s.nodes.event_flag_
        ((s.nodes.cache (s.publisher k).1).topics_.topics l).event_id_.toInt.toNat true } with
      written := Function.update s.written k none } : System κ D).image t =
      (s.image t).announce k (s.full_name k event) := by
    refine TopicBus.State.ext ?_ rfl ?_ rfl rfl rfl
    · funext j
      exact Function.apply_update (fun j => Option.map (s.full_name j)) s.written k none j
    · exact htopic.marked_update h.table.tidy _ _
  exact himage ▸ .announce howed

omit [DoubleText D] in
theorem round_image {i : Nat} {pc : Spin} (h : s.spin i = pc) : (s.image t).round i = pc.image t :=
  congrArg (Spin.image t) h

/-- The ids that subscriptions have are bits of their own. -/
theorem System.Ready.id_bounds (h : s.Ready t pubs) {n : List UInt8} {e : Int32} (he : TopicId t n e) :
    0 ≤ e.toInt ∧ e.toInt < (EVENT_MAX_COUNT : Int) ∧ e.toInt < (MAX_TOPICS_PER_NODE : Int) := by
  have hlt := h.ids n e he
  exact ⟨he.nonneg h.table.tidy, Int.lt_of_lt_of_le hlt (by decide), Int.lt_of_lt_of_le hlt (by decide)⟩

/-- A subscription's task, and what the bus hands over. -/
theorem System.Ready.task (h : s.Ready t pubs) {i id : Nat} {sub : Subscriber D} {e : Int32}
    {base : SubscriberBase (JsonValue D × Subscriber D)} (hsub : (s.subscriptions_ i)[id]? = some sub)
    (he : (s.subscription_event_ids_ i)[id]? = some e)
    (hb : sub.createTaskFromSubEvent s.space = base.createTaskFromSubEvent.mapError .throws) :
    TopicId t (regionName sub.shm_) e ∧ ∃ sub' : Subscriber D, sub'.shm_ = sub.shm_ ∧
      sub'.msg_ = medium.hand (region s.space (regionName sub.shm_)) sub.msg_ ∧
      ∀ F, checkSubscription F true true base e =
        if F e.toInt.toNat then some ((sub'.msg_, sub'), e) else none := by
  obtain ⟨-, hm, e', he', hid⟩ := h.subscription i id sub hsub
  obtain rfl := Option.some.inj (he'.symm.trans he)
  obtain ⟨rid, sub', hl, hshm, hmsg, -, htask⟩ := createTask_of_mapped hm
  have hregion : region s.space (regionName sub.shm_) = s.space.obj rid := by
    unfold region
    rw [hl]
    rfl
  have hbase : base.createTaskFromSubEvent = .ok (sub'.msg_, sub') := by
    rw [htask] at hb
    cases hc : base.createTaskFromSubEvent with
    | ok task =>
      rw [hc] at hb
      cases hb
      rfl
    | error err =>
      rw [hc] at hb
      cases hb
  obtain ⟨h0, hlt, -⟩ := h.id_bounds hid
  refine ⟨hid, sub', hshm, ?_, fun F => checkSubscription_eq h0 hlt hbase⟩
  rw [hregion]
  exact hmsg

/-- **A subscription whose bit is set.** -/
theorem enqueued_step [DecidableEq κ] (h : s.Ready t pubs) {i id : Nat} {F : EventFlags} {ids : List Int32}
    {sub sub' : Subscriber D} {e e' : Int32} {v : JsonValue D} {base : SubscriberBase (JsonValue D × Subscriber D)}
    (hspin : s.spin i = .checking F id ids) (hsub : (s.subscriptions_ i)[id]? = some sub)
    (he : (s.subscription_event_ids_ i)[id]? = some e)
    (hb : sub.createTaskFromSubEvent s.space = base.createTaskFromSubEvent.mapError .throws)
    (hc : checkSubscription F true true base e = some ((v, sub'), e')) :
    ((s.enqueue i id sub.msg_ v sub').goto i (.checking F (id + 1) (ids ++ [e']))).Ready t pubs ∧
      TopicBus.Step medium (channel pubs) (¬ t.Legible) (s.image t) (.check i)
        (((s.enqueue i id sub.msg_ v sub').goto i (.checking F (id + 1) (ids ++ [e']))).image t) := by
  obtain ⟨hid, sub₁, hshm, hmsg, hcheck⟩ := h.task hsub he hb
  rw [hcheck] at hc
  split at hc
  · rename_i hF
    cases hc
    have hok := (h.spin i).1
    rw [hspin] at hok
    refine ⟨(h.enqueue hsub hshm).goto (h.subscription i id sub hsub).1 fun x hx => ?_, ?_⟩
    · rcases List.mem_append.1 hx with hx | hx
      · exact hok x hx
      · exact List.mem_singleton.1 hx ▸ ⟨_, hid⟩
    · have hname : (ids ++ [e]).map (nameOf t) = ids.map (nameOf t) ++ [(subImage sub).name] := by
        rw [List.map_append, List.map_singleton, hid.nameOf_eq h.table.tidy]
        rfl
      have hround : Spin.image t (.checking F (id + 1) (ids ++ [e])) =
          .checking (marked t F) (id + 1) (ids.map (nameOf t) ++ [(subImage sub).name]) :=
        congrArg (TopicBus.Round.checking (marked t F) (id + 1)) hname
      rw [goto_image, enqueue_image s i id hshm, hround, hmsg]
      exact .take (round_image hspin) (holds_image.2 ⟨sub, hsub, rfl⟩) ((hid.marked_eq F).trans hF)
  · cases hc

/-- **A subscription whose bit is not set.** -/
theorem passed_step [DecidableEq κ] (h : s.Ready t pubs) {i id : Nat} {F : EventFlags} {ids : List Int32}
    {sub : Subscriber D} {e : Int32} {base : SubscriberBase (JsonValue D × Subscriber D)}
    (hspin : s.spin i = .checking F id ids) (hsub : (s.subscriptions_ i)[id]? = some sub)
    (he : (s.subscription_event_ids_ i)[id]? = some e)
    (hb : sub.createTaskFromSubEvent s.space = base.createTaskFromSubEvent.mapError .throws)
    (hc : checkSubscription F true true base e = none) :
    (s.goto i (.checking F (id + 1) ids)).Ready t pubs ∧
      TopicBus.Step medium (channel pubs) (¬ t.Legible) (s.image t) (.check i)
        ((s.goto i (.checking F (id + 1) ids)).image t) := by
  obtain ⟨hid, sub₁, -, -, hcheck⟩ := h.task hsub he hb
  rw [hcheck] at hc
  split at hc
  · cases hc
  · rename_i hF
    have hok := (h.spin i).1
    rw [hspin] at hok
    refine ⟨h.goto (h.subscription i id sub hsub).1 hok, ?_⟩
    rw [goto_image]
    exact .skip (round_image hspin) (holds_image.2 ⟨sub, hsub, rfl⟩)
      ((hid.marked_eq F).trans (Bool.eq_false_iff.2 hF))

/-- **The end of the loop over the subscriptions.** -/
theorem leave_step [DecidableEq κ] (h : s.Ready t pubs) {i id : Nat} {F : EventFlags} {ids : List Int32}
    (hspin : s.spin i = .checking F id ids) (hend : F.any = false ∨ (s.subscriptions_ i).length ≤ id ∨
      (s.subscription_event_ids_ i).length ≤ id) :
    (s.goto i (.calling (roundCalls F ids))).Ready t pubs ∧
      TopicBus.Step medium (channel pubs) (¬ t.Legible) (s.image t) (.leave i)
        ((s.goto i (.calling (roundCalls F ids))).image t) := by
  have hok := (h.spin i).1
  have hstarted := h.started (i := i) (by rw [hspin]; exact Spin.noConfusion)
  rw [hspin] at hok
  refine ⟨h.goto hstarted fun e he => ?_, ?_⟩
  · rcases List.mem_append.1 he with he | he
    · obtain ⟨e', he', heq⟩ := List.mem_map.1 he
      cases heq
      exact .inr (hok e he')
    · split at he
      · rcases List.mem_cons.1 he with heq | he
        · cases heq
        · cases List.mem_singleton.1 he
          exact .inl (by decide)
      · cases he
  · rw [goto_image, image_roundCalls hok h.ids]
    refine .leave (round_image hspin) fun j x hle hx => ?_
    obtain ⟨sub, hsub, rfl⟩ := holds_image.1 hx
    obtain ⟨-, -, e, he, hid⟩ := h.subscription i j sub hsub
    rcases hend with hany | hlen | hlen
    · refine (hid.marked_eq F).trans (Bool.eq_false_iff.2 fun hF => ?_)
      obtain ⟨h0, hlt, -⟩ := h.id_bounds hid
      have htrue : F.any = true := List.any_eq_true.2 ⟨e.toInt.toNat, List.mem_range.2 (by omega), hF⟩
      rw [hany] at htrue
      cases htrue
    · obtain ⟨hlt, -⟩ := List.getElem?_eq_some_iff.1 hsub
      omega
    · obtain ⟨hlt, -⟩ := List.getElem?_eq_some_iff.1 he
      omega

omit [DoubleText D] in
/-- **What a node has after a read is the front of the table**, and no topic less if the table can be read. -/
theorem load_extends (t old : TopicsInfo) :
    (t.seen.load old).Extends t ∧ (t.Legible → old.Extends t → old.Extends (t.seen.load old)) := by
  have hload : ∀ j, j < t.count → (t.load old).topics j = t.topics j := fun j hj => if_pos hj
  by_cases hleg : t.Legible
  · rw [TopicsInfo.seen_of_legible hleg]
    refine ⟨⟨Nat.le_refl _, fun j hj => (hload j hj).symm⟩, fun _ hext => ⟨hext.1, fun j hj => ?_⟩⟩
    rw [hload j (Nat.lt_of_lt_of_le hj hext.1)]
    exact hext.2 j hj
  · have hseen : t.seen = TopicsInfo.zero := if_neg hleg
    rw [hseen]
    exact ⟨⟨Nat.zero_le _, fun j hj => absurd hj (Nat.not_lt_zero j)⟩, fun h => absurd h hleg⟩

omit [DoubleText D] in
theorem goto_same {b : TopicBus.State κ Nat (List UInt8) Region (JsonValue D)} {i : Nat}
    {r : TopicBus.Round (List UInt8)} (h : b.round i = r) : b.goto i r = b := by
  subst h
  unfold TopicBus.State.goto
  rw [Function.update_eq_self]

omit [DoubleText D] in
/-- A call that takes no mark away. -/
theorem call_image {i : Nat} {c : SpinCall Empty} {cs : List (SpinCall Empty)} {r : Registry D}
    (hspin : s.spin i = .calling (c :: cs)) (hc : cleared t c = none)
    (hr : marked t r.event_flag_ = marked t s.nodes.event_flag_) :
    ((s.putNode i r).goto i (.calling cs)).image t = s.image t := by
  rw [goto_image, putNode_image, hr]
  refine goto_same ((round_image hspin).trans ?_)
  exact congrArg TopicBus.Round.clearing (List.filterMap_cons_none hc)

omit [DoubleText D] in
/-- The bits are not in the node table. -/
theorem sameBits_hasNodes : HasNodes fun s s' : Registry D => s'.event_flag_ = s.event_flag_ :=
  ⟨fun _ => rfl, fun h h' => h'.trans h, fun _ _ => rfl⟩

/-- **A read of the registry.** -/
theorem System.Ready.sync (h : s.Ready t pubs) {i : Nat} (hi : i < s.nodes.started) {r : Registry D}
    (hc : syncRegistryFromShm (s.nodes.view i) = .ok () r) :
    (s.putNode i r).Ready t pubs ∧ r.event_flag_ = s.nodes.event_flag_ := by
  have hread := h.table.region.reads (s := s.nodes.view i) rfl
  unfold syncRegistryFromShm at hc
  rw [Op.bind_ok hread] at hc
  have hkeep := KeepsTopics.readNodesInfo_ ((s.nodes.view i).mapTopics t.seen.load)
  have hbits := (sameBits_hasNodes (D := D)).readNodesInfo_ ((s.nodes.view i).mapTopics t.seen.load)
  rw [hc] at hkeep hbits
  change SameTopics _ r at hkeep
  have hcopy : r.mgr.topics_ = t.seen.load (s.nodes.cache i).topics_ := hkeep.table
  obtain ⟨hfront, hmore⟩ := load_extends t (s.nodes.cache i).topics_
  have hregion := h.table.region.same (s := (s.nodes.view i).mapTopics t.seen.load) hkeep
  exact ⟨h.putNode hregion (hcopy ▸ hfront) fun hleg => hcopy ▸ hmore hleg (h.table.copies i hi), hbits⟩

/-- **A call behind the loop.** -/
theorem call_step [DecidableEq κ] (h : s.Ready t pubs) {i : Nat} {c : SpinCall Empty} {cs : List (SpinCall Empty)}
    {r : Registry D} (hspin : s.spin i = .calling (c :: cs)) (hc : callOp c (s.nodes.view i) = .ok () r) :
    ((s.putNode i r).goto i (.calling cs)).Ready t pubs ∧
      Trans.Moves (TopicBus.Step medium (channel pubs) (¬ t.Legible)) (s.image t) (Act.image (.call i c : Act κ D))
        (((s.putNode i r).goto i (.calling cs)).image t) := by
  have hstarted := h.started (i := i) (by rw [hspin]; exact Spin.noConfusion)
  have hok := (h.spin i).1
  rw [hspin] at hok
  have hrest : (Spin.calling cs).Ok t := fun e he => hok e (List.mem_cons_of_mem _ he)
  cases c with
  | enqueue task => exact task.elim
  | syncRegistryFromShm =>
    obtain ⟨hready, hflags⟩ := h.sync hstarted hc
    exact ⟨hready.goto hstarted hrest, call_image hspin rfl (by rw [hflags])⟩
  | clearTriggerEvent e =>
    have hid := hok e List.mem_cons_self
    have hbounds : 0 ≤ e.toInt ∧ e.toInt < (MAX_TOPICS_PER_NODE : Int) := by
      rcases hid with hlast | ⟨n, hn⟩
      · rw [hlast]
        decide
      · exact ⟨(h.id_bounds hn).1, (h.id_bounds hn).2.2⟩
    have heq := clearTriggerEvent_eq hbounds.1 hbounds.2 (s.nodes.view i)
    obtain rfl : _ = r := (EStateM.Result.ok.inj (heq.symm.trans hc)).2
    refine ⟨(h.putNode_view hstarted).goto hstarted hrest, ?_⟩
    by_cases hlast : e.toInt = ((MAX_TOPICS_PER_NODE - 1 : Nat) : Int)
    · have hnone : Act.image (.call i (.clearTriggerEvent e) : Act κ D) = none := if_pos hlast
      have hclear : cleared t (.clearTriggerEvent e) = none := by
        unfold cleared
        exact if_pos hlast
      rw [hnone]
      refine call_image hspin hclear (marked_update_of_ne (fun n e' he' => ?_) _ _)
      have hlt := h.ids n e' he'
      have hnn := he'.nonneg h.table.tidy
      omega
    · have hsome : Act.image (.call i (.clearTriggerEvent e) : Act κ D) = some (.clear i) := if_neg hlast
      have hclear : cleared t (.clearTriggerEvent e) = some (nameOf t e) := by
        unfold cleared
        exact if_neg hlast
      obtain ⟨n, hn⟩ := hid.resolve_left hlast
      have hround : (s.image t).round i = .clearing (n :: cs.filterMap (cleared t)) := by
        rw [round_image hspin, ← hn.nameOf_eq h.table.tidy]
        exact congrArg TopicBus.Round.clearing (List.filterMap_cons_some hclear)
      have himage : ((s.putNode i { s.nodes.view i with
          event_flag_ := Function.update s.nodes.event_flag_ e.toInt.toNat false }).goto i (.calling cs)).image t =
          ((s.image t).clear n).goto i (.clearing (cs.filterMap (cleared t))) := by
        rw [goto_image, putNode_image, hn.marked_update h.table.tidy]
        rfl
      rw [hsome]
      exact himage ▸ .clear hround

/-- **One step of the nodes is one of the bus, or none.** -/
theorem System.Ready.step [DecidableEq κ] {s' : System κ D} {a : Act κ D} (h : s.Ready t pubs) (hk : Known s a)
    (hs : a.Step s s') : s'.Ready t pubs ∧
      Trans.Moves (TopicBus.Step medium (channel pubs) (¬ t.Legible)) (s.image t) a.image (s'.image t) := by
  cases hs with
  | write hnone hw => exact write_step h hk hnone hw
  | notify hw hn => exact notify_step h hw hn
  | @waitForEvent i hi hspin =>
    refine ⟨h.goto hi fun e he => absurd he List.not_mem_nil, ?_⟩
    rw [goto_image]
    exact .wait (round_image hspin)
  | enqueued hspin _ hsub he hb hc => exact enqueued_step h hspin hsub he hb hc
  | passed hspin _ hsub he hb hc => exact passed_step h hspin hsub he hb hc
  | leave hspin hend => exact leave_step h hspin hend
  | call hspin hc => exact call_step h hspin hc
  | @again i hspin =>
    refine ⟨h.goto (h.started (i := i) (by rw [hspin]; exact Spin.noConfusion)) trivial, ?_⟩
    rw [goto_image]
    exact .again (round_image hspin)

end Step

end NodeBus

end MiniRos2

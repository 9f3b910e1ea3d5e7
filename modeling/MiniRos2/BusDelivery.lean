import MiniRos2.BusRun
/-!
# BusDelivery — what the subscriptions are handed

The runs of the nodes are runs of the bus (`image_of_run`).  So no subscription enqueues a task more often than its
topic was triggered (`enqueued_le_of_run`).  And when the topics can be read back and a bit is cleared only with every
subscription of its topic up to date, or still to be, all are up to date when there is nothing left to do
(`upToDate_of_run`); a node that clears the bit before another has seen it leaves that one behind
(`upToDate_not_always`).
-/
namespace MiniRos2

namespace NodeBus

open TornRead (handed)
open TopicBus (State)

/-! ## A round of a node with one subscription -/

section Round

variable {κ D : Type} [DoubleText D] [DecidableEq κ] {s : System κ D} {i : Nat} {e : Int32}
  {guard : System κ D → Act κ D → Prop}

/-- What a subscription that hands over its message answers. -/
def taskBase (sub : Subscriber D) : SubscriberBase (JsonValue D × Subscriber D) := ⟨.ok (sub.msg_, sub)⟩

/-- The node has enqueued the task of its subscription, and has the bit to clear. -/
def System.looped (s : System κ D) (i : Nat) (e : Int32) (before : JsonValue D) (sub : Subscriber D) : System κ D :=
  { s with
    subscriptions_ := Function.update s.subscriptions_ i [sub]
    enqueued := s.enqueued ++ [(i, 0, before, sub.msg_)]
    spin := Function.update s.spin i (.calling [.clearTriggerEvent e]) }

/-- The bit is cleared, and the node waits again. -/
def System.rested (s : System κ D) (i : Nat) (e : Int32) : System κ D :=
  { s with
    nodes := { s.nodes with event_flag_ := Function.update s.nodes.event_flag_ e.toInt.toNat false }
    spin := Function.update s.spin i .waiting }

theorem run_loop {sub sub' : Subscriber D} (hi : i < s.nodes.started) (hspin : s.spin i = .waiting)
    (hsub : s.subscriptions_ i = [sub]) (hid : s.subscription_event_ids_ i = [e]) (h0 : 0 ≤ e.toInt)
    (hlt : e.toInt < (EVENT_MAX_COUNT : Int)) (hF : s.nodes.event_flag_ e.toInt.toNat = true)
    (hlast : s.nodes.event_flag_ (EVENT_MAX_COUNT - 1) = false)
    (htask : sub.createTaskFromSubEvent s.space = .ok (sub'.msg_, sub'))
    (hg : ∀ u, guard u (.waitForEvent i) ∧ guard u (.check i) ∧ guard u (.leave i)) :
    Trans.Run Act.Step guard s [.waitForEvent i, .check i, .leave i] (s.looped i e sub.msg_ sub') := by
  have hany : EventFlags.any s.nodes.event_flag_ = true :=
    List.any_eq_true.2 ⟨e.toInt.toNat, List.mem_range.2 (by omega), hF⟩
  have hcheck : checkSubscription s.nodes.event_flag_ true true (taskBase sub') e =
       some ((sub'.msg_, sub'), e) :=
    (checkSubscription_eq h0 hlt rfl).trans (if_pos hF)
  have hcalls : roundCalls s.nodes.event_flag_ [e] = [.clearTriggerEvent e] := by
    unfold roundCalls
    rw [if_neg (by rw [hlast]; exact Bool.false_ne_true)]
    rfl
  have hsub0 : (s.subscriptions_ i)[0]? = some sub := by rw [hsub]; rfl
  have hid0 : (s.subscription_event_ids_ i)[0]? = some e := by rw [hid]; rfl
  have hwait : Act.Step s (.waitForEvent i) (s.goto i (.checking s.nodes.event_flag_ 0 [])) := .waitForEvent hi hspin
  have hbase : sub.createTaskFromSubEvent s.space = (taskBase sub').createTaskFromSubEvent.mapError .throws := htask
  have htake := Act.Step.enqueued (s := s.goto i (.checking s.nodes.event_flag_ 0 [])) (goto_spin ..) hany hsub0 hid0
    hbase hcheck
  have hend : (Function.update s.subscriptions_ i ((s.subscriptions_ i).set 0 sub') i).length ≤ 0 + 1 := by
    rw [Function.update_self, List.length_set, hsub]
    exact Nat.le_refl 1
  have hrun := ((Trans.Run.single (hg _).1 hwait).snoc (hg _).2.1 htake).snoc (hg _).2.2
    (.leave (goto_spin ..) (.inr (.inl hend)))
  have hstate : (((s.goto i (.checking s.nodes.event_flag_ 0 [])).enqueue i 0 sub.msg_ sub'.msg_ sub').goto i
      (.checking s.nodes.event_flag_ (0 + 1) ([] ++ [e]))).goto i
        (.calling (roundCalls s.nodes.event_flag_ ([] ++ [e]))) = s.looped i e sub.msg_ sub' := by
    unfold System.looped System.goto System.enqueue
    dsimp only
    rw [Function.update_idem, Function.update_idem, List.nil_append, hcalls, hsub]
    rfl
  exact hstate ▸ hrun

theorem run_rest (hspin : s.spin i = .calling [.clearTriggerEvent e]) (h0 : 0 ≤ e.toInt)
    (hlt : e.toInt < (MAX_TOPICS_PER_NODE : Int)) (hclear : guard s (.call i (.clearTriggerEvent e)))
    (hg : ∀ u, guard u (.again i)) :
    Trans.Run Act.Step guard s [.call i (.clearTriggerEvent e), .again i] (s.rested i e) := by
  have hcall : Act.Step s (.call i (.clearTriggerEvent e)) _ :=
    .call hspin (clearTriggerEvent_eq h0 hlt (s.nodes.view i))
  have hrun := (Trans.Run.single hclear hcall).snoc (hg _) (.again (goto_spin ..))
  have hstate : ((s.putNode i { s.nodes.view i with
      event_flag_ := Function.update (s.nodes.view i).event_flag_ e.toInt.toNat false }).goto i (.calling [])).goto i
      .waiting = s.rested i e := by
    have hcache : Function.update s.nodes.cache i (s.nodes.view i).mgr = s.nodes.cache := Function.update_eq_self ..
    unfold System.rested System.goto System.putNode Cluster.put
    dsimp only
    rw [Function.update_idem, hcache]
    rfl
  exact hstate ▸ hrun

end Round

/-! ## A message from one node -/

/-- The first node has made a topic. -/
def talkNode : Registry (List UInt8) := finalState (addPubTopic (utf8 "/t") (utf8 "e") (oneTalker.nodes.view 0))

/-- The topic's bit is set. -/
def talkFlags : EventFlags := Function.update (fun _ => false) 1 true

def talkNodes : Cluster (List UInt8) := { oneTalker.nodes.put 0 talkNode with event_flag_ := talkFlags }

def talkTable : TopicsInfo := talkNode.mgr.topics_

def talkRegion : List UInt8 := fullName (utf8 "/t") (utf8 "e")

/-- The topic's region, as the publisher and a subscription have it mapped. -/
def talkShm (is_owner_ : Bool) : ShmBase := ⟨⟨talkRegion, sizeofShmHead + 4, some 0, is_owner_⟩, true⟩

def talkSub (msg_ : JsonValue (List UInt8)) : Subscriber (List UInt8) := ⟨utf8 "/t", some (talkShm false), msg_⟩

def talkSpace : ShmSpace :=
  ⟨Function.update (fun _ => none) talkRegion (some 0),
    fun _ => ⟨sizeofShmHead + 4, ByteMem.write ByteMem.zero 0 (utf8 "true")⟩, 1⟩

/-- `true` is published under the topic, to which the first `n` nodes subscribe. -/
def talk (n : Nat) : System Unit (List UInt8) where
  nodes := talkNodes
  space := talkSpace
  publisher _ := (0, ⟨utf8 "/t", some (talkShm true), utf8 "/t"⟩)
  written _ := none
  subscriptions_ i := if i < n then [talkSub .null] else []
  subscription_event_ids_ i := if i < n then [1] else []
  spin _ := .waiting
  enqueued := []

/-- The bits are not part of the table. -/
theorem shares_of_sound {D : Type} [DoubleText D] {b : Bus D} {t : TopicsInfo} (h : b.SoundAt t) (F : EventFlags) :
    Shares (D := D) t { b.nodes with event_flag_ := F } := ⟨h.region, h.tidy, fun i hi => (h.copies i hi).2⟩

theorem talk_shares : Shares talkTable talkNodes := by
  have hsound : oneTalker.SoundAt TopicsInfo.zero :=
    Bus.two_sound.keep (by decide) (keepsTopics_answer (.registerNode talkerNode) _ (Bus.two.nodes.view 0))
  have hord : oneTalker.InOrder (.call 0 (.addPubTopic (utf8 "/t") (utf8 "e"))) := by
    refine ⟨by decide +kernel, .inl ?_⟩
    rw [hsound.shared_eq]
    decide +kernel
  have hanswer : answer (addPubTopic (utf8 "/t") (utf8 "e") (oneTalker.nodes.view 0)) = some () ∧
      FarFromFull (finalState (addPubTopic (utf8 "/t") (utf8 "e") (oneTalker.nodes.view 0))) := by decide +kernel
  have hadd := hsound.addPub (i := 0) (by decide) hord (not_undefined_of_answer hanswer.1) hanswer.2
  have hnode : finalState (addPubTopic (utf8 "/t") (utf8 "e") (oneTalker.nodes.view 0)) = talkNode := rfl
  rw [hnode] at hadd
  exact shares_of_sound hadd talkFlags

theorem talk_first : talkTable.First talkRegion 1 := by
  refine ⟨by decide +kernel, by decide, by decide +kernel, fun j hj => ?_⟩
  obtain rfl : j = 0 := by omega
  decide +kernel

theorem talk_topic : TopicId talkTable talkRegion 1 := ⟨1, talk_first, by decide +kernel⟩

theorem lookup_talkRegion : talkSpace.lookup talkRegion = some 0 := by
  show Function.update (fun _ => none) talkRegion (some 0) talkRegion = _
  exact Function.update_self ..

theorem lookup_other {n : List UInt8} (h : n ≠ talkRegion) :
    talkSpace.lookup n = none := by
  show Function.update (fun _ => none) talkRegion (some 0) n = _
  exact Function.update_of_ne h ..

theorem talk_mapped (b : Bool) :
    Mapped talkSpace (some (talkShm b)) talkRegion := ⟨0, 4, b, rfl, lookup_talkRegion, rfl⟩

theorem talk_ready (n : Nat) (hn : n ≤ 2) : (talk n).Ready talkTable (talk n).publisher where
  table := talk_shares
  ids m e he := by
    obtain ⟨l, hl, rfl⟩ := he
    have hid := talk_shares.tidy.bounded.id_le l
    have hcount : talkTable.count = 2 := by decide +kernel
    have hlt := hl.1
    have hle : ((2 : Nat) : Int) ≤ ((MAX_TOPICS_PER_NODE - 1 : Nat) : Int) := by decide
    omega
  publishers := rfl
  publisher _ := by
    have hstarted : 0 < talkNodes.started := by decide
    have hne : utf8 "/t" ≠ [] := by decide
    exact ⟨hstarted, talk_mapped true, rfl, hne⟩
  written _ _ _ h := by cases h
  subscription i id sub h := by
    change (if i < n then [talkSub .null] else [])[id]? = some sub at h
    split at h
    · rename_i hi
      obtain ⟨hlt, rfl⟩ := List.getElem?_eq_some_iff.1 h
      obtain rfl : id = 0 := by simpa using hlt
      refine ⟨Nat.lt_of_lt_of_le hi hn, talk_mapped false, 1, ?_, talk_topic⟩
      show (if i < n then [1] else ([] : List Int32))[0]? = some 1
      rw [if_pos hi]
      rfl
    · cases h
  distinct m m' id h h' := by
    have hname : ∀ x, (talk n).space.lookup x = some id → x = talkRegion := by
      intro x hx
      by_contra hne
      rw [show (talk n).space.lookup x = none from lookup_other hne] at hx
      cases hx
    rw [hname m h, hname m' h']
  spin _ := ⟨trivial, fun _ => rfl⟩

/-! ### The first node goes round -/

theorem content_talkSub (msg_ : JsonValue (List UInt8)) : (talkSub msg_).content talkSpace = .ok (utf8 "true") := by
  rfl

theorem handed_true : handed (utf8 "true") (.null : JsonValue (List UInt8)) = .bool true := by rfl

theorem createTask_talkSub :
    (talkSub .null).createTaskFromSubEvent talkSpace = .ok (.bool true, talkSub (.bool true)) := by rfl

/-- It has enqueued the task; it has cleared the bit. -/
def talkLeft (n : Nat) : System Unit (List UInt8) := (talk n).looped 0 1 .null (talkSub (.bool true))

def talked (n : Nat) : System Unit (List UInt8) := (talkLeft n).rested 0 1

def roundActs : List (Act Unit (List UInt8)) :=
  [.waitForEvent 0, .check 0, .leave 0] ++ [.call 0 (.clearTriggerEvent 1), .again 0]

theorem run_talk {n : Nat} (hn : 0 < n) {guard : System Unit (List UInt8) → Act Unit (List UInt8) → Prop}
    (hg : ∀ s, guard s (.waitForEvent 0) ∧ guard s (.check 0) ∧ guard s (.leave 0))
    (hclear : guard (talkLeft n) (.call 0 (.clearTriggerEvent 1))) (hagain : ∀ s, guard s (.again 0)) :
    Trans.Run Act.Step guard (talk n) roundActs (talked n) := by
  have hstarted : 0 < (talk n).nodes.started := by
    show 0 < talkNodes.started
    decide
  have hset : talkFlags 1 = true := Function.update_self ..
  have hlast : talkFlags (EVENT_MAX_COUNT - 1) = false := Function.update_of_ne (by decide) ..
  have htask : (talkSub .null).createTaskFromSubEvent (talk n).space =
      .ok ((talkSub (.bool true)).msg_, talkSub (.bool true)) := createTask_talkSub
  have hloop := run_loop (s := talk n) (e := 1) hstarted rfl (if_pos hn) (if_pos hn) (by decide) (by decide) hset hlast
    htask hg
  have hspin : (talkLeft n).spin 0 = .calling [.clearTriggerEvent 1] := by
    show Function.update (talk n).spin 0 _ 0 = _
    exact Function.update_self ..
  exact hloop.trans (run_rest hspin (by decide) (by decide) hclear hagain)

theorem talked_spin (n i : Nat) : (talked n).spin i = .waiting := by
  unfold talked System.rested talkLeft System.looped
  dsimp only
  rw [Function.update_idem]
  exact congrFun (Function.update_eq_self 0 (fun _ : Nat => Spin.waiting)) i

/-! ### It publishes, and goes round again -/

def saidSpace : ShmSpace :=
  talkSpace.put 0 ⟨sizeofShmHead + 4, ByteMem.write (ByteMem.write ByteMem.zero 0 (utf8 "true")) 0 (utf8 "null")⟩

theorem content_said (msg_ : JsonValue (List UInt8)) : (talkSub msg_).content saidSpace = .ok (utf8 "null") := by rfl

theorem handed_null : handed (utf8 "null") (.bool true : JsonValue (List UInt8)) = .null := by rfl

theorem createTask_said : (talkSub (.bool true)).createTaskFromSubEvent saidSpace = .ok (.null, talkSub .null) := by
  rfl

/-- It has written `null`; it has triggered the event. -/
def saidWritten : System Unit (List UInt8) :=
  (talked 1).setPub () { (talked 1).pub () with space := saidSpace } (some (utf8 "e"))

def said : System Unit (List UInt8) :=
  saidWritten.setPub () { saidWritten.pub () with shm_manager_ := some { saidWritten.nodes.view 0 with
    event_flag_ := Function.update (saidWritten.nodes.view 0).event_flag_ 1 true } } none

def saidLeft : System Unit (List UInt8) := said.looped 0 1 (.bool true) (talkSub .null)

def saidDone : System Unit (List UInt8) := saidLeft.rested 0 1

theorem setPub_cache {s : System Unit (List UInt8)} {q : PubState (List UInt8)}
    (h : q.shm_manager_ = some (s.nodes.view (s.publisher ()).1)) (event : Option (List UInt8)) :
    (s.setPub () q event).nodes.cache = s.nodes.cache := by
  unfold System.setPub
  rw [h]
  exact Function.update_eq_self ..

theorem talked_table : ((talked 1).nodes.cache 0).topics_ = talkTable := by
  show (Function.update oneTalker.nodes.cache 0 talkNode.mgr 0).topics_ = talkNode.mgr.topics_
  rw [Function.update_self]

theorem saidWritten_table : (saidWritten.nodes.cache 0).topics_ = talkTable := by
  have hcache : saidWritten.nodes.cache = (talked 1).nodes.cache := setPub_cache rfl (some (utf8 "e"))
  rw [hcache, talked_table]

theorem saidWritten_step : Act.Step (talked 1) (.write () talkRegion .null) saidWritten := by
  have hfirst : ((talked 1).nodes.view 0).mgr.topics_.First talkRegion 1 := talked_table.symm ▸ talk_first
  show Act.Step (talked 1) (.write () ((talked 1).full_name () (utf8 "e")) .null) saidWritten
  refine .write rfl ?_
  unfold publishWrite
  rw [Pub.get_bind, Pub.bind_of_ok (ensureShm_of_some rfl), Pub.bind_of_ok (ensureTopic_of_first rfl hfirst)]
  exact writeShm_of_mapped rfl rfl (by decide)

theorem said_step : Act.Step saidWritten (.notify () talkRegion) said := by
  have hid : ((saidWritten.nodes.view (saidWritten.publisher ()).1).mgr.topics_.topics 1).event_id_ = 1 := by
    decide +kernel
  have hne : utf8 "/t" ≠ [] := by decide
  have hfirst : (saidWritten.nodes.view 0).mgr.topics_.First talkRegion 1 := saidWritten_table.symm ▸ talk_first
  have hok := notify_of_first (p := saidWritten.pub ()) rfl rfl hne hfirst (by rw [hid]; decide) (by rw [hid]; decide)
  rw [hid] at hok
  show Act.Step saidWritten (.notify () (saidWritten.full_name () (utf8 "e"))) said
  exact .notify rfl hok

theorem run_said {guard : System Unit (List UInt8) → Act Unit (List UInt8) → Prop}
    (hg : ∀ s, guard s (.waitForEvent 0) ∧ guard s (.check 0) ∧ guard s (.leave 0)) (hagain : ∀ s, guard s (.again 0))
    (hwrite : guard (talked 1) (.write () talkRegion .null)) (hnotify : guard saidWritten (.notify () talkRegion))
    (hclear : guard saidLeft (.call 0 (.clearTriggerEvent 1))) :
    Trans.Run Act.Step guard (talked 1) ([.write () talkRegion .null, .notify () talkRegion] ++ roundActs)
      saidDone := by
  have hpublish := (Trans.Run.single hwrite saidWritten_step).snoc hnotify said_step
  have hstarted : 0 < said.nodes.started := by
    show 0 < talkNodes.started
    decide
  have hset : said.nodes.event_flag_ 1 = true := by
    show Function.update (Function.update talkFlags 1 false) 1 true 1 = true
    exact Function.update_self ..
  have hlast : said.nodes.event_flag_ (EVENT_MAX_COUNT - 1) = false := by
    show Function.update (Function.update talkFlags 1 false) 1 true (EVENT_MAX_COUNT - 1) = false
    rw [Function.update_of_ne (by decide), Function.update_of_ne (by decide)]
    exact Function.update_of_ne (by decide) ..
  have hsub : said.subscriptions_ 0 = [talkSub (.bool true)] := by
    show Function.update (talk 1).subscriptions_ 0 _ 0 = _
    exact Function.update_self ..
  have htask : (talkSub (.bool true)).createTaskFromSubEvent said.space =
      .ok ((talkSub (.null : JsonValue (List UInt8))).msg_, talkSub .null) := createTask_said
  have hloop := run_loop (e := 1) hstarted (talked_spin 1 0) hsub rfl (by decide) (by decide) hset hlast htask hg
  have hspin : saidLeft.spin 0 = .calling [.clearTriggerEvent 1] := by
    show Function.update said.spin 0 _ 0 = _
    exact Function.update_self ..
  exact hpublish.trans (hloop.trans (run_rest hspin (by decide) (by decide) hclear hagain))

/-- A round, a publish, and another round. -/
def talkActs : List (Act Unit (List UInt8)) :=
  roundActs ++ ([.write () talkRegion .null, .notify () talkRegion] ++ roundActs)

theorem saidDone_subscriptions :
    saidDone.subscriptions_ = Function.update (talk 1).subscriptions_ 0 [talkSub .null] := by
  show Function.update (Function.update (talk 1).subscriptions_ 0 _) 0 [talkSub .null] = _
  exact Function.update_idem ..

section Runs

variable {κ D : Type} [DoubleText D] {t : TopicsInfo} {pubs : κ → Nat × Publisher} {s : System κ D}

/-- **What the nodes do is what the bus does.** -/
theorem image_of_run [DecidableEq κ] {s₀ : System κ D} {as : List (Act κ D)} (h₀ : s₀.Ready t pubs)
    (h : Trans.Run Act.Step Known s₀ as s) : s.Ready t pubs ∧
      Trans.Run (TopicBus.Step medium (channel pubs) (¬ t.Legible)) Trans.free (s₀.image t) (as.filterMap Act.image)
        (s.image t) := by
  refine h.simulate h₀ fun u a v hu hk hs => ?_
  obtain ⟨hv, hmoves⟩ := hu.step hk hs
  exact ⟨hv, hmoves, fun _ _ => trivial⟩

/-! ## Nothing is handed over twice -/

def Act.notifies (n : List UInt8) : Act κ D → Bool
  | .notify _ full_name => decide (full_name = n)
  | _ => false

omit [DoubleText D] in
theorem announces_image (n : List UInt8) (as : List (Act κ D)) :
    (as.filterMap Act.image).countP (TopicBus.Act.announces n) = as.countP (Act.notifies n) := by
  rw [List.countP_filterMap]
  refine List.countP_congr fun a _ => iff_of_eq (congrArg (· = true) ?_)
  cases a with
  | call i c =>
    cases c with
    | clearTriggerEvent e =>
      unfold Act.image
      dsimp only
      split <;> rfl
    | _ => rfl
  | _ => rfl

/-- **No task twice**: in every run in which all nodes wait at the start, a subscription's tasks are at most as many as
the triggers for its region's name, and one more if its bit was set before. -/
theorem enqueued_le_of_run [DecidableEq κ] {s₀ : System κ D} {as : List (Act κ D)} (h₀ : s₀.Ready t pubs)
    (hspin : ∀ i, s₀.spin i = .waiting) (hnone : s₀.enqueued = []) (h : Trans.Run Act.Step Known s₀ as s)
    {i id : Nat} {sub : Subscriber D} {e : Int32} (hsub : (s.subscriptions_ i)[id]? = some sub)
    (he : (s.subscription_event_ids_ i)[id]? = some e) :
    s.enqueued.countP (fun x => x.1 = i ∧ x.2.1 = id) ≤
      (s₀.nodes.event_flag_ e.toInt.toNat).toNat + as.countP (Act.notifies (regionName sub.shm_)) := by
  obtain ⟨hs, hrun⟩ := image_of_run h₀ h
  obtain ⟨-, -, e', he', hid⟩ := hs.subscription i id sub hsub
  obtain rfl := Option.some.inj (he'.symm.trans he)
  have hwait : ∀ j, (s₀.image t).round j = .waiting := fun j => round_image (hspin j)
  have hle := TopicBus.taken_le_of_run hwait hnone hrun (holds_image.2 ⟨sub, hsub, rfl⟩)
  unfold TopicBus.marks at hle
  rw [announces_image] at hle
  rw [← hid.marked_eq s₀.nodes.event_flag_]
  exact hle

theorem enqueued_le_of_talk : saidDone.enqueued.countP (fun x => x.1 = 0 ∧ x.2.1 = 0) = 2 ∧
    saidDone.enqueued.countP (fun x => x.1 = 0 ∧ x.2.1 = 0) ≤
      (talkFlags 1).toNat + talkActs.countP (Act.notifies talkRegion) := by
  have hknown : Known (talked 1) (.write () talkRegion .null) := ⟨1, talked_table.symm ▸ talk_first⟩
  have hrun : Trans.Run Act.Step Known (talk 1) talkActs saidDone :=
    (run_talk Nat.one_pos (fun _ => ⟨trivial, trivial, trivial⟩) trivial fun _ => trivial).trans
      (run_said (fun _ => ⟨trivial, trivial, trivial⟩) (fun _ => trivial) hknown trivial trivial)
  have hsub : (saidDone.subscriptions_ 0)[0]? = some (talkSub .null) := by
    rw [saidDone_subscriptions, Function.update_self]
    rfl
  exact ⟨rfl, enqueued_le_of_run (talk_ready 1 (by decide)) (fun _ => rfl) rfl hrun (e := 1) hsub rfl⟩

/-! ## Nothing is missed -/

/-- What the last task of a subscription hands over, with the message that the subscription had before. -/
def System.last (s : System κ D) (i id : Nat) : Option (JsonValue D × JsonValue D) :=
  (s.enqueued.filter fun x => decide (x.1 = i ∧ x.2.1 = id)).getLast?.map fun x => x.2.2

/-- **The subscription's message is from its last task, and is what its region's content gives** in place of the message
it had before that task. -/
def System.UpToDate (s : System κ D) (i id : Nat) (sub : Subscriber D) : Prop :=
  ∃ c before, sub.content s.space = .ok c ∧ s.last i id = some (before, sub.msg_) ∧ sub.msg_ = handed c before

/-- A publisher is about to set the bit, or the node has seen it and is not past the subscription. -/
def System.Due (s : System κ D) (i id : Nat) (e : Int32) (sub : Subscriber D) : Prop :=
  s.UpToDate i id sub ∨ (∃ k event, s.written k = some event ∧ s.full_name k event = regionName sub.shm_) ∨
    ∃ F id' ids, s.spin i = .checking F id' ids ∧ F e.toInt.toNat = true ∧ id' ≤ id

/-- **A publish is of a known topic, under the name of its region, and a bit is cleared when every subscription with its
id is up to date, or still to be.** -/
def Careful (s : System κ D) : Act κ D → Prop
  | .write k full_name _ =>
    (s.nodes.cache (s.publisher k).1).topics_.Visible full_name ∧ regionName (s.publisher k).2.shm_ = full_name
  | .call _ (.clearTriggerEvent e) => ∀ j id sub, (s.subscriptions_ j)[id]? = some sub →
      (s.subscription_event_ids_ j)[id]? = some e → s.Due j id e sub
  | _ => True

/-- **No publisher has a bit to set, no node is in a round, and no topic's bit is set.** -/
structure System.Quiet (s : System κ D) : Prop where
  written : ∀ k, s.written k = none
  spin : ∀ i, s.spin i = .waiting
  event_flag_ : ∀ j, j < MAX_TOPICS_PER_NODE - 1 → s.nodes.event_flag_ j = false

theorem System.Ready.upToDate_iff (h : s.Ready t pubs) {i id : Nat} {sub : Subscriber D}
    (hsub : (s.subscriptions_ i)[id]? = some sub) :
    s.UpToDate i id sub ↔ (s.image t).Current medium i id (subImage sub) := by
  obtain ⟨-, hm, -⟩ := h.subscription i id sub hsub
  obtain ⟨rid, -, hl, -, -, hcontent, -⟩ := createTask_of_mapped hm
  have hregion : region s.space (regionName sub.shm_) = s.space.obj rid := by
    unfold region
    rw [hl]
    rfl
  have hhand (before : JsonValue D) : medium.hand (region s.space (regionName sub.shm_)) before =
      handed (ByteMem.read (s.space.obj rid).mem 0 ((s.space.obj rid).size - sizeofShmHead)) before := by
    rw [hregion]
    rfl
  constructor
  · rintro ⟨c, before, hc, hlast, hv⟩
    cases hc.symm.trans hcontent
    exact ⟨before, hlast, hv.trans (hhand before).symm⟩
  · rintro ⟨before, hlast, hv⟩
    exact ⟨_, before, hcontent, hlast, hv.trans (hhand before)⟩

theorem System.Ready.due_image (h : s.Ready t pubs) {i id : Nat} {sub : Subscriber D} {e : Int32}
    (hsub : (s.subscriptions_ i)[id]? = some sub) (he : TopicId t (regionName sub.shm_) e) (hd : s.Due i id e sub) :
    (s.image t).Due medium i id (subImage sub) := by
  rcases hd with hcur | ⟨k, event, hw, hname⟩ | ⟨F, id', ids, hspin, hF, hle⟩
  · exact .inl ((h.upToDate_iff hsub).1 hcur)
  · refine .inr (.inl ⟨k, ?_⟩)
    show Option.map (s.full_name k) (s.written k) = some (regionName sub.shm_)
    rw [hw, Option.map_some, hname]
  · exact .inr (.inr ⟨_, _, _, round_image hspin, (he.marked_eq F).trans hF, hle⟩)

/-- A careful step is a covered one. -/
theorem System.Ready.covers [DecidableEq κ] {s' : System κ D} {a : Act κ D} (h : s.Ready t pubs)
    (hg : Careful s a) (hs : a.Step s s') (b : TopicBus.Act κ Nat (List UInt8) (JsonValue D))
    (hb : a.image = some b) : (s.image t).Covers medium (channel pubs) b := by
  cases hs with
  | write _ _ =>
    cases hb
    obtain rfl := h.publishers
    exact hg.2
  | @call i c cs r hspin _ =>
    cases c with
    | enqueue task => exact task.elim
    | syncRegistryFromShm => cases hb
    | clearTriggerEvent e =>
      unfold Act.image at hb
      dsimp only at hb
      split at hb
      · cases hb
      · rename_i hlast
        cases hb
        intro n taken hround j id x hx hname
        obtain ⟨sub, hsub, rfl⟩ := holds_image.1 hx
        have hok := (h.spin i).1
        rw [hspin] at hok
        obtain ⟨n', hn'⟩ := (hok e List.mem_cons_self).resolve_left hlast
        have hclear : cleared t (.clearTriggerEvent e) = some (nameOf t e) := by
          unfold cleared
          exact if_neg hlast
        have heq : Spin.image t (.calling (.clearTriggerEvent e :: cs)) =
            .clearing (nameOf t e :: cs.filterMap (cleared t)) :=
          congrArg TopicBus.Round.clearing (List.filterMap_cons_some hclear)
        have hhead := (round_image (t := t) hspin).symm.trans hround
        rw [heq, hn'.nameOf_eq h.table.tidy] at hhead
        obtain ⟨rfl, -⟩ := List.cons.inj (TopicBus.Round.clearing.inj hhead)
        obtain ⟨-, -, e', he', hid⟩ := h.subscription j id sub hsub
        have hid' : TopicId t (regionName sub.shm_) e := by
          rw [show regionName sub.shm_ = n' from hname]
          exact hn'
        obtain rfl := hid.unique hid'
        exact h.due_image hsub hid (hg j id sub hsub he')
  | _ =>
    cases hb
    trivial

/-- **Nothing is missed**: when the topics can be read back, and every subscription is up to date at the start or its
bit is set, every subscription is up to date in every quiet state of a careful run. -/
theorem upToDate_of_run [DecidableEq κ] {s₀ : System κ D} {as : List (Act κ D)} (hl : t.Legible) (h₀ : s₀.Ready t pubs)
    (hdue : ∀ (i id : Nat) (sub : Subscriber D) (e : Int32), (s₀.subscriptions_ i)[id]? = some sub →
      (s₀.subscription_event_ids_ i)[id]? = some e →
      s₀.nodes.event_flag_ e.toInt.toNat = true ∨ s₀.UpToDate i id sub)
    (h : Trans.Run Act.Step Careful s₀ as s) (hq : s.Quiet) {i id : Nat} {sub : Subscriber D}
    (hsub : (s.subscriptions_ i)[id]? = some sub) : s.UpToDate i id sub := by
  have hawaited : (s₀.image t).Awaited medium := by
    intro j id' x hx
    obtain ⟨sub', hsub', rfl⟩ := holds_image.1 hx
    obtain ⟨-, -, e, he, hid⟩ := h₀.subscription j id' sub' hsub'
    rcases hdue j id' sub' e hsub' he with hF | hcur
    · exact .inl ((hid.marked_eq _).trans hF)
    · exact .inr (.inl ((h₀.upToDate_iff hsub').1 hcur))
  obtain ⟨hs, hrun⟩ := h.simulate (q := State.Covers medium (channel pubs)) h₀ fun u a v hu hg hstep => by
    have hk : Known u a := by
      cases a with
      | write k n data => exact hg.1
      | _ => trivial
    obtain ⟨hv, hmoves⟩ := hu.step hk hstep
    exact ⟨hv, hmoves, hu.covers hg hstep⟩
  refine (hs.upToDate_iff hsub).2 ?_
  refine TopicBus.current_of_run hawaited (not_not_intro hl) hrun
    ⟨fun k => ?_, fun j => round_image (hq.spin j), fun n => ?_⟩ (holds_image.2 ⟨sub, hsub, rfl⟩)
  · show Option.map _ (s.written k) = none
    rw [hq.written]
    rfl
  · refine Bool.eq_false_iff.2 fun hp => ?_
    obtain ⟨e, he, hF⟩ := marked_iff.1 hp
    have hlt := hs.ids n e he
    have hnn := he.nonneg hs.table.tidy
    rw [hq.event_flag_ _ (by omega)] at hF
    cases hF

/-! ### The first node's runs -/

/-- A state whose bits but the first topic's are not set. -/
theorem quiet_of_flags {s : System Unit (List UInt8)} {F : EventFlags} (hw : ∀ k, s.written k = none)
    (hspin : ∀ i, s.spin i = .waiting) (hF : s.nodes.event_flag_ = Function.update F 1 false)
    (hrest : ∀ j, j ≠ 1 → F j = false) : s.Quiet where
  written := hw
  spin := hspin
  event_flag_ j _ := by
    rw [hF]
    by_cases hj : j = 1
    · rw [hj, Function.update_self]
    · rw [Function.update_of_ne hj]
      exact hrest j hj

theorem talked_quiet (n : Nat) : (talked n).Quiet :=
  quiet_of_flags (F := talkFlags) (fun _ => rfl) (talked_spin n) rfl fun _ hj => Function.update_of_ne hj ..

theorem saidDone_quiet : saidDone.Quiet := by
  refine quiet_of_flags (F := Function.update (Function.update talkFlags 1 false) 1 true) (fun _ => rfl)
    (fun i => ?_) rfl fun j hj => ?_
  · unfold saidDone System.rested saidLeft System.looped
    dsimp only
    rw [Function.update_idem]
    by_cases hi : i = 0
    · rw [hi, Function.update_self]
    · rw [Function.update_of_ne hi]
      exact talked_spin 1 i
  · rw [Function.update_of_ne hj, Function.update_of_ne hj]
    exact Function.update_of_ne hj ..

theorem talk_due (n : Nat) (i id : Nat) (sub : Subscriber (List UInt8)) (e : Int32)
    (_ : ((talk n).subscriptions_ i)[id]? = some sub) (he : ((talk n).subscription_event_ids_ i)[id]? = some e) :
    (talk n).nodes.event_flag_ e.toInt.toNat = true ∨ (talk n).UpToDate i id sub := by
  change (if i < n then [1] else ([] : List Int32))[id]? = some e at he
  split at he
  · obtain ⟨hlt, rfl⟩ := List.getElem?_eq_some_iff.1 he
    obtain rfl : id = 0 := by simpa using hlt
    show talkFlags 1 = true ∨ _
    exact .inl (Function.update_self ..)
  · cases he

/-- The node that clears the bit has the only subscription, and has read what is there. -/
theorem careful_of_looped {s : System Unit (List UInt8)} {before msg : JsonValue (List UInt8)} {c : List UInt8}
    {subs : Nat → List (Subscriber (List UInt8))} (hsubs : s.subscriptions_ = Function.update subs 0 [talkSub msg])
    (hnone : ∀ j, j ≠ 0 → subs j = []) (hc : (talkSub msg).content s.space = .ok c)
    (hlast : s.last 0 0 = some (before, msg)) (hmsg : msg = handed c before) :
    Careful s (.call 0 (.clearTriggerEvent 1)) := by
  intro j id sub hsub _
  rw [hsubs] at hsub
  by_cases hj : j = 0
  · subst hj
    rw [Function.update_self] at hsub
    obtain ⟨hlt, rfl⟩ := List.getElem?_eq_some_iff.1 hsub
    obtain rfl : id = 0 := by simpa using hlt
    exact .inl ⟨c, before, hc, hlast, hmsg⟩
  · rw [Function.update_of_ne hj, hnone j hj] at hsub
    cases hsub

theorem upToDate_of_talk : saidDone.Quiet ∧ saidDone.UpToDate 0 0 (talkSub .null) := by
  have hnone : ∀ j, j ≠ 0 → (talk 1).subscriptions_ j = [] := fun j hj => if_neg (by omega)
  have hclear : Careful (talkLeft 1) (.call 0 (.clearTriggerEvent 1)) :=
    careful_of_looped rfl hnone (content_talkSub _) rfl handed_true.symm
  have hclear' : Careful saidLeft (.call 0 (.clearTriggerEvent 1)) :=
    careful_of_looped (saidDone_subscriptions : saidLeft.subscriptions_ = _) hnone (content_said _) rfl handed_null.symm
  have hwrite : Careful (talked 1) (.write () talkRegion .null) := ⟨⟨1, talked_table.symm ▸ talk_first⟩, rfl⟩
  have hrun : Trans.Run Act.Step Careful (talk 1) talkActs saidDone :=
    (run_talk Nat.one_pos (fun _ => ⟨trivial, trivial, trivial⟩) hclear fun _ => trivial).trans
      (run_said (fun _ => ⟨trivial, trivial, trivial⟩) (fun _ => trivial) hwrite trivial hclear')
  have hsub : (saidDone.subscriptions_ 0)[0]? = some (talkSub .null) := by
    rw [saidDone_subscriptions, Function.update_self]
    rfl
  have hleg : talkTable.Legible := by decide +kernel
  exact ⟨saidDone_quiet, upToDate_of_run hleg (talk_ready 1 (by decide)) (talk_due 1) hrun saidDone_quiet hsub⟩

/-- The second node has not looked when the first one clears the bit. -/
theorem upToDate_not_always : ¬ ∀ (t : TopicsInfo) (pubs : Unit → Nat × Publisher)
    (s₀ s : System Unit (List UInt8)) (as : List (Act Unit (List UInt8))), t.Legible → s₀.Ready t pubs →
    (∀ (i id : Nat) (sub : Subscriber (List UInt8)) (e : Int32), (s₀.subscriptions_ i)[id]? = some sub →
      (s₀.subscription_event_ids_ i)[id]? = some e →
      s₀.nodes.event_flag_ e.toInt.toNat = true ∨ s₀.UpToDate i id sub) →
    Trans.Run Act.Step Known s₀ as s → s.Quiet →
    ∀ (i id : Nat) (sub : Subscriber (List UInt8)), (s.subscriptions_ i)[id]? = some sub → s.UpToDate i id sub := by
  intro h
  have hrun : Trans.Run Act.Step Known (talk 2) roundActs (talked 2) :=
    run_talk (by decide) (fun _ => ⟨trivial, trivial, trivial⟩) trivial fun _ => trivial
  have hsub : ((talked 2).subscriptions_ 1)[0]? = some (talkSub .null) := by
    show (Function.update (talk 2).subscriptions_ 0 [talkSub (.bool true)] 1)[0]? = _
    rw [Function.update_of_ne (by decide)]
    rfl
  have hleg : talkTable.Legible := by decide +kernel
  obtain ⟨c, before, -, hlast, -⟩ :=
    h _ _ _ _ _ hleg (talk_ready 2 (Nat.le_refl 2)) (talk_due 2) hrun (talked_quiet 2) 1 0 _ hsub
  have hnever : (talked 2).last 1 0 = none := rfl
  cases hlast.symm.trans hnever

end Runs

end NodeBus

end MiniRos2

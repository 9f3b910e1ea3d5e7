import MiniRos2.TopicRoom
import MiniRos2.TopicSection
import MiniRos2.TextSize
import MiniRos2.DispatchRound
/-!
# EventIds — the ids that are handed out

A new topic gets the count plus one as its id, and the allocation, the trigger, the clearing and the dispatch each test
ids against the number of event bits; but the last bit is the one by which `removeNode` announces registry changes.  The
ids handed out are bits of their own exactly as long as no topic is created when only two entries are left or only one
(`signals_iff_of_run`).
-/
namespace MiniRos2

variable {D : Type}

/-- **An id that can be signalled**: it is an event bit, and not the bit of registry changes. -/
structure Signals (id : Int32) : Prop where
  bit : id.toInt < EVENT_MAX_COUNT
  own : id.toInt ≠ (MAX_TOPICS_PER_NODE - 1 : Nat)

/-- The bit of such an id is set. -/
theorem Signals.trigger {id : Int32} (h : Signals id) (hid : 0 ≤ id.toInt) (s : Registry D) :
    triggerEventById_ id s = .ok () { s with event_flag_ := Function.update s.event_flag_ id.toInt.toNat true } := by
  have hbit : id.toInt < MAX_TOPICS_PER_NODE := h.bit
  unfold triggerEventById_
  rw [if_neg (by omega)]
  rfl

/-- **The topic is not created when only two entries are left, or only one.** -/
def TopicsInfo.CreatesBelow (t : TopicsInfo) (full_name : List UInt8) : Prop :=
  t.Visible full_name ∨ t.count + 2 ≠ MAX_TOPICS_PER_NODE ∧ t.count + 1 ≠ MAX_TOPICS_PER_NODE

def CreatesBelow (s : Registry D) (c : TopicCall) : Prop := s.mgr.topics_.CreatesBelow c.full_name

/-! ## The ids in the table -/

/-- What such calls keep: no entry has the id of registry changes. -/
structure TopicsInfo.IdsBelow (t : TopicsInfo) : Prop where
  bounded : t.Bounded
  id_lt : ∀ j, (t.topics j).event_id_.toInt < (MAX_TOPICS_PER_NODE - 1 : Nat)

theorem TopicsInfo.zero_idsBelow : TopicsInfo.zero.IdsBelow :=
  ⟨TopicsInfo.zero_bounded, fun _ => show (0 : Int32).toInt < (MAX_TOPICS_PER_NODE - 1 : Nat) by decide⟩

theorem TopicsInfo.put_id_lt {t : TopicsInfo} {k : Int} (h : ∀ j, (t.topics j).event_id_.toInt < k) (i : Nat)
    {x : TopicInfo} (hx : x.event_id_.toInt < k) : ∀ j, ((t.put i x).topics j).event_id_.toInt < k := by
  intro j
  by_cases hj : j = i
  · rw [hj, TopicsInfo.put_self]
    exact hx
  · rw [TopicsInfo.put_of_ne t x hj]
    exact h j

theorem FindOrCreated.idsBelow {t t' : TopicsInfo} {full_name : List UInt8} {id : Int32} (h : t.IdsBelow)
    (hfc : FindOrCreated t full_name id t') (hg : t.CreatesBelow full_name) :
    t'.IdsBelow ∧ id.toInt < (MAX_TOPICS_PER_NODE - 1 : Nat) := by
  have hb := (hfc.spec h.bounded).1
  cases hfc with
  | found hi => exact ⟨h, h.id_lt _⟩
  | full _ _ => exact ⟨h, by decide⟩
  | @created i name ha hlt hi _ =>
    have hcast := h.bounded.count_cast
    have hsucc : (t.topics_count + 1).toInt = t.topics_count.toInt + 1 := TopicsInfo.toInt_count_succ (by omega)
    obtain ⟨hslot, hmax⟩ := arraySlot_eq_ok hi
    have hid : (t.topics_count + 1).toInt < (MAX_TOPICS_PER_NODE - 1 : Nat) := by
      rcases hg with ⟨j, hj⟩ | hg
      · exact absurd hj (not_first_of_absent ha j)
      · omega
    exact ⟨⟨hb, TopicsInfo.put_id_lt h.id_lt i hid⟩, hid⟩

/-- **One call.** -/
theorem TopicCall.Effect.idsBelow {t t' : TopicsInfo} {c : TopicCall} (h : t.IdsBelow) (he : c.Effect t t')
    (hg : t.CreatesBelow c.full_name) : t'.IdsBelow := by
  have hb := (he.spec h.bounded).1
  cases c with
  | register topic event | addSub topic event =>
    obtain ⟨id, hfc⟩ := he
    exact (hfc.idsBelow h hg).1
  | addPub topic event =>
    obtain ⟨id, t₁, i, name, hfc, -, -, rfl⟩ := he
    obtain ⟨h₁, hid⟩ := hfc.idsBelow h hg
    exact ⟨hb, TopicsInfo.put_id_lt h₁.id_lt i hid⟩

section Runs

variable [DoubleText D]

/-- **An id that is returned can be signalled exactly when its topic is not created at the end of the table**, behind
any calls of which none creates one there. -/
theorem signals_iff_of_run {s₀ s s' : Registry D} {cs : List TopicCall} {topic event : List UInt8} {id : Int32}
    (h₀ : s₀.mgr.topics_ = TopicsInfo.zero) (hrun : Trans.Run TopicCall.Step CreatesBelow s₀ cs s)
    (hreg : registerTopicEvent topic event s = .ok id s') (hid : 0 ≤ id.toInt) :
    Signals id ↔ CreatesBelow s (.register topic event) := by
  have h : s.mgr.topics_.IdsBelow := hrun.invariant (P := fun s => s.mgr.topics_.IdsBelow)
    (h₀ ▸ TopicsInfo.zero_idsBelow) (fun _ _ _ h hg hstep => hstep.effect.1.idsBelow h hg)
  obtain ⟨hfc, -⟩ := registerTopicEvent_ok hreg hid
  constructor
  · intro hs
    by_contra hg
    obtain ⟨hno, hend⟩ := not_or.1 hg
    generalize s'.mgr.topics_ = t' at hfc
    cases hfc with
    | found hi => exact hno ⟨_, hi⟩
    | full => exact absurd hid (by decide)
    | created _ hlt hi _ =>
      have hcast := h.bounded.count_cast
      have hsucc : (s.mgr.topics_.topics_count + 1).toInt = s.mgr.topics_.topics_count.toInt + 1 :=
        TopicsInfo.toInt_count_succ (by omega)
      obtain ⟨hslot, hmax⟩ := arraySlot_eq_ok hi
      have hown := hs.own
      omega
  · intro hg
    have hlt := (hfc.idsBelow h hg).2
    have hmax : EVENT_MAX_COUNT = MAX_TOPICS_PER_NODE := rfl
    exact ⟨by omega, by omega⟩

end Runs

/-- A topic is published and another subscribed to, and a third is registered. -/
theorem signals_of_first : ∃ s s' : Registry (List UInt8), Trans.Run TopicCall.Step CreatesBelow (Registry.fresh 0)
    [.addPub (utf8 "t") (utf8 "e"), .addSub (utf8 "u") (utf8 "e")] s ∧
    registerTopicEvent (utf8 "v") (utf8 "e") s = .ok 4 s' ∧ Signals 4 := by
  have hpub : TopicCall.Step (Registry.fresh 0 : Registry (List UInt8)) (.addPub (utf8 "t") (utf8 "e")) _ :=
    ⟨not_undefined_of_answer (a := ()) (by decide +kernel), rfl⟩
  have hrun : Trans.Run TopicCall.Step CreatesBelow _ _ _ := .single (Or.inr (by decide +kernel)) hpub
  have hsub := hrun.snoc (a := TopicCall.addSub (utf8 "u") (utf8 "e")) (.inr (by decide +kernel))
    ⟨not_undefined_of_answer (a := ()) (by decide +kernel), rfl⟩
  have hans : answer (registerTopicEvent (utf8 "v") (utf8 "e")
      (finalState (TopicCall.run (.addSub (utf8 "u") (utf8 "e")) (finalState (TopicCall.run
        (.addPub (utf8 "t") (utf8 "e")) (Registry.fresh 0 : Registry (List UInt8))))))) = some 4 := by
    decide +kernel
  have hreg := eq_ok_of_answer hans
  exact ⟨_, _, hsub, hreg, (signals_iff_of_run rfl hsub hreg (by decide)).2 (.inr (by decide +kernel))⟩

/-! ## One topic that fills the table -/

/-- The name of the topic that is published. -/
def filler : CName := ⟨utf8 "t_e", by decide +kernel, by decide +kernel⟩

/-- The topic was published until the table had `m` entries. -/
structure Published (m : Nat) (s : Registry (List UInt8)) : Prop where
  ready : Ready s
  size : s.shm.size = sizeofShmHead + MAX_SHM_MANGER_SIZE
  visible : s.mgr.topics_.Visible (fullName (utf8 "t") (utf8 "e"))
  count : s.mgr.topics_.count = m
  entries : ∀ j, s.mgr.topics_.topics j = TopicInfo.zero ∨ s.mgr.topics_.topics j = ⟨filler, 1⟩

theorem strcpy_filler : strcpy (fullName (utf8 "t") (utf8 "e")) = .ok filler := by rfl

theorem entries_put {t : TopicsInfo} {x : TopicInfo} (h : ∀ j, t.topics j = TopicInfo.zero ∨ t.topics j = x) (i : Nat) :
    ∀ j, (t.put i x).topics j = TopicInfo.zero ∨ (t.put i x).topics j = x := by
  intro j
  by_cases hj : j = i
  · rw [hj, TopicsInfo.put_self]
    exact .inr rfl
  · rw [TopicsInfo.put_of_ne t x hj]
    exact h j

/-- Once more. -/
theorem Published.again {m : Nat} {s : Registry (List UInt8)} (h : Published m s) (hm : m < MAX_TOPICS_PER_NODE) :
    ∃ s', TopicCall.Step s (.addPub (utf8 "t") (utf8 "e")) s' ∧ Published (m + 1) s' := by
  obtain ⟨i, hi⟩ := h.visible
  have hroom : s.mgr.topics_.HasRoom (.addPub (utf8 "t") (utf8 "e")) := .inr ⟨h.visible, by rw [h.count]; exact hm⟩
  have hstep : TopicCall.Step s (.addPub (utf8 "t") (utf8 "e")) _ :=
    ⟨h.ready.not_undefined ⟨_, strcpy_filler⟩ hroom, rfl⟩
  refine ⟨_, hstep, h.ready.step hstep, hstep.effect.2.trans h.size, ?_, ?_, ?_⟩
  · exact ⟨i, ((hstep.effect.1.spec h.ready.table).2.first hi).1⟩
  · obtain ⟨id, t, j, name, hfc, -, -, htable⟩ := hstep.effect.1
    obtain ⟨-, rfl⟩ := hfc.of_first hi
    rw [htable, (TopicsInfo.put_count h.ready.table _ _).2, h.count]
  · obtain ⟨id, t, j, name, hfc, hname, -, htable⟩ := hstep.effect.1
    obtain ⟨rfl, rfl⟩ := hfc.of_first hi
    rw [strcpy_filler] at hname
    cases hname
    have hid : (s.mgr.topics_.topics i).event_id_ = 1 := by
      rcases h.entries i with hzero | hfill
      · have hfound := hi.2.2.1
        rw [hzero] at hfound
        cases hfound
      · rw [hfill]
    rw [htable, hid]
    exact entries_put h.entries j

/-- The first time. -/
theorem published_once : ∃ s, TopicCall.Step (Registry.fresh 0 : Registry (List UInt8))
    (.addPub (utf8 "t") (utf8 "e")) s ∧ Published 2 s := by
  have hready : Ready (Registry.fresh 0 : Registry (List UInt8)) :=
    ⟨TopicsInfo.zero_bounded, by decide, ⟨0, by decide⟩⟩
  have hroom : (Registry.fresh 0 : Registry (List UInt8)).mgr.topics_.HasRoom (.addPub (utf8 "t") (utf8 "e")) :=
    .inl (by decide)
  have hstep : TopicCall.Step (Registry.fresh 0 : Registry (List UInt8)) (.addPub (utf8 "t") (utf8 "e")) _ :=
    ⟨hready.not_undefined ⟨_, strcpy_filler⟩ hroom, rfl⟩
  have hfound : answer (isTopicExist (utf8 "t") (utf8 "e") (finalState (TopicCall.run
    (.addPub (utf8 "t") (utf8 "e")) (Registry.fresh 0 : Registry (List UInt8))))) = some true := by decide +kernel
  refine ⟨_, hstep, hready.step hstep, hstep.effect.2, first_of_isTopicExist (eq_ok_of_answer hfound),
    by decide +kernel, ?_⟩
  obtain ⟨id, t, j, name, hfc, hname, -, htable⟩ := hstep.effect.1
  rw [strcpy_filler] at hname
  cases hname
  rw [htable]
  cases hfc with
  | found hi => exact absurd hi.1 (Nat.not_lt_zero _)
  | full _ hmax => exact absurd hmax (by decide)
  | created _ _ _ hname =>
    rw [strcpy_filler] at hname
    cases hname
    exact entries_put (entries_put (fun _ => .inl rfl) _) _

theorem published_run : ∀ k, k + 2 ≤ MAX_TOPICS_PER_NODE → ∃ s,
    Trans.Run TopicCall.Step Trans.free (Registry.fresh 0 : Registry (List UInt8))
      (List.replicate (k + 1) (.addPub (utf8 "t") (utf8 "e"))) s ∧ Published (k + 2) s
  | 0, _ => by
    obtain ⟨s, hstep, hs⟩ := published_once
    exact ⟨s, .single trivial hstep, hs⟩
  | k + 1, hk => by
    obtain ⟨s, hrun, hs⟩ := published_run k (by omega)
    obtain ⟨s', hstep, hs'⟩ := hs.again (by omega)
    rw [List.replicate_succ']
    exact ⟨s', hrun.snoc trivial hstep, hs'⟩

theorem Published.not_first_other {m : Nat} {s : Registry (List UInt8)} (h : Published m s) (i : Nat) :
    ¬ s.mgr.topics_.First (fullName (utf8 "u") (utf8 "e")) i := by
  intro hi
  have hfound := hi.2.2.1
  rcases h.entries i with hzero | hfill
  · rw [hzero] at hfound
    cases hfound
  · rw [hfill] at hfound
    exact absurd hfound (by decide +kernel)

/-- A table of names of three bytes fits into its section. -/
theorem length_topicsText_lt_of_short {t : TopicsInfo} (hv : t.Valid)
    (h : ∀ j, 0 ≤ (t.topics j).event_id_.toInt ∧ escapedSize (t.topics j).name_.bytes ≤ 3) :
    (topicsText (List UInt8) t).length < TOPIC_INFO_SIZE := by
  have hcount := hv.2
  have hsum := TopicsInfo.sum_textSize_le fun j (_ : j < t.count) => (h j).2
  have hnumeral := numeralSize_le t.topics_count
  rw [length_topicsText_eq ⟨hv, fun j _ => (h j).1⟩]
  unfold TopicsInfo.textSize TOPIC_INFO_SIZE
  unfold MAX_TOPICS_PER_NODE at hcount
  omega

/-- Another topic, when two entries are left. -/
theorem Published.register_last {s : Registry (List UInt8)} (h : Published 1022 s) :
    ∃ s', registerTopicEvent (utf8 "u") (utf8 "e") s = .ok 1023 s' := by
  have hb := h.ready.table
  have hcast := hb.count_cast
  have hcount := h.count
  have hname : strcpy (fullName (utf8 "u") (utf8 "e")) =
      .ok ⟨utf8 "u_e", by decide +kernel, by decide +kernel⟩ := by rfl
  obtain ⟨id, t, hfc, hok⟩ := findOrCreate_of_room hb ⟨_, hname⟩ (.inr (by rw [hcount]; decide))
  have ht := (hfc.spec hb).1
  cases hfc with
  | found hi => exact absurd hi (h.not_first_other _)
  | full _ hmax => exact absurd hmax (by unfold MAX_TOPICS_PER_NODE; omega)
  | @created i name _ _ hi hname' =>
    rw [hname] at hname'
    cases hname'
    have hid : s.mgr.topics_.topics_count + 1 = 1023 := by
      have hsucc : (s.mgr.topics_.topics_count + 1).toInt = s.mgr.topics_.topics_count.toInt + 1 :=
        TopicsInfo.toInt_count_succ hb.le
      have hlast : (1023 : Int32).toInt = 1023 := rfl
      apply Int32.toInt_inj.1
      omega
    rw [hid] at hok ht
    generalize hx : (⟨⟨utf8 "u_e", by decide +kernel, by decide +kernel⟩, 1023⟩ : TopicInfo) = x at hok ht
    have hentries : ∀ j, 0 ≤ ((s.mgr.topics_.put i x).topics j).event_id_.toInt ∧
        escapedSize ((s.mgr.topics_.put i x).topics j).name_.bytes ≤ 3 := by
      intro j
      by_cases hj : j = i
      · rw [hj, TopicsInfo.put_self, ← hx]
        exact ⟨by decide, by decide +kernel⟩
      · rw [TopicsInfo.put_of_ne _ x hj]
        rcases h.entries j with hzero | hfill
        · rw [hzero]
          exact ⟨by decide, by decide +kernel⟩
        · rw [hfill]
          exact ⟨by decide, by decide +kernel⟩
    generalize s.mgr.topics_.put i x = t at hok ht hentries
    have hsize : TOPIC_INFO_SIZE ≤ (s.mapTopics (fun _ => t)).shm.size := by
      show TOPIC_INFO_SIZE ≤ s.shm.size
      rw [h.size]
      decide
    have hwrite := writeTopicsInfo_of_fits (s := s.mapTopics (fun _ => t)) hsize ht.valid
      (length_topicsText_lt_of_short ht.valid hentries)
    unfold registerTopicEvent
    rw [Op.bind_ok hok, if_pos (by decide), Op.bind_ok hwrite]
    exact ⟨_, rfl⟩

/-- One topic published 1021 times, and another registered: its id is the bit of registry changes. -/
theorem signals_not_always : ¬ ∀ (s₀ s s' : Registry (List UInt8)) (cs : List TopicCall) (topic event : List UInt8)
    (id : Int32), s₀.mgr.topics_ = TopicsInfo.zero → Trans.Run TopicCall.Step Trans.free s₀ cs s →
    registerTopicEvent topic event s = .ok id s' → 0 ≤ id.toInt → Signals id := by
  intro h
  obtain ⟨s, hrun, hs⟩ := published_run 1020 (by decide)
  obtain ⟨s', hreg⟩ := hs.register_last
  exact (h _ _ _ _ _ _ _ rfl hrun hreg (by decide)).own (by decide)

end MiniRos2

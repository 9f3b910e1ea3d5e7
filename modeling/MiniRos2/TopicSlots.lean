import MiniRos2.TopicTable
/-!
# TopicSlots — the slots behind the scanned entries

A new topic is written one slot behind the scanned entries, so the first slot behind them may hold an entry that no
lookup sees; the next call either makes it visible or, in `addPubTopic`, overwrites it.  Nothing is ever behind that
slot, and no id, visible or not, is above the count (`TopicsInfo.Coherent`); so a new id is the id of no entry, and an
id stays with one name.
-/
namespace MiniRos2

variable {D : Type}

theorem TopicsInfo.put_self (t : TopicsInfo) (i : Nat) (x : TopicInfo) : (t.put i x).topics i = x :=
  Function.update_self _ _ _

theorem TopicsInfo.put_of_ne (t : TopicsInfo) {i j : Nat} (x : TopicInfo) (h : j ≠ i) :
    (t.put i x).topics j = t.topics j := Function.update_of_ne h _ _

theorem strcpy_eq_ok {s : List UInt8} {name : CName} (h : strcpy s = .ok name) : name.bytes = ByteMem.cstr s := by
  unfold strcpy at h
  split at h
  · cases h
    rfl
  · cases h

theorem CName.cstr_bytes (name : CName) : ByteMem.cstr name.bytes = name.bytes :=
  ByteMem.cstr_eq_self _ name.noNul

/-- **The visible and the hidden slots**: only the first hidden one may be written, every id is at most the count, and
an id belongs to one name, id 0 to entries without a name. -/
structure TopicsInfo.Coherent (t : TopicsInfo) : Prop where
  bounded : t.Bounded
  blank : ∀ j, t.count < j → t.topics j = TopicInfo.zero
  id_mem : ∀ j, 0 ≤ (t.topics j).event_id_.toInt ∧ (t.topics j).event_id_.toInt ≤ t.topics_count.toInt
  unnamed : ∀ j, (t.topics j).event_id_ = 0 → (t.topics j).name_.bytes = []
  sameName : ∀ i j, (t.topics i).event_id_ = (t.topics j).event_id_ →
    (t.topics i).name_.bytes = (t.topics j).name_.bytes

theorem TopicsInfo.zero_coherent : TopicsInfo.zero.Coherent where
  bounded := TopicsInfo.zero_bounded
  blank _ _ := rfl
  id_mem _ := ⟨Int.le_refl 0, Int.le_refl 0⟩
  unnamed _ _ := rfl
  sameName _ _ _ := rfl

/-- **A new topic**: its id is above every other. -/
theorem TopicsInfo.Coherent.put_new {t : TopicsInfo} (h : t.Coherent) (hlt : t.topics_count.toInt < MAX_TOPICS_PER_NODE)
    (name : CName) : (t.put (t.count + 1) ⟨name, t.topics_count + 1⟩).Coherent := by
  have hcast := h.bounded.count_cast
  have hsucc : (t.topics_count + 1).toInt = t.topics_count.toInt + 1 := TopicsInfo.toInt_count_succ (by omega)
  obtain ⟨hc, hn⟩ := TopicsInfo.put_count h.bounded (t.count + 1) ⟨name, t.topics_count + 1⟩
  have hnn := h.bounded.nonneg
  have hold : ∀ j, j ≠ t.count + 1 → (t.put (t.count + 1) ⟨name, t.topics_count + 1⟩).topics j = t.topics j :=
    fun j hj => TopicsInfo.put_of_ne t _ hj
  have hfresh : ∀ j, (t.topics j).event_id_ ≠ t.topics_count + 1 := by
    intro j heq
    have hle := (h.id_mem j).2
    rw [heq] at hle
    omega
  constructor
  · exact (TopicsInfo.put_spec h.bounded (by omega) hlt (by simp only; omega)).1
  · intro j hj
    rw [hold j (by omega)]
    exact h.blank j (by omega)
  · intro j
    by_cases hj : j = t.count + 1
    · rw [hj, TopicsInfo.put_self]
      simp only
      omega
    · rw [hold j hj]
      have hmem := h.id_mem j
      omega
  · intro j hz
    by_cases hj : j = t.count + 1
    · rw [hj, TopicsInfo.put_self] at hz
      have hint : (t.topics_count + 1).toInt = 0 := congrArg Int32.toInt hz
      omega
    · rw [hold j hj] at hz ⊢
      exact h.unnamed j hz
  · intro i j heq
    by_cases hi : i = t.count + 1
    · by_cases hj : j = t.count + 1
      · rw [hi, hj]
      · rw [hi, TopicsInfo.put_self, hold j hj] at heq
        exact absurd heq.symm (hfresh j)
    · by_cases hj : j = t.count + 1
      · rw [hj, TopicsInfo.put_self, hold i hi] at heq
        exact absurd heq (hfresh i)
      · rw [hold i hi, hold j hj] at heq ⊢
        exact h.sameName i j heq

/-- **A copy of an entry** that is there, in the first slot behind the scanned ones. -/
theorem TopicsInfo.Coherent.put_copy {t : TopicsInfo} (h : t.Coherent)
    (hlt : t.topics_count.toInt < MAX_TOPICS_PER_NODE) {i : Nat} {name : CName}
    (hi : (t.topics i).event_id_.toInt ≤ t.count) (hname : name.bytes = (t.topics i).name_.bytes) :
    (t.put t.count ⟨name, (t.topics i).event_id_⟩).Coherent := by
  obtain ⟨hc, hn⟩ := TopicsInfo.put_count h.bounded t.count ⟨name, (t.topics i).event_id_⟩
  -- every entry has the id and the name of an entry of `t`
  have hold : ∀ j, ∃ l, ((t.put t.count ⟨name, (t.topics i).event_id_⟩).topics j).event_id_ = (t.topics l).event_id_ ∧
      ((t.put t.count ⟨name, (t.topics i).event_id_⟩).topics j).name_.bytes = (t.topics l).name_.bytes := by
    intro j
    by_cases hj : j = t.count
    · rw [hj, TopicsInfo.put_self]
      exact ⟨i, rfl, hname⟩
    · rw [TopicsInfo.put_of_ne t _ hj]
      exact ⟨j, rfl, rfl⟩
  constructor
  · exact (TopicsInfo.put_spec (x := ⟨name, (t.topics i).event_id_⟩) h.bounded (Nat.le_refl _) hlt hi).1
  · intro j hj
    rw [TopicsInfo.put_of_ne t _ (by omega)]
    exact h.blank j (by omega)
  · intro j
    obtain ⟨l, hid, -⟩ := hold j
    have hmem := h.id_mem l
    rw [hid]
    omega
  · intro j hz
    obtain ⟨l, hid, hbytes⟩ := hold j
    rw [hbytes]
    exact h.unnamed l (hid ▸ hz)
  · intro j k heq
    obtain ⟨l, hid, hbytes⟩ := hold j
    obtain ⟨m, hid', hbytes'⟩ := hold k
    rw [hbytes, hbytes']
    exact h.sameName l m (by rw [← hid, ← hid', heq])

/-- **What `findOrCreateTopicEvent_` leaves is coherent**, and the id it returns is the id of an entry with the name, or
-1 when the table is full. -/
theorem FindOrCreated.coherent {t t' : TopicsInfo} {full_name : List UInt8} {id : Int32} (h : t.Coherent)
    (hfc : FindOrCreated t full_name id t') : t'.Coherent ∧
      ((id = -1 ∧ t' = t ∧ (MAX_TOPICS_PER_NODE : Int) ≤ t.topics_count.toInt) ∨
        ∃ i, (t'.topics i).event_id_ = id ∧
          ∀ name, strcpy full_name = .ok name → name.bytes = (t'.topics i).name_.bytes) := by
  cases hfc with
  | @found i hi =>
    refine ⟨h, .inr ⟨i, rfl, fun name hname => ?_⟩⟩
    rw [strcpy_eq_ok hname, ← hi.2.2.1, CName.cstr_bytes]
  | full _ hmax => exact ⟨h, .inl ⟨rfl, rfl, hmax⟩⟩
  | @created i name _ hlt hi hname =>
    have hcast := h.bounded.count_cast
    have hsucc : (t.topics_count + 1).toInt = t.topics_count.toInt + 1 := TopicsInfo.toInt_count_succ (by omega)
    have hislot := (arraySlot_eq_ok hi).1
    obtain rfl : i = t.count + 1 := by omega
    refine ⟨h.put_new hlt name, .inr ⟨t.count + 1, ?_, fun name' hname' => ?_⟩⟩
    · rw [TopicsInfo.put_self]
    · rw [TopicsInfo.put_self]
      rw [hname] at hname'
      cases hname'
      rfl

/-- **One call keeps the table coherent.** -/
theorem TopicCall.Effect.coherent {t t' : TopicsInfo} {c : TopicCall} (h : t.Coherent) (he : c.Effect t t') :
    t'.Coherent := by
  cases c with
  | register topic event =>
    obtain ⟨id, hfc⟩ := he
    exact (hfc.coherent h).1
  | addSub topic event =>
    obtain ⟨id, hfc⟩ := he
    exact (hfc.coherent h).1
  | addPub topic event =>
    obtain ⟨id, t₁, j, name, hfc, hname, hj, rfl⟩ := he
    obtain ⟨hslot, hlt⟩ := arraySlot_eq_ok hj
    obtain ⟨h₁, ⟨-, rfl, hmax⟩ | ⟨i, rfl, hbytes⟩⟩ := hfc.coherent h
    · omega
    · have hcast := h₁.bounded.count_cast
      obtain rfl : j = t₁.count := by omega
      exact h₁.put_copy (by omega) (by have hmem := h₁.id_mem i; omega) (hbytes name hname)

/-! ## Names without a backspace -/

/-- No slot, visible or hidden, has a name with a backspace. -/
def TopicsInfo.Plain (t : TopicsInfo) : Prop := ∀ j, 8 ∉ (t.topics j).name_.bytes

theorem TopicsInfo.Plain.legible {t : TopicsInfo} (h : t.Plain) : t.Legible := fun j _ => h j

theorem TopicsInfo.zero_plain : TopicsInfo.zero.Plain := fun _ => List.not_mem_nil

theorem TopicsInfo.Plain.put {t : TopicsInfo} (h : t.Plain) (i : Nat) {x : TopicInfo} (hx : 8 ∉ x.name_.bytes) :
    (t.put i x).Plain :=
  (Function.forall_update_iff t.topics (p := fun _ y => 8 ∉ y.name_.bytes)).2 ⟨hx, fun j _ => h j⟩

theorem not_mem_strcpy {s : List UInt8} {name : CName} (h : strcpy s = .ok name) {b : UInt8} (hb : b ∉ s) :
    b ∉ name.bytes := by
  rw [strcpy_eq_ok h]
  exact fun hmem => hb (List.takeWhile_subset _ hmem)

theorem FindOrCreated.plain {t t' : TopicsInfo} {full_name : List UInt8} {id : Int32} (h : t.Plain)
    (hfc : FindOrCreated t full_name id t') (h8 : 8 ∉ full_name) : t'.Plain := by
  cases hfc with
  | found => exact h
  | full => exact h
  | created _ _ _ hname => exact h.put _ (not_mem_strcpy hname h8)

/-- **A call with a name without a backspace** enters no other name. -/
theorem TopicCall.Effect.plain {t t' : TopicsInfo} {c : TopicCall} (h : t.Plain) (he : c.Effect t t')
    (h8 : 8 ∉ c.full_name) : t'.Plain := by
  cases c with
  | register topic event =>
    obtain ⟨id, hfc⟩ := he
    exact hfc.plain h h8
  | addSub topic event =>
    obtain ⟨id, hfc⟩ := he
    exact hfc.plain h h8
  | addPub topic event =>
    obtain ⟨id, t₁, j, name, hfc, hname, -, rfl⟩ := he
    exact (hfc.plain h h8).put j (not_mem_strcpy hname h8)

section Runs

variable [DoubleText D]

theorem coherent_of_run {s t : Registry D} {cs : List TopicCall} (hs : s.mgr.topics_.Coherent)
    (h : Trans.Run TopicCall.Step Trans.free s cs t) : t.mgr.topics_.Coherent :=
  h.invariant (P := fun t => t.mgr.topics_.Coherent) hs fun _ _ _ ht _ hstep => hstep.effect.1.coherent ht

/-- **The visible table is append-only and an id names one topic**: `t` is a later state than `s`. -/
structure AppendOnly (s t : Registry D) : Prop where
  kept : ∀ j, j < s.mgr.topics_.count → j < t.mgr.topics_.count ∧ t.mgr.topics_.topics j = s.mgr.topics_.topics j
  found : ∀ topic event, isTopicExist topic event s = .ok true s → isTopicExist topic event t = .ok true t ∧
    ∃ id, getTopicEventId_ topic event s = .ok id s ∧ getTopicEventId_ topic event t = .ok id t
  oneName : ∀ i j, i < t.mgr.topics_.count → j < t.mgr.topics_.count →
    (t.mgr.topics_.topics i).event_id_ = (t.mgr.topics_.topics j).event_id_ →
    (t.mgr.topics_.topics i).name_ = (t.mgr.topics_.topics j).name_
  id_le : ∀ j, (t.mgr.topics_.topics j).event_id_.toInt ≤ t.mgr.topics_.topics_count.toInt

/-- **Two states of a run**, from an empty topic table through any calls of which none is undefined. -/
theorem appendOnly_of_run {s₀ s t : Registry D} {cs ds : List TopicCall} (h₀ : s₀.mgr.topics_ = TopicsInfo.zero)
    (hs : Trans.Run TopicCall.Step Trans.free s₀ cs s) (ht : Trans.Run TopicCall.Step Trans.free s ds t) :
    AppendOnly s t := by
  have hcs : s.mgr.topics_.Coherent := coherent_of_run (h₀ ▸ TopicsInfo.zero_coherent) hs
  have hct := coherent_of_run hcs ht
  obtain ⟨-, hext⟩ := bounded_of_run hcs.bounded ht
  constructor
  · exact fun j hj => ⟨Nat.lt_of_lt_of_le hj hext.1, hext.2 j hj⟩
  · intro topic event hex
    obtain ⟨i, hi⟩ := first_of_isTopicExist hex
    obtain ⟨hit, hid⟩ := hext.first hi
    exact ⟨isTopicExist_of_first hit, _, getTopicEventId_of_first hi, hid ▸ getTopicEventId_of_first hit⟩
  · exact fun i j _ _ heq => CName.ext (hct.sameName i j heq)
  · exact fun j => (hct.id_mem j).2

/-- A topic is published, and then subscribed to. -/
theorem appendOnly_of_pub :
    let s : Registry (List UInt8) := finalState (addPubTopic (utf8 "t") (utf8 "e") (Registry.fresh 0))
    isTopicExist (utf8 "t") (utf8 "e") s = .ok true s ∧
      AppendOnly s (finalState (addSubTopic (utf8 "t") (utf8 "e") s)) := by
  intro s
  have hpub : Trans.Run TopicCall.Step Trans.free (Registry.fresh 0) [.addPub (utf8 "t") (utf8 "e")] s :=
    .single trivial ⟨not_undefined_of_answer (a := ()) (by decide +kernel), rfl⟩
  have hsub : Trans.Run TopicCall.Step Trans.free s [.addSub (utf8 "t") (utf8 "e")] _ :=
    .single trivial ⟨not_undefined_of_answer (a := ()) (by decide +kernel), rfl⟩
  have hfound : answer (isTopicExist (utf8 "t") (utf8 "e") s) = some true := by decide +kernel
  obtain ⟨i, hi⟩ := first_of_isTopicExist (eq_ok_of_answer hfound)
  exact ⟨isTopicExist_of_first hi, appendOnly_of_run rfl hpub hsub⟩

end Runs

end MiniRos2

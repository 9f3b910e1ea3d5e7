import MiniRos2.Delivery
import MiniRos2.ShmBytes
/-!
# TornRead — what a subscriber reads while a publisher writes

`getMessage` reads the data area without the lock that `Write` takes.  So a subscriber that reads while a message is
written over another may get any mixture of the two, byte by byte, and nothing else (`canRead_iff`); if a mixture is the
text of a value, that value is handed to the callback, though nobody published it (`handed_iff`).
-/
namespace MiniRos2
namespace TornRead

open Monitor ByteMem ShmBytes

/-- Each byte is the one text's or the other's. -/
def Mixture (m m' r : List UInt8) : Prop := r.length = m'.length ∧ ∀ i : Nat, r[i]? = m[i]? ∨ r[i]? = m'[i]?

variable (strerror : Nat → List UInt8) {κ : Type} [DecidableEq κ]

/-- **A read that may be**: in some run in which `m'` is what is written, and into nothing but the start of the area. -/
def CanRead (m₀ : Mem) (m' : List UInt8) (subscriber : κ) (r : List UInt8) : Prop :=
  ∃ (as : List (Act κ Point)) (t : State κ Point Area) (n : Nat),
    Trans.Run (Steps strerror) Trans.free (init m₀) as t ∧ (∀ w ∈ t.shared.writes, w = (0, m')) ∧
      t.point subscriber = .done (.readUnlocked n 0 r) ∧ r.length = m'.length

/-! ## What was read is a mixture -/

theorem after_same (m₀ : Mem) {m' : List UInt8} : ∀ ws : List (Nat × List UInt8), (∀ w ∈ ws, w = (0, m')) →
    ∀ (i : Nat) (hi : i < m'.length), after m₀ ws i = m₀ i ∨ after m₀ ws i = m'[i] := by
  intro ws
  induction ws using List.reverseRecOn with
  | nil => exact fun _ i _ => .inl rfl
  | append_singleton ws w ih =>
    intro hws i hi
    obtain rfl := hws w (List.mem_append_right _ (List.mem_singleton_self w))
    rw [after_snoc]
    exact .inr (ByteMem.write_of_mem _ _ _ _ (Nat.zero_le _) hi)

theorem mixture_of_canRead {m₀ : Mem} {m' r : List UInt8} {subscriber : κ}
    (h : CanRead strerror m₀ m' subscriber r) : Mixture (ByteMem.read m₀ 0 m'.length) m' r := by
  obtain ⟨as, t, n, hrun, hws, hk, hlen⟩ := h
  refine ⟨hlen, fun i => ?_⟩
  by_cases hi : i < m'.length
  · have hir : i < r.length := by omega
    have hget : r[i]? = some r[i] := List.getElem?_eq_getElem hir
    have hread : Result.Holds m₀ t.shared.writes (.readUnlocked n 0 r) :=
      (reads_of_run strerror hrun).reads subscriber _ hk
    obtain ⟨j, -, -, hbyte⟩ := hread i _ hget
    rw [hget, getElem?_read _ _ _ _ hi, List.getElem?_eq_getElem hi, hbyte, Nat.zero_add]
    have hsame := after_same m₀ (t.shared.writes.take j) (fun w hw => hws w (List.mem_of_mem_take hw)) i hi
    exact hsame.imp (congrArg some) (congrArg some)
  · refine .inr ?_
    rw [List.getElem?_eq_none (by omega), List.getElem?_eq_none (by omega)]

/-! ## Every mixture is read -/

variable {m₀ : Mem} {m' r : List UInt8} {publisher subscriber : κ} {s : State κ Point Area}
  {as : List (Act κ Point)}

/-- Both copy, and have the same bytes to go. -/
structure Copying (s : State κ Point Area) (m' : List UInt8) (publisher subscriber : κ) (order : List Nat)
    (buffer : Mem) : Prop where
  running : ∀ k, s.phase k = .running
  writes : ∀ w ∈ s.shared.writes, w = (0, m')
  storing : s.point publisher = .storing m' 0 0 order
  loading : ∃ n, s.point subscriber = .loading false m'.length 0 n order buffer

/-- A thread does what is at its point, when that is an access. -/
theorem run_access {k : κ} {f : Area → Area × Point}
    (h : Trans.Run (Steps strerror) Trans.free (init m₀) as s) (hr : s.phase k = .running)
    (hi : instr strerror (s.point k) = .access f) : Trans.Run (Steps strerror) Trans.free (init m₀)
      (as ++ [.step k 0]) { s.goto k (f s.shared).2 with shared := (f s.shared).1 } :=
  h.snoc trivial (.access ⟨hr, hi⟩)

/-- **Both copy a byte, and the subscriber's is the one it should be**: it goes first, or second. -/
theorem run_byte {i : Nat} {order : List Nat} {buffer : Mem} {b : UInt8}
    (h : Trans.Run (Steps strerror) Trans.free (init m₀) as s)
    (hc : Copying s m' publisher subscriber (i :: order) buffer) (hne : publisher ≠ subscriber) (hi : i < m'.length)
    (hb : b = s.shared.data i ∨ b = m'[i]) :
    ∃ as' t, Trans.Run (Steps strerror) Trans.free (init m₀) as' t ∧
      Copying t m' publisher subscriber order (Function.update buffer i b) ∧
      ∀ j, j ≠ i → t.shared.data j = s.shared.data j := by
  obtain ⟨hrun, hws, hpub, n, hsub⟩ := hc
  have hget : (m'[i]?).getD 0 = m'[i] := by rw [List.getElem?_eq_getElem hi]; rfl
  rcases hb with rfl | rfl
  · have h₁ := run_access strerror h (hrun subscriber)
      (f := loadByte false m'.length 0 n (i :: order) buffer) (by rw [hsub]; rfl)
    have h₂ := run_access strerror h₁ (k := publisher) (hrun publisher) (f := storeByte m' 0 0 (i :: order)) (by
      show instr strerror ((s.goto subscriber _).point publisher) = _
      rw [State.goto_of_ne _ _ hne, hpub]
      rfl)
    refine ⟨_, _, h₂, ⟨hrun, hws, Function.update_self .., n, ?_⟩, fun j hj => ?_⟩
    · show (State.goto _ publisher _).point subscriber = _
      rw [State.goto_of_ne _ _ hne.symm]
      show (s.goto subscriber _).point subscriber = _
      rw [State.goto_self, loadByte, Nat.zero_add]
    · exact Function.update_of_ne (by omega) _ _
  · have h₁ := run_access strerror h (hrun publisher) (f := storeByte m' 0 0 (i :: order)) (by rw [hpub]; rfl)
    have h₂ := run_access strerror h₁ (k := subscriber) (hrun subscriber)
      (f := loadByte false m'.length 0 n (i :: order) buffer) (by
        show instr strerror ((s.goto publisher _).point subscriber) = _
        rw [State.goto_of_ne _ _ hne.symm, hsub]
        rfl)
    refine ⟨_, _, h₂, ⟨hrun, hws, ?_, n, ?_⟩, fun j hj => ?_⟩
    · show (State.goto _ subscriber _).point publisher = _
      rw [State.goto_of_ne _ _ hne]
      exact Function.update_self ..
    · show (State.goto _ subscriber _).point subscriber = _
      rw [State.goto_self, loadByte]
      show Point.loading _ _ _ _ _ (Function.update buffer i
        (Function.update s.shared.data (0 + i) ((m'[i]?).getD 0) (0 + i))) = _
      rw [Function.update_self, hget]
    · exact Function.update_of_ne (by omega) _ _

/-- Induction on what is to be copied; the byte that is done is not in the rest. -/
theorem run_bytes (hne : publisher ≠ subscriber) : ∀ {order : List Nat} {s : State κ Point Area}
    {as : List (Act κ Point)} {buffer : Mem}, Trans.Run (Steps strerror) Trans.free (init m₀) as s →
    Copying s m' publisher subscriber order buffer → order.Nodup → (∀ i ∈ order, i < m'.length) →
    (∀ i ∈ order, r[i]? = some (s.shared.data i) ∨ r[i]? = m'[i]?) →
    ∃ as' t buffer', Trans.Run (Steps strerror) Trans.free (init m₀) as' t ∧
      Copying t m' publisher subscriber [] buffer' ∧ (∀ i ∈ order, r[i]? = some (buffer' i)) ∧
      ∀ i, i ∉ order → buffer' i = buffer i
  | [], s, as, buffer, h, hc, _, _, _ => ⟨as, s, buffer, h, hc, nofun, fun _ _ => rfl⟩
  | i :: order, s, as, buffer, h, hc, hnodup, hlt, hr => by
    have hi := hlt i List.mem_cons_self
    obtain ⟨hnot, hnodup'⟩ := List.nodup_cons.1 hnodup
    obtain ⟨b, hrb, hb⟩ : ∃ b, r[i]? = some b ∧ (b = s.shared.data i ∨ b = m'[i]) := by
      rcases hr i List.mem_cons_self with heq | heq
      · exact ⟨_, heq, .inl rfl⟩
      · exact ⟨_, heq.trans (List.getElem?_eq_getElem hi), .inr rfl⟩
    obtain ⟨as₁, s₁, h₁, hc₁, hdata⟩ := run_byte strerror h hc hne hi hb
    obtain ⟨as', t, buffer', h', hc', hin, hout⟩ := run_bytes hne h₁ hc₁ hnodup'
      (fun j hj => hlt j (List.mem_cons_of_mem _ hj)) (fun j hj => by
        rw [hdata j (fun heq => hnot (heq ▸ hj))]
        exact hr j (List.mem_cons_of_mem _ hj))
    refine ⟨as', t, buffer', h', hc', fun j hj => ?_, fun j hj => ?_⟩
    · rcases List.mem_cons.1 hj with rfl | hj
      · rw [hout j hnot, Function.update_self, hrb]
      · exact hin j hj
    · rw [hout j (fun hm => hj (List.mem_cons_of_mem _ hm)),
        Function.update_of_ne (fun heq : j = i => hj (by rw [heq]; exact List.mem_cons_self))]

/-- The whole area is accessed. -/
theorem begins_of_size (c : Call) (hoffset : c.offset = 0) :
    Begins (.enter (sizeofShmHead + c.size) c (List.range c.size)) := by
  refine ⟨List.Perm.refl _, fun _ => ?_⟩
  rw [hoffset, Nat.zero_add]

theorem instr_enter (c : Call) (hoffset : c.offset = 0) :
    instr strerror (.enter (sizeofShmHead + c.size) c (List.range c.size)) =
      if c.locks then .lock (locked strerror c (List.range c.size))
      else .access fun x => (x, c.body (List.range c.size)) := by
  refine if_neg ?_
  rw [hoffset]
  omega

/-- The subscriber is in the middle of its read, with nothing copied. -/
theorem run_loading (m₀ : Mem) (n : Nat) (subscriber : κ) : ∃ as s,
    Trans.Run (Steps strerror) Trans.free (init m₀) as s ∧ (∀ k, s.phase k = .running) ∧ s.owner = none ∧
      s.shared = ⟨m₀, 0, [], false⟩ ∧ s.point subscriber = .loading false n 0 0 (List.range n) zero ∧
      ∀ k, k ≠ subscriber → s.point k = .outside := by
  have h₁ : Trans.Run (Steps strerror) Trans.free (init m₀)
      [.call subscriber (.enter (sizeofShmHead + n) (.readUnlocked n 0) (List.range n))] _ :=
    .single trivial (.call ⟨rfl, rfl⟩ (begins_of_size (.readUnlocked n 0) rfl))
  have h₂ := run_access strerror h₁ (k := subscriber) rfl (f := fun x => (x, .load false n 0 (List.range n))) (by
    rw [State.goto_self]
    exact instr_enter strerror (.readUnlocked n 0) rfl)
  have h₃ := run_access strerror h₂ (k := subscriber) rfl
    (f := fun x => (x, .loading false n 0 x.done (List.range n) zero)) (congrArg (instr strerror) (State.goto_self ..))
  refine ⟨_, _, h₃, fun _ => rfl, rfl, rfl, State.goto_self .., fun k hk => ?_⟩
  exact (State.goto_of_ne _ _ hk).trans ((State.goto_of_ne _ _ hk).trans (State.goto_of_ne _ _ hk))

variable (m₀ m') in
/-- And the publisher takes the mutex and begins. -/
theorem run_copying (hne : publisher ≠ subscriber) : ∃ as s, Trans.Run (Steps strerror) Trans.free (init m₀) as s ∧
    Copying s m' publisher subscriber (List.range m'.length) zero ∧ s.shared.data = m₀ := by
  obtain ⟨as, s, h, hrun, hnone, hshared, hsub, hout⟩ := run_loading strerror m₀ m'.length subscriber
  have h₁ := h.snoc trivial (.call (k := publisher) (p := .enter (sizeofShmHead + m'.length) (.write m' 0 0)
    (List.range m'.length)) ⟨hrun _, congrArg (instr strerror) (hout _ hne)⟩ (begins_of_size (.write m' 0 0) rfl))
  have h₂ := h₁.snoc trivial (.lock (k := publisher) ⟨hrun _,
    (congrArg (instr strerror) (State.goto_self ..)).trans (instr_enter strerror (.write m' 0 0) rfl)⟩ hnone)
  have h₃ := run_access strerror h₂ (k := publisher) (hrun _) (f := fun x => ({ x with
    writes := x.writes ++ [(0, m')], writing := true }, .storing m' 0 0 (List.range m'.length)))
    (congrArg (instr strerror) (State.goto_self ..))
  have hwrites : s.shared.writes = [] := by rw [hshared]
  refine ⟨_, _, h₃, ⟨hrun, fun w hw => ?_, State.goto_self .., 0, ?_⟩, congrArg Area.data hshared⟩
  · have hmem : w ∈ s.shared.writes ++ [(0, m')] := hw
    rw [hwrites] at hmem
    exact List.mem_singleton.1 hmem
  · refine Eq.trans (State.goto_of_ne _ _ hne.symm) ?_
    refine Eq.trans (State.goto_of_ne _ _ hne.symm) ?_
    exact (State.goto_of_ne _ _ hne.symm).trans hsub

/-- **What can be read is every mixture, and nothing else.** -/
theorem canRead_iff (hne : publisher ≠ subscriber) :
    CanRead strerror m₀ m' subscriber r ↔ Mixture (ByteMem.read m₀ 0 m'.length) m' r := by
  refine ⟨mixture_of_canRead strerror, fun ⟨hlen, hmix⟩ => ?_⟩
  obtain ⟨as₁, s₁, h₁, hc₁, hdata⟩ := run_copying strerror m₀ m' hne
  obtain ⟨as₂, s₂, buffer, h₂, hc₂, hin, -⟩ := run_bytes strerror (r := r) hne h₁ hc₁ List.nodup_range
    (fun i hi => List.mem_range.1 hi) (fun i hi => by
      have hmi := hmix i
      rwa [getElem?_read _ _ _ _ (List.mem_range.1 hi), Nat.zero_add, ← hdata] at hmi)
  obtain ⟨n, hsub⟩ := hc₂.loading
  have h₃ := run_access strerror h₂ (k := subscriber) (hc₂.running subscriber)
    (f := loadByte false m'.length 0 n [] buffer) (by rw [hsub]; rfl)
  have hr : ByteMem.read buffer 0 m'.length = r := by
    refine List.ext_getElem? (fun i => ?_)
    by_cases hi : i < m'.length
    · rw [getElem?_read _ _ _ _ hi, Nat.zero_add, hin i (List.mem_range.2 hi)]
    · rw [List.getElem?_eq_none (by rw [length_read]; omega), List.getElem?_eq_none (by omega)]
  refine ⟨_, _, n, h₃, hc₂.writes, ?_, hlen⟩
  show (State.goto _ subscriber _).point subscriber = _
  rw [State.goto_self, loadByte, if_neg Bool.false_ne_true, hr]

/-! ## What is handed over -/

section Handing

variable {D : Type} [DoubleText D]

/-- What a task hands to the callback when the read got `r` and the subscriber had `msg_`. -/
def handed (r : List UInt8) (msg_ : JsonValue D) : JsonValue D :=
  match Serializer.deserialize r msg_ with
  | .ok v => v
  | .error _ => msg_

theorem createTask_of_content {sub : Subscriber D} {sp : ShmSpace} {r : List UInt8} (h : sub.content sp = .ok r) :
    ∃ sub', sub.createTaskFromSubEvent sp = .ok (handed r sub.msg_, sub') := by
  have hread : sub.readMessage sp = Serializer.deserialize r sub.msg_ := by
    rw [Subscriber.readMessage_eq, h]
    rfl
  unfold Subscriber.createTaskFromSubEvent Subscriber.getMessage handed
  rw [hread]
  by_cases hv : ∃ v, Serializer.deserialize r sub.msg_ = .ok v
  · obtain ⟨v, hv⟩ := hv
    rw [hv]
    exact ⟨_, rfl⟩
  · have hnone : ∀ v : JsonValue D, ¬ (sub.msg_.serialize.length ≤ r.length ∧ Text r v) := fun v ht =>
      hv ⟨v, ((Serializer.deserialize_buffer r sub.msg_).1 v).2 ht⟩
    obtain ⟨e, he⟩ := (Serializer.deserialize_buffer r sub.msg_).2.2 (by
      by_cases hlen : r.length < sub.msg_.serialize.length
      · exact .inl hlen
      · exact .inr (fun v ht => hnone v ⟨by omega, ht⟩))
    rw [he]
    exact ⟨_, rfl⟩

theorem handed_eq_iff (r : List UInt8) (msg_ v : JsonValue D) :
    handed r msg_ = v ↔ (msg_.serialize.length ≤ r.length ∧ Text r v) ∨
      ((∀ w : JsonValue D, ¬ (msg_.serialize.length ≤ r.length ∧ Text r w)) ∧ v = msg_) := by
  have hok := (Serializer.deserialize_buffer r msg_).1
  unfold handed
  cases hd : Serializer.deserialize r msg_ with
  | ok w =>
    refine ⟨fun h => .inl ((hok v).1 (hd.trans (congrArg _ h))), ?_⟩
    rintro (h | ⟨hnone, -⟩)
    · exact Except.ok.inj (hd.symm.trans ((hok v).2 h))
    · exact absurd ((hok w).1 hd) (hnone w)
  | error e =>
    refine ⟨fun h => .inr ⟨fun w hw => ?_, h.symm⟩, ?_⟩
    · have heq := hd.symm.trans ((hok w).2 hw)
      cases heq
    · rintro (h | ⟨-, h⟩)
      · have heq := hd.symm.trans ((hok v).2 h)
        cases heq
      · exact h.symm

/-- **What a callback may get while one message is written over another with a text as long**: each value that a mixture
of the texts is read as, and what the subscriber had if one is no text. -/
theorem handed_iff (m m' msg_ v : JsonValue D) (hlen : m.serialize.length = m'.serialize.length)
    (hne : publisher ≠ subscriber) :
    (∃ r, CanRead strerror (ByteMem.write zero 0 m.serialize) m'.serialize subscriber r ∧ handed r msg_ = v) ↔
      ∃ r, Mixture m.serialize m'.serialize r ∧ ((msg_.serialize.length ≤ m'.serialize.length ∧ Text r v) ∨
        ((msg_.serialize.length ≤ m'.serialize.length → ∀ w : JsonValue D, ¬ Text r w) ∧ v = msg_)) := by
  have hread : ByteMem.read (ByteMem.write zero 0 m.serialize) 0 m'.serialize.length = m.serialize := by
    rw [← hlen, ByteMem.read_write_of_le _ _ _ _ (Nat.le_refl _), Nat.sub_self]
    exact List.append_nil _
  refine exists_congr (fun r => ?_)
  rw [canRead_iff strerror hne, hread, handed_eq_iff]
  refine and_congr_right (fun hmix => ?_)
  rw [hmix.1]
  simp only [not_and]
  refine or_congr_right (and_congr_left' ?_)
  exact ⟨fun h hle w => h w hle, fun h w hle => h hle w⟩

/-- `[1,1]` is published and `[2,2]` after it, and a callback gets `[1,2]`. -/
theorem handed_iff_one_two : ∃ r, CanRead (fun _ => []) (ByteMem.write zero 0 (utf8 "[1,1]")) (utf8 "[2,2]") true r ∧
    handed r (.null : JsonValue (List UInt8)) = .array [.int 1, .int 2] := by
  have hone : deserialize (utf8 "[1,2]") = .ok (.array [.int 1, .int 2] : JsonValue (List UInt8)) := by rfl
  refine (handed_iff (fun _ => []) (.array [.int 1, .int 1]) (.array [.int 2, .int 2]) .null _ rfl
    Bool.false_ne_true).2 ⟨utf8 "[1,2]", ⟨rfl, fun i => ?_⟩, .inl ⟨by decide, text_of_deserialize hone⟩⟩
  rcases i with _ | _ | _ | _ | i
  · exact .inl rfl
  · exact .inl rfl
  · exact .inl rfl
  · exact .inr rfl
  · exact .inl rfl

end Handing

end TornRead
end MiniRos2

import MiniRos2.PubSub
/-!
# Delivery — what is put into a destination, and what a callback receives

`Serializer::deserialize` tests the buffer's size against the text of the value that the destination holds, so a round
trip depends on this value, and on what the parser takes (`roundTrip_iff`).  `getMessage` catches what that test, the
read and the parser throw, and keeps the message it had; the task is built all the same, and its callback receives the
old message (`onlyRead_iff`).
-/
namespace MiniRos2

variable {D : Type} [DoubleText D]

/-! ## The destination -/

namespace Serializer

/-- `serialize` into a buffer of `getSerializedSize` bytes, and `deserialize` of this buffer into `d`. -/
def roundTrip (v d : JsonValue D) : Except Abort (JsonValue D) := do
  let buffer ← serialize v (getSerializedSize v)
  deserialize buffer d

/-- The text of the destination's value is no longer than the text that is read. -/
def Fits (v d : JsonValue D) : Prop := d.serialize.length ≤ v.serialize.length

instance (v d : JsonValue D) : Decidable (Fits v d) := inferInstanceAs (Decidable (_ ≤ _))

theorem roundTrip_eq (v d : JsonValue D) : roundTrip v d = deserialize v.serialize d := by
  unfold roundTrip
  rw [serialize_getSerializedSize, Except.ok_bind]

theorem roundTrip_of_fits {v d : JsonValue D} (h : Fits v d) : roundTrip v d = MiniRos2.deserialize v.serialize := by
  unfold Fits at h
  rw [roundTrip_eq, deserialize, if_neg (by omega)]

theorem roundTrip_of_not_fits {v d : JsonValue D} (h : ¬ Fits v d) :
    roundTrip v d = .error (.throws (.runtimeError (utf8 "Buffer size is too small or buffer is null"))) := by
  unfold Fits at h
  rw [roundTrip_eq, deserialize, if_pos (by omega)]

/-- The parser does not throw what the test of the size throws. -/
theorem roundTrip_ne {v d d' : JsonValue D} (h : Fits v d) (h' : ¬ Fits v d') : roundTrip v d ≠ roundTrip v d' := by
  rw [roundTrip_of_fits h, roundTrip_of_not_fits h']
  intro heq
  obtain ⟨e, he, hrun⟩ := deserialize_onlyThrows v.serialize _ heq
  cases he
  cases hrun

/-- **A round trip gives the value back exactly when the destination's text fits** and no string or key of the value has
a backspace, and two destinations come out alike exactly when both fit or neither does. -/
theorem roundTrip_iff (m : Message D) (d : JsonValue D) :
    (roundTrip m.val d = .ok m.val ↔ Fits m.val d ∧ m.val.NoBackspace) ∧
      ∀ d', roundTrip m.val d = roundTrip m.val d' ↔ (Fits m.val d ↔ Fits m.val d') := by
  constructor
  · constructor
    · intro h
      have hfits : Fits m.val d := by
        by_contra hfits
        cases (roundTrip_of_not_fits hfits).symm.trans h
      rw [roundTrip_of_fits hfits] at h
      exact ⟨hfits, (text_of_deserialize h).noBackspace (eight_not_mem_message m)⟩
    · rintro ⟨hfits, hb⟩
      rw [roundTrip_of_fits hfits]
      exact deserialize_serialize m hb
  · intro d'
    by_cases hd : Fits m.val d
    · by_cases hd' : Fits m.val d'
      · exact iff_of_true ((roundTrip_of_fits hd).trans (roundTrip_of_fits hd').symm) (iff_of_true hd hd')
      · exact iff_of_false (roundTrip_ne hd hd') (fun h => hd' (h.1 hd))
    · by_cases hd' : Fits m.val d'
      · exact iff_of_false (roundTrip_ne hd' hd).symm (fun h => hd (h.2 hd'))
      · exact iff_of_true ((roundTrip_of_not_fits hd).trans (roundTrip_of_not_fits hd').symm) (iff_of_false hd hd')

/-- A `true` is not read into a destination that holds a longer text. -/
theorem roundTrip_not_always : ¬ ∀ (m : Message (List UInt8)) (d : JsonValue (List UInt8)),
    roundTrip m.val d = .ok m.val := by
  intro h
  have hlong : ¬ Fits (boolMessage true).val (.string [97, 98, 99]) := by decide +kernel
  have htrue := h (boolMessage true) (.string [97, 98, 99])
  rw [roundTrip_of_not_fits hlong] at htrue
  cases htrue

end Serializer

/-! ## The callback -/

namespace Subscriber

/-- The data area, as `getMessage` reads it. -/
def content (sub : Subscriber D) (sp : ShmSpace) : Except Abort (List UInt8) :=
  match sub.shm_ with
  | none => .error .undefined
  | some shm_ => shm_.readUnlocked shm_.getDataSize 0 sp

/-- `execute`: the messages that the callback is called with. -/
def execute (msg_ptr : JsonValue D) : List (JsonValue D) := [msg_ptr]

/-- **What the callback receives** when a task is created now and run. -/
def received (sub : Subscriber D) (sp : ShmSpace) : List (JsonValue D) :=
  match sub.createTaskFromSubEvent sp with
  | .ok (msg_ptr, _) => execute msg_ptr
  | .error _ => []

/-- **Only what was read is delivered**: the callback receives what the content is read as, and receives nothing when
the read, the size guard or the parser throws. -/
structure OnlyRead (sub : Subscriber D) (sp : ShmSpace) : Prop where
  exact : ∀ v, sub.readMessage sp = .ok v →
    sub.received sp = [v] ∧ ∃ c, sub.content sp = .ok c ∧ MiniRos2.deserialize c = .ok v
  silent : (∃ e, sub.readMessage sp = .error (.throws e)) → sub.received sp = []

/-- **The content decodes**: it is the text of a value, and at least as long as the text of the message before. -/
def Decodes (sub : Subscriber D) (sp : ShmSpace) : Prop :=
  ∃ c, sub.content sp = .ok c ∧ (∃ v : JsonValue D, Text c v) ∧ sub.msg_.serialize.length ≤ c.length

theorem readMessage_eq (sub : Subscriber D) (sp : ShmSpace) :
    sub.readMessage sp = sub.content sp >>= fun c => Serializer.deserialize c sub.msg_ := by
  unfold readMessage content
  cases sub.shm_ with
  | none => rfl
  | some b => rfl

omit [DoubleText D] in
/-- Reading a subscribed region returns or throws. -/
theorem content_cases {sub : Subscriber D} (hs : sub.shm_ ≠ none) (sp : ShmSpace) :
    (∃ c, sub.content sp = .ok c) ∨ ∃ e, sub.content sp = .error (.throws e) := by
  obtain ⟨b, hb⟩ := Option.ne_none_iff_exists'.1 hs
  unfold content
  simp only [hb]
  unfold ShmBase.readUnlocked
  split
  · exact .inr ⟨_, rfl⟩
  · unfold ShmBase.mapped
    cases b.shm_.data_ with
    | none => exact .inr ⟨_, rfl⟩
    | some id =>
      rw [Except.ok_bind]
      unfold Region.read
      split
      · exact .inr ⟨_, rfl⟩
      · exact .inl ⟨_, rfl⟩

theorem readMessage_eq_ok_iff {sub : Subscriber D} {sp : ShmSpace} {v : JsonValue D} :
    sub.readMessage sp = .ok v ↔ ∃ c, sub.content sp = .ok c ∧ Text c v ∧ sub.msg_.serialize.length ≤ c.length := by
  rw [readMessage_eq]
  constructor
  · intro h
    obtain ⟨c, hc, hv⟩ := Except.bind_eq_ok h
    obtain ⟨hle, ht⟩ := ((Serializer.deserialize_buffer c sub.msg_).1 v).1 hv
    exact ⟨c, hc, ht, hle⟩
  · rintro ⟨c, hc, ht, hle⟩
    rw [hc, Except.ok_bind]
    exact ((Serializer.deserialize_buffer c sub.msg_).1 v).2 ⟨hle, ht⟩

/-- What does not decode throws. -/
theorem readMessage_throws {sub : Subscriber D} {sp : ShmSpace} (hs : sub.shm_ ≠ none) (h : ¬ sub.Decodes sp) :
    ∃ e, sub.readMessage sp = .error (.throws e) := by
  rw [readMessage_eq]
  rcases content_cases hs sp with ⟨c, hc⟩ | ⟨e, he⟩
  · rw [hc, Except.ok_bind]
    refine (Serializer.deserialize_buffer c sub.msg_).2.2 ?_
    by_cases hle : sub.msg_.serialize.length ≤ c.length
    · exact .inr fun v hv => h ⟨c, hc, ⟨v, hv⟩, hle⟩
    · exact .inl (by omega)
  · rw [he]
    exact ⟨e, rfl⟩

theorem received_of_read {sub : Subscriber D} {sp : ShmSpace} {v : JsonValue D} (h : sub.readMessage sp = .ok v) :
    sub.received sp = [v] := by
  unfold received createTaskFromSubEvent getMessage
  rw [h]
  rfl

/-- A task that is built after an exception hands the message before to the callback. -/
theorem received_of_throws {sub : Subscriber D} {sp : ShmSpace} {e : Exn}
    (h : sub.readMessage sp = .error (.throws e)) : sub.received sp = [sub.msg_] := by
  unfold received createTaskFromSubEvent getMessage
  rw [h]
  rfl

/-- **Only what was read is delivered exactly when the content decodes.** -/
theorem onlyRead_iff {sub : Subscriber D} {sp : ShmSpace} (hs : sub.shm_ ≠ none) :
    sub.OnlyRead sp ↔ sub.Decodes sp := by
  constructor
  · intro h
    by_contra hno
    obtain ⟨e, he⟩ := readMessage_throws hs hno
    have hsilent := h.silent ⟨e, he⟩
    rw [received_of_throws he] at hsilent
    cases hsilent
  · rintro ⟨c, hc, ⟨v, hv⟩, hle⟩
    have hread : sub.readMessage sp = .ok v := readMessage_eq_ok_iff.2 ⟨c, hc, hv, hle⟩
    constructor
    · intro w hw
      rw [hread] at hw
      cases hw
      exact ⟨received_of_read hread, c, hc, deserialize_of_text hv⟩
    · rintro ⟨e, he⟩
      rw [hread] at he
      cases he

/-- A region whose data area has these bytes, mapped by a subscriber whose message is `msg`. -/
def reader (data : List UInt8) (msg : JsonValue (List UInt8)) : Subscriber (List UInt8) × ShmSpace :=
  let r : Region := ⟨sizeofShmHead + data.length, ByteMem.write ByteMem.zero 0 data⟩
  (⟨[], some ⟨⟨[], r.size, some 0, false⟩, true⟩, msg⟩, ⟨fun _ => none, fun _ => r, 1⟩)

/-- A `1` is read and delivered, where the message before was a number of one digit. -/
theorem onlyRead_one : (reader [49] (.int 0)).1.shm_ ≠ none ∧
    (reader [49] (.int 0)).1.OnlyRead (reader [49] (.int 0)).2 := by
  have hs : (reader [49] (.int 0)).1.shm_ ≠ none := Option.some_ne_none _
  have hone : deserialize [49] = .ok (.int 1 : JsonValue (List UInt8)) := by rfl
  refine ⟨hs, (onlyRead_iff hs).2 ⟨[49], by rfl, ⟨.int 1, text_of_deserialize hone⟩, by decide +kernel⟩⟩

/-- A NUL is no text, and the callback receives the message before. -/
theorem onlyRead_not_always : ¬ ∀ (sub : Subscriber (List UInt8)) (sp : ShmSpace),
    sub.shm_ ≠ none → sub.OnlyRead sp := by
  intro h
  have hsilent := (h (reader [0] (.int 7)).1 (reader [0] (.int 7)).2 (Option.some_ne_none _)).silent ⟨_, by rfl⟩
  have hold : (reader [0] (.int 7)).1.received (reader [0] (.int 7)).2 = [.int 7] := by rfl
  rw [hold] at hsilent
  cases hsilent

end Subscriber

end MiniRos2

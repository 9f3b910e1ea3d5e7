import MiniRos2.RegistryRead
/-!
# RegistryCalls — what a call does to the tables and to the region

Every call changes the manager's tables first and writes texts of the changed tables last, and no write changes the
manager.  So what a call leaves is known from the tables it writes out: a write stored the text of its table, or it
failed and stored nothing (`writeNodesInfo_cases`, `writeTopicsInfo_cases`).
-/
namespace MiniRos2

variable {D : Type}

/-- The state a call leaves behind, whether it returned or threw. -/
def finalState {σ α : Type} : EStateM.Result Abort σ α → σ
  | .ok _ s => s
  | .error _ s => s

/-- The call did what C++ leaves undefined. -/
def Undefined {σ α : Type} : EStateM.Result Abort σ α → Prop
  | .ok _ _ => False
  | .error e _ => e = .undefined

/-- What a call that returned gave. -/
def answer {σ α : Type} : EStateM.Result Abort σ α → Option α
  | .ok a _ => some a
  | .error _ _ => none

theorem eq_ok_of_answer {σ α : Type} {r : EStateM.Result Abort σ α} {a : α} (h : answer r = some a) :
    r = .ok a (finalState r) := by
  cases r with
  | ok b s => cases h; rfl
  | error e s => cases h

theorem not_undefined_of_answer {σ α : Type} {r : EStateM.Result Abort σ α} {a : α} (h : answer r = some a) :
    ¬ Undefined r := by
  cases r with
  | ok b s => exact id
  | error e s => cases h

/-- Giving another answer changes neither the state nor how the call ended. -/
theorem finalState_answer {α β : Type} (x : Op D α) (f : α → β) (s : Registry D) :
    finalState ((x >>= fun a => pure (f a)) s) = finalState (x s) ∧
      (Undefined ((x >>= fun a => pure (f a)) s) ↔ Undefined (x s)) := by
  cases hx : x s with
  | ok a t =>
    rw [Op.bind_ok hx]
    exact ⟨rfl, Iff.rfl⟩
  | error e t =>
    rw [Op.bind_error hx]
    exact ⟨rfl, Iff.rfl⟩

/-! ## Writes -/

def Registry.store (s : Registry D) (data : List UInt8) (offset : Nat) : Registry D :=
  { s with shm := { s.shm with mem := ByteMem.write s.shm.mem offset data } }

theorem shmWrite_of_le {s : Registry D} {data : List UInt8} {offset : Nat} (h : offset + data.length ≤ s.shm.size) :
    shmWrite data offset s = .ok () (s.store data offset) := by
  unfold shmWrite
  rw [Region.write_of_le h]
  rfl

theorem shmWrite_of_lt {s : Registry D} {data : List UInt8} {offset : Nat} (h : s.shm.size < offset + data.length) :
    ∃ e, shmWrite data offset s = .error (.throws e) s := by
  unfold shmWrite Region.write
  rw [if_pos h]
  exact ⟨_, rfl⟩

theorem shmWrite_cases (s : Registry D) (data : List UInt8) (offset : Nat) :
    (offset + data.length ≤ s.shm.size ∧ shmWrite data offset s = .ok () (s.store data offset)) ∨
      (s.shm.size < offset + data.length ∧ ∃ e, shmWrite data offset s = .error (.throws e) s) := by
  by_cases h : offset + data.length ≤ s.shm.size
  · exact .inl ⟨h, shmWrite_of_le h⟩
  · exact .inr ⟨by omega, shmWrite_of_lt (by omega)⟩

section Texts

variable [DoubleText D]

theorem writeNodesInfo_of_valid {s : Registry D} (h : s.mgr.nodes_.Valid) :
    writeNodesInfo_ s = shmWrite (nodesText D s.mgr.nodes_) TOPIC_INFO_SIZE s := by
  unfold writeNodesInfo_
  rw [Op.get_bind, Op.bind_ok (liftE_ok (nodesJson_of_valid h) _)]
  rfl

theorem writeTopicsInfo_of_valid {s : Registry D} (h : s.mgr.topics_.Valid) :
    writeTopicsInfo_ s = shmWrite (topicsText D s.mgr.topics_) 0 s := by
  unfold writeTopicsInfo_
  rw [Op.get_bind, Op.bind_ok (liftE_ok (topicsJson_of_valid h) _)]
  rfl

theorem writeNodesInfo_of_not_valid {s : Registry D} (h : ¬ s.mgr.nodes_.Valid) :
    ∃ e, writeNodesInfo_ s = .error e s ∧ (e = .undefined ↔ 0 ≤ s.mgr.nodes_.nodes_count.toInt) := by
  unfold NodesInfo.Valid at h
  unfold writeNodesInfo_
  by_cases h0 : 0 ≤ s.mgr.nodes_.nodes_count.toInt
  · have hj : (nodesJson s.mgr.nodes_ : Except Abort (JsonValue D)) = .error .undefined := by
      unfold nodesJson jsonArray
      rw [if_neg (by omega), Except.ok_bind, if_pos (by omega)]
    refine ⟨.undefined, ?_, by simp [h0]⟩
    rw [Op.get_bind]
    exact Op.bind_error (liftE_error hj _)
  · obtain ⟨e, hj⟩ : ∃ e, (nodesJson s.mgr.nodes_ : Except Abort (JsonValue D)) = .error (.throws e) := by
      unfold nodesJson jsonArray
      rw [if_pos (by omega)]
      exact ⟨_, rfl⟩
    refine ⟨.throws e, ?_, by simp [h0]⟩
    rw [Op.get_bind]
    exact Op.bind_error (liftE_error hj _)

theorem writeTopicsInfo_of_not_valid {s : Registry D} (h : ¬ s.mgr.topics_.Valid) :
    ∃ e, writeTopicsInfo_ s = .error e s := by
  unfold TopicsInfo.Valid at h
  unfold writeTopicsInfo_
  obtain ⟨e, hj⟩ : ∃ e, (topicsJson s.mgr.topics_ : Except Abort (JsonValue D)) = .error e := by
    unfold topicsJson jsonArray
    by_cases h0 : s.mgr.topics_.topics_count.toInt < 0
    · rw [if_pos h0]
      exact ⟨_, rfl⟩
    · rw [if_neg h0, Except.ok_bind, if_pos (by omega)]
      exact ⟨_, rfl⟩
  refine ⟨e, ?_⟩
  rw [Op.get_bind]
  exact Op.bind_error (liftE_error hj _)

/-- **What a write of the node table leaves**: it stored the text, or it failed and stored nothing. -/
theorem writeNodesInfo_cases (s : Registry D) :
    (s.mgr.nodes_.Valid ∧ writeNodesInfo_ s = .ok () (s.store (nodesText D s.mgr.nodes_) TOPIC_INFO_SIZE) ∧
        TOPIC_INFO_SIZE + (nodesText D s.mgr.nodes_).length ≤ s.shm.size) ∨
      (s.mgr.nodes_.Valid → s.shm.size < TOPIC_INFO_SIZE + (nodesText D s.mgr.nodes_).length) ∧
        ∃ e, writeNodesInfo_ s = .error e s := by
  by_cases h : s.mgr.nodes_.Valid
  · rw [writeNodesInfo_of_valid h]
    rcases shmWrite_cases s (nodesText D s.mgr.nodes_) TOPIC_INFO_SIZE with ⟨hle, hw⟩ | ⟨hlt, e, hw⟩
    · exact .inl ⟨h, hw, hle⟩
    · exact .inr ⟨fun _ => hlt, _, hw⟩
  · obtain ⟨e, he, -⟩ := writeNodesInfo_of_not_valid h
    exact .inr ⟨fun hv => absurd hv h, e, he⟩

theorem writeTopicsInfo_cases (s : Registry D) :
    (s.mgr.topics_.Valid ∧ writeTopicsInfo_ s = .ok () (s.store (topicsText D s.mgr.topics_) 0) ∧
        (topicsText D s.mgr.topics_).length ≤ s.shm.size) ∨
      ∃ e, writeTopicsInfo_ s = .error e s := by
  by_cases h : s.mgr.topics_.Valid
  · rw [writeTopicsInfo_of_valid h]
    rcases shmWrite_cases s (topicsText D s.mgr.topics_) 0 with ⟨hle, hw⟩ | ⟨-, e, hw⟩
    · exact .inl ⟨h, hw, by omega⟩
    · exact .inr ⟨_, hw⟩
  · obtain ⟨e, he⟩ := writeTopicsInfo_of_not_valid h
    exact .inr ⟨e, he⟩

/-- No write changes the manager or the region's size. -/
theorem writeNodesInfo_frame (s : Registry D) :
    (finalState (writeNodesInfo_ s)).mgr = s.mgr ∧ (finalState (writeNodesInfo_ s)).shm.size = s.shm.size := by
  rcases writeNodesInfo_cases s with ⟨-, h, -⟩ | ⟨-, e, h⟩ <;> rw [h] <;> exact ⟨rfl, rfl⟩

theorem writeTopicsInfo_frame (s : Registry D) :
    (finalState (writeTopicsInfo_ s)).mgr = s.mgr ∧ (finalState (writeTopicsInfo_ s)).shm.size = s.shm.size := by
  rcases writeTopicsInfo_cases s with ⟨-, h, -⟩ | ⟨e, h⟩ <;> rw [h] <;> exact ⟨rfl, rfl⟩

end Texts

/-! ## The manager's own slot -/

theorem modifyOwn_bind {α : Type} {f : Nat → NodesInfo → NodesInfo} {k : Unit → Op D α} {s : Registry D} {i : Nat}
    (hi : nodeSlot s.mgr.node_id_.toInt = .ok i) : (modifyOwn f >>= k) s = k () (s.mapNodes (f i)) := by
  have hm : modifyOwn f s = .ok () (s.mapNodes (f i)) := by
    unfold modifyOwn
    rw [Op.get_bind, Op.bind_ok (liftE_ok hi s)]
    rfl
  exact Op.bind_ok hm

theorem modifyOwn_bind_error {α : Type} {f : Nat → NodesInfo → NodesInfo} {k : Unit → Op D α} {s : Registry D}
    {e : Abort} (hi : nodeSlot s.mgr.node_id_.toInt = .error e) :
    (modifyOwn f >>= k) s = .error .undefined s := by
  have he : e = .undefined := by
    rcases arraySlot_cases MAX_NODE_COUNT s.mgr.node_id_.toInt with ⟨j, hj⟩ | hj
    · cases hi.symm.trans hj
    · exact Except.error.inj (hi.symm.trans hj)
  subst he
  have hm : modifyOwn f s = .error .undefined s := by
    unfold modifyOwn
    rw [Op.get_bind]
    exact Op.bind_error (liftE_error hi s)
  exact Op.bind_error hm

end MiniRos2

import MiniRos2.RegistrySection
/-!
# RegistryBytes — reading the registry from any bytes

The readers take counts and names from a text that another process wrote.  What is no JSON text or lacks a field makes
them start over with an empty table; but no count is compared with the size of its array, and no name with the room
there is for it.  So a reader stays inside its arrays exactly when the text does not lead it out of them
(`read_safe_iff`).
-/
namespace MiniRos2

variable {D : Type}

/-! ## How a call ends -/

inductive Verdict where
  | done
  | throws
  | undefined
  deriving DecidableEq

def Verdict.andThen (v w : Verdict) : Verdict :=
  match v with
  | .done => w
  | v => v

def verdict {σ α : Type} : EStateM.Result Abort σ α → Verdict
  | .ok _ _ => .done
  | .error (.throws _) _ => .throws
  | .error _ _ => .undefined

def verdictE {α : Type} : Except Abort α → Verdict
  | .ok _ => .done
  | .error (.throws _) => .throws
  | .error _ => .undefined

/-- A sequence ends as its first part does, or as the rest, when the rest ends in one way only. -/
theorem verdict_liftE_bind {α β : Type} {x : Except Abort α} {f : α → Op D β} {s : Registry D} {v : Verdict}
    (h : ∀ a, x = .ok a → verdict (f a s) = v) : verdict ((liftE x >>= f) s) = (verdictE x).andThen v := by
  cases hx : x with
  | ok a =>
    rw [Op.bind_ok (liftE_ok rfl s)]
    exact h a hx
  | error e =>
    rw [Op.bind_error (liftE_error rfl s)]
    cases e <;> rfl

theorem verdict_modifyTopics_bind {β : Type} (f : TopicsInfo → TopicsInfo) (k : Unit → Op D β) (s : Registry D) :
    verdict ((modifyTopics f >>= k) s) = verdict (k () (s.mapTopics f)) := by
  rw [Op.bind_ok (modifyTopics_eq f s)]

theorem verdict_modifyNodes_bind {β : Type} (f : NodesInfo → NodesInfo) (k : Unit → Op D β) (s : Registry D) :
    verdict ((modifyNodes f >>= k) s) = verdict (k () (s.mapNodes f)) := by
  rw [Op.bind_ok (modifyNodes_eq f s)]

theorem Verdict.andThen_eq_done {v w : Verdict} : v.andThen w = .done ↔ v = .done ∧ w = .done := by
  cases v <;> simp [Verdict.andThen]

theorem Verdict.andThen_ne_undefined {v w : Verdict} :
    v.andThen w ≠ .undefined ↔ v ≠ .undefined ∧ (v = .done → w ≠ .undefined) := by
  cases v <;> simp [Verdict.andThen]

@[simp] theorem Verdict.done_andThen (v : Verdict) : Verdict.done.andThen v = v := rfl

@[simp] theorem Verdict.andThen_done (v : Verdict) : v.andThen .done = v := by cases v <;> rfl

theorem Verdict.andThen_assoc (u v w : Verdict) : (u.andThen v).andThen w = u.andThen (v.andThen w) := by
  cases u <;> rfl

/-- A loop of turns ends as the first turn that does not return. -/
def loopVerdict (v : Nat → Verdict) : Nat → Nat → Verdict
  | _, 0 => .done
  | i, n + 1 => (v i).andThen (loopVerdict v (i + 1) n)

theorem loopVerdict_eq_done {v : Nat → Verdict} : ∀ {i n : Nat},
    loopVerdict v i n = .done ↔ ∀ k, k < n → v (i + k) = .done
  | i, 0 => by simp [loopVerdict]
  | i, n + 1 => by
    rw [loopVerdict, Verdict.andThen_eq_done, loopVerdict_eq_done]
    constructor
    · rintro ⟨hhead, htail⟩ k hk
      cases k with
      | zero => exact hhead
      | succ k =>
        have := htail k (by omega)
        rwa [show i + 1 + k = i + (k + 1) by omega] at this
    · intro h
      refine ⟨h 0 (by omega), fun k hk => ?_⟩
      have := h (k + 1) (by omega)
      rwa [show i + (k + 1) = i + 1 + k by omega] at this

theorem loopVerdict_ne_undefined {v : Nat → Verdict} : ∀ {i n : Nat},
    loopVerdict v i n ≠ .undefined ↔ ∀ k, k < n → (∀ j, j < k → v (i + j) = .done) → v (i + k) ≠ .undefined
  | i, 0 => by simp [loopVerdict]
  | i, n + 1 => by
    rw [loopVerdict, Verdict.andThen_ne_undefined, loopVerdict_ne_undefined]
    constructor
    · rintro ⟨hhead, htail⟩ k hk hbefore
      cases k with
      | zero => exact hhead
      | succ k =>
        have := htail (hbefore 0 (by omega)) k (by omega) (fun j hj => by
          have := hbefore (j + 1) (by omega)
          rwa [show i + (j + 1) = i + 1 + j by omega] at this)
        rwa [show i + 1 + k = i + (k + 1) by omega] at this
    · intro h
      refine ⟨h 0 (by omega) (fun j hj => absurd hj (by omega)), fun hhead k hk hbefore => ?_⟩
      have := h (k + 1) (by omega) (fun j hj => by
        cases j with
        | zero => exact hhead
        | succ j =>
          have := hbefore j (by omega)
          rwa [show i + 1 + j = i + (j + 1) by omega] at this)
      rwa [show i + (k + 1) = i + 1 + k by omega] at this

/-! ## The entries of a text -/

/-- **What a reader takes from an entry**, in this order: ints, of which the first comes before the entry's slot is
known, the name, and the rest. -/
structure Layout where
  table : String
  slots : Nat
  first : String
  ints : List String
  name : String
  bools : List String
  lastInts : List String

def topicLayout : Layout := ⟨"topics", MAX_TOPICS_PER_NODE, "topic_id", [], "name", [], []⟩

def nodeLayout : Layout :=
  ⟨"nodes", MAX_NODE_COUNT, "node_id", ["pid", "pub_topic_count", "sub_topic_count"], "node_name", ["is_alive"],
    ["last_heartbeat"]⟩

namespace Layout

variable (L : Layout) (json : JsonValue D) (i : Nat)

def int (key : String) : Except Abort Int32 := entryField json L.table i key >>= JsonValue.asInt
def bool (key : String) : Except Abort Bool := entryField json L.table i key >>= JsonValue.asBool
def string : Except Abort (List UInt8) := entryField json L.table i L.name >>= JsonValue.asString

/-- The entry has every field, each of its type. -/
structure Complete : Prop where
  first : ∃ x, L.int json i L.first = .ok x
  ints : ∀ key ∈ L.ints, ∃ x, L.int json i key = .ok x
  name : ∃ s, L.string json i = .ok s
  bools : ∀ key ∈ L.bools, ∃ b, L.bool json i key = .ok b
  lastInts : ∀ key ∈ L.lastInts, ∃ x, L.int json i key = .ok x

/-- **The entry does not lead out of the table**: it has a slot, unless its first field is no int, and if its name is
read there is room for it. -/
structure Fits : Prop where
  slot : (∃ x, L.int json i L.first = .ok x) → i < L.slots
  name : (∃ x, L.int json i L.first = .ok x) → (∀ key ∈ L.ints, ∃ x, L.int json i key = .ok x) →
    ∀ s, L.string json i = .ok s → (ByteMem.cstr s).length < MAX_NAME_LEN

/-- Every entry that the reader gets to fits. -/
def AllFit (n : Nat) : Prop := ∀ i, i < n → (∀ j, j < i → L.Complete json j) → L.Fits json i

/-- How a turn ends that has the entry's fields. -/
def turn : Verdict :=
  (verdictE (L.int json i L.first)).andThen <| Verdict.andThen (if i < L.slots then .done else .undefined) <|
    ((L.ints.map fun key => verdictE (L.int json i key)).foldr Verdict.andThen .done).andThen <|
      (verdictE (L.string json i >>= strcpy)).andThen <|
        ((L.bools.map fun key => verdictE (L.bool json i key)).foldr Verdict.andThen .done).andThen <|
          (L.lastInts.map fun key => verdictE (L.int json i key)).foldr Verdict.andThen .done

end Layout

theorem verdictE_eq_done {α : Type} {x : Except Abort α} : verdictE x = .done ↔ ∃ a, x = .ok a := by
  cases x with
  | ok a => simp [verdictE]
  | error e => cases e <;> simp [verdictE]

theorem verdictE_bind_ne_undefined {α β : Type} {x : Except Abort α} {f : α → Except Abort β}
    (hx : verdictE x ≠ .undefined) :
    verdictE (x >>= f) ≠ .undefined ↔ ∀ a, x = .ok a → verdictE (f a) ≠ .undefined := by
  cases x with
  | ok a => simp [Except.ok_bind]
  | error e =>
    refine iff_of_true ?_ (fun a ha => by cases ha)
    cases e with
    | throws e =>
      show Verdict.throws ≠ .undefined
      decide
    | undefined => exact hx
    | outOfFuel => exact hx

theorem atKey_ne_undefined (v : JsonValue D) (key : List UInt8) : verdictE (v.atKey key) ≠ .undefined := by
  cases v <;> simp [JsonValue.atKey, verdictE]

theorem atIndex_ne_undefined (v : JsonValue D) (i : Nat) : verdictE (v.atIndex i) ≠ .undefined := by
  unfold JsonValue.atIndex
  split
  · split <;> simp [verdictE]
  · simp [verdictE]

theorem entryField_ne_undefined (json : JsonValue D) (table : String) (i : Nat) (key : String) :
    verdictE (entryField json table i key) ≠ .undefined := by
  unfold entryField
  refine (verdictE_bind_ne_undefined (atKey_ne_undefined _ _)).2 fun xs _ => ?_
  exact (verdictE_bind_ne_undefined (atIndex_ne_undefined _ _)).2 fun x _ => atKey_ne_undefined _ _

theorem asInt_ne_undefined (v : JsonValue D) : verdictE v.asInt ≠ .undefined := by
  cases v <;> simp [JsonValue.asInt, verdictE]

theorem asBool_ne_undefined (v : JsonValue D) : verdictE v.asBool ≠ .undefined := by
  cases v <;> simp [JsonValue.asBool, verdictE]

theorem asString_ne_undefined (v : JsonValue D) : verdictE v.asString ≠ .undefined := by
  cases v <;> simp [JsonValue.asString, verdictE]

namespace Layout

variable (L : Layout) (json : JsonValue D) (i : Nat)

theorem int_ne_undefined (key : String) : verdictE (L.int json i key) ≠ .undefined :=
  (verdictE_bind_ne_undefined (entryField_ne_undefined _ _ _ _)).2 fun v _ => asInt_ne_undefined v

theorem bool_ne_undefined (key : String) : verdictE (L.bool json i key) ≠ .undefined :=
  (verdictE_bind_ne_undefined (entryField_ne_undefined _ _ _ _)).2 fun v _ => asBool_ne_undefined v

theorem string_ne_undefined : verdictE (L.string json i) ≠ .undefined :=
  (verdictE_bind_ne_undefined (entryField_ne_undefined _ _ _ _)).2 fun v _ => asString_ne_undefined v

end Layout

theorem foldr_andThen_eq_done {α : Type} {v : α → Verdict} : ∀ {keys : List α},
    (keys.map v).foldr Verdict.andThen .done = .done ↔ ∀ key ∈ keys, v key = .done
  | [] => by simp
  | key :: keys => by
    rw [List.map_cons, List.foldr_cons, Verdict.andThen_eq_done, foldr_andThen_eq_done, List.forall_mem_cons]

theorem foldr_andThen_ne_undefined {α : Type} {v : α → Verdict} (hv : ∀ key, v key ≠ .undefined) :
    ∀ keys : List α, (keys.map v).foldr Verdict.andThen .done ≠ .undefined
  | [] => by simp
  | key :: keys => by
    rw [List.map_cons, List.foldr_cons, Verdict.andThen_ne_undefined]
    exact ⟨hv key, fun _ => foldr_andThen_ne_undefined hv keys⟩

theorem strcpy_ne_undefined {s : List UInt8} :
    verdictE (strcpy s) ≠ .undefined ↔ (ByteMem.cstr s).length < MAX_NAME_LEN := by
  unfold strcpy
  split <;> simp_all [verdictE]

theorem strcpy_bind_eq_ok {x : Except Abort (List UInt8)} : (∃ name, x >>= strcpy = .ok name) ↔
    ∃ s, x = .ok s ∧ (ByteMem.cstr s).length < MAX_NAME_LEN := by
  constructor
  · rintro ⟨name, h⟩
    obtain ⟨s, hs, hname⟩ := Except.bind_eq_ok h
    refine ⟨s, hs, strcpy_ne_undefined.1 ?_⟩
    rw [hname]
    show Verdict.done ≠ .undefined
    decide
  · rintro ⟨s, rfl, hlt⟩
    exact ⟨_, dif_pos hlt⟩

/-- **A turn stays inside the table exactly when its entry fits.** -/
theorem Layout.turn_ne_undefined {L : Layout} {json : JsonValue D} {i : Nat} :
    L.turn json i ≠ .undefined ↔ L.Fits json i := by
  unfold Layout.turn
  simp only [Verdict.andThen_ne_undefined, verdictE_eq_done, foldr_andThen_eq_done,
    verdictE_bind_ne_undefined (L.string_ne_undefined json i), strcpy_ne_undefined]
  constructor
  · rintro ⟨-, h⟩
    have hslot : (∃ x, L.int json i L.first = .ok x) → i < L.slots := fun hfirst => by
      by_contra hlt
      exact (h hfirst).1 (if_neg hlt)
    exact ⟨hslot, fun hfirst hints => ((h hfirst).2 (if_pos (hslot hfirst))).2 hints |>.1⟩
  · intro h
    refine ⟨L.int_ne_undefined json i _, fun hfirst => ⟨?_, fun _ => ⟨?_, fun hints => ?_⟩⟩⟩
    · rw [if_pos (h.slot hfirst)]
      decide
    · exact foldr_andThen_ne_undefined (fun key => L.int_ne_undefined json i key) _
    · refine ⟨h.name hfirst hints, fun _ => ⟨?_, fun _ => ?_⟩⟩
      · exact foldr_andThen_ne_undefined (fun key => L.bool_ne_undefined json i key) _
      · exact foldr_andThen_ne_undefined (fun key => L.int_ne_undefined json i key) _

/-- A turn returns when its entry fits and has every field. -/
theorem Layout.turn_eq_done {L : Layout} {json : JsonValue D} {i : Nat} :
    L.turn json i = .done ↔ L.Fits json i ∧ L.Complete json i := by
  unfold Layout.turn
  simp only [Verdict.andThen_eq_done, verdictE_eq_done, foldr_andThen_eq_done, strcpy_bind_eq_ok]
  constructor
  · rintro ⟨hfirst, hslot, hints, ⟨s, hs, hlt⟩, hbools, hlast⟩
    refine ⟨⟨fun _ => ?_, fun _ _ s' hs' => ?_⟩, ⟨hfirst, hints, ⟨s, hs⟩, hbools, hlast⟩⟩
    · by_contra hlt
      rw [if_neg hlt] at hslot
      cases hslot
    · rw [hs] at hs'
      cases hs'
      exact hlt
  · rintro ⟨hfits, h⟩
    obtain ⟨s, hs⟩ := h.name
    exact ⟨h.first, if_pos (hfits.slot h.first), h.ints, ⟨s, hs, hfits.name h.first h.ints s hs⟩, h.bools, h.lastInts⟩

/-! ## The turns and the loops -/

theorem verdictE_arraySlot (bound i : Nat) :
    verdictE (arraySlot bound i) = if i < bound then .done else .undefined := by
  unfold arraySlot
  by_cases h : i < bound
  · rw [if_pos h, if_pos ⟨by omega, Int.ofNat_lt.2 h⟩]
    rfl
  · rw [if_neg h, if_neg (fun hlt => h (Int.ofNat_lt.1 hlt.2))]
    rfl

theorem verdict_readTopic (json : JsonValue D) (i : Nat) (s : Registry D) :
    verdict (readTopic json i s) = topicLayout.turn json i := by
  have hturn : topicLayout.turn json i = (verdictE (topicLayout.int json i "topic_id")).andThen
      ((verdictE (topicSlot i)).andThen ((verdictE (topicLayout.string json i >>= strcpy)).andThen .done)) := by
    rw [topicSlot, verdictE_arraySlot]
    rfl
  rw [hturn]
  refine verdict_liftE_bind fun _ _ => verdict_liftE_bind fun j hj => ?_
  obtain ⟨hint, -⟩ := arraySlot_eq_ok hj
  obtain rfl : i = j := by omega
  exact (verdict_modifyTopics_bind _ _ _).trans (verdict_liftE_bind fun _ _ => rfl)

theorem verdict_readNode (json : JsonValue D) (i : Nat) (s : Registry D) :
    verdict (readNode json i s) = nodeLayout.turn json i := by
  have hturn : nodeLayout.turn json i = (verdictE (nodeLayout.int json i "node_id")).andThen
      ((verdictE (nodeSlot i)).andThen (((verdictE (nodeLayout.int json i "pid")).andThen
        ((verdictE (nodeLayout.int json i "pub_topic_count")).andThen
          ((verdictE (nodeLayout.int json i "sub_topic_count")).andThen .done))).andThen
            ((verdictE (nodeLayout.string json i >>= strcpy)).andThen
              (((verdictE (nodeLayout.bool json i "is_alive")).andThen .done).andThen
                ((verdictE (nodeLayout.int json i "last_heartbeat")).andThen .done))))) := by
    rw [nodeSlot, verdictE_arraySlot]
    rfl
  rw [hturn]
  simp only [Verdict.andThen_assoc, Verdict.done_andThen]
  refine verdict_liftE_bind fun _ _ => verdict_liftE_bind fun _ _ => ?_
  refine (verdict_modifyNodes_bind _ _ _).trans (verdict_liftE_bind fun _ _ => ?_)
  refine (verdict_modifyNodes_bind _ _ _).trans (verdict_liftE_bind fun _ _ => ?_)
  refine (verdict_modifyNodes_bind _ _ _).trans (verdict_liftE_bind fun _ _ => ?_)
  refine (verdict_modifyNodes_bind _ _ _).trans (verdict_liftE_bind fun _ _ => ?_)
  refine (verdict_modifyNodes_bind _ _ _).trans (verdict_liftE_bind fun _ _ => ?_)
  exact (verdict_modifyNodes_bind _ _ _).trans (verdict_liftE_bind fun _ _ => rfl)

/-- **How a loop over the entries ends.** -/
theorem verdict_loop {turn : Nat → Op D Unit} {loop : Nat → Nat → Op D Unit} {v : Nat → Verdict}
    (hzero : ∀ i, loop i 0 = pure ()) (hsucc : ∀ i n, loop i (n + 1) = turn i >>= fun _ => loop (i + 1) n)
    (hturn : ∀ i s, verdict (turn i s) = v i) : ∀ i n s, verdict (loop i n s) = loopVerdict v i n
  | i, 0, s => by
    rw [hzero]
    rfl
  | i, n + 1, s => by
    rw [hsucc, loopVerdict, ← hturn i s]
    cases hx : turn i s with
    | ok u s' =>
      rw [Op.bind_ok hx]
      exact verdict_loop hzero hsucc hturn (i + 1) n s'
    | error e s' =>
      rw [Op.bind_error hx]
      cases e <;> rfl

theorem verdict_readTopicsFrom (json : JsonValue D) (i n : Nat) (s : Registry D) :
    verdict (readTopicsFrom json i n s) = loopVerdict (topicLayout.turn json) i n :=
  verdict_loop (fun _ => rfl) (fun _ _ => rfl) (verdict_readTopic json) i n s

theorem verdict_readNodesFrom (json : JsonValue D) (i n : Nat) (s : Registry D) :
    verdict (readNodesFrom json i n s) = loopVerdict (nodeLayout.turn json) i n :=
  verdict_loop (fun _ => rfl) (fun _ _ => rfl) (verdict_readNode json) i n s

namespace Layout

variable {L : Layout} {json : JsonValue D} {n : Nat}

/-- An entry that fits and is behind complete ones is got to. -/
theorem AllFit.done (h : L.AllFit json n) {i : Nat} (hi : i ≤ n) (hbefore : ∀ j, j < i → L.Complete json j) :
    ∀ j, j < i → L.turn json j = .done := fun j hj =>
  turn_eq_done.2 ⟨h j (by omega) (fun k hk => hbefore k (by omega)), hbefore j hj⟩

/-- **The loop stays inside the table exactly when every entry it gets to fits.** -/
theorem allFit_iff : loopVerdict (L.turn json) 0 n ≠ .undefined ↔ L.AllFit json n := by
  rw [loopVerdict_ne_undefined]
  simp only [Nat.zero_add, turn_ne_undefined]
  constructor
  · intro h i
    induction i using Nat.strong_induction_on with
    | _ i ih =>
      intro hi hbefore
      exact h i hi (fun j hj => turn_eq_done.2
        ⟨ih j hj (by omega) (fun k hk => hbefore k (by omega)), hbefore j hj⟩)
  · exact fun h i hi hbefore => h i hi (fun j hj => (turn_eq_done.1 (hbefore j hj)).2)

theorem loop_done_iff (h : L.AllFit json n) :
    loopVerdict (L.turn json) 0 n = .done ↔ ∀ i, i < n → L.Complete json i := by
  rw [loopVerdict_eq_done]
  simp only [Nat.zero_add]
  exact ⟨fun hd i hi => (turn_eq_done.1 (hd i hi)).2, fun hc => h.done (Nat.le_refl n) hc⟩

/-- A table that is loaded to its end has a slot for every entry. -/
theorem AllFit.le (h : L.AllFit json n) (hc : ∀ i, i < n → L.Complete json i) : n ≤ L.slots := by
  by_contra hlt
  have hlast := h L.slots (by omega) (fun j hj => hc j (by omega))
  have := hlast.slot (hc L.slots (by omega)).first
  omega

end Layout

/-! ## What a turn leaves alone -/

/-- The slots behind the array are as they were. -/
def TopicsInfo.SameBehind (t t' : TopicsInfo) : Prop := ∀ j, MAX_TOPICS_PER_NODE ≤ j → t'.topics j = t.topics j
def NodesInfo.SameBehind (n n' : NodesInfo) : Prop := ∀ j, MAX_NODE_COUNT ≤ j → n'.nodes j = n.nodes j

theorem TopicsInfo.SameBehind.set {t t' : TopicsInfo} (h : t.SameBehind t') {i : Nat} (hi : i < MAX_TOPICS_PER_NODE)
    (f : TopicInfo → TopicInfo) : t.SameBehind (t'.set i f) := fun j hj => by
  rw [show (t'.set i f).topics j = t'.topics j from Function.update_of_ne (by omega) _ _]
  exact h j hj

theorem NodesInfo.SameBehind.set {n n' : NodesInfo} (h : n.SameBehind n') {i : Nat} (hi : i < MAX_NODE_COUNT)
    (f : NodeInfo → NodeInfo) : n.SameBehind (n'.set i f) := fun j hj => by
  rw [show (n'.set i f).nodes j = n'.nodes j from Function.update_of_ne (by omega) _ _]
  exact h j hj

/-- What holds before a call holds behind it, whether it returns or not. -/
def Preserves {α : Type} (I : Registry D → Prop) (x : Op D α) : Prop := ∀ s, I s → I (finalState (x s))

section Preserves

variable {I : Registry D → Prop} {α β : Type}

theorem Preserves.liftE_bind {x : Except Abort α} {f : α → Op D β} (hf : ∀ a, x = .ok a → Preserves I (f a)) :
    Preserves I (liftE x >>= f) := by
  intro s hs
  cases hx : x with
  | ok a =>
    rw [Op.bind_ok (liftE_ok rfl s)]
    exact hf a hx s hs
  | error e =>
    rw [Op.bind_error (liftE_error rfl s)]
    exact hs

theorem Preserves.bind {x : Op D α} {f : α → Op D β} (hx : Preserves I x) (hf : ∀ a, Preserves I (f a)) :
    Preserves I (x >>= f) := by
  intro s hs
  have hs' := hx s hs
  cases h : x s with
  | ok a s' =>
    rw [h] at hs'
    rw [Op.bind_ok h]
    exact hf a s' hs'
  | error e s' =>
    rw [h] at hs'
    rw [Op.bind_error h]
    exact hs'

theorem Preserves.loop {turn : Nat → Op D Unit} {loop : Nat → Nat → Op D Unit} (hzero : ∀ i, loop i 0 = pure ())
    (hsucc : ∀ i n, loop i (n + 1) = turn i >>= fun _ => loop (i + 1) n) (hturn : ∀ i, Preserves I (turn i)) :
    ∀ i n, Preserves I (loop i n)
  | i, 0 => by
    rw [hzero]
    exact fun _ h => h
  | i, n + 1 => by
    rw [hsucc]
    exact (hturn i).bind fun _ => Preserves.loop hzero hsucc hturn (i + 1) n

end Preserves

/-- What the loops keep: the counts, and what is behind the arrays. -/
def TopicsKept (t : TopicsInfo) (c : Int32) (s : Registry D) : Prop :=
  s.mgr.topics_.topics_count = c ∧ t.SameBehind s.mgr.topics_

def NodesKept (n : NodesInfo) (c a : Int32) (s : Registry D) : Prop :=
  s.mgr.nodes_.nodes_count = c ∧ s.mgr.nodes_.alive_node_count = a ∧ n.SameBehind s.mgr.nodes_

theorem preserves_setTopic {t : TopicsInfo} {c : Int32} {i : Nat} (hi : i < MAX_TOPICS_PER_NODE)
    (f : TopicInfo → TopicInfo) : Preserves (D := D) (TopicsKept t c) (modifyTopics (TopicsInfo.set i f)) :=
  fun _ h => ⟨h.1, h.2.set hi f⟩

theorem preserves_setNode {n : NodesInfo} {c a : Int32} {i : Nat} (hi : i < MAX_NODE_COUNT)
    (f : NodeInfo → NodeInfo) : Preserves (D := D) (NodesKept n c a) (modifyNodes (NodesInfo.set i f)) :=
  fun _ h => ⟨h.1, h.2.1, h.2.2.set hi f⟩

theorem preserves_readTopic (t : TopicsInfo) (c : Int32) (json : JsonValue D) (i : Nat) :
    Preserves (TopicsKept t c) (readTopic json i) := by
  refine .liftE_bind fun _ _ => .liftE_bind fun j hj => ?_
  obtain ⟨-, hlt⟩ := arraySlot_eq_ok hj
  exact (preserves_setTopic hlt _).bind fun _ => .liftE_bind fun _ _ => preserves_setTopic hlt _

theorem preserves_readNode (n : NodesInfo) (c a : Int32) (json : JsonValue D) (i : Nat) :
    Preserves (NodesKept n c a) (readNode json i) := by
  refine .liftE_bind fun _ _ => .liftE_bind fun j hj => ?_
  obtain ⟨-, hlt⟩ := arraySlot_eq_ok hj
  refine (preserves_setNode hlt _).bind fun _ => .liftE_bind fun _ _ => ?_
  refine (preserves_setNode hlt _).bind fun _ => .liftE_bind fun _ _ => ?_
  refine (preserves_setNode hlt _).bind fun _ => .liftE_bind fun _ _ => ?_
  refine (preserves_setNode hlt _).bind fun _ => .liftE_bind fun _ _ => ?_
  refine (preserves_setNode hlt _).bind fun _ => .liftE_bind fun _ _ => ?_
  exact (preserves_setNode hlt _).bind fun _ => .liftE_bind fun _ _ => preserves_setNode hlt _

/-! ## The readers -/

section Readers

variable [DoubleText D]

omit [DoubleText D] in
/-- A NUL inside each section. -/
structure Region.NulInside (r : Region) : Prop where
  topics : 0 ∈ ByteMem.read r.mem 0 TOPIC_INFO_SIZE
  nodes : 0 ∈ ByteMem.read r.mem TOPIC_INFO_SIZE NODE_INFO_SIZE

/-- **A safe read of the topics**: it returns, so that it has left no array and copied no name that is too long, which
are undefined; and the count is in range. -/
structure TopicsSafe (s : Registry D) : Prop where
  returns : answer (readTopicsInfo_ s) = some ()
  behind : s.mgr.topics_.SameBehind (finalState (readTopicsInfo_ s)).mgr.topics_
  nonneg : 0 ≤ (finalState (readTopicsInfo_ s)).mgr.topics_.topics_count.toInt
  le : (finalState (readTopicsInfo_ s)).mgr.topics_.topics_count.toInt ≤ MAX_TOPICS_PER_NODE

/-- **A safe read of the nodes.** -/
structure NodesSafe (s : Registry D) : Prop where
  returns : answer (readNodesInfo_ s) = some ()
  behind : s.mgr.nodes_.SameBehind (finalState (readNodesInfo_ s)).mgr.nodes_
  nonneg : 0 ≤ (finalState (readNodesInfo_ s)).mgr.nodes_.nodes_count.toInt
  le : (finalState (readNodesInfo_ s)).mgr.nodes_.nodes_count.toInt ≤ MAX_NODE_COUNT
  alive_nonneg : 0 ≤ (finalState (readNodesInfo_ s)).mgr.nodes_.alive_node_count.toInt
  alive_le : (finalState (readNodesInfo_ s)).mgr.nodes_.alive_node_count.toInt ≤ MAX_NODE_COUNT

/-- **The topics' text does not lead out of the table**, if it is one and has a count. -/
def Region.TopicsFit (D : Type) [DoubleText D] (r : Region) : Prop :=
  ∀ (w : List UInt8) (json : JsonValue D) (c : Int32), topicSection r = .ok w → ¬ w.all isSpace = true →
    deserialize w = .ok json → (json.atKey (utf8 "topic_count") >>= JsonValue.asInt) = .ok c →
    0 ≤ c.toInt ∧ topicLayout.AllFit json c.toInt.toNat

/-- **The nodes' text does not lead out of the table**, if it is one and has both counts. -/
def Region.NodesFit (D : Type) [DoubleText D] (r : Region) : Prop :=
  ∀ (w : List UInt8) (json : JsonValue D) (c a : Int32), nodeSection r = .ok w → ¬ w.all isSpace = true →
    deserialize w = .ok json → (json.atKey (utf8 "node_count") >>= JsonValue.asInt) = .ok c →
    (json.atKey (utf8 "alive_node_count") >>= JsonValue.asInt) = .ok a →
    0 ≤ c.toInt ∧ nodeLayout.AllFit json c.toInt.toNat ∧
      ((∀ i, i < c.toInt.toNat → nodeLayout.Complete json i) → 0 ≤ a.toInt ∧ a.toInt ≤ MAX_NODE_COUNT)

omit [DoubleText D] in
theorem section_cases {r : Region} {size off : Nat} (h : 0 ∈ ByteMem.read r.mem off size) :
    (∃ w, (r.read size off >>= stringOf) = .ok w ∧ ∃ data, r.read size off = .ok data ∧ stringOf data = .ok w) ∨
      ∃ e, (r.read size off >>= stringOf) = .error (.throws e) ∧ r.read size off = .error (.throws e) := by
  unfold Region.read
  split
  · exact .inr ⟨_, rfl, rfl⟩
  · have hstr : stringOf (ByteMem.read r.mem off size) = .ok (ByteMem.cstr (ByteMem.read r.mem off size)) := if_pos h
    exact .inl ⟨_, hstr, _, rfl, hstr⟩

omit [DoubleText D] in
theorem throws_or_ok {α : Type} {x : Except Abort α} (h : verdictE x ≠ .undefined) :
    (∃ a, x = .ok a) ∨ ∃ e, x = .error (.throws e) := by
  cases x with
  | ok a => exact .inl ⟨a, rfl⟩
  | error e =>
    cases e with
    | throws e => exact .inr ⟨e, rfl⟩
    | undefined => exact absurd rfl h
    | outOfFuel => exact absurd rfl h

omit [DoubleText D] in
theorem count_throws_or_ok (json : JsonValue D) (key : List UInt8) :
    (∃ c, (json.atKey key >>= JsonValue.asInt) = .ok c) ∨
      ∃ e, (json.atKey key >>= JsonValue.asInt) = .error (.throws e) :=
  throws_or_ok ((verdictE_bind_ne_undefined (atKey_ne_undefined _ _)).2 fun v _ => asInt_ne_undefined v)

theorem deserialize_throws_or_ok (w : List UInt8) : (∃ json : JsonValue D, deserialize w = .ok json) ∨
    ∃ e, (deserialize w : Except Abort (JsonValue D)) = .error (.throws e) := by
  rcases (deserialize_decides (D := D) w).2 with ⟨json, h⟩ | h
  · exact .inl ⟨json, deserialize_of_text h⟩
  · exact .inr h

/-- **What `readTopicsInfo_` makes of its section**: nothing, or a loop over the entries of a text. -/
theorem parseTopicsInfo_cases {s : Registry D} (h : s.shm.NulInside) :
    (s.shm.TopicsFit D ∧ ((∃ e, parseTopicsInfo s = .error (.throws e) s) ∨ parseTopicsInfo s = clearTopicCount s)) ∨
      ∃ (json : JsonValue D) (c : Int32),
        (s.shm.TopicsFit D ↔ 0 ≤ c.toInt ∧ topicLayout.AllFit json c.toInt.toNat) ∧
          parseTopicsInfo s =
            readTopicsFrom json 0 c.toInt.toNat (s.mapTopics (fun t => { t with topics_count := c })) := by
  unfold parseTopicsInfo Region.TopicsFit
  rw [Op.get_bind]
  rcases section_cases h.topics with ⟨w, hsec, data, hread, hstr⟩ | ⟨e, hsec, hread⟩
  · rw [Op.bind_ok (liftE_ok hread _), Op.bind_ok (liftE_ok hstr _)]
    by_cases hblank : w.all isSpace = true
    · rw [if_pos hblank]
      refine .inl ⟨fun w' json c hw' hno => ?_, .inr rfl⟩
      cases hsec.symm.trans hw'
      exact absurd hblank hno
    rw [if_neg hblank]
    rcases deserialize_throws_or_ok (D := D) w with ⟨json, hjson⟩ | ⟨e, hjson⟩
    · rw [Op.bind_ok (liftE_ok hjson _)]
      rcases count_throws_or_ok json (utf8 "topic_count") with ⟨c, hc⟩ | ⟨e, hc⟩
      · rw [Op.bind_ok (liftE_ok hc _), Op.bind_ok (modifyTopics_eq _ _)]
        refine .inr ⟨json, c, ⟨fun hfit => hfit w json c hsec hblank hjson hc, ?_⟩, rfl⟩
        intro hfit w' json' c' hw' _ hj' hc'
        cases hsec.symm.trans hw'
        cases hjson.symm.trans hj'
        cases hc.symm.trans hc'
        exact hfit
      · rw [Op.bind_error (liftE_error hc _)]
        refine .inl ⟨fun w' json' c' hw' _ hj' hc' => ?_, .inl ⟨e, rfl⟩⟩
        cases hsec.symm.trans hw'
        cases hjson.symm.trans hj'
        cases hc.symm.trans hc'
    · rw [Op.bind_error (liftE_error hjson _)]
      refine .inl ⟨fun w' json' c' hw' _ hj' _ => ?_, .inl ⟨e, rfl⟩⟩
      cases hsec.symm.trans hw'
      cases hjson.symm.trans hj'
  · rw [Op.bind_error (liftE_error hread _)]
    refine .inl ⟨fun w' json' c' hw' _ _ _ => ?_, .inl ⟨e, rfl⟩⟩
    cases hsec.symm.trans hw'

/-- **What `readNodesInfo_` makes of its section.**  The two counts are stored as they are read, so a text with only the
first of them has left it in the table before it throws. -/
theorem parseNodesInfo_cases {s : Registry D} (h : s.shm.NulInside) :
    (s.shm.NodesFit D ∧ ((∃ e s', parseNodesInfo s = .error (.throws e) s' ∧ s'.mgr.nodes_.nodes = s.mgr.nodes_.nodes) ∨
        parseNodesInfo s = clearNodeCounts s)) ∨
      ∃ (json : JsonValue D) (c a : Int32),
        (s.shm.NodesFit D ↔ 0 ≤ c.toInt ∧ nodeLayout.AllFit json c.toInt.toNat ∧
          ((∀ i, i < c.toInt.toNat → nodeLayout.Complete json i) → 0 ≤ a.toInt ∧ a.toInt ≤ MAX_NODE_COUNT)) ∧
          parseNodesInfo s = readNodesFrom json 0 c.toInt.toNat
            (s.mapNodes (fun n => { n with nodes_count := c, alive_node_count := a })) := by
  unfold parseNodesInfo Region.NodesFit
  rw [Op.get_bind]
  rcases section_cases h.nodes with ⟨w, hsec, data, hread, hstr⟩ | ⟨e, hsec, hread⟩
  · rw [Op.bind_ok (liftE_ok hread _), Op.bind_ok (liftE_ok hstr _)]
    by_cases hblank : w.all isSpace = true
    · rw [if_pos hblank]
      refine .inl ⟨fun w' json c a hw' hno => ?_, .inr rfl⟩
      cases hsec.symm.trans hw'
      exact absurd hblank hno
    rw [if_neg hblank]
    rcases deserialize_throws_or_ok (D := D) w with ⟨json, hjson⟩ | ⟨e, hjson⟩
    · rw [Op.bind_ok (liftE_ok hjson _)]
      rcases count_throws_or_ok json (utf8 "node_count") with ⟨c, hc⟩ | ⟨e, hc⟩
      · rw [Op.bind_ok (liftE_ok hc _), Op.bind_ok (modifyNodes_eq _ _)]
        rcases count_throws_or_ok json (utf8 "alive_node_count") with ⟨a, ha⟩ | ⟨e, ha⟩
        · rw [Op.bind_ok (liftE_ok ha _), Op.bind_ok (modifyNodes_eq _ _)]
          refine .inr ⟨json, c, a, ⟨fun hfit => hfit w json c a hsec hblank hjson hc ha, ?_⟩, rfl⟩
          intro hfit w' json' c' a' hw' _ hj' hc' ha'
          cases hsec.symm.trans hw'
          cases hjson.symm.trans hj'
          cases hc.symm.trans hc'
          cases ha.symm.trans ha'
          exact hfit
        · rw [Op.bind_error (liftE_error ha _)]
          refine .inl ⟨fun w' json' c' a' hw' _ hj' _ ha' => ?_, .inl ⟨e, _, rfl, rfl⟩⟩
          cases hsec.symm.trans hw'
          cases hjson.symm.trans hj'
          cases ha.symm.trans ha'
      · rw [Op.bind_error (liftE_error hc _)]
        refine .inl ⟨fun w' json' c' a' hw' _ hj' hc' _ => ?_, .inl ⟨e, _, rfl, rfl⟩⟩
        cases hsec.symm.trans hw'
        cases hjson.symm.trans hj'
        cases hc.symm.trans hc'
    · rw [Op.bind_error (liftE_error hjson _)]
      refine .inl ⟨fun w' json' c' a' hw' _ hj' _ _ => ?_, .inl ⟨e, _, rfl, rfl⟩⟩
      cases hsec.symm.trans hw'
      cases hjson.symm.trans hj'
  · rw [Op.bind_error (liftE_error hread _)]
    refine .inl ⟨fun w' json' c' a' hw' _ _ _ _ => ?_, .inl ⟨e, _, rfl, rfl⟩⟩
    cases hsec.symm.trans hw'

theorem topicsSafe_of_eq {s s' : Registry D} (h : readTopicsInfo_ s = .ok () s') :
    TopicsSafe s ↔ s.mgr.topics_.SameBehind s'.mgr.topics_ ∧ 0 ≤ s'.mgr.topics_.topics_count.toInt ∧
      s'.mgr.topics_.topics_count.toInt ≤ MAX_TOPICS_PER_NODE := by
  have hfinal : finalState (readTopicsInfo_ s) = s' := by rw [h]; rfl
  constructor
  · intro hs
    rw [← hfinal]
    exact ⟨hs.behind, hs.nonneg, hs.le⟩
  · rw [← hfinal]
    rintro ⟨hbehind, hnonneg, hle⟩
    exact ⟨by rw [h]; rfl, hbehind, hnonneg, hle⟩

theorem nodesSafe_of_eq {s s' : Registry D} (h : readNodesInfo_ s = .ok () s') :
    NodesSafe s ↔ s.mgr.nodes_.SameBehind s'.mgr.nodes_ ∧ 0 ≤ s'.mgr.nodes_.nodes_count.toInt ∧
      s'.mgr.nodes_.nodes_count.toInt ≤ MAX_NODE_COUNT ∧ 0 ≤ s'.mgr.nodes_.alive_node_count.toInt ∧
      s'.mgr.nodes_.alive_node_count.toInt ≤ MAX_NODE_COUNT := by
  have hfinal : finalState (readNodesInfo_ s) = s' := by rw [h]; rfl
  constructor
  · intro hs
    rw [← hfinal]
    exact ⟨hs.behind, hs.nonneg, hs.le, hs.alive_nonneg, hs.alive_le⟩
  · rw [← hfinal]
    rintro ⟨hbehind, hnonneg, hle, halive, halive_le⟩
    exact ⟨by rw [h]; rfl, hbehind, hnonneg, hle, halive, halive_le⟩

/-- A reader that starts over has an empty table. -/
theorem TopicsSafe.of_clear {s s' : Registry D}
    (h : readTopicsInfo_ s = .ok () (s'.mapTopics (fun t => { t with topics_count := 0 })))
    (hb : s.mgr.topics_.SameBehind s'.mgr.topics_) : TopicsSafe s :=
  (topicsSafe_of_eq h).2 ⟨hb, Int.le_refl 0, Int.natCast_nonneg _⟩

theorem NodesSafe.of_clear {s s' : Registry D} (h : readNodesInfo_ s = .ok () (s'.mapNodes NodesInfo.clear))
    (hb : s.mgr.nodes_.SameBehind s'.mgr.nodes_) : NodesSafe s :=
  (nodesSafe_of_eq h).2 ⟨hb, Int.le_refl 0, Int.natCast_nonneg _, Int.le_refl 0, Int.natCast_nonneg _⟩

omit [DoubleText D] in
/-- A call that ends in an undefined way is not caught. -/
theorem answer_catchStd_of_undefined {x handler : Op D Unit} {s : Registry D} (h : verdict (x s) = .undefined) :
    answer (catchStd x handler s) = none := by
  unfold catchStd
  cases hx : x s with
  | ok u s' =>
    rw [hx] at h
    cases h
  | error e s' =>
    rw [hx] at h
    cases e with
    | throws e => cases h
    | undefined => rfl
    | outOfFuel => rfl

omit [DoubleText D] in
/-- **A loop over the entries that is not left**: it returned and every entry was complete, or it threw; and it is left
exactly when an entry does not fit. -/
theorem Layout.loop_cases {L : Layout} {json : JsonValue D} {n : Nat} {r : EStateM.Result Abort (Registry D) Unit}
    (hv : verdict r = loopVerdict (L.turn json) 0 n) :
    (L.AllFit json n ∧ (∀ i, i < n → L.Complete json i) ∧ n ≤ L.slots ∧ r = .ok () (finalState r)) ∨
      (L.AllFit json n ∧ 0 < n ∧ (¬ ∀ i, i < n → L.Complete json i) ∧ ∃ e, r = .error (.throws e) (finalState r)) ∨
        ¬ L.AllFit json n ∧ verdict r = .undefined := by
  by_cases hall : L.AllFit json n
  · cases r with
    | ok u s' =>
      have hdone := (loop_done_iff hall).1 hv.symm
      exact .inl ⟨hall, hdone, hall.le hdone, rfl⟩
    | error e s' =>
      cases e with
      | throws e =>
        refine .inr (.inl ⟨hall, ?_, fun hc => ?_, e, rfl⟩)
        · -- without a turn there is none that throws
          by_contra hpos
          rw [show n = 0 by omega] at hv
          cases hv
        · rw [(loop_done_iff hall).2 hc] at hv
          cases hv
      | undefined => exact absurd hv.symm (allFit_iff.2 hall)
      | outOfFuel => exact absurd hv.symm (allFit_iff.2 hall)
  · refine .inr (.inr ⟨hall, ?_⟩)
    rw [hv]
    by_contra hne
    exact hall (allFit_iff.1 hne)

theorem topicsSafe_iff {s : Registry D} (h : s.shm.NulInside) : TopicsSafe s ↔ s.shm.TopicsFit D := by
  rcases parseTopicsInfo_cases h with ⟨hfit, ⟨e, hp⟩ | hp⟩ | ⟨json, c, hfit, hp⟩
  · exact iff_of_true (.of_clear (catchStd_throws hp) fun _ _ => rfl) hfit
  · have hread : readTopicsInfo_ s = .ok () (s.mapTopics (fun t => { t with topics_count := 0 })) := catchStd_ok hp
    exact iff_of_true (.of_clear hread fun _ _ => rfl) hfit
  · rw [hfit]
    have hkept : TopicsKept s.mgr.topics_ c (finalState (parseTopicsInfo s)) := by
      rw [hp]
      exact Preserves.loop (fun _ => rfl) (fun _ _ => rfl) (preserves_readTopic _ c json) 0 _ _ ⟨rfl, fun _ _ => rfl⟩
    have hv : verdict (parseTopicsInfo s) = loopVerdict (topicLayout.turn json) 0 c.toInt.toNat := by
      rw [hp]
      exact verdict_readTopicsFrom json 0 _ _
    rcases Layout.loop_cases hv with ⟨hall, -, hle, hpr⟩ | ⟨hall, hpos, -, e, hpr⟩ | ⟨hall, hu⟩
    · have hmax : c.toInt.toNat ≤ MAX_TOPICS_PER_NODE := hle
      rw [topicsSafe_of_eq (catchStd_ok hpr), hkept.1]
      constructor
      · exact fun hsafe => ⟨hsafe.2.1, hall⟩
      · exact fun hnonneg => ⟨hkept.2, hnonneg.1, by omega⟩
    · exact iff_of_true (.of_clear (catchStd_throws hpr) hkept.2) ⟨by omega, hall⟩
    · refine iff_of_false (fun hsafe => ?_) (fun hno => hall hno.2)
      have hret := hsafe.returns
      rw [show answer (readTopicsInfo_ s) = none from answer_catchStd_of_undefined hu] at hret
      cases hret

theorem nodesSafe_iff {s : Registry D} (h : s.shm.NulInside) : NodesSafe s ↔ s.shm.NodesFit D := by
  rcases parseNodesInfo_cases h with ⟨hfit, ⟨e, s', hp, hnodes⟩ | hp⟩ | ⟨json, c, a, hfit, hp⟩
  · refine iff_of_true (.of_clear (catchStd_throws hp) fun j _ => ?_) hfit
    rw [hnodes]
  · have hread : readNodesInfo_ s = .ok () (s.mapNodes NodesInfo.clear) := catchStd_ok hp
    exact iff_of_true (.of_clear hread fun _ _ => rfl) hfit
  · rw [hfit]
    have hkept : NodesKept s.mgr.nodes_ c a (finalState (parseNodesInfo s)) := by
      rw [hp]
      exact Preserves.loop (fun _ => rfl) (fun _ _ => rfl) (preserves_readNode _ c a json) 0 _ _
        ⟨rfl, rfl, fun _ _ => rfl⟩
    have hv : verdict (parseNodesInfo s) = loopVerdict (nodeLayout.turn json) 0 c.toInt.toNat := by
      rw [hp]
      exact verdict_readNodesFrom json 0 _ _
    rcases Layout.loop_cases hv with ⟨hall, hcomplete, hle, hpr⟩ | ⟨hall, hpos, hno, e, hpr⟩ | ⟨hall, hu⟩
    · have hmax : c.toInt.toNat ≤ MAX_NODE_COUNT := hle
      rw [nodesSafe_of_eq (catchStd_ok hpr), hkept.1, hkept.2.1]
      constructor
      · exact fun hsafe => ⟨hsafe.2.1, hall, fun _ => hsafe.2.2.2⟩
      · exact fun hok => ⟨hkept.2.2, hok.1, by omega, hok.2.2 hcomplete⟩
    · exact iff_of_true (.of_clear (catchStd_throws hpr) hkept.2.2) ⟨by omega, hall, fun hc => absurd hc hno⟩
    · refine iff_of_false (fun hsafe => ?_) (fun hok => hall hok.2.1)
      have hret := hsafe.returns
      rw [show answer (readNodesInfo_ s) = none from answer_catchStd_of_undefined hu] at hret
      cases hret

/-- **Reading the registry is safe exactly when neither text leads out of its table**, whatever bytes there are and
whatever the tables held before. -/
theorem read_safe_iff {s : Registry D} (h : s.shm.NulInside) :
    (TopicsSafe s ↔ s.shm.TopicsFit D) ∧ (NodesSafe s ↔ s.shm.NodesFit D) :=
  ⟨topicsSafe_iff h, nodesSafe_iff h⟩

end Readers

/-- A region that was just created. -/
theorem read_safe_of_fresh : (Registry.fresh 0 : Registry (List UInt8)).shm.NulInside ∧
    TopicsSafe (Registry.fresh 0 : Registry (List UInt8)) ∧ NodesSafe (Registry.fresh 0 : Registry (List UInt8)) := by
  have hnul : (Registry.fresh 0 : Registry (List UInt8)).shm.NulInside :=
    ⟨List.mem_map.2 ⟨0, List.mem_range.2 (by decide), rfl⟩, List.mem_map.2 ⟨0, List.mem_range.2 (by decide), rfl⟩⟩
  have htopics : topicSection (Registry.fresh 0 : Registry (List UInt8)).shm = .ok (ByteMem.read ByteMem.zero 0 0) :=
    topicSection_of_holds (ByteMem.Filled.zero _ _ _) (by decide) (by decide)
  have hnodes : nodeSection (Registry.fresh 0 : Registry (List UInt8)).shm =
      .ok (ByteMem.read ByteMem.zero TOPIC_INFO_SIZE 0) :=
    nodeSection_of_holds (ByteMem.Filled.zero _ _ _) (by decide) (by decide)
  obtain ⟨ht, hn⟩ := read_safe_iff hnul
  refine ⟨hnul, ht.2 fun w json c hw hno => ?_, hn.2 fun w json c a hw hno => ?_⟩
  · cases htopics.symm.trans hw
    exact absurd rfl hno
  · cases hnodes.symm.trans hw
    exact absurd rfl hno

/-- One topic, with a name of 64 bytes. -/
def longName : List (List UInt8 × JsonValue (List UInt8)) :=
  [(utf8 "topic_count", .int 1), (utf8 "topics", .array [.object (OrdMap.ofList
    [(utf8 "topic_id", .int 0), (utf8 "name", .string (List.replicate MAX_NAME_LEN 97))])])]

theorem plain_longName : Plain (.object (OrdMap.ofList longName)) := by
  refine plain_object (keys_ne 0 ["topic_count", "topics"] rfl (by decide +kernel)) fun p hp => ?_
  simp only [longName, List.mem_cons, List.not_mem_nil, or_false] at hp
  rcases hp with rfl | rfl
  · exact plain_int _
  · refine plain_array fun v hv => ?_
    rw [List.mem_singleton] at hv
    subst hv
    refine plain_object (keys_ne 0 ["topic_id", "name"] rfl (by decide +kernel)) fun p hp => ?_
    simp only [List.mem_cons, List.not_mem_nil, or_false] at hp
    rcases hp with rfl | rfl
    · exact plain_int _
    · refine plain_string fun b hb => ?_
      rw [List.eq_of_mem_replicate hb]
      decide

theorem noBackspace_longName : (JsonValue.object (OrdMap.ofList longName)).NoBackspace := by
  refine noBackspace_object fun p hp =>
    ⟨fun h8 => keys_ne 8 ["topic_count", "topics"] rfl (by decide +kernel) p hp 8 h8 rfl, ?_⟩
  simp only [longName, List.mem_cons, List.not_mem_nil, or_false] at hp
  rcases hp with rfl | rfl
  · exact noBackspace_leaf nofun nofun nofun
  · refine noBackspace_array fun v hv => ?_
    rw [List.mem_singleton] at hv
    subst hv
    refine noBackspace_object fun p hp =>
      ⟨fun h8 => keys_ne 8 ["topic_id", "name"] rfl (by decide +kernel) p hp 8 h8 rfl, ?_⟩
    simp only [List.mem_cons, List.not_mem_nil, or_false] at hp
    rcases hp with rfl | rfl
    · exact noBackspace_leaf nofun nofun nofun
    · refine JsonValue.onStrings_string fun h8 => ?_
      exact absurd (List.eq_of_mem_replicate h8) (by decide)

/-- A region into which this text was written. -/
def longNameRegistry : Registry (List UInt8) :=
  (Registry.fresh 0).store (JsonValue.object (OrdMap.ofList longName)).serialize 0

theorem Region.nulInside_of_write {n : Nat} {t : List UInt8} (h : t.length < TOPIC_INFO_SIZE) :
    (⟨n, ByteMem.write ByteMem.zero 0 t⟩ : Region).NulInside := by
  have hend : ∀ i, t.length ≤ i → ByteMem.write ByteMem.zero 0 t i = 0 := fun i hi =>
    ByteMem.write_of_ge _ _ _ _ (by omega)
  refine ⟨List.mem_map.2 ⟨t.length, List.mem_range.2 h, ?_⟩, List.mem_map.2 ⟨0, List.mem_range.2 (by decide), ?_⟩⟩
  · exact hend _ (by omega)
  · exact hend _ (by omega)

/-- The name does not fit into `name_`. -/
theorem read_not_always_safe : ¬ ∀ s : Registry (List UInt8), s.shm.NulInside → TopicsSafe s ∧ NodesSafe s := by
  intro h
  have htext : TableText (JsonValue.object (OrdMap.ofList longName)).serialize :=
    ⟨serialize_ne_zero _ plain_longName, getLast?_object _⟩
  have hlen : (JsonValue.object (OrdMap.ofList longName)).serialize.length < TOPIC_INFO_SIZE := by decide +kernel
  obtain ⟨hf, hread⟩ := Holds.read_covering (ByteMem.Filled.zero 0 TOPIC_INFO_SIZE _) htext (Nat.zero_le _)
    (Nat.le_of_lt hlen)
  have hsec : topicSection longNameRegistry.shm = .ok (JsonValue.object (OrdMap.ofList longName)).serialize := by
    rw [← hread]
    exact topicSection_of_holds hf hlen (by decide)
  have hnul : longNameRegistry.shm.NulInside := Region.nulInside_of_write hlen
  have hfit := (topicsSafe_iff hnul).1 (h _ hnul).1
  have hblank : ¬ (JsonValue.object (OrdMap.ofList longName)).serialize.all isSpace = true := by
    have := not_all_isSpace (OrdMap.ofList longName) []
    rwa [List.append_nil] at this
  obtain ⟨-, hall⟩ := hfit _ _ 1 hsec hblank (deserialize_serialize plain_longName.message noBackspace_longName) rfl
  have hshort := (hall 0 (by decide) (fun j hj => absurd hj (Nat.not_lt_zero j))).name ⟨0, rfl⟩ (by simp [topicLayout])
    (List.replicate MAX_NAME_LEN 97) rfl
  exact absurd hshort (by decide +kernel)

end MiniRos2

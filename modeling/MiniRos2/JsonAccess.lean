import MiniRos2.JsonHeap
/-!
# JsonAccess — the places of a value

What the assignments and the two `operator[]` of `json.h` mean for values: `get?` and `put` at a position, `subscript`
for one `operator[]` (which may change the value it is applied to), `reach` for a chain of them.  Each keeps the
entries of every object in order (`all_put`, `all_reach`).
-/
namespace MiniRos2
namespace JsonValue

open JsonHeap (Slot Kind)

variable {D : Type}

def child? : JsonValue D → Slot → Option (JsonValue D)
  | .array xs, .index i => xs[i]?
  | .object kvs, .key k => OrdMap.find? k kvs
  | _, _ => none

/-- The value with another child, where there is one. -/
def setChild : JsonValue D → Slot → JsonValue D → JsonValue D
  | .array xs, .index i, w => .array (xs.set i w)
  | .object kvs, .key k, w => .object (OrdMap.replace k w kvs)
  | v, _, _ => v

def get? (v : JsonValue D) : List Slot → Option (JsonValue D)
  | [] => some v
  | s :: p => (v.child? s).bind (fun w => get? w p)

def put (v : JsonValue D) : List Slot → JsonValue D → JsonValue D
  | [], w => w
  | s :: p, w =>
    match v.child? s with
    | some c => v.setChild s (put c p w)
    | none => v

/-- The value after `operator[]` of it. -/
def subscript : JsonValue D → Slot → Except Exn (JsonValue D)
  | .array xs, .index i =>
    if xs.length ≤ i then .error (.outOfRange (utf8 "JsonValue: array index out of range")) else .ok (.array xs)
  | _, .index _ => .error (.domainError (utf8 "JsonValue: [] index not valid for non-array"))
  | .null, .key k => .ok (.object [(k, .null)])
  | .object kvs, .key k =>
    match OrdMap.find? k kvs with
    | some _ => .ok (.object kvs)
    | none => .ok (.object (OrdMap.insert k .null kvs))
  | _, .key _ => .error (.domainError (utf8 "JsonValue: [] key not valid for non-object"))

/-- The value after a chain of `operator[]`, with the exception that ended it. -/
def reach (v : JsonValue D) : List Slot → JsonValue D × Option Exn
  | [] => (v, none)
  | s :: p =>
    match v.subscript s with
    | .error e => (v, some e)
    | .ok v' =>
      match v'.child? s with
      | some c => (v'.setChild s (reach c p).1, (reach c p).2)
      | none => (v', none)

mutual

/-- How many strings, arrays and objects there are in a value. -/
def nodes : JsonValue D → Nat
  | .string _ => 1
  | .array xs => 1 + nodesElems xs
  | .object kvs => 1 + nodesMembers kvs
  | _ => 0

def nodesElems : List (JsonValue D) → Nat
  | [] => 0
  | v :: vs => nodes v + nodesElems vs

def nodesMembers : List (List UInt8 × JsonValue D) → Nat
  | [] => 0
  | (_, v) :: kvs => nodes v + nodesMembers kvs

end

/-- `operator[]` leaves the child it refers to where it was, or puts a null there. -/
theorem child?_subscript {v v' : JsonValue D} {s : Slot} (h : v.subscript s = .ok v') :
    v'.child? s = some ((v.child? s).getD .null) := by
  unfold subscript at h
  split at h
  · split at h
    · cases h
    · rename_i xs i hi
      cases h
      rw [child?, List.getElem?_eq_getElem (Nat.not_le.1 hi)]
      rfl
  · cases h
  · cases h
    simp [child?, OrdMap.find?]
  · rename_i kvs k
    split at h
    · rename_i w hw
      cases h
      rw [child?, hw]
      rfl
    · rename_i hw
      cases h
      rw [child?, child?, OrdMap.find?_insert _ _ _ _ inferInstance, if_pos rfl, hw]
      rfl
  · cases h

theorem reach_cons_ok {v v' c : JsonValue D} {s : Slot} {p : List Slot} (h : v.subscript s = .ok v')
    (hc : v'.child? s = some c) : v.reach (s :: p) = (v'.setChild s (c.reach p).1, (c.reach p).2) := by
  rw [reach, h]
  simp only [hc]

theorem reach_cons_error {v : JsonValue D} {s : Slot} {p : List Slot} {e : Exn} (h : v.subscript s = .error e) :
    v.reach (s :: p) = (v, some e) := by rw [reach, h]

theorem put_cons {v c w : JsonValue D} {s : Slot} {p : List Slot} (h : v.child? s = some c) :
    v.put (s :: p) w = v.setChild s (c.put p w) := by
  rw [put, h]

theorem child?_setChild : ∀ {v c w : JsonValue D} {s : Slot}, v.child? s = some c → (v.setChild s w).child? s = some w
  | .array xs, _, w, .index i, h => by
    have hlt := (List.getElem?_eq_some_iff.1 h).1
    rw [setChild, child?, List.getElem?_set_self hlt]
  | .object kvs, _, w, .key k, h => OrdMap.find?_replace_self h
  | .array _, _, _, .key _, h => by cases h
  | .object _, _, _, .index _, h => by cases h
  | .null, _, _, _, h => by cases h
  | .bool _, _, _, _, h => by cases h
  | .int _, _, _, _, h => by cases h
  | .double _, _, _, _, h => by cases h
  | .string _, _, _, _, h => by cases h

/-- **A chain that ended without an exception** ended at a value. -/
theorem get?_reach : ∀ {p : List Slot} {v : JsonValue D}, (v.reach p).2 = none → ∃ w, (v.reach p).1.get? p = some w
  | [], v, _ => ⟨v, rfl⟩
  | s :: p, v, h => by
    cases hs : v.subscript s with
    | error e =>
      rw [reach_cons_error hs] at h
      cases h
    | ok v' =>
      have hc := child?_subscript hs
      rw [reach_cons_ok hs hc] at h ⊢
      obtain ⟨w, hw⟩ := get?_reach h
      exact ⟨w, by rw [get?, child?_setChild hc]; exact hw⟩

/-- A value with something in it is an array or an object, whatever is put there. -/
theorem nodes_put_pos {s : Slot} {p : List Slot} : ∀ {v x w : JsonValue D}, v.get? (s :: p) = some x →
    0 < (v.put (s :: p) w).nodes := by
  intro v x w h
  rw [get?] at h
  cases hc : v.child? s with
  | none =>
    rw [hc] at h
    cases h
  | some c =>
    rw [put_cons hc]
    unfold child? at hc
    split at hc
    · rw [setChild, nodes]
      omega
    · rw [setChild, nodes]
      omega
    · cases hc

theorem get?_of_append : ∀ {p q : List Slot} {v x : JsonValue D}, v.get? (p ++ q) = some x →
    ∃ w, v.get? p = some w ∧ w.get? q = some x
  | [], _, v, _, h => ⟨v, rfl, h⟩
  | s :: p, q, v, x, h => by
    rw [List.cons_append, get?] at h
    cases hc : v.child? s with
    | none =>
      rw [hc] at h
      cases h
    | some c =>
      rw [hc] at h
      obtain ⟨w, hw, hx⟩ := get?_of_append h
      exact ⟨w, by rw [get?, hc]; exact hw, hx⟩

/-! ## What access keeps -/

/-- A condition that asks of an array nothing, and of an object that its keys are in order and `K`. -/
structure Structural (K : List UInt8 → Prop) (P : JsonValue D → Prop) : Prop where
  null : P .null
  array : ∀ xs, P (.array xs)
  object : ∀ kvs, P (.object kvs) ↔ OrdMap.Sorted kvs ∧ ∀ p ∈ kvs, K p.1

/-- The keys among the steps are `K`. -/
def KeysIn (K : List UInt8 → Prop) (p : List Slot) : Prop := ∀ k, Slot.key k ∈ p → K k

theorem KeysIn.tail {K : List UInt8 → Prop} {s : Slot} {p : List Slot} (h : KeysIn K (s :: p)) : KeysIn K p :=
  fun k hk => h k (List.mem_cons_of_mem _ hk)

variable {K : List UInt8 → Prop} {P : JsonValue D → Prop}

theorem all_child {v c : JsonValue D} {s : Slot} (hv : v.All P) (h : v.child? s = some c) : c.All P := by
  unfold child? at h
  split at h
  · exact allElems_iff.1 hv.2 c (List.mem_of_getElem? h)
  · exact allMembers_iff.1 hv.2 _ (OrdMap.mem_of_find? h)
  · cases h

theorem keys_replace {k : List UInt8} {w : JsonValue D} {kvs : List (List UInt8 × JsonValue D)}
    (h : ∀ p ∈ kvs, K p.1) : ∀ p ∈ OrdMap.replace k w kvs, K p.1 := by
  intro p hp
  have hmem := List.mem_map_of_mem (f := Prod.fst) hp
  rw [OrdMap.keys_replace] at hmem
  obtain ⟨q, hq, hqp⟩ := List.mem_map.1 hmem
  rw [← hqp]
  exact h q hq

theorem all_setChild (hP : Structural K P) : ∀ {v w : JsonValue D} {s : Slot}, v.All P → w.All P →
    (v.setChild s w).All P
  | .array xs, w, .index i, hv, hw => by
    refine ⟨hP.array _, allElems_iff.2 (fun x hx => ?_)⟩
    rcases List.mem_or_eq_of_mem_set hx with hx | rfl
    · exact allElems_iff.1 hv.2 x hx
    · exact hw
  | .object kvs, w, .key k, hv, hw => by
    obtain ⟨hsorted, hkeys⟩ := (hP.object _).1 hv.1
    refine ⟨(hP.object _).2 ⟨hsorted.replace, keys_replace hkeys⟩, allMembers_iff.2 (fun x hx => ?_)⟩
    rcases OrdMap.mem_replace hx with rfl | hx
    · exact hw
    · exact allMembers_iff.1 hv.2 x hx
  | .array _, _, .key _, hv, _ => hv
  | .object _, _, .index _, hv, _ => hv
  | .null, _, _, hv, _ => hv
  | .bool _, _, _, hv, _ => hv
  | .int _, _, _, hv, _ => hv
  | .double _, _, _, hv, _ => hv
  | .string _, _, _, hv, _ => hv

/-- A member with any key that is put in its place keeps an object in order. -/
theorem all_subscript (hP : Structural K P) {v v' : JsonValue D} {s : Slot} (hs : ∀ k, s = .key k → K k)
    (hv : v.All P) (h : v.subscript s = .ok v') : v'.All P := by
  unfold subscript at h
  split at h
  · split at h
    · cases h
    · cases h
      exact hv
  · cases h
  · cases h
    refine ⟨(hP.object _).2 ⟨List.pairwise_singleton _ _, List.forall_mem_singleton.2 (hs _ rfl)⟩,
      allMembers_iff.2 (fun x hx => ?_)⟩
    rw [List.mem_singleton.1 hx]
    exact hP.null
  · rename_i kvs k
    split at h
    · cases h
      exact hv
    · cases h
      obtain ⟨hsorted, hkeys⟩ := (hP.object _).1 hv.1
      refine ⟨(hP.object _).2 ⟨OrdMap.sorted_insert _ _ _ hsorted, fun x hx => ?_⟩, allMembers_iff.2 (fun x hx => ?_)⟩
      · rcases OrdMap.mem_insert _ _ _ _ hx with rfl | hx
        · exact hs _ rfl
        · exact hkeys x hx
      rcases OrdMap.mem_insert _ _ _ _ hx with rfl | hx
      · exact hP.null
      · exact allMembers_iff.1 hv.2 x hx
  · cases h

theorem all_get? {w : JsonValue D} : ∀ {p : List Slot} {v : JsonValue D}, v.All P → v.get? p = some w → w.All P
  | [], v, hv, h => by cases h; exact hv
  | s :: p, v, hv, h => by
    rw [get?] at h
    cases hc : v.child? s with
    | none => rw [hc] at h; cases h
    | some c =>
      rw [hc] at h
      exact all_get? (all_child hv hc) h

theorem all_put (hP : Structural K P) {w : JsonValue D} (hw : w.All P) : ∀ {p : List Slot} {v : JsonValue D}, v.All P →
    (v.put p w).All P
  | [], _, _ => hw
  | s :: p, v, hv => by
    rw [put]
    split
    · rename_i c hc
      exact all_setChild hP hv (all_put hP hw (all_child hv hc))
    · exact hv

theorem all_reach (hP : Structural K P) : ∀ {p : List Slot} {v : JsonValue D}, KeysIn K p → v.All P →
    (v.reach p).1.All P
  | [], _, _, hv => hv
  | s :: p, v, hp, hv => by
    rw [reach]
    split
    · exact hv
    · rename_i v' h
      have hv' := all_subscript hP (fun k hk => hp k (hk ▸ List.mem_cons_self)) hv h
      split
      · rename_i c hc
        exact all_setChild hP hv' (all_reach hP hp.tail (all_child hv' hc))
      · exact hv'

end JsonValue
end MiniRos2

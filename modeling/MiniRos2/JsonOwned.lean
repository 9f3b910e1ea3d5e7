import MiniRos2.JsonAccess
/-!
# JsonOwned — what a `JsonValue` owns

`destroyData` and `copyData` are the general `delete` and `copy` of a cell that owns its block (`destroyData_eq`,
`copyData_eq`).  The tree a cell owns is a value (`value`), and a copy without the addresses is the same one
(`value_of_strip`).
-/
namespace MiniRos2
namespace JsonHeap

open Owned

variable {D : Type}

def view (c : Cell D) : View :=
  match c.type_ with
  | .null => .plain
  | .bool => match c.data_ with
    | .bool_val _ => .plain
    | _ => .hollow
  | .int => match c.data_ with
    | .int_val _ => .plain
    | _ => .hollow
  | .double => match c.data_ with
    | .double_val _ => .plain
    | _ => .hollow
  | .string => match c.data_ with
    | .str_val none => .hollow
    | .str_val (some a) => .owner a
    | _ => .wild
  | .array => match c.data_ with
    | .arr_val none => .hollow
    | .arr_val (some a) => .owner a
    | _ => .wild
  | .object => match c.data_ with
    | .obj_val none => .hollow
    | .obj_val (some a) => .owner a
    | _ => .wild

/-- The type of a cell is that of the block it points to. -/
def fits (c : Cell D) : List UInt8 ⊕ Kind → Bool
  | .inl _ => c.type_ = .string
  | .inr .arr => c.type_ = .array
  | .inr .obj => c.type_ = .object

/-- A copy of a value that owns nothing. -/
def dup (c : Cell D) : Cell D := if c.type_ = .null then ⟨.null, .unset⟩ else c

def point : List UInt8 ⊕ Kind → Nat → Cell D
  | .inl _, a => ⟨.string, .str_val (some a)⟩
  | .inr .arr, a => ⟨.array, .arr_val (some a)⟩
  | .inr .obj, a => ⟨.object, .obj_val (some a)⟩

def layout : Layout (List UInt8) (Cell D) Kind where
  view := view
  fits := fits
  dup := dup
  point := point
  view_point l a := by rcases l with s | _ | _ <;> rfl
  fits_point l a := by rcases l with s | _ | _ <;> rfl
  view_dup c hc := by
    unfold dup
    split
    · rfl
    · exact hc
  dup_dup c := by
    unfold dup
    split <;> rfl

theorem layout_view (c : Cell D) : layout.view c = view c := rfl

theorem layout_fits (c : Cell D) (b : List UInt8 ⊕ Kind) : layout.fits c b = fits c b := rfl

/-! ## destroyData and copyData are the general ones -/

theorem destroyData_eq : ∀ (n : Nat) (h : Memory D) (c : Cell D), destroyData n h c = delete layout n h c
  | 0, _, _ => rfl
  | n + 1, h, ⟨t, d⟩ => by
    have hrec : (fun (h : Memory D) (e : Slot × Cell D) => destroyData n h e.2) =
        fun h e => delete layout n h e.2 := funext fun h => funext fun e => destroyData_eq n h e.2
    cases t <;> cases d
    all_goals first
      | rfl
      | skip
    all_goals
      rename_i p
      cases p with
      | none => rfl
      | some a =>
        simp only [destroyData, delete, layout_view, layout_fits, view, Data.strVal, Data.arrVal, Data.objVal,
          readString, readNode, bind, Except.bind, hrec]
        cases h.read a with
        | error x => rfl
        | ok b => rcases b with s | ⟨l, es⟩ <;> first | rfl | (cases l <;> rfl)

/-- What `this` is when `other` was copied into it. -/
def received (this : Cell D) (r : Memory D × Cell D) : Memory D × Cell D :=
  (r.1, if this.type_ = .null then this else r.2)

/-- The copy constructor, which has nothing in the union of a null. -/
theorem received_copy (n : Nat) (h : Memory D) (c : Cell D) :
    (copy layout n h c).map (received ⟨c.type_, .unset⟩) = copy layout n h c := by
  obtain ⟨t, d⟩ := c
  by_cases ht : t = .null
  · subst ht
    cases n <;> rfl
  · cases copy layout n h ⟨t, d⟩ with
    | error x => rfl
    | ok r => rw [Except.map, received, if_neg ht]

theorem copyData_eq : ∀ (n : Nat) (h : Memory D) (this other : Cell D), this.type_ = other.type_ →
    copyData n h this other = (copy layout n h other).map (received this)
  | 0, _, _, _, _ => rfl
  | n + 1, h, ⟨t, d'⟩, ⟨t', d⟩, ht => by
    have hrec : (fun (h : Memory D) (c : Cell D) => copyData n h ⟨c.type_, .unset⟩ c) = copy layout n :=
      funext fun h => funext fun c => (copyData_eq n h ⟨c.type_, .unset⟩ c rfl).trans (received_copy n h c)
    cases ht
    cases t <;> cases d
    all_goals first
      | rfl
      | skip
    all_goals
      rename_i p
      cases p with
      | none => rfl
      | some a =>
        simp only [copyData, copy, layout_view, layout_fits, view, Data.strVal, Data.arrVal, Data.objVal, readString,
          readNode, bind, Except.bind, hrec]
        cases h.read a with
        | error x => rfl
        | ok b =>
          rcases b with s | ⟨l, es⟩
          · rfl
          · cases l
            all_goals first
              | rfl
              | (simp only [Block.head, Block.entries, fits, decide_true, if_true]
                 generalize copyEntries (copy layout n) h es = r
                 cases r <;> rfl)

/-! ## The value that a cell owns -/

abbrev Held (D : Type) := Estate (List UInt8) Slot (Cell D) Kind

def leafValue (c : Cell D) : JsonValue D :=
  match c.type_, c.data_ with
  | .bool, .bool_val b => .bool b
  | .int, .int_val n => .int n
  | .double, .double_val d => .double d
  | _, _ => .null

mutual

def value : Held D → JsonValue D
  | .leaf c => leafValue c
  | .atom _ s => .string s
  | .node _ .arr es => .array (elems es)
  | .node _ .obj es => .object (members es)

def elems : List (Slot × Held D) → List (JsonValue D)
  | [] => []
  | (_, t) :: es => value t :: elems es

def members : List (Slot × Held D) → List (List UInt8 × JsonValue D)
  | [] => []
  | (s, t) :: es => (s.name, value t) :: members es

end

theorem elems_eq : ∀ es : List (Slot × Held D), elems es = es.map (fun e => value e.2)
  | [] => rfl
  | (s, t) :: es => by rw [elems, elems_eq es]; rfl

theorem members_eq : ∀ es : List (Slot × Held D), members es = es.map (fun e => (e.1.name, value e.2))
  | [] => rfl
  | (s, t) :: es => by rw [members, members_eq es]; rfl

/-- The slots of a vector are its indices, those of a map are keys. -/
def Formed (s : Kind × List Slot) : Prop :=
  match s.1 with
  | .arr => s.2 = (List.range s.2.length).map .index
  | .obj => ∀ k ∈ s.2, ∃ n, k = .key n

/-! ### Members by their slots -/

section Slots

variable {V W : Type}

theorem find?_index : ∀ (es : List (Slot × V)) (o i : Nat),
    es.map Prod.fst = (List.range' o es.length).map Slot.index →
    OrdMap.find? (Slot.index (o + i)) es = (es.map Prod.snd)[i]?
  | [], _, _, _ => rfl
  | e :: es, o, i, h => by
    rw [List.length_cons, List.range'_succ, List.map_cons, List.map_cons, List.cons.injEq] at h
    cases i with
    | zero => rw [Nat.add_zero, OrdMap.find?, if_pos h.1.symm]; rfl
    | succ i =>
      have hne : Slot.index (o + (i + 1)) ≠ e.1 := by rw [h.1]; simp
      rw [OrdMap.find?, if_neg hne, show o + (i + 1) = o + 1 + i by omega, find?_index es (o + 1) i h.2]
      rfl

theorem replace_index (w : V) : ∀ (es : List (Slot × V)) (o i : Nat),
    es.map Prod.fst = (List.range' o es.length).map Slot.index →
    (OrdMap.replace (Slot.index (o + i)) w es).map Prod.snd = (es.map Prod.snd).set i w
  | [], _, _, _ => rfl
  | e :: es, o, i, h => by
    rw [List.length_cons, List.range'_succ, List.map_cons, List.map_cons, List.cons.injEq] at h
    cases i with
    | zero => rw [Nat.add_zero, OrdMap.replace, if_pos h.1.symm]; rfl
    | succ i =>
      have hne : Slot.index (o + (i + 1)) ≠ e.1 := by rw [h.1]; simp
      rw [OrdMap.replace, if_neg hne, show o + (i + 1) = o + 1 + i by omega, List.map_cons,
        replace_index w es (o + 1) i h.2]
      rfl

theorem find?_key (k : List UInt8) : ∀ es : List (Slot × V), (∀ s ∈ es.map Prod.fst, ∃ n, s = .key n) →
    OrdMap.find? k (es.map (fun e => (e.1.name, e.2))) = OrdMap.find? (Slot.key k) es
  | [], _ => rfl
  | e :: es, h => by
    obtain ⟨n, hn⟩ := h e.1 List.mem_cons_self
    have hiff : k = e.1.name ↔ Slot.key k = e.1 := by rw [hn, Slot.name, Slot.key.injEq]
    rw [List.map_cons, OrdMap.find?, OrdMap.find?, find?_key k es (fun s hs => h s (List.mem_cons_of_mem _ hs))]
    exact if_congr hiff rfl rfl

theorem replace_key (k : List UInt8) (w : V) : ∀ es : List (Slot × V), (∀ s ∈ es.map Prod.fst, ∃ n, s = .key n) →
    (OrdMap.replace (Slot.key k) w es).map (fun e => (e.1.name, e.2)) =
      OrdMap.replace k w (es.map (fun e => (e.1.name, e.2)))
  | [], _ => rfl
  | e :: es, h => by
    obtain ⟨n, hn⟩ := h e.1 List.mem_cons_self
    have hiff : k = e.1.name ↔ Slot.key k = e.1 := by rw [hn, Slot.name, Slot.key.injEq]
    have hrest := replace_key k w es (fun s hs => h s (List.mem_cons_of_mem _ hs))
    rw [List.map_cons, OrdMap.replace, OrdMap.replace]
    by_cases hk : Slot.key k = e.1
    · rw [if_pos hk, if_pos (hiff.2 hk)]
      rfl
    · rw [if_neg hk, if_neg (fun h => hk (hiff.1 h)), List.map_cons, hrest]

theorem insert_key (k : List UInt8) (w : V) : ∀ es : List (Slot × V), (∀ s ∈ es.map Prod.fst, ∃ n, s = .key n) →
    (OrdMap.insert (Slot.key k) w es).map (fun e => (e.1.name, e.2)) =
      OrdMap.insert k w (es.map (fun e => (e.1.name, e.2)))
  | [], _ => rfl
  | e :: es, h => by
    obtain ⟨n, hn⟩ := h e.1 List.mem_cons_self
    have hlt : k < e.1.name ↔ Slot.key k < e.1 := by rw [hn]; exact Iff.rfl
    have hiff : k = e.1.name ↔ Slot.key k = e.1 := by rw [hn, Slot.name, Slot.key.injEq]
    have hrest := insert_key k w es (fun s hs => h s (List.mem_cons_of_mem _ hs))
    rw [List.map_cons, OrdMap.insert, OrdMap.insert]
    by_cases hl : Slot.key k < e.1
    · rw [if_pos hl, if_pos (hlt.2 hl)]
      rfl
    · rw [if_neg hl, if_neg (fun h => hl (hlt.1 h))]
      by_cases hk : Slot.key k = e.1
      · rw [if_pos hk, if_pos (hiff.2 hk)]
        rfl
      · rw [if_neg hk, if_neg (fun h => hk (hiff.1 h)), List.map_cons, hrest]

end Slots

theorem formed_arr {ks : List Slot} (h : Formed (.arr, ks)) : ks = (List.range' 0 ks.length).map Slot.index := by
  rw [← List.range_eq_range']
  exact h

/-- **The children of a value are those of the tree.** -/
theorem child?_value {a : Nat} {l : Kind} {es : List (Slot × Held D)} (hf : Formed (l, es.map Prod.fst)) (s : Slot) :
    (value (.node a l es)).child? s = (OrdMap.find? s es).map value := by
  cases l with
  | arr =>
    have hkeys := formed_arr hf
    rw [List.length_map] at hkeys
    cases s with
    | index i =>
      have hfind := find?_index es 0 i hkeys
      rw [Nat.zero_add] at hfind
      rw [hfind, value, elems_eq, JsonValue.child?, ← List.getElem?_map, List.map_map]
      rfl
    | key k =>
      have hnone : OrdMap.find? (Slot.key k) es = none := by
        rw [OrdMap.find?_eq_none, hkeys, List.mem_map]
        rintro ⟨i, -, hi⟩
        cases hi
      rw [hnone]
      rfl
  | obj =>
    cases s with
    | index i =>
      have hnone : OrdMap.find? (Slot.index i) es = none := by
        rw [OrdMap.find?_eq_none]
        intro hm
        obtain ⟨n, hn⟩ := hf _ hm
        cases hn
      rw [hnone]
      rfl
    | key k =>
      have hmap : es.map (fun e => (e.1.name, value e.2)) =
          (es.map (fun e => (e.1, value e.2))).map (fun e => (e.1.name, e.2)) := by rw [List.map_map]; rfl
      have hkeys : ∀ s ∈ (es.map (fun e => (e.1, value e.2))).map Prod.fst, ∃ n, s = .key n := by
        rw [List.map_map]
        exact hf
      rw [value, members_eq, JsonValue.child?, hmap, find?_key k _ hkeys, OrdMap.find?_map value]

theorem setChild_value {a : Nat} {l : Kind} {es : List (Slot × Held D)} {s : Slot} (hf : Formed (l, es.map Prod.fst))
    {t : Held D} (ht : OrdMap.find? s es = some t) (u : Held D) :
    value (.node a l (OrdMap.replace s u es)) = (value (.node a l es)).setChild s (value u) := by
  have hmem : s ∈ es.map Prod.fst := by
    by_contra hn
    rw [OrdMap.find?_eq_none.2 hn] at ht
    cases ht
  cases l with
  | arr =>
    have hkeys := formed_arr hf
    rw [List.length_map] at hkeys
    cases s with
    | index i =>
      have hrep := replace_index u es 0 i hkeys
      rw [Nat.zero_add] at hrep
      have hsnd : ∀ xs : List (Slot × Held D), xs.map (fun e => value e.2) = (xs.map Prod.snd).map value := fun xs => by
        rw [List.map_map]; rfl
      rw [value, value, JsonValue.setChild, elems_eq, elems_eq, hsnd, hsnd, hrep, List.map_set]
    | key k =>
      rw [hkeys, List.mem_map] at hmem
      obtain ⟨i, -, hi⟩ := hmem
      cases hi
  | obj =>
    cases s with
    | index i =>
      obtain ⟨n, hn⟩ := hf _ hmem
      cases hn
    | key k =>
      have hmap : ∀ xs : List (Slot × Held D), xs.map (fun e => (e.1.name, value e.2)) =
          (xs.map (fun e => (e.1, value e.2))).map (fun e => (e.1.name, e.2)) := fun xs => by rw [List.map_map]; rfl
      have hkeys : ∀ s ∈ (es.map (fun e => (e.1, value e.2))).map Prod.fst, ∃ n, s = .key n := by
        rw [List.map_map]
        exact hf
      rw [value, value, members_eq, members_eq, JsonValue.setChild, hmap, OrdMap.replace_map value,
        replace_key k _ _ hkeys, ← hmap]

/-- Every node of the tree is a vector or a map. -/
def AllFormed (t : Held D) : Prop := ∀ s ∈ t.shapes, Formed s

theorem AllFormed.node {a : Nat} {l : Kind} {es : List (Slot × Held D)} (h : AllFormed (.node a l es)) :
    Formed (l, es.map Prod.fst) := h _ List.mem_cons_self

theorem AllFormed.get {t u : Held D} {p : List Slot} (h : AllFormed t) (hu : t.get p = some u) : AllFormed u :=
  fun s hs => h s (Estate.shapes_get hu hs)

theorem AllFormed.set {t u v : Held D} {p : List Slot} (h : AllFormed t) (hv : t.get p = some v) (hu : AllFormed u) :
    AllFormed (t.set p u) := fun s hs => (Estate.shapes_set hv hs).elim (hu s) (h s)

theorem child?_leaf (c : Cell D) (s : Slot) : (value (.leaf c)).child? s = none := by
  have hleaf : ∀ w : JsonValue D, (∀ xs, w ≠ .array xs) → (∀ kvs, w ≠ .object kvs) → w.child? s = none := by
    intro w ha ho
    unfold JsonValue.child?
    split
    · exact absurd rfl (ha _)
    · exact absurd rfl (ho _)
    · rfl
  rw [value]
  refine hleaf _ (fun xs h => ?_) (fun kvs h => ?_)
  · unfold leafValue at h
    split at h <;> cases h
  · unfold leafValue at h
    split at h <;> cases h

/-- **What is at a position of the tree is what is at that position of the value.** -/
theorem get?_value : ∀ {p : List Slot} {t : Held D}, AllFormed t → (value t).get? p = (t.get p).map value
  | [], _, _ => rfl
  | s :: p, .leaf c, _ => by
    rw [JsonValue.get?, child?_leaf]
    rfl
  | s :: p, .atom a x, _ => rfl
  | s :: p, .node a l es, h => by
    rw [JsonValue.get?, child?_value h.node, Estate.get]
    cases hf : OrdMap.find? s es with
    | none => rfl
    | some u =>
      have hu : (Estate.node a l es).get [s] = some u := by rw [Estate.get_cons hf]; rfl
      exact get?_value (h.get hu)

theorem value_set {u : Held D} : ∀ {p : List Slot} {t : Held D}, AllFormed t →
    value (t.set p u) = (value t).put p (value u)
  | [], _, _ => rfl
  | s :: p, .leaf c, _ => by
    rw [JsonValue.put, child?_leaf]
    rfl
  | s :: p, .atom a x, _ => rfl
  | s :: p, .node a l es, h => by
    rw [JsonValue.put, child?_value h.node, Estate.set]
    cases hf : OrdMap.find? s es with
    | none => rfl
    | some v =>
      have hv : (Estate.node a l es).get [s] = some v := by rw [Estate.get_cons hf]; rfl
      have hrec : value (v.set p u) = (value v).put p (value u) := value_set (h.get hv)
      simp only [Option.map_some]
      rw [setChild_value h.node hf, hrec]

/-- **A copy without the addresses has the same value.** -/
theorem value_of_strip {t t' : Held D} (h : t'.strip layout = t.strip layout) : value t' = value t := by
  have hstrip : ∀ t : Held D, value (t.strip layout) = value t := by
    intro t
    induction t using Estate.induct with
    | leaf c =>
      obtain ⟨x, d⟩ := c
      cases x <;> rfl
    | atom a x => rfl
    | node a l es ih =>
      have helems : ∀ es' : List (Slot × Held D), (∀ e ∈ es', value (e.2.strip layout) = value e.2) →
          elems (Estate.stripOf layout es') = elems es' ∧ members (Estate.stripOf layout es') = members es' := by
        intro es'
        induction es' with
        | nil => exact fun _ => ⟨rfl, rfl⟩
        | cons e es' ihes =>
          intro he
          obtain ⟨h1, h2⟩ := ihes (fun e' he' => he e' (List.mem_cons_of_mem _ he'))
          have hval := he e List.mem_cons_self
          obtain ⟨s, t⟩ := e
          exact ⟨by rw [Estate.stripOf, elems, elems, h1, hval], by rw [Estate.stripOf, members, members, h2, hval]⟩
      cases l with
      | arr => rw [Estate.strip, value, value, (helems es ih).1]
      | obj => rw [Estate.strip, value, value, (helems es ih).2]
  rw [← hstrip t', h, hstrip t]

/-- **A value owns one block for every string, array and object in it.** -/
theorem length_blocks (t : Held D) : (t.blocks layout).length = (value t).nodes := by
  induction t using Estate.induct with
  | leaf c =>
    rw [value]
    unfold leafValue
    split <;> rfl
  | atom a x => rfl
  | node a l es ih =>
    have hsum : ∀ es' : List (Slot × Held D), (∀ e ∈ es', (e.2.blocks layout).length = (value e.2).nodes) →
        (Estate.blocksOf layout es').length = JsonValue.nodesElems (elems es') ∧
        (Estate.blocksOf layout es').length = JsonValue.nodesMembers (members es') := by
      intro es'
      induction es' with
      | nil => exact fun _ => ⟨rfl, rfl⟩
      | cons e es' ihes =>
        intro he
        obtain ⟨h1, h2⟩ := ihes (fun e' he' => he e' (List.mem_cons_of_mem _ he'))
        have hval := he e List.mem_cons_self
        obtain ⟨s, t⟩ := e
        rw [Estate.blocksOf, List.length_append, hval]
        exact ⟨by rw [h1]; rfl, by rw [h2]; rfl⟩
    cases l with
    | arr => rw [Estate.blocks, List.length_cons, (hsum es ih).1, value, JsonValue.nodes, Nat.add_comm]
    | obj => rw [Estate.blocks, List.length_cons, (hsum es ih).2, value, JsonValue.nodes, Nat.add_comm]

end JsonHeap
end MiniRos2

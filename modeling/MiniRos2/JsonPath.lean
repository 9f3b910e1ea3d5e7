import MiniRos2.JsonAssign
/-!
# JsonPath — a chain of `operator[]`

A chain of `operator[]` from a reference ends in a reference to the place with that position, or in the exception that
`reach` names; the value it went through is then as `reach` says, and no reference into it has moved (`locate_spec`).
-/
namespace MiniRos2
namespace JsonHeap

open Owned

variable {D : Type}

/-- One `operator[]`. -/
def subscript (h : Memory D) (r : Ref) : Slot → Except Fault (Memory D × Except Exn Ref)
  | .index i => do .ok (h, ← atIndex h r i)
  | .key k => atKey h r k

def locate (h : Memory D) (r : Ref) : List Slot → Except Fault (Memory D × Except Exn Ref)
  | [] => .ok (h, .ok r)
  | s :: p => do
    let (h, x) ← subscript h r s
    match x with
    | .error e => .ok (h, .error e)
    | .ok r => locate h r p

variable {h h' : Memory D} {t u v : Held D}
  {lost : List (Nat × Block (List UInt8) Slot (Cell D) Kind)} {p q : List Slot} {r r' : Ref} {c : Cell D}

theorem readNode_spec {a : Nat} {l : Kind} {es : List (Slot × Held D)} (hh : h.Holds (t.blocks layout ++ lost))
    (hu : t.get p = some (.node a l es)) :
    readNode h l (some a) = .ok (es.map (fun e => (e.1, e.2.cell layout))) := by
  have hread : h.read a = .ok (Estate.block layout l es) :=
    hh.read (List.mem_append_left _ (Estate.blocks_get hu List.mem_cons_self))
  simp only [readNode, hread, bind, Except.bind, Estate.block, if_true]

/-- A cell of a leaf is no vector and no map. -/
theorem leaf_type (hc : view c = .plain) : c.type_ ≠ .string ∧ c.type_ ≠ .array ∧ c.type_ ≠ .object := by
  obtain ⟨ty, d⟩ := c
  cases ty
  case string => cases d <;> first | cases hc | (rename_i p; cases p <;> cases hc)
  case array => cases d <;> first | cases hc | (rename_i p; cases p <;> cases hc)
  case object => cases d <;> first | cases hc | (rename_i p; cases p <;> cases hc)
  all_goals exact ⟨nofun, nofun, nofun⟩

theorem leafValue_null (hn : c.type_ = .null) : leafValue c = .null := by rw [leafValue, hn]

theorem leafValue_key (hc : view c = .plain) (hn : c.type_ ≠ .null) (k : List UInt8) :
    (leafValue c).subscript (.key k) = .error (.domainError (utf8 "JsonValue: [] key not valid for non-object")) := by
  obtain ⟨ty, d⟩ := c
  have htype := leaf_type hc
  cases ty
  case null => exact absurd rfl hn
  case string => exact absurd rfl htype.1
  case array => exact absurd rfl htype.2.1
  case object => exact absurd rfl htype.2.2
  all_goals cases d <;> first | rfl | cases hc

theorem leafValue_index (c : Cell D) (i : Nat) : (leafValue c).subscript (.index i) =
    .error (.domainError (utf8 "JsonValue: [] index not valid for non-array")) := by
  unfold leafValue
  split <;> rfl

/-- A node whose entries were there already, or are a value that came new. -/
theorem Good.rewrite {a : Nat} {l : Kind} {es es' : List (Slot × Held D)} {w : Held D} (hg : Good h t lost)
    (hu : t.get p = some (.node a l es)) (hf : h.Fades h')
    (hh : h'.Holds ((t.set p (.node a l es')).blocks layout ++ lost)) (hes : ∀ e ∈ es', e ∈ es ∨ e.2 = w)
    (hw : ∀ x ∈ w.leaves, view x = .plain ∧ Retired h' x) (hwf : AllFormed w) (hkeys : Formed (l, es'.map Prod.fst)) :
    Good h' (t.set p (.node a l es')) lost := by
  refine hg.set hu hf hh (fun x hx => ?_) (fun s hs => ?_)
  · rw [Estate.leaves, Estate.leavesOf_eq] at hx
    obtain ⟨e, he, hx⟩ := List.mem_flatMap.1 hx
    rcases hes e he with he | rfl
    · have hmem : x ∈ t.leaves := Estate.leaves_get hu (by
        rw [Estate.leaves, Estate.leavesOf_eq]
        exact List.mem_flatMap.2 ⟨e, he, hx⟩)
      exact ⟨hg.plain x hmem, (hg.retired x hmem).fades hf⟩
    · exact hw x hx
  · rw [Estate.shapes, Estate.shapesOf_eq] at hs
    rcases List.mem_cons.1 hs with rfl | hs
    · exact hkeys
    · obtain ⟨e, he, hs⟩ := List.mem_flatMap.1 hs
      rcases hes e he with he | rfl
      · exact hg.formed.get hu s (by
          rw [Estate.shapes, Estate.shapesOf_eq]
          exact List.mem_cons_of_mem _ (List.mem_flatMap.2 ⟨e, he, hs⟩))
      · exact hwf s hs

/-! ## operator[](size_t) -/

theorem length_elems (es : List (Slot × Held D)) : (elems es).length = es.length := by
  rw [elems_eq, List.length_map]

theorem find?_index_ne_none {es : List (Slot × Held D)} (hf : Formed (.arr, es.map Prod.fst)) {i : Nat}
    (hi : i < es.length) : OrdMap.find? (Slot.index i) es ≠ none := by
  have hkeys : es.map Prod.fst = (List.range (es.map Prod.fst).length).map Slot.index := hf
  rw [List.length_map] at hkeys
  rw [Ne, OrdMap.find?_eq_none, not_not, hkeys]
  exact List.mem_map.2 ⟨i, List.mem_range.2 hi, rfl⟩

theorem atIndex_spec (hg : Good h t lost) (hp : t.Place p r.1 r.2) (hu : t.get p = some u) (i : Nat) :
    match (value u).subscript (.index i) with
    | .error e => atIndex h r i = .ok (.error e)
    | .ok v => v = value u ∧ ∃ r', atIndex h r i = .ok (.ok r') ∧ t.Place (p ++ [.index i]) r'.1 r'.2 := by
  have hget := getRef_spec hg.holds hp hu
  cases u with
  | leaf c =>
    have hc := (leaf_type (hg.plain c (Estate.leaves_get hu List.mem_cons_self))).2.1
    have hat : atIndex h r i = .ok (.error (.domainError (utf8 "JsonValue: [] index not valid for non-array"))) := by
      rw [atIndex, hget]
      exact if_pos hc
    rw [value, leafValue_index]
    exact hat
  | atom a x =>
    rw [value, JsonValue.subscript, atIndex, hget]
    · rfl
    · intro xs hxs
      cases hxs
  | node a l es =>
    cases l with
    | obj =>
      rw [value, JsonValue.subscript, atIndex, hget]
      · rfl
      · intro xs hxs
        cases hxs
    | arr =>
      have hatIndex : atIndex h r i = .ok (if es.length ≤ i
          then .error (.outOfRange (utf8 "JsonValue: array index out of range"))
          else .ok (a, .index i)) := by
        rw [atIndex, hget]
        simp only [bind, Except.bind, Estate.cell, layout, point, ne_eq, not_true_eq_false, if_false, Data.arrVal,
          readNode_spec hg.holds hu, List.length_map]
        split <;> rfl
      rw [hatIndex, value, JsonValue.subscript, length_elems]
      by_cases hi : es.length ≤ i
      · rw [if_pos hi, if_pos hi]
      · rw [if_neg hi, if_neg hi]
        exact ⟨rfl, (a, .index i), rfl, p, .arr, es, rfl, hu,
          find?_index_ne_none (hg.formed.get hu).node (Nat.not_le.1 hi)⟩

/-! ## operator[](const std::string&) -/

theorem find?_insert_ne_none {k k' : Slot} {w : Held D} {es : List (Slot × Held D)}
    (hk : k' = k ∨ OrdMap.find? k' es ≠ none) : OrdMap.find? k' (OrdMap.insert k w es) ≠ none := by
  rw [OrdMap.find?_insert _ _ _ _ Slot.irrefl]
  split
  · exact Option.some_ne_none _
  · rename_i hne
    exact hk.resolve_left hne

/-- Inserting a null gives a place to the key and keeps those that are there. -/
theorem keeps_insert {a : Nat} {k : Slot} {c : Cell D} {es : List (Slot × Held D)} (hnew : OrdMap.find? k es = none) :
    Estate.Keeps (.node a .obj es : Held D) (.node a .obj (OrdMap.insert k (.leaf c) es)) := by
  have hget : ∀ {k' : Slot} {ks : List Slot} {u : Held D}, (Estate.node a .obj es).get (k' :: ks) = some u →
      (Estate.node a .obj (OrdMap.insert k (.leaf c) es)).get (k' :: ks) = some u := by
    intro k' ks u hu
    obtain ⟨_, _, _, w, heq, hw, hsub⟩ := Estate.get_cons_eq_some hu
    cases heq
    have hne : k' ≠ k := fun heq => by rw [heq, hnew] at hw; cases hw
    rw [Estate.get_cons (by rw [OrdMap.find?_insert _ _ _ _ Slot.irrefl, if_neg hne, hw]), hsub]
  refine ⟨fun q b s hq => ?_, fun q u hu ho => ?_⟩
  · obtain ⟨ks, l, es', rfl, hks, hfind⟩ := hq
    cases ks with
    | nil =>
      cases hks
      exact ⟨[], .obj, _, rfl, rfl, find?_insert_ne_none (.inr hfind)⟩
    | cons k' ks => exact ⟨k' :: ks, l, es', rfl, hget hks, hfind⟩
  · cases q with
    | nil =>
      cases hu
      exact ⟨_, rfl, nofun, fun _ => rfl⟩
    | cons k' ks => exact ⟨u, hget hu, ho, fun _ => rfl⟩

theorem blocksOf_insert {k : Slot} {c : Cell D} {es : List (Slot × Held D)} (hnew : OrdMap.find? k es = none) :
    (Estate.blocksOf layout (OrdMap.insert k (.leaf c) es)).Perm (Estate.blocksOf layout es) := by
  have hperm := OrdMap.insert_perm k (Estate.leaf c) es (OrdMap.find?_eq_none.1 hnew)
  rw [Estate.blocksOf_eq, Estate.blocksOf_eq]
  exact hperm.flatMap_right _

theorem member_spec {a : Nat} {es : List (Slot × Held D)} (hg : Good h t lost) (hp : t.Place p r.1 r.2)
    (hu : t.get p = some (.node a .obj es)) (k : List UInt8) :
    ∃ h' u', member h ⟨.object, .obj_val (some a)⟩ k = .ok (h', (a, .key k)) ∧ Good h' (t.set p u') lost ∧
      (value (.node a .obj es)).subscript (.key k) = .ok (value u') ∧ Estate.Keeps (.node a .obj es) u' ∧
      (t.set p u').Place (p ++ [.key k]) a (.key k) := by
  have hread := readNode_spec hg.holds hu
  have hformed := (hg.formed.get hu).node
  have hchild := child?_value (a := a) hformed (.key k)
  rw [value, JsonValue.child?] at hchild
  cases hf : OrdMap.find? (Slot.key k) es with
  | some w =>
    rw [hf] at hchild
    have hfound : OrdMap.find? (Slot.key k) (es.map (fun e => (e.1, e.2.cell layout))) = some (w.cell layout) := by
      rw [OrdMap.find?_map (fun e : Held D => e.cell layout), hf]
      rfl
    refine ⟨h, .node a .obj es, ?_, ?_, ?_, .refl _, ?_⟩
    · simp only [member, Data.objVal, bind, Except.bind, hread, hfound]
    · rwa [Estate.set_get hu]
    · rw [value, JsonValue.subscript, hchild]
      rfl
    · rw [Estate.set_get hu]
      exact ⟨p, .obj, es, rfl, hu, by rw [hf]; exact Option.some_ne_none _⟩
  | none =>
    rw [hf] at hchild
    have hfound : OrdMap.find? (Slot.key k) (es.map (fun e => (e.1, e.2.cell layout))) = none := by
      rw [OrdMap.find?_map (fun e : Held D => e.cell layout), hf]
      rfl
    have hblocks : (Estate.blocksOf layout (OrdMap.insert (Slot.key k) (.leaf ⟨.null, .unset⟩) es)).Perm
        (Estate.blocksOf layout es ++ []) := by
      rw [List.append_nil]
      exact blocksOf_insert hf
    obtain ⟨h', hwrite, hholds, hnext, hnone⟩ := write_at [] hp hu hg.holds hblocks
    refine ⟨h', .node a .obj (OrdMap.insert (.key k) (.leaf ⟨.null, .unset⟩) es), ?_, ?_, ?_, keeps_insert hf, ?_⟩
    · have hblock : Estate.block layout .obj (OrdMap.insert (.key k) (.leaf ⟨.null, .unset⟩) es) =
          .node .obj (OrdMap.insert (.key k) ⟨.null, .unset⟩ (es.map (fun e => (e.1, e.2.cell layout)))) := by
        rw [Estate.block, OrdMap.insert_map (fun e : Held D => e.cell layout)]
        rfl
      rw [hblock] at hwrite
      simp only [member, Data.objVal, bind, Except.bind, hread, hfound, hwrite]
    · refine hg.rewrite hu (.of_iff hnext hnone) hholds (w := .leaf ⟨.null, .unset⟩) (fun e he => ?_) (fun x hx => ?_)
        (fun s hs => by cases hs) (fun s hs => ?_)
      · exact (OrdMap.mem_insert _ _ _ _ he).symm.imp_right (congrArg Prod.snd)
      · rw [List.mem_singleton.1 hx]
        exact ⟨rfl, retired_of_target rfl _⟩
      · obtain ⟨e, he, rfl⟩ := List.mem_map.1 hs
        rcases OrdMap.mem_insert _ _ _ _ he with rfl | he
        · exact ⟨k, rfl⟩
        · exact hformed _ (List.mem_map.2 ⟨e, he, rfl⟩)
    · rw [value, JsonValue.subscript, hchild, value]
      have hkeys : ∀ s ∈ (es.map (fun e => (e.1, value e.2))).map Prod.fst, ∃ n, s = .key n := by
        rw [List.map_map]
        exact hformed
      have hmap : ∀ xs : List (Slot × Held D), xs.map (fun e => (e.1.name, value e.2)) =
          (xs.map (fun e => (e.1, value e.2))).map (fun e => (e.1.name, e.2)) := fun xs => by rw [List.map_map]; rfl
      rw [members_eq, members_eq, hmap, hmap, OrdMap.insert_map value, insert_key k _ _ hkeys]
      rfl
    · exact ⟨p, .obj, _, rfl, Estate.get_set_self hu, find?_insert_ne_none (.inl rfl)⟩

theorem keeps_leaf (c : Cell D) (u : Held D) : Estate.Keeps (.leaf c) u := by
  refine ⟨?_, fun q w hw ho => ?_⟩
  · rintro q a k ⟨ks, l, es, -, hks, -⟩
    cases ks with
    | nil => cases hks
    | cons k' ks => cases hks
  · cases q with
    | nil =>
      cases hw
      exact absurd rfl (ho c)
    | cons k' ks => cases hw

/-- What an `operator[]` that returned has done: the value is as `subscript` says, and the reference is to its child. -/
def Subscripted (t u : Held D) (lost : List (Nat × Block (List UInt8) Slot (Cell D) Kind)) (p : List Slot) (s : Slot)
    (w : JsonValue D) (x : Except Fault (Memory D × Except Exn Ref)) : Prop :=
  ∃ h' u' r', x = .ok (h', .ok r') ∧ Good h' (t.set p u') lost ∧ value u' = w ∧ Estate.Keeps u u' ∧
    (t.set p u').Place (p ++ [s]) r'.1 r'.2

theorem atKey_spec (hg : Good h t lost) (hp : t.Place p r.1 r.2) (hu : t.get p = some u) (k : List UInt8) :
    match (value u).subscript (.key k) with
    | .error e => atKey h r k = .ok (h, .error e)
    | .ok w => Subscripted t u lost p (.key k) w (atKey h r k) := by
  have hget := getRef_spec hg.holds hp hu
  cases u with
  | leaf c =>
    have hc := hg.plain c (Estate.leaves_get hu List.mem_cons_self)
    by_cases hn : c.type_ = .null
    · -- the null becomes an object without members first
      have hval : (value (.leaf c)).subscript (.key k) = .ok (.object [(k, .null)]) := by
        rw [value, leafValue_null hn]
        rfl
      rw [hval]
      have hh : (h.alloc (.node .obj [])).Holds ((t.set p (.leaf c)).blocks layout ++
          ((Estate.node h.next .obj [] : Held D).blocks layout ++ lost)) := by
        rw [Estate.set_get hu]
        exact (hg.holds.alloc (.node .obj [])).perm List.perm_middle.symm
      obtain ⟨h2, hset, hholds2, -, hfades2⟩ := setRef_own hh hp hu
      have hg2 : Good h2 (t.set p (.node h.next .obj [])) lost :=
        hg.set hu ((Heap.Fades.alloc _ _).trans hfades2) hholds2
        (fun x hx => by cases hx) (fun s hs => by
          rw [List.mem_singleton.1 hs]
          exact List.forall_mem_nil _)
      obtain ⟨h3, u', hmember, hg3, hsub, -, hplace⟩ := member_spec hg2 (Estate.place_set hp) (Estate.get_set_self hu) k
      rw [Estate.set_set hu] at hg3 hplace
      refine ⟨h3, u', (h.next, .key k), ?_, hg3, (Except.ok.inj hsub).symm, keeps_leaf c u', hplace⟩
      rw [atKey, hget]
      refine (if_pos hn).trans ?_
      have hset' : setRef (h.alloc (.node .obj [])) r ⟨.object, .obj_val (some h.next)⟩ = .ok h2 := hset
      simp only [bind, Except.bind, hset', hmember]
    · rw [value, leafValue_key hc hn]
      show atKey h r k = _
      rw [atKey, hget]
      exact (if_neg hn).trans (if_pos (leaf_type hc).2.2)
  | atom a x =>
    show atKey h r k = _
    rw [atKey, hget]
    rfl
  | node a l es =>
    cases l with
    | arr =>
      show atKey h r k = _
      rw [atKey, hget]
      rfl
    | obj =>
      obtain ⟨h', u', hmember, hg', hsub, hkeeps, hplace⟩ := member_spec hg hp hu k
      rw [hsub]
      refine ⟨h', u', (a, .key k), ?_, hg', rfl, hkeeps, hplace⟩
      rw [atKey, hget]
      have hmember' : member h ((Estate.node a .obj es).cell layout) k = .ok (h', (a, .key k)) := hmember
      refine Eq.trans (b := (member h ((Estate.node a .obj es).cell layout) k >>= fun x => .ok (x.1, .ok x.2))) rfl ?_
      rw [hmember']
      rfl

/-! ## A chain of them -/

theorem subscript_spec (hg : Good h t lost) (hp : t.Place p r.1 r.2) (hu : t.get p = some u) (s : Slot) :
    match (value u).subscript s with
    | .error e => subscript h r s = .ok (h, .error e)
    | .ok w => Subscripted t u lost p s w (subscript h r s) := by
  cases s with
  | key k => exact atKey_spec hg hp hu k
  | index i =>
    have hspec := atIndex_spec hg hp hu i
    cases hsub : (value u).subscript (.index i) with
    | error e =>
      rw [hsub] at hspec
      show subscript h r (.index i) = _
      rw [subscript, hspec]
      rfl
    | ok w =>
      rw [hsub] at hspec
      obtain ⟨hw, r', hat, hplace⟩ := hspec
      refine ⟨h, u, r', ?_, ?_, hw.symm, .refl u, ?_⟩
      · rw [subscript, hat]
        rfl
      · rwa [Estate.set_get hu]
      · rwa [Estate.set_get hu]

/-- **A chain of `operator[]`** does to the value what `reach` says, and ends at the position or in the exception. -/
theorem locate_spec : ∀ {s p : List Slot} {h : Memory D} {t u : Held D} {r : Ref}, Good h t lost → t.Place p r.1 r.2 →
    t.get p = some u → ∃ h' u' x, locate h r s = .ok (h', x) ∧ Good h' (t.set p u') lost ∧
      value u' = ((value u).reach s).1 ∧ Estate.Keeps u u' ∧
      match ((value u).reach s).2 with
      | some e => x = .error e
      | none => ∃ r', x = .ok r' ∧ (t.set p u').Place (p ++ s) r'.1 r'.2
  | [], p, h, t, u, r, hg, hp, hu => by
    refine ⟨h, u, .ok r, rfl, ?_, rfl, .refl u, r, rfl, ?_⟩
    · rwa [Estate.set_get hu]
    · rwa [Estate.set_get hu, List.append_nil]
  | s :: ss, p, h, t, u, r, hg, hp, hu => by
    have hspec := subscript_spec hg hp hu s
    cases hsub : (value u).subscript s with
    | error e =>
      rw [hsub] at hspec
      rw [JsonValue.reach_cons_error hsub]
      refine ⟨h, u, .error e, ?_, ?_, rfl, .refl u, rfl⟩
      · rw [locate, hspec]
        rfl
      · rwa [Estate.set_get hu]
    | ok w =>
      rw [hsub] at hspec
      obtain ⟨h1, u1, r1, hat, hg1, hval1, hkeeps1, hplace1⟩ := hspec
      obtain ⟨c, hc⟩ := hplace1.get
      have hu1 : (t.set p u1).get p = some u1 := Estate.get_set_self hu
      have hc1 : u1.get [s] = some c := by rwa [Estate.get_append hu1] at hc
      have hchild : w.child? s = some (value c) := by
        have hget := get?_value (p := [s]) (hg1.formed.get hu1)
        rw [hc1, hval1] at hget
        cases hw : w.child? s with
        | none =>
          rw [JsonValue.get?, hw] at hget
          cases hget
        | some x =>
          rw [JsonValue.get?, hw] at hget
          exact hget
      obtain ⟨h2, c2, x, hloc, hg2, hval2, hkeeps2, hx⟩ := locate_spec (s := ss) hg1 hplace1 hc
      have hset : (t.set p u1).set (p ++ [s]) c2 = t.set p (u1.set [s] c2) := by
        rw [Estate.set_append hu1, Estate.set_set hu]
      rw [hset] at hg2 hx
      rw [JsonValue.reach_cons_ok hsub hchild]
      refine ⟨h2, u1.set [s] c2, x, ?_, hg2, ?_, hkeeps1.trans (Estate.keeps_set hc1 hkeeps2), ?_⟩
      · rw [locate, hat]
        exact hloc
      · rw [value_set (hg1.formed.get hu1), hval1, JsonValue.put_cons hchild, hval2]
        rfl
      · rw [List.append_assoc] at hx
        exact hx

end JsonHeap
end MiniRos2

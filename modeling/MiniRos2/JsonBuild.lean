import MiniRos2.JsonPath
/-!
# JsonBuild — values that come new

A literal, a temporary and `push_back` bring a value that the variables did not have.  A temporary owns its blocks
until it is moved from or destroyed (`construct_spec`); an element of `push_back` is a copy, also when it is a copy of
the vector itself or of what the vector is in (`pushBack_spec`).
-/
namespace MiniRos2
namespace JsonHeap

open Owned

variable {D : Type}

mutual

/-- A temporary with a value. -/
def construct (h : Memory D) : JsonValue D → Memory D × Cell D
  | .null => (h, ⟨.null, .unset⟩)
  | .bool b => (h, ⟨.bool, .bool_val b⟩)
  | .int n => (h, ⟨.int, .int_val n⟩)
  | .double d => (h, ⟨.double, .double_val d⟩)
  | .string s => (h.alloc (.atom s), ⟨.string, .str_val (some h.next)⟩)
  | .array xs =>
    let (h, es) := constructElems h 0 xs
    (h.alloc (.node .arr es), ⟨.array, .arr_val (some h.next)⟩)
  | .object kvs =>
    let (h, es) := constructMembers h kvs
    (h.alloc (.node .obj es), ⟨.object, .obj_val (some h.next)⟩)

def constructElems (h : Memory D) (i : Nat) : List (JsonValue D) → Memory D × List (Slot × Cell D)
  | [] => (h, [])
  | v :: vs =>
    let (h, c) := construct h v
    let (h, es) := constructElems h (i + 1) vs
    (h, (.index i, c) :: es)

def constructMembers (h : Memory D) : List (List UInt8 × JsonValue D) → Memory D × List (Slot × Cell D)
  | [] => (h, [])
  | (k, v) :: kvs =>
    let (h, c) := construct h v
    let (h, es) := constructMembers h kvs
    (h, (.key k, c) :: es)

end

def Literal.value : Literal D → JsonValue D
  | .bool b => .bool b
  | .int n => .int n
  | .double d => .double d
  | .string s => .string s

variable {h h' : Memory D} {t u v w : Held D}
  {lost bs : List (Nat × Block (List UInt8) Slot (Cell D) Kind)} {p q : List Slot} {r r' : Ref} {c : Cell D}

/-- The cells of a value that own nothing have no pointer left. -/
def Fresh (w : Held D) : Prop := ∀ x ∈ w.leaves, view x = .plain ∧ x.data_.target = none

theorem Fresh.clean (hw : Fresh w) (h : Memory D) : ∀ x ∈ w.leaves, view x = .plain ∧ Retired h x := fun x hx =>
  ⟨(hw x hx).1, retired_of_target (hw x hx).2 h⟩

/-- What was constructed: its blocks are new, and its value is the one asked for. -/
structure Built (h : Memory D) (v : JsonValue D) (h' : Memory D) (w : Held D) : Prop where
  holds : ∀ bs, h.Holds bs → h'.Holds (w.blocks layout ++ bs)
  value : value w = v
  fresh : Fresh w
  formed : AllFormed w
  fades : h.Fades h'

structure BuiltAll (h h' : Memory D) (es : List (Slot × Held D)) : Prop where
  holds : ∀ bs, h.Holds bs → h'.Holds (Estate.blocksOf layout es ++ bs)
  fresh : ∀ e ∈ es, Fresh e.2
  formed : ∀ e ∈ es, AllFormed e.2
  fades : h.Fades h'

theorem BuiltAll.cons {h1 : Memory D} {x : JsonValue D} {es : List (Slot × Held D)} {s : Slot} (hb : Built h x h1 w)
    (hbs : BuiltAll h1 h' es) : BuiltAll h h' ((s, w) :: es) where
  holds bs hh := by
    rw [Estate.blocksOf, List.append_assoc]
    exact (hbs.holds _ (hb.holds bs hh)).perm (List.perm_append_comm_assoc ..)
  fresh := List.forall_mem_cons.2 ⟨hb.fresh, hbs.fresh⟩
  formed := List.forall_mem_cons.2 ⟨hb.formed, hbs.formed⟩
  fades := hb.fades.trans hbs.fades

/-- A node over what was built. -/
theorem BuiltAll.node {es : List (Slot × Held D)} {l : Kind} (hb : BuiltAll h h' es)
    (hk : Formed (l, es.map Prod.fst)) :
    Built h (value (.node h'.next l es)) (h'.alloc (Estate.block layout l es)) (.node h'.next l es) where
  holds bs hh := (hb.holds bs hh).alloc _
  value := rfl
  fresh x hx := by
    rw [Estate.leaves, Estate.leavesOf_eq] at hx
    obtain ⟨e, he, hx⟩ := List.mem_flatMap.1 hx
    exact hb.fresh e he x hx
  formed s hs := by
    rw [Estate.shapes, Estate.shapesOf_eq] at hs
    rcases List.mem_cons.1 hs with rfl | hs
    · exact hk
    · obtain ⟨e, he, hs⟩ := List.mem_flatMap.1 hs
      exact hb.formed e he s hs
  fades := hb.fades.trans (.alloc _ _)

/-- A value that owns nothing. -/
theorem built_leaf (hc : view c = .plain) (ht : c.data_.target = none) : Built h (leafValue c) h (.leaf c) where
  holds _ hh := hh
  value := rfl
  fresh x hx := by
    rw [List.mem_singleton.1 hx]
    exact ⟨hc, ht⟩
  formed s hs := by cases hs
  fades := .refl h

mutual

theorem construct_spec (h : Memory D) : ∀ v : JsonValue D,
    ∃ w : Held D, (construct h v).2 = w.cell layout ∧ Built h v (construct h v).1 w
  | .null => ⟨.leaf ⟨.null, .unset⟩, rfl, built_leaf (c := ⟨.null, .unset⟩) rfl rfl⟩
  | .bool b => ⟨.leaf ⟨.bool, .bool_val b⟩, rfl, built_leaf (c := ⟨.bool, .bool_val b⟩) rfl rfl⟩
  | .int n => ⟨.leaf ⟨.int, .int_val n⟩, rfl, built_leaf (c := ⟨.int, .int_val n⟩) rfl rfl⟩
  | .double d => ⟨.leaf ⟨.double, .double_val d⟩, rfl, built_leaf (c := ⟨.double, .double_val d⟩) rfl rfl⟩
  | .string s =>
    ⟨.atom h.next s, rfl, fun bs hh => hh.alloc _, rfl, fun x hx => (by cases hx), fun s hs => (by cases hs),
      .alloc _ _⟩
  | .array xs => by
    obtain ⟨es, hcells, hvals, hkeys, hb⟩ := constructElems_spec h 0 xs
    have hformed : Formed (.arr, es.map Prod.fst) := by
      show es.map Prod.fst = (List.range (es.map Prod.fst).length).map Slot.index
      rw [List.length_map, List.range_eq_range', hkeys]
    have hnode := hb.node hformed
    rw [value, hvals] at hnode
    refine ⟨.node (constructElems h 0 xs).1.next .arr es, rfl, ?_⟩
    rw [construct, hcells]
    exact hnode
  | .object kvs => by
    obtain ⟨es, hcells, hvals, hkeys, hb⟩ := constructMembers_spec h kvs
    have hnode := hb.node (l := .obj) hkeys
    rw [value, hvals] at hnode
    refine ⟨.node (constructMembers h kvs).1.next .obj es, rfl, ?_⟩
    rw [construct, hcells]
    exact hnode

theorem constructElems_spec (h : Memory D) (i : Nat) : ∀ xs : List (JsonValue D),
    ∃ es : List (Slot × Held D), constructElems h i xs =
        ((constructElems h i xs).1, es.map (fun e => (e.1, e.2.cell layout))) ∧ elems es = xs ∧
      es.map Prod.fst = (List.range' i es.length).map Slot.index ∧ BuiltAll h (constructElems h i xs).1 es
  | [] => ⟨[], rfl, rfl, rfl, fun _ hh => hh, List.forall_mem_nil _, List.forall_mem_nil _, .refl h⟩
  | v :: vs => by
    obtain ⟨w, hcell, hb⟩ := construct_spec h v
    obtain ⟨es, hcells, hvals, hkeys, hbs⟩ := constructElems_spec (construct h v).1 (i + 1) vs
    refine ⟨(.index i, w) :: es, ?_, ?_, ?_, BuiltAll.cons hb hbs⟩
    · rw [constructElems]
      simp only [hcell]
      rw [hcells]
      rfl
    · rw [elems, hb.value, hvals]
    · rw [List.map_cons, List.length_cons, List.range'_succ, List.map_cons, hkeys]

theorem constructMembers_spec (h : Memory D) : ∀ kvs : List (List UInt8 × JsonValue D),
    ∃ es : List (Slot × Held D), constructMembers h kvs =
        ((constructMembers h kvs).1, es.map (fun e => (e.1, e.2.cell layout))) ∧ members es = kvs ∧
      (∀ s ∈ es.map Prod.fst, ∃ n, s = .key n) ∧ BuiltAll h (constructMembers h kvs).1 es
  | [] => ⟨[], rfl, rfl, List.forall_mem_nil _, fun _ hh => hh, List.forall_mem_nil _, List.forall_mem_nil _, .refl h⟩
  | (k, v) :: kvs => by
    obtain ⟨w, hcell, hb⟩ := construct_spec h v
    obtain ⟨es, hcells, hvals, hkeys, hbs⟩ := constructMembers_spec (construct h v).1 kvs
    refine ⟨(.key k, w) :: es, ?_, ?_, ?_, BuiltAll.cons hb hbs⟩
    · rw [constructMembers]
      simp only [hcell]
      rw [hcells]
      rfl
    · rw [members, hb.value, hvals]
      rfl
    · exact List.forall_mem_cons.2 ⟨⟨k, rfl⟩, hkeys⟩

end

/-! ## Assigning what came new -/

/-- A value that was built is moved to the left side. -/
theorem assignTemporary_spec (hg : Good h t (w.blocks layout ++ lost)) (hw : Fresh w) (hwf : AllFormed w)
    (hp : t.Place p r.1 r.2) (hu : t.get p = some u) :
    ∃ h', assignTemporary h r (w.cell layout) = .ok h' ∧ Good h' (t.set p w) lost := by
  obtain ⟨h1, hretype, hholds, -, hfades, -, -⟩ := retype_spec
    (f := fun _ => .ok (w.cell layout).type_) hg hp hu (fun _ _ => rfl)
  obtain ⟨d', htransfer, -⟩ := transfer_cell (hw.clean h)
  obtain ⟨h2, hset, hholds2, -, hfades2⟩ := setRef_own hholds hp hu
  refine ⟨h2, ?_, hg.set hu (hfades.trans hfades2) hholds2 (hw.clean h2) hwf⟩
  rw [assignTemporary, hretype]
  simp only [bind, Except.bind, htransfer]
  exact hset

/-- A temporary that nobody took is destroyed. -/
theorem destroy_temporary (hg : Good h t (w.blocks layout ++ lost)) (hw : Fresh w) :
    ∃ h', destroyData (h.next + 1) h (w.cell layout) = .ok h' ∧ Good h' t lost := by
  have hh := hg.holds.perm (List.perm_append_comm_assoc ..)
  have hlen := hh.length_le
  rw [List.length_append] at hlen
  obtain ⟨h', hdel, hholds, -⟩ := delete_spec w (h.next + 1) h _ (fun x hx => (hw x hx).1) (by omega) hh
  have hfades := fades_delete _ _ _ _ hdel
  exact ⟨h', (destroyData_eq _ _ _).trans hdel, hholds, hg.plain, fun x hx => (hg.retired x hx).fades hfades, hg.formed⟩

/-- A value that owns nothing is written over what was destroyed. -/
theorem assign_leaf (hg : Good h t lost) (hp : t.Place p r.1 r.2) (hu : t.get p = some u) (hc : view c = .plain)
    (ht : c.data_.target = none) :
    ∃ h', (retype h r (fun _ => .ok c.type_) >>= fun x => setRef x.1 r { x.2 with data_ := c.data_ }) = .ok h' ∧
      Good h' (t.set p (.leaf c)) lost := by
  obtain ⟨h1, hretype, hholds, -, hfades, -, -⟩ := retype_spec (f := fun _ => .ok c.type_) hg hp hu (fun _ _ => rfl)
  obtain ⟨h2, hset, hholds2, -, hfades2⟩ := setRef_leaf hholds hp hu c
  have hb : Built h2 (leafValue c) h2 (.leaf c) := built_leaf hc ht
  refine ⟨h2, ?_, hg.set hu (hfades.trans hfades2) hholds2 (hb.fresh.clean h2) hb.formed⟩
  rw [hretype]
  exact hset

theorem assignLiteral_spec (hg : Good h t lost) (hp : t.Place p r.1 r.2) (hu : t.get p = some u) (x : Literal D) :
    ∃ h' w, assignLiteral h r x = .ok h' ∧ Good h' (t.set p w) lost ∧ value w = x.value := by
  cases x with
  | bool b =>
    obtain ⟨h', hassign, hg'⟩ := assign_leaf (c := ⟨.bool, .bool_val b⟩) hg hp hu rfl rfl
    exact ⟨h', _, hassign, hg', rfl⟩
  | int n =>
    obtain ⟨h', hassign, hg'⟩ := assign_leaf (c := ⟨.int, .int_val n⟩) hg hp hu rfl rfl
    exact ⟨h', _, hassign, hg', rfl⟩
  | double d =>
    obtain ⟨h', hassign, hg'⟩ := assign_leaf (c := ⟨.double, .double_val d⟩) hg hp hu rfl rfl
    exact ⟨h', _, hassign, hg', rfl⟩
  | string s =>
    obtain ⟨h1, hretype, hholds, -, hfades, -, -⟩ := retype_spec (f := fun _ => .ok .string) hg hp hu (fun _ _ => rfl)
    have hheld := (hholds.alloc (.atom s)).perm List.perm_middle.symm
    obtain ⟨h2, hset, hholds2, -, hfades2⟩ := setRef_own (v := .atom h1.next s) hheld hp hu
    refine ⟨h2, .atom h1.next s, ?_, hg.set hu ((hfades.trans (.alloc _ _)).trans hfades2) hholds2
      (fun x hx => by cases hx) (fun s hs => by cases hs), rfl⟩
    rw [assignLiteral, hretype]
    exact hset

/-! ## push_back -/

theorem formed_concat {es : List (Slot × Held D)} (hf : Formed (.arr, es.map Prod.fst)) :
    Formed (.arr, (es ++ [(Slot.index es.length, w)]).map Prod.fst) := by
  have hkeys : es.map Prod.fst = (List.range (es.map Prod.fst).length).map Slot.index := hf
  rw [List.length_map] at hkeys
  show _ = (List.range _).map Slot.index
  rw [List.length_map, List.length_append, List.map_append, hkeys]
  simp [List.range_succ]

/-- **`push_back` adds a copy**, of whatever value. -/
theorem pushBack_spec (hg : Good h t lost) (hp : t.Place p r.1 r.2) (hu : t.get p = some u)
    (hq : t.Place q r'.1 r'.2) (hv : t.get q = some v) :
    (∀ xs, value u = .array xs → ∃ h' u', pushBack h r r' = .ok (h', .ok ()) ∧ Good h' (t.set p u') lost ∧
      value u' = .array (xs ++ [value v])) ∧
    ((∀ xs, value u ≠ .array xs) → pushBack h r r' =
      .ok (h, .error (.domainError (utf8 "JsonValue: cannot push_back to non-array")))) := by
  have hget := getRef_spec hg.holds hp hu
  have hother : (u.cell layout).type_ ≠ .array → pushBack h r r' =
      .ok (h, .error (.domainError (utf8 "JsonValue: cannot push_back to non-array"))) := fun hne => by
    rw [pushBack, hget]
    exact if_pos hne
  cases u with
  | leaf c =>
    have hc := hg.plain c (Estate.leaves_get hu List.mem_cons_self)
    refine ⟨fun xs hxs => ?_, fun _ => hother (leaf_type hc).2.1⟩
    rw [value] at hxs
    unfold leafValue at hxs
    split at hxs <;> cases hxs
  | atom a x => exact ⟨fun xs hxs => (by cases hxs), fun _ => hother nofun⟩
  | node a l es =>
    cases l with
    | obj => exact ⟨fun xs hxs => (by cases hxs), fun _ => hother nofun⟩
    | arr =>
      refine ⟨fun xs hxs => ?_, fun hne => absurd rfl (hne _)⟩
      have hclean : ∀ x ∈ v.leaves, view x = .plain := fun x hx => hg.plain x (Estate.leaves_get hv hx)
      obtain ⟨h1, w, hcopy, hholds, hstrip, hleaves⟩ := copy_at hv hclean hg.holds
      have hdata : copyData (h.next + 1) h ⟨(v.cell layout).type_, .unset⟩ (v.cell layout) =
          .ok (h1, w.cell layout) := by
        rw [copyData_eq (h.next + 1) h ⟨(v.cell layout).type_, .unset⟩ (v.cell layout) rfl, received_copy, hcopy]
      have hheld := hholds.perm (List.perm_append_comm_assoc ..)
      have hblocks : (Estate.blocksOf layout (es ++ [(Slot.index es.length, w)])).Perm
          (Estate.blocksOf layout es ++ w.blocks layout) := by
        rw [Estate.blocksOf_eq, List.flatMap_append, ← Estate.blocksOf_eq]
        simp
      obtain ⟨h2, hwrite, hholds2, hnext2, hnone2⟩ := write_at _ hp hu hheld hblocks
      have hfades1 := (grows_copy _ _ _ _ _ hcopy).fades
      have hfades2 : h1.Fades h2 := .of_iff hnext2 hnone2
      have hread : readNode h1 .arr (some a) = .ok (es.map (fun e => (e.1, e.2.cell layout))) := readNode_spec hheld hu
      refine ⟨h2, .node a .arr (es ++ [(.index es.length, w)]), ?_, ?_, ?_⟩
      · have hblock : Estate.block layout .arr (es ++ [(Slot.index es.length, w)]) =
            .node .arr (es.map (fun e => (e.1, e.2.cell layout)) ++
              [(.index (es.map (fun e => (e.1, e.2.cell layout))).length, w.cell layout)]) := by
          rw [Estate.block, List.map_append, List.length_map]
          rfl
        rw [hblock] at hwrite
        have hstep : pushBack h r r' = (do
            let o ← getRef h r'
            let (h, x) ← copyData (h.next + 1) h ⟨o.type_, .unset⟩ o
            let es ← readNode h .arr (some a)
            let h ← h.write a (.node .arr (es ++ [(.index es.length, x)]))
            .ok (h, .ok ())) := by
          rw [pushBack, hget]
          rfl
        rw [hstep, getRef_spec hg.holds hq hv]
        simp only [bind, Except.bind, hdata, hread, hwrite]
      · refine hg.rewrite hu (hfades1.trans hfades2) hholds2 (w := w) (fun e he => ?_)
          (clean_dup (fun x hx => ⟨hclean x hx, hg.retired x (Estate.leaves_get hv hx)⟩) (hfades1.trans hfades2)
            hleaves)
          (fun s hs => ?_) (formed_concat (hg.formed.get hu).node)
        · rcases List.mem_append.1 he with he | he
          · exact .inl he
          · exact .inr (congrArg Prod.snd (List.mem_singleton.1 he))
        · exact hg.formed.get hv s (by rwa [← Estate.shapes_strip layout, ← hstrip, Estate.shapes_strip])
      · rw [value] at hxs
        cases hxs
        rw [value, elems_eq, elems_eq, List.map_append, ← value_of_strip hstrip]
        rfl

end JsonHeap
end MiniRos2

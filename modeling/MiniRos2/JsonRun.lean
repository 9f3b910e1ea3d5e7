import MiniRos2.JsonProgram
/-!
# JsonRun — whole programs over `JsonValue` variables

However a program is run, the memory holds at its end the values it should, in one block for every string, array and
object among them, and when its variables are destroyed every block is freed but those that a value was moved into
itself with (`run_refines`).  A program leaves nothing behind, and does nothing undefined, exactly when no
statement of it that gets to its assignment has one operand in the other (`run_clean_iff`).
-/
namespace MiniRos2
namespace JsonHeap

open Owned

variable {D : Type}

/-- The value of a cell, read from the heap. -/
def readValue : Nat → Memory D → Cell D → Except Fault (JsonValue D)
  | 0, _, _ => .error .starved
  | n + 1, h, c =>
    match c.type_ with
    | .null => .ok .null
    | .bool => do .ok (.bool (← c.data_.boolVal))
    | .int => do .ok (.int (← c.data_.intVal))
    | .double => do .ok (.double (← c.data_.doubleVal))
    | .string => do .ok (.string (← readString h (← c.data_.strVal)))
    | .array => do
      let es ← readNode h .arr (← c.data_.arrVal)
      .ok (.array (← es.mapM (fun e => readValue n h e.2)))
    | .object => do
      let es ← readNode h .obj (← c.data_.objVal)
      let vs ← es.mapM (fun e => readValue n h e.2)
      .ok (.object ((es.map (fun e => e.1.name)).zip vs))

/-- The values of the variables. -/
def readStore (h : Memory D) : Except Fault (JsonValue D) := readValue (h.next + 1) h ⟨.array, .arr_val (some 0)⟩

variable {h h' : Memory D} {t u v : Held D} {n : Nat}
  {bs lost : List (Nat × Block (List UInt8) Slot (Cell D) Kind)} {p q : Path} {r r' : Ref} {c : Cell D}

theorem readValue_entries {m : Nat} : ∀ {es : List (Slot × Held D)},
    (∀ e ∈ es, readValue m h (e.2.cell layout) = .ok (value e.2)) →
    (es.map (fun e => (e.1, e.2.cell layout))).mapM (fun e => readValue m h e.2) = .ok (elems es)
  | [], _ => rfl
  | e :: es, he => by
    have hhead := he e List.mem_cons_self
    have hrest := readValue_entries (fun e' he' => he e' (List.mem_cons_of_mem _ he'))
    obtain ⟨s, t⟩ := e
    rw [List.map_cons, List.mapM_cons, hhead, hrest]
    rfl

theorem members_zip : ∀ es : List (Slot × Held D),
    ((es.map (fun e => (e.1, e.2.cell layout))).map (fun e => e.1.name)).zip (elems es) = members es
  | [] => rfl
  | (s, t) :: es => by
    have hrest := members_zip es
    rw [List.map_cons, List.map_cons, elems, List.zip_cons_cons, hrest, members]

/-- **What is read is the value**, wherever its blocks are. -/
theorem readValue_spec (t : Held D) : ∀ {m : Nat}, (∀ x ∈ t.leaves, view x = .plain) → (t.blocks layout).length < m →
    h.Holds bs → t.blocks layout ⊆ bs → readValue m h (t.cell layout) = .ok (value t) := by
  induction t using Estate.induct with
  | leaf c =>
    intro m hleaf hm _ _
    obtain ⟨m, rfl⟩ := Nat.exists_eq_succ_of_ne_zero (Nat.ne_of_gt hm)
    have hc := hleaf c List.mem_cons_self
    have htype := leaf_type hc
    obtain ⟨ty, d⟩ := c
    cases ty
    case null => rfl
    case string => exact absurd rfl htype.1
    case array => exact absurd rfl htype.2.1
    case object => exact absurd rfl htype.2.2
    all_goals cases d <;> first | rfl | cases hc
  | atom a s =>
    intro m _ hm hh hsub
    obtain ⟨m, rfl⟩ := Nat.exists_eq_succ_of_ne_zero (Nat.ne_of_gt (Nat.zero_lt_of_lt hm))
    have hread : h.read a = .ok (.atom s) := hh.read (hsub List.mem_cons_self)
    have hstring : readString h (some a) = .ok s := by
      rw [readString, hread]
      rfl
    refine Eq.trans (b := do .ok (.string (← readString h (some a)))) rfl ?_
    rw [hstring]
    rfl
  | node a l es ih =>
    intro m hleaf hm hh hsub
    obtain ⟨m, rfl⟩ := Nat.exists_eq_succ_of_ne_zero (Nat.ne_of_gt (Nat.zero_lt_of_lt hm))
    have hread : h.read a = .ok (Estate.block layout l es) := hh.read (hsub List.mem_cons_self)
    have hnode : readNode h l (some a) = .ok (es.map (fun e => (e.1, e.2.cell layout))) := by
      simp only [readNode, hread, bind, Except.bind, Estate.block, if_true]
    have hentries := readValue_entries (m := m) (h := h) (fun e (he : e ∈ es) => by
      have hmem : e.2.blocks layout ⊆ Estate.blocksOf layout es := fun b hb => by
        rw [Estate.blocksOf_eq]
        exact List.mem_flatMap.2 ⟨e, he, hb⟩
      refine ih e he (fun x hx => hleaf x ?_) ?_ hh (fun b hb => hsub (List.mem_cons_of_mem _ (hmem hb)))
      · rw [Estate.leaves, Estate.leavesOf_eq]
        exact List.mem_flatMap.2 ⟨e, he, hx⟩
      · have hle : (e.2.blocks layout).length ≤ (Estate.blocksOf layout es).length := by
          obtain ⟨pre, post, rfl⟩ := List.append_of_mem he
          have hperm := Estate.blocksOf_split layout e.1 e.2 pre post
          rw [hperm.length_eq, List.length_append]
          omega
        have hcons : ((Estate.node a l es).blocks layout).length = (Estate.blocksOf layout es).length + 1 := rfl
        omega)
    cases l with
    | arr =>
      refine Eq.trans (b := do
        let es ← readNode h .arr (some a)
        .ok (.array (← es.mapM (fun e => readValue m h e.2)))) rfl ?_
      rw [hnode]
      simp only [bind, Except.bind, hentries]
      rfl
    | obj =>
      refine Eq.trans (b := do
        let es ← readNode h .obj (some a)
        let vs ← es.mapM (fun e => readValue m h e.2)
        .ok (.object ((es.map (fun e => e.1.name)).zip vs))) rfl ?_
      rw [hnode]
      simp only [bind, Except.bind, hentries, members_zip]
      rfl

/-! ## The beginning and the end -/

theorem start_holding (n : Nat) : Holding n (start n : Memory D)
    (.node 0 .arr ((List.range n).map (fun i => (.index i, .leaf ⟨.null, .unset⟩)))) (World.start n) := by
  have hblocks : ∀ l : List Nat, Estate.blocksOf (layout (D := D))
      (l.map (fun i => (Slot.index i, Estate.leaf ⟨.null, .unset⟩))) = [] := fun l => by
    rw [Estate.blocksOf_eq, List.flatMap_eq_nil_iff]
    intro e he
    obtain ⟨i, -, rfl⟩ := List.mem_map.1 he
    rfl
  have hcells : ((List.range n).map (fun i => (Slot.index i, (Estate.leaf ⟨.null, .unset⟩ : Held D)))).map
      (fun e => (e.1, e.2.cell layout)) = (List.range n).map (fun i => (.index i, ⟨.null, .unset⟩)) := by
    rw [List.map_map]
    rfl
  refine ⟨⟨_, rfl, by rw [List.length_map, List.length_range]⟩, ⟨[], ⟨?_, ?_, ?_, ?_⟩, rfl⟩, ?_⟩
  · rw [Estate.blocks, hblocks, Estate.block, hcells]
    exact Heap.Holds.empty.alloc _
  · intro c hc
    rw [Estate.leaves, Estate.leavesOf_eq] at hc
    obtain ⟨e, he, hc⟩ := List.mem_flatMap.1 hc
    obtain ⟨i, -, rfl⟩ := List.mem_map.1 he
    rw [List.mem_singleton.1 hc]
    rfl
  · intro c hc
    rw [Estate.leaves, Estate.leavesOf_eq] at hc
    obtain ⟨e, he, hc⟩ := List.mem_flatMap.1 hc
    obtain ⟨i, -, rfl⟩ := List.mem_map.1 he
    rw [List.mem_singleton.1 hc]
    exact retired_of_target rfl _
  · intro s hs
    rw [Estate.shapes, Estate.shapesOf_eq] at hs
    rcases List.mem_cons.1 hs with rfl | hs
    · show _ = (List.range _).map Slot.index
      rw [List.length_map, List.length_map, List.length_range, List.map_map]
      rfl
    · obtain ⟨e, he, hs⟩ := List.mem_flatMap.1 hs
      obtain ⟨i, -, rfl⟩ := List.mem_map.1 he
      cases hs
  · rw [value, elems_eq, List.map_map]
    refine congrArg JsonValue.array ?_
    rw [List.eq_replicate_iff, List.length_map, List.length_range]
    refine ⟨rfl, fun x hx => ?_⟩
    obtain ⟨i, -, rfl⟩ := List.mem_map.1 hx
    rfl

theorem root_cell (hr : Rooted t n) : t.cell layout = ⟨.array, .arr_val (some 0)⟩ := by
  obtain ⟨es, rfl, -⟩ := hr
  rfl

/-- **What a memory that holds a world shows**: the values, in as many blocks as they need, and what is lost is what is
left when the variables are destroyed. -/
theorem Holding.observe {w : World D} (hh : Holding n h t w) : ∃ h', readStore h = .ok w.store ∧
    h.live = w.store.nodes + w.lost ∧ finish h = .ok h' ∧ h'.live = w.lost := by
  obtain ⟨lost, hg, hlost⟩ := hh.good
  have hlen := hg.holds.length_le
  rw [List.length_append] at hlen
  have hroot := root_cell hh.rooted
  obtain ⟨h', hdel, hholds, -⟩ := delete_spec t (h.next + 1) h lost hg.plain (by omega) hg.holds
  refine ⟨h', ?_, ?_, ?_, ?_⟩
  · rw [readStore, ← hroot, ← hh.store]
    exact readValue_spec t hg.plain (by omega) hg.holds (fun _ hb => List.mem_append_left _ hb)
  · rw [hg.holds.live, List.length_append, length_blocks, hh.store, hlost]
  · rw [finish, ← hroot, destroyData_eq]
    exact hdel
  · rw [hholds.live, hlost]

theorem run_matches : ∀ {prog : List (Stmt D)} {h : Memory D} {t : Held D} {w : World D}, Holding n h t w →
    (∀ s ∈ prog, s.Scoped n) →
    match evalAll prog w with
    | .error f => run prog h = .error f
    | .ok w' => ∃ h' t', run prog h = .ok h' ∧ Holding n h' t' w'
  | [], h, t, w, hh, _ => ⟨h, t, rfl, hh⟩
  | s :: prog, h, t, w, hh, hs => by
    have hstep := exec_matches hh (hs s List.mem_cons_self)
    unfold evalAll run
    rw [List.foldlM_cons, List.foldlM_cons]
    cases he : s.eval w with
    | error f =>
      rw [he] at hstep
      have hexec : exec h s = .error f := hstep
      rw [hexec]
      rfl
    | ok x =>
      rw [he] at hstep
      obtain ⟨h1, t1, hexec, hh1⟩ := hstep
      rw [hexec]
      exact run_matches hh1 (fun s' hs' => hs s' (List.mem_cons_of_mem _ hs'))

/-- **A program over `JsonValue` variables does what it means.**  Where its meaning is undefined, so is the run; else
the variables have the values they should have, in blocks of their own, and when they are destroyed there are left the
blocks that were lost. -/
theorem run_refines (n : Nat) (prog : List (Stmt D)) (hs : ∀ s ∈ prog, s.Scoped n) :
    match evalAll prog (World.start n) with
    | .error f => run prog (start n) = .error f
    | .ok w => ∃ h h', run prog (start n) = .ok h ∧ readStore h = .ok w.store ∧ h.live = w.store.nodes + w.lost ∧
      finish h = .ok h' ∧ h'.live = w.lost := by
  have hrun := run_matches (start_holding n) hs
  cases he : evalAll prog (World.start n) with
  | error f =>
    rw [he] at hrun
    exact hrun
  | ok w =>
    rw [he] at hrun
    obtain ⟨h, t, hrun, hh⟩ := hrun
    obtain ⟨h', hread, hlive, hfin, hleft⟩ := hh.observe
    exact ⟨h, h', hrun, hread, hlive, hfin, hleft⟩

/-- `v["a"] = 7; w = v; v["a"] = std::move(v);` -/
theorem run_refines_self : ∃ h h', run [.literal ⟨0, [.key [97]]⟩ (.int 7), .assign ⟨1, []⟩ ⟨0, []⟩,
      .move ⟨0, [.key [97]]⟩ ⟨0, []⟩] (start 2 : Memory (List UInt8)) = .ok h ∧
    readStore h = .ok (.array [.null, .object [([97], .int 7)]]) ∧ h.live = 3 ∧ finish h = .ok h' ∧ h'.live = 1 :=
  run_refines 2 [.literal ⟨0, [.key [97]]⟩ (.int 7), .assign ⟨1, []⟩ ⟨0, []⟩, .move ⟨0, [.key [97]]⟩ ⟨0, []⟩]
    (by simp [Stmt.Scoped])

/-! ## Programs that leave nothing behind -/

namespace Stmt

/-- One operand is in the other, or is the other where that is not looked for. -/
def Overlaps : Stmt D → Prop
  | .assign p q => p ≠ q ∧ ¬ Apart p.pos q.pos
  | .move p q => p ≠ q ∧ ¬ Apart p.pos q.pos
  | .inner _ p q => ¬ Apart p.pos q.pos
  | _ => False

/-- No operand of the statement ends it with an exception. -/
def Arrives (w : World D) : Stmt D → Prop
  | .assign p q => (w.store.reach q.pos).2 = none ∧ ((w.store.reach q.pos).1.reach p.pos).2 = none
  | .move p q => (w.store.reach q.pos).2 = none ∧ ((w.store.reach q.pos).1.reach p.pos).2 = none
  | .inner k p q => (w.store.reach q.pos).2 = none ∧
    typeOf (World.value { w with store := (w.store.reach q.pos).1 } q) = k.type ∧
    ((w.store.reach q.pos).1.reach p.pos).2 = none
  | _ => True

/-- **The statement gets to an assignment between a value and a part of it.** -/
def Harmful (w : World D) (s : Stmt D) : Prop := s.Arrives w ∧ s.Overlaps

end Stmt

theorem operand_ok {w : World D} {f : World D → Except Fault (World D × Option Exn)}
    (h : (w.store.reach p.pos).2 = none) : w.operand p f = f { w with store := (w.store.reach p.pos).1 } := by
  unfold World.operand
  generalize w.store.reach p.pos = x at h
  obtain ⟨v, e⟩ := x
  cases h
  rfl

theorem operand_throws {w : World D} {f : World D → Except Fault (World D × Option Exn)} {e : Exn}
    (h : (w.store.reach p.pos).2 = some e) :
    w.operand p f = .ok ({ w with store := (w.store.reach p.pos).1 }, some e) := by
  unfold World.operand
  generalize w.store.reach p.pos = x at h
  obtain ⟨v, e'⟩ := x
  cases h
  rfl

/-- What a statement does to what is lost. -/
def Loses (w : World D) (x : Except Fault (World D × Option Exn)) (harm : Prop) : Prop :=
  (¬ harm → ∃ w' e, x = .ok (w', e) ∧ w'.lost = w.lost) ∧
  (harm → x = .error .undefined ∨ ∃ w' e, x = .ok (w', e) ∧ w.lost < w'.lost)

theorem loses_nothing {w w' : World D} {harm : Prop} {e : Option Exn} (hw : w'.lost = w.lost) (hharm : ¬ harm) :
    Loses w (.ok (w', e)) harm := ⟨fun _ => ⟨w', e, rfl, hw⟩, fun h => absurd h hharm⟩

theorem assign_loses (w : World D) (p q : Path) : Loses w ((Stmt.assign p q).eval w) ((Stmt.assign p q).Harmful w) := by
  rw [Stmt.eval]
  cases hq : (w.store.reach q.pos).2 with
  | some e =>
    rw [operand_throws hq]
    exact loses_nothing rfl (fun h => by rw [h.1.1] at hq; cases hq)
  | none =>
    rw [operand_ok hq]
    cases hp : ((w.store.reach q.pos).1.reach p.pos).2 with
    | some e =>
      rw [operand_throws hp]
      exact loses_nothing rfl (fun h => by rw [h.1.2] at hp; cases hp)
    | none =>
      rw [operand_ok hp]
      by_cases heq : p = q
      · rw [if_pos heq]
        exact loses_nothing rfl (fun h => h.2.1 heq)
      · rw [if_neg heq]
        by_cases hapart : Apart p.pos q.pos
        · rw [if_pos hapart]
          exact loses_nothing rfl (fun h => h.2.2 hapart)
        · rw [if_neg hapart]
          exact ⟨fun h => absurd ⟨⟨hq, hp⟩, heq, hapart⟩ h, fun _ => .inl rfl⟩

theorem move_loses (w : World D) (p q : Path) : Loses w ((Stmt.move p q).eval w) ((Stmt.move p q).Harmful w) := by
  rw [Stmt.eval]
  cases hq : (w.store.reach q.pos).2 with
  | some e =>
    rw [operand_throws hq]
    exact loses_nothing rfl (fun h => by rw [h.1.1] at hq; cases hq)
  | none =>
    rw [operand_ok hq]
    cases hp : ((w.store.reach q.pos).1.reach p.pos).2 with
    | some e =>
      rw [operand_throws hp]
      exact loses_nothing rfl (fun h => by rw [h.1.2] at hp; cases hp)
    | none =>
      rw [operand_ok hp]
      by_cases heq : p = q
      · rw [if_pos heq]
        exact loses_nothing rfl (fun h => h.2.1 heq)
      · rw [if_neg heq]
        by_cases hapart : Apart p.pos q.pos
        · rw [if_pos hapart]
          exact loses_nothing rfl (fun h => h.2.2 hapart)
        · rw [if_neg hapart]
          have hharm : (Stmt.move p q).Harmful w := ⟨⟨hq, hp⟩, heq, hapart⟩
          refine ⟨fun h => absurd hharm h, fun _ => ?_⟩
          by_cases hpre : q.pos <+: p.pos
          · rw [if_pos hpre]
            refine .inr ⟨_, _, rfl, ?_⟩
            -- what is moved is an array or an object, as it has a part
            obtain ⟨s, hs⟩ := hpre
            obtain ⟨x, hx⟩ := JsonValue.get?_reach hp
            rw [← hs] at hx
            obtain ⟨y, hy, hyx⟩ := JsonValue.get?_of_append hx
            have hval : World.value ⟨((w.store.reach q.pos).1.reach p.pos).1, w.lost⟩ q = y := by
              rw [World.value, ← hs, hy]
              rfl
            cases s with
            | nil => exact absurd (pos_inj (by rw [← hs, List.append_nil])) heq
            | cons k s =>
              show w.lost < _ + w.lost
              have hpos := JsonValue.nodes_put_pos (w := .null) hyx
              rw [hval, ← hs, List.drop_left]
              omega
          · rw [if_neg hpre]
            exact .inl rfl

theorem inner_loses (w : World D) (k : Inner) (p q : Path) :
    Loses w ((Stmt.inner k p q).eval w) ((Stmt.inner k p q).Harmful w) := by
  rw [Stmt.eval]
  cases hq : (w.store.reach q.pos).2 with
  | some e =>
    rw [operand_throws hq]
    exact loses_nothing rfl (fun h => by rw [h.1.1] at hq; cases hq)
  | none =>
    rw [operand_ok hq]
    by_cases hk : typeOf (World.value { w with store := (w.store.reach q.pos).1 } q) = k.type
    · rw [if_neg (not_not.2 hk)]
      cases hp : ((w.store.reach q.pos).1.reach p.pos).2 with
      | some e =>
        rw [operand_throws hp]
        exact loses_nothing rfl (fun h => by rw [h.1.2.2] at hp; cases hp)
      | none =>
        rw [operand_ok hp]
        by_cases hapart : Apart p.pos q.pos
        · rw [if_pos hapart]
          exact loses_nothing rfl (fun h => h.2 hapart)
        · rw [if_neg hapart]
          exact ⟨fun h => absurd ⟨⟨hq, hk, hp⟩, hapart⟩ h, fun _ => .inl rfl⟩
    · rw [if_pos hk]
      exact loses_nothing rfl (fun h => hk h.1.2.1)

/-- An operand of a statement that is harmless anyway. -/
theorem operand_loses {w : World D} {f : World D → Except Fault (World D × Option Exn)}
    (hf : ∀ v, Loses w (f { w with store := v }) False) : Loses w (w.operand p f) False := by
  cases hp : (w.store.reach p.pos).2 with
  | some e =>
    rw [operand_throws hp]
    exact loses_nothing rfl id
  | none =>
    rw [operand_ok hp]
    exact hf _

/-- **Just the harmful statements are undefined or lose something.** -/
theorem eval_loses (w : World D) : ∀ s : Stmt D, Loses w (s.eval w) (s.Harmful w)
  | .assign p q => assign_loses w p q
  | .move p q => move_loses w p q
  | .inner k p q => inner_loses w k p q
  | .literal p x => by
    have h : Loses w ((Stmt.literal p x).eval w) False := by
      rw [Stmt.eval]
      exact operand_loses (fun _ => loses_nothing rfl id)
    exact ⟨fun _ => h.1 id, fun hharm => hharm.2.elim⟩
  | .load p v => by
    have h : Loses w ((Stmt.load p v).eval w) False := by
      rw [Stmt.eval]
      exact operand_loses (fun _ => loses_nothing rfl id)
    exact ⟨fun _ => h.1 id, fun hharm => hharm.2.elim⟩
  | .pushBack p q => by
    have h : Loses w ((Stmt.pushBack p q).eval w) False := by
      rw [Stmt.eval]
      refine operand_loses (fun s => operand_loses (w := { w with store := s }) (fun s' => ?_))
      cases World.value { w with store := s' } p with
      | array xs => exact loses_nothing rfl id
      | _ => exact loses_nothing rfl id
    exact ⟨fun _ => h.1 id, fun hharm => hharm.2.elim⟩

/-- No statement of the program is harmful in the world it is executed in. -/
def Careful : List (Stmt D) → World D → Prop
  | [], _ => True
  | s :: prog, w => ¬ s.Harmful w ∧ ∀ w' e, s.eval w = .ok (w', e) → Careful prog w'

theorem evalAll_lost : ∀ {prog : List (Stmt D)} {w w' : World D}, evalAll prog w = .ok w' → w.lost ≤ w'.lost
  | [], w, w', h => by cases h; exact Nat.le_refl _
  | s :: prog, w, w', h => by
    unfold evalAll at h
    rw [List.foldlM_cons] at h
    obtain ⟨hsafe, hharm⟩ := eval_loses w s
    by_cases hs : s.Harmful w
    · rcases hharm hs with he | ⟨w1, e, he, hlt⟩
      · rw [he] at h
        cases h
      · rw [he] at h
        exact Nat.le_trans (Nat.le_of_lt hlt) (evalAll_lost h)
    · obtain ⟨w1, e, he, heq⟩ := hsafe hs
      rw [he] at h
      rw [← heq]
      exact evalAll_lost h

theorem careful_iff : ∀ {prog : List (Stmt D)} {w : World D},
    Careful prog w ↔ ∃ w', evalAll prog w = .ok w' ∧ w'.lost = w.lost
  | [], w => ⟨fun _ => ⟨w, rfl, rfl⟩, fun _ => trivial⟩
  | s :: prog, w => by
    obtain ⟨hsafe, hharm⟩ := eval_loses w s
    have hcons : ∀ {w1 e}, s.eval w = .ok (w1, e) → evalAll (s :: prog) w = evalAll prog w1 := fun he => by
      unfold evalAll
      rw [List.foldlM_cons, he]
      rfl
    constructor
    · rintro ⟨hs, hrest⟩
      obtain ⟨w1, e, he, heq⟩ := hsafe hs
      obtain ⟨w', hall, hlost⟩ := careful_iff.1 (hrest w1 e he)
      exact ⟨w', (hcons he).trans hall, hlost.trans heq⟩
    · rintro ⟨w', hall, hlost⟩
      have hs : ¬ s.Harmful w := by
        intro hs
        rcases hharm hs with he | ⟨w1, e, he, hlt⟩
        · unfold evalAll at hall
          rw [List.foldlM_cons, he] at hall
          cases hall
        · have hle := evalAll_lost ((hcons he).symm.trans hall)
          omega
      refine ⟨hs, fun w1 e he => ?_⟩
      obtain ⟨w2, e2, he2, heq⟩ := hsafe hs
      rw [he2, Except.ok.injEq, Prod.mk.injEq] at he
      obtain ⟨rfl, rfl⟩ := he
      exact careful_iff.2 ⟨w', (hcons he2).symm.trans hall, hlost.trans heq.symm⟩

/-- **A program leaves no block behind, and does nothing undefined, exactly when no statement of it gets to an
assignment between a value and a part of it.** -/
theorem run_clean_iff (n : Nat) (prog : List (Stmt D)) (hs : ∀ s ∈ prog, s.Scoped n) :
    (∃ h h', run prog (start n) = .ok h ∧ finish h = .ok h' ∧ h'.live = 0) ↔ Careful prog (World.start n) := by
  have hrun := run_matches (start_holding n) hs
  rw [careful_iff]
  cases he : evalAll prog (World.start n) with
  | error f =>
    rw [he] at hrun
    constructor
    · rintro ⟨h, -, hh, -⟩
      rw [hrun] at hh
      cases hh
    · rintro ⟨w, hw, -⟩
      cases hw
  | ok w =>
    rw [he] at hrun
    obtain ⟨h, t, hrun, hh⟩ := hrun
    obtain ⟨h', -, -, hfin, hleft⟩ := hh.observe
    constructor
    · rintro ⟨h1, h1', hrun1, hfin1, hlive⟩
      rw [hrun, Except.ok.injEq] at hrun1
      subst hrun1
      rw [hfin, Except.ok.injEq] at hfin1
      subst hfin1
      exact ⟨w, rfl, hleft.symm.trans hlive⟩
    · rintro ⟨w', hw, hlost⟩
      cases hw
      exact ⟨h, h', hrun, hfin, hleft.trans hlost⟩

/-- `v["a"] = 7; v["a"] = std::move(v);` -/
theorem run_clean_iff_self : ¬ ∃ h h', run [.literal ⟨0, [.key [97]]⟩ (.int 7), .move ⟨0, [.key [97]]⟩ ⟨0, []⟩]
    (start 1 : Memory (List UInt8)) = .ok h ∧ finish h = .ok h' ∧ h'.live = 0 := by
  rw [run_clean_iff 1 _ (by simp [Stmt.Scoped])]
  rintro ⟨-, hcareful⟩
  obtain ⟨hharm, -⟩ := hcareful _ _ rfl
  exact hharm ⟨⟨rfl, rfl⟩, by decide, by decide⟩

end JsonHeap
end MiniRos2

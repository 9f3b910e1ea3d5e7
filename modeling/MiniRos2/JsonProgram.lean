import MiniRos2.JsonBuild
/-!
# JsonProgram — programs over `JsonValue` variables

A program is a list of statements over variables, each an assignment or a `push_back` with paths of `operator[]` as
its operands; an exception ends its statement and is caught.  Against the memory stands the `World` of values, in
which an assignment puts the value on the right at the place on the left: whatever the program, the memory holds the
values of the `World` and besides what was lost (`run_refines`).  The two differ from plain values where one operand
is in the other: such a copy is undefined, and such a move loses what is moved.
-/
namespace MiniRos2
namespace JsonHeap

open Owned

variable {D : Type}

/-- A variable followed by a chain of `operator[]`. -/
structure Path where
  var : Nat
  steps : List Slot
  deriving DecidableEq

namespace Path

/-- The variable is a cell of the block at address 0. -/
def ref (p : Path) : Ref := (0, .index p.var)

def pos (p : Path) : List Slot := .index p.var :: p.steps

end Path

inductive Inner where
  | asString
  | asArray
  | asObject

namespace Inner

def type : Inner → JsonType
  | .asString => .string
  | .asArray => .array
  | .asObject => .object

def exn : Inner → Exn
  | .asString => .domainError (utf8 "JsonValue: not a string")
  | .asArray => .domainError (utf8 "JsonValue: not an array")
  | .asObject => .domainError (utf8 "JsonValue: not an object")

end Inner

inductive Stmt (D : Type) where
  /-- `p = q;` -/
  | assign (p q : Path)
  /-- `p = std::move(q);` -/
  | move (p q : Path)
  /-- `p = q.asString();`, and so for an array and an object -/
  | inner (k : Inner) (p q : Path)
  /-- `p = 7;`, and so for the other literals -/
  | literal (p : Path) (x : Literal D)
  /-- `p = JsonValue::deserialize(text);`, or any other temporary with the value -/
  | load (p : Path) (v : JsonValue D)
  /-- `p.push_back(q);` -/
  | pushBack (p q : Path)

/-- The variables of the program are declared. -/
def Stmt.Scoped (n : Nat) : Stmt D → Prop
  | .assign p q => p.var < n ∧ q.var < n
  | .move p q => p.var < n ∧ q.var < n
  | .inner _ p q => p.var < n ∧ q.var < n
  | .literal p _ => p.var < n
  | .load p _ => p.var < n
  | .pushBack p q => p.var < n ∧ q.var < n

/-! ## In memory -/

/-- The operands of a statement, in the order they are evaluated. -/
def operand (h : Memory D) (p : Path) (f : Memory D → Ref → Except Fault (Memory D × Option Exn)) :
    Except Fault (Memory D × Option Exn) := do
  let (h, x) ← locate h p.ref p.steps
  match x with
  | .error e => .ok (h, some e)
  | .ok r => f h r

/-- A statement, with the exception that ended it.  The right side of an assignment is evaluated first. -/
def exec (h : Memory D) : Stmt D → Except Fault (Memory D × Option Exn)
  | .assign p q => operand h q fun h r' => operand h p fun h r => do .ok (← assignCopy h r r', none)
  | .move p q => operand h q fun h r' => operand h p fun h r => do .ok (← assignMove h r r', none)
  | .inner k p q => operand h q fun h r' => do
    let c ← getRef h r'
    if c.type_ ≠ k.type then .ok (h, some k.exn)
    else operand h p fun h r => do .ok (← assignBlock h r c.type_ c.data_, none)
  | .literal p x => operand h p fun h r => do .ok (← assignLiteral h r x, none)
  | .load p v =>
    let (h, o) := construct h v
    do
      let (h, x) ← locate h p.ref p.steps
      match x with
      | .error e => .ok (← destroyData (h.next + 1) h o, some e)
      | .ok r => .ok (← assignTemporary h r o, none)
  | .pushBack p q => operand h p fun h r => operand h q fun h r' => do
    let (h, x) ← pushBack h r r'
    match x with
    | .error e => .ok (h, some e)
    | .ok () => .ok (h, none)

def run (prog : List (Stmt D)) (h : Memory D) : Except Fault (Memory D) :=
  prog.foldlM (fun h s => do .ok (← exec h s).1) h

/-- `n` variables, declared without a value. -/
def start (n : Nat) : Memory D :=
  Heap.empty.alloc (.node .arr ((List.range n).map (fun i => (.index i, ⟨.null, .unset⟩))))

/-- The end of the scope: the variables are destroyed. -/
def finish (h : Memory D) : Except Fault (Memory D) := destroyData (h.next + 1) h ⟨.array, .arr_val (some 0)⟩

/-! ## With values -/

/-- The values of the variables, as the elements of an array, and how many blocks nobody owns. -/
structure World (D : Type) where
  store : JsonValue D
  lost : Nat

namespace World

def start (n : Nat) : World D := ⟨.array (List.replicate n .null), 0⟩

/-- What is at a position that was reached. -/
def value (w : World D) (p : Path) : JsonValue D := (w.store.get? p.pos).getD .null

def put (w : World D) (p : Path) (v : JsonValue D) : World D := { w with store := w.store.put p.pos v }

def operand (w : World D) (p : Path) (f : World D → Except Fault (World D × Option Exn)) :
    Except Fault (World D × Option Exn) :=
  match w.store.reach p.pos with
  | (v, some e) => .ok ({ w with store := v }, some e)
  | (v, none) => f { w with store := v }

end World

/-- The type of a value. -/
def typeOf : JsonValue D → JsonType
  | .null => .null
  | .bool _ => .bool
  | .int _ => .int
  | .double _ => .double
  | .string _ => .string
  | .array _ => .array
  | .object _ => .object

namespace Stmt

/-- What a statement means for values: nothing is defined when something is copied into a part of it, or out of a part
of what is overwritten. -/
def eval (w : World D) : Stmt D → Except Fault (World D × Option Exn)
  | .assign p q => w.operand q fun w => w.operand p fun w =>
    if p = q then .ok (w, none)
    else if Apart p.pos q.pos then .ok (w.put p (w.value q), none)
    else .error .undefined
  | .move p q => w.operand q fun w => w.operand p fun w =>
    if p = q then .ok (w, none)
    else if Apart p.pos q.pos then .ok ((w.put q .null).put p (w.value q), none)
    -- the left side is a part of what is moved, and goes with it
    else if q.pos <+: p.pos then
      .ok (⟨w.store.put q.pos .null, ((w.value q).put (p.pos.drop q.pos.length) .null).nodes + w.lost⟩, none)
    else .error .undefined
  | .inner k p q => w.operand q fun w =>
    if typeOf (w.value q) ≠ k.type then .ok (w, some k.exn)
    else w.operand p fun w =>
      if Apart p.pos q.pos then .ok (w.put p (w.value q), none) else .error .undefined
  | .literal p x => w.operand p fun w => .ok (w.put p x.value, none)
  | .load p v => w.operand p fun w => .ok (w.put p v, none)
  | .pushBack p q => w.operand p fun w => w.operand q fun w =>
    match w.value p with
    | .array xs => .ok (w.put p (.array (xs ++ [w.value q])), none)
    | _ => .ok (w, some (.domainError (utf8 "JsonValue: cannot push_back to non-array")))

end Stmt

def evalAll (prog : List (Stmt D)) (w : World D) : Except Fault (World D) :=
  prog.foldlM (fun w s => do .ok (← s.eval w).1) w

/-! ## Paths -/

variable {h h' : Memory D} {t u v : Held D} {n : Nat}
  {lost : List (Nat × Block (List UInt8) Slot (Cell D) Kind)} {p q : Path} {r r' : Ref} {c : Cell D}

/-- The tree of the variables. -/
def Rooted (t : Held D) (n : Nat) : Prop := ∃ es, t = .node 0 .arr es ∧ es.length = n

theorem Rooted.set {s : Slot} {ks : List Slot} (hr : Rooted t n) (hv : t.get (s :: ks) = some v) :
    Rooted (t.set (s :: ks) u) n := by
  obtain ⟨es, rfl, hlen⟩ := hr
  obtain ⟨_, _, _, w, heq, hw, -⟩ := Estate.get_cons_eq_some hv
  cases heq
  refine ⟨_, Estate.set_cons hw, ?_⟩
  have hkeys := congrArg List.length (OrdMap.keys_replace (k := s) (v := w.set ks u) es)
  rw [List.length_map, List.length_map] at hkeys
  exact hkeys.trans hlen

/-- **A memory that holds the values of a world.** -/
structure Holding (n : Nat) (h : Memory D) (t : Held D) (w : World D) : Prop where
  rooted : Rooted t n
  good : ∃ lost, Good h t lost ∧ lost.length = w.lost
  store : value t = w.store

theorem var_place (hr : Rooted t n) (hf : AllFormed t) (hp : p.var < n) : t.Place [.index p.var] p.ref.1 p.ref.2 := by
  obtain ⟨es, rfl, rfl⟩ := hr
  exact ⟨[], .arr, es, rfl, rfl, find?_index_ne_none hf.node hp⟩

theorem subscript_var (hr : Rooted t n) (hp : p.var < n) : (value t).subscript (.index p.var) = .ok (value t) := by
  obtain ⟨es, rfl, rfl⟩ := hr
  rw [value, JsonValue.subscript, if_neg (by rw [length_elems]; omega)]

theorem child?_of_get {s : Slot} (hf : AllFormed t) (hu : t.get [s] = some u) :
    (value t).child? s = some (value u) := by
  have hget := get?_value (p := [s]) hf
  rw [hu] at hget
  cases hw : (value t).child? s with
  | none =>
    rw [JsonValue.get?, hw] at hget
    cases hget
  | some x =>
    rw [JsonValue.get?, hw] at hget
    exact hget

/-- **An operand** is a reference to its position, or the exception of its `operator[]`. -/
theorem locate_path (hg : Good h t lost) (hr : Rooted t n) (hp : p.var < n) :
    ∃ h' t' x, locate h p.ref p.steps = .ok (h', x) ∧ Good h' t' lost ∧ Rooted t' n ∧ Estate.Keeps t t' ∧
      value t' = ((value t).reach p.pos).1 ∧
      match ((value t).reach p.pos).2 with
      | some e => x = .error e
      | none => ∃ r, x = .ok r ∧ t'.Place p.pos r.1 r.2 := by
  have hplace := var_place hr hg.formed hp
  obtain ⟨u, hu⟩ := hplace.get
  obtain ⟨h', u', x, hloc, hg', hval, hkeeps, hx⟩ := locate_spec (s := p.steps) hg hplace hu
  have hchild := child?_of_get hg.formed hu
  rw [Path.pos, JsonValue.reach_cons_ok (subscript_var hr hp) hchild]
  refine ⟨h', _, x, hloc, hg', hr.set hu, Estate.keeps_set hu hkeeps, ?_, hx⟩
  rw [value_set hg.formed, JsonValue.put_cons hchild, hval]
  rfl

/-! ## Statements -/

/-- The memory does what the values do. -/
def Matches (n : Nat) (x : Except Fault (Memory D × Option Exn)) : Except Fault (World D × Option Exn) → Prop
  | .error f => x = .error f
  | .ok (w, e) => ∃ h t, x = .ok (h, e) ∧ Holding n h t w

theorem operand_matches {w : World D} {f : Memory D → Ref → Except Fault (Memory D × Option Exn)}
    {g : World D → Except Fault (World D × Option Exn)} (hh : Holding n h t w) (hp : p.var < n)
    (hfg : ∀ h' t' r w', Holding n h' t' w' → Estate.Keeps t t' → t'.Place p.pos r.1 r.2 → Matches n (f h' r) (g w')) :
    Matches n (operand h p f) (w.operand p g) := by
  obtain ⟨lost, hg, hlost⟩ := hh.good
  obtain ⟨h', t', x, hloc, hg', hr', hkeeps, hval, hx⟩ := locate_path hg hh.rooted hp
  rw [hh.store] at hval hx
  unfold operand World.operand
  rw [hloc]
  generalize w.store.reach p.pos = y at hval hx
  obtain ⟨v, e⟩ := y
  have hh' : Holding n h' t' { w with store := v } := ⟨hr', ⟨lost, hg', hlost⟩, hval⟩
  cases e with
  | some e =>
    cases hx
    exact ⟨h', t', rfl, hh'⟩
  | none =>
    obtain ⟨r, rfl, hplace⟩ := hx
    exact hfg h' t' r _ hh' hkeeps hplace

theorem Holding.value {w : World D} (hh : Holding n h t w) (hv : t.get p.pos = some v) : w.value p = value v := by
  obtain ⟨lost, hg, -⟩ := hh.good
  rw [World.value, ← hh.store, get?_value hg.formed, hv]
  rfl

/-- A value was put at a path. -/
theorem Holding.put {w : World D} {x : JsonValue D} {lost' : List (Nat × Block (List UInt8) Slot (Cell D) Kind)}
    (hh : Holding n h t w) (hu : t.get p.pos = some u) (hg : Good h' (t.set p.pos v) lost') (hl : lost'.length = w.lost)
    (hx : JsonHeap.value v = x) : Holding n h' (t.set p.pos v) (w.put p x) := by
  obtain ⟨lost, hg0, -⟩ := hh.good
  exact ⟨hh.rooted.set hu, ⟨lost', hg, hl⟩, by rw [value_set hg0.formed, hh.store, hx]; rfl⟩

theorem pos_inj (h : p.pos = q.pos) : p = q := by
  obtain ⟨x, ss⟩ := p
  obtain ⟨y, ss'⟩ := q
  simpa [Path.pos] using h

theorem typeOf_value (hv : ∀ x ∈ v.leaves, view x = .plain) : typeOf (value v) = (v.cell layout).type_ := by
  cases v with
  | leaf x =>
    have hx := hv x List.mem_cons_self
    have htype := leaf_type hx
    obtain ⟨ty, d⟩ := x
    cases ty
    case null => rfl
    case string => exact absurd rfl htype.1
    case array => exact absurd rfl htype.2.1
    case object => exact absurd rfl htype.2.2
    all_goals cases d <;> first | rfl | cases hx
  | atom a x => rfl
  | node a l es => cases l <;> rfl

/-- Two positions that are not apart are the same, or one is in the other. -/
theorem not_apart {p q : List Slot} (h : ¬ Apart p q) : (∃ s, q = p ++ s) ∨ ∃ s, s ≠ [] ∧ p = q ++ s := by
  by_cases hpq : p <+: q
  · obtain ⟨s, rfl⟩ := hpq
    exact .inl ⟨s, rfl⟩
  · have hqp : q <+: p := by
      by_contra hqp
      exact h ⟨hpq, hqp⟩
    obtain ⟨s, rfl⟩ := hqp
    exact .inr ⟨s, fun hs => hpq (by rw [hs, List.append_nil]), rfl⟩

theorem assign_matches {w : World D} (hh : Holding n h t w) (hp : p.var < n) (hq : q.var < n) :
    Matches n (exec h (.assign p q)) ((Stmt.assign p q).eval w) := by
  rw [exec, Stmt.eval]
  refine operand_matches hh hq (fun h t r' w hh _ hplace => operand_matches hh hp (fun h t r w hh hkeeps hpp => ?_))
  have hpq := hkeeps.place _ _ _ hplace
  obtain ⟨lost, hg, hlost⟩ := hh.good
  obtain ⟨u, hu⟩ := hpp.get
  obtain ⟨v, hv⟩ := hpq.get
  by_cases heq : p = q
  · subst heq
    rw [if_pos rfl, assignCopy, if_pos (ref_eq hpp hpq)]
    exact ⟨h, t, rfl, hh⟩
  · rw [if_neg heq]
    by_cases hapart : Apart p.pos q.pos
    · obtain ⟨h', w', hassign, hg', hval⟩ := assignCopy_apart hg hpp hu hpq hv hapart
      rw [if_pos hapart, hassign]
      exact ⟨h', _, rfl, hh.put hu hg' hlost (hval.trans (hh.value hv).symm)⟩
    · rw [if_neg hapart]
      rcases not_apart hapart with ⟨s, hs⟩ | ⟨s, hs, hps⟩
      · have hne : s ≠ [] := fun h => heq (pos_inj (by rw [hs, h, List.append_nil]))
        rw [hs] at hpq
        rw [assignCopy_inside hg hpp hu hpq hne]
        rfl
      · rw [hps] at hpp hu
        rw [assignCopy_outside hg hpp hu hpq hv hs]
        rfl

theorem move_matches {w : World D} (hh : Holding n h t w) (hp : p.var < n) (hq : q.var < n) :
    Matches n (exec h (.move p q)) ((Stmt.move p q).eval w) := by
  rw [exec, Stmt.eval]
  refine operand_matches hh hq (fun h t r' w hh _ hplace => operand_matches hh hp (fun h t r w hh hkeeps hpp => ?_))
  have hpq := hkeeps.place _ _ _ hplace
  obtain ⟨lost, hg, hlost⟩ := hh.good
  obtain ⟨u, hu⟩ := hpp.get
  obtain ⟨v, hv⟩ := hpq.get
  have hvalq : w.value q = value v := hh.value hv
  by_cases heq : p = q
  · subst heq
    rw [if_pos rfl, assignMove, if_pos (ref_eq hpp hpq)]
    exact ⟨h, t, rfl, hh⟩
  · rw [if_neg heq]
    by_cases hapart : Apart p.pos q.pos
    · obtain ⟨h', c, hassign, hg', hc⟩ := assignMove_apart hg hpp hu hpq hv hapart
      rw [if_pos hapart, hassign]
      have hu' : (t.set q.pos (.leaf c)).get p.pos = some u := by rw [Estate.get_set_apart hapart.2 hapart.1, hu]
      have hleaf : AllFormed (.leaf c : Held D) := fun s hs => by cases hs
      have hval : value ((t.set q.pos (.leaf c)).set p.pos v) = ((w.put q .null).put p (w.value q)).store := by
        rw [value_set (hg.formed.set hv hleaf), value_set hg.formed, hh.store, value, leafValue_null hc, ← hvalq]
        rfl
      exact ⟨h', _, rfl, (hh.rooted.set hv).set hu', ⟨lost, hg', hlost⟩, hval⟩
    · rw [if_neg hapart]
      rcases not_apart hapart with ⟨s, hs⟩ | ⟨s, hs, hps⟩
      · have hne : s ≠ [] := fun h => heq (pos_inj (by rw [hs, h, List.append_nil]))
        have hpre : ¬ q.pos <+: p.pos := by
          rw [hs]
          exact not_prefix_append hne
        rw [if_neg hpre]
        rw [hs] at hpq
        rw [assignMove_inside hg hpp hu hpq hne]
        rfl
      · have hpre : q.pos <+: p.pos := ⟨s, hps.symm⟩
        rw [if_pos hpre]
        rw [hps] at hpp hu
        obtain ⟨h', c, hassign, hc, hg'⟩ := assignMove_outside hg hpp hu hpq hv hs
        rw [hassign]
        refine ⟨h', _, rfl, hh.rooted.set hv, ⟨_, hg', ?_⟩, ?_⟩
        · have hleaf : value (.leaf (v.cell layout) : Held D) = .null := by
            rw [Estate.get_append hv] at hu
            obtain ⟨k, s, rfl⟩ := List.exists_cons_of_ne_nil hs
            obtain ⟨a, l, es, _, rfl, -, -⟩ := Estate.get_cons_eq_some hu
            cases l <;> rfl
          rw [List.length_append, length_blocks, value_set (hg.formed.get hv), hleaf, hlost, hvalq, hps, List.drop_left]
        · rw [← leafValue_null hc, ← hh.store]
          exact value_set hg.formed

theorem inner_matches {w : World D} (k : Inner) (hh : Holding n h t w) (hp : p.var < n) (hq : q.var < n) :
    Matches n (exec h (.inner k p q)) ((Stmt.inner k p q).eval w) := by
  rw [exec, Stmt.eval]
  refine operand_matches hh hq (fun h t r' w hh _ hplace => ?_)
  obtain ⟨lost, hg, -⟩ := hh.good
  obtain ⟨v, hv⟩ := hplace.get
  have hplain : ∀ x ∈ v.leaves, view x = .plain := fun x hx => hg.plain x (Estate.leaves_get hv hx)
  have htype : typeOf (w.value q) = (v.cell layout).type_ := by
    rw [hh.value hv]
    exact typeOf_value hplain
  rw [getRef_spec hg.holds hplace hv, htype]
  simp only [bind, Except.bind]
  by_cases hk : (v.cell layout).type_ = k.type
  · rw [if_neg (not_not.2 hk), if_neg (not_not.2 hk)]
    refine operand_matches hh hp (fun h1 t1 r w1 hh1 hkeeps hpp => ?_)
    -- the object that was referred to is where it was
    have howns : v.Owns := fun c hc => by
      subst hc
      have htype := leaf_type (hplain c List.mem_cons_self)
      cases k with
      | asString => exact htype.1 hk
      | asArray => exact htype.2.1 hk
      | asObject => exact htype.2.2 hk
    obtain ⟨v1, hv1, -, hcell⟩ := hkeeps.cell _ _ hv howns
    rw [← hcell layout] at hk ⊢
    have howner : Owner v1 := by
      rw [Owner, hk]
      cases k with
      | asString => exact .inl rfl
      | asArray => exact .inr (.inl rfl)
      | asObject => exact .inr (.inr rfl)
    obtain ⟨lost, hg, hlost⟩ := hh1.good
    obtain ⟨u, hu⟩ := hpp.get
    by_cases hapart : Apart p.pos q.pos
    · obtain ⟨h', w', hassign, hg', hval⟩ := assignBlock_apart hg hpp hu hv1 hapart
      rw [if_pos hapart]
      simp only [hassign]
      exact ⟨h', _, rfl, hh1.put hu hg' hlost (hval.trans (hh1.value hv1).symm)⟩
    · rw [if_neg hapart]
      rcases not_apart hapart with ⟨s, hs⟩ | ⟨s, hs, hps⟩
      · rw [hs] at hv1
        simp only [assignBlock_inside hg hpp hu hv1 howner]
        rfl
      · rw [hps] at hpp hu
        simp only [assignBlock_outside hg hpp hu hv1 hs]
        rfl
  · rw [if_pos hk, if_pos hk]
    exact ⟨h, t, rfl, hh⟩

theorem literal_matches {w : World D} (x : Literal D) (hh : Holding n h t w) (hp : p.var < n) :
    Matches n (exec h (.literal p x)) ((Stmt.literal p x).eval w) := by
  rw [exec, Stmt.eval]
  refine operand_matches hh hp (fun h t r w hh _ hpp => ?_)
  obtain ⟨lost, hg, hlost⟩ := hh.good
  obtain ⟨u, hu⟩ := hpp.get
  obtain ⟨h', w', hassign, hg', hval⟩ := assignLiteral_spec hg hpp hu x
  rw [hassign]
  exact ⟨h', _, rfl, hh.put hu hg' hlost hval⟩

theorem load_matches {w : World D} (v : JsonValue D) (hh : Holding n h t w) (hp : p.var < n) :
    Matches n (exec h (.load p v)) ((Stmt.load p v).eval w) := by
  obtain ⟨lost, hg, hlost⟩ := hh.good
  obtain ⟨x, hcell, hb⟩ := construct_spec h v
  have hgb : Good (construct h v).1 t (x.blocks layout ++ lost) :=
    ⟨(hb.holds _ hg.holds).perm (List.perm_append_comm_assoc ..), hg.plain,
      fun y hy => (hg.retired y hy).fades hb.fades, hg.formed⟩
  obtain ⟨h', t', y, hloc, hg', hr', -, hval, hy⟩ := locate_path hgb hh.rooted hp
  rw [hh.store] at hval hy
  rw [exec, Stmt.eval, World.operand]
  simp only [hcell, bind, Except.bind, hloc]
  generalize w.store.reach p.pos = z at hval hy
  obtain ⟨s, e⟩ := z
  cases e with
  | some e =>
    cases hy
    obtain ⟨h2, hdel, hg2⟩ := destroy_temporary hg' hb.fresh
    simp only [hdel]
    exact ⟨h2, t', rfl, hr', ⟨lost, hg2, hlost⟩, hval⟩
  | none =>
    obtain ⟨r, rfl, hpp⟩ := hy
    obtain ⟨u, hu⟩ := hpp.get
    obtain ⟨h2, hassign, hg2⟩ := assignTemporary_spec hg' hb.fresh hb.formed hpp hu
    have hh' : Holding n h' t' { w with store := s, lost := (x.blocks layout ++ lost).length } :=
      ⟨hr', ⟨_, hg', rfl⟩, hval⟩
    simp only [hassign]
    refine ⟨h2, _, rfl, hr'.set hu, ⟨lost, hg2, hlost⟩, ?_⟩
    rw [value_set hg'.formed, hval, hb.value]
    rfl

theorem pushBack_matches {w : World D} (hh : Holding n h t w) (hp : p.var < n) (hq : q.var < n) :
    Matches n (exec h (.pushBack p q)) ((Stmt.pushBack p q).eval w) := by
  rw [exec, Stmt.eval]
  refine operand_matches hh hp (fun h t r w hh _ hplace => operand_matches hh hq (fun h t r' w hh hkeeps hpq => ?_))
  have hpp := hkeeps.place _ _ _ hplace
  obtain ⟨lost, hg, hlost⟩ := hh.good
  obtain ⟨u, hu⟩ := hpp.get
  obtain ⟨v, hv⟩ := hpq.get
  obtain ⟨harr, hother⟩ := pushBack_spec hg hpp hu hpq hv
  have hvalp := hh.value hu
  have hnot : (∀ xs, value u ≠ .array xs) → Matches n (do
      let (h, x) ← pushBack h r r'
      match x with
      | .error e => .ok (h, some e)
      | .ok () => .ok (h, none)) (.ok (w, some (.domainError (utf8 "JsonValue: cannot push_back to non-array")))) :=
    fun hne => ⟨h, t, by rw [hother hne]; rfl, hh⟩
  rw [hvalp]
  cases hval : value u with
  | array xs =>
    obtain ⟨h', u', hpush, hg', hval'⟩ := harr xs hval
    refine ⟨h', t.set p.pos u', by rw [hpush]; rfl, hh.put hu hg' hlost ?_⟩
    rw [hval', hh.value hv]
  | _ => exact hnot (fun xs hxs => by rw [hval] at hxs; cases hxs)

/-- **A statement does to the memory what it means for the values.** -/
theorem exec_matches {w : World D} (hh : Holding n h t w) : ∀ {s : Stmt D}, s.Scoped n →
    Matches n (exec h s) (s.eval w)
  | .assign _ _, hs => assign_matches hh hs.1 hs.2
  | .move _ _, hs => move_matches hh hs.1 hs.2
  | .inner k _ _, hs => inner_matches k hh hs.1 hs.2
  | .literal _ x, hs => literal_matches x hh hs
  | .load _ v, hs => load_matches v hh hs
  | .pushBack _ _, hs => pushBack_matches hh hs.1 hs.2

end JsonHeap
end MiniRos2

import MiniRos2.Lib.Heap
import MiniRos2.Lib.OrdMap
/-!
# Owned — values that own their blocks

A cell has a plain value, or it owns a block of the heap, in which there is a datum or there are further cells, each
under a key.  A `Layout` says what a cell owns; `delete` frees everything a cell owns and `copy` makes a copy of it.
An `Estate` is what is owned, with the addresses: its `blocks` are the part of the heap that belongs to it, so that
`delete` takes just these away (`delete_spec`) and `copy` adds as many, with the same content (`copy_spec`).  A cell
below a position may be replaced without a change of any other block (`blocks_set`).
-/
namespace Owned

/-- What a cell says of the heap: it owns nothing and has a value; it owns nothing and has no value to copy; it owns the
block at an address; neither to delete it nor to copy it is defined. -/
inductive View where
  | plain
  | hollow
  | owner (a : Nat)
  | wild
  deriving DecidableEq

/-- How cells of type `C` own blocks: of data of type `A`, and of cells under a label of type `L`. -/
structure Layout (A C L : Type) where
  view : C → View
  fits : C → A ⊕ L → Bool
  dup : C → C
  point : A ⊕ L → Nat → C
  view_point : ∀ l a, view (point l a) = .owner a
  fits_point : ∀ l a, fits (point l a) l = true
  view_dup : ∀ c, view c = .plain → view (dup c) = .plain
  dup_dup : ∀ c, dup (dup c) = dup c

inductive Block (A K C L : Type) where
  | atom (x : A)
  | node (l : L) (es : List (K × C))

namespace Block

variable {A K C L : Type}

def head : Block A K C L → A ⊕ L
  | .atom x => .inl x
  | .node l _ => .inr l

def entries : Block A K C L → List (K × C)
  | .atom _ => []
  | .node _ es => es

/-- The block with other cells. -/
def refill : Block A K C L → List (K × C) → Block A K C L
  | .atom x, _ => .atom x
  | .node l _, es => .node l es

end Block

variable {A K C L : Type} (lay : Layout A C L)

/-! ## Deleting and copying what a cell owns -/

def delete : Nat → Heap (Block A K C L) → C → Except Fault (Heap (Block A K C L))
  | 0, _, _ => .error .starved
  | n + 1, h, c =>
    match lay.view c with
    | .plain => .ok h
    | .hollow => .ok h
    | .wild => .error .undefined
    | .owner a => do
      let b ← h.read a
      if lay.fits c b.head then
        let h ← b.entries.foldlM (fun h e => delete n h e.2) h
        h.free a
      else .error .undefined

/-- The entries of a block, copied in order. -/
def copyEntries (copy : Heap (Block A K C L) → C → Except Fault (Heap (Block A K C L) × C)) :
    Heap (Block A K C L) → List (K × C) → Except Fault (Heap (Block A K C L) × List (K × C))
  | h, [] => .ok (h, [])
  | h, e :: es => do
    let (h, c) ← copy h e.2
    let (h, cs) ← copyEntries copy h es
    .ok (h, (e.1, c) :: cs)

def copy : Nat → Heap (Block A K C L) → C → Except Fault (Heap (Block A K C L) × C)
  | 0, _, _ => .error .starved
  | n + 1, h, c =>
    match lay.view c with
    | .plain => .ok (h, lay.dup c)
    | .hollow => .error .undefined
    | .wild => .error .undefined
    | .owner a => do
      let b ← h.read a
      if lay.fits c b.head then
        let (h, es) ← copyEntries (copy n) h b.entries
        .ok (h.alloc (b.refill es), lay.point b.head h.next)
      else .error .undefined

end Owned

/-- **What is owned**, with the addresses of its blocks. -/
inductive Owned.Estate (A K C L : Type) where
  | leaf (c : C)
  | atom (a : Nat) (x : A)
  | node (a : Nat) (l : L) (es : List (K × Owned.Estate A K C L))

namespace Owned
namespace Estate

variable {A K C L : Type}

theorem induct {P : Estate A K C L → Prop} (leaf : ∀ c, P (.leaf c)) (atom : ∀ a x, P (.atom a x))
    (node : ∀ a l es, (∀ e ∈ es, P e.2) → P (.node a l es)) : ∀ t, P t
  | .leaf c => leaf c
  | .atom a x => atom a x
  | .node a l es => node a l es (fun e _ => induct leaf atom node e.2)
termination_by t => sizeOf t
decreasing_by
  rename_i he
  have hlt := List.sizeOf_lt_of_mem he
  have hsnd : sizeOf e.2 < sizeOf e := by cases e; simp
  simp only [Estate.node.sizeOf_spec]
  omega

variable (lay : Layout A C L)

/-- The cell the tree hangs from. -/
def cell : Estate A K C L → C
  | .leaf c => c
  | .atom a x => lay.point (.inl x) a
  | .node a l _ => lay.point (.inr l) a

/-- The block of a node. -/
def block (l : L) (es : List (K × Estate A K C L)) : Block A K C L := .node l (es.map (fun e => (e.1, e.2.cell lay)))

mutual

/-- The part of the heap that belongs to the tree. -/
def blocks : Estate A K C L → List (Nat × Block A K C L)
  | .leaf _ => []
  | .atom a x => [(a, .atom x)]
  | .node a l es => (a, block lay l es) :: blocksOf es

def blocksOf : List (K × Estate A K C L) → List (Nat × Block A K C L)
  | [] => []
  | (_, t) :: es => blocks t ++ blocksOf es

end

mutual

/-- The cells that own nothing. -/
def leaves : Estate A K C L → List C
  | .leaf c => [c]
  | .atom _ _ => []
  | .node _ _ es => leavesOf es

def leavesOf : List (K × Estate A K C L) → List C
  | [] => []
  | (_, t) :: es => leaves t ++ leavesOf es

end

mutual

/-- The label of every node with the keys in it. -/
def shapes : Estate A K C L → List (L × List K)
  | .leaf _ => []
  | .atom _ _ => []
  | .node _ l es => (l, es.map Prod.fst) :: shapesOf es

def shapesOf : List (K × Estate A K C L) → List (L × List K)
  | [] => []
  | (_, t) :: es => shapes t ++ shapesOf es

end

mutual

/-- The tree without its addresses. -/
def strip : Estate A K C L → Estate A K C L
  | .leaf c => .leaf (lay.dup c)
  | .atom _ x => .atom 0 x
  | .node _ l es => .node 0 l (stripOf es)

def stripOf : List (K × Estate A K C L) → List (K × Estate A K C L)
  | [] => []
  | (k, t) :: es => (k, strip t) :: stripOf es

end

theorem blocksOf_eq : ∀ es : List (K × Estate A K C L), blocksOf lay es = es.flatMap (fun e => e.2.blocks lay)
  | [] => rfl
  | (k, t) :: es => by rw [blocksOf, List.flatMap_cons, blocksOf_eq es]

theorem leavesOf_eq : ∀ es : List (K × Estate A K C L), leavesOf es = es.flatMap (fun e => e.2.leaves)
  | [] => rfl
  | (k, t) :: es => by rw [leavesOf, List.flatMap_cons, leavesOf_eq es]

theorem shapesOf_eq : ∀ es : List (K × Estate A K C L), shapesOf es = es.flatMap (fun e => e.2.shapes)
  | [] => rfl
  | (k, t) :: es => by rw [shapesOf, List.flatMap_cons, shapesOf_eq es]

variable {lay}

theorem keys_stripOf : ∀ es : List (K × Estate A K C L), (stripOf lay es).map Prod.fst = es.map Prod.fst
  | [] => rfl
  | (k, t) :: es => by rw [stripOf, List.map_cons, List.map_cons, keys_stripOf es]

theorem shapes_strip (lay : Layout A C L) (t : Estate A K C L) : (t.strip lay).shapes = t.shapes := by
  induction t using induct with
  | leaf c => rfl
  | atom a x => rfl
  | node a l es ih =>
    have hes : ∀ es' : List (K × Estate A K C L), (∀ e ∈ es', (e.2.strip lay).shapes = e.2.shapes) →
        shapesOf (stripOf lay es') = shapesOf es' := by
      intro es'
      induction es' with
      | nil => exact fun _ => rfl
      | cons e es' ihes =>
        intro he
        have hhead := he e List.mem_cons_self
        obtain ⟨k, t⟩ := e
        rw [stripOf, shapesOf, shapesOf, hhead, ihes (fun e' he' => he e' (List.mem_cons_of_mem _ he'))]
    rw [strip, shapes, shapes, hes es ih, keys_stripOf]

theorem blocksOf_split (lay : Layout A C L) (k : K) (t : Estate A K C L) (pre post : List (K × Estate A K C L)) :
    (blocksOf lay (pre ++ (k, t) :: post)).Perm (blocksOf lay (pre ++ post) ++ t.blocks lay) := by
  simp only [blocksOf_eq, List.flatMap_append, List.flatMap_cons, List.append_assoc]
  exact List.perm_append_comm.append_left _

end Estate

open Estate

variable {A K C L : Type} {lay : Layout A C L}

/-! ## delete -/

/-- **What `delete` does with a tree**: it frees what the tree owns, whatever else is in the heap. -/
def Deletes (lay : Layout A C L) (t : Estate A K C L) : Prop :=
  ∀ (n : Nat) (h : Heap (Block A K C L)) (rest : List (Nat × Block A K C L)), (∀ c ∈ t.leaves, lay.view c = .plain) →
    (t.blocks lay).length < n → h.Holds (t.blocks lay ++ rest) →
      ∃ h', delete lay n h (t.cell lay) = .ok h' ∧ h'.Holds rest ∧ h'.next = h.next

theorem deletes_entries (n : Nat) (rest : List (Nat × Block A K C L)) : ∀ (es : List (K × Estate A K C L))
    (h : Heap (Block A K C L)), (∀ e ∈ es, Deletes lay e.2) → (∀ c ∈ leavesOf es, lay.view c = .plain) →
    (blocksOf lay es).length < n → h.Holds (blocksOf lay es ++ rest) →
      ∃ h', (es.map (fun e => (e.1, e.2.cell lay))).foldlM (fun h e => delete lay n h e.2) h = .ok h' ∧
        h'.Holds rest ∧ h'.next = h.next
  | [], h, _, _, _, hh => ⟨h, rfl, hh, rfl⟩
  | (k, t) :: es, h, hes, hleaf, hlen, hh => by
    rw [blocksOf, List.length_append] at hlen
    rw [blocksOf, List.append_assoc] at hh
    rw [leavesOf] at hleaf
    have ht : Deletes lay t := hes (k, t) List.mem_cons_self
    obtain ⟨h1, hdel, hh1, hnext1⟩ := ht n h _ (fun c hc => hleaf c (List.mem_append_left _ hc)) (by omega) hh
    obtain ⟨h2, hrest, hh2, hnext2⟩ := deletes_entries n rest es h1 (fun e he => hes e (List.mem_cons_of_mem _ he))
      (fun c hc => hleaf c (List.mem_append_right _ hc)) (by omega) hh1
    refine ⟨h2, ?_, hh2, hnext2.trans hnext1⟩
    rw [List.map_cons, List.foldlM_cons, hdel]
    exact hrest

theorem delete_spec (t : Estate A K C L) : Deletes lay t := by
  induction t using Estate.induct with
  | leaf c =>
    intro n h rest hleaf hn hh
    obtain ⟨n, rfl⟩ := Nat.exists_eq_succ_of_ne_zero (Nat.ne_of_gt hn)
    have hc : lay.view c = .plain := hleaf c List.mem_cons_self
    exact ⟨h, by rw [cell, delete, hc], hh, rfl⟩
  | atom a x =>
    intro n h rest _ hn hh
    obtain ⟨n, rfl⟩ := Nat.exists_eq_succ_of_ne_zero (Nat.ne_of_gt (Nat.zero_lt_of_lt hn))
    have hread : h.read a = .ok (.atom x) := hh.read List.mem_cons_self
    obtain ⟨h1, hfree, hh1, hnext1⟩ := hh.free
    refine ⟨h1, ?_, hh1, hnext1⟩
    rw [cell, delete, lay.view_point]
    simp only [hread, bind, Except.bind, Block.head, lay.fits_point, if_true]
    exact hfree
  | node a l es ih =>
    intro n h rest hleaf hn hh
    obtain ⟨n, rfl⟩ := Nat.exists_eq_succ_of_ne_zero (Nat.ne_of_gt (Nat.zero_lt_of_lt hn))
    have hread : h.read a = .ok (block lay l es) := hh.read List.mem_cons_self
    -- the entries go first, with the block itself among what is left
    have hperm : ((Estate.node a l es).blocks lay ++ rest).Perm (blocksOf lay es ++ ((a, block lay l es) :: rest)) :=
      List.perm_middle.symm
    obtain ⟨h1, hfold, hh1, hnext1⟩ := deletes_entries n _ es h ih hleaf (Nat.lt_of_succ_lt_succ hn) (hh.perm hperm)
    obtain ⟨h2, hfree, hh2, hnext2⟩ := hh1.free
    refine ⟨h2, ?_, hh2, hnext2.trans hnext1⟩
    rw [cell, delete, lay.view_point]
    simp only [hread, bind, Except.bind, block, Block.head, Block.entries, lay.fits_point, if_true, hfold]
    exact hfree

/-- **What is gone is not there again after a `delete`.** -/
theorem fades_delete : ∀ (n : Nat) (h : Heap (Block A K C L)) (c : C) (h' : Heap (Block A K C L)),
    delete lay n h c = .ok h' → h.Fades h'
  | 0, _, _, _, he => by cases he
  | n + 1, h, c, h', he => by
    have hentries : ∀ (es : List (K × C)) (h h' : Heap (Block A K C L)),
        es.foldlM (fun h e => delete lay n h e.2) h = .ok h' → h.Fades h' := by
      intro es
      induction es with
      | nil =>
        intro h h' he
        cases he
        exact .refl h
      | cons e es ih =>
        intro h h' he
        rw [List.foldlM_cons] at he
        cases h1 : delete lay n h e.2 with
        | error x => rw [h1] at he; cases he
        | ok h1' =>
          rw [h1] at he
          exact (fades_delete n h e.2 h1' h1).trans (ih h1' h' he)
    unfold delete at he
    split at he
    · cases he
      exact .refl h
    · cases he
      exact .refl h
    · cases he
    · rename_i a _
      cases hr : h.read a with
      | error x => rw [hr] at he; cases he
      | ok b =>
        simp only [hr, bind, Except.bind] at he
        split at he
        · cases hes : b.entries.foldlM (fun h e => delete lay n h e.2) h with
          | error x => rw [hes] at he; cases he
          | ok h1 =>
            rw [hes] at he
            exact (hentries _ _ _ hes).trans (.free he)
        · cases he

/-! ## copy -/

/-- **What `copy` does with a tree**: it makes one with the same content in blocks of its own. -/
def Copies (lay : Layout A C L) (t : Estate A K C L) : Prop :=
  ∀ (n : Nat) (h : Heap (Block A K C L)) (bs : List (Nat × Block A K C L)), (∀ c ∈ t.leaves, lay.view c = .plain) →
    (t.blocks lay).length < n → h.Holds bs → t.blocks lay ⊆ bs →
      ∃ (h' : Heap (Block A K C L)) (t' : Estate A K C L), copy lay n h (t.cell lay) = .ok (h', t'.cell lay) ∧
        h'.Holds (t'.blocks lay ++ bs) ∧
        t'.strip lay = t.strip lay ∧ t'.leaves = t.leaves.map lay.dup

theorem copies_entries (n : Nat) : ∀ (es : List (K × Estate A K C L)) (h : Heap (Block A K C L))
    (bs : List (Nat × Block A K C L)), (∀ e ∈ es, Copies lay e.2) → (∀ c ∈ leavesOf es, lay.view c = .plain) →
    (blocksOf lay es).length < n → h.Holds bs → blocksOf lay es ⊆ bs →
      ∃ (h' : Heap (Block A K C L)) (es' : List (K × Estate A K C L)),
        copyEntries (copy lay n) h (es.map (fun e => (e.1, e.2.cell lay))) =
          .ok (h', es'.map (fun e => (e.1, e.2.cell lay))) ∧
        h'.Holds (blocksOf lay es' ++ bs) ∧ stripOf lay es' = stripOf lay es ∧
        leavesOf es' = (leavesOf es).map lay.dup
  | [], h, _, _, _, _, hh, _ => ⟨h, [], rfl, hh, rfl, rfl⟩
  | (k, t) :: es, h, bs, hes, hleaf, hlen, hh, hsub => by
    rw [blocksOf, List.length_append] at hlen
    rw [leavesOf] at hleaf
    rw [blocksOf, List.append_subset] at hsub
    have ht : Copies lay t := hes (k, t) List.mem_cons_self
    obtain ⟨h1, t', hcopy, hh1, hstrip, hleaves⟩ := ht n h bs (fun c hc => hleaf c (List.mem_append_left _ hc))
      (by omega) hh hsub.1
    obtain ⟨h2, es', hrest, hh2, hstrips, hleavess⟩ := copies_entries n es h1 (t'.blocks lay ++ bs)
      (fun e he => hes e (List.mem_cons_of_mem _ he)) (fun c hc => hleaf c (List.mem_append_right _ hc)) (by omega) hh1
      (fun p hp => List.mem_append_right _ (hsub.2 hp))
    refine ⟨h2, (k, t') :: es', ?_, ?_, ?_, ?_⟩
    · simp only [List.map_cons, copyEntries, hcopy, hrest, bind, Except.bind]
    · refine hh2.perm ?_
      rw [blocksOf, List.append_assoc]
      exact List.perm_append_comm_assoc ..
    · rw [stripOf, stripOf, hstrip, hstrips]
    · rw [leavesOf, leavesOf, List.map_append, hleaves, hleavess]

theorem copy_spec (t : Estate A K C L) : Copies lay t := by
  induction t using Estate.induct with
  | leaf c =>
    intro n h bs hleaf hn hh hsub
    obtain ⟨n, rfl⟩ := Nat.exists_eq_succ_of_ne_zero (Nat.ne_of_gt hn)
    have hc : lay.view c = .plain := hleaf c List.mem_cons_self
    refine ⟨h, .leaf (lay.dup c), by rw [cell, copy, hc]; rfl, hh, ?_, rfl⟩
    rw [strip, strip, lay.dup_dup]
  | atom a x =>
    intro n h bs _ hn hh hsub
    obtain ⟨n, rfl⟩ := Nat.exists_eq_succ_of_ne_zero (Nat.ne_of_gt (Nat.zero_lt_of_lt hn))
    have hread : h.read a = .ok (.atom x) := hh.read (hsub List.mem_cons_self)
    refine ⟨h.alloc (.atom x), .atom h.next x, ?_, hh.alloc _, rfl, rfl⟩
    rw [cell, copy, lay.view_point]
    simp only [hread, bind, Except.bind, Block.head, lay.fits_point, if_true]
    rfl
  | node a l es ih =>
    intro n h bs hleaf hn hh hsub
    obtain ⟨n, rfl⟩ := Nat.exists_eq_succ_of_ne_zero (Nat.ne_of_gt (Nat.zero_lt_of_lt hn))
    have hread : h.read a = .ok (block lay l es) := hh.read (hsub List.mem_cons_self)
    obtain ⟨h1, es', hcopy, hh1, hstrip, hleaves⟩ := copies_entries n es h bs ih hleaf (Nat.lt_of_succ_lt_succ hn) hh
      (fun p hp => hsub (List.mem_cons_of_mem _ hp))
    refine ⟨h1.alloc (block lay l es'), .node h1.next l es', ?_, hh1.alloc _, ?_, hleaves⟩
    · rw [cell, copy, lay.view_point]
      simp only [hread, bind, Except.bind, block, Block.head, Block.entries, lay.fits_point, if_true, hcopy]
      rfl
    · rw [strip, strip, hstrip]

/-! ## What a copy leaves alone, and what cannot be copied -/

/-- Nothing below the next address changed. -/
structure Grows {B : Type} (h h' : Heap B) : Prop where
  next : h.next ≤ h'.next
  block : ∀ a, a < h.next → h'.block a = h.block a

theorem Grows.refl {B : Type} (h : Heap B) : Grows h h := ⟨Nat.le_refl _, fun _ _ => rfl⟩

theorem Grows.trans {B : Type} {h h' h'' : Heap B} (hg : Grows h h') (hg' : Grows h' h'') : Grows h h'' :=
  ⟨Nat.le_trans hg.next hg'.next, fun a ha => (hg'.block a (Nat.lt_of_lt_of_le ha hg.next)).trans (hg.block a ha)⟩

theorem Grows.alloc {B : Type} (h : Heap B) (b : B) : Grows h (h.alloc b) :=
  ⟨Nat.le_succ _, fun _ ha => Function.update_of_ne (Nat.ne_of_lt ha) _ _⟩

theorem Grows.fades {B : Type} {h h' : Heap B} (hg : Grows h h') : h.Fades h' :=
  ⟨hg.next, fun a ha hn => (hg.block a ha).trans hn⟩

theorem grows_copyEntries {f : Heap (Block A K C L) → C → Except Fault (Heap (Block A K C L) × C)}
    (hf : ∀ h c h' c', f h c = .ok (h', c') → Grows h h') : ∀ (es : List (K × C)) (h h' : Heap (Block A K C L))
    (es' : List (K × C)), copyEntries f h es = .ok (h', es') → Grows h h'
  | [], h, h', es', he => by
    cases he
    exact .refl h
  | e :: es, h, h', es', he => by
    unfold copyEntries at he
    cases h1 : f h e.2 with
    | error x => rw [h1] at he; cases he
    | ok r =>
      simp only [h1, bind, Except.bind] at he
      cases h2 : copyEntries f r.1 es with
      | error x => rw [h2] at he; cases he
      | ok r' =>
        simp only [h2, Except.ok.injEq, Prod.mk.injEq] at he
        rw [← he.1]
        exact (hf _ _ _ _ h1).trans (grows_copyEntries hf es _ _ _ h2)

/-- **A copy changes no block that was there.** -/
theorem grows_copy : ∀ (n : Nat) (h : Heap (Block A K C L)) (c : C) (h' : Heap (Block A K C L)) (c' : C),
    copy lay n h c = .ok (h', c') → Grows h h'
  | 0, _, _, _, _, he => by cases he
  | n + 1, h, c, h', c', he => by
    unfold copy at he
    split at he
    · cases he
      exact .refl h
    · cases he
    · cases he
    · rename_i a _
      cases hr : h.read a with
      | error x => rw [hr] at he; cases he
      | ok b =>
        simp only [hr, bind, Except.bind] at he
        split at he
        · cases hes : copyEntries (copy lay n) h b.entries with
          | error x => rw [hes] at he; cases he
          | ok r =>
            simp only [hes, Except.ok.injEq, Prod.mk.injEq] at he
            rw [← he.1]
            exact (grows_copyEntries (grows_copy n) _ _ _ _ hes).trans (.alloc _ _)
        · cases he

/-- A cell that to copy is undefined: it has no value, or the block it owns is no longer there. -/
def Spoiled (lay : Layout A C L) (h : Heap (Block A K C L)) (c : C) : Prop :=
  lay.view c = .hollow ∨ lay.view c = .wild ∨ ∃ a, lay.view c = .owner a ∧ a < h.next ∧ h.block a = none

theorem Spoiled.grows {h h' : Heap (Block A K C L)} {c : C} (hs : Spoiled lay h c) (hg : Grows h h') :
    Spoiled lay h' c := by
  rcases hs with hv | hv | ⟨a, hv, ha, hb⟩
  · exact .inl hv
  · exact .inr (.inl hv)
  · exact .inr (.inr ⟨a, hv, Nat.lt_of_lt_of_le ha hg.next, (hg.block a ha).trans hb⟩)

theorem Spoiled.copy {h : Heap (Block A K C L)} {c : C} (hs : Spoiled lay h c) (n : Nat) :
    copy lay (n + 1) h c = .error .undefined := by
  rcases hs with hv | hv | ⟨a, hv, -, hb⟩
  · rw [Owned.copy, hv]
  · rw [Owned.copy, hv]
  · rw [Owned.copy, hv]
    simp only [Heap.read_of_none hb, bind, Except.bind]

/-- **A tree with a spoiled cell anywhere in it cannot be copied.** -/
def Jams (lay : Layout A C L) (t : Estate A K C L) : Prop :=
  ∀ (n : Nat) (h : Heap (Block A K C L)) (bs : List (Nat × Block A K C L)),
    (∀ c ∈ t.leaves, lay.view c = .plain ∨ Spoiled lay h c) → (∃ c ∈ t.leaves, Spoiled lay h c) →
    (t.blocks lay).length < n → h.Holds bs → t.blocks lay ⊆ bs → copy lay n h (t.cell lay) = .error .undefined

theorem jams_entries (n : Nat) : ∀ (es : List (K × Estate A K C L)) (h : Heap (Block A K C L))
    (bs : List (Nat × Block A K C L)), (∀ e ∈ es, Jams lay e.2) →
    (∀ c ∈ leavesOf es, lay.view c = .plain ∨ Spoiled lay h c) → (∃ c ∈ leavesOf es, Spoiled lay h c) →
    (blocksOf lay es).length < n → h.Holds bs → blocksOf lay es ⊆ bs →
      copyEntries (copy lay n) h (es.map (fun e => (e.1, e.2.cell lay))) = .error .undefined
  | [], _, _, _, _, hex, _, _, _ => by
    obtain ⟨c, hc, -⟩ := hex
    cases hc
  | (k, t) :: es, h, bs, hes, hleaf, hex, hlen, hh, hsub => by
    rw [blocksOf, List.length_append] at hlen
    rw [leavesOf] at hleaf hex
    rw [blocksOf, List.append_subset] at hsub
    have ht : Jams lay t := hes (k, t) List.mem_cons_self
    by_cases hspoiled : ∃ c ∈ t.leaves, Spoiled lay h c
    · have hjam := ht n h bs (fun c hc => hleaf c (List.mem_append_left _ hc)) hspoiled (by omega) hh hsub.1
      simp only [List.map_cons, copyEntries, hjam, bind, Except.bind]
    · -- the first tree is copied, and what is spoiled comes later
      have hplain : ∀ c ∈ t.leaves, lay.view c = .plain := fun c hc =>
        (hleaf c (List.mem_append_left _ hc)).resolve_right (fun hs => hspoiled ⟨c, hc, hs⟩)
      obtain ⟨h1, t', hcopy, hh1, -, -⟩ := copy_spec t n h bs hplain (by omega) hh hsub.1
      have hgrows := grows_copy n h _ h1 _ hcopy
      obtain ⟨c, hc, hs⟩ := hex
      have hlater : c ∈ leavesOf es := (List.mem_append.1 hc).resolve_left (fun hc => hspoiled ⟨c, hc, hs⟩)
      have hrest := jams_entries n es h1 (t'.blocks lay ++ bs) (fun e he => hes e (List.mem_cons_of_mem _ he))
        (fun c hc => (hleaf c (List.mem_append_right _ hc)).imp_right (fun hs => hs.grows hgrows))
        ⟨c, hlater, hs.grows hgrows⟩ (by omega) hh1 (fun p hp => List.mem_append_right _ (hsub.2 hp))
      simp only [List.map_cons, copyEntries, hcopy, hrest, bind, Except.bind]

theorem copy_jams (t : Estate A K C L) : Jams lay t := by
  induction t using Estate.induct with
  | leaf c =>
    intro n h bs hleaf hex hn hh hsub
    obtain ⟨n, rfl⟩ := Nat.exists_eq_succ_of_ne_zero (Nat.ne_of_gt hn)
    obtain ⟨c', hc', hs⟩ := hex
    rw [List.mem_singleton.1 hc'] at hs
    exact hs.copy n
  | atom a x =>
    intro n h bs _ hex _ _ _
    obtain ⟨c, hc, -⟩ := hex
    cases hc
  | node a l es ih =>
    intro n h bs hleaf hex hn hh hsub
    obtain ⟨n, rfl⟩ := Nat.exists_eq_succ_of_ne_zero (Nat.ne_of_gt (Nat.zero_lt_of_lt hn))
    have hread : h.read a = .ok (block lay l es) := hh.read (hsub List.mem_cons_self)
    have hjam := jams_entries n es h bs ih hleaf hex (Nat.lt_of_succ_lt_succ hn) hh
      (fun p hp => hsub (List.mem_cons_of_mem _ hp))
    rw [cell, copy, lay.view_point]
    simp only [hread, bind, Except.bind, block, Block.head, Block.entries, lay.fits_point, if_true, hjam]

end Owned

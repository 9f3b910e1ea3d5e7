import Mathlib.Data.List.Perm.Subperm
import Mathlib.Data.Finset.Card
import Mathlib.Data.Finset.Range
import Mathlib.Logic.Function.Basic
/-!
# Heap — blocks that are allocated, read, written and freed

A heap maps addresses to the blocks that are alive; an address is never given out twice, and what is done with one that
holds no block is undefined.  `Holds h bs` lists what is alive, each block once: every operation is an equation between
such lists, up to their order.
-/

/-- Why a computation on a heap gives no result.  `starved` is no behaviour of a program: it is the answer of a
recursion that was given too small a bound. -/
inductive Fault where
  | undefined
  | starved
  deriving DecidableEq, Repr

structure Heap (B : Type) where
  block : Nat → Option B
  next : Nat
  fresh : ∀ a, next ≤ a → block a = none

namespace Heap

variable {B : Type}

def empty : Heap B := ⟨fun _ => none, 0, fun _ _ => rfl⟩

def alloc (h : Heap B) (b : B) : Heap B where
  block := Function.update h.block h.next (some b)
  next := h.next + 1
  fresh a ha := by
    rw [Function.update_of_ne (by omega)]
    exact h.fresh a (by omega)

def read (h : Heap B) (a : Nat) : Except Fault B :=
  match h.block a with
  | some b => .ok b
  | none => .error .undefined

theorem lt_next {h : Heap B} {a : Nat} {b : B} (hb : h.block a = some b) : a < h.next := by
  by_contra hlt
  rw [h.fresh a (Nat.not_lt.1 hlt)] at hb
  cases hb

/-- The heap with another content at an address that is alive. -/
def put (h : Heap B) (a : Nat) (b : Option B) (ha : a < h.next) : Heap B where
  block := Function.update h.block a b
  next := h.next
  fresh x hx := by
    rw [Function.update_of_ne (by omega)]
    exact h.fresh x hx

def write (h : Heap B) (a : Nat) (b : B) : Except Fault (Heap B) :=
  match hb : h.block a with
  | some _ => .ok (h.put a (some b) (lt_next hb))
  | none => .error .undefined

def free (h : Heap B) (a : Nat) : Except Fault (Heap B) :=
  match hb : h.block a with
  | some _ => .ok (h.put a none (lt_next hb))
  | none => .error .undefined

/-- How many blocks are alive. -/
def live (h : Heap B) : Nat := (List.range h.next).countP (fun a => (h.block a).isSome)

/-- **The blocks that are alive are those of the list**, and none is in it twice. -/
structure Holds (h : Heap B) (bs : List (Nat × B)) : Prop where
  nodup : (bs.map Prod.fst).Nodup
  mem : ∀ a b, h.block a = some b ↔ (a, b) ∈ bs

variable {h : Heap B} {bs bs' : List (Nat × B)} {a : Nat} {b : B}

theorem not_mem_of_key (ha : a ∉ bs.map Prod.fst) (b : B) : (a, b) ∉ bs := fun hm =>
  ha (List.mem_map.2 ⟨(a, b), hm, rfl⟩)

theorem Holds.empty : (empty : Heap B).Holds [] := ⟨List.nodup_nil, fun a b => by simp [Heap.empty]⟩

theorem Holds.perm (hh : h.Holds bs) (hp : bs.Perm bs') : h.Holds bs' :=
  ⟨((hp.map Prod.fst).nodup_iff).1 hh.nodup, fun a b => (hh.mem a b).trans hp.mem_iff⟩

theorem Holds.read (hh : h.Holds bs) (hm : (a, b) ∈ bs) : h.read a = .ok b := by
  rw [Heap.read, (hh.mem a b).2 hm]

theorem Holds.lt (hh : h.Holds bs) (hm : a ∈ bs.map Prod.fst) : a < h.next := by
  obtain ⟨p, hp, rfl⟩ := List.mem_map.1 hm
  exact lt_next ((hh.mem p.1 p.2).2 hp)

/-- No block is at an address that is not in the list. -/
theorem Holds.block_none (hh : h.Holds bs) (hm : a ∉ bs.map Prod.fst) : h.block a = none := by
  cases hb : h.block a with
  | none => rfl
  | some b => exact absurd ((hh.mem a b).1 hb) (not_mem_of_key hm b)

theorem read_of_none (hb : h.block a = none) : h.read a = .error .undefined := by rw [Heap.read, hb]

theorem Holds.length_le (hh : h.Holds bs) : bs.length ≤ h.next := by
  have hsub : (bs.map Prod.fst).toFinset ⊆ Finset.range h.next := fun a ha =>
    Finset.mem_range.2 (hh.lt (List.mem_toFinset.1 ha))
  have hcard := Finset.card_le_card hsub
  rwa [List.toFinset_card_of_nodup hh.nodup, List.length_map, Finset.card_range] at hcard

theorem Holds.live (hh : h.Holds bs) : h.live = bs.length := by
  have hperm : ((List.range h.next).filter (fun a => (h.block a).isSome)).Perm (bs.map Prod.fst) := by
    refine (List.perm_ext_iff_of_nodup (List.nodup_range.filter _) hh.nodup).2 (fun a => ?_)
    rw [List.mem_filter, List.mem_range, Option.isSome_iff_exists]
    constructor
    · rintro ⟨-, b, hb⟩
      exact List.mem_map.2 ⟨(a, b), (hh.mem a b).1 hb, rfl⟩
    · intro ha
      obtain ⟨p, hp, rfl⟩ := List.mem_map.1 ha
      exact ⟨hh.lt ha, p.2, (hh.mem p.1 p.2).2 hp⟩
  calc h.live = ((List.range h.next).filter (fun a => (h.block a).isSome)).length := List.countP_eq_length_filter ..
    _ = bs.length := by rw [hperm.length_eq, List.length_map]

/-- **Allocating adds a block at an address of its own.** -/
theorem Holds.alloc (hh : h.Holds bs) (b : B) : (h.alloc b).Holds ((h.next, b) :: bs) := by
  have hnew : h.next ∉ bs.map Prod.fst := fun hm => Nat.lt_irrefl _ (hh.lt hm)
  refine ⟨List.nodup_cons.2 ⟨hnew, hh.nodup⟩, fun x c => ?_⟩
  rw [List.mem_cons, Prod.mk.injEq]
  by_cases hx : x = h.next
  · subst hx
    simp [Heap.alloc, not_mem_of_key hnew, eq_comm]
  · simp [Heap.alloc, hx, hh.mem]

/-- **Freeing takes a block away.** -/
theorem Holds.free (hh : h.Holds ((a, b) :: bs)) : ∃ h', h.free a = .ok h' ∧ h'.Holds bs ∧ h'.next = h.next := by
  have hb : h.block a = some b := (hh.mem a b).2 List.mem_cons_self
  have hnodup := List.nodup_cons.1 hh.nodup
  refine ⟨h.put a none (lt_next hb), ?_, ⟨hnodup.2, fun x c => ?_⟩, rfl⟩
  · unfold Heap.free
    split
    · rfl
    · rename_i hn
      rw [hb] at hn
      cases hn
  · by_cases hx : x = a
    · subst hx
      simp [put, not_mem_of_key hnodup.1]
    · have hcons := hh.mem x c
      simp only [List.mem_cons, Prod.mk.injEq, hx, false_and, false_or] at hcons
      simp [put, hx, hcons]

/-- **Writing replaces a block.** -/
theorem Holds.write (hh : h.Holds ((a, b) :: bs)) (b' : B) :
    ∃ h', h.write a b' = .ok h' ∧ h'.Holds ((a, b') :: bs) ∧ h'.next = h.next ∧
      ∀ x, h'.block x = none ↔ h.block x = none := by
  have hb : h.block a = some b := (hh.mem a b).2 List.mem_cons_self
  have hnodup := List.nodup_cons.1 hh.nodup
  refine ⟨h.put a (some b') (lt_next hb), ?_, ⟨hh.nodup, fun x c => ?_⟩, rfl, fun x => ?_⟩
  · unfold Heap.write
    split
    · rfl
    · rename_i hn
      rw [hb] at hn
      cases hn
  · rw [List.mem_cons, Prod.mk.injEq]
    by_cases hx : x = a
    · subst hx
      simp [put, not_mem_of_key hnodup.1, eq_comm]
    · have hcons := hh.mem x c
      simp only [List.mem_cons, Prod.mk.injEq, hx, false_and, false_or] at hcons
      simp [put, hx, hcons]
  · by_cases hx : x = a
    · subst hx
      simp [put, hb]
    · simp [put, hx]

/-- **What is gone stays gone.** -/
structure Fades (h h' : Heap B) : Prop where
  next : h.next ≤ h'.next
  none : ∀ a, a < h.next → h.block a = none → h'.block a = none

theorem Fades.refl (h : Heap B) : h.Fades h := ⟨Nat.le_refl _, fun _ _ hn => hn⟩

theorem Fades.trans {h h' h'' : Heap B} (hf : h.Fades h') (hf' : h'.Fades h'') : h.Fades h'' :=
  ⟨Nat.le_trans hf.next hf'.next, fun a ha hn => hf'.none a (Nat.lt_of_lt_of_le ha hf.next) (hf.none a ha hn)⟩

theorem Fades.alloc (h : Heap B) (b : B) : h.Fades (h.alloc b) :=
  ⟨Nat.le_succ _, fun _ ha hn => (Function.update_of_ne (Nat.ne_of_lt ha) _ _).trans hn⟩

theorem Fades.of_iff {h h' : Heap B} (hnext : h'.next = h.next)
    (hn : ∀ x, h'.block x = Option.none ↔ h.block x = Option.none) :
    h.Fades h' := ⟨Nat.le_of_eq hnext.symm, fun x _ => (hn x).2⟩

theorem Fades.free {h h' : Heap B} {a : Nat} (hf : h.free a = .ok h') : h.Fades h' := by
  unfold Heap.free at hf
  split at hf
  · cases hf
    refine ⟨Nat.le_refl _, fun x _ hn => ?_⟩
    by_cases hx : x = a
    · subst hx
      simp [put]
    · simpa [put, hx] using hn
  · cases hf

end Heap

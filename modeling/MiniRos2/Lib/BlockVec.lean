import Mathlib.Data.List.Basic
import Mathlib.Tactic.Common
/-!
# BlockVec — a growing vector, and addresses into it

A `std::vector` keeps its elements in a storage block, and an element's address is the block and the element's position
in it.  An insertion beyond the capacity moves all elements to a new block, after which no address into the old one
leads anywhere (`deref_push_moved`); an erasure moves the elements behind it down by one (`deref_erase_of_le`).
-/

structure BlockVec (α : Type) where
  items : List α
  capacity : Nat
  block : Nat

namespace BlockVec

variable {α : Type}

/-- The address of an element. -/
structure Addr where
  block : Nat
  index : Nat
  deriving DecidableEq

def empty : BlockVec α := ⟨[], 0, 0⟩

def Room (v : BlockVec α) : Prop := v.items.length < v.capacity

instance (v : BlockVec α) : Decidable v.Room := inferInstanceAs (Decidable (_ < _))

/-- `push_back`; `capacity` is that of the new block, if one is needed. -/
def push (v : BlockVec α) (a : α) (capacity : Nat) : BlockVec α :=
  if v.Room then { v with items := v.items ++ [a] } else ⟨v.items ++ [a], capacity, v.block + 1⟩

/-- `&back()`. -/
def back (v : BlockVec α) : Addr := ⟨v.block, v.items.length - 1⟩

/-- `pop_back`. -/
def pop (v : BlockVec α) : BlockVec α := { v with items := v.items.dropLast }

/-- `erase` of the element at a position. -/
def erase (v : BlockVec α) (i : Nat) : BlockVec α := { v with items := v.items.eraseIdx i }

/-- What an address leads to. -/
def deref (v : BlockVec α) (p : Addr) : Option α := if p.block = v.block then v.items[p.index]? else none

theorem deref_eq_some_iff {v : BlockVec α} {p : Addr} {a : α} :
    v.deref p = some a ↔ p.block = v.block ∧ v.items[p.index]? = some a := by
  unfold deref
  by_cases h : p.block = v.block
  · simp [h]
  · simp [h]

theorem mem_of_deref {v : BlockVec α} {p : Addr} {a : α} (h : v.deref p = some a) : a ∈ v.items :=
  List.mem_of_getElem? (deref_eq_some_iff.1 h).2

@[simp] theorem items_push (v : BlockVec α) (a : α) (capacity : Nat) : (v.push a capacity).items = v.items ++ [a] := by
  unfold push
  split <;> rfl

@[simp] theorem items_erase (v : BlockVec α) (i : Nat) : (v.erase i).items = v.items.eraseIdx i := rfl

@[simp] theorem deref_back_push (v : BlockVec α) (a : α) (capacity : Nat) :
    (v.push a capacity).deref (v.push a capacity).back = some a := by
  rw [deref_eq_some_iff]
  refine ⟨rfl, ?_⟩
  unfold back
  simp

/-- An insertion within the capacity leaves the addresses as they are. -/
theorem deref_push_of_room {v : BlockVec α} (h : v.Room) {p : Addr} {b : α} (hp : v.deref p = some b) (a : α)
    (capacity : Nat) : (v.push a capacity).deref p = some b := by
  obtain ⟨hblock, hitem⟩ := deref_eq_some_iff.1 hp
  have hlt : p.index < v.items.length := (List.getElem?_eq_some_iff.1 hitem).1
  unfold push
  rw [if_pos h, deref_eq_some_iff]
  refine ⟨hblock, ?_⟩
  rw [List.getElem?_append_left hlt]
  exact hitem

/-- **An insertion beyond the capacity** leaves no address valid. -/
theorem deref_push_moved {v : BlockVec α} (h : ¬ v.Room) {p : Addr} {b : α} (hp : v.deref p = some b) (a : α)
    (capacity : Nat) : (v.push a capacity).deref p = none := by
  obtain ⟨hblock, -⟩ := deref_eq_some_iff.1 hp
  unfold push deref
  rw [if_neg h]
  refine if_neg ?_
  simp only [hblock]
  omega

theorem deref_erase_of_lt (v : BlockVec α) {i : Nat} {p : Addr} (h : p.index < i) :
    (v.erase i).deref p = v.deref p := by
  unfold deref erase
  simp only [List.getElem?_eraseIdx_of_lt h]

/-- **An erasure** makes the addresses from its position on lead to the next element. -/
theorem deref_erase_of_le (v : BlockVec α) {i : Nat} {p : Addr} (h : i ≤ p.index) :
    (v.erase i).deref p = v.deref ⟨p.block, p.index + 1⟩ := by
  unfold deref erase
  simp only [List.getElem?_eraseIdx_of_ge h]

end BlockVec

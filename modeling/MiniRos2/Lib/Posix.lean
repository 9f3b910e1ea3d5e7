import Mathlib.Logic.Function.Basic
import Mathlib.Tactic.Common
/-!
# Posix — the name space of shared memory objects

Names map to objects, and an object is known by a number that is never given out twice.  Creating a name that exists
fails; unlinking a name takes it away and leaves its object to those who have it mapped (`obj_unlink`).  In a well
formed space every name has an object that was given out (`Ok`), so an object created now is nobody's yet
(`Ok.lt_next`).
-/
namespace Posix

variable {N α : Type} [DecidableEq N]

structure Space (N α : Type) where
  names : N → Option Nat
  obj : Nat → α
  next : Nat

namespace Space

/-- `shm_open` of an existing name. -/
def lookup (s : Space N α) (name : N) : Option Nat := s.names name

/-- `shm_open` with `O_CREAT | O_EXCL`, and the object's first contents. -/
def create (s : Space N α) (name : N) (a : α) : Option (Nat × Space N α) :=
  match s.names name with
  | some _ => none
  | none => some (s.next, ⟨Function.update s.names name (some s.next), Function.update s.obj s.next a, s.next + 1⟩)

/-- `shm_unlink`. -/
def unlink (s : Space N α) (name : N) : Space N α := { s with names := Function.update s.names name none }

/-- A store through a mapping of the object. -/
def put (s : Space N α) (id : Nat) (a : α) : Space N α := { s with obj := Function.update s.obj id a }

/-- Every name has an object that was given out. -/
def Ok (s : Space N α) : Prop := ∀ name id, s.names name = some id → id < s.next

omit [DecidableEq N] in
theorem Ok.lt_next {s : Space N α} (h : s.Ok) {name : N} {id : Nat} (hn : s.lookup name = some id) : id < s.next :=
  h name id hn

/-- **What a successful creation did**: the name was free, and it now has the next object. -/
theorem create_eq_some {s s' : Space N α} {name : N} {a : α} {id : Nat} (h : s.create name a = some (id, s')) :
    s.lookup name = none ∧ id = s.next ∧ s'.next = s.next + 1 ∧ s'.lookup name = some id ∧ s'.obj id = a ∧
      (∀ name', name' ≠ name → s'.lookup name' = s.lookup name') ∧ ∀ id', id' ≠ id → s'.obj id' = s.obj id' := by
  unfold create at h
  split at h
  · cases h
  · rename_i hn
    cases h
    refine ⟨hn, rfl, rfl, ?_, ?_, fun name' hne => ?_, fun id' hne => ?_⟩
    · exact Function.update_self _ _ _
    · exact Function.update_self _ _ _
    · exact Function.update_of_ne hne _ _
    · exact Function.update_of_ne hne _ _

theorem create_of_lookup_none (s : Space N α) {name : N} (a : α) (h : s.lookup name = none) :
    ∃ s', s.create name a = some (s.next, s') := by
  unfold create
  rw [show s.names name = none from h]
  exact ⟨_, rfl⟩

/-- A store right after the creation is the creation with what was stored. -/
theorem create_put {s s' : Space N α} {name : N} {a : α} {id : Nat} (h : s.create name a = some (id, s')) (b : α) :
    s.create name b = some (id, s'.put id b) := by
  unfold create at h ⊢
  split at h
  · cases h
  · rename_i hn
    cases h
    exact congrArg (fun f => some (s.next, (⟨_, f, _⟩ : Space N α))) (Function.update_idem _ _ _).symm

theorem Ok.create {s s' : Space N α} (hok : s.Ok) {name : N} {a : α} {id : Nat}
    (h : s.create name a = some (id, s')) : s'.Ok := by
  obtain ⟨-, rfl, hnext, hself, -, hother, -⟩ := create_eq_some h
  intro name' id' hn
  by_cases hne : name' = name
  · have hsome : s'.lookup name = some id' := hne ▸ hn
    rw [hself] at hsome
    cases hsome
    omega
  · have hsome : s.lookup name' = some id' := by rw [← hother name' hne]; exact hn
    have := hok.lt_next hsome
    omega

@[simp] theorem lookup_unlink_self (s : Space N α) (name : N) : (s.unlink name).lookup name = none :=
  Function.update_self _ _ _

theorem lookup_unlink_of_ne (s : Space N α) {name name' : N} (h : name' ≠ name) :
    (s.unlink name).lookup name' = s.lookup name' := Function.update_of_ne h _ _

theorem unlink_of_lookup_none (s : Space N α) {name : N} (h : s.lookup name = none) : s.unlink name = s := by
  have hsame : Function.update s.names name none = s.names := by
    rw [← h]
    exact Function.update_eq_self name s.names
  exact congrArg (fun f => (⟨f, s.obj, s.next⟩ : Space N α)) hsame

@[simp] theorem next_unlink (s : Space N α) (name : N) : (s.unlink name).next = s.next := rfl

/-- Mappings that exist stay valid. -/
@[simp] theorem obj_unlink (s : Space N α) (name : N) : (s.unlink name).obj = s.obj := rfl

theorem Ok.unlink {s : Space N α} (hok : s.Ok) (name : N) : (s.unlink name).Ok := by
  intro name' id hn
  by_cases hne : name' = name
  · have hnone : (s.unlink name).lookup name' = none := by rw [hne, lookup_unlink_self]
    rw [show (s.unlink name).names name' = none from hnone] at hn
    cases hn
  · exact hok name' id (by rw [← hn]; exact (lookup_unlink_of_ne s hne).symm)

omit [DecidableEq N] in
@[simp] theorem lookup_put (s : Space N α) (id : Nat) (a : α) (name : N) :
    (s.put id a).lookup name = s.lookup name := rfl

omit [DecidableEq N] in
@[simp] theorem obj_put_self (s : Space N α) (id : Nat) (a : α) : (s.put id a).obj id = a := Function.update_self _ _ _

end Space

end Posix

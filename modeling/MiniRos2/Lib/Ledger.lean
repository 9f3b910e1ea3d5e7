import Mathlib.Data.List.Basic
import Mathlib.Tactic.Common
/-!
# Ledger — what was obtained and what was released

A resource is known by the place it has among those obtained, so none is given out twice; a ledger also keeps every
release, that of a resource already released with them.  While the resources `held` are the ones still to be released
(`Accounts`), each of the others was released exactly once; when none is held the ledger is `Settled`.  A resource that
nobody will release keeps it from ever being so (`Pending.not_settled`).
-/

structure Ledger (α : Type) where
  obtained : List α
  released : List Nat

namespace Ledger

variable {α : Type}

def empty : Ledger α := ⟨[], []⟩

def acquire (l : Ledger α) (a : α) : Nat × Ledger α := (l.obtained.length, { l with obtained := l.obtained ++ [a] })

def release (l : Ledger α) (id : Nat) : Ledger α := { l with released := l.released ++ [id] }

/-- The resource `id` is an `a`, and it was not released. -/
def Live (l : Ledger α) (id : Nat) (a : α) : Prop := l.obtained[id]? = some a ∧ id ∉ l.released

/-- **Everything obtained was released exactly once**, and nothing else was released. -/
def Settled (l : Ledger α) : Prop := ∀ id, l.released.count id = if id < l.obtained.length then 1 else 0

/-- **Exactly the resources `held` are still to be released.** -/
structure Accounts (l : Ledger α) (held : List Nat) : Prop where
  lt : ∀ id ∈ held, id < l.obtained.length
  count : ∀ id, l.released.count id = if id < l.obtained.length ∧ id ∉ held then 1 else 0

/-- Obtained and not released. -/
def Pending (l : Ledger α) (id : Nat) : Prop := id < l.obtained.length ∧ id ∉ l.released

variable {l : Ledger α} {held : List Nat} {id : Nat} {a b : α}

/-! ## Live resources -/

theorem Live.pending (h : l.Live id a) : l.Pending id := ⟨(List.getElem?_eq_some_iff.1 h.1).1, h.2⟩

theorem Live.unique (h : l.Live id a) (h' : l.Live id b) : a = b := Option.some.inj (h.1.symm.trans h'.1)

theorem Live.acquire (h : l.Live id a) (b : α) : (l.acquire b).2.Live id a :=
  ⟨(List.getElem?_append_left h.pending.1).trans h.1, h.2⟩

theorem Live.release (h : l.Live id a) {x : Nat} (hx : id ≠ x) : (l.release x).Live id a :=
  ⟨h.1, fun hmem => (List.mem_append.1 hmem).elim h.2 (fun hs => hx (List.mem_singleton.1 hs))⟩

theorem Accounts.not_mem_released (h : l.Accounts held) (hid : id ∈ held ∨ l.obtained.length ≤ id) :
    id ∉ l.released := by
  have hcount := h.count id
  rw [if_neg (fun hc => hid.elim hc.2 (Nat.not_le.2 hc.1))] at hcount
  exact List.count_eq_zero.1 hcount

/-- What was obtained last is live. -/
theorem Accounts.live_acquire (h : l.Accounts held) (a : α) : (l.acquire a).2.Live (l.acquire a).1 a :=
  ⟨List.getElem?_concat_length, h.not_mem_released (.inr (Nat.le_refl _))⟩

/-! ## Keeping account -/

theorem Accounts.empty : (empty : Ledger α).Accounts [] :=
  ⟨List.forall_mem_nil _, fun id => by rw [if_neg (fun hc => Nat.not_lt_zero id hc.1)]; rfl⟩

theorem Accounts.acquire (h : l.Accounts held) (a : α) : (l.acquire a).2.Accounts ((l.acquire a).1 :: held) := by
  have hlen : (l.acquire a).2.obtained.length = l.obtained.length + 1 := List.length_append
  refine ⟨fun id hid => ?_, fun id => ?_⟩
  · rw [hlen]
    rcases List.mem_cons.1 hid with rfl | hid
    · exact Nat.lt_succ_self _
    · exact Nat.lt_succ_of_lt (h.lt id hid)
  · have hiff : id < l.obtained.length + 1 ∧ id ∉ l.obtained.length :: held ↔ id < l.obtained.length ∧ id ∉ held := by
      rw [List.mem_cons, not_or]
      constructor
      · rintro ⟨hlt, hne, hheld⟩
        exact ⟨by omega, hheld⟩
      · rintro ⟨hlt, hheld⟩
        exact ⟨by omega, by omega, hheld⟩
    calc (l.acquire a).2.released.count id = l.released.count id := rfl
      _ = if id < l.obtained.length ∧ id ∉ held then 1 else 0 := h.count id
      _ = _ := by rw [hlen]; exact (if_congr hiff rfl rfl).symm

theorem Accounts.release (h : l.Accounts (id :: held)) (hid : id ∉ held) : (l.release id).Accounts held := by
  refine ⟨fun x hx => h.lt x (List.mem_cons_of_mem _ hx), fun x => ?_⟩
  have hcount := h.count x
  have hrel : (l.release id).released.count x = l.released.count x + [id].count x := List.count_append
  rw [hrel]
  by_cases hx : x = id
  · subst hx
    rw [if_neg (fun hc => hc.2 List.mem_cons_self)] at hcount
    rw [hcount, List.count_singleton_self]
    exact (if_pos ⟨h.lt x List.mem_cons_self, hid⟩).symm
  · have hone : [id].count x = 0 := List.count_eq_zero.2 (fun hmem => hx (List.mem_singleton.1 hmem))
    rw [hcount, hone, Nat.add_zero]
    refine if_congr (and_congr_right fun _ => ?_) rfl rfl
    rw [List.mem_cons, not_or]
    exact ⟨And.right, fun hx' => ⟨hx, hx'⟩⟩

/-- Obtained and released at once. -/
theorem Accounts.brief (h : l.Accounts held) (a : α) :
    ((l.acquire a).2.release (l.acquire a).1).Accounts held :=
  (h.acquire a).release (fun hmem => Nat.lt_irrefl _ (h.lt _ hmem))

/-- **With nothing held, everything was released exactly once.** -/
theorem accounts_nil_iff : l.Accounts [] ↔ l.Settled := by
  have hiff : ∀ id, (id < l.obtained.length ∧ id ∉ ([] : List Nat)) ↔ id < l.obtained.length := fun id =>
    and_iff_left List.not_mem_nil
  constructor
  · intro h id
    rw [h.count id]
    exact if_congr (hiff id) rfl rfl
  · intro h
    refine ⟨List.forall_mem_nil _, fun id => ?_⟩
    rw [h id]
    exact (if_congr (hiff id) rfl rfl).symm

/-! ## What nobody released -/

theorem Pending.acquire (h : l.Pending id) (a : α) : (l.acquire a).2.Pending id := by
  refine ⟨?_, h.2⟩
  have hlen : (l.acquire a).2.obtained.length = l.obtained.length + 1 := List.length_append
  have hlt := h.1
  omega

theorem Pending.ne_acquire (h : l.Pending id) (a : α) : id ≠ (l.acquire a).1 := Nat.ne_of_lt h.1

theorem Pending.release (h : l.Pending id) {x : Nat} (hx : id ≠ x) : (l.release x).Pending id :=
  ⟨h.1, fun hmem => (List.mem_append.1 hmem).elim h.2 (fun hs => hx (List.mem_singleton.1 hs))⟩

/-- **A resource that was not released keeps the ledger open.** -/
theorem Pending.not_settled (h : l.Pending id) : ¬ l.Settled := by
  intro hs
  have hcount := hs id
  rw [if_pos h.1] at hcount
  exact h.2 (List.count_pos_iff.1 (by omega))

end Ledger

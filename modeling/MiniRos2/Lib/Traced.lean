import Mathlib.Tactic.Common
/-!
# Traced — programs that log what they touch

A program starts in a state and ends with a value and a state, or fails; either way it leaves the list of what it
touched.  `Spec P E x s Q` says of the run of `x` from `s` that everything touched satisfies `P`, that a failure
satisfies `E`, and that a value and the state it comes with satisfy `Q`.  Runs are followed with one rule for each way
programs are put together; `run` forgets the log and is a morphism of programs (`run_bind`).
-/
namespace Traced

/-- A program over states `σ` that logs `τ` and fails with `ε`. -/
def Prog (τ ε σ α : Type) : Type := σ → List τ × Except ε (α × σ)

variable {τ ε σ α β : Type}

namespace Prog

def bind (x : Prog τ ε σ α) (f : α → Prog τ ε σ β) : Prog τ ε σ β := fun s =>
  match x s with
  | (log, .ok (a, t)) => (log ++ (f a t).1, (f a t).2)
  | (log, .error e) => (log, .error e)

instance : Monad (Prog τ ε σ) where
  pure a := fun s => ([], .ok (a, s))
  bind := bind

/-- The program ends here. -/
def fail (e : ε) : Prog τ ε σ α := fun _ => ([], .error e)

def state : Prog τ ε σ σ := fun s => ([], .ok (s, s))

def setState (f : σ → σ) : Prog τ ε σ Unit := fun s => ([], .ok ((), f s))

/-- Touching `t` gives `a`. -/
def touch (t : σ → τ) (a : σ → α) : Prog τ ε σ α := fun s => ([t s], .ok (a s, s))

/-- How the run ends, without its log. -/
def run (x : Prog τ ε σ α) (s : σ) : Except ε (α × σ) := (x s).2

end Prog

open Prog

/-! ## Forgetting the log -/

@[simp] theorem run_pure (a : α) (s : σ) : (pure a : Prog τ ε σ α).run s = .ok (a, s) := rfl
@[simp] theorem run_fail (e : ε) (s : σ) : (fail e : Prog τ ε σ α).run s = .error e := rfl
@[simp] theorem run_state (s : σ) : (state : Prog τ ε σ σ).run s = .ok (s, s) := rfl
@[simp] theorem run_setState (f : σ → σ) (s : σ) : (setState f : Prog τ ε σ Unit).run s = .ok ((), f s) := rfl
@[simp] theorem run_touch (t : σ → τ) (a : σ → α) (s : σ) : (touch t a : Prog τ ε σ α).run s = .ok (a s, s) := rfl

@[simp] theorem run_bind (x : Prog τ ε σ α) (f : α → Prog τ ε σ β) (s : σ) :
    (x >>= f).run s = x.run s >>= fun p => (f p.1).run p.2 := by
  show (Prog.bind x f s).2 = _
  unfold Prog.bind Prog.run
  rcases x s with ⟨log, e | ⟨a, t⟩⟩ <;> rfl

/-! ## Following a run -/

/-- **What a run touches and how it ends.** -/
def Spec (P : τ → Prop) (E : ε → Prop) (x : Prog τ ε σ α) (s : σ) (Q : α → σ → Prop) : Prop :=
  (∀ t ∈ (x s).1, P t) ∧
    match (x s).2 with
    | .ok (a, t) => Q a t
    | .error e => E e

section Rules

variable {P : τ → Prop} {E : ε → Prop} {s : σ} {Q : α → σ → Prop} {R : β → σ → Prop}

theorem Spec.pure {a : α} (h : Q a s) : Spec P E (pure a) s Q := ⟨List.forall_mem_nil _, h⟩

theorem Spec.fail {e : ε} (h : E e) : Spec P E (fail e : Prog τ ε σ α) s Q := ⟨List.forall_mem_nil _, h⟩

theorem Spec.state {Q : σ → σ → Prop} (h : Q s s) : Spec P E state s Q := ⟨List.forall_mem_nil _, h⟩

theorem Spec.setState {f : σ → σ} {Q : Unit → σ → Prop} (h : Q () (f s)) : Spec P E (setState f) s Q :=
  ⟨List.forall_mem_nil _, h⟩

theorem Spec.touch {t : σ → τ} {a : σ → α} (ht : P (t s)) (h : Q (a s) s) : Spec P E (touch t a) s Q :=
  ⟨fun _ hm => by rwa [List.mem_singleton.1 hm], h⟩

theorem Spec.bind {x : Prog τ ε σ α} {f : α → Prog τ ε σ β} (hx : Spec P E x s Q)
    (hf : ∀ a t, Q a t → Spec P E (f a) t R) : Spec P E (x >>= f) s R := by
  show Spec P E (Prog.bind x f) s R
  unfold Spec Prog.bind at *
  rcases hxs : x s with ⟨log, e | ⟨a, t⟩⟩
  · rw [hxs] at hx
    exact hx
  · rw [hxs] at hx
    obtain ⟨hlog, hend⟩ := hf a t hx.2
    exact ⟨fun u hu => (List.mem_append.1 hu).elim (hx.1 u) (hlog u), hend⟩

theorem Spec.mono {Q' : α → σ → Prop} {x : Prog τ ε σ α} (hx : Spec P E x s Q) (h : ∀ a t, Q a t → Q' a t) :
    Spec P E x s Q' := by
  unfold Spec at *
  rcases hxs : x s with ⟨log, e | ⟨a, t⟩⟩
  · rw [hxs] at hx
    exact hx
  · rw [hxs] at hx
    exact ⟨hx.1, h a t hx.2⟩

theorem Spec.ite {c : Prop} [Decidable c] {x y : Prog τ ε σ α} (hx : c → Spec P E x s Q) (hy : ¬ c → Spec P E y s Q) :
    Spec P E (if c then x else y) s Q := by
  split
  · rename_i hc
    exact hx hc
  · rename_i hc
    exact hy hc

/-- A run with a specification fails as `E` says or returns as `Q` says. -/
theorem Spec.run_cases {x : Prog τ ε σ α} (h : Spec P E x s Q) :
    (∃ e, x.run s = .error e ∧ E e) ∨ ∃ a t, x.run s = .ok (a, t) ∧ Q a t := by
  unfold Spec at h
  unfold Prog.run
  rcases hxs : x s with ⟨log, e | ⟨a, t⟩⟩
  · rw [hxs] at h
    exact .inl ⟨e, rfl, h.2⟩
  · rw [hxs] at h
    exact .inr ⟨a, t, rfl, h.2⟩

end Rules

end Traced

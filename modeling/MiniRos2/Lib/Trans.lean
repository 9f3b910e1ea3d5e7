import Mathlib.Logic.Basic
import Mathlib.Tactic.Common
/-!
# Trans — runs of a labelled step relation

`Run step guard s as t` says that the steps `as` lead from `s` to `t` and that each of them met `guard` in the state it
was taken in.  A run without a condition has the guard that is always true (`Run.weaken`), and what every guarded step
keeps holds in every state reached (`Run.invariant`).
-/
namespace Trans

variable {σ α : Type}

/-- **A run whose steps all meet the guard.** -/
inductive Run (step : σ → α → σ → Prop) (guard : σ → α → Prop) (s : σ) : List α → σ → Prop where
  | nil : Run step guard s [] s
  | snoc {as : List α} {a : α} {t u : σ} : Run step guard s as t → guard t a → step t a u →
      Run step guard s (as ++ [a]) u

/-- The guard of a run without a condition. -/
def free : σ → α → Prop := fun _ _ => True

/-- A step that may be none. -/
def Moves (step : σ → α → σ → Prop) (s : σ) : Option α → σ → Prop
  | none, t => t = s
  | some a, t => step s a t

section Rules

variable {step : σ → α → σ → Prop} {guard guard' : σ → α → Prop} {s t u : σ} {as bs : List α}

theorem Run.single {a : α} (hg : guard s a) (h : step s a t) : Run step guard s [a] t := .snoc .nil hg h

theorem Run.trans (h : Run step guard s as t) (h' : Run step guard t bs u) : Run step guard s (as ++ bs) u := by
  induction h' with
  | nil => simpa using h
  | snoc _ hg hs ih =>
    rw [← List.append_assoc]
    exact .snoc ih hg hs

theorem Run.weaken (h : Run step guard s as t) (hg : ∀ s a, guard s a → guard' s a) : Run step guard' s as t := by
  induction h with
  | nil => exact .nil
  | snoc _ hg' hs ih => exact .snoc ih (hg _ _ hg') hs

/-- **The rule of invariants**: what holds at the start and is kept by every guarded step holds where the run ends. -/
theorem Run.invariant {P : σ → Prop} (h : Run step guard s as t) (hs : P s)
    (hstep : ∀ t a u, P t → guard t a → step t a u → P u) : P t := by
  induction h with
  | nil => exact hs
  | snoc _ hg ht ih => exact hstep _ _ _ ih hg ht

/-- **The rule of simulation**: when the image of every guarded step is a guarded step or none, the image of a run is a
run.  The invariant is for what the image does not see. -/
theorem Run.simulate {σ' α' : Type} {r : σ' → α' → σ' → Prop} {q : σ' → α' → Prop} {f : σ → σ'}
    {g : α → Option α'} {P : σ → Prop} (h : Run step guard s as t) (hs : P s)
    (hstep : ∀ t a u, P t → guard t a → step t a u →
      P u ∧ Moves r (f t) (g a) (f u) ∧ ∀ b, g a = some b → q (f t) b) :
    P t ∧ Run r q (f s) (as.filterMap g) (f t) := by
  induction h with
  | nil => exact ⟨hs, .nil⟩
  | @snoc as a t u _ hg ht ih =>
    obtain ⟨hu, hmoves, hguard⟩ := hstep _ _ _ ih.1 hg ht
    refine ⟨hu, ?_⟩
    rw [List.filterMap_append]
    cases hga : g a with
    | none =>
      rw [hga] at hmoves
      have heq : f u = f t := hmoves
      simpa [hga, heq] using ih.2
    | some b =>
      rw [hga] at hmoves
      simpa [hga] using ih.2.snoc (hguard b hga) hmoves

end Rules

end Trans

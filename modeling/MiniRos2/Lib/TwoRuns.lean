import Mathlib.Logic.Basic
import Mathlib.Tactic.Common
/-!
# TwoRuns — one program, run from two states

`Matches lost E Q r r'` says that two runs ended alike: both returned the same and are in states related by `Q`, or both
failed with the same error and are in states related by `E`.  A run whose error is `lost` is not followed any further,
and nothing is asked of the other.  Programs are taken apart with one rule for each way they are put together.
-/
namespace TwoRuns

variable {ε σ α β : Type}

def Matches (lost : ε → Prop) (E : σ → σ → Prop) (Q : α → σ → σ → Prop) :
    EStateM.Result ε σ α → EStateM.Result ε σ α → Prop
  | .ok a s, .ok b t => a = b ∧ Q a s t
  | .error e s, .error e' t => lost e ∨ e = e' ∧ E s t
  | .ok _ _, .error _ _ => False
  | .error e _, .ok _ _ => lost e

/-- What a run gave. -/
def outcome : EStateM.Result ε σ α → Except ε α
  | .ok a _ => .ok a
  | .error e _ => .error e

section Rules

variable {lost : ε → Prop} {E E' : σ → σ → Prop} {Q Q' : α → σ → σ → Prop} {R : β → σ → σ → Prop}

theorem Matches.weaken {r r' : EStateM.Result ε σ α} (h : Matches lost E Q r r') (hE : ∀ s t, E s t → E' s t)
    (hQ : ∀ a s t, Q a s t → Q' a s t) : Matches lost E' Q' r r' := by
  cases r with
  | ok a s =>
    cases r' with
    | ok b t => exact ⟨h.1, hQ a s t h.2⟩
    | error e' t => exact h
  | error e s =>
    cases r' with
    | ok b t => exact h
    | error e' t => exact h.imp_right fun h => ⟨h.1, hE s t h.2⟩

/-- A lost run is not compared. -/
theorem Matches.of_lost {e : ε} (h : lost e) (s : σ) (r : EStateM.Result ε σ α) :
    Matches lost E Q (.error e s) r := by
  cases r with
  | ok b t => exact h
  | error e' t => exact .inl h

/-- **The rule of sequences.** -/
theorem Matches.bind {x y : EStateM ε σ α} {f g : α → EStateM ε σ β} {s t : σ} (h : Matches lost E Q (x s) (y t))
    (hf : ∀ a s' t', x s = .ok a s' → Q a s' t' → Matches lost E R (f a s') (g a t')) :
    Matches lost E R ((x >>= f) s) ((y >>= g) t) := by
  change Matches lost E R (EStateM.bind x f s) (EStateM.bind y g t)
  unfold EStateM.bind
  cases hx : x s with
  | ok a s' =>
    rw [hx] at h
    cases hy : y t with
    | ok b t' =>
      rw [hy] at h
      obtain ⟨rfl, hq⟩ := h
      exact hf a s' t' hx hq
    | error e' t' =>
      rw [hy] at h
      exact h.elim
  | error e s' =>
    rw [hx] at h
    cases hy : y t with
    | ok b t' =>
      rw [hy] at h
      have hlost : lost e := h
      exact Matches.of_lost hlost s' (g b t')
    | error e' t' =>
      rw [hy] at h
      exact h

theorem Matches.pure {a : α} {s t : σ} (h : Q a s t) :
    Matches lost E Q ((Pure.pure a : EStateM ε σ α) s) ((Pure.pure a : EStateM ε σ α) t) := ⟨rfl, h⟩

/-- Two runs that match gave the same, unless the first is lost. -/
theorem Matches.outcome_eq {r r' : EStateM.Result ε σ α} (h : Matches lost E Q r r')
    (hr : ∀ e s, r = .error e s → ¬ lost e) : outcome r = outcome r' := by
  cases r with
  | ok a s =>
    cases r' with
    | ok b t => exact congrArg Except.ok h.1
    | error e' t => exact h.elim
  | error e s =>
    cases r' with
    | ok b t => exact absurd h (hr e s rfl)
    | error e' t =>
      rcases h with hlost | ⟨he, -⟩
      · exact absurd hlost (hr e s rfl)
      · exact congrArg Except.error he

end Rules

end TwoRuns

import Mathlib.Algebra.Order.Group.Basic
import Mathlib.Algebra.Order.Group.Nat
import Mathlib.Algebra.Order.Sub.Basic
import Mathlib.Data.List.Chain
import Mathlib.Tactic.Abel
/-!
# Throttle — the instants that a rate limiter lets through

`pass d last ts` are the instants of `ts` that come at least `d` after the one let through before, which is `last` at
the start.  Any two of them are `d` apart (`pass_pairwise`), so a time span holds only so many (`nsmul_length_le`), and
when the instants offered are at most `g` apart, the ones let through are less than `d + g` apart (`pass_gaps`).
-/
namespace Throttle

variable {G : Type} [AddCommGroup G] [LinearOrder G] [IsOrderedAddMonoid G]

def pass (d : G) : G → List G → List G
  | _, [] => []
  | last, t :: ts => if d ≤ t - last then t :: pass d t ts else pass d last ts

/-- `b` comes at least `d` after `a`. -/
def Apart (d a b : G) : Prop := d ≤ b - a

variable {d g last T : G}

theorem Apart.trans {a b c : G} (hd : 0 ≤ d) (hab : Apart d a b) (hbc : Apart d b c) : Apart d a c := by
  have h : (b - a) + (c - b) = c - a := by abel
  calc d ≤ d + d := le_add_of_nonneg_right hd
    _ ≤ (b - a) + (c - b) := add_le_add hab hbc
    _ = c - a := h

omit [IsOrderedAddMonoid G] in
theorem pass_isChain (d : G) : ∀ (last : G) (ts : List G), (last :: pass d last ts).IsChain (Apart d)
  | last, [] => .singleton last
  | last, t :: ts => by
    rw [pass]
    split
    · rename_i h
      exact .cons_cons h (pass_isChain d t ts)
    · exact pass_isChain d last ts

theorem pass_pairwise (hd : 0 ≤ d) (last : G) (ts : List G) : (last :: pass d last ts).Pairwise (Apart d) := by
  have htrans : Trans (Apart d) (Apart d) (Apart d) := ⟨fun hab hbc => hab.trans hd hbc⟩
  exact (pass_isChain d last ts).pairwise

/-- Instants that are `d` apart, all of them up to `T`, fit between the first and `T`. -/
theorem nsmul_length_le : ∀ {l : List G} {last : G}, (last :: l).IsChain (Apart d) → (∀ t ∈ last :: l, t ≤ T) →
    l.length • d ≤ T - last
  | [], last, _, hT => by simpa using hT last List.mem_cons_self
  | t :: l, last, h, hT => by
    rw [List.isChain_cons_cons] at h
    have ih := nsmul_length_le h.2 (fun u hu => hT u (List.mem_cons_of_mem _ hu))
    calc (l.length + 1) • d = l.length • d + d := succ_nsmul d l.length
      _ ≤ (T - t) + (t - last) := add_le_add ih h.1
      _ = T - last := by abel

/-- A poll that lets nothing through comes less than `d` after the last instant, and the next poll at most `g` later. -/
theorem pass_gaps_from (hd : 0 < d) : ∀ (last prev : G) (ts : List G), prev - last < d →
    (prev :: ts).IsChain (fun a b => b - a ≤ g) → (last :: pass d last ts).IsChain (fun a b => b - a < d + g)
  | last, _, [], _, _ => .singleton last
  | last, prev, t :: ts, hprev, h => by
    rw [List.isChain_cons_cons] at h
    rw [pass]
    split
    · refine .cons_cons ?_ (pass_gaps_from hd t t ts (by rwa [sub_self]) h.2)
      calc t - last = (prev - last) + (t - prev) := by abel
        _ < d + g := add_lt_add_of_lt_of_le hprev h.1
    · rename_i hnot
      exact pass_gaps_from hd last t ts (not_le.1 hnot) h.2

theorem pass_gaps (hd : 0 < d) : ∀ (last : G) (ts : List G), ts.IsChain (fun a b => b - a ≤ g) →
    (pass d last ts).IsChain (fun a b => b - a < d + g)
  | _, [], _ => .nil
  | last, t :: ts, h => by
    rw [pass]
    split
    · exact pass_gaps_from hd t t ts (by rwa [sub_self]) h
    · rename_i hnot
      exact (pass_gaps_from hd last t ts (not_le.1 hnot) h).tail

/-- **The count**: up to `T` at most `(T - last) / d` instants are let through. -/
theorem nsmul_length_filter_le (hd : 0 ≤ d) (ts : List G) (hT : last ≤ T) :
    ((pass d last ts).filter (· ≤ T)).length • d ≤ T - last := by
  have hsub : (last :: (pass d last ts).filter (· ≤ T)).Sublist (last :: pass d last ts) :=
    (List.filter_sublist).cons_cons last
  refine nsmul_length_le ((pass_pairwise hd last ts).sublist hsub).isChain ?_
  intro t ht
  rcases List.mem_cons.1 ht with rfl | ht
  · exact hT
  · simpa using (List.mem_filter.1 ht).2

theorem filter_eq_nil (hd : 0 ≤ d) (ts : List G) (hT : T < last) : (pass d last ts).filter (· ≤ T) = [] := by
  refine List.filter_eq_nil_iff.2 fun t ht hle => ?_
  have hapart : d ≤ t - last := (List.pairwise_cons.1 (pass_pairwise hd last ts)).1 t ht
  have hlast : last ≤ t := sub_nonneg.1 (hd.trans hapart)
  exact absurd (hlast.trans (by simpa using hle)) (not_le.2 hT)

end Throttle

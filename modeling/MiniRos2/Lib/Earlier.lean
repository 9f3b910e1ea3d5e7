import Mathlib.Data.List.Nodup
/-!
# Earlier — what comes before what in a log

A log grows at its end (`snoc_cases`), so which of two entries came first is settled when the second one comes
(`of_mem`).
-/

variable {α : Type}

/-- `a` is in the log before `b`. -/
def Earlier (l : List α) (a b : α) : Prop := [a, b].Sublist l

namespace Earlier

variable {l l' : List α} {a b x : α}

theorem left_mem (h : Earlier l a b) : a ∈ l := h.subset (by simp)

theorem append (h : Earlier l a b) : Earlier (l ++ l') a b := List.Sublist.trans h (List.sublist_append_left l l')

theorem snoc (h : a ∈ l) : Earlier (l ++ [x]) a x :=
  List.Sublist.append (List.singleton_sublist.2 h) (List.Sublist.refl [x])

/-- What is earlier in the longer log was so before, or the later one is new. -/
theorem snoc_cases (h : Earlier (l ++ [x]) a b) : Earlier l a b ∨ a ∈ l ∧ b = x := by
  obtain ⟨p, q, hpq, hp, hq⟩ := List.sublist_append_iff.1 h
  rcases List.sublist_singleton.1 hq with rfl | rfl
  · rw [List.append_nil] at hpq
    subst hpq
    exact .inl hp
  · have hsplit : [a] ++ [b] = p ++ [x] := hpq
    obtain ⟨rfl, hb⟩ := List.append_inj' hsplit rfl
    exact .inr ⟨List.singleton_sublist.1 hp, List.singleton_inj.1 hb⟩

theorem ne (h : Earlier l a b) (hl : l.Nodup) : a ≠ b := by
  have hab : [a, b].Nodup := List.Nodup.sublist h hl
  simpa using hab

/-- **What came before an entry of the log is not changed by what comes later.** -/
theorem of_mem (h : Earlier (l ++ l') a b) (hl : (l ++ l').Nodup) (hb : b ∈ l) : Earlier l a b := by
  obtain ⟨p, q, hpq, hp, hq⟩ := List.sublist_append_iff.1 h
  rcases List.eq_nil_or_concat q with rfl | ⟨q, y, rfl⟩
  · rw [List.append_nil] at hpq
    subst hpq
    exact hp
  · have hsplit : [a] ++ [b] = (p ++ q) ++ [y] := by simpa using hpq
    obtain ⟨-, hy⟩ := List.append_inj' hsplit rfl
    have hb' : b ∈ l' := hq.subset (by simp [List.singleton_inj.1 hy])
    exact absurd hb' (List.disjoint_of_nodup_append hl hb)

end Earlier

import Mathlib
/-!
# OrdMap — an ordered map as a strictly sorted association list

A map with unique keys kept in increasing order is its list of entries, in order.  `insert` puts an entry in its
place and replaces the value of a key already there; `ofList` inserts one entry after another, so a later duplicate
replaces an earlier one.  Inserting the entries of a sorted list in order gives the list back (`ofList_of_sorted`), and
inserting entries with different keys a permutation of them (`ofList_perm`).  `replace` assigns to an entry that is
there.
-/
namespace OrdMap

variable {K : Type*} {V : Type*} [LT K] [DecidableLT K] [DecidableEq K]

/-- The keys are strictly increasing. -/
def Sorted (m : List (K × V)) : Prop := m.Pairwise (fun a b => a.1 < b.1)

def insert (k : K) (v : V) : List (K × V) → List (K × V)
  | [] => [(k, v)]
  | p :: m => if k < p.1 then (k, v) :: p :: m else if k = p.1 then (k, v) :: m else p :: insert k v m

def find? (k : K) : List (K × V) → Option V
  | [] => none
  | p :: m => if k = p.1 then some p.2 else find? k m

def ofList (l : List (K × V)) : List (K × V) := l.foldl (fun m p => insert p.1 p.2 m) []

theorem mem_insert (k : K) (v : V) : ∀ (m : List (K × V)) (p : K × V), p ∈ insert k v m → p = (k, v) ∨ p ∈ m
  | [], p, h => by simpa [insert] using h
  | q :: m, p, h => by
    unfold insert at h
    split at h
    · simpa using h
    · split at h
      · rcases List.mem_cons.1 h with rfl | h
        · exact .inl rfl
        · exact .inr (List.mem_cons_of_mem _ h)
      · rcases List.mem_cons.1 h with rfl | h
        · exact .inr List.mem_cons_self
        · exact (mem_insert k v m p h).imp_right (List.mem_cons_of_mem _)

theorem find?_insert (k k' : K) (v : V) : ∀ (m : List (K × V)), Std.Irrefl (fun a b : K => a < b) →
    find? k' (insert k v m) = if k' = k then some v else find? k' m
  | [], _ => by simp [insert, find?]
  | q :: m, hirr => by
    unfold insert
    split
    · simp [find?]
    · split
      · rename_i hk
        simp only [find?]
        split
        · rfl
        · rename_i hne
          rw [if_neg (fun h => hne (h.trans hk.symm))]
      · rename_i hne
        simp only [find?, find?_insert k k' v m hirr]
        by_cases hq : k' = q.1
        · rw [if_pos hq, if_neg (fun h => hne (h.symm.trans hq)), if_pos hq]
        · rw [if_neg hq, if_neg hq]

theorem mem_foldl_insert : ∀ (l m : List (K × V)) (p : K × V),
    p ∈ l.foldl (fun m q => insert q.1 q.2 m) m → p ∈ l ∨ p ∈ m
  | [], _, _, h => .inr h
  | q :: l, m, p, h => by
    rcases mem_foldl_insert l _ p h with h | h
    · exact .inl (List.mem_cons_of_mem _ h)
    · rcases mem_insert q.1 q.2 m p h with rfl | h
      · exact .inl List.mem_cons_self
      · exact .inr h

theorem mem_ofList {l : List (K × V)} {p : K × V} (h : p ∈ ofList l) : p ∈ l := by
  rcases mem_foldl_insert l [] p h with h | h
  · exact h
  · cases h

theorem insert_perm (k : K) (v : V) : ∀ (m : List (K × V)), k ∉ m.map Prod.fst → (insert k v m).Perm ((k, v) :: m)
  | [], _ => .refl _
  | q :: m, h => by
    rw [List.map_cons, List.mem_cons, not_or] at h
    unfold insert
    split
    · exact .refl _
    · rw [if_neg h.1]
      exact ((insert_perm k v m h.2).cons q).trans (.swap _ _ _)

theorem foldl_insert_perm : ∀ (l m : List (K × V)), ((l ++ m).map Prod.fst).Nodup →
    (l.foldl (fun m p => insert p.1 p.2 m) m).Perm (l ++ m)
  | [], m, _ => .refl m
  | p :: l, m, h => by
    rw [List.cons_append, List.map_cons, List.nodup_cons] at h
    have hp : p.1 ∉ m.map Prod.fst := fun hm => h.1 (by simp only [List.map_append, List.mem_append]; exact .inr hm)
    have hins := insert_perm p.1 p.2 m hp
    have hnodup : ((l ++ insert p.1 p.2 m).map Prod.fst).Nodup := by
      refine (((hins.append_left l).map Prod.fst).nodup_iff).2 ?_
      refine ((List.perm_middle.map Prod.fst).nodup_iff).2 ?_
      rw [List.map_cons, List.nodup_cons]
      exact h
    rw [List.foldl_cons]
    exact (foldl_insert_perm l _ hnodup).trans ((hins.append_left l).trans List.perm_middle)

/-- **Entries with different keys are all there**, in another order. -/
theorem ofList_perm {l : List (K × V)} (h : (l.map Prod.fst).Nodup) : (ofList l).Perm l := by
  have hl := foldl_insert_perm l [] (by rwa [List.append_nil])
  rwa [List.append_nil] at hl
section Find

variable [Std.Irrefl (fun a b : K => a < b)]

theorem find?_foldl_of_not_mem {k : K} : ∀ (l m : List (K × V)), k ∉ l.map Prod.fst →
    find? k (l.foldl (fun m q => insert q.1 q.2 m) m) = find? k m
  | [], _, _ => rfl
  | q :: l, m, h => by
    rw [List.map_cons, List.mem_cons, not_or] at h
    rw [List.foldl_cons, find?_foldl_of_not_mem l _ h.2, find?_insert _ _ _ _ inferInstance, if_neg h.1]

theorem find?_foldl_of_mem {k : K} {v : V} : ∀ (l m : List (K × V)), (l.map Prod.fst).Nodup → (k, v) ∈ l →
    find? k (l.foldl (fun m q => insert q.1 q.2 m) m) = some v
  | q :: l, m, hl, h => by
    rw [List.map_cons, List.nodup_cons] at hl
    rw [List.foldl_cons]
    rcases List.mem_cons.1 h with rfl | h
    · rw [find?_foldl_of_not_mem l _ hl.1, find?_insert _ _ _ _ inferInstance, if_pos rfl]
    · exact find?_foldl_of_mem l _ hl.2 h

/-- **Entries with different keys are all found.** -/
theorem find?_ofList {k : K} {v : V} {l : List (K × V)} (hl : (l.map Prod.fst).Nodup) (h : (k, v) ∈ l) :
    find? k (ofList l) = some v := find?_foldl_of_mem l [] hl h

end Find

section Ordered

variable [LE K] [Std.LawfulOrderLT K] [Std.IsLinearOrder K]

theorem sorted_insert (k : K) (v : V) : ∀ (m : List (K × V)), Sorted m → Sorted (insert k v m)
  | [], _ => List.pairwise_singleton _ _
  | q :: m, h => by
    have hq : ∀ p ∈ m, q.1 < p.1 := fun p hp => List.rel_of_pairwise_cons h hp
    unfold insert
    split
    · rename_i hlt
      refine List.Pairwise.cons (fun p hp => ?_) h
      rcases List.mem_cons.1 hp with rfl | hp
      · exact hlt
      · exact Std.lt_trans hlt (hq p hp)
    · rename_i hnlt
      split
      · rename_i heq
        exact List.Pairwise.cons (fun p hp => by rw [heq]; exact hq p hp) h.of_cons
      · rename_i hne
        refine List.Pairwise.cons (fun p hp => ?_) (sorted_insert k v m h.of_cons)
        rcases mem_insert k v m p hp with rfl | hp
        · rcases Std.lt_trichotomy k q.1 with hlt | heq | hgt
          · exact absurd hlt hnlt
          · exact absurd heq hne
          · exact hgt
        · exact hq p hp

/-- **A key above every key goes to the end.** -/
theorem insert_last (k : K) (v : V) : ∀ (m : List (K × V)), (∀ p ∈ m, p.1 < k) → insert k v m = m ++ [(k, v)]
  | [], _ => rfl
  | q :: m, h => by
    have hq : q.1 < k := h q List.mem_cons_self
    unfold insert
    rw [if_neg (fun hlt => Std.lt_irrefl (Std.lt_trans hlt hq)),
      if_neg (fun heq => Std.lt_irrefl (heq ▸ hq)), insert_last k v m (fun p hp => h p (List.mem_cons_of_mem _ hp))]
    rfl

theorem foldl_insert_sorted : ∀ (l m : List (K × V)), Sorted (m ++ l) →
    l.foldl (fun m p => insert p.1 p.2 m) m = m ++ l
  | [], m, _ => by simp
  | p :: l, m, h => by
    have hlast : ∀ q ∈ m, q.1 < p.1 := fun q hq =>
      (List.pairwise_append.1 h).2.2 q hq p List.mem_cons_self
    rw [List.foldl_cons, insert_last p.1 p.2 m hlast, foldl_insert_sorted l (m ++ [(p.1, p.2)]) (by simpa using h)]
    simp

/-- **A sorted list is rebuilt by inserting its entries one after another.** -/
theorem ofList_of_sorted (l : List (K × V)) (h : Sorted l) : ofList l = l :=
  foldl_insert_sorted l [] (by simpa using h)

theorem sorted_foldl_insert : ∀ (l m : List (K × V)), Sorted m → Sorted (l.foldl (fun m p => insert p.1 p.2 m) m)
  | [], _, h => h
  | p :: l, m, h => sorted_foldl_insert l _ (sorted_insert p.1 p.2 m h)

theorem sorted_ofList (l : List (K × V)) : Sorted (ofList l) := sorted_foldl_insert l [] List.Pairwise.nil

end Ordered

end OrdMap

/-! ## Assignment to an entry that is there -/

namespace OrdMap

variable {K V W : Type*} [DecidableEq K]

/-- The value of the first entry with the key is replaced; without one nothing changes. -/
def replace (k : K) (v : V) : List (K × V) → List (K × V)
  | [] => []
  | p :: m => if k = p.1 then (k, v) :: m else p :: replace k v m

variable {k k' : K} {v w : V} {m : List (K × V)}

/-- **An entry that is found splits the list**, and `replace` changes it and no other. -/
theorem split_of_find? : ∀ {m : List (K × V)}, find? k m = some v →
    ∃ pre post, m = pre ++ (k, v) :: post ∧ ∀ w, replace k w m = pre ++ (k, w) :: post
  | p :: m, h => by
    unfold find? at h
    split at h
    · rename_i hk
      cases h
      refine ⟨[], m, ?_, fun w => ?_⟩
      · rw [hk]; rfl
      · rw [replace, if_pos hk]; rfl
    · rename_i hk
      obtain ⟨pre, post, hm, hr⟩ := split_of_find? h
      refine ⟨p :: pre, post, ?_, fun w => ?_⟩
      · rw [hm]; rfl
      · rw [replace, if_neg hk, hr w]; rfl

theorem mem_of_find? (h : find? k m = some v) : (k, v) ∈ m := by
  obtain ⟨pre, post, hm, -⟩ := split_of_find? h
  rw [hm]
  exact List.mem_append_right _ List.mem_cons_self

theorem find?_eq_none : ∀ {m : List (K × V)}, find? k m = none ↔ k ∉ m.map Prod.fst
  | [] => by simp [find?]
  | p :: m => by
    rw [find?, List.map_cons, List.mem_cons, not_or]
    split
    · rename_i hk
      exact ⟨fun h => (Option.some_ne_none _ h).elim, fun h => absurd hk h.1⟩
    · rename_i hk
      rw [find?_eq_none]
      exact (and_iff_right hk).symm

theorem replace_self : ∀ {m : List (K × V)}, find? k m = some v → replace k v m = m
  | p :: m, h => by
    unfold find? at h
    unfold replace
    split at h
    · rename_i hk
      cases h
      rw [if_pos hk, hk]
    · rename_i hk
      rw [if_neg hk, replace_self h]

theorem replace_replace : ∀ m : List (K × V), replace k w (replace k v m) = replace k w m
  | [] => rfl
  | p :: m => by
    by_cases hk : k = p.1
    · simp only [replace, if_pos hk, if_true]
    · simp only [replace, if_neg hk, replace_replace m]

theorem replace_comm (hk : k' ≠ k) : ∀ m : List (K × V),
    replace k' w (replace k v m) = replace k v (replace k' w m)
  | [] => rfl
  | p :: m => by
    by_cases hp : k = p.1
    · have hp' : k' ≠ p.1 := fun h => hk (h.trans hp.symm)
      simp only [replace, if_pos hp, if_neg hp', if_neg hk]
    · by_cases hp' : k' = p.1
      · simp only [replace, if_neg hp, if_pos hp', if_neg (Ne.symm hk)]
      · simp only [replace, if_neg hp, if_neg hp', replace_comm hk m]

theorem find?_replace_ne (hk : k' ≠ k) : ∀ m : List (K × V), find? k' (replace k v m) = find? k' m
  | [] => rfl
  | p :: m => by
    rw [replace]
    split
    · rename_i hp
      rw [find?, find?, if_neg hk, if_neg (fun h => hk (h.trans hp.symm))]
    · rw [find?, find?, find?_replace_ne hk m]

theorem find?_replace_self : ∀ {m : List (K × V)}, find? k m = some v → find? k (replace k w m) = some w
  | p :: m, h => by
    unfold find? at h
    rw [replace]
    split
    · rw [find?, if_pos rfl]
    · rename_i hk
      rw [if_neg hk] at h
      rw [find?, if_neg hk, find?_replace_self h]

theorem keys_replace : ∀ m : List (K × V), (replace k v m).map Prod.fst = m.map Prod.fst
  | [] => rfl
  | p :: m => by
    rw [replace]
    split
    · rename_i hk
      rw [List.map_cons, List.map_cons, hk]
    · rw [List.map_cons, List.map_cons, keys_replace m]

theorem mem_replace : ∀ {m : List (K × V)} {p : K × V}, p ∈ replace k w m → p = (k, w) ∨ p ∈ m
  | q :: m, p, h => by
    rw [replace] at h
    split at h
    · exact (List.mem_cons.1 h).imp_right (List.mem_cons_of_mem _)
    · rcases List.mem_cons.1 h with rfl | h
      · exact .inr List.mem_cons_self
      · exact (mem_replace h).imp_right (List.mem_cons_of_mem _)

theorem find?_replace_ne_none (h : find? k m ≠ none) : find? k (replace k' w m) ≠ none := by
  rw [Ne, find?_eq_none, keys_replace, ← find?_eq_none]
  exact h

theorem find?_map (f : V → W) : ∀ m : List (K × V),
    find? k (m.map (fun p => (p.1, f p.2))) = (find? k m).map f
  | [] => rfl
  | p :: m => by
    rw [List.map_cons, find?, find?, find?_map f m]
    split <;> rfl

theorem replace_map (f : V → W) : ∀ m : List (K × V),
    (replace k v m).map (fun p => (p.1, f p.2)) = replace k (f v) (m.map (fun p => (p.1, f p.2)))
  | [] => rfl
  | p :: m => by
    rw [List.map_cons, replace, replace]
    split
    · rfl
    · rw [List.map_cons, replace_map f m]

theorem insert_map [LT K] [DecidableLT K] (f : V → W) : ∀ m : List (K × V),
    (insert k v m).map (fun p => (p.1, f p.2)) = insert k (f v) (m.map (fun p => (p.1, f p.2)))
  | [] => rfl
  | p :: m => by
    rw [List.map_cons, insert, insert]
    split
    · rfl
    · split
      · rfl
      · rw [List.map_cons, insert_map f m]

theorem Sorted.replace [LT K] (h : Sorted m) : Sorted (replace k v m) := by
  have hkeys : ∀ m : List (K × V), Sorted m ↔ (m.map Prod.fst).Pairwise (fun a b => a < b) := fun m =>
    (List.pairwise_map (f := Prod.fst)).symm
  rw [hkeys, keys_replace]
  exact (hkeys m).1 h

end OrdMap

import MiniRos2.Lib.Owned
/-!
# OwnedAt — positions in what is owned

A position is the list of the keys that lead to a cell.  What is at a position is read by `get` and replaced by `set`;
the block a cell is in is the only one that changes with the cell (`blocks_set`), two positions are in the same place
of the heap only when they are the same (`place_inj`), and what is at a position does not change when another is set,
unless one is above the other (`get_set_apart`).
-/
namespace Owned
namespace Estate

variable {A K C L : Type} [DecidableEq K] {lay : Layout A C L}

def get (t : Estate A K C L) : List K → Option (Estate A K C L)
  | [] => some t
  | k :: ks =>
    match t with
    | .leaf _ => none
    | .atom _ _ => none
    | .node _ _ es =>
      match OrdMap.find? k es with
      | some s => get s ks
      | none => none

def set (t : Estate A K C L) (ks : List K) (u : Estate A K C L) : Estate A K C L :=
  match ks with
  | [] => u
  | k :: ks =>
    match t with
    | .leaf c => .leaf c
    | .atom a x => .atom a x
    | .node a l es =>
      match OrdMap.find? k es with
      | some s => .node a l (OrdMap.replace k (set s ks u) es)
      | none => .node a l es

variable {t u v : Estate A K C L} {k : K} {ks p q : List K} {a : Nat} {l : L} {es : List (K × Estate A K C L)}

theorem get_cons (h : OrdMap.find? k es = some v) : get (.node a l es) (k :: ks) = v.get ks := by rw [get, h]

theorem set_cons (h : OrdMap.find? k es = some v) :
    set (.node a l es) (k :: ks) u = .node a l (OrdMap.replace k (v.set ks u) es) := by rw [set, h]

/-- A position that is not the root itself starts in a node. -/
theorem get_cons_eq_some (h : t.get (k :: ks) = some u) :
    ∃ a l es s, t = .node a l es ∧ OrdMap.find? k es = some s ∧ s.get ks = some u := by
  cases t with
  | leaf c => cases h
  | atom a x => cases h
  | node a l es =>
    rw [get] at h
    cases hf : OrdMap.find? k es with
    | none => rw [hf] at h; cases h
    | some s =>
      rw [hf] at h
      exact ⟨a, l, es, s, rfl, hf, h⟩

theorem get_append : ∀ {p : List K} {t : Estate A K C L}, t.get p = some v → t.get (p ++ q) = v.get q
  | [], t, h => by cases h; rfl
  | k :: p, t, h => by
    obtain ⟨a, l, es, s, rfl, hf, hs⟩ := get_cons_eq_some h
    rw [List.cons_append, get_cons hf, get_append hs]

/-- What is above a position is there too. -/
theorem get_of_append : ∀ {p : List K} {t : Estate A K C L}, t.get (p ++ q) = some v →
    ∃ u, t.get p = some u ∧ u.get q = some v
  | [], t, h => ⟨t, rfl, h⟩
  | k :: p, t, h => by
    obtain ⟨a, l, es, s, rfl, hf, hs⟩ := get_cons_eq_some h
    obtain ⟨u, hu, hv⟩ := get_of_append hs
    exact ⟨u, by rw [get_cons hf, hu], hv⟩

theorem get_set_self : ∀ {p : List K} {t : Estate A K C L}, t.get p = some v → (t.set p u).get p = some u
  | [], _, _ => rfl
  | k :: p, t, h => by
    obtain ⟨a, l, es, s, rfl, hf, hs⟩ := get_cons_eq_some h
    rw [set_cons hf, get_cons (OrdMap.find?_replace_self hf), get_set_self hs]

theorem set_get : ∀ {p : List K} {t : Estate A K C L}, t.get p = some v → t.set p v = t
  | [], t, h => by cases h; rfl
  | k :: p, t, h => by
    obtain ⟨a, l, es, s, rfl, hf, hs⟩ := get_cons_eq_some h
    rw [set_cons hf, set_get hs, OrdMap.replace_self hf]

theorem set_set : ∀ {p : List K} {t : Estate A K C L}, t.get p = some v → (t.set p u).set p w = t.set p w
  | [], _, _ => rfl
  | k :: p, t, h => by
    obtain ⟨a, l, es, s, rfl, hf, hs⟩ := get_cons_eq_some h
    rw [set_cons hf, set_cons hf, set_cons (OrdMap.find?_replace_self hf), set_set hs, OrdMap.replace_replace]

theorem set_append : ∀ {p : List K} {t : Estate A K C L}, t.get p = some v → t.set (p ++ q) u = t.set p (v.set q u)
  | [], t, h => by cases h; rfl
  | k :: p, t, h => by
    obtain ⟨a, l, es, s, rfl, hf, hs⟩ := get_cons_eq_some h
    rw [List.cons_append, set_cons hf, set_cons hf, set_append hs]

/-- **Setting one position leaves another alone**, unless one is above the other. -/
theorem get_set_apart : ∀ {p q : List K} {t : Estate A K C L}, ¬ p <+: q → ¬ q <+: p → (t.set p u).get q = t.get q
  | [], q, _, hp, _ => absurd List.nil_prefix hp
  | _ :: _, [], _, _, hq => absurd List.nil_prefix hq
  | k :: p, k' :: q, .leaf _, _, _ => rfl
  | k :: p, k' :: q, .atom _ _, _, _ => rfl
  | k :: p, k' :: q, .node a l es, hp, hq => by
    cases hf : OrdMap.find? k es with
    | none => rw [set, hf]
    | some s =>
      rw [set_cons hf]
      by_cases hk : k' = k
      · subst hk
        rw [get_cons (OrdMap.find?_replace_self hf), get_cons hf]
        exact get_set_apart (fun h => hp (List.cons_prefix_cons.2 ⟨rfl, h⟩))
          (fun h => hq (List.cons_prefix_cons.2 ⟨rfl, h⟩))
      · rw [get, get, OrdMap.find?_replace_ne hk]

/-- **The order of two settings does not matter**, unless one position is above the other. -/
theorem set_comm : ∀ {p q : List K} {t : Estate A K C L}, ¬ p <+: q → ¬ q <+: p →
    (t.set p u).set q v = (t.set q v).set p u
  | [], q, _, hp, _ => absurd List.nil_prefix hp
  | _ :: _, [], _, _, hq => absurd List.nil_prefix hq
  | k :: p, k' :: q, .leaf _, _, _ => rfl
  | k :: p, k' :: q, .atom _ _, _, _ => rfl
  | k :: p, k' :: q, .node a l es, hp, hq => by
    cases hf : OrdMap.find? k es with
    | none =>
      cases hf' : OrdMap.find? k' es with
      | none => rw [set, set, hf, hf', set, set, hf, hf']
      | some s' =>
        have hk : k ≠ k' := fun h => by rw [h, hf'] at hf; cases hf
        rw [set_cons hf', set, hf, set_cons hf', set, OrdMap.find?_replace_ne hk, hf]
    | some s =>
      by_cases hk : k' = k
      · subst hk
        rw [set_cons hf, set_cons hf, set_cons (OrdMap.find?_replace_self hf), set_cons (OrdMap.find?_replace_self hf),
          OrdMap.replace_replace, OrdMap.replace_replace, set_comm (fun h => hp (List.cons_prefix_cons.2 ⟨rfl, h⟩))
          (fun h => hq (List.cons_prefix_cons.2 ⟨rfl, h⟩))]
      · cases hf' : OrdMap.find? k' es with
        | none =>
          rw [set_cons hf, set, OrdMap.find?_replace_ne hk, hf', set, hf']
          exact (set_cons hf).symm
        | some s' =>
          have hfound : OrdMap.find? k' (OrdMap.replace k (s.set p u) es) = some s' := by
            rw [OrdMap.find?_replace_ne hk, hf']
          have hfound' : OrdMap.find? k (OrdMap.replace k' (s'.set q v) es) = some s := by
            rw [OrdMap.find?_replace_ne (Ne.symm hk), hf]
          rw [set_cons hf, set_cons hfound, set_cons hf', set_cons hfound', OrdMap.replace_comm hk]

theorem cell_set (h : t.get (k :: ks) = some v) : (t.set (k :: ks) u).cell lay = t.cell lay := by
  obtain ⟨a, l, es, s, rfl, hf, hs⟩ := get_cons_eq_some h
  rw [set_cons hf]
  rfl

/-- Setting a cell below another leaves this one as it is. -/
theorem cell_set_concat (h : t.get (ks ++ [k]) = some v) : (t.set (ks ++ [k]) u).cell lay = t.cell lay := by
  cases ks with
  | nil => exact cell_set h
  | cons k' ks => exact cell_set h

/-! ## What a position owns -/

theorem find?_block (lay : Layout A C L) (l : L) (h : OrdMap.find? k es = some v) :
    OrdMap.find? k (block lay l es).entries = some (v.cell lay) := by
  rw [block, Block.entries, OrdMap.find?_map (fun e : Estate A K C L => e.cell lay), h]
  rfl

/-- **One block changes with the cell at a position**: that the cell is in.  The others are those of what is set and
those of the rest, which do not depend on it. -/
theorem blocks_set (lay : Layout A C L) : ∀ {ks : List K} {t : Estate A K C L}, t.get ks = some (.node a l es) →
    OrdMap.find? k es = some v →
    ∃ rest, ∀ u, ((t.set (ks ++ [k]) u).blocks lay).Perm
      ((a, .node l (OrdMap.replace k (u.cell lay) (block lay l es).entries)) :: (rest ++ u.blocks lay))
  | [], t, h, hk => by
    cases h
    obtain ⟨pre, post, -, hr⟩ := OrdMap.split_of_find? hk
    refine ⟨blocksOf lay (pre ++ post), fun u => ?_⟩
    have hblock : block lay l (OrdMap.replace k u es) =
        .node l (OrdMap.replace k (u.cell lay) (block lay l es).entries) := by
      rw [block, OrdMap.replace_map (fun e : Estate A K C L => e.cell lay)]
      rfl
    rw [List.nil_append, set_cons hk, set, blocks, hblock, hr u]
    exact (blocksOf_split lay k u pre post).cons _
  | k' :: ks, t, h, hk => by
    obtain ⟨a', l', es', s, rfl, hf, hs⟩ := get_cons_eq_some h
    obtain ⟨rest, hrest⟩ := blocks_set lay hs hk
    obtain ⟨pre, post, -, hr⟩ := OrdMap.split_of_find? hf
    refine ⟨(a', block lay l' es') :: (blocksOf lay (pre ++ post) ++ rest), fun u => ?_⟩
    have hget : s.get (ks ++ [k]) = some v := by rw [get_append hs, get_cons hk]; rfl
    have hblock : block lay l' (OrdMap.replace k' (s.set (ks ++ [k]) u) es') = block lay l' es' := by
      rw [block, OrdMap.replace_map (fun e : Estate A K C L => e.cell lay), cell_set_concat hget]
      exact congrArg (Block.node l') (OrdMap.replace_self (find?_block lay l' hf))
    rw [List.cons_append, set_cons hf, blocks, hblock, hr]
    have hall := (blocksOf_split lay k' (s.set (ks ++ [k]) u) pre post).trans
      ((hrest u).append_left (blocksOf lay (pre ++ post)))
    refine (hall.cons (a', block lay l' es')).trans ?_
    simp only [List.cons_append, List.append_assoc]
    refine (List.Perm.cons _ List.perm_middle).trans (.swap _ _ _)

/-- A block of what is at a position is a block of the whole. -/
theorem blocks_get : ∀ {p : List K} {t : Estate A K C L}, t.get p = some u → u.blocks lay ⊆ t.blocks lay
  | [], t, h => by cases h; exact List.Subset.refl _
  | k :: p, t, h => by
    obtain ⟨a, l, es, s, rfl, hf, hs⟩ := get_cons_eq_some h
    rw [blocks, blocksOf_eq]
    exact fun b hb => List.mem_cons_of_mem _ (List.mem_flatMap.2 ⟨(k, s), OrdMap.mem_of_find? hf, blocks_get hs hb⟩)

theorem leaves_get : ∀ {p : List K} {t : Estate A K C L}, t.get p = some u → u.leaves ⊆ t.leaves
  | [], t, h => by cases h; exact List.Subset.refl _
  | k :: p, t, h => by
    obtain ⟨a, l, es, s, rfl, hf, hs⟩ := get_cons_eq_some h
    rw [leaves, leavesOf_eq]
    exact fun c hc => List.mem_flatMap.2 ⟨(k, s), OrdMap.mem_of_find? hf, leaves_get hs hc⟩

/-- A leaf of the whole after a position was set was there before, or came with what was set. -/
theorem leaves_set : ∀ {p : List K} {t : Estate A K C L} {c : C}, t.get p = some v → c ∈ (t.set p u).leaves →
    c ∈ u.leaves ∨ c ∈ t.leaves
  | [], _, _, _, hc => .inl hc
  | k :: p, t, c, h, hc => by
    obtain ⟨a, l, es, s, rfl, hf, hs⟩ := get_cons_eq_some h
    rw [set_cons hf, leaves, leavesOf_eq] at hc
    rw [leaves, leavesOf_eq]
    obtain ⟨e, he, hc⟩ := List.mem_flatMap.1 hc
    rcases OrdMap.mem_replace he with rfl | he
    · exact (leaves_set hs hc).imp_right (fun hc => List.mem_flatMap.2 ⟨(k, s), OrdMap.mem_of_find? hf, hc⟩)
    · exact .inr (List.mem_flatMap.2 ⟨e, he, hc⟩)

theorem shapes_set : ∀ {p : List K} {t : Estate A K C L} {x : L × List K}, t.get p = some v →
    x ∈ (t.set p u).shapes → x ∈ u.shapes ∨ x ∈ t.shapes
  | [], _, _, _, hx => .inl hx
  | k :: p, t, x, h, hx => by
    obtain ⟨a, l, es, s, rfl, hf, hs⟩ := get_cons_eq_some h
    rw [set_cons hf, shapes, shapesOf_eq, OrdMap.keys_replace] at hx
    rw [shapes, shapesOf_eq]
    rcases List.mem_cons.1 hx with rfl | hx
    · exact .inr List.mem_cons_self
    obtain ⟨e, he, hx⟩ := List.mem_flatMap.1 hx
    rcases OrdMap.mem_replace he with rfl | he
    · exact (shapes_set hs hx).imp_right
        (fun hx => List.mem_cons_of_mem _ (List.mem_flatMap.2 ⟨(k, s), OrdMap.mem_of_find? hf, hx⟩))
    · exact .inr (List.mem_cons_of_mem _ (List.mem_flatMap.2 ⟨e, he, hx⟩))

theorem shapes_get : ∀ {p : List K} {t : Estate A K C L}, t.get p = some u → u.shapes ⊆ t.shapes
  | [], t, h => by cases h; exact List.Subset.refl _
  | k :: p, t, h => by
    obtain ⟨a, l, es, s, rfl, hf, hs⟩ := get_cons_eq_some h
    rw [shapes, shapesOf_eq]
    exact fun x hx => List.mem_cons_of_mem _ (List.mem_flatMap.2 ⟨(k, s), OrdMap.mem_of_find? hf, shapes_get hs hx⟩)

/-! ## Places -/

/-- The cell at a position is in the block at `a`, under the key `k`. -/
def Place (t : Estate A K C L) (p : List K) (a : Nat) (k : K) : Prop :=
  ∃ ks l es, p = ks ++ [k] ∧ t.get ks = some (.node a l es) ∧ OrdMap.find? k es ≠ none

/-- The addresses of what is at a position. -/
theorem addr_mem (lay : Layout A C L) (h : t.get p = some (.node a l es)) : a ∈ (t.blocks lay).map Prod.fst :=
  List.mem_map.2 ⟨_, blocks_get h List.mem_cons_self, rfl⟩

/-- Two members of a node share no block. -/
theorem disjoint_of_find? {k' : K} (hnodup : ((blocksOf lay es).map Prod.fst).Nodup) (hk : k ≠ k')
    (hu : OrdMap.find? k es = some u) (hv : OrdMap.find? k' es = some v) :
    ∀ a, a ∈ (u.blocks lay).map Prod.fst → a ∉ (v.blocks lay).map Prod.fst := by
  intro a ha ha'
  obtain ⟨pre, post, rfl, -⟩ := OrdMap.split_of_find? hu
  have hmem : (k', v) ∈ pre ++ post := by
    have hall := OrdMap.mem_of_find? hv
    rcases List.mem_append.1 hall with h | h
    · exact List.mem_append_left _ h
    · exact List.mem_append_right _ ((List.mem_cons.1 h).resolve_left (fun h => hk (congrArg Prod.fst h).symm))
  have hperm := (blocksOf_split lay k u pre post).map Prod.fst
  rw [List.map_append] at hperm
  have hsplit := List.nodup_append.1 (hperm.nodup_iff.1 hnodup)
  refine hsplit.2.2 a ?_ a ha rfl
  obtain ⟨b, hb, rfl⟩ := List.mem_map.1 ha'
  rw [blocksOf_eq]
  exact List.mem_map.2 ⟨b, List.mem_flatMap.2 ⟨(k', v), hmem, hb⟩, rfl⟩

theorem nodup_of_find? (hnodup : ((blocksOf lay es).map Prod.fst).Nodup) (hk : OrdMap.find? k es = some u) :
    ((u.blocks lay).map Prod.fst).Nodup := by
  obtain ⟨pre, post, rfl, -⟩ := OrdMap.split_of_find? hk
  have hperm := (blocksOf_split lay k u pre post).map Prod.fst
  rw [List.map_append] at hperm
  exact (List.nodup_append.1 (hperm.nodup_iff.1 hnodup)).2.1

theorem nodup_get : ∀ {p : List K} {t : Estate A K C L}, ((t.blocks lay).map Prod.fst).Nodup → t.get p = some u →
    ((u.blocks lay).map Prod.fst).Nodup
  | [], t, hn, h => by cases h; exact hn
  | k :: p, t, hn, h => by
    obtain ⟨a, l, es, s, rfl, hf, hs⟩ := get_cons_eq_some h
    exact nodup_get (nodup_of_find? (List.nodup_cons.1 hn).2 hf) hs

/-- What is in a node is not the node. -/
theorem get_cons_ne_root {l' : L} {es' : List (K × Estate A K C L)}
    (hn : (((Estate.node a l es).blocks lay).map Prod.fst).Nodup) :
    (Estate.node a l es).get (k :: p) ≠ some (.node a l' es') := by
  intro h
  obtain ⟨_, _, _, s, heq, hf, hs⟩ := get_cons_eq_some h
  cases heq
  obtain ⟨b, hb, hab⟩ := List.mem_map.1 (addr_mem lay hs)
  refine (List.nodup_cons.1 hn).1 (List.mem_map.2 ⟨b, ?_, hab⟩)
  rw [blocksOf_eq]
  exact List.mem_flatMap.2 ⟨(k, s), OrdMap.mem_of_find? hf, hb⟩

/-- **A node is at one position.** -/
theorem node_inj : ∀ {p q : List K} {t : Estate A K C L} {l' : L} {es' : List (K × Estate A K C L)},
    ((t.blocks lay).map Prod.fst).Nodup → t.get p = some (.node a l es) → t.get q = some (.node a l' es') → p = q
  | [], [], _, _, _, _, _, _ => rfl
  | [], _ :: _, _, _, _, hn, hp, hq => by
    cases hp
    exact absurd hq (get_cons_ne_root hn)
  | _ :: _, [], _, _, _, hn, hp, hq => by
    cases hq
    exact absurd hp (get_cons_ne_root hn)
  | k :: p, k' :: q, t, _, _, hn, hp, hq => by
    obtain ⟨_, _, es, s, rfl, hf, hs⟩ := get_cons_eq_some hp
    obtain ⟨_, _, _, s', heq, hf', hs'⟩ := get_cons_eq_some hq
    cases heq
    have hes := (List.nodup_cons.1 hn).2
    by_cases hk : k = k'
    · subst hk
      rw [hf] at hf'
      cases hf'
      rw [node_inj (nodup_of_find? hes hf) hs hs']
    · exact absurd (addr_mem lay hs') (disjoint_of_find? hes hk hf hf' _ (addr_mem lay hs))

/-- **A place of the heap is that of one position.** -/
theorem place_inj (hn : ((t.blocks lay).map Prod.fst).Nodup) (hp : t.Place p a k) (hq : t.Place q a k) : p = q := by
  obtain ⟨ks, l, es, rfl, hks, -⟩ := hp
  obtain ⟨ks', l', es', rfl, hks', -⟩ := hq
  rw [node_inj hn hks hks']

/-- What owns a block. -/
def Owns (t : Estate A K C L) : Prop := ∀ c, t ≠ .leaf c

/-- Every place of `t` is one of `t'`, and every cell that owns a block still owns the same one. -/
structure Keeps (t t' : Estate A K C L) : Prop where
  place : ∀ p a k, t.Place p a k → t'.Place p a k
  cell : ∀ p u, t.get p = some u → u.Owns →
    ∃ u', t'.get p = some u' ∧ u'.Owns ∧ ∀ lay : Layout A C L, u'.cell lay = u.cell lay

theorem Keeps.refl (t : Estate A K C L) : Keeps t t :=
  ⟨fun _ _ _ h => h, fun _ u hu ho => ⟨u, hu, ho, fun _ => rfl⟩⟩

theorem Keeps.trans {t t' t'' : Estate A K C L} (h : Keeps t t') (h' : Keeps t' t'') : Keeps t t'' where
  place p a k hp := h'.place p a k (h.place p a k hp)
  cell p u hu ho := by
    obtain ⟨u', hu', ho', hc'⟩ := h.cell p u hu ho
    obtain ⟨u'', hu'', ho'', hc''⟩ := h'.cell p u' hu' ho'
    exact ⟨u'', hu'', ho'', fun lay => (hc'' lay).trans (hc' lay)⟩

theorem place_set_of_not_prefix (hv : t.get p = some v) (hq : t.Place q a k) (hpq : ¬ p <+: q.dropLast) :
    (t.set p u).Place q a k := by
  obtain ⟨ks, l, es, rfl, hks, hfind⟩ := hq
  rw [List.dropLast_concat] at hpq
  by_cases habove : ks <+: p
  · obtain ⟨r, rfl⟩ := habove
    cases r with
    | nil => exact absurd (by rw [List.append_nil]) hpq
    | cons k' r =>
      rw [get_append hks] at hv
      obtain ⟨a', l', es', s, heq, hf, hs⟩ := get_cons_eq_some hv
      cases heq
      refine ⟨ks, l, OrdMap.replace k' (s.set r u) es, rfl, ?_, OrdMap.find?_replace_ne_none hfind⟩
      rw [set_append hks, set_cons hf, get_set_self hks]
  · exact ⟨ks, l, es, rfl, by rw [get_set_apart hpq habove, hks], hfind⟩

/-- **A step below a position keeps every place** when it keeps those of what is there. -/
theorem keeps_set (hv : t.get p = some v) (hk : Keeps v u) : Keeps t (t.set p u) where
  place q a k hq := by
    by_cases hbelow : p <+: q.dropLast
    · obtain ⟨ks, l, es, rfl, hks, hfind⟩ := hq
      rw [List.dropLast_concat] at hbelow
      obtain ⟨r, rfl⟩ := hbelow
      rw [get_append hv] at hks
      obtain ⟨ks', l', es', heq, hks', hfind'⟩ := hk.place (r ++ [k]) a k ⟨r, l, es, rfl, hks, hfind⟩
      have hr : r = ks' := (List.append_inj' heq rfl).1
      subst hr
      exact ⟨p ++ r, l', es', by rw [List.append_assoc], by rw [get_append (get_set_self hv), hks'], hfind'⟩
    · exact place_set_of_not_prefix hv hq hbelow
  cell q w hw ho := by
    by_cases hbelow : p <+: q
    · obtain ⟨r, rfl⟩ := hbelow
      rw [get_append hv] at hw
      rw [get_append (get_set_self hv)]
      exact hk.cell r w hw ho
    · by_cases habove : q <+: p
      · obtain ⟨r, rfl⟩ := habove
        cases r with
        | nil => exact absurd (by rw [List.append_nil]) hbelow
        | cons k' r =>
          rw [get_append hw] at hv
          obtain ⟨a', l', es', s, rfl, hf, hs⟩ := get_cons_eq_some hv
          rw [set_append hw, set_cons hf, get_set_self hw]
          exact ⟨_, rfl, nofun, fun _ => rfl⟩
      · rw [get_set_apart hbelow habove]
        exact ⟨w, hw, ho, fun _ => rfl⟩

theorem place_set (hp : t.Place p a k) : (t.set p u).Place p a k := by
  obtain ⟨ks, l, es, rfl, hks, hfind⟩ := hp
  cases hf : OrdMap.find? k es with
  | none => exact absurd hf hfind
  | some v =>
    refine ⟨ks, l, OrdMap.replace k u es, rfl, ?_, OrdMap.find?_replace_ne_none hfind⟩
    rw [set_append hks, set_cons hf, get_set_self hks]
    rfl

theorem Place.get (hp : t.Place p a k) : ∃ u, t.get p = some u := by
  obtain ⟨ks, l, es, rfl, hks, hfind⟩ := hp
  cases hf : OrdMap.find? k es with
  | none => exact absurd hf hfind
  | some v => exact ⟨v, by rw [get_append hks, get_cons hf]; rfl⟩

end Estate

/-! ## Reading and writing the cell at a place -/

section Cells

variable {A K C L : Type} [DecidableEq K]

def cellAt (h : Heap (Block A K C L)) (a : Nat) (k : K) : Except Fault C := do
  let b ← h.read a
  match OrdMap.find? k b.entries with
  | some c => .ok c
  | none => .error .undefined

def setCell (h : Heap (Block A K C L)) (a : Nat) (k : K) (c : C) : Except Fault (Heap (Block A K C L)) := do
  let b ← h.read a
  match OrdMap.find? k b.entries with
  | some _ => h.write a (b.refill (OrdMap.replace k c b.entries))
  | none => .error .undefined

variable {lay : Layout A C L} {h : Heap (Block A K C L)} {t u v : Estate A K C L} {p : List K} {a : Nat} {k : K}
  {bs rest : List (Nat × Block A K C L)} {c : C}

theorem cellAt_of_none (hb : h.block a = none) (k : K) : cellAt h a k = .error .undefined := by
  rw [cellAt, Heap.read_of_none hb]
  rfl

open Estate

theorem cellAt_spec (hh : h.Holds bs) (hsub : t.blocks lay ⊆ bs) (hp : t.Place p a k) (hu : t.get p = some u) :
    cellAt h a k = .ok (u.cell lay) := by
  obtain ⟨ks, l, es, rfl, hks, hfind⟩ := hp
  rw [get_append hks] at hu
  obtain ⟨_, _, _, s, heq, hf, hs⟩ := get_cons_eq_some hu
  cases heq
  cases hs
  have hread : h.read a = .ok (Estate.block lay l es) := hh.read (hsub (blocks_get hks List.mem_cons_self))
  simp only [cellAt, hread, bind, Except.bind, find?_block lay l hf]

/-- **What is at a position can be told apart from the rest**: the cell there stays with the rest. -/
theorem blocks_own (lay : Layout A C L) (u : Estate A K C L) (hp : t.Place p a k) : ((t.set p u).blocks lay).Perm
    ((t.set p (.leaf (u.cell lay))).blocks lay ++ u.blocks lay) := by
  obtain ⟨ks, l, es, rfl, hks, hfind⟩ := hp
  cases hf : OrdMap.find? k es with
  | none => exact absurd hf hfind
  | some v =>
    obtain ⟨rest0, hrest0⟩ := blocks_set lay hks hf
    have hleaf := hrest0 (.leaf (u.cell lay))
    rw [blocks, List.append_nil] at hleaf
    exact (hrest0 u).trans (by rw [← List.cons_append]; exact hleaf.symm.append_right _)

theorem holds_own (hp : t.Place p a k) : h.Holds ((t.set p u).blocks lay ++ rest) ↔
    h.Holds ((t.set p (.leaf (u.cell lay))).blocks lay ++ (u.blocks lay ++ rest)) := by
  have hperm := (blocks_own lay u hp).append_right rest
  rw [List.append_assoc] at hperm
  exact ⟨fun hh => hh.perm hperm, fun hh => hh.perm hperm.symm⟩

/-- **Writing a cell** leaves what it owned without an owner. -/
theorem setCell_spec (hp : t.Place p a k) (hv : t.get p = some v) (hh : h.Holds (t.blocks lay ++ rest)) (c : C) :
    ∃ h', setCell h a k c = .ok h' ∧ h'.Holds ((t.set p (.leaf c)).blocks lay ++ (v.blocks lay ++ rest)) ∧
      h'.next = h.next ∧ ∀ x, h'.block x = none ↔ h.block x = none := by
  rw [← set_get hv, holds_own hp] at hh
  obtain ⟨ks, l, es, rfl, hks, hfind⟩ := hp
  cases hf : OrdMap.find? k es with
  | none => exact absurd hf hfind
  | some v' =>
    obtain ⟨rest0, hrest0⟩ := blocks_set lay hks hf
    have hleaf : ∀ c, ((t.set (ks ++ [k]) (.leaf c)).blocks lay).Perm
        ((a, .node l (OrdMap.replace k c (Estate.block lay l es).entries)) :: rest0) := fun c => by
      have hc := hrest0 (.leaf c)
      rwa [blocks, List.append_nil] at hc
    have hh' := hh.perm ((hleaf (v.cell lay)).append_right (v.blocks lay ++ rest))
    rw [List.cons_append] at hh'
    obtain ⟨h', hwrite, hholds, hnext, hnone⟩ :=
      hh'.write (.node l (OrdMap.replace k c (Estate.block lay l es).entries))
    refine ⟨h', ?_, hholds.perm ?_, hnext, hnone⟩
    · have hread := hh'.read List.mem_cons_self
      have hfound := OrdMap.find?_replace_self (w := v.cell lay) (find?_block lay l hf)
      rw [← OrdMap.replace_replace (v := v.cell lay)] at hwrite
      unfold setCell
      rw [hread]
      refine Eq.trans ?_ hwrite
      simp only [bind, Except.bind]
      rw [show (Block.node l (OrdMap.replace k (v.cell lay) (Estate.block lay l es).entries)).entries =
        OrdMap.replace k (v.cell lay) (Estate.block lay l es).entries from rfl, hfound]
      rfl
    · rw [← List.cons_append]
      exact (hleaf c).symm.append_right _

/-- **Deleting what is at a place** leaves a cell there that owns nothing any more. -/
theorem delete_at (hp : t.Place p a k) (hu : t.get p = some u) (hleaf : ∀ c ∈ u.leaves, lay.view c = .plain)
    (hh : h.Holds (t.blocks lay ++ rest)) :
    ∃ h', delete lay (h.next + 1) h (u.cell lay) = .ok h' ∧
      h'.Holds ((t.set p (.leaf (u.cell lay))).blocks lay ++ rest) ∧ h'.next = h.next ∧
      ∀ x ∈ (u.blocks lay).map Prod.fst, h'.block x = none := by
  rw [← set_get hu, holds_own hp] at hh
  have hperm : ((t.set p (.leaf (u.cell lay))).blocks lay ++ (u.blocks lay ++ rest)).Perm
      (u.blocks lay ++ ((t.set p (.leaf (u.cell lay))).blocks lay ++ rest)) := by
    rw [← List.append_assoc, ← List.append_assoc]
    exact List.perm_append_comm.append_right _
  have hh' := hh.perm hperm
  have hlen := hh'.length_le
  rw [List.length_append] at hlen
  obtain ⟨h', hdel, hholds, hnext⟩ := delete_spec u (h.next + 1) h _ hleaf (by omega) hh'
  refine ⟨h', hdel, hholds, hnext, fun x hx => hholds.block_none (fun hmem => ?_)⟩
  have hnodup := hh'.nodup
  rw [List.map_append] at hnodup
  exact (List.nodup_append.1 hnodup).2.2 x hx x hmem rfl

/-- **Rewriting the entries of a node**, which gives it the blocks that the new ones own. -/
theorem write_at {l : L} {es es' : List (K × Estate A K C L)} {b : Nat} (extra : List (Nat × Block A K C L))
    (hp : t.Place p a k) (hu : t.get p = some (.node b l es)) (hh : h.Holds (t.blocks lay ++ (extra ++ rest)))
    (hes : (blocksOf lay es').Perm (blocksOf lay es ++ extra)) :
    ∃ h', h.write b (Estate.block lay l es') = .ok h' ∧ h'.Holds ((t.set p (.node b l es')).blocks lay ++ rest) ∧
      h'.next = h.next ∧ ∀ x, h'.block x = none ↔ h.block x = none := by
  rw [← set_get hu, holds_own hp] at hh
  have hh' := hh.perm List.perm_append_comm
  rw [blocks, List.cons_append, List.cons_append] at hh'
  obtain ⟨h', hwrite, hholds, hnext, hnone⟩ := hh'.write (Estate.block lay l es')
  refine ⟨h', hwrite, (holds_own hp).2 (hholds.perm ?_), hnext, hnone⟩
  rw [blocks, List.cons_append]
  have hrest : (blocksOf lay es ++ (extra ++ rest)).Perm (blocksOf lay es' ++ rest) := by
    rw [← List.append_assoc]
    exact hes.symm.append_right _
  have hcons := (hrest.append_right ((t.set p (.leaf ((Estate.node b l es).cell lay))).blocks lay)).cons
    (b, Estate.block lay l es')
  refine hcons.trans ?_
  rw [← List.cons_append]
  exact List.perm_append_comm

theorem length_get_le (hu : t.get p = some u) (hh : h.Holds (t.blocks lay ++ rest)) :
    (u.blocks lay).length ≤ h.next := by
  have hnodup := hh.nodup
  rw [List.map_append] at hnodup
  have hsub : u.blocks lay ⊆ t.blocks lay ++ rest := fun _ hb => List.mem_append_left _ (blocks_get hu hb)
  have hsubperm := List.subperm_of_subset (nodup_get (List.nodup_append.1 hnodup).1 hu).of_map hsub
  exact Nat.le_trans hsubperm.length_le hh.length_le

/-- **Copying what is at a position.** -/
theorem copy_at (hu : t.get p = some u) (hleaf : ∀ c ∈ u.leaves, lay.view c = .plain)
    (hh : h.Holds (t.blocks lay ++ rest)) :
    ∃ (h' : Heap (Block A K C L)) (t' : Estate A K C L), copy lay (h.next + 1) h (u.cell lay) = .ok (h', t'.cell lay) ∧
      h'.Holds (t'.blocks lay ++ (t.blocks lay ++ rest)) ∧ t'.strip lay = u.strip lay ∧
      t'.leaves = u.leaves.map lay.dup :=
  copy_spec u (h.next + 1) h _ hleaf (Nat.lt_succ_of_le (length_get_le hu hh)) hh
    (fun _ hb => List.mem_append_left _ (blocks_get hu hb))

/-- **A copy of what has a spoiled cell in it** is undefined. -/
theorem copy_at_jams (hu : t.get p = some u) (hleaf : ∀ c ∈ u.leaves, lay.view c = .plain ∨ Spoiled lay h c)
    (hex : ∃ c ∈ u.leaves, Spoiled lay h c) (hh : h.Holds (t.blocks lay ++ rest)) :
    copy lay (h.next + 1) h (u.cell lay) = .error .undefined :=
  copy_jams u (h.next + 1) h _ hleaf hex (Nat.lt_succ_of_le (length_get_le hu hh)) hh
    (fun _ hb => List.mem_append_left _ (blocks_get hu hb))

end Cells

end Owned

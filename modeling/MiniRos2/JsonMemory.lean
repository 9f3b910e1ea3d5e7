import MiniRos2.JsonOwned
/-!
# JsonMemory — what the assignments do to the heap

In a `Good` memory the blocks that are alive are those of the tree of the variables, each owned by one cell, and those
that were `lost`.  An assignment first destroys what is at its left side, so that the cell there owns nothing
(`vacate`), and then fills it: with a copy of the right side where neither side is in the other (`fill_copy`).  When the
left side is in the right one, the copy meets the cell whose type was just changed (`fill_jams`); when the right side is
in the left one, it is gone (`Vacated.dead`).
-/
namespace MiniRos2
namespace JsonHeap

open Owned

variable {D : Type}

/-- The address in the union. -/
def Data.target : Data D → Option Nat
  | .str_val p => p
  | .arr_val p => p
  | .obj_val p => p
  | _ => none

/-- What the cell may still point to is no longer there. -/
def Retired (h : Memory D) (c : Cell D) : Prop := ∀ a, c.data_.target = some a → a < h.next ∧ h.block a = none

/-- **The blocks that are alive are those of the tree and what was lost**, and no cell that owns nothing points to one
of them. -/
structure Good (h : Memory D) (t : Held D) (lost : List (Nat × Block (List UInt8) Slot (Cell D) Kind)) : Prop where
  holds : h.Holds (t.blocks layout ++ lost)
  plain : ∀ c ∈ t.leaves, view c = .plain
  retired : ∀ c ∈ t.leaves, Retired h c
  formed : AllFormed t

variable {h h' : Memory D} {t u v : Held D} {lost lost' : List (Nat × Block (List UInt8) Slot (Cell D) Kind)}
  {p q : List Slot} {r r' : Ref} {c c' : Cell D}

theorem Retired.fades (hr : Retired h c) (hf : h.Fades h') : Retired h' c := fun a ha =>
  ⟨Nat.lt_of_lt_of_le (hr a ha).1 hf.next, hf.none a (hr a ha).1 (hr a ha).2⟩

theorem retired_of_target (hc : c.data_.target = none) (h : Memory D) : Retired h c := fun a ha => by
  rw [hc] at ha
  cases ha

/-- A memory in which a position was set. -/
theorem Good.set (hg : Good h t lost) (hv : t.get p = some v) (hf : h.Fades h')
    (hh : h'.Holds ((t.set p u).blocks layout ++ lost')) (hu : ∀ c ∈ u.leaves, view c = .plain ∧ Retired h' c)
    (hformed : AllFormed u) : Good h' (t.set p u) lost' where
  holds := hh
  plain c hc := (Estate.leaves_set hv hc).elim (fun h => (hu c h).1) (hg.plain c)
  retired c hc := (Estate.leaves_set hv hc).elim (fun h => (hu c h).2) (fun h => (hg.retired c h).fades hf)
  formed := hg.formed.set hv hformed

theorem getRef_spec (hh : h.Holds (t.blocks layout ++ lost)) (hp : t.Place p r.1 r.2) (hu : t.get p = some u) :
    getRef h r = .ok (u.cell layout) :=
  cellAt_spec hh (fun _ hb => List.mem_append_left _ hb) hp hu

/-! ## destroyData -/

/-- What was at `p` is gone, and the cell there is as it was. -/
structure Vacated (h : Memory D) (t u : Held D) (p : List Slot)
    (lost : List (Nat × Block (List UInt8) Slot (Cell D) Kind)) (h' : Memory D) : Prop where
  holds : h'.Holds ((t.set p (.leaf (u.cell layout))).blocks layout ++ lost)
  next : h'.next = h.next
  fades : h.Fades h'
  dead : ∀ a ∈ (u.blocks layout).map Prod.fst, h'.block a = none

theorem Vacated.retired (hv : Vacated h t u p lost h') (hu : ∀ c ∈ u.leaves, Retired h c)
    (hh : h.Holds (u.blocks layout ++ lost')) : Retired h' (u.cell layout) := by
  intro a ha
  cases u with
  | leaf c => exact (hu c List.mem_cons_self).fades hv.fades a ha
  | atom b x =>
    cases ha
    refine ⟨?_, hv.dead _ List.mem_cons_self⟩
    rw [hv.next]
    exact hh.lt List.mem_cons_self
  | node b l es =>
    have hb : a = b := by cases l <;> cases ha <;> rfl
    subst hb
    refine ⟨?_, hv.dead _ List.mem_cons_self⟩
    rw [hv.next]
    exact hh.lt List.mem_cons_self

theorem vacate (hg : Good h t lost) (hp : t.Place p r.1 r.2) (hu : t.get p = some u) :
    ∃ h', destroyData (h.next + 1) h (u.cell layout) = .ok h' ∧ Vacated h t u p lost h' ∧
      Retired h' (u.cell layout) := by
  have hleaf : ∀ c ∈ u.leaves, layout.view c = .plain := fun c hc => hg.plain c (Estate.leaves_get hu hc)
  obtain ⟨h', hdel, hholds, hnext, hdead⟩ := delete_at hp hu hleaf hg.holds
  have hv : Vacated h t u p lost h' := ⟨hholds, hnext, fades_delete _ _ _ _ hdel, hdead⟩
  refine ⟨h', (destroyData_eq _ _ _).trans hdel, hv, ?_⟩
  have hh := hg.holds
  rw [← Estate.set_get hu, holds_own hp] at hh
  have hperm : ((t.set p (.leaf (u.cell layout))).blocks layout ++ (u.blocks layout ++ lost)).Perm
      (u.blocks layout ++ ((t.set p (.leaf (u.cell layout))).blocks layout ++ lost)) := by
    rw [← List.append_assoc, ← List.append_assoc]
    exact List.perm_append_comm.append_right _
  exact hv.retired (fun c hc => hg.retired c (Estate.leaves_get hu hc)) (hh.perm hperm)

/-! ## Writing the cell that was vacated -/

theorem setRef_leaf (hh : h.Holds ((t.set p (.leaf c)).blocks layout ++ lost)) (hp : t.Place p r.1 r.2)
    (hu : t.get p = some u) (c' : Cell D) :
    ∃ h', setRef h r c' = .ok h' ∧ h'.Holds ((t.set p (.leaf c')).blocks layout ++ lost) ∧ h'.next = h.next ∧
      h.Fades h' := by
  obtain ⟨h', hset, hholds, hnext, hnone⟩ := setCell_spec (Estate.place_set hp) (Estate.get_set_self hu) hh c'
  rw [Estate.set_set hu] at hholds
  exact ⟨h', hset, hholds, hnext, .of_iff hnext hnone⟩

/-- What `copyData` made is owned by the cell it is written to. -/
theorem setRef_own (hh : h.Holds ((t.set p (.leaf c)).blocks layout ++ (v.blocks layout ++ lost)))
    (hp : t.Place p r.1 r.2) (hu : t.get p = some u) :
    ∃ h', setRef h r (v.cell layout) = .ok h' ∧ h'.Holds ((t.set p v).blocks layout ++ lost) ∧ h'.next = h.next ∧
      h.Fades h' := by
  obtain ⟨h', hset, hholds, hnext, hf⟩ := setRef_leaf hh hp hu (v.cell layout)
  exact ⟨h', hset, (holds_own hp).2 hholds, hnext, hf⟩

/-- The common beginning of the assignments, up to the type that is set. -/
theorem retype_eq {f : Memory D → Except Fault JsonType} (hc : getRef h r = .ok c)
    (hd : destroyData (h.next + 1) h c = .ok h') :
    retype h r f = (do
      let ty ← f h'
      .ok (← setRef h' r { c with type_ := ty }, { c with type_ := ty })) := by
  rw [retype, hc]
  simp only [bind, Except.bind, hd]

theorem retype_spec {f : Memory D → Except Fault JsonType} {ty : JsonType} (hg : Good h t lost)
    (hp : t.Place p r.1 r.2) (hu : t.get p = some u) (hf : ∀ h', Vacated h t u p lost h' → f h' = .ok ty) :
    ∃ h', retype h r f = .ok (h', ⟨ty, (u.cell layout).data_⟩) ∧
      h'.Holds ((t.set p (.leaf ⟨ty, (u.cell layout).data_⟩)).blocks layout ++ lost) ∧ h'.next = h.next ∧
      h.Fades h' ∧ Retired h' ⟨ty, (u.cell layout).data_⟩ ∧
      ∀ a ∈ (u.blocks layout).map Prod.fst, h'.block a = none := by
  obtain ⟨h1, hdel, hv, hret⟩ := vacate hg hp hu
  obtain ⟨h2, hset, hholds, hnext, hfades⟩ := setRef_leaf hv.holds hp hu ⟨ty, (u.cell layout).data_⟩
  refine ⟨h2, ?_, hholds, hnext.trans hv.next, hv.fades.trans hfades, ?_, fun a ha => ?_⟩
  · rw [retype_eq (getRef_spec hg.holds hp hu) hdel, hf h1 hv]
    simp only [bind, Except.bind, hset]
  · exact Retired.fades (c := ⟨ty, (u.cell layout).data_⟩) hret hfades
  · refine hfades.none a ?_ (hv.dead a ha)
    obtain ⟨b, hb, rfl⟩ := List.mem_map.1 ha
    rw [hv.next]
    exact hg.holds.lt (List.mem_map.2 ⟨b, List.mem_append_left _ (Estate.blocks_get hu hb), rfl⟩)

/-! ## Filling it with a copy -/

/-- A value that is a vector or a map cannot be copied into itself: the type is new, what the cell points to is gone. -/
theorem spoiled_of_retired (hr : Retired h c) (hc : c.type_ = .string ∨ c.type_ = .array ∨ c.type_ = .object) :
    Spoiled layout h c := by
  obtain ⟨ty, d⟩ := c
  rcases hc with hc | hc | hc <;> cases hc
  all_goals
    cases d with
    | str_val p =>
      cases p with
      | none => first | exact .inl rfl | exact .inr (.inl rfl)
      | some a => first | exact .inr (.inr ⟨a, rfl, hr a rfl⟩) | exact .inr (.inl rfl)
    | arr_val p =>
      cases p with
      | none => first | exact .inl rfl | exact .inr (.inl rfl)
      | some a => first | exact .inr (.inr ⟨a, rfl, hr a rfl⟩) | exact .inr (.inl rfl)
    | obj_val p =>
      cases p with
      | none => first | exact .inl rfl | exact .inr (.inl rfl)
      | some a => first | exact .inr (.inr ⟨a, rfl, hr a rfl⟩) | exact .inr (.inl rfl)
    | unset => exact .inr (.inl rfl)
    | bool_val b => exact .inr (.inl rfl)
    | int_val n => exact .inr (.inl rfl)
    | double_val d => exact .inr (.inl rfl)

/-- A copy of a clean value is clean. -/
theorem clean_dup (hv : ∀ x ∈ v.leaves, view x = .plain ∧ Retired h x) (hf : h.Fades h') {w : Held D}
    (hw : w.leaves = v.leaves.map dup) : ∀ x ∈ w.leaves, view x = .plain ∧ Retired h' x := by
  intro x hx
  rw [hw] at hx
  obtain ⟨y, hy, rfl⟩ := List.mem_map.1 hx
  refine ⟨layout.view_dup y (hv y hy).1, ?_⟩
  unfold dup
  split
  · exact retired_of_target rfl _
  · exact (hv y hy).2.fades hf

/-- **A copy is made**, in blocks of its own, and written to the cell that was vacated. -/
theorem fill_copy (hh : h.Holds ((t.set p (.leaf c)).blocks layout ++ lost)) (hp : t.Place p r.1 r.2)
    (hu : t.get p = some u) (hc : Retired h c) (hq : (t.set p (.leaf c)).get q = some v)
    (hty : c.type_ = (v.cell layout).type_) (hv : ∀ x ∈ v.leaves, view x = .plain ∧ Retired h x)
    (hformed : AllFormed v) :
    ∃ h' w, (copyData (h.next + 1) h c (v.cell layout) >>= fun x => setRef x.1 r x.2) = .ok h' ∧
      h'.Holds ((t.set p w).blocks layout ++ lost) ∧ h.Fades h' ∧ value w = value v ∧
      (∀ x ∈ w.leaves, view x = .plain ∧ Retired h' x) ∧ AllFormed w := by
  obtain ⟨h1, w, hcopy, hholds, hstrip, hleaves⟩ := copy_at hq (fun x hx => (hv x hx).1) hh
  have hfades1 := (grows_copy _ _ _ _ _ hcopy).fades
  have hval : value w = value v := value_of_strip hstrip
  have hw : AllFormed w := fun s hs => hformed s (by rwa [← Estate.shapes_strip layout, ← hstrip,
    Estate.shapes_strip])
  have hperm : (w.blocks layout ++ ((t.set p (.leaf c)).blocks layout ++ lost)).Perm
      ((t.set p (.leaf c)).blocks layout ++ (w.blocks layout ++ lost)) := List.perm_append_comm_assoc ..
  have hheld := hholds.perm hperm
  rw [copyData_eq _ _ _ _ hty, hcopy]
  by_cases hnull : c.type_ = .null
  · -- nothing is written to the union of a null
    have hvnull : value v = .null := by
      cases v with
      | leaf x =>
        have hx : x.type_ = .null := hty.symm.trans hnull
        rw [value, leafValue, hx]
      | atom a x => rw [hnull] at hty; cases hty
      | node a l es => rw [hnull] at hty; cases l <;> cases hty
    have hblocks : w.blocks layout = [] := by
      have hlen := length_blocks w
      rw [hval, hvnull] at hlen
      exact List.eq_nil_of_length_eq_zero hlen
    rw [hblocks] at hheld
    obtain ⟨h2, hset, hholds2, -, hfades2⟩ := setRef_leaf hheld hp hu c
    refine ⟨h2, .leaf c, ?_, hholds2, hfades1.trans hfades2, ?_, ?_, fun s hs => (by cases hs)⟩
    · rw [Except.map, received, if_pos hnull]
      exact hset
    · rw [hvnull, value, leafValue, hnull]
    · intro x hx
      rw [List.mem_singleton.1 hx]
      exact ⟨by rw [view, hnull], hc.fades (hfades1.trans hfades2)⟩
  · obtain ⟨h2, hset, hholds2, -, hfades2⟩ := setRef_own hheld hp hu
    refine ⟨h2, w, ?_, hholds2, hfades1.trans hfades2, hval, ?_, hw⟩
    · rw [Except.map, received, if_neg hnull]
      exact hset
    · exact clean_dup hv (hfades1.trans hfades2) hleaves

/-- **A copy of what the vacated cell is in** is undefined. -/
theorem fill_jams (hh : h.Holds ((t.set p (.leaf c)).blocks layout ++ lost)) (hc : Retired h c) {s : List Slot}
    (hs : s ≠ []) (hps : p = q ++ s) (hu : t.get p = some u) (hq : t.get q = some v)
    (hty : c.type_ = (v.cell layout).type_) (hv : ∀ x ∈ v.leaves, view x = .plain) :
    copyData (h.next + 1) h c (v.cell layout) = .error .undefined := by
  subst hps
  rw [Estate.get_append hq] at hu
  obtain ⟨k, s, rfl⟩ := List.exists_cons_of_ne_nil hs
  have hset : (t.set (q ++ k :: s) (.leaf c)).get q = some (v.set (k :: s) (.leaf c)) := by
    rw [Estate.set_append hq, Estate.get_set_self hq]
  have hspoiled : Spoiled layout h c := by
    refine spoiled_of_retired hc ?_
    obtain ⟨a, l, es, w, rfl, -, -⟩ := Estate.get_cons_eq_some hu
    rw [hty]
    cases l
    · exact .inr (.inl rfl)
    · exact .inr (.inr rfl)
  have hjam := copy_at_jams hset (fun x hx => ?_)
    ⟨c, Estate.leaves_get (Estate.get_set_self hu) List.mem_cons_self, hspoiled⟩ hh
  · rw [Estate.cell_set hu] at hjam
    rw [copyData_eq _ _ _ _ hty, hjam]
    rfl
  · rcases Estate.leaves_set hu hx with hx | hx
    · rw [List.mem_singleton.1 hx]
      exact .inr hspoiled
    · exact .inl (hv x hx)

/-- A reference into what was destroyed. -/
theorem getRef_dead {s : List Slot} (hs : s ≠ []) (hu : t.get p = some u) (hq : t.Place (p ++ s) r.1 r.2)
    (hd : ∀ a ∈ (u.blocks layout).map Prod.fst, h.block a = none) : getRef h r = .error .undefined := by
  obtain ⟨ks, l, es, heq, hks, -⟩ := hq
  obtain ⟨s', k, rfl⟩ : ∃ s' k, s = s' ++ [k] := ⟨s.dropLast, s.getLast hs, (List.dropLast_append_getLast hs).symm⟩
  rw [← List.append_assoc] at heq
  have hks' : ks = p ++ s' := ((List.append_inj' heq rfl).1).symm
  rw [hks', Estate.get_append hu] at hks
  exact cellAt_of_none (hd _ (Estate.addr_mem layout hks)) _

end JsonHeap
end MiniRos2

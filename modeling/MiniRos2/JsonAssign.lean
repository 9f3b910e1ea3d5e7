import MiniRos2.JsonMemory
/-!
# JsonAssign — the assignments between references

Each assignment of `json.h` between two places, neither of which is in the other, does to the value of the variables
what it says (`assignCopy_apart`, `assignMove_apart`, `assignBlock_apart`).  `this != &other` covers the same place
only: with one side in the other the copying ones reach a cell that is no longer there or no longer a value, and a
move to a place in the value that is moved leaves that value to nobody.
-/
namespace MiniRos2
namespace JsonHeap

open Owned

variable {D : Type} {h h' : Memory D} {t u v : Held D}
  {lost : List (Nat × Block (List UInt8) Slot (Cell D) Kind)} {p q s : List Slot} {r r' : Ref} {c : Cell D}

/-- Neither position is above the other, and they are not the same. -/
def Apart (p q : List Slot) : Prop := ¬ p <+: q ∧ ¬ q <+: p

instance (p q : List Slot) : Decidable (Apart p q) := inferInstanceAs (Decidable (_ ∧ _))

theorem not_prefix_dropLast (hpq : ¬ p <+: q) : ¬ p <+: q.dropLast := fun hp => hpq (hp.trans (List.dropLast_prefix q))

/-- A place that is not below `p` is there with the same cell when `p` was set. -/
theorem getRef_after (hh : h.Holds ((t.set p (.leaf c)).blocks layout ++ lost)) (hu : t.get p = some u)
    (hq : t.Place q r'.1 r'.2) (hv : t.get q = some v) (hpq : ¬ p <+: q) : getRef h r' = .ok (v.cell layout) := by
  have hplace := Estate.place_set_of_not_prefix (u := .leaf c) hu hq (not_prefix_dropLast hpq)
  by_cases hqp : q <+: p
  · obtain ⟨s, rfl⟩ := hqp
    rw [Estate.get_append hv] at hu
    cases s with
    | nil => exact absurd (by rw [List.append_nil]) hpq
    | cons k s =>
      have hset : (t.set (q ++ k :: s) (.leaf c)).get q = some (v.set (k :: s) (.leaf c)) := by
        rw [Estate.set_append hv, Estate.get_set_self hv]
      rw [getRef_spec hh hplace hset, Estate.cell_set hu]
  · exact getRef_spec hh hplace (by rw [Estate.get_set_apart hpq hqp, hv])

/-- The type that is taken over from a place that is not below the left side. -/
theorem typeOf_after {h1 : Memory D} (hv1 : Vacated h t u p lost h1) (hu : t.get p = some u)
    (hq : t.Place q r'.1 r'.2) (hv : t.get q = some v) (hpq : ¬ p <+: q) :
    (do .ok (← getRef h1 r').type_ : Except Fault JsonType) = .ok (v.cell layout).type_ := by
  rw [getRef_after hv1.holds hu hq hv hpq]
  rfl

theorem ref_ne (hg : Good h t lost) (hp : t.Place p r.1 r.2) (hq : t.Place q r'.1 r'.2) (hne : p ≠ q) : r ≠ r' := by
  intro heq
  subst heq
  have hnodup := hg.holds.nodup
  rw [List.map_append] at hnodup
  exact hne (Estate.place_inj (List.nodup_append.1 hnodup).1 hp hq)

theorem ref_eq (hp : t.Place p r.1 r.2) (hq : t.Place p r'.1 r'.2) : r = r' := by
  obtain ⟨ks, l, es, heq, hks, -⟩ := hp
  obtain ⟨ks', l', es', heq', hks', -⟩ := hq
  have hlast := List.append_inj' (heq.symm.trans heq') rfl
  rw [hlast.1, hks', Option.some.injEq, Estate.node.injEq] at hks
  exact Prod.ext hks.1.symm (List.cons.inj hlast.2).1

theorem ne_of_apart (h : Apart p q) : p ≠ q := fun heq => h.1 (heq ▸ List.prefix_rfl)

theorem append_ne (hs : s ≠ []) : p ++ s ≠ p := fun heq => hs (List.append_right_eq_self.1 heq)

theorem not_prefix_append (hs : s ≠ []) : ¬ q ++ s <+: q := by
  intro hpre
  have hlen := hpre.length_le
  rw [List.length_append] at hlen
  exact hs (List.length_eq_zero_iff.1 (by omega))

/-! ## operator=(const JsonValue&) -/

theorem assignCopy_apart (hg : Good h t lost) (hp : t.Place p r.1 r.2) (hu : t.get p = some u)
    (hq : t.Place q r'.1 r'.2) (hv : t.get q = some v) (hpq : Apart p q) :
    ∃ h' w, assignCopy h r r' = .ok h' ∧ Good h' (t.set p w) lost ∧ value w = value v := by
  obtain ⟨h1, hretype, hholds, -, hfades, hret, -⟩ := retype_spec
    (f := fun h => do .ok (← getRef h r').type_) hg hp hu (fun h1 hv1 => typeOf_after hv1 hu hq hv hpq.1)
  have hget : (t.set p (.leaf ⟨(v.cell layout).type_, (u.cell layout).data_⟩)).get q = some v := by
    rw [Estate.get_set_apart hpq.1 hpq.2, hv]
  obtain ⟨h2, w, hfill, hholds2, hfades2, hval, hclean, hformed⟩ := fill_copy hholds hp hu hret hget rfl
    (fun x hx => ⟨hg.plain x (Estate.leaves_get hv hx), (hg.retired x (Estate.leaves_get hv hx)).fades hfades⟩)
    (hg.formed.get hv)
  refine ⟨h2, w, ?_, hg.set hu (hfades.trans hfades2) hholds2 hclean hformed, hval⟩
  rw [assignCopy, if_neg (ref_ne hg hp hq (ne_of_apart hpq)), hretype]
  simp only [bind, Except.bind, getRef_after hholds hu hq hv hpq.1]
  exact hfill

/-- `v = v["a"]`: what is assigned is destroyed first. -/
theorem assignCopy_inside (hg : Good h t lost) (hp : t.Place p r.1 r.2) (hu : t.get p = some u)
    (hq : t.Place (p ++ s) r'.1 r'.2) (hs : s ≠ []) : assignCopy h r r' = .error .undefined := by
  obtain ⟨h1, hdel, hv1, -⟩ := vacate hg hp hu
  rw [assignCopy, if_neg (ref_ne hg hp hq (fun heq => append_ne hs heq.symm)),
    retype_eq (getRef_spec hg.holds hp hu) hdel, getRef_dead hs hu hq hv1.dead]
  rfl

/-- `v["a"] = v`: the copy of `v` meets its member, which has the type of an object already. -/
theorem assignCopy_outside (hg : Good h t lost) (hp : t.Place (q ++ s) r.1 r.2) (hu : t.get (q ++ s) = some u)
    (hq : t.Place q r'.1 r'.2) (hv : t.get q = some v) (hs : s ≠ []) : assignCopy h r r' = .error .undefined := by
  have hpq := not_prefix_append (q := q) hs
  obtain ⟨h1, hretype, hholds, -, hfades, hret, -⟩ := retype_spec
    (f := fun h => do .ok (← getRef h r').type_) hg hp hu (fun h1 hv1 => typeOf_after hv1 hu hq hv hpq)
  have hjam := fill_jams hholds hret hs rfl hu hv rfl (fun x hx => hg.plain x (Estate.leaves_get hv hx))
  rw [assignCopy, if_neg (ref_ne hg hp hq (append_ne hs)), hretype]
  simp only [bind, Except.bind, getRef_after hholds hu hq hv hpq, hjam]

/-! ## The assignments of a string, an array and an object -/

/-- What `asString`, `asArray` and `asObject` refer to. -/
def Owner (v : Held D) : Prop :=
  (v.cell layout).type_ = .string ∨ (v.cell layout).type_ = .array ∨ (v.cell layout).type_ = .object

theorem assignBlock_apart (hg : Good h t lost) (hp : t.Place p r.1 r.2) (hu : t.get p = some u)
    (hv : t.get q = some v) (hpq : Apart p q) :
    ∃ h' w, assignBlock h r (v.cell layout).type_ (v.cell layout).data_ = .ok h' ∧ Good h' (t.set p w) lost ∧
      value w = value v := by
  obtain ⟨h1, hretype, hholds, -, hfades, hret, -⟩ := retype_spec
    (f := fun _ => .ok (v.cell layout).type_) hg hp hu (fun _ _ => rfl)
  have hget : (t.set p (.leaf ⟨(v.cell layout).type_, (u.cell layout).data_⟩)).get q = some v := by
    rw [Estate.get_set_apart hpq.1 hpq.2, hv]
  obtain ⟨h2, w, hfill, hholds2, hfades2, hval, hclean, hformed⟩ := fill_copy hholds hp hu hret hget rfl
    (fun x hx => ⟨hg.plain x (Estate.leaves_get hv hx), (hg.retired x (Estate.leaves_get hv hx)).fades hfades⟩)
    (hg.formed.get hv)
  refine ⟨h2, w, ?_, hg.set hu (hfades.trans hfades2) hholds2 hclean hformed, hval⟩
  rw [assignBlock, hretype]
  exact hfill

/-- A string, an array and an object own the block they point to. -/
theorem owner_addr (hv : Owner v) (hplain : ∀ x ∈ v.leaves, view x = .plain) :
    ∀ a, (v.cell layout).data_.target = some a → a ∈ (v.blocks layout).map Prod.fst := by
  intro a ha
  cases v with
  | leaf x =>
    have hx := hplain x List.mem_cons_self
    obtain ⟨ty, d⟩ := x
    rcases hv with hv | hv | hv <;> cases hv <;> cases d <;> cases ha <;> cases hx
  | atom b x =>
    cases ha
    exact List.mem_cons_self
  | node b l es => cases l <;> cases ha <;> exact List.mem_cons_self

/-- `v = v.asString()` and `v = v["a"].asArray()`: what is assigned is destroyed first. -/
theorem assignBlock_inside (hg : Good h t lost) (hp : t.Place p r.1 r.2) (hu : t.get p = some u)
    (hv : t.get (p ++ s) = some v) (ho : Owner v) :
    assignBlock h r (v.cell layout).type_ (v.cell layout).data_ = .error .undefined := by
  obtain ⟨h1, hretype, hholds, hnext, hfades, hret, hdead⟩ := retype_spec
    (f := fun _ => .ok (v.cell layout).type_) hg hp hu (fun _ _ => rfl)
  have hvu : u.get s = some v := by rwa [Estate.get_append hu] at hv
  have hretired : Retired h1 (v.cell layout) := by
    intro a ha
    have hmem := owner_addr ho (fun x hx => hg.plain x (Estate.leaves_get hv hx)) a ha
    obtain ⟨b, hb, rfl⟩ := List.mem_map.1 hmem
    refine ⟨?_, hdead _ (List.mem_map.2 ⟨b, Estate.blocks_get hvu hb, rfl⟩)⟩
    rw [hnext]
    exact hg.holds.lt (List.mem_map.2 ⟨b, List.mem_append_left _ (Estate.blocks_get hv hb), rfl⟩)
  have hcopy := (spoiled_of_retired hretired ho).copy h1.next
  have hdata := copyData_eq (h1.next + 1) h1 ⟨(v.cell layout).type_, (u.cell layout).data_⟩ (v.cell layout) rfl
  rw [hcopy] at hdata
  rw [assignBlock, hretype]
  simp only [bind, Except.bind]
  rw [show copyData (h1.next + 1) h1 ⟨(v.cell layout).type_, (u.cell layout).data_⟩
    ⟨(v.cell layout).type_, (v.cell layout).data_⟩ = .error .undefined from hdata]

/-- `v["a"] = v.asObject()`. -/
theorem assignBlock_outside (hg : Good h t lost) (hp : t.Place (q ++ s) r.1 r.2) (hu : t.get (q ++ s) = some u)
    (hv : t.get q = some v) (hs : s ≠ []) :
    assignBlock h r (v.cell layout).type_ (v.cell layout).data_ = .error .undefined := by
  obtain ⟨h1, hretype, hholds, -, hfades, hret, -⟩ := retype_spec
    (f := fun _ => .ok (v.cell layout).type_) hg hp hu (fun _ _ => rfl)
  have hjam := fill_jams hholds hret hs rfl hu hv rfl (fun x hx => hg.plain x (Estate.leaves_get hv hx))
  rw [assignBlock, hretype]
  simp only [bind, Except.bind]
  rw [show copyData (h1.next + 1) h1 ⟨(v.cell layout).type_, (u.cell layout).data_⟩
    ⟨(v.cell layout).type_, (v.cell layout).data_⟩ = .error .undefined from hjam]

/-! ## operator=(JsonValue&&) -/

/-- The union of what was moved from owns nothing. -/
theorem transfer_cell (hplain : ∀ x ∈ v.leaves, view x = .plain ∧ Retired h x) :
    ∃ d', transfer (v.cell layout).type_ (v.cell layout).data_ = .ok ((v.cell layout).data_, d') ∧
      Retired h ⟨.null, d'⟩ := by
  cases v with
  | leaf x =>
    obtain ⟨hx, hr⟩ := hplain x List.mem_cons_self
    obtain ⟨ty, d⟩ := x
    refine ⟨d, ?_, hr⟩
    cases ty <;> first | rfl | (cases d with
      | str_val p => cases p <;> cases hx
      | arr_val p => cases p <;> cases hx
      | obj_val p => cases p <;> cases hx
      | unset => cases hx
      | bool_val b => cases hx
      | int_val n => cases hx
      | double_val d => cases hx)
  | atom b x => exact ⟨.str_val none, rfl, retired_of_target rfl _⟩
  | node b l es =>
    cases l
    · exact ⟨.arr_val none, rfl, retired_of_target rfl _⟩
    · exact ⟨.obj_val none, rfl, retired_of_target rfl _⟩

/-- The steps of a move, up to the two cells it ends with. -/
theorem assignMove_steps (hg : Good h t lost) (hp : t.Place p r.1 r.2) (hu : t.get p = some u)
    (hq : t.Place q r'.1 r'.2) (hv : t.get q = some v) (hpq : ¬ p <+: q) :
    ∃ h2 d', h.Fades h2 ∧ h2.Holds ((t.set p (.leaf (v.cell layout))).blocks layout ++ lost) ∧
      Retired h2 ⟨.null, d'⟩ ∧ assignMove h r r' = setRef h2 r' ⟨.null, d'⟩ := by
  obtain ⟨h1, hretype, hholds, -, hfades, -, -⟩ := retype_spec
    (f := fun h => do .ok (← getRef h r').type_) hg hp hu (fun h1 hv1 => typeOf_after hv1 hu hq hv hpq)
  obtain ⟨d', htransfer, hret⟩ := transfer_cell (h := h) (v := v)
    (fun x hx => ⟨hg.plain x (Estate.leaves_get hv hx), hg.retired x (Estate.leaves_get hv hx)⟩)
  obtain ⟨h2, hset, hholds2, -, hfades2⟩ := setRef_leaf hholds hp hu (v.cell layout)
  refine ⟨h2, d', hfades.trans hfades2, hholds2, hret.fades (hfades.trans hfades2), ?_⟩
  have hne : r ≠ r' := ref_ne hg hp hq (fun heq => hpq (heq ▸ List.prefix_rfl))
  rw [assignMove, if_neg hne, hretype]
  simp only [bind, Except.bind, getRef_after hholds hu hq hv hpq, htransfer]
  rw [show setRef h1 r ⟨(v.cell layout).type_, (v.cell layout).data_⟩ = .ok h2 from hset]

theorem assignMove_apart (hg : Good h t lost) (hp : t.Place p r.1 r.2) (hu : t.get p = some u)
    (hq : t.Place q r'.1 r'.2) (hv : t.get q = some v) (hpq : Apart p q) :
    ∃ h' c, assignMove h r r' = .ok h' ∧ Good h' ((t.set q (.leaf c)).set p v) lost ∧ c.type_ = .null := by
  obtain ⟨h2, d', hfades, hholds, hret, hmove⟩ := assignMove_steps hg hp hu hq hv hpq.1
  have hget : (t.set p (.leaf (v.cell layout))).get q = some v := by rw [Estate.get_set_apart hpq.1 hpq.2, hv]
  have hplace := Estate.place_set_of_not_prefix (u := .leaf (v.cell layout)) hu hq (not_prefix_dropLast hpq.1)
  obtain ⟨h3, hset, hholds3, hnext3, hnone3⟩ := setCell_spec hplace hget hholds (⟨.null, d'⟩ : Cell D)
  have hfades3 : h2.Fades h3 := .of_iff hnext3 hnone3
  refine ⟨h3, ⟨.null, d'⟩, hmove.trans hset, ?_, rfl⟩
  -- what `q` owned belongs to `p`
  have hp' : (t.set q (.leaf ⟨.null, d'⟩)).Place p r.1 r.2 :=
    Estate.place_set_of_not_prefix hv hp (not_prefix_dropLast hpq.2)
  rw [Estate.set_comm hpq.1 hpq.2] at hholds3
  have hheld := (holds_own hp').2 hholds3
  have hu' : (t.set q (.leaf ⟨.null, d'⟩)).get p = some u := by rw [Estate.get_set_apart hpq.2 hpq.1, hu]
  have hall : h.Fades h3 := hfades.trans hfades3
  exact {
    holds := hheld
    plain := fun x hx => by
      rcases Estate.leaves_set hu' hx with hx | hx
      · exact hg.plain x (Estate.leaves_get hv hx)
      · rcases Estate.leaves_set hv hx with hx | hx
        · rw [List.mem_singleton.1 hx]
          rfl
        · exact hg.plain x hx
    retired := fun x hx => by
      rcases Estate.leaves_set hu' hx with hx | hx
      · exact (hg.retired x (Estate.leaves_get hv hx)).fades hall
      · rcases Estate.leaves_set hv hx with hx | hx
        · rw [List.mem_singleton.1 hx]
          exact hret.fades hfades3
        · exact (hg.retired x hx).fades hall
    formed := (hg.formed.set hv (fun s hs => by cases hs)).set hu' (hg.formed.get hv) }

/-- `v = std::move(v["a"])`: what is moved is destroyed first. -/
theorem assignMove_inside (hg : Good h t lost) (hp : t.Place p r.1 r.2) (hu : t.get p = some u)
    (hq : t.Place (p ++ s) r'.1 r'.2) (hs : s ≠ []) : assignMove h r r' = .error .undefined := by
  obtain ⟨h1, hdel, hv1, -⟩ := vacate hg hp hu
  rw [assignMove, if_neg (ref_ne hg hp hq (fun heq => append_ne hs heq.symm)),
    retype_eq (getRef_spec hg.holds hp hu) hdel, getRef_dead hs hu hq hv1.dead]
  rfl

/-- **`v["a"] = std::move(v)`** leaves `v` a null, and what it owned to nobody. -/
theorem assignMove_outside (hg : Good h t lost) (hp : t.Place (q ++ s) r.1 r.2) (hu : t.get (q ++ s) = some u)
    (hq : t.Place q r'.1 r'.2) (hv : t.get q = some v) (hs : s ≠ []) :
    ∃ h' c, assignMove h r r' = .ok h' ∧ c.type_ = .null ∧
      Good h' (t.set q (.leaf c)) ((v.set s (.leaf (v.cell layout))).blocks layout ++ lost) := by
  have hpq := not_prefix_append (q := q) hs
  obtain ⟨h2, d', hfades, hholds, hret, hmove⟩ := assignMove_steps hg hp hu hq hv hpq
  have hset : t.set (q ++ s) (.leaf (v.cell layout)) = t.set q (v.set s (.leaf (v.cell layout))) := Estate.set_append hv
  have hget : (t.set (q ++ s) (.leaf (v.cell layout))).get q = some (v.set s (.leaf (v.cell layout))) := by
    rw [hset, Estate.get_set_self hv]
  have hplace := Estate.place_set_of_not_prefix (u := .leaf (v.cell layout)) hu hq (not_prefix_dropLast hpq)
  obtain ⟨h3, hset3, hholds3, hnext3, hnone3⟩ := setCell_spec hplace hget hholds (⟨.null, d'⟩ : Cell D)
  have hfades3 : h2.Fades h3 := .of_iff hnext3 hnone3
  rw [hset, Estate.set_set hv] at hholds3
  refine ⟨h3, ⟨.null, d'⟩, hmove.trans hset3, rfl, hg.set hv (hfades.trans hfades3) hholds3 (fun x hx => ?_)
    (fun s hs => by cases hs)⟩
  rw [List.mem_singleton.1 hx]
  exact ⟨rfl, hret.fades hfades3⟩

end JsonHeap
end MiniRos2

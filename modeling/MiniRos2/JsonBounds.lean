import MiniRos2.JsonScan
import MiniRos2.JsonComplete
/-!
# JsonBounds — the parser advances, ends and reads inside its text

Every run of the parser from an index inside the text reads only inside the text, the NUL behind it included, and
throws or moves the index on (`Moves`).  The loops over bytes never use up their turns, as each one moves the index; a
bound on the depth of three for every byte left is enough for the functions that call one another.
-/
namespace MiniRos2
namespace Indexed

open Traced (Prog Spec)

/-- The run did not end for want of turns and did nothing undefined. -/
def Throws (a : Abort) : Prop := ∃ e, a = .throws e

section Text

variable {json : List UInt8} {α : Type} {i : Nat}

abbrev Bounded (json : List UInt8) (x : Scan α) (i : Nat) (Q : α → Nat → Prop) : Prop :=
  Spec (fun a : Access => a.pos ≤ json.length) Throws x i Q

theorem cur_spec (hi : i ≤ json.length) : Bounded json (cur json) i (fun b j => b = json.getD i 0 ∧ i = j) :=
  Spec.touch hi ⟨rfl, rfl⟩

theorem index_spec : Bounded json index i (fun k j => i = k ∧ i = j) := Spec.state ⟨rfl, rfl⟩

theorem advance_spec (n : Nat) : Bounded json (advance n) i (fun _ j => j = i + n) := Spec.setState rfl

theorem liftE_spec {x : Except Abort α} {Q : α → Nat → Prop} (herror : OnlyThrows x)
    (hok : ∀ a, x = .ok a → Q a i) : Bounded json (liftE x) i Q := by
  cases x with
  | ok a => exact Spec.pure (hok a rfl)
  | error e =>
    obtain ⟨e', he, -⟩ := herror e rfl
    exact Spec.fail ⟨e', he⟩

/-- An exception needs nothing. -/
theorem throw_spec {e : Abort} (he : Throws e) (Q : α → Nat → Prop) : Bounded json (liftE (.error e)) i Q :=
  Spec.fail he

theorem syntaxError_spec (what : String) (Q : α → Nat → Prop) : Bounded json (syntaxError what) i Q :=
  Spec.bind index_spec fun _ _ _ => Spec.fail ⟨_, rfl⟩

theorem atEnd_spec : Bounded json (atEnd json) i (fun b j => i = j ∧ (b = true ↔ json.length ≤ i)) :=
  Spec.bind index_spec fun _ _ h => by
    obtain ⟨rfl, rfl⟩ := h
    exact Spec.pure ⟨rfl, decide_eq_true_iff⟩

theorem sees_spec (p : UInt8 → Bool) :
    Bounded json (sees json p) i (fun b j => i = j ∧ (b = true ↔ i < json.length ∧ p (json.getD i 0) = true)) := by
  refine Spec.bind atEnd_spec fun b _ h => ?_
  obtain ⟨rfl, hend⟩ := h
  refine Spec.ite (fun hb => ?_) fun hb => ?_
  · exact Spec.pure ⟨rfl, by simp [hend.1 hb]⟩
  · have hlt : i < json.length := by
      rw [hend] at hb
      omega
    refine Spec.bind (cur_spec hlt.le) fun b _ h => ?_
    obtain ⟨rfl, rfl⟩ := h
    exact Spec.pure ⟨rfl, by simp [hlt]⟩

/-- **A loop over bytes** stops inside the text before its turns are used up. -/
theorem skipWhileLoop_spec (p : UInt8 → Bool) : ∀ (n i : Nat), i ≤ json.length → json.length - i < n →
    Bounded json (skipWhileLoop json p n) i (fun _ j => i ≤ j ∧ j ≤ json.length ∧
      (i < json.length ∧ p (json.getD i 0) = true → i < j))
  | 0, _, _, hn => absurd hn (Nat.not_lt_zero _)
  | n + 1, i, hi, hn => by
    refine Spec.bind (sees_spec p) fun b _ h => ?_
    obtain ⟨rfl, hb⟩ := h
    refine Spec.ite (fun ht => ?_) fun hf => ?_
    · have hlt := (hb.1 ht).1
      refine Spec.bind (advance_spec 1) fun _ _ h => ?_
      subst h
      exact (skipWhileLoop_spec p n (i + 1) hlt (by omega)).mono fun _ k hk => ⟨by omega, hk.2.1, fun _ => by omega⟩
    · exact Spec.pure ⟨Nat.le_refl i, hi, fun h => absurd (hb.2 h) hf⟩

theorem skipWhitespace_spec (hi : i ≤ json.length) :
    Bounded json (skipWhitespace json) i (fun _ j => i ≤ j ∧ j ≤ json.length) :=
  (skipWhileLoop_spec isSpace _ i hi (by omega)).mono fun _ _ h => ⟨h.1, h.2.1⟩

theorem skipDigits_spec (hi : i ≤ json.length) :
    Bounded json (skipDigits json) i (fun _ j => i ≤ j ∧ j ≤ json.length ∧
      (i < json.length ∧ Decimal.isDigit (json.getD i 0) = true → i < j)) :=
  skipWhileLoop_spec Decimal.isDigit _ i hi (by omega)

/-- The index has moved on inside the text. -/
def Moves (json : List UInt8) (i : Nat) (_ : α) (j : Nat) : Prop := i < j ∧ j ≤ json.length

/-- Behind the text there is only the NUL. -/
theorem lt_length_of_ne_zero (h : json.getD i 0 ≠ 0) : i < json.length := by
  rcases Nat.lt_or_ge i json.length with hlt | hge
  · exact hlt
  · exact absurd (List.getD_eq_default _ _ hge) h

/-! ## Strings -/

/-- The loop may end in front of the closing quote or where the text ends, also behind a backslash. -/
theorem parseStringLoop_spec : ∀ (n i : Nat) (result : List UInt8), i ≤ json.length → json.length - i < n →
    Bounded json (parseStringLoop json n result) i (fun _ j => i ≤ j ∧ j ≤ json.length)
  | 0, _, _, _, hn => absurd hn (Nat.not_lt_zero _)
  | n + 1, i, result, hi, hn => by
    refine Spec.bind (sees_spec _) fun b _ h => ?_
    obtain ⟨rfl, hb⟩ := h
    refine Spec.ite (fun ht => ?_) fun _ => Spec.pure ⟨Nat.le_refl i, hi⟩
    have hlt := (hb.1 ht).1
    refine Spec.bind (cur_spec hi) fun b _ h => ?_
    obtain ⟨rfl, rfl⟩ := h
    refine Spec.ite (fun _ => ?_) fun _ => ?_
    · refine Spec.bind (advance_spec 1) fun _ _ h => ?_
      subst h
      refine Spec.bind (cur_spec hlt) fun b _ h => ?_
      obtain ⟨rfl, rfl⟩ := h
      cases he : unescape (json.getD (i + 1) 0) with
      | some r =>
        have hne : json.getD (i + 1) 0 ≠ 0 := by
          intro h0
          rw [h0] at he
          cases he
        have hlt' : i + 1 < json.length := lt_length_of_ne_zero hne
        refine Spec.bind (advance_spec 1) fun _ _ h => ?_
        subst h
        exact (parseStringLoop_spec n _ _ hlt' (by omega)).mono fun _ k hk => ⟨by omega, hk.2⟩
      | none =>
        refine Spec.bind (cur_spec hlt) fun b _ h => ?_
        obtain ⟨rfl, rfl⟩ := h
        exact Spec.bind index_spec fun _ _ _ => throw_spec ⟨_, rfl⟩ _
    · refine Spec.bind (cur_spec hi) fun b _ h => ?_
      obtain ⟨rfl, rfl⟩ := h
      refine Spec.bind (advance_spec 1) fun _ _ h => ?_
      subst h
      exact (parseStringLoop_spec n _ _ hlt (by omega)).mono fun _ k hk => ⟨by omega, hk.2⟩

theorem parseString_spec : Bounded json (parseString json) i (Moves json i) := by
  refine Spec.bind (sees_spec _) fun b _ h => ?_
  obtain ⟨rfl, hb⟩ := h
  refine Spec.ite (fun ht => ?_) fun _ => syntaxError_spec _ _
  have hlt := (hb.1 ht).1
  refine Spec.bind (advance_spec 1) fun _ _ h => ?_
  subst h
  refine Spec.bind (parseStringLoop_spec _ _ _ hlt (by omega)) fun result j hj => ?_
  refine Spec.bind (sees_spec _) fun b _ h => ?_
  obtain ⟨rfl, hb⟩ := h
  refine Spec.ite (fun ht => ?_) fun _ => syntaxError_spec _ _
  refine Spec.bind (advance_spec 1) fun _ _ h => ?_
  subst h
  exact Spec.pure ⟨by omega, (hb.1 ht).1⟩

/-! ## Numbers -/

/-- A minus sign must have a digit behind it. -/
theorem parseSign_spec (hi : i ≤ json.length) : Bounded json (parseSign json) i
    (fun _ j => i ≤ j ∧ j ≤ json.length ∧
      (json.getD i 0 = chMinus → j < json.length ∧ Decimal.isDigit (json.getD j 0) = true) ∧
      (json.getD i 0 ≠ chMinus → j = i)) := by
  refine Spec.bind (cur_spec hi) fun b _ h => ?_
  obtain ⟨rfl, rfl⟩ := h
  refine Spec.ite (fun hm => ?_) fun hm => Spec.pure ⟨Nat.le_refl i, hi, fun h => absurd h hm, fun _ => rfl⟩
  have hlt : i < json.length := lt_length_of_ne_zero (by rw [hm]; decide)
  refine Spec.bind (advance_spec 1) fun _ _ h => ?_
  subst h
  refine Spec.bind (sees_spec _) fun b _ h => ?_
  obtain ⟨rfl, hb⟩ := h
  refine Spec.ite (fun ht => ?_) fun _ => syntaxError_spec _ _
  exact Spec.pure ⟨by omega, by omega, fun _ => hb.1 ht, fun hne => absurd hm hne⟩

theorem parseFraction_spec (hi : i ≤ json.length) :
    Bounded json (parseFraction json) i (fun _ j => i ≤ j ∧ j ≤ json.length) := by
  refine Spec.bind (sees_spec _) fun b _ h => ?_
  obtain ⟨rfl, hb⟩ := h
  refine Spec.ite (fun ht => ?_) fun _ => Spec.pure ⟨Nat.le_refl i, hi⟩
  have hlt := (hb.1 ht).1
  refine Spec.bind (advance_spec 1) fun _ _ h => ?_
  subst h
  refine Spec.bind (sees_spec _) fun b _ h => ?_
  obtain ⟨rfl, -⟩ := h
  refine Spec.ite (fun _ => ?_) fun _ => syntaxError_spec _ _
  refine Spec.bind (skipDigits_spec hlt) fun _ j hj => ?_
  exact Spec.pure ⟨by omega, hj.2.1⟩

theorem parseExponent_spec (hi : i ≤ json.length) :
    Bounded json (parseExponent json) i (fun _ j => i ≤ j ∧ j ≤ json.length) := by
  refine Spec.bind (sees_spec _) fun b _ h => ?_
  obtain ⟨rfl, hb⟩ := h
  refine Spec.ite (fun ht => ?_) fun _ => Spec.pure ⟨Nat.le_refl i, hi⟩
  have hlt := (hb.1 ht).1
  -- with or without a sign, the digits start behind the `e`
  have hdigits : ∀ k, i ≤ k → k ≤ json.length → Bounded json (do
      if ← sees json Decimal.isDigit then
        skipDigits json
        return true
      else syntaxError "invalid exponent") k (fun _ j => i ≤ j ∧ j ≤ json.length) := by
    intro k hik hk
    refine Spec.bind (sees_spec _) fun b _ h => ?_
    obtain ⟨rfl, -⟩ := h
    refine Spec.ite (fun _ => ?_) fun _ => syntaxError_spec _ _
    refine Spec.bind (skipDigits_spec hk) fun _ j hj => ?_
    exact Spec.pure ⟨by omega, hj.2.1⟩
  refine Spec.bind (advance_spec 1) fun _ _ h => ?_
  subst h
  refine Spec.bind (sees_spec _) fun b _ h => ?_
  obtain ⟨rfl, hb⟩ := h
  refine Spec.ite (fun ht => ?_) fun _ => hdigits _ (by omega) hlt
  refine Spec.bind (advance_spec 1) fun _ _ h => ?_
  subst h
  exact hdigits _ (by omega) (hb.1 ht).1

theorem substr_spec {start n : Nat} (h : start ≤ json.length) :
    Bounded json (substr json start n) i (fun _ j => i = j) := by
  refine Spec.bind (Q := fun _ j => i = j) (Spec.touch h rfl) fun _ _ hj => ?_
  subst hj
  exact Spec.ite (fun hgt => absurd h (by omega)) fun _ => Spec.pure rfl

section Parse

variable {D : Type} [DoubleText D]

theorem parseNumber_spec (hi : i ≤ json.length)
    (hhead : json.getD i 0 = chMinus ∨ Decimal.isDigit (json.getD i 0) = true) :
    Bounded json (parseNumber json : Scan (JsonValue D)) i (Moves json i) := by
  refine Spec.bind index_spec fun start _ h => ?_
  obtain ⟨rfl, rfl⟩ := h
  refine Spec.bind (parseSign_spec hi) fun _ j hj => ?_
  obtain ⟨hij, hj, hminus, hplain⟩ := hj
  -- a digit stands where the sign ends
  have hdigit : Decimal.isDigit (json.getD j 0) = true := by
    by_cases hm : json.getD i 0 = chMinus
    · exact (hminus hm).2
    · rw [hplain hm]
      exact hhead.resolve_left hm
  have hlt : j < json.length := lt_length_of_ne_zero (isDigit_ne hdigit 0 (by decide))
  refine Spec.bind (skipDigits_spec hj) fun _ k hk => ?_
  have hjk := hk.2.2 ⟨hlt, hdigit⟩
  refine Spec.bind (parseFraction_spec hk.2.1) fun frac l hl => ?_
  refine Spec.bind (parseExponent_spec hl.2) fun exp m hm => ?_
  refine Spec.bind index_spec fun _ _ h => ?_
  obtain ⟨rfl, rfl⟩ := h
  refine Spec.bind (substr_spec hi) fun num_str _ h => ?_
  subst h
  exact liftE_spec (convertNumber_onlyThrows _ _) fun _ _ => ⟨by omega, hm.2⟩

/-! ## Values -/

omit [DoubleText D] in
theorem parseWord_spec {word : String} (hw : 0 < (utf8 word).length) (hi : i ≤ json.length) (v : JsonValue D)
    (what : String) : Bounded json (parseWord json word v what) i (Moves json i) := by
  refine Spec.bind index_spec fun _ _ h => ?_
  obtain ⟨rfl, rfl⟩ := h
  refine Spec.ite (fun _ => syntaxError_spec _ _) fun hlong => ?_
  refine Spec.bind index_spec fun _ _ h => ?_
  obtain ⟨rfl, rfl⟩ := h
  refine Spec.bind (substr_spec hi) fun s _ h => ?_
  subst h
  refine Spec.ite (fun _ => syntaxError_spec _ _) fun _ => ?_
  refine Spec.bind (advance_spec _) fun _ _ h => ?_
  subst h
  exact Spec.pure ⟨by omega, by omega⟩

def ValueBound (json : List UInt8) (D : Type) [DoubleText D] (fuel : Nat) : Prop :=
  ∀ i, i ≤ json.length → 3 * (json.length - i) + 1 ≤ fuel →
    Bounded json (parseValue json fuel : Scan (JsonValue D)) i (Moves json i)

/-- Where the text ends an array takes one turn, to throw. -/
def ArrayBound (json : List UInt8) (D : Type) [DoubleText D] (fuel : Nat) : Prop :=
  ∀ i, 3 * (json.length - i) ≤ fuel → 0 < fuel →
    Bounded json (parseArray json fuel : Scan (JsonValue D)) i (Moves json i)

def ElemsBound (json : List UInt8) (D : Type) [DoubleText D] (fuel : Nat) : Prop :=
  ∀ i arr, i ≤ json.length → 3 * (json.length - i) + 2 ≤ fuel →
    Bounded json (parseElems json fuel arr : Scan (JsonValue D)) i (Moves json i)

def ObjectBound (json : List UInt8) (D : Type) [DoubleText D] (fuel : Nat) : Prop :=
  ∀ i, 3 * (json.length - i) ≤ fuel → 0 < fuel →
    Bounded json (parseObject json fuel : Scan (JsonValue D)) i (Moves json i)

def MembersBound (json : List UInt8) (D : Type) [DoubleText D] (fuel : Nat) : Prop :=
  ∀ i obj, i ≤ json.length → 3 * (json.length - i) + 2 ≤ fuel →
    Bounded json (parseMembers json fuel obj : Scan (JsonValue D)) i (Moves json i)

variable {fuel : Nat}

theorem value_step (harray : ArrayBound json D fuel) (hobject : ObjectBound json D fuel) :
    ValueBound json D (fuel + 1) := by
  intro i hi hfuel
  rw [parseValue]
  refine Spec.bind (skipWhitespace_spec hi) fun _ j hj => ?_
  refine Spec.bind atEnd_spec fun b _ h => ?_
  obtain ⟨rfl, hend⟩ := h
  refine Spec.ite (fun _ => Spec.fail ⟨_, rfl⟩) fun hb => ?_
  have hlt : j < json.length := by
    rw [hend] at hb
    omega
  have hmono : ∀ {α : Type} {a : α} {k : Nat}, Moves json j a k → Moves json i a k :=
    fun h => ⟨Nat.lt_of_le_of_lt hj.1 h.1, h.2⟩
  refine Spec.bind (cur_spec hlt.le) fun b _ h => ?_
  obtain ⟨rfl, rfl⟩ := h
  refine Spec.ite (fun _ => (hobject j (by omega) (by omega)).mono fun _ _ => hmono) fun _ => ?_
  refine Spec.ite (fun _ => (harray j (by omega) (by omega)).mono fun _ _ => hmono) fun _ => ?_
  refine Spec.ite (fun _ => ?_) fun _ => ?_
  · exact Spec.bind parseString_spec fun s k hk => Spec.pure (hmono hk)
  refine Spec.ite (fun _ => (parseWord_spec (by decide) hlt.le _ _).mono fun _ _ => hmono) fun _ => ?_
  refine Spec.ite (fun _ => (parseWord_spec (by decide) hlt.le _ _).mono fun _ _ => hmono) fun _ => ?_
  refine Spec.ite (fun _ => (parseWord_spec (by decide) hlt.le _ _).mono fun _ _ => hmono) fun _ => ?_
  refine Spec.ite (fun hnum => ?_) fun _ => ?_
  · have hhead : json.getD j 0 = chMinus ∨ Decimal.isDigit (json.getD j 0) = true := by simpa using hnum
    exact (parseNumber_spec hlt.le hhead).mono fun _ _ => hmono
  · exact Spec.bind index_spec fun _ _ _ => throw_spec ⟨_, rfl⟩ _

theorem array_step (helems : ElemsBound json D fuel) : ArrayBound json D (fuel + 1) := by
  intro i hfuel _
  rw [parseArray]
  refine Spec.bind (sees_spec _) fun b _ h => ?_
  obtain ⟨rfl, hb⟩ := h
  refine Spec.ite (fun ht => ?_) fun _ => syntaxError_spec _ _
  have hlt := (hb.1 ht).1
  refine Spec.bind (advance_spec 1) fun _ _ h => ?_
  subst h
  refine Spec.bind (skipWhitespace_spec hlt) fun _ j hj => ?_
  exact (helems j [] hj.2 (by omega)).mono fun _ k hk => ⟨by have := hk.1; omega, hk.2⟩

/-- The separator behind an element: the index has moved, so a turn less is enough for the rest. -/
theorem elems_step (hvalue : ValueBound json D fuel) (helems : ElemsBound json D fuel) :
    ElemsBound json D (fuel + 1) := by
  intro i arr hi hfuel
  rw [parseElems]
  refine Spec.bind (sees_spec _) fun b _ h => ?_
  obtain ⟨rfl, hb⟩ := h
  refine Spec.ite (fun ht => ?_) fun _ => ?_
  · refine Spec.bind (hvalue i hi (by omega)) fun v j hj => ?_
    have hij := hj.1
    refine Spec.bind (skipWhitespace_spec hj.2) fun _ k hk => ?_
    have hrest : ∀ l, k ≤ l → l ≤ json.length →
        Bounded json (parseElems json fuel (arr ++ [v])) l (Moves json i) := fun l hkl hl =>
      (helems l _ hl (by omega)).mono fun _ m hm => ⟨by have := hm.1; omega, hm.2⟩
    refine Spec.bind (sees_spec _) fun b _ h => ?_
    obtain ⟨rfl, hb⟩ := h
    refine Spec.ite (fun ht => ?_) fun _ => ?_
    · refine Spec.bind (advance_spec 1) fun _ _ h => ?_
      subst h
      refine Spec.bind (skipWhitespace_spec (hb.1 ht).1) fun _ l hl => ?_
      refine Spec.bind (sees_spec _) fun b _ h => ?_
      obtain ⟨rfl, -⟩ := h
      exact Spec.ite (fun _ => hrest l (by omega) hl.2) fun _ => syntaxError_spec _ _
    · refine Spec.bind (cur_spec hk.2) fun b _ h => ?_
      obtain ⟨rfl, rfl⟩ := h
      exact Spec.ite (fun _ => syntaxError_spec _ _) fun _ => hrest k (Nat.le_refl k) hk.2
  · refine Spec.bind (sees_spec _) fun b _ h => ?_
    obtain ⟨rfl, hb⟩ := h
    refine Spec.ite (fun ht => ?_) fun _ => syntaxError_spec _ _
    refine Spec.bind (advance_spec 1) fun _ _ h => ?_
    subst h
    exact Spec.pure ⟨Nat.lt_succ_self i, (hb.1 ht).1⟩

theorem object_step (hmembers : MembersBound json D fuel) : ObjectBound json D (fuel + 1) := by
  intro i hfuel _
  rw [parseObject]
  refine Spec.bind (sees_spec _) fun b _ h => ?_
  obtain ⟨rfl, hb⟩ := h
  refine Spec.ite (fun ht => ?_) fun _ => syntaxError_spec _ _
  have hlt := (hb.1 ht).1
  refine Spec.bind (advance_spec 1) fun _ _ h => ?_
  subst h
  refine Spec.bind (skipWhitespace_spec hlt) fun _ j hj => ?_
  exact (hmembers j [] hj.2 (by omega)).mono fun _ k hk => ⟨by have := hk.1; omega, hk.2⟩

theorem members_step (hvalue : ValueBound json D fuel) (hmembers : MembersBound json D fuel) :
    MembersBound json D (fuel + 1) := by
  intro i obj hi hfuel
  rw [parseMembers]
  refine Spec.bind (sees_spec _) fun b _ h => ?_
  obtain ⟨rfl, hb⟩ := h
  refine Spec.ite (fun ht => ?_) fun _ => ?_
  · refine Spec.bind parseString_spec fun key j hj => ?_
    have hij := hj.1
    refine Spec.bind (skipWhitespace_spec hj.2) fun _ k hk => ?_
    refine Spec.bind (sees_spec _) fun b _ h => ?_
    obtain ⟨rfl, hb⟩ := h
    refine Spec.ite (fun ht => ?_) fun _ => Spec.bind index_spec fun _ _ _ => throw_spec ⟨_, rfl⟩ _
    refine Spec.bind (advance_spec 1) fun _ _ h => ?_
    subst h
    refine Spec.bind (skipWhitespace_spec (hb.1 ht).1) fun _ l hl => ?_
    refine Spec.bind (hvalue l hl.2 (by omega)) fun v m hm => ?_
    have hlm := hm.1
    refine Spec.bind (skipWhitespace_spec hm.2) fun _ n hn => ?_
    have hrest : ∀ o, n ≤ o → o ≤ json.length →
        Bounded json (parseMembers json fuel (OrdMap.insert key v obj)) o (Moves json i) := fun o hno ho =>
      (hmembers o _ ho (by omega)).mono fun _ q hq => ⟨by have := hq.1; omega, hq.2⟩
    refine Spec.bind (sees_spec _) fun b _ h => ?_
    obtain ⟨rfl, hb⟩ := h
    refine Spec.ite (fun ht => ?_) fun _ => ?_
    · refine Spec.bind (advance_spec 1) fun _ _ h => ?_
      subst h
      refine Spec.bind (skipWhitespace_spec (hb.1 ht).1) fun _ o ho => ?_
      refine Spec.bind (sees_spec _) fun b _ h => ?_
      obtain ⟨rfl, -⟩ := h
      exact Spec.ite (fun _ => hrest o (by omega) ho.2) fun _ => syntaxError_spec _ _
    · refine Spec.bind (cur_spec hn.2) fun b _ h => ?_
      obtain ⟨rfl, rfl⟩ := h
      exact Spec.ite (fun _ => syntaxError_spec _ _) fun _ => hrest n (Nat.le_refl n) hn.2
  · refine Spec.bind (sees_spec _) fun b _ h => ?_
    obtain ⟨rfl, hb⟩ := h
    refine Spec.ite (fun ht => ?_) fun _ => syntaxError_spec _ _
    refine Spec.bind (advance_spec 1) fun _ _ h => ?_
    subst h
    exact Spec.pure ⟨Nat.lt_succ_self i, (hb.1 ht).1⟩

/-- **The five functions that call one another**, by induction on the bound on their depth. -/
theorem all_bound (json : List UInt8) (D : Type) [DoubleText D] : ∀ fuel : Nat,
    ValueBound json D fuel ∧ ArrayBound json D fuel ∧ ElemsBound json D fuel ∧ ObjectBound json D fuel ∧
      MembersBound json D fuel
  | 0 => ⟨fun _ _ h => by omega, fun _ _ h => by omega, fun _ _ _ h => by omega, fun _ _ h => by omega,
      fun _ _ _ h => by omega⟩
  | fuel + 1 => by
    obtain ⟨hvalue, harray, helems, hobject, hmembers⟩ := all_bound json D fuel
    exact ⟨value_step harray hobject, array_step helems, elems_step hvalue helems, object_step hmembers,
      members_step hvalue hmembers⟩

/-- **What the call does**: everything it reads is in the text or the NUL behind it, and it throws or returns with the
index moved on. -/
def Advances (json : List UInt8) (x : Scan α) (i : Nat) : Prop :=
  (∀ a ∈ (x i).1, a.pos ≤ json.length) ∧
    ((∃ e, x.run i = .error (.throws e)) ∨ ∃ v j, x.run i = .ok (v, j) ∧ i < j ∧ j ≤ json.length)

theorem advances_of_bounded {x : Scan α} (h : Bounded json x i (Moves json i)) : Advances json x i := by
  refine ⟨h.1, ?_⟩
  rcases h.run_cases with ⟨a, ha, e, rfl⟩ | ⟨v, j, hv, hj⟩
  · exact .inl ⟨e, ha⟩
  · exact .inr ⟨v, j, hv, hj⟩

/-- **The parser advances, ends and stays in bounds**: from every index, with every bound on the depth from three for
every byte left on. -/
theorem parser_advances (D : Type) [DoubleText D] (json : List UInt8) (i fuel : Nat) (hi : i ≤ json.length)
    (hfuel : 3 * (json.length - i) + 1 ≤ fuel) :
    Advances json (parseString json) i ∧
    (json.getD i 0 = chMinus ∨ Decimal.isDigit (json.getD i 0) = true →
      Advances json (parseNumber json : Scan (JsonValue D)) i) ∧
    Advances json (parseArray json fuel : Scan (JsonValue D)) i ∧
    Advances json (parseObject json fuel : Scan (JsonValue D)) i ∧
    Advances json (parseValue json fuel : Scan (JsonValue D)) i := by
  obtain ⟨hvalue, harray, -, hobject, -⟩ := all_bound json D fuel
  refine ⟨advances_of_bounded parseString_spec, fun hhead => advances_of_bounded (parseNumber_spec hi hhead),
    ?_, ?_, ?_⟩
  · exact advances_of_bounded (harray i (by omega) (by omega))
  · exact advances_of_bounded (hobject i (by omega) (by omega))
  · exact advances_of_bounded (hvalue i hi hfuel)

/-- A number cut behind its sign, in an array that is not closed. -/
theorem parser_advances_cut :
    Advances (utf8 "[-") (parseString (utf8 "[-")) 1 ∧
    Advances (utf8 "[-") (parseNumber (utf8 "[-") : Scan (JsonValue (List UInt8))) 1 ∧
    Advances (utf8 "[-") (parseArray (utf8 "[-") 4 : Scan (JsonValue (List UInt8))) 1 ∧
    Advances (utf8 "[-") (parseObject (utf8 "[-") 4 : Scan (JsonValue (List UInt8))) 1 ∧
    Advances (utf8 "[-") (parseValue (utf8 "[-") 4 : Scan (JsonValue (List UInt8))) 1 := by
  obtain ⟨hstring, hnumber, hrest⟩ := parser_advances (List UInt8) (utf8 "[-") 1 4 (by decide) (by decide)
  exact ⟨hstring, hnumber (.inl rfl), hrest⟩

end Parse

end Text

end Indexed
end MiniRos2

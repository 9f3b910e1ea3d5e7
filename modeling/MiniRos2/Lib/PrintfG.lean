import MiniRos2.Lib.Decimal
/-!
# PrintfG — a number printed with six significant digits

`%g` rounds to six significant digits, to the even neighbour where two are equally near, writes the number with a point
or with an exponent, and leaves out zeros at the end of the fraction.  The text has neither a fraction nor an exponent
exactly when the rounded number is an integer below a million (`fraction_nil_iff_whole`).
-/
namespace PrintfG

/-! ## Six significant digits -/

/-- `a/b` rounded to the nearest integer, and to the even one where two are equally near. -/
def roundHalfEven (a b : Nat) : Nat :=
  if 2 * (a % b) < b ∨ 2 * (a % b) = b ∧ a / b % 2 = 0 then a / b else a / b + 1

/-- The power of ten of the first digit of `num/den`. -/
def leading (num den : Nat) : Int :=
  if den ≤ num then (Nat.log 10 (num / den) : Int) else -(Nat.log 10 ((den - 1) / num) + 1 : Int)

/-- Six digits, the first of which stands for the power of ten `exponent`. -/
structure Rounded where
  digits : Nat
  exponent : Int

/-- **`num/den` rounded to six significant digits.** -/
def round (num den : Nat) : Rounded :=
  if num = 0 then ⟨0, 0⟩
  else
    let x := leading num den
    let m := roundHalfEven (num * 10 ^ (5 - x).toNat) (den * 10 ^ (x - 5).toNat)
    if m = 10 ^ 6 then ⟨10 ^ 5, x + 1⟩ else ⟨m, x⟩

/-- The first digit is none of zero, but for the number zero. -/
def Rounded.Normal (r : Rounded) : Prop :=
  r.digits = 0 ∧ r.exponent = 0 ∨ 10 ^ 5 ≤ r.digits ∧ r.digits < 10 ^ 6

/-- **The rounded number is an integer below a million.** -/
def Rounded.Whole (r : Rounded) : Prop :=
  0 ≤ r.exponent ∧ r.exponent < 6 ∧ 10 ^ (5 - r.exponent.toNat) ∣ r.digits

instance (r : Rounded) : Decidable r.Whole := by
  unfold Rounded.Whole
  infer_instance

/-- **With this power of ten the scaled number has six digits in front of the point.** -/
theorem leading_spec {num den : Nat} (hnum : num ≠ 0) (hden : 0 < den) :
    10 ^ 5 * (den * 10 ^ (leading num den - 5).toNat) ≤ num * 10 ^ (5 - leading num den).toNat ∧
      num * 10 ^ (5 - leading num den).toNat < 10 ^ 6 * (den * 10 ^ (leading num den - 5).toNat) := by
  unfold leading
  split
  · rename_i hle
    have hq : num / den ≠ 0 := (Nat.div_pos hle hden).ne'
    have hlo := Nat.pow_log_le_self 10 hq
    have hhi := Nat.lt_pow_succ_log_self (b := 10) (by norm_num) (num / den)
    generalize Nat.log 10 (num / den) = l at hlo hhi
    rw [Nat.le_div_iff_mul_le hden] at hlo
    rw [Nat.div_lt_iff_lt_mul hden] at hhi
    obtain ⟨a, ha⟩ : ∃ a, (5 - (l : Int)).toNat = a := ⟨_, rfl⟩
    obtain ⟨c, hc⟩ : ∃ c, ((l : Int) - 5).toNat = c := ⟨_, rfl⟩
    have hac : 5 + c = l + a := by omega
    have hpow : 10 ^ 5 * 10 ^ c = 10 ^ l * 10 ^ a := by rw [← pow_add, ← pow_add, hac]
    rw [ha, hc]
    constructor
    · calc 10 ^ 5 * (den * 10 ^ c) = 10 ^ l * den * 10 ^ a := by rw [mul_left_comm, hpow]; ring
        _ ≤ num * 10 ^ a := Nat.mul_le_mul_right _ hlo
    · calc num * 10 ^ a < 10 ^ (l + 1) * den * 10 ^ a := Nat.mul_lt_mul_of_pos_right hhi (by positivity)
        _ = 10 * (den * (10 ^ l * 10 ^ a)) := by ring
        _ = 10 ^ 6 * (den * 10 ^ c) := by rw [← hpow]; ring
  · rename_i hlt
    have hpos : 0 < num := Nat.pos_of_ne_zero hnum
    have hq : (den - 1) / num ≠ 0 := (Nat.div_pos (by omega) hpos).ne'
    have hlo := Nat.pow_log_le_self 10 hq
    have hhi := Nat.lt_pow_succ_log_self (b := 10) (by norm_num) ((den - 1) / num)
    generalize Nat.log 10 ((den - 1) / num) = l at hlo hhi
    rw [Nat.le_div_iff_mul_le hpos] at hlo
    rw [Nat.div_lt_iff_lt_mul hpos] at hhi
    have hhi : den - 1 < 10 ^ (l + 1) * num := hhi
    have ha : (5 - -((l : Int) + 1)).toNat = 6 + l := by omega
    have hc : (-((l : Int) + 1) - 5).toNat = 0 := by omega
    rw [ha, hc, pow_zero, mul_one]
    constructor
    · calc 10 ^ 5 * den ≤ 10 ^ 5 * (10 ^ (l + 1) * num) := Nat.mul_le_mul_left _ (by omega)
        _ = num * 10 ^ (6 + l) := by ring
    · calc num * 10 ^ (6 + l) = 10 ^ 6 * (10 ^ l * num) := by ring
        _ < 10 ^ 6 * den := Nat.mul_lt_mul_of_pos_left (by omega) (by positivity)

theorem roundHalfEven_cases (a b : Nat) : roundHalfEven a b = a / b ∨ roundHalfEven a b = a / b + 1 := by
  unfold roundHalfEven
  split
  · exact .inl rfl
  · exact .inr rfl

theorem round_normal {num den : Nat} (hden : 0 < den) : (round num den).Normal := by
  unfold round
  split
  · exact .inl ⟨rfl, rfl⟩
  · rename_i hnum
    obtain ⟨hlo, hhi⟩ := leading_spec hnum hden
    have hb : 0 < den * 10 ^ (leading num den - 5).toNat := by positivity
    rw [← Nat.le_div_iff_mul_le hb] at hlo
    rw [← Nat.div_lt_iff_lt_mul hb] at hhi
    have hm := roundHalfEven_cases (num * 10 ^ (5 - leading num den).toNat) (den * 10 ^ (leading num den - 5).toNat)
    dsimp only
    split
    · exact .inr (by norm_num)
    · refine .inr ?_
      dsimp only
      omega

/-! ## The text -/

/-- The six digits, with zeros in front. -/
def sixDigits (m : Nat) : List UInt8 := [5, 4, 3, 2, 1, 0].map fun i => Decimal.digitByte (m / 10 ^ i % 10)

def stripZeros (ds : List UInt8) : List UInt8 := ds.rdropWhile (· == 48)

/-- Whether the number is written with an exponent. -/
def Rounded.Scientific (r : Rounded) : Prop := r.exponent < -4 ∨ 6 ≤ r.exponent

instance (r : Rounded) : Decidable r.Scientific := by
  unfold Rounded.Scientific
  infer_instance

def Rounded.integer (r : Rounded) : List UInt8 :=
  if r.Scientific then (sixDigits r.digits).take 1
  else if 0 ≤ r.exponent then (sixDigits r.digits).take (r.exponent.toNat + 1)
  else [48]

def Rounded.fraction (r : Rounded) : List UInt8 :=
  stripZeros <|
    if r.Scientific then (sixDigits r.digits).drop 1
    else if 0 ≤ r.exponent then (sixDigits r.digits).drop (r.exponent.toNat + 1)
    else List.replicate (-r.exponent - 1).toNat 48 ++ sixDigits r.digits

/-- The exponent has a sign and at least two digits. -/
def exponentText (x : Int) : List UInt8 :=
  101 :: (if x < 0 then 45 else 43) :: ((if x.natAbs < 10 then [48] else []) ++ Decimal.digits x.natAbs)

/-- **The text of a number** that is negative or not. -/
def text (negative : Bool) (r : Rounded) : List UInt8 :=
  (if negative then [45] else []) ++ (r.integer ++
    ((if r.fraction = [] then [] else 46 :: r.fraction) ++ if r.Scientific then exponentText r.exponent else []))

theorem isDigit_of_mem_sixDigits {m : Nat} {b : UInt8} (hb : b ∈ sixDigits m) : Decimal.isDigit b = true := by
  obtain ⟨i, -, rfl⟩ := List.mem_map.1 hb
  exact Decimal.isDigit_digitByte (Nat.mod_lt _ (by norm_num))

theorem length_sixDigits (m : Nat) : (sixDigits m).length = 6 := rfl

theorem integer_ne_nil (r : Rounded) : r.integer ≠ [] := by
  have hlen := length_sixDigits r.digits
  unfold Rounded.integer
  split
  · exact List.ne_nil_of_length_pos (by simp [hlen])
  · split
    · exact List.ne_nil_of_length_pos (by simp [hlen])
    · exact List.cons_ne_nil _ _

theorem isDigit_of_mem_integer {r : Rounded} {b : UInt8} (hb : b ∈ r.integer) : Decimal.isDigit b = true := by
  unfold Rounded.integer at hb
  split at hb
  · exact isDigit_of_mem_sixDigits (List.mem_of_mem_take hb)
  · split at hb
    · exact isDigit_of_mem_sixDigits (List.mem_of_mem_take hb)
    · rw [List.mem_singleton.1 hb]
      rfl

theorem length_integer_le (r : Rounded) : r.integer.length ≤ 6 := by
  have hlen := length_sixDigits r.digits
  unfold Rounded.integer
  split
  · simp
  · split
    · simp [hlen]
    · simp

theorem isDigit_of_mem_fraction {r : Rounded} {b : UInt8} (hb : b ∈ r.fraction) : Decimal.isDigit b = true := by
  have hmem := (List.rdropWhile_prefix _ _).subset hb
  split at hmem
  · exact isDigit_of_mem_sixDigits (List.mem_of_mem_drop hmem)
  · split at hmem
    · exact isDigit_of_mem_sixDigits (List.mem_of_mem_drop hmem)
    · rcases List.mem_append.1 hmem with hmem | hmem
      · rw [(List.mem_replicate.1 hmem).2]
        rfl
      · exact isDigit_of_mem_sixDigits hmem

theorem stripZeros_eq_nil {ds : List UInt8} : stripZeros ds = [] ↔ ∀ b ∈ ds, b = 48 := by
  unfold stripZeros
  simp [List.rdropWhile_eq_nil_iff]

theorem digitByte_mod_eq_zero (m : Nat) : Decimal.digitByte (m % 10) = 48 ↔ m % 10 = 0 := by
  have hb := Decimal.digitByte_toNat (Nat.mod_lt m (by norm_num : 0 < 10))
  constructor
  · intro heq
    rw [heq] at hb
    have : (48 : UInt8).toNat = 48 := rfl
    omega
  · intro h
    rw [h]
    rfl

/-- **A text without an exponent has no fraction exactly when the number is an integer.** -/
theorem fraction_nil_iff_whole {r : Rounded} (h : r.Normal) (hs : ¬ r.Scientific) : r.fraction = [] ↔ r.Whole := by
  unfold Rounded.fraction
  rw [if_neg hs, stripZeros_eq_nil]
  unfold Rounded.Scientific at hs
  unfold Rounded.Whole
  split
  · rename_i hx
    obtain ⟨n, hn⟩ := Int.eq_ofNat_of_zero_le hx
    have hlt : n < 6 := by omega
    rw [hn]
    -- what is dropped and what must divide the digits is checked for each place of the point
    interval_cases n <;> simp [sixDigits, digitByte_mod_eq_zero] <;> omega
  · rename_i hx
    have hno : ¬ (0 ≤ r.exponent ∧ r.exponent < 6 ∧ 10 ^ (5 - r.exponent.toNat) ∣ r.digits) := fun hw => hx hw.1
    refine iff_of_false (fun hall => ?_) hno
    have hfirst := hall (Decimal.digitByte (r.digits / 10 ^ 5 % 10)) (List.mem_append_right _ (by simp [sixDigits]))
    rw [digitByte_mod_eq_zero] at hfirst
    rcases h with ⟨-, hexp⟩ | ⟨hlo, hhi⟩
    · exact hx hexp.ge
    · omega

end PrintfG

import Mathlib
/-!
# Decimal — printing and reading decimal numerals

`digits n` is the decimal numeral of `n` (ASCII bytes, most significant first, `0` for zero) and `value` reads a run of
digits.  Reading back gives `n` (`value_digits`); a run followed by more digits is worth more, unless everything is
zero (`value_append_eq_iff`).
-/
namespace Decimal

/-- `isdigit` of the "C" locale. -/
def isDigit (b : UInt8) : Bool := decide (48 ≤ b) && decide (b ≤ 57)

def digitByte (d : Nat) : UInt8 := UInt8.ofNat (48 + d)

/-- The decimal numeral of a natural number. -/
def digits (n : Nat) : List UInt8 :=
  if n = 0 then [digitByte 0] else (Nat.digits 10 n).reverse.map digitByte

/-- The number a run of digits stands for. -/
def value (ds : List UInt8) : Nat := ds.foldl (fun n b => 10 * n + (b.toNat - 48)) 0

theorem digitByte_toNat {d : Nat} (h : d < 10) : (digitByte d).toNat = 48 + d := by
  unfold digitByte
  rw [UInt8.toNat_ofNat']
  omega

theorem isDigit_digitByte {d : Nat} (h : d < 10) : isDigit (digitByte d) = true := by
  have hb := digitByte_toNat h
  simp only [isDigit, Bool.and_eq_true, decide_eq_true_eq, UInt8.le_iff_toNat_le]
  constructor
  · show (48 : UInt8).toNat ≤ _
    rw [hb, show (48 : UInt8).toNat = 48 from rfl]; omega
  · rw [hb, show (57 : UInt8).toNat = 57 from rfl]; omega

theorem isDigit_of_mem_digits (n : Nat) : ∀ b ∈ digits n, isDigit b = true := by
  intro b hb
  unfold digits at hb
  split at hb
  · rw [List.mem_singleton.1 hb]; exact isDigit_digitByte (by omega)
  · obtain ⟨d, hd, rfl⟩ := List.mem_map.1 hb
    exact isDigit_digitByte (Nat.digits_lt_base (by omega) (List.mem_reverse.1 hd))

theorem digits_ne_nil (n : Nat) : digits n ≠ [] := by
  unfold digits
  split
  · simp
  · rename_i hn
    simpa using Nat.digits_ne_nil_iff_ne_zero.2 hn

/-- **No numeral but that of zero starts with a zero.** -/
theorem digits_head (n : Nat) : digits n = [48] ∨ ∃ b ds, digits n = b :: ds ∧ b ≠ 48 := by
  unfold digits
  split
  · exact .inl rfl
  · rename_i hn
    have hne : Nat.digits 10 n ≠ [] := Nat.digits_ne_nil_iff_ne_zero.2 hn
    have hlast : (Nat.digits 10 n).getLast hne ≠ 0 := Nat.getLast_digit_ne_zero 10 hn
    have hten : (Nat.digits 10 n).getLast hne < 10 := Nat.digits_lt_base (by omega) (List.getLast_mem hne)
    refine .inr ⟨digitByte ((Nat.digits 10 n).getLast hne), (Nat.digits 10 n).dropLast.reverse.map digitByte, ?_, ?_⟩
    · rw [← List.map_cons, ← List.reverse_concat, List.dropLast_concat_getLast]
    · intro hb
      have hnat := digitByte_toNat hten
      rw [hb, show (48 : UInt8).toNat = 48 from rfl] at hnat
      omega

theorem foldl_value (es : List UInt8) : ∀ (n : Nat),
    es.foldl (fun n b => 10 * n + (b.toNat - 48)) n = n * 10 ^ es.length + value es := by
  induction es with
  | nil => intro n; simp [value]
  | cons b es ih =>
    intro n
    have h0 : value (b :: es) = (b.toNat - 48) * 10 ^ es.length + value es := by
      rw [value, List.foldl_cons, ih]; simp
    rw [List.foldl_cons, ih, h0, List.length_cons, Nat.pow_succ]
    ring

theorem value_append (ds es : List UInt8) : value (ds ++ es) = value ds * 10 ^ es.length + value es := by
  rw [value, List.foldl_append, foldl_value]
  rfl

theorem value_cons (b : UInt8) (ds : List UInt8) : value (b :: ds) = (b.toNat - 48) * 10 ^ ds.length + value ds := by
  rw [value, List.foldl_cons, foldl_value]
  simp

theorem toNat_of_isDigit {b : UInt8} (h : isDigit b = true) : 48 ≤ b.toNat ∧ b.toNat ≤ 57 := by
  simp only [isDigit, Bool.and_eq_true, decide_eq_true_eq, UInt8.le_iff_toNat_le] at h
  exact h

theorem value_lt : ∀ {ds : List UInt8}, (∀ b ∈ ds, isDigit b = true) → value ds < 10 ^ ds.length
  | [], _ => by simp [value]
  | b :: ds, h => by
    have hb := toNat_of_isDigit (h b List.mem_cons_self)
    have hds := value_lt (fun x hx => h x (List.mem_cons_of_mem b hx))
    rw [value_cons, List.length_cons]
    calc (b.toNat - 48) * 10 ^ ds.length + value ds < (b.toNat - 48) * 10 ^ ds.length + 10 ^ ds.length := by omega
      _ = (b.toNat - 48 + 1) * 10 ^ ds.length := by ring
      _ ≤ 10 * 10 ^ ds.length := Nat.mul_le_mul_right _ (by omega)
      _ = 10 ^ (ds.length + 1) := by ring

theorem value_map_digitByte : ∀ (l : List Nat), (∀ d ∈ l, d < 10) →
    value (l.reverse.map digitByte) = Nat.ofDigits 10 l
  | [], _ => rfl
  | d :: l, h => by
    have hd := digitByte_toNat (h d List.mem_cons_self)
    rw [List.reverse_cons, List.map_append, value_append, value_map_digitByte l (fun x hx =>
      h x (List.mem_cons_of_mem _ hx)), Nat.ofDigits_cons]
    simp [value, hd]
    omega

/-- **Reading a printed number gives it back.** -/
theorem value_digits (n : Nat) : value (digits n) = n := by
  unfold digits
  split
  · rename_i hn; rw [hn]; rfl
  · rw [value_map_digitByte _ (fun d hd => Nat.digits_lt_base (by omega) hd), Nat.ofDigits_digits]

theorem value_eq_zero_iff : ∀ (ds : List UInt8), (∀ b ∈ ds, isDigit b = true) →
    (value ds = 0 ↔ ds = List.replicate ds.length 48)
  | [], _ => by simp [value]
  | b :: ds, h => by
    have hb := toNat_of_isDigit (h b List.mem_cons_self)
    have h48 : (48 : UInt8).toNat = 48 := rfl
    have hpos : 0 < 10 ^ ds.length := Nat.pow_pos (by omega)
    rw [value_cons, Nat.add_eq_zero_iff, value_eq_zero_iff ds (fun x hx => h x (List.mem_cons_of_mem _ hx)),
      List.length_cons, List.replicate_succ, List.cons.injEq]
    refine and_congr_left (fun _ => ?_)
    rw [Nat.mul_eq_zero]
    constructor
    · rintro (h0 | h0)
      · exact UInt8.toNat_inj.1 (by omega)
      · omega
    · rintro rfl
      exact .inl (by omega)

/-- **More digits behind a numeral change its value, unless all of them are zeros.** -/
theorem value_append_eq_iff (ds es : List UInt8) (hne : es ≠ []) (hes : ∀ b ∈ es, isDigit b = true) :
    value (ds ++ es) = value ds ↔ value ds = 0 ∧ es = List.replicate es.length 48 := by
  have hlen : 0 < es.length := List.length_pos_of_ne_nil hne
  have hpow : 10 ≤ 10 ^ es.length := Nat.le_self_pow (by omega) 10
  rw [value_append, ← value_eq_zero_iff es hes]
  constructor
  · intro h
    have hmul : value ds * 10 ≤ value ds * 10 ^ es.length := Nat.mul_le_mul_left _ hpow
    have hz : value ds = 0 := by omega
    rw [hz] at h
    exact ⟨hz, by omega⟩
  · rintro ⟨h1, h2⟩
    rw [h1, h2]
    simp

end Decimal

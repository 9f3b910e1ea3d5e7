import Mathlib.Data.List.Basic
import Mathlib.Tactic.Common
/-!
# Utf8 — texts as bytes

`encode` writes the code points of a text one after the other.  A code point below 128 is its own byte, and every byte
of another one is 128 or more, so a byte below 128 in an encoded text is a code point of the text (`mem_of_mem_encode`).
-/
namespace Utf8

def encode (t : List Char) : List UInt8 := t.flatMap String.utf8EncodeChar

/-- The bytes of some text. -/
def Valid (bs : List UInt8) : Prop := ∃ t, bs = encode t

@[simp] theorem encode_nil : encode [] = [] := rfl

@[simp] theorem encode_cons (c : Char) (t : List Char) : encode (c :: t) = String.utf8EncodeChar c ++ encode t := rfl

@[simp] theorem encode_append (s t : List Char) : encode (s ++ t) = encode s ++ encode t := List.flatMap_append

theorem encodeChar_of_lt {c : Char} (h : c.toNat < 128) : String.utf8EncodeChar c = [UInt8.ofNat c.toNat] := by
  have hle : c.val.toNat ≤ 0x7f := Nat.le_of_lt_succ h
  unfold String.utf8EncodeChar
  exact if_pos hle

/-- A byte that leads or continues a longer code point. -/
theorem le_ofNat {n m k : Nat} (hm : 0 < m) (hk : 128 ≤ k) (h : m + k ≤ 256) : 128 ≤ UInt8.ofNat (n % m + k) := by
  have hmod := Nat.mod_lt n hm
  rw [UInt8.le_iff_toNat_le, UInt8.toNat_ofNat', Nat.mod_eq_of_lt (by omega)]
  exact Nat.le_trans hk (Nat.le_add_left k _)

theorem le_of_mem_encodeChar {c : Char} (h : 128 ≤ c.toNat) : ∀ b ∈ String.utf8EncodeChar c, 128 ≤ b := by
  have hlead : ¬ c.val.toNat ≤ 0x7f := by
    have hval : c.toNat = c.val.toNat := rfl
    omega
  intro b hb
  unfold String.utf8EncodeChar at hb
  simp only [if_neg hlead] at hb
  split at hb
  · rcases List.mem_cons.1 hb with rfl | hb
    · exact le_ofNat (by decide) (by decide) (by decide)
    · rw [List.mem_singleton.1 hb]
      exact le_ofNat (by decide) (by decide) (by decide)
  split at hb
  · rcases List.mem_cons.1 hb with rfl | hb
    · exact le_ofNat (by decide) (by decide) (by decide)
    rcases List.mem_cons.1 hb with rfl | hb
    · exact le_ofNat (by decide) (by decide) (by decide)
    · rw [List.mem_singleton.1 hb]
      exact le_ofNat (by decide) (by decide) (by decide)
  · rcases List.mem_cons.1 hb with rfl | hb
    · exact le_ofNat (by decide) (by decide) (by decide)
    rcases List.mem_cons.1 hb with rfl | hb
    · exact le_ofNat (by decide) (by decide) (by decide)
    rcases List.mem_cons.1 hb with rfl | hb
    · exact le_ofNat (by decide) (by decide) (by decide)
    · rw [List.mem_singleton.1 hb]
      exact le_ofNat (by decide) (by decide) (by decide)

/-- **A byte below 128 is a code point of the text.** -/
theorem mem_of_mem_encode {t : List Char} {b : UInt8} (hb : b ∈ encode t) (hlt : b < 128) :
    ∃ c ∈ t, c.toNat = b.toNat := by
  obtain ⟨c, hc, hbc⟩ := List.mem_flatMap.1 hb
  refine ⟨c, hc, ?_⟩
  rcases Nat.lt_or_ge c.toNat 128 with h | h
  · rw [encodeChar_of_lt h, List.mem_singleton] at hbc
    rw [hbc, UInt8.toNat_ofNat', Nat.mod_eq_of_lt (by omega)]
  · exact absurd (le_of_mem_encodeChar h b hbc) (UInt8.not_le.2 hlt)

/-! ## ASCII -/

def asciiChar (b : UInt8) : Char := Char.ofNat b.toNat

theorem asciiChar_toNat {b : UInt8} (h : b < 128) : (asciiChar b).toNat = b.toNat := by
  have hlt : b.toNat < 128 := UInt8.lt_iff_toNat_lt.1 h
  rw [asciiChar, Char.ofNat, dif_pos (.inl (by omega))]
  rfl

/-- ASCII bytes are the text of their characters. -/
theorem encode_map_asciiChar : ∀ {bs : List UInt8}, (∀ b ∈ bs, b < 128) → encode (bs.map asciiChar) = bs
  | [], _ => rfl
  | b :: bs, h => by
    rw [List.forall_mem_cons] at h
    have hlt : b.toNat < 128 := UInt8.lt_iff_toNat_lt.1 h.1
    have hnat : (asciiChar b).toNat = b.toNat := asciiChar_toNat h.1
    rw [List.map_cons, encode_cons, encodeChar_of_lt (by omega), hnat, UInt8.ofNat_toNat, encode_map_asciiChar h.2]
    rfl

end Utf8

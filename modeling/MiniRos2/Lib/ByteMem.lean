import Mathlib
/-!
# ByteMem — a byte memory with writes at an offset and C-string reads

A memory gives every position its byte.  A text written over another at the same place leaves the rest of the longer
one behind it (`read_write_of_le`).  `Filled m off n h P` says that a section of `n` bytes at `off` holds `h` non-NUL
bytes, the last of them satisfying `P`, and only NULs behind them: a C-string read of the section gives exactly these
`h` bytes (`Filled.cstr_read`), and a write that covers the section's start keeps the shape, the higher of the two
ends winning (`Filled.write`).
-/
namespace ByteMem

/-- The byte at every position. -/
abbrev Mem := Nat → UInt8

def zero : Mem := fun _ => 0

/-- `memcpy(base + off, bs, bs.size())`. -/
def write (m : Mem) (off : Nat) (bs : List UInt8) : Mem := fun i =>
  if off ≤ i then (bs[i - off]?).getD (m i) else m i

/-- The `n` bytes from `off` on. -/
def read (m : Mem) (off n : Nat) : List UInt8 := (List.range n).map (fun i => m (off + i))

/-- The bytes before the first NUL. -/
def cstr (bs : List UInt8) : List UInt8 := bs.takeWhile (fun b => b != 0)

@[simp] theorem length_read (m : Mem) (off n : Nat) : (read m off n).length = n := by simp [read]

theorem getElem?_read (m : Mem) (off n i : Nat) (h : i < n) : (read m off n)[i]? = some (m (off + i)) := by
  simp [read, h]

theorem write_of_lt (m : Mem) (off i : Nat) (bs : List UInt8) (h : i < off) : write m off bs i = m i := by
  unfold write; rw [if_neg (by omega)]

theorem write_of_ge (m : Mem) (off i : Nat) (bs : List UInt8) (h : off + bs.length ≤ i) : write m off bs i = m i := by
  unfold write; rw [if_pos (by omega), List.getElem?_eq_none (by omega)]; rfl

theorem write_of_mem (m : Mem) (off i : Nat) (bs : List UInt8) (h1 : off ≤ i) (h2 : i - off < bs.length) :
    write m off bs i = bs[i - off] := by
  unfold write; rw [if_pos h1, List.getElem?_eq_getElem h2]; rfl

theorem read_congr (m m' : Mem) (off n : Nat) (h : ∀ i, i < n → m (off + i) = m' (off + i)) :
    read m off n = read m' off n := by
  unfold read
  exact List.map_congr_left (fun i hi => h i (List.mem_range.1 hi))

theorem eq_of_read_eq {m m' : Mem} {off n : Nat} (h : read m off n = read m' off n) :
    ∀ i, i < n → m (off + i) = m' (off + i) := fun i hi => by
  have hget := congrArg (fun bs : List UInt8 => bs[i]?) h
  simpa only [getElem?_read _ _ _ _ hi, Option.some.injEq] using hget

theorem read_add (m : Mem) (off a b : Nat) : read m off (a + b) = read m off a ++ read m (off + a) b := by
  unfold read
  rw [List.range_add, List.map_append, List.map_map]
  simp [Function.comp_def, Nat.add_assoc]

theorem read_split (m : Mem) (off a n : Nat) (h : a ≤ n) :
    read m off n = read m off a ++ read m (off + a) (n - a) := by
  rw [← read_add]; congr 1; omega

/-- **A read inside a written text gives its front.** -/
theorem read_write_take (m : Mem) (off n : Nat) (bs : List UInt8) (h : n ≤ bs.length) :
    read (write m off bs) off n = bs.take n := by
  apply List.ext_getElem?
  intro i
  by_cases hi : i < n
  · rw [getElem?_read _ _ _ _ hi, write_of_mem _ _ _ _ (by omega) (by omega), List.getElem?_take_of_lt hi,
      List.getElem?_eq_getElem (by omega)]
    simp
  · rw [List.getElem?_eq_none (by simpa using hi), List.getElem?_eq_none (by simp; omega)]

/-- **A write changes nothing exactly when it stores what is there.** -/
theorem write_eq_self_iff {m : Mem} {off : Nat} {bs : List UInt8} :
    write m off bs = m ↔ read m off bs.length = bs := by
  constructor
  · intro h
    have hread := read_write_take m off bs.length bs (Nat.le_refl _)
    rwa [h, List.take_length] at hread
  · intro h
    funext i
    by_cases hi : off ≤ i ∧ i - off < bs.length
    · have hget := getElem?_read m off bs.length (i - off) hi.2
      rw [h, List.getElem?_eq_getElem hi.2, Option.some_inj, Nat.add_sub_cancel' hi.1] at hget
      rw [write_of_mem _ _ _ _ hi.1 hi.2, hget]
    · rcases Nat.lt_or_ge i off with hlt | hge
      · exact write_of_lt _ _ _ _ hlt
      · exact write_of_ge _ _ _ _ (by omega)

theorem read_write_disjoint (m : Mem) (off off' n : Nat) (bs : List UInt8)
    (h : off + n ≤ off' ∨ off' + bs.length ≤ off) : read (write m off' bs) off n = read m off n :=
  read_congr _ _ _ _ (fun i hi => by
    rcases h with h | h
    · exact write_of_lt _ _ _ _ (by omega)
    · exact write_of_ge _ _ _ _ (by omega))

/-- **A read past a written text gives the text and what was behind it.** -/
theorem read_write_of_le (m : Mem) (off n : Nat) (bs : List UInt8) (h : bs.length ≤ n) :
    read (write m off bs) off n = bs ++ read m (off + bs.length) (n - bs.length) := by
  rw [read_split _ _ _ _ h, read_write_take _ _ _ _ (Nat.le_refl _), List.take_length,
    read_write_disjoint _ _ _ _ _ (.inr (Nat.le_refl _))]

/-! ## Texts written one over another -/

/-- What a series of texts leaves, each written over the start of the ones before. -/
def overlay (ts : List (List UInt8)) : List UInt8 := ts.foldl (fun acc t => t ++ acc.drop t.length) []

def writeAll (m : Mem) (off : Nat) (ts : List (List UInt8)) : Mem := ts.foldl (fun m t => write m off t) m

theorem overlay_append (ts : List (List UInt8)) (t : List UInt8) :
    overlay (ts ++ [t]) = t ++ (overlay ts).drop t.length := by
  rw [overlay, List.foldl_append, List.foldl_cons, List.foldl_nil]
  rfl

theorem writeAll_append (m : Mem) (off : Nat) (ts us : List (List UInt8)) :
    writeAll m off (ts ++ us) = writeAll (writeAll m off ts) off us := List.foldl_append

/-- No text is longer than what the series leaves. -/
theorem length_le_overlay {ts : List (List UInt8)} {t : List UInt8} (ht : t ∈ ts) :
    t.length ≤ (overlay ts).length := by
  induction ts using List.reverseRecOn with
  | nil => exact absurd ht List.not_mem_nil
  | append_singleton ts u ih =>
    rw [overlay_append, List.length_append, List.length_drop]
    rcases List.mem_append.1 ht with ht | ht
    · have := ih ht
      omega
    · rw [List.mem_singleton.1 ht]
      omega

/-- **A series of texts is read as their overlay**, whatever was there before. -/
theorem read_writeAll (m : Mem) (off : Nat) (ts : List (List UInt8)) :
    read (writeAll m off ts) off (overlay ts).length = overlay ts := by
  induction ts using List.reverseRecOn with
  | nil => rfl
  | append_singleton ts t ih =>
    rw [overlay_append, writeAll_append, List.length_append, List.length_drop]
    generalize writeAll m off ts = m' at ih
    show read (write m' off t) off _ = _
    rw [read_write_of_le _ _ _ _ (Nat.le_add_right _ _), Nat.add_sub_cancel_left]
    congr 1
    by_cases hle : t.length ≤ (overlay ts).length
    · -- behind the last text stands what the series before it has left there
      have hsplit := read_split m' off t.length (overlay ts).length hle
      rw [ih] at hsplit
      conv_rhs => rw [hsplit]
      rw [List.drop_append_of_le_length (length_read _ _ _).ge, List.drop_of_length_le (length_read _ _ _).le]
      rfl
    · rw [List.drop_of_length_le (by omega), Nat.sub_eq_zero_of_le (by omega)]
      rfl

theorem read_writeAll_take (m : Mem) (off n : Nat) (ts : List (List UInt8)) (h : n ≤ (overlay ts).length) :
    read (writeAll m off ts) off n = (overlay ts).take n := by
  rw [← read_writeAll m off ts, read_split _ _ _ _ h, List.take_left' (length_read _ _ _)]

theorem cstr_append_of_ne (xs ys : List UInt8) (h : ∀ b ∈ xs, b ≠ 0) : cstr (xs ++ ys) = xs ++ cstr ys := by
  unfold cstr
  exact List.takeWhile_append_of_pos (fun b hb => by simpa using h b hb)

theorem cstr_eq_self (xs : List UInt8) (h : ∀ b ∈ xs, b ≠ 0) : cstr xs = xs := by
  have := cstr_append_of_ne xs [] h
  simpa [cstr] using this

theorem ne_zero_of_mem_cstr (xs : List UInt8) : ∀ b ∈ cstr xs, b ≠ 0 := fun b hb => by
  simpa using List.mem_takeWhile_imp hb

/-! ## Sections filled from their start -/

/-- **`h` non-NUL bytes from the section's start, then NULs to its end**; the last non-NUL byte satisfies `P`. -/
structure Filled (m : Mem) (off n h : Nat) (P : UInt8 → Prop) : Prop where
  le : h ≤ n
  text : ∀ i, i < h → m (off + i) ≠ 0
  nul : ∀ i, h ≤ i → i < n → m (off + i) = 0
  last : 0 < h → P (m (off + (h - 1)))

theorem Filled.zero (off n : Nat) (P : UInt8 → Prop) : Filled zero off n 0 P :=
  ⟨Nat.zero_le _, fun i hi => absurd hi (by omega), fun _ _ _ => rfl, fun h => absurd h (by omega)⟩

theorem Filled.congr {m m' : Mem} {off n h : Nat} {P : UInt8 → Prop} (f : Filled m off n h P)
    (heq : read m' off n = read m off n) : Filled m' off n h P := by
  have hbyte := eq_of_read_eq heq
  have hle := f.le
  refine ⟨hle, fun i hi => ?_, fun i hi hin => ?_, fun hpos => ?_⟩
  · rw [hbyte i (by omega)]
    exact f.text i hi
  · rw [hbyte i hin]
    exact f.nul i hi hin
  · rw [hbyte _ (by omega)]
    exact f.last hpos

/-- **A C-string read of a filled section gives its non-NUL bytes.** -/
theorem Filled.cstr_read {m : Mem} {off n h : Nat} {P : UInt8 → Prop} (f : Filled m off n h P) :
    cstr (read m off n) = read m off h := by
  rw [read_split m off h n f.le, cstr_append_of_ne]
  · have hz : read m (off + h) (n - h) = List.replicate (n - h) 0 := by
      refine List.eq_replicate_iff.2 ⟨length_read _ _ _, fun b hb => ?_⟩
      obtain ⟨i, hi, rfl⟩ := List.mem_map.1 hb
      have hi := List.mem_range.1 hi
      have := f.nul (h + i) (by omega) (by omega)
      rwa [← Nat.add_assoc] at this
    rw [hz]
    cases n - h with
    | zero => simp [cstr]
    | succ k => simp [cstr, List.replicate_succ]
  · intro b hb
    obtain ⟨i, hi, rfl⟩ := List.mem_map.1 hb
    exact f.text i (List.mem_range.1 hi)

theorem write_last (m : Mem) (o : Nat) (bs : List UInt8) (P : UInt8 → Prop) (hne : 0 < bs.length)
    (hlast : ∀ b ∈ bs.getLast?, P b) : P (write m o bs (o + (bs.length - 1))) := by
  rw [write_of_mem _ _ _ _ (by omega) (by omega)]
  apply hlast
  rw [List.getLast?_eq_getElem?, List.getElem?_eq_getElem (by omega)]
  simp

/-- **A write over the section's start keeps it filled, up to the higher end.** -/
theorem Filled.write {m : Mem} {off n h : Nat} {P : UInt8 → Prop} (f : Filled m off n h P) (o : Nat)
    (bs : List UInt8) (ho : o ≤ off) (hend : o + bs.length ≤ off + n) (hne : ∀ b ∈ bs, b ≠ 0)
    (hlast : ∀ b ∈ bs.getLast?, P b) : Filled (write m o bs) off n (max h (o + bs.length - off)) P := by
  have hle := f.le
  refine ⟨by omega, fun i hi => ?_, fun i hi hin => ?_, fun hpos => ?_⟩
  · by_cases hb : off + i < o + bs.length
    · rw [write_of_mem _ _ _ _ (by omega) (by omega)]
      exact hne _ (List.getElem_mem _)
    · rw [write_of_ge _ _ _ _ (by omega)]
      exact f.text i (by omega)
  · rw [write_of_ge _ _ _ _ (by omega)]
    exact f.nul i (by omega) hin
  · -- the section's last byte is the new text's when that ends last, the old one otherwise
    by_cases hb : off + h ≤ o + bs.length ∧ 0 < bs.length ∧ off < o + bs.length
    · have hmax : off + (max h (o + bs.length - off) - 1) = o + (bs.length - 1) := by omega
      rw [hmax]
      exact write_last m o bs P hb.2.1 hlast
    · have hmax : max h (o + bs.length - off) = h := by omega
      rw [hmax] at hpos ⊢
      rw [write_of_ge _ _ _ _ (by omega)]
      exact f.last hpos

end ByteMem

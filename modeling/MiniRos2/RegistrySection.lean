import MiniRos2.RegistryCalls
/-!
# RegistrySection — a section of the region over several writes

Texts are written at a section's start without a terminator, so what a reader finds is the last text and behind it
what longer texts have left.  A section always holds text up to some end and NULs behind it (`Holds`); a text that
reaches this end is read back alone (`Holds.read_covering`), a shorter one is read with a residue that ends in a brace
(`Holds.read_shorter`).
-/
namespace MiniRos2

open ByteMem (Mem Filled)

/-- The section of `n` bytes at `off` holds `h` bytes of text that end in a brace, and NULs behind them. -/
abbrev Holds (m : Mem) (off n h : Nat) : Prop := Filled m off n h (fun b => b = chRBrace)

/-- **A table's text**: without NULs, ending in a brace. -/
structure TableText (t : List UInt8) : Prop where
  noNul : ∀ b ∈ t, b ≠ 0
  last : t.getLast? = some chRBrace

theorem nodesText_tableText {D : Type} [DoubleText D] (n : NodesInfo) : TableText (nodesText D n) :=
  ⟨serialize_ne_zero _ (plain_nodes n), getLast?_object _⟩

theorem topicsText_tableText {D : Type} [DoubleText D] (t : TopicsInfo) : TableText (topicsText D t) :=
  ⟨serialize_ne_zero _ (plain_topics t), getLast?_object _⟩

theorem stringOf_filled {m : Mem} {off n h : Nat} {P : UInt8 → Prop} (f : Filled m off n h P) (hlt : h < n) :
    stringOf (ByteMem.read m off n) = .ok (ByteMem.read m off h) := by
  have hnul : (0 : UInt8) ∈ ByteMem.read m off n :=
    List.mem_map.2 ⟨h, List.mem_range.2 hlt, f.nul h (Nat.le_refl _) hlt⟩
  unfold stringOf
  rw [if_pos hnul, f.cstr_read]

theorem Holds.write_text {m : Mem} {off n h : Nat} (f : Holds m off n h) {t : List UInt8} (ht : TableText t)
    (o : Nat) (ho : o ≤ off) (hend : o + t.length ≤ off + n) :
    Holds (ByteMem.write m o t) off n (max h (o + t.length - off)) :=
  Filled.write f o t ho hend ht.noNul (fun b hb => by
    rw [ht.last] at hb
    cases hb
    rfl)

/-- **A text that reaches the end of what was there** is read back alone. -/
theorem Holds.read_covering {m : Mem} {off n h : Nat} (f : Holds m off n h) {t : List UInt8} (ht : TableText t)
    (hle : h ≤ t.length) (hend : t.length ≤ n) :
    Holds (ByteMem.write m off t) off n t.length ∧ ByteMem.read (ByteMem.write m off t) off t.length = t := by
  have hf := f.write_text ht off (Nat.le_refl _) (by omega)
  have hmax : max h (off + t.length - off) = t.length := by omega
  rw [hmax] at hf
  refine ⟨hf, ?_⟩
  rw [ByteMem.read_write_take _ _ _ _ (Nat.le_refl _), List.take_length]

/-- **A shorter text** is read with the rest of what was there. -/
theorem Holds.read_shorter {m : Mem} {off n h : Nat} (f : Holds m off n h) {t : List UInt8} (ht : TableText t)
    (hlt : t.length < h) :
    Holds (ByteMem.write m off t) off n h ∧
      ∃ r, ByteMem.read (ByteMem.write m off t) off h = t ++ r ∧ r.getLast? = some chRBrace := by
  have hle := f.le
  have hf := f.write_text ht off (Nat.le_refl _) (by omega)
  have hmax : max h (off + t.length - off) = h := by omega
  rw [hmax] at hf
  refine ⟨hf, _, ByteMem.read_write_of_le _ _ _ _ (by omega), ?_⟩
  -- the residue's last byte is the section's last byte of text
  have hlast : (ByteMem.read m (off + t.length) (h - t.length))[h - t.length - 1]? = some chRBrace := by
    rw [ByteMem.getElem?_read _ _ _ _ (by omega), show off + t.length + (h - t.length - 1) = off + (h - 1) by omega,
      f.last (by omega)]
  rw [List.getLast?_eq_getElem?, ByteMem.length_read]
  exact hlast

/-! ## The two sections -/

theorem nodeSection_of_holds {r : Region} {h : Nat} (f : Holds r.mem TOPIC_INFO_SIZE NODE_INFO_SIZE h)
    (hlt : h < NODE_INFO_SIZE) (hsize : TOPIC_INFO_SIZE + NODE_INFO_SIZE ≤ r.size) :
    nodeSection r = .ok (ByteMem.read r.mem TOPIC_INFO_SIZE h) := by
  unfold nodeSection
  rw [Region.read_of_le hsize, Except.ok_bind]
  exact stringOf_filled f hlt

theorem topicSection_of_holds {r : Region} {h : Nat} (f : Holds r.mem 0 TOPIC_INFO_SIZE h)
    (hlt : h < TOPIC_INFO_SIZE) (hsize : TOPIC_INFO_SIZE ≤ r.size) :
    topicSection r = .ok (ByteMem.read r.mem 0 h) := by
  unfold topicSection
  rw [Region.read_of_le (by omega), Except.ok_bind]
  exact stringOf_filled f hlt

/-- The length of the C string in the node section. -/
def nodeSectionLength (r : Region) : Nat := (ByteMem.cstr (ByteMem.read r.mem TOPIC_INFO_SIZE NODE_INFO_SIZE)).length

theorem nodeSectionLength_of_holds {r : Region} {h : Nat} (f : Holds r.mem TOPIC_INFO_SIZE NODE_INFO_SIZE h) :
    nodeSectionLength r = h := by
  unfold nodeSectionLength
  rw [f.cstr_read, ByteMem.length_read]

end MiniRos2

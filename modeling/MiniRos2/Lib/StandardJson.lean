import MiniRos2.Lib.Utf8
/-!
# StandardJson — the grammar of standard JSON

The grammar of RFC 8259 over code points, rule by rule.  A text that is exchanged is encoded in UTF-8 (`Conforms`).  No
control character stands in a text outside its blanks (`Text.plain`), and in an encoded one no byte below 32 but tab,
LF and CR (`Conforms.plain`).
-/
namespace StandardJson

abbrev quotationMark : Char := '\x22'
abbrev reverseSolidus : Char := '\x5c'
abbrev beginObject : Char := '\x7b'
abbrev endObject : Char := '\x7d'

/-- `ws`. -/
def Ws (w : List Char) : Prop := ∀ c ∈ w, c = ' ' ∨ c = '\t' ∨ c = '\n' ∨ c = '\r'

/-- A structural character: `ws c ws`. -/
inductive Structural (c : Char) : List Char → Prop where
  | mk {w w' : List Char} : Ws w → Ws w' → Structural c (w ++ c :: w')

theorem Ws.nil : Ws [] := List.forall_mem_nil _

theorem Structural.self (c : Char) : Structural c [c] := .mk .nil .nil

/-! ## Strings -/

def Unescaped (c : Char) : Prop := 0x20 ≤ c.toNat ∧ c ≠ quotationMark ∧ c ≠ reverseSolidus

def HexDigit (c : Char) : Prop := c.isDigit ∨ ('A' ≤ c ∧ c ≤ 'F') ∨ ('a' ≤ c ∧ c ≤ 'f')

/-- `char`. -/
inductive StringChar : List Char → Prop where
  | unescaped {c : Char} : Unescaped c → StringChar [c]
  | escape {e : Char} : e ∈ [quotationMark, reverseSolidus, '/', 'b', 'f', 'n', 'r', 't'] →
      StringChar [reverseSolidus, e]
  | unicode {h₁ h₂ h₃ h₄ : Char} : HexDigit h₁ → HexDigit h₂ → HexDigit h₃ → HexDigit h₄ →
      StringChar [reverseSolidus, 'u', h₁, h₂, h₃, h₄]

/-- `*char`. -/
inductive StringBody : List Char → Prop where
  | nil : StringBody []
  | cons {s t : List Char} : StringChar s → StringBody t → StringBody (s ++ t)

/-- `string`. -/
inductive Str : List Char → Prop where
  | mk {s : List Char} : StringBody s → Str (quotationMark :: (s ++ [quotationMark]))

/-! ## Numbers -/

/-- `1*DIGIT`. -/
def Digits (ds : List Char) : Prop := ds ≠ [] ∧ ∀ c ∈ ds, c.isDigit

/-- `int`: no zero in front. -/
inductive IntPart : List Char → Prop where
  | zero : IntPart ['0']
  | digits {d : Char} {ds : List Char} : d.isDigit → d ≠ '0' → (∀ c ∈ ds, c.isDigit) → IntPart (d :: ds)

inductive Frac : List Char → Prop where
  | none : Frac []
  | digits {ds : List Char} : Digits ds → Frac ('.' :: ds)

inductive Exp : List Char → Prop where
  | none : Exp []
  | digits {e : Char} {sign ds : List Char} : e = 'e' ∨ e = 'E' → sign = [] ∨ sign = ['-'] ∨ sign = ['+'] →
      Digits ds → Exp (e :: (sign ++ ds))

inductive Number : List Char → Prop where
  | mk {sign int frac exp : List Char} : sign = [] ∨ sign = ['-'] → IntPart int → Frac frac → Exp exp →
      Number (sign ++ (int ++ (frac ++ exp)))

/-! ## Values -/

inductive Sym where
  | value
  /-- `value *( value-separator value )`. -/
  | elements
  /-- `member *( value-separator member )`. -/
  | members

inductive Derives : Sym → List Char → Prop where
  | false : Derives .value ['f', 'a', 'l', 's', 'e']
  | null : Derives .value ['n', 'u', 'l', 'l']
  | true : Derives .value ['t', 'r', 'u', 'e']
  | number {s : List Char} : Number s → Derives .value s
  | string {s : List Char} : Str s → Derives .value s
  | emptyArray {l r : List Char} : Structural '[' l → Structural ']' r → Derives .value (l ++ r)
  | array {l s r : List Char} : Structural '[' l → Derives .elements s → Structural ']' r →
      Derives .value (l ++ (s ++ r))
  | lastElement {s : List Char} : Derives .value s → Derives .elements s
  | element {s c t : List Char} : Derives .value s → Structural ',' c → Derives .elements t →
      Derives .elements (s ++ (c ++ t))
  | emptyObject {l r : List Char} : Structural beginObject l → Structural endObject r → Derives .value (l ++ r)
  | object {l s r : List Char} : Structural beginObject l → Derives .members s → Structural endObject r →
      Derives .value (l ++ (s ++ r))
  | lastMember {k c s : List Char} : Str k → Structural ':' c → Derives .value s → Derives .members (k ++ (c ++ s))
  | member {k c s d t : List Char} : Str k → Structural ':' c → Derives .value s → Structural ',' d →
      Derives .members t → Derives .members (k ++ (c ++ (s ++ (d ++ t))))

/-- `JSON-text`. -/
def Text (t : List Char) : Prop := ∃ w s w', t = w ++ (s ++ w') ∧ Ws w ∧ Derives .value s ∧ Ws w'

/-- **A text as it is exchanged.** -/
def Conforms (bs : List UInt8) : Prop := ∃ t, Text t ∧ bs = Utf8.encode t

theorem Derives.text {s : List Char} (h : Derives .value s) : Text s :=
  ⟨[], s, [], (List.append_nil s).symm, .nil, h, .nil⟩

/-! ## Control characters -/

/-- No control character, or one that blanks may be. -/
def Plain (t : List Char) : Prop := ∀ c ∈ t, 0x20 ≤ c.toNat ∨ c = '\t' ∨ c = '\n' ∨ c = '\r'

theorem Plain.append {s t : List Char} (hs : Plain s) (ht : Plain t) : Plain (s ++ t) := fun c hc =>
  (List.mem_append.1 hc).elim (hs c) (ht c)

theorem Plain.cons {c : Char} {t : List Char} (hc : 0x20 ≤ c.toNat) (ht : Plain t) : Plain (c :: t) :=
  List.forall_mem_cons.2 ⟨.inl hc, ht⟩

theorem Plain.nil : Plain [] := List.forall_mem_nil _

theorem Ws.plain {w : List Char} (h : Ws w) : Plain w := fun c hc => by
  rcases h c hc with rfl | hc
  · exact .inl (by decide)
  · exact .inr hc

theorem Structural.plain {c : Char} {s : List Char} (hc : 0x20 ≤ c.toNat) (h : Structural c s) : Plain s := by
  obtain ⟨hw, hw'⟩ := h
  exact hw.plain.append (.cons hc hw'.plain)

theorem le_of_isDigit {c : Char} (h : c.isDigit) : 0x20 ≤ c.toNat := by
  exact Nat.le_trans (by decide) (Char.isDigit_iff_toNat.1 h).1

theorem plain_of_isDigit {ds : List Char} (h : ∀ c ∈ ds, c.isDigit) : Plain ds := fun c hc =>
  .inl (le_of_isDigit (h c hc))

theorem HexDigit.le {c : Char} (h : HexDigit c) : 0x20 ≤ c.toNat := by
  rcases h with h | ⟨h, -⟩ | ⟨h, -⟩
  · exact le_of_isDigit h
  · exact Nat.le_trans (by decide) (UInt32.le_iff_toNat_le.1 h)
  · exact Nat.le_trans (by decide) (UInt32.le_iff_toNat_le.1 h)

theorem StringChar.plain {s : List Char} (h : StringChar s) : Plain s := by
  cases h with
  | unescaped hc => exact .cons hc.1 .nil
  | @escape e he =>
    have hle : 0x20 ≤ e.toNat := by
      simp only [List.mem_cons, List.not_mem_nil, or_false] at he
      rcases he with rfl | rfl | rfl | rfl | rfl | rfl | rfl | rfl <;> decide
    exact .cons (by decide) (.cons hle .nil)
  | unicode h₁ h₂ h₃ h₄ =>
    exact .cons (by decide) (.cons (by decide) (.cons h₁.le (.cons h₂.le (.cons h₃.le (.cons h₄.le .nil)))))

theorem StringBody.plain {s : List Char} (h : StringBody s) : Plain s := by
  induction h with
  | nil => exact .nil
  | cons hs _ ih => exact hs.plain.append ih

theorem Str.plain {s : List Char} (h : Str s) : Plain s := by
  obtain ⟨hs⟩ := h
  exact .cons (by decide) (hs.plain.append (.cons (by decide) .nil))

theorem IntPart.plain {s : List Char} (h : IntPart s) : Plain s := by
  cases h with
  | zero => exact .cons (by decide) .nil
  | digits hd _ hds => exact .cons (le_of_isDigit hd) (plain_of_isDigit hds)

theorem Frac.plain {s : List Char} (h : Frac s) : Plain s := by
  cases h with
  | none => exact .nil
  | digits hd => exact .cons (by decide) (plain_of_isDigit hd.2)

theorem Exp.plain {s : List Char} (h : Exp s) : Plain s := by
  cases h with
  | none => exact .nil
  | @digits e sign ds he hsign hd =>
    have hplain : Plain sign := by
      rcases hsign with rfl | rfl | rfl
      · exact .nil
      · exact .cons (by decide) .nil
      · exact .cons (by decide) .nil
    rcases he with rfl | rfl <;> exact .cons (by decide) (hplain.append (plain_of_isDigit hd.2))

theorem Number.plain {s : List Char} (h : Number s) : Plain s := by
  obtain ⟨hsign, hint, hfrac, hexp⟩ := h
  rcases hsign with rfl | rfl
  · exact Plain.nil.append (hint.plain.append (hfrac.plain.append hexp.plain))
  · exact (Plain.cons (by decide) .nil).append (hint.plain.append (hfrac.plain.append hexp.plain))

theorem Derives.plain {x : Sym} {s : List Char} (h : Derives x s) : Plain s := by
  induction h with
  | false =>
    exact .cons (by decide) (.cons (by decide) (.cons (by decide) (.cons (by decide) (.cons (by decide) .nil))))
  | null => exact .cons (by decide) (.cons (by decide) (.cons (by decide) (.cons (by decide) .nil)))
  | true => exact .cons (by decide) (.cons (by decide) (.cons (by decide) (.cons (by decide) .nil)))
  | number h => exact h.plain
  | string h => exact h.plain
  | emptyArray l r => exact (l.plain (by decide)).append (r.plain (by decide))
  | array l _ r ih => exact (l.plain (by decide)).append (ih.append (r.plain (by decide)))
  | lastElement _ ih => exact ih
  | element _ c _ ih ih' => exact ih.append ((c.plain (by decide)).append ih')
  | emptyObject l r => exact (l.plain (by decide)).append (r.plain (by decide))
  | object l _ r ih => exact (l.plain (by decide)).append (ih.append (r.plain (by decide)))
  | lastMember k c _ ih => exact k.plain.append ((c.plain (by decide)).append ih)
  | member k c _ d _ ih ih' =>
    exact k.plain.append ((c.plain (by decide)).append (ih.append ((d.plain (by decide)).append ih')))

theorem Text.plain {t : List Char} (h : Text t) : Plain t := by
  obtain ⟨w, s, w', rfl, hw, hs, hw'⟩ := h
  exact hw.plain.append (hs.plain.append hw'.plain)

/-- **No bare control character in what is exchanged.** -/
theorem Conforms.plain {bs : List UInt8} (h : Conforms bs) : ∀ b ∈ bs, 32 ≤ b ∨ b = 9 ∨ b = 10 ∨ b = 13 := by
  obtain ⟨t, ht, rfl⟩ := h
  intro b hb
  by_cases hlt : b < 128
  · obtain ⟨c, hc, hcb⟩ := Utf8.mem_of_mem_encode hb hlt
    rcases ht.plain c hc with h | rfl | rfl | rfl
    · exact .inl (UInt8.le_iff_toNat_le.2 (by rw [← hcb]; exact h))
    · exact .inr (.inl (UInt8.toNat_inj.1 hcb.symm))
    · exact .inr (.inr (.inl (UInt8.toNat_inj.1 hcb.symm)))
    · exact .inr (.inr (.inr (UInt8.toNat_inj.1 hcb.symm)))
  · exact .inl (UInt8.le_trans (by decide) (UInt8.not_lt.1 hlt))

end StandardJson

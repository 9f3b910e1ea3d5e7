import MiniRos2.JsonComplete
/-!
# JsonEscapes — the escapes of a text, and the one that the parser lacks

`escapes` scans a text for the bytes behind the backslashes of its strings.  A derived text can be scanned part by part
(`DerivesBy.escapes_append`), its escapes are those of its grammar (`DerivesBy.exists_escape`), and a grammar that has
them derives it too (`DerivesBy.imp`).  So the parser takes the format's texts without `\b` and throws on those with
one (`text_iff_format`), and decides the format at every other text (`decidesFormat_iff`).
-/
namespace MiniRos2

/-! ## The scan -/

/-- The bytes behind the backslashes of a text's strings, from outside a string on or (`true`) from inside one on. -/
def escapesFrom : Bool → List UInt8 → List UInt8
  | _, [] => []
  | false, b :: l => escapesFrom (b == chQuote) l
  | true, b :: l =>
    if b = chQuote then escapesFrom false l
    else if b = chBackslash then
      match l with
      | [] => []
      | e :: l' => e :: escapesFrom true l'
    else escapesFrom true l

def escapes (text : List UInt8) : List UInt8 := escapesFrom false text

theorem escapes_cons {b : UInt8} (h : b ≠ chQuote) (l : List UInt8) : escapes (b :: l) = escapes l := by
  rw [escapes, escapesFrom, beq_eq_false_iff_ne.2 h, escapes]

theorem escapes_nil : escapes [] = [] := rfl

theorem escapes_quote (l : List UInt8) : escapes (chQuote :: l) = escapesFrom true l := rfl

theorem escapesFrom_quote (l : List UInt8) : escapesFrom true (chQuote :: l) = escapes l := by
  rw [escapesFrom.eq_def]
  rfl

theorem escapesFrom_plain {b : UInt8} (hq : b ≠ chQuote) (hb : b ≠ chBackslash) (l : List UInt8) :
    escapesFrom true (b :: l) = escapesFrom true l := by
  rw [escapesFrom.eq_def]
  simp only [if_neg hq, if_neg hb]

theorem escapesFrom_escape (e : UInt8) (l : List UInt8) :
    escapesFrom true (chBackslash :: e :: l) = e :: escapesFrom true l := by
  rw [escapesFrom.eq_def]
  simp only [if_neg (show ¬ chBackslash = chQuote by decide), if_true]

/-- What has no quote is outside every string. -/
def QuoteFree (s : List UInt8) : Prop := ∀ b ∈ s, b ≠ chQuote

theorem QuoteFree.append {s t : List UInt8} (hs : QuoteFree s) (ht : QuoteFree t) : QuoteFree (s ++ t) :=
  List.forall_mem_append.2 ⟨hs, ht⟩

theorem QuoteFree.cons {b : UInt8} {s : List UInt8} (hb : b ≠ chQuote) (hs : QuoteFree s) : QuoteFree (b :: s) :=
  List.forall_mem_cons.2 ⟨hb, hs⟩

theorem QuoteFree.nil : QuoteFree [] := fun _ h => by cases h

theorem QuoteFree.escapes_append : ∀ {s : List UInt8}, QuoteFree s → ∀ t : List UInt8,
    escapes (s ++ t) = escapes t
  | [], _, _ => rfl
  | b :: s, h, t => by
    obtain ⟨hb, hs⟩ := List.forall_mem_cons.1 h
    rw [List.cons_append, escapes_cons hb, QuoteFree.escapes_append hs]

theorem QuoteFree.escapes_eq {s : List UInt8} (h : QuoteFree s) : escapes s = [] := by
  have hnil := h.escapes_append []
  rwa [List.append_nil] at hnil

theorem quoteFree_words : QuoteFree (utf8 "true") ∧ QuoteFree (utf8 "false") ∧ QuoteFree (utf8 "null") := by
  unfold QuoteFree
  decide +kernel

theorem Blank.quoteFree {w : List UInt8} (h : Blank w) : QuoteFree w := by
  rintro b hb rfl
  exact absurd (h _ hb) (by decide)

/-- A byte that a number can have. -/
def NumberByte (b : UInt8) : Prop :=
  Decimal.isDigit b = true ∨ b ∈ [chMinus, chPlus, chDot, chE, chUpE]

theorem NumberByte.ne_quote {b : UInt8} : NumberByte b → b ≠ chQuote := by
  rintro h rfl
  exact absurd h (by unfold NumberByte; decide)

theorem NumberByte.le {b : UInt8} : NumberByte b → 32 ≤ b := by
  rintro (h | h)
  · rw [UInt8.le_iff_toNat_le]
    exact Nat.le_trans (by decide) (Decimal.toNat_of_isDigit h).1
  · simp only [List.mem_cons, List.not_mem_nil, or_false] at h
    rcases h with rfl | rfl | rfl | rfl | rfl <;> decide

theorem Digits.numberByte {ds : List UInt8} (h : Digits ds) : ∀ b ∈ ds, NumberByte b := fun b hb => .inl (h.2 b hb)

theorem Sign.numberByte {sign : List UInt8} (h : Sign sign) : ∀ b ∈ sign, NumberByte b := by
  cases h with
  | none => exact List.forall_mem_nil _
  | minus => exact List.forall_mem_singleton.2 (.inr (by decide))

theorem Fraction.numberByte {f : Bool} {frac : List UInt8} (h : Fraction f frac) : ∀ b ∈ frac, NumberByte b := by
  cases h with
  | none => exact List.forall_mem_nil _
  | digits hd => exact List.forall_mem_cons.2 ⟨.inr (by decide), hd.numberByte⟩

theorem Exponent.numberByte {e : Bool} {exp : List UInt8} (h : Exponent e exp) : ∀ b ∈ exp, NumberByte b := by
  cases h with
  | none => exact List.forall_mem_nil _
  | digits hE hsign hd =>
    refine List.forall_mem_cons.2 ⟨.inr (by rcases hE with rfl | rfl <;> decide),
      List.forall_mem_append.2 ⟨?_, hd.numberByte⟩⟩
    rcases hsign with rfl | rfl | rfl
    · exact List.forall_mem_nil _
    · exact List.forall_mem_singleton.2 (.inr (by decide))
    · exact List.forall_mem_singleton.2 (.inr (by decide))

/-- **The bytes of a number**, with a fraction and an exponent or without. -/
theorem number_numberByte {sign ds frac exp : List UInt8} {f e : Bool} (hs : Sign sign) (hd : Digits ds)
    (hf : Fraction f frac) (he : Exponent e exp) : ∀ b ∈ sign ++ (ds ++ (frac ++ exp)), NumberByte b :=
  List.forall_mem_append.2 ⟨hs.numberByte, List.forall_mem_append.2 ⟨hd.numberByte,
    List.forall_mem_append.2 ⟨hf.numberByte, he.numberByte⟩⟩⟩

theorem int_numberByte {sign ds : List UInt8} (hs : Sign sign) (hd : Digits ds) : ∀ b ∈ sign ++ ds, NumberByte b :=
  List.forall_mem_append.2 ⟨hs.numberByte, hd.numberByte⟩

/-! ## The escapes of a derived text -/

section Derived

variable {E E' : UInt8 → UInt8 → Prop}

theorem StringBodyBy.escapes_append {s u : List UInt8} (h : StringBodyBy E s u) (t : List UInt8) :
    escapesFrom true (s ++ chQuote :: t) = escapesFrom true s ++ escapes t := by
  induction h with
  | nil => exact escapesFrom_quote t
  | plain hq hb _ ih => rw [List.cons_append, escapesFrom_plain hq hb, escapesFrom_plain hq hb, ih]
  | escape _ _ ih =>
    rw [List.cons_append, List.cons_append, escapesFrom_escape, escapesFrom_escape, ih, List.cons_append]

theorem StringBodyBy.exists_escape {s u : List UInt8} (h : StringBodyBy E s u) :
    ∀ e ∈ escapesFrom true s, ∃ b, E e b := by
  induction h with
  | nil => intro e he; cases he
  | plain hq hb _ ih => rwa [escapesFrom_plain hq hb]
  | escape he _ ih =>
    rw [escapesFrom_escape]
    exact List.forall_mem_cons.2 ⟨⟨_, he⟩, ih⟩

theorem StringBodyBy.imp {s u : List UInt8} (h : StringBodyBy E s u)
    (hE : ∀ e ∈ escapesFrom true s, ∀ b, E e b → E' e b) : StringBodyBy E' s u := by
  induction h with
  | nil => exact .nil
  | plain hq hb _ ih =>
    rw [escapesFrom_plain hq hb] at hE
    exact .plain hq hb (ih hE)
  | escape he _ ih =>
    rw [escapesFrom_escape] at hE
    obtain ⟨hhead, htail⟩ := List.forall_mem_cons.1 hE
    exact .escape (hhead _ he) (ih htail)

variable {D : Type} [DoubleText D]

/-- **A derived text is scanned apart from what stands behind it.** -/
theorem DerivesBy.escapes_append {x : Sym D} {s : List UInt8} (h : DerivesBy E x s) :
    ∀ t, escapes (s ++ t) = escapes s ++ escapes t := by
  have hquoteFree : ∀ {s : List UInt8}, QuoteFree s → ∀ t, escapes (s ++ t) = escapes s ++ escapes t :=
    fun hs t => by rw [hs.escapes_append, hs.escapes_eq, List.nil_append]
  induction h with
  | true => exact hquoteFree quoteFree_words.1
  | false => exact hquoteFree quoteFree_words.2.1
  | null => exact hquoteFree quoteFree_words.2.2
  | int hs hd => exact hquoteFree (fun b hb => (int_numberByte hs hd b hb).ne_quote)
  | double hs hd hf he => exact hquoteFree (fun b hb => (number_numberByte hs hd hf he b hb).ne_quote)
  | string hs =>
    intro t
    simp only [List.cons_append, List.append_assoc, List.nil_append, escapes_quote, hs.escapes_append, escapes_nil,
      List.append_nil]
  | emptyArray hw => exact hquoteFree (.cons (by decide) (hw.quoteFree.append (.cons (by decide) .nil)))
  | emptyObject hw => exact hquoteFree (.cons (by decide) (hw.quoteFree.append (.cons (by decide) .nil)))
  | array hw _ ih =>
    intro t
    simp (disch := decide) only [List.cons_append, List.append_assoc, List.nil_append, escapes_cons,
      hw.quoteFree.escapes_append, ih, escapes_nil, List.append_nil]
  | object hw _ ih =>
    intro t
    simp (disch := decide) only [List.cons_append, List.append_assoc, List.nil_append, escapes_cons,
      hw.quoteFree.escapes_append, ih, escapes_nil, List.append_nil]
  | lastElem _ hw ih =>
    intro t
    simp only [List.append_assoc, hw.quoteFree.escapes_append, ih, hw.quoteFree.escapes_eq, List.append_nil]
  | elem _ hw hw' _ ih iht =>
    intro t
    simp (disch := decide) only [List.cons_append, List.append_assoc, escapes_cons, hw.quoteFree.escapes_append,
      hw'.quoteFree.escapes_append, ih, iht]
  | lastMember hk hw hw' _ hw'' ih =>
    intro t
    simp (disch := decide) only [List.cons_append, List.append_assoc, escapes_cons, escapes_quote, hk.escapes_append,
      hw.quoteFree.escapes_append, hw'.quoteFree.escapes_append, hw''.quoteFree.escapes_append, ih,
      hw''.quoteFree.escapes_eq, List.append_nil]
  | member hk hw hw' _ hw'' hw₃ _ ih iht =>
    intro t
    simp (disch := decide) only [List.cons_append, List.append_assoc, escapes_cons, escapes_quote, hk.escapes_append,
      hw.quoteFree.escapes_append, hw'.quoteFree.escapes_append, hw''.quoteFree.escapes_append,
      hw₃.quoteFree.escapes_append, ih, iht]

/-! What each symbol that holds another adds to its escapes. -/

theorem DerivesBy.escapes_between {x : Sym D} {s w : List UInt8} (h : DerivesBy E x s) (hw : Blank w) {a b : UInt8}
    (ha : a ≠ chQuote) (hb : b ≠ chQuote) : escapes (a :: (w ++ (s ++ [b]))) = escapes s := by
  rw [escapes_cons ha, hw.quoteFree.escapes_append, h.escapes_append, escapes_cons hb, escapes_nil, List.append_nil]

theorem DerivesBy.escapes_blank {x : Sym D} {s w : List UInt8} (h : DerivesBy E x s) (hw : Blank w) :
    escapes (s ++ w) = escapes s := by
  rw [h.escapes_append, hw.quoteFree.escapes_eq, List.append_nil]

theorem DerivesBy.escapes_comma {x : Sym D} {s w w' : List UInt8} (h : DerivesBy E x s) (hw : Blank w)
    (hw' : Blank w') (t : List UInt8) : escapes (s ++ (w ++ (chComma :: (w' ++ t)))) = escapes s ++ escapes t := by
  rw [h.escapes_append, hw.quoteFree.escapes_append, escapes_cons (by decide), hw'.quoteFree.escapes_append]

theorem StringBodyBy.escapes_key {ks k w w' : List UInt8} (hk : StringBodyBy E ks k) (hw : Blank w) (hw' : Blank w')
    (t : List UInt8) :
    escapes (chQuote :: (ks ++ (chQuote :: (w ++ (chColon :: (w' ++ t)))))) = escapesFrom true ks ++ escapes t := by
  rw [escapes_quote, hk.escapes_append, hw.quoteFree.escapes_append, escapes_cons (by decide),
    hw'.quoteFree.escapes_append]

theorem StringBodyBy.escapes_string {s u : List UInt8} (h : StringBodyBy E s u) :
    escapes (chQuote :: (s ++ [chQuote])) = escapesFrom true s := by
  rw [escapes_quote, h.escapes_append, escapes_nil, List.append_nil]

/-- **The escapes of a derived text are escapes of the grammar.** -/
theorem DerivesBy.exists_escape {x : Sym D} {s : List UInt8} (h : DerivesBy E x s) :
    ∀ e ∈ escapes s, ∃ b, E e b := by
  have hquoteFree : ∀ {s : List UInt8}, QuoteFree s → ∀ e ∈ escapes s, ∃ b, E e b := by
    intro s hs e he
    rw [hs.escapes_eq] at he
    cases he
  induction h with
  | true => exact hquoteFree quoteFree_words.1
  | false => exact hquoteFree quoteFree_words.2.1
  | null => exact hquoteFree quoteFree_words.2.2
  | int hs hd => exact hquoteFree (fun b hb => (int_numberByte hs hd b hb).ne_quote)
  | double hs hd hf he => exact hquoteFree (fun b hb => (number_numberByte hs hd hf he b hb).ne_quote)
  | string hs =>
    rw [hs.escapes_string]
    exact hs.exists_escape
  | emptyArray hw => exact hquoteFree (.cons (by decide) (hw.quoteFree.append (.cons (by decide) .nil)))
  | emptyObject hw => exact hquoteFree (.cons (by decide) (hw.quoteFree.append (.cons (by decide) .nil)))
  | array hw hs ih => rwa [hs.escapes_between hw (by decide) (by decide)]
  | object hw hs ih => rwa [hs.escapes_between hw (by decide) (by decide)]
  | lastElem hs hw ih => rwa [hs.escapes_blank hw]
  | elem hs hw hw' _ ih iht =>
    rw [hs.escapes_comma hw hw']
    exact List.forall_mem_append.2 ⟨ih, iht⟩
  | lastMember hk hw hw' hs hw'' ih =>
    rw [hk.escapes_key hw hw', hs.escapes_blank hw'']
    exact List.forall_mem_append.2 ⟨hk.exists_escape, ih⟩
  | member hk hw hw' hs hw'' hw₃ _ ih iht =>
    rw [hk.escapes_key hw hw', hs.escapes_comma hw'' hw₃]
    exact List.forall_mem_append.2 ⟨hk.exists_escape, List.forall_mem_append.2 ⟨ih, iht⟩⟩

/-- **A text is derived by every grammar that has its escapes.** -/
theorem DerivesBy.imp {x : Sym D} {s : List UInt8} (h : DerivesBy E x s) :
    (∀ e ∈ escapes s, ∀ b, E e b → E' e b) → DerivesBy E' x s := by
  induction h with
  | true => exact fun _ => .true
  | false => exact fun _ => .false
  | null => exact fun _ => .null
  | int hs hd hlo hhi => exact fun _ => .int hs hd hlo hhi
  | double hs hd hf he hfe hst => exact fun _ => .double hs hd hf he hfe hst
  | string hs =>
    rw [hs.escapes_string]
    exact fun hE => .string (hs.imp hE)
  | emptyArray hw => exact fun _ => .emptyArray hw
  | emptyObject hw => exact fun _ => .emptyObject hw
  | array hw hs ih =>
    rw [hs.escapes_between hw (by decide) (by decide)]
    exact fun hE => .array hw (ih hE)
  | object hw hs ih =>
    rw [hs.escapes_between hw (by decide) (by decide)]
    exact fun hE => .object hw (ih hE)
  | lastElem hs hw ih =>
    rw [hs.escapes_blank hw]
    exact fun hE => .lastElem (ih hE) hw
  | elem hs hw hw' _ ih iht =>
    rw [hs.escapes_comma hw hw', List.forall_mem_append]
    exact fun hE => .elem (ih hE.1) hw hw' (iht hE.2)
  | lastMember hk hw hw' hs hw'' ih =>
    rw [hk.escapes_key hw hw', hs.escapes_blank hw'', List.forall_mem_append]
    exact fun hE => .lastMember (hk.imp hE.1) hw hw' (ih hE.2) hw''
  | member hk hw hw' hs hw'' hw₃ _ ih iht =>
    rw [hk.escapes_key hw hw', hs.escapes_comma hw'' hw₃, List.forall_mem_append, List.forall_mem_append]
    exact fun hE => .member (hk.imp hE.1) hw hw' (ih hE.2.1) hw'' hw₃ (iht hE.2.2)

/-! ## The format and the parser -/

/-- The text has the escape `\b` in one of its strings. -/
def HasBackspace (text : List UInt8) : Prop := 98 ∈ escapes text

instance (text : List UInt8) : Decidable (HasBackspace text) := inferInstanceAs (Decidable (98 ∈ escapes text))

theorem not_escape_b (b : UInt8) : ¬ Escape 98 b := by
  intro h
  cases h

theorem FormatEscape.parsed_of_ne {e b : UInt8} (h : FormatEscape e b) (he : e ≠ 98) : Escape e b := by
  cases h with
  | parsed h => exact h
  | b => exact absurd rfl he

theorem Derives.not_hasBackspace {x : Sym D} {s : List UInt8} (h : Derives x s) : ¬ HasBackspace s := by
  intro hb
  obtain ⟨b, hE⟩ := h.exists_escape _ hb
  exact not_escape_b b hE

theorem derives_iff_format {x : Sym D} {s : List UInt8} :
    Derives x s ↔ DerivesBy FormatEscape x s ∧ ¬ HasBackspace s := by
  constructor
  · intro h
    exact ⟨h.imp (fun _ _ _ hE => .parsed hE), h.not_hasBackspace⟩
  · rintro ⟨h, hb⟩
    refine h.imp (fun e he b hE => hE.parsed_of_ne ?_)
    rintro rfl
    exact hb he

theorem TextBy.escapes_eq {json : List UInt8} {v : JsonValue D} {w s w' : List UInt8} (h : json = w ++ (s ++ w'))
    (hw : Blank w) (hs : DerivesBy E (.value v) s) (hw' : Blank w') : escapes json = escapes s := by
  rw [h, hw.quoteFree.escapes_append, hs.escapes_blank hw']

/-- **The texts that the parser takes are those of the format without the escape `\b`.** -/
theorem text_iff_format {json : List UInt8} {v : JsonValue D} :
    Text json v ↔ TextBy FormatEscape json v ∧ ¬ HasBackspace json := by
  constructor
  · rintro ⟨w, s, w', heq, hw, hs, hw'⟩
    have hf := derives_iff_format.1 hs
    refine ⟨⟨w, s, w', heq, hw, hf.1, hw'⟩, ?_⟩
    rw [HasBackspace, TextBy.escapes_eq heq hw hs hw']
    exact hf.2
  · rintro ⟨⟨w, s, w', heq, hw, hs, hw'⟩, hb⟩
    rw [HasBackspace, TextBy.escapes_eq heq hw hs hw'] at hb
    exact ⟨w, s, w', heq, hw, derives_iff_format.2 ⟨hs, hb⟩, hw'⟩

theorem deserialize_iff_format {json : List UInt8} {v : JsonValue D} :
    deserialize json = .ok v ↔ TextBy FormatEscape json v ∧ ¬ HasBackspace json :=
  ((deserialize_decides json).1 v).trans text_iff_format

/-- **A text of the format with the escape `\b` is thrown at**, whatever stands behind it. -/
theorem deserialize_throws_of_backspace {x : Sym D} {s : List UInt8} (h : DerivesBy FormatEscape x s)
    (hb : HasBackspace s) (t : List UInt8) :
    ∃ e, (deserialize (s ++ t) : Except Abort (JsonValue D)) = .error (.throws e) := by
  refine (deserialize_decides (s ++ t)).2.resolve_left ?_
  rintro ⟨v, hv⟩
  refine (text_iff_format.1 hv).2 ?_
  rw [HasBackspace, h.escapes_append]
  exact List.mem_append_left _ hb

/-- **The parser decides the format at a text**: it returns the values that the text is one of, and throws if there is
none. -/
def DecidesFormat (D : Type) [DoubleText D] (json : List UInt8) : Prop :=
  (∀ v : JsonValue D, deserialize json = .ok v ↔ TextBy FormatEscape json v) ∧
    ((∃ v : JsonValue D, TextBy FormatEscape json v) ∨
      ∃ e, (deserialize json : Except Abort (JsonValue D)) = .error (.throws e))

/-- The text is one of the format and has the escape `\b` in one of its strings. -/
def UsesBackspace (D : Type) [DoubleText D] (json : List UInt8) : Prop :=
  HasBackspace json ∧ ∃ v : JsonValue D, TextBy FormatEscape json v

/-- **The parser decides the format exactly at the texts that do not use `\b`.** -/
theorem decidesFormat_iff (json : List UInt8) : DecidesFormat D json ↔ ¬ UsesBackspace D json := by
  constructor
  · rintro ⟨h, -⟩ ⟨hb, v, hv⟩
    exact (deserialize_iff_format.1 ((h v).2 hv)).2 hb
  · intro h
    refine ⟨fun v => ?_, ?_⟩
    · rw [deserialize_iff_format, and_iff_left_iff_imp]
      exact fun hv hb => h ⟨hb, v, hv⟩
    · rcases (deserialize_decides (D := D) json).2 with ⟨v, hv⟩ | he
      · exact .inl ⟨v, (text_iff_format.1 hv).1⟩
      · exact .inr he

/-- A string of one byte, the backspace, as `serialize` writes it. -/
theorem not_always_decidesFormat : ¬ ∀ json : List UInt8, DecidesFormat (List UInt8) json := by
  intro h
  have htext : TextBy FormatEscape [chQuote, chBackslash, 98, chQuote] (.string [8] : JsonValue (List UInt8)) :=
    ⟨[], _, [], rfl, nofun, .string (.escape .b .nil), nofun⟩
  have hok := ((h [chQuote, chBackslash, 98, chQuote]).1 _).2 htext
  exact (deserialize_iff_format.1 hok).2 (by decide +kernel)

end Derived

end MiniRos2

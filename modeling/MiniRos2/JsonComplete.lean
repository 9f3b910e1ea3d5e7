import MiniRos2.JsonSound
/-!
# JsonComplete — the parser accepts every text of a value and throws on every other input

A derivation's text is parsed whatever follows it, as long as what follows a number does not continue it
(`NumberStop`); the depth bound three times the text's length suffices (`parses_of_derives`).  On every input the
parser returns or throws: the bound that `deserialize` passes is never too small (`deserialize_onlyThrows`).
-/
namespace MiniRos2

/-- The text does not start with a byte that satisfies `p`. -/
def HeadNot (p : UInt8 → Bool) (l : List UInt8) : Prop := ∀ b ∈ l.head?, p b = false

/-- What follows a number does not continue it. -/
def NumberStop (rest : List UInt8) : Prop :=
  HeadNot (fun b => Decimal.isDigit b || b == chDot || b == chE || b == chUpE) rest

theorem HeadNot.mono {p q : UInt8 → Bool} {l : List UInt8} (h : HeadNot p l) (hpq : ∀ b, p b = false → q b = false) :
    HeadNot q l := fun b hb => hpq b (h b hb)

theorem headNot_nil (p : UInt8 → Bool) : HeadNot p [] := fun b hb => by cases hb

theorem headNot_cons {p : UInt8 → Bool} {b : UInt8} {l : List UInt8} : HeadNot p (b :: l) ↔ p b = false := by
  simp [HeadNot]

theorem isSpace_cases {b : UInt8} (h : isSpace b = true) : b = 32 ∨ b = 9 ∨ b = 10 ∨ b = 13 := by
  simpa [isSpace, or_assoc] using h

theorem numberStop_blank {w l : List UInt8} (hw : Blank w) (hl : NumberStop l) : NumberStop (w ++ l) := by
  cases w with
  | nil => exact hl
  | cons b w =>
    rw [List.cons_append, NumberStop, headNot_cons]
    rcases isSpace_cases (hw b List.mem_cons_self) with rfl | rfl | rfl | rfl <;> decide

theorem Cursor.skipWhile_append {p : UInt8 → Bool} {w l : List UInt8} (i : Nat) (hw : ∀ b ∈ w, p b = true)
    (hl : HeadNot p l) : Cursor.skipWhile p ⟨i, w ++ l⟩ = ⟨i + w.length, l⟩ := by
  have htake : l.takeWhile p = [] := by
    cases l with
    | nil => rfl
    | cons b l => exact List.takeWhile_cons_of_neg (by simp [headNot_cons.1 hl])
  have hdrop : l.dropWhile p = l := by
    cases l with
    | nil => rfl
    | cons b l => exact List.dropWhile_cons_of_neg (by simp [headNot_cons.1 hl])
  rw [Cursor.skipWhile_eq, List.takeWhile_append_of_pos hw, List.dropWhile_append_of_pos hw, htake, hdrop,
    List.append_nil]

theorem skipWhitespace_append {w l : List UInt8} (i : Nat) (hw : Blank w) (hl : HeadNot isSpace l) :
    skipWhitespace ⟨i, w ++ l⟩ = ⟨i + w.length, l⟩ := Cursor.skipWhile_append i hw hl

theorem skipWhitespace_stay {l : List UInt8} (i : Nat) (hl : HeadNot isSpace l) : skipWhitespace ⟨i, l⟩ = ⟨i, l⟩ :=
  skipWhitespace_append i (w := []) (fun b hb => by cases hb) hl

@[simp] theorem Cursor.cur_cons (i : Nat) (b : UInt8) (l : List UInt8) : Cursor.cur ⟨i, b :: l⟩ = b := rfl
@[simp] theorem Cursor.atEnd_cons (i : Nat) (b : UInt8) (l : List UInt8) : Cursor.atEnd ⟨i, b :: l⟩ = false := rfl
@[simp] theorem Cursor.atEnd_nil (i : Nat) : Cursor.atEnd ⟨i, []⟩ = true := rfl
@[simp] theorem Cursor.next_cons (i : Nat) (b : UInt8) (l : List UInt8) : Cursor.next ⟨i, b :: l⟩ = ⟨i + 1, l⟩ := rfl

/-! ## Strings and numbers -/

theorem parseStringFrom_complete {s t : List UInt8} (h : StringBody s t) : ∀ (i : Nat) (acc rest : List UInt8),
    parseStringFrom i acc (s ++ chQuote :: rest) = .ok (acc ++ t, ⟨i + s.length + 1, rest⟩) := by
  induction h with
  | nil =>
    intro i acc rest
    rw [List.nil_append, parseStringFrom.eq_def]
    simp
  | plain hq hb _ ih =>
    intro i acc rest
    rw [List.cons_append, parseStringFrom.eq_def]
    simp only [if_neg hq, if_neg hb]
    rw [ih, List.append_assoc, List.length_cons]
    congr 3
    omega
  | escape he _ ih =>
    intro i acc rest
    rw [List.cons_append, List.cons_append, parseStringFrom.eq_def]
    simp only [if_neg (show ¬ chBackslash = chQuote by decide), if_true, unescape_of_escape he]
    rw [ih]
    simp only [List.append_assoc, List.cons_append, List.nil_append, List.length_cons, Except.ok.injEq, Prod.mk.injEq,
      Cursor.mk.injEq, true_and, and_true]
    omega

theorem parseString_complete {s t : List UInt8} (h : StringBody s t) (i : Nat) (rest : List UInt8) :
    parseString ⟨i, chQuote :: (s ++ chQuote :: rest)⟩ = .ok (t, ⟨i + s.length + 2, rest⟩) := by
  unfold parseString
  rw [if_neg (by simp), Cursor.next_cons, parseStringFrom_complete h]
  simp only [List.nil_append]
  congr 3
  omega

theorem Digits.exists_cons {ds : List UInt8} (h : Digits ds) :
    ∃ d ds', ds = d :: ds' ∧ Decimal.isDigit d = true := by
  obtain ⟨d, ds', rfl⟩ := List.exists_cons_of_ne_nil h.1
  exact ⟨d, ds', rfl, h.2 d List.mem_cons_self⟩

theorem skipDigits_append {ds l : List UInt8} (i : Nat) (hd : Digits ds) (hl : HeadNot Decimal.isDigit l) :
    skipDigits ⟨i, ds ++ l⟩ = ⟨i + ds.length, l⟩ := Cursor.skipWhile_append i hd.2 hl

theorem parseSign_complete {sign ds l : List UInt8} (i : Nat) (hs : Sign sign) (hd : Digits ds) :
    parseSign ⟨i, sign ++ (ds ++ l)⟩ = .ok ⟨i + sign.length, ds ++ l⟩ := by
  obtain ⟨d, ds', rfl, hdig⟩ := hd.exists_cons
  unfold parseSign
  cases hs with
  | none => simp [isDigit_ne hdig chMinus (by decide)]
  | minus => simp [hdig]

theorem parseFraction_complete {f : Bool} {frac l : List UInt8} (i : Nat) (hf : Fraction f frac)
    (hl : HeadNot (fun b => Decimal.isDigit b || b == chDot) l) :
    parseFraction ⟨i, frac ++ l⟩ = .ok (f, ⟨i + frac.length, l⟩) := by
  unfold parseFraction
  cases hf with
  | none =>
    cases l with
    | nil => simp
    | cons b l =>
      have hb := headNot_cons.1 hl
      simp only [Bool.or_eq_false_iff, beq_eq_false_iff_ne] at hb
      simp [hb.2]
  | digits hd =>
    have hskip := skipDigits_append (i + 1) hd (hl.mono (fun b hb => by
      simp only [Bool.or_eq_false_iff] at hb; exact hb.1))
    obtain ⟨d, ds', rfl, hdig⟩ := hd.exists_cons
    simp only [List.cons_append] at hskip
    simp [hdig, hskip, Nat.add_comm, Nat.add_left_comm]

theorem parseExponent_complete {e : Bool} {exp l : List UInt8} (i : Nat) (he : Exponent e exp) (hl : NumberStop l) :
    parseExponent ⟨i, exp ++ l⟩ = .ok (e, ⟨i + exp.length, l⟩) := by
  unfold parseExponent
  cases he with
  | none =>
    cases l with
    | nil => simp
    | cons b l =>
      have hb := headNot_cons.1 hl
      simp only [Bool.or_eq_false_iff, beq_eq_false_iff_ne] at hb
      simp [hb.1.2, hb.2]
  | @digits e sign ds hE hsign hd =>
    have hskip := fun j => skipDigits_append j hd (hl.mono (fun b hb => by
      simp only [Bool.or_eq_false_iff] at hb; exact hb.1.1.1))
    obtain ⟨d, ds', rfl, hdig⟩ := hd.exists_cons
    have hp := isDigit_ne hdig chPlus (by decide)
    have hm := isDigit_ne hdig chMinus (by decide)
    simp only [List.cons_append] at hskip
    rcases hE with rfl | rfl <;> rcases hsign with rfl | rfl | rfl <;>
      simp [hp, hm, hdig, hskip, Nat.add_comm, Nat.add_left_comm]


section Complete

variable {D : Type} [DoubleText D]

theorem headNot_digit_fraction {f e : Bool} {frac exp rest : List UInt8} (hf : Fraction f frac) (he : Exponent e exp)
    (hr : NumberStop rest) : HeadNot Decimal.isDigit (frac ++ (exp ++ rest)) ∧
      HeadNot (fun b => Decimal.isDigit b || b == chDot) (exp ++ rest) := by
  have hexp : HeadNot (fun b => Decimal.isDigit b || b == chDot) (exp ++ rest) := by
    cases he with
    | none =>
      exact hr.mono (fun b hb => by simp only [Bool.or_eq_false_iff] at hb ⊢; exact hb.1.1)
    | digits hE =>
      rw [List.cons_append, headNot_cons]
      rcases hE with rfl | rfl <;> decide
  refine ⟨?_, hexp⟩
  cases hf with
  | none => exact hexp.mono (fun b hb => by simp only [Bool.or_eq_false_iff] at hb; exact hb.1)
  | digits => rw [List.cons_append, headNot_cons]; decide

theorem parseNumber_complete {sign ds frac exp rest : List UInt8} {f e : Bool} {v : JsonValue D} (i : Nat)
    (hs : Sign sign) (hd : Digits ds) (hf : Fraction f frac) (he : Exponent e exp) (hr : NumberStop rest)
    (hv : convertNumber (sign ++ (ds ++ (frac ++ exp))) (f || e) = .ok v) :
    parseNumber ⟨i, sign ++ (ds ++ (frac ++ exp)) ++ rest⟩ =
      .ok (v, ⟨i + (sign ++ (ds ++ (frac ++ exp))).length, rest⟩) := by
  obtain ⟨hd₁, hd₂⟩ := headNot_digit_fraction hf he hr
  have hlen : (sign ++ (ds ++ (frac ++ exp))).length = sign.length + (ds.length + (frac.length + exp.length)) := by
    simp
  have hassoc : sign ++ (ds ++ (frac ++ exp)) ++ rest = sign ++ (ds ++ (frac ++ (exp ++ rest))) := by simp
  have htake : (sign ++ (ds ++ (frac ++ exp)) ++ rest).take
      (i + sign.length + ds.length + frac.length + exp.length - i) = sign ++ (ds ++ (frac ++ exp)) := by
    rw [List.take_left']
    omega
  rw [hassoc] at htake ⊢
  unfold parseNumber
  rw [parseSign_complete i hs hd]
  simp only [Except.ok_bind]
  rw [skipDigits_append _ hd hd₁, parseFraction_complete _ hf hd₂]
  simp only [Except.ok_bind]
  rw [parseExponent_complete _ he hr]
  simp only [Except.ok_bind]
  rw [htake, hv]
  simp only [Except.ok_bind, Except.ok.injEq, Prod.mk.injEq, Cursor.mk.injEq, true_and, and_true]
  omega

theorem convertNumber_double {num : List UInt8} {d : D} (h : DoubleText.stod num = some d) :
    convertNumber num true = .ok (JsonValue.double d) := by
  simp [convertNumber, stod, h, bind, Except.bind]

theorem convertNumber_int {sign ds : List UInt8} (hs : Sign sign) (hd : Digits ds) (hlo : INT_MIN ≤ intValue sign ds)
    (hhi : intValue sign ds ≤ INT_MAX) :
    convertNumber (sign ++ ds) false = .ok (JsonValue.int (Int32.ofInt (intValue sign ds)) : JsonValue D) := by
  have hll : ¬ (intValue sign ds < LLONG_MIN ∨ LLONG_MAX < intValue sign ds) := by
    unfold INT_MIN INT_MAX at *
    unfold LLONG_MIN LLONG_MAX
    omega
  have hi : ¬ (intValue sign ds < INT_MIN ∨ INT_MAX < intValue sign ds) := by omega
  unfold convertNumber
  rw [if_neg (by simp), stoll_numeral hs hd, if_neg hll]
  simp only [Except.ok_bind]
  rw [if_neg hi]

/-! ## Values -/

theorem isSpace_of_isDigit {b : UInt8} (h : Decimal.isDigit b = true) : isSpace b = false := by
  cases hs : isSpace b with
  | false => rfl
  | true => rcases isSpace_cases hs with rfl | rfl | rfl | rfl <;> exact absurd h (by decide)

theorem numeral_head {sign ds : List UInt8} (hs : Sign sign) (hd : Digits ds) (l : List UInt8) :
    ∃ b t, sign ++ (ds ++ l) = b :: t ∧ (b = chMinus ∨ Decimal.isDigit b = true) := by
  obtain ⟨d, ds', rfl, hdig⟩ := hd.exists_cons
  cases hs with
  | none => exact ⟨d, ds' ++ l, rfl, .inr hdig⟩
  | minus => exact ⟨chMinus, d :: ds' ++ l, rfl, .inl rfl⟩

theorem number_head {sign ds : List UInt8} (hs : Sign sign) (hd : Digits ds) (l : List UInt8) :
    ∃ b t, sign ++ (ds ++ l) = b :: t ∧ isSpace b = false ∧ b ≠ chRBrack := by
  obtain ⟨b, t, h, rfl | hb⟩ := numeral_head hs hd l
  · exact ⟨chMinus, t, h, by decide, by decide⟩
  · exact ⟨b, t, h, isSpace_of_isDigit hb, isDigit_ne hb _ (by decide)⟩

theorem value_head {E : UInt8 → UInt8 → Prop} {v : JsonValue D} {s : List UInt8} (h : DerivesBy E (.value v) s) :
    ∃ b t, s = b :: t ∧ isSpace b = false ∧ b ≠ chRBrack := by
  generalize hsym : Sym.value v = x at h
  cases h with
  | true => exact ⟨_, _, rfl, by decide, by decide⟩
  | false => exact ⟨_, _, rfl, by decide, by decide⟩
  | null => exact ⟨_, _, rfl, by decide, by decide⟩
  | string => exact ⟨_, _, rfl, by decide, by decide⟩
  | int hs hd => simpa using number_head hs hd []
  | double hs hd => exact number_head hs hd _
  | emptyArray => exact ⟨_, _, rfl, by decide, by decide⟩
  | array => exact ⟨_, _, rfl, by decide, by decide⟩
  | emptyObject => exact ⟨_, _, rfl, by decide, by decide⟩
  | object => exact ⟨_, _, rfl, by decide, by decide⟩
  | _ => cases hsym

theorem elems_head {vs : List (JsonValue D)} {s : List UInt8} (h : Derives (.elems vs) s) :
    ∃ b t, s = b :: t ∧ isSpace b = false ∧ b ≠ chRBrack := by
  generalize hsym : Sym.elems vs = x at h
  cases h with
  | lastElem hv =>
    obtain ⟨b, t, rfl, hb⟩ := value_head hv
    exact ⟨b, _, rfl, hb⟩
  | elem hv =>
    obtain ⟨b, t, rfl, hb⟩ := value_head hv
    exact ⟨b, _, rfl, hb⟩
  | _ => cases hsym

theorem members_head {kvs : List (List UInt8 × JsonValue D)} {s : List UInt8} (h : Derives (.members kvs) s) :
    ∃ t, s = chQuote :: t := by
  generalize hsym : Sym.members kvs = x at h
  cases h with
  | lastMember => exact ⟨_, rfl⟩
  | member => exact ⟨_, rfl⟩
  | _ => cases hsym

theorem parseValue_blank {w l : List UInt8} (fuel i : Nat) (hw : Blank w) (hl : HeadNot isSpace l) :
    (parseValue fuel ⟨i, w ++ l⟩ : Except Abort (JsonValue D × Cursor)) = parseValue fuel ⟨i + w.length, l⟩ := by
  cases fuel with
  | zero => rw [parseValue, parseValue]
  | succ fuel => rw [parseValue, parseValue, skipWhitespace_append i hw hl, skipWhitespace_stay _ hl]

/-- **The parser's answer on a derived text**: what it returns, with any text behind it and any sufficient bound. -/
def Parses : Sym D → List UInt8 → Prop
  | .value v, s => ∀ i rest fuel, (v.isNumber = true → NumberStop rest) → 3 * s.length ≤ fuel →
      parseValue fuel ⟨i, s ++ rest⟩ = .ok (v, ⟨i + s.length, rest⟩)
  | .elems vs, s => ∀ i rest fuel arr, 3 * s.length + 1 ≤ fuel →
      parseElems fuel arr ⟨i, s ++ chRBrack :: rest⟩ = .ok (.array (arr ++ vs), ⟨i + s.length + 1, rest⟩)
  | .members kvs, s => ∀ i rest fuel obj, 3 * s.length + 1 ≤ fuel →
      parseMembers fuel obj ⟨i, s ++ chRBrace :: rest⟩ =
        .ok (.object (kvs.foldl (fun m p => OrdMap.insert p.1 p.2 m) obj), ⟨i + s.length + 1, rest⟩)

theorem parseValue_cons (fuel i : Nat) {b : UInt8} {l : List UInt8} (hb : isSpace b = false) :
    (parseValue (fuel + 1) ⟨i, b :: l⟩ : Except Abort (JsonValue D × Cursor)) =
      if b = chLBrace then parseObject fuel ⟨i, b :: l⟩
      else if b = chLBrack then parseArray fuel ⟨i, b :: l⟩
      else if b = chQuote then (do
        let (s, c) ← parseString ⟨i, b :: l⟩
        .ok (.string s, c))
      else if b = chT then parseWord ⟨i, b :: l⟩ "true" (.bool true) "invalid boolean"
      else if b = chF then parseWord ⟨i, b :: l⟩ "false" (.bool false) "invalid boolean"
      else if b = chN then parseWord ⟨i, b :: l⟩ "null" .null "invalid null"
      else if b == chMinus || Decimal.isDigit b then parseNumber ⟨i, b :: l⟩
      else unexpectedCharacter b i := by
  rw [parseValue, skipWhitespace_stay i (headNot_cons.2 hb)]
  rfl

omit [DoubleText D] in
theorem parseWord_complete {word what : String} {v : JsonValue D} (i : Nat) (rest : List UInt8)
    (hw : 0 < (utf8 word).length) :
    parseWord ⟨i, utf8 word ++ rest⟩ word v what = .ok (v, ⟨i + (utf8 word).length, rest⟩) := by
  unfold parseWord
  have hlen : ¬ (utf8 word ++ rest).length ≤ (utf8 word).length - 1 := by rw [List.length_append]; omega
  rw [if_neg (by simpa using hlen)]
  simp [Cursor.advance]

theorem parses_word {v : JsonValue D} {word : String} (what : String) (b : UInt8) (l : List UInt8)
    (hw : utf8 word = b :: l)
    (hdisp : ∀ fuel i rest, (parseValue (fuel + 1) ⟨i, b :: (l ++ rest)⟩ : Except Abort _) =
      parseWord ⟨i, b :: (l ++ rest)⟩ word v what) : Parses (.value v) (utf8 word) := by
  intro i rest fuel _ hfuel
  obtain ⟨fuel, rfl⟩ : ∃ f, fuel = f + 1 := Nat.exists_eq_succ_of_ne_zero (by rw [hw, List.length_cons] at hfuel; omega)
  have hcons : utf8 word ++ rest = b :: (l ++ rest) := by rw [hw]; rfl
  rw [hcons, hdisp, ← hcons, parseWord_complete i rest (by rw [hw]; simp)]

theorem parses_string {s t : List UInt8} (h : StringBody s t) :
    Parses (.value (.string t : JsonValue D)) (chQuote :: (s ++ [chQuote])) := by
  intro i rest fuel _ hfuel
  obtain ⟨fuel, rfl⟩ : ∃ f, fuel = f + 1 := Nat.exists_eq_succ_of_ne_zero (by rw [List.length_cons] at hfuel; omega)
  have hcons : chQuote :: (s ++ [chQuote]) ++ rest = chQuote :: (s ++ chQuote :: rest) := by simp
  rw [hcons, parseValue_cons fuel i (by decide), if_neg (by decide), if_neg (by decide), if_pos rfl,
    parseString_complete h]
  simp only [Except.ok_bind, Except.ok.injEq, Prod.mk.injEq, Cursor.mk.injEq, true_and, and_true, List.length_cons,
    List.length_append, List.length_nil]
  omega

theorem parses_number {s : List UInt8} {v : JsonValue D} (hv : v.isNumber = true)
    (hhead : ∃ b t, s = b :: t ∧ (b = chMinus ∨ Decimal.isDigit b = true))
    (hnum : ∀ i rest, NumberStop rest → parseNumber ⟨i, s ++ rest⟩ = .ok (v, ⟨i + s.length, rest⟩)) :
    Parses (.value v) s := by
  intro i rest fuel hstop hfuel
  obtain ⟨b, t, rfl, hb⟩ := hhead
  obtain ⟨fuel, rfl⟩ : ∃ f, fuel = f + 1 := Nat.exists_eq_succ_of_ne_zero (by rw [List.length_cons] at hfuel; omega)
  have hsp : isSpace b = false := by
    rcases hb with rfl | hb
    · decide
    · exact isSpace_of_isDigit hb
  have hne : ∀ b' : UInt8, b' ≠ chMinus → Decimal.isDigit b' = false → b ≠ b' := by
    intro b' h1 h2
    rcases hb with rfl | hb
    · exact h1.symm
    · exact isDigit_ne hb b' h2
  have hor : (b == chMinus || Decimal.isDigit b) = true := by simpa using hb
  rw [List.cons_append, parseValue_cons fuel i hsp, if_neg (hne _ (by decide) (by decide)),
    if_neg (hne _ (by decide) (by decide)), if_neg (hne _ (by decide) (by decide)),
    if_neg (hne _ (by decide) (by decide)), if_neg (hne _ (by decide) (by decide)),
    if_neg (hne _ (by decide) (by decide)), if_pos hor, ← List.cons_append, hnum i rest (hstop hv)]

/-! ## Arrays -/

theorem parseValue_array (fuel i : Nat) (l : List UInt8) :
    (parseValue (fuel + 2) ⟨i, chLBrack :: l⟩ : Except Abort (JsonValue D × Cursor)) =
      parseElems fuel [] (skipWhitespace ⟨i + 1, l⟩) := by
  rw [parseValue_cons (fuel + 1) i (by decide), if_neg (by decide), if_pos rfl, parseArray, if_neg (by simp)]
  rfl

theorem parseElems_close (fuel i : Nat) (arr : List (JsonValue D)) (rest : List UInt8) :
    parseElems (fuel + 1) arr ⟨i, chRBrack :: rest⟩ = .ok (.array arr, ⟨i + 1, rest⟩) := by
  rw [parseElems, if_neg (by simp), if_neg (by simp)]
  rfl

theorem parses_emptyArray {w : List UInt8} (hw : Blank w) :
    Parses (.value (.array [] : JsonValue D)) (chLBrack :: (w ++ [chRBrack])) := by
  intro i rest fuel _ hfuel
  simp only [List.length_cons, List.length_append, List.length_nil] at hfuel
  obtain ⟨fuel, rfl⟩ : ∃ f, fuel = f + 1 + 2 := ⟨fuel - 3, by omega⟩
  have hcons : chLBrack :: (w ++ [chRBrack]) ++ rest = chLBrack :: (w ++ chRBrack :: rest) := by simp
  rw [hcons, parseValue_array, skipWhitespace_append _ hw (headNot_cons.2 (by decide)), parseElems_close]
  simp only [Except.ok.injEq, Prod.mk.injEq, Cursor.mk.injEq, true_and, and_true, List.length_cons, List.length_append,
    List.length_nil]
  omega

theorem parses_array {w s : List UInt8} {vs : List (JsonValue D)} (hw : Blank w) (hs : Derives (.elems vs) s)
    (ih : Parses (.elems vs) s) : Parses (.value (.array vs)) (chLBrack :: (w ++ (s ++ [chRBrack]))) := by
  intro i rest fuel _ hfuel
  simp only [List.length_cons, List.length_append, List.length_nil] at hfuel
  obtain ⟨fuel, rfl⟩ : ∃ f, fuel = f + 2 := ⟨fuel - 2, by omega⟩
  have hcons : chLBrack :: (w ++ (s ++ [chRBrack])) ++ rest = chLBrack :: (w ++ (s ++ chRBrack :: rest)) := by simp
  have hhead : HeadNot isSpace (s ++ chRBrack :: rest) := by
    obtain ⟨b, t, rfl, hb, -⟩ := elems_head hs
    exact headNot_cons.2 hb
  rw [hcons, parseValue_array, skipWhitespace_append _ hw hhead, ih _ _ _ _ (by omega)]
  simp only [Except.ok.injEq, Prod.mk.injEq, Cursor.mk.injEq, true_and, and_true, List.length_cons, List.length_append,
    List.length_nil, List.nil_append]
  omega

theorem parseElems_comma {v : JsonValue D} {s w w' t : List UInt8} {b : UInt8} (arr : List (JsonValue D))
    (i fuel : Nat) (hs : Derives (.value v) s) (ih : Parses (.value v) s) (hw : Blank w) (hw' : Blank w')
    (hsp : isSpace b = false) (hb : b ≠ chRBrack) (hfuel : 3 * s.length ≤ fuel) :
    parseElems (fuel + 1) arr ⟨i, s ++ (w ++ (chComma :: (w' ++ b :: t)))⟩ =
      parseElems fuel (arr ++ [v]) ⟨i + s.length + w.length + 1 + w'.length, b :: t⟩ := by
  have hv := ih i (w ++ (chComma :: (w' ++ b :: t))) fuel
    (fun _ => numberStop_blank hw (headNot_cons.2 (by decide))) hfuel
  obtain ⟨b', t', rfl, -, hb'⟩ := value_head hs
  rw [parseElems, if_pos (by simp [hb']), hv]
  simp only [Except.ok_bind]
  rw [skipWhitespace_append _ hw (headNot_cons.2 (by decide)), if_pos (by simp), Cursor.next_cons,
    skipWhitespace_append _ hw' (headNot_cons.2 hsp), if_neg (by simp [hb])]

theorem parseElems_last {v : JsonValue D} {s w rest : List UInt8} (arr : List (JsonValue D)) (i fuel : Nat)
    (hs : Derives (.value v) s) (ih : Parses (.value v) s) (hw : Blank w) (hfuel : 3 * s.length ≤ fuel + 1) :
    parseElems (fuel + 2) arr ⟨i, s ++ (w ++ chRBrack :: rest)⟩ =
      .ok (.array (arr ++ [v]), ⟨i + s.length + w.length + 1, rest⟩) := by
  have hv := ih i (w ++ chRBrack :: rest) (fuel + 1) (fun _ => numberStop_blank hw (headNot_cons.2 (by decide))) hfuel
  obtain ⟨b', t', rfl, -, hb'⟩ := value_head hs
  rw [parseElems, if_pos (by simp [hb']), hv]
  simp only [Except.ok_bind]
  rw [skipWhitespace_append _ hw (headNot_cons.2 (by decide)), if_neg (by simp; decide), if_neg (by simp),
    parseElems_close]

theorem parses_lastElem {s w : List UInt8} {v : JsonValue D} (hs : Derives (.value v) s) (ih : Parses (.value v) s)
    (hw : Blank w) : Parses (.elems [v]) (s ++ w) := by
  intro i rest fuel arr hfuel
  obtain ⟨b, t, hbt, -, -⟩ := value_head hs
  have hpos : 0 < s.length := by rw [hbt]; simp
  rw [List.length_append] at hfuel
  obtain ⟨fuel, rfl⟩ : ∃ f, fuel = f + 2 := ⟨fuel - 2, by omega⟩
  rw [List.append_assoc, parseElems_last arr i fuel hs ih hw (by omega), List.length_append, Nat.add_assoc i]

theorem parses_elem {s w w' t : List UInt8} {v : JsonValue D} {vs : List (JsonValue D)} (hs : Derives (.value v) s)
    (ih : Parses (.value v) s) (hw : Blank w) (hw' : Blank w') (ht : Derives (.elems vs) t)
    (iht : Parses (.elems vs) t) : Parses (.elems (v :: vs)) (s ++ (w ++ (chComma :: (w' ++ t)))) := by
  intro i rest fuel arr hfuel
  simp only [List.length_append, List.length_cons] at hfuel
  obtain ⟨fuel, rfl⟩ : ∃ f, fuel = f + 1 := ⟨fuel - 1, by omega⟩
  have hassoc : s ++ (w ++ (chComma :: (w' ++ t))) ++ chRBrack :: rest =
      s ++ (w ++ (chComma :: (w' ++ (t ++ chRBrack :: rest)))) := by simp
  have htail := iht (i + s.length + w.length + 1 + w'.length) rest fuel (arr ++ [v]) (by omega)
  obtain ⟨b, t', rfl, hsp, hbr⟩ := elems_head ht
  rw [hassoc, List.cons_append, parseElems_comma arr i fuel hs ih hw hw' hsp hbr (by omega), ← List.cons_append, htail]
  simp only [List.append_assoc, List.cons_append, List.nil_append, List.length_append, List.length_cons,
    Except.ok.injEq, Prod.mk.injEq, Cursor.mk.injEq, true_and, and_true]
  omega

/-! ## Objects -/

theorem parseValue_object (fuel i : Nat) (l : List UInt8) :
    (parseValue (fuel + 2) ⟨i, chLBrace :: l⟩ : Except Abort (JsonValue D × Cursor)) =
      parseMembers fuel [] (skipWhitespace ⟨i + 1, l⟩) := by
  rw [parseValue_cons (fuel + 1) i (by decide), if_pos rfl, parseObject, if_neg (by simp)]
  rfl

theorem parseMembers_close (fuel i : Nat) (obj : List (List UInt8 × JsonValue D)) (rest : List UInt8) :
    parseMembers (fuel + 1) obj ⟨i, chRBrace :: rest⟩ = .ok (.object obj, ⟨i + 1, rest⟩) := by
  rw [parseMembers, if_neg (by simp), if_neg (by simp)]
  rfl

theorem parses_emptyObject {w : List UInt8} (hw : Blank w) :
    Parses (.value (.object [] : JsonValue D)) (chLBrace :: (w ++ [chRBrace])) := by
  intro i rest fuel _ hfuel
  simp only [List.length_cons, List.length_append, List.length_nil] at hfuel
  obtain ⟨fuel, rfl⟩ : ∃ f, fuel = f + 1 + 2 := ⟨fuel - 3, by omega⟩
  have hcons : chLBrace :: (w ++ [chRBrace]) ++ rest = chLBrace :: (w ++ chRBrace :: rest) := by simp
  rw [hcons, parseValue_object, skipWhitespace_append _ hw (headNot_cons.2 (by decide)), parseMembers_close]
  simp only [Except.ok.injEq, Prod.mk.injEq, Cursor.mk.injEq, true_and, and_true, List.length_cons, List.length_append,
    List.length_nil]
  omega

theorem parses_object {w s : List UInt8} {kvs : List (List UInt8 × JsonValue D)} (hw : Blank w)
    (hs : Derives (.members kvs) s) (ih : Parses (.members kvs) s) :
    Parses (.value (.object (OrdMap.ofList kvs))) (chLBrace :: (w ++ (s ++ [chRBrace]))) := by
  intro i rest fuel _ hfuel
  simp only [List.length_cons, List.length_append, List.length_nil] at hfuel
  obtain ⟨fuel, rfl⟩ : ∃ f, fuel = f + 2 := ⟨fuel - 2, by omega⟩
  have hcons : chLBrace :: (w ++ (s ++ [chRBrace])) ++ rest = chLBrace :: (w ++ (s ++ chRBrace :: rest)) := by simp
  have hhead : HeadNot isSpace (s ++ chRBrace :: rest) := by
    obtain ⟨t, rfl⟩ := members_head hs
    exact headNot_cons.2 (by decide)
  rw [hcons, parseValue_object, skipWhitespace_append _ hw hhead, ih _ _ _ _ (by omega)]
  simp only [OrdMap.ofList, Except.ok.injEq, Prod.mk.injEq, Cursor.mk.injEq, true_and, and_true, List.length_cons,
    List.length_append, List.length_nil]
  omega

theorem parseMembers_value {ks k w w' s w'' l : List UInt8} {v : JsonValue D} (hk : StringBody ks k) (hw : Blank w)
    (hw' : Blank w') (hs : Derives (.value v) s) (ih : Parses (.value v) s) (hw'' : Blank w'') (hl : NumberStop l)
    (hsp : HeadNot isSpace l) (i fuel : Nat) (hfuel : 3 * s.length ≤ fuel)
    (obj : List (List UInt8 × JsonValue D)) :
    parseMembers (fuel + 1) obj ⟨i, chQuote :: (ks ++ (chQuote :: (w ++ (chColon :: (w' ++ (s ++ (w'' ++ l)))))))⟩ =
      (let c : Cursor := ⟨i + ks.length + 2 + w.length + 1 + w'.length + s.length + w''.length, l⟩
      if !c.atEnd && c.cur == chComma then
        let c := skipWhitespace c.next
        if c.atEnd || c.cur == chRBrace then parseError "unexpected ',' at end of object" c.index
        else parseMembers fuel (OrdMap.insert k v obj) c
      else if c.cur != chRBrace then parseError "expected ',' or '\x7d'" c.index
      else parseMembers fuel (OrdMap.insert k v obj) c) := by
  have hhead : HeadNot isSpace (s ++ (w'' ++ l)) := by
    obtain ⟨b, t, rfl, hb, -⟩ := value_head hs
    exact headNot_cons.2 hb
  rw [parseMembers, if_pos (by simp; decide), parseString_complete hk]
  simp only [Except.ok_bind]
  rw [skipWhitespace_append _ hw (headNot_cons.2 (by decide)), if_neg (by simp), Cursor.next_cons,
    skipWhitespace_append _ hw' hhead, ih _ (w'' ++ l) fuel (fun _ => numberStop_blank hw'' hl) hfuel]
  simp only [Except.ok_bind]
  rw [skipWhitespace_append _ hw'' hsp]

theorem parses_lastMember {ks k w w' s w'' : List UInt8} {v : JsonValue D} (hk : StringBody ks k) (hw : Blank w)
    (hw' : Blank w') (hs : Derives (.value v) s) (ih : Parses (.value v) s) (hw'' : Blank w'') :
    Parses (.members [(k, v)]) (chQuote :: (ks ++ (chQuote :: (w ++ (chColon :: (w' ++ (s ++ w''))))))) := by
  intro i rest fuel obj hfuel
  simp only [List.length_cons, List.length_append] at hfuel
  obtain ⟨fuel, rfl⟩ : ∃ f, fuel = f + 1 + 1 := ⟨fuel - 2, by omega⟩
  have hassoc : chQuote :: (ks ++ (chQuote :: (w ++ (chColon :: (w' ++ (s ++ w'')))))) ++ chRBrace :: rest =
      chQuote :: (ks ++ (chQuote :: (w ++ (chColon :: (w' ++ (s ++ (w'' ++ chRBrace :: rest))))))) := by simp
  rw [hassoc, parseMembers_value hk hw hw' hs ih hw'' (headNot_cons.2 (by decide)) (headNot_cons.2 (by decide)) i
    (fuel + 1) (by omega)]
  dsimp only
  rw [if_neg (by simp; decide), if_neg (by simp), parseMembers_close]
  simp only [List.foldl_cons, List.foldl_nil, List.length_append, List.length_cons, Except.ok.injEq, Prod.mk.injEq,
    Cursor.mk.injEq, true_and, and_true]
  omega

theorem parses_member {ks k w w' s w'' w₃ t : List UInt8} {v : JsonValue D} {kvs : List (List UInt8 × JsonValue D)}
    (hk : StringBody ks k) (hw : Blank w) (hw' : Blank w') (hs : Derives (.value v) s) (ih : Parses (.value v) s)
    (hw'' : Blank w'') (hw₃ : Blank w₃) (ht : Derives (.members kvs) t) (iht : Parses (.members kvs) t) :
    Parses (.members ((k, v) :: kvs))
      (chQuote :: (ks ++ (chQuote :: (w ++ (chColon :: (w' ++ (s ++ (w'' ++ (chComma :: (w₃ ++ t)))))))))) := by
  intro i rest fuel obj hfuel
  simp only [List.length_cons, List.length_append] at hfuel
  obtain ⟨fuel, rfl⟩ : ∃ f, fuel = f + 1 := ⟨fuel - 1, by omega⟩
  have hassoc : chQuote :: (ks ++ (chQuote :: (w ++ (chColon :: (w' ++ (s ++ (w'' ++ (chComma :: (w₃ ++ t))))))))) ++
      chRBrace :: rest = chQuote :: (ks ++ (chQuote :: (w ++ (chColon :: (w' ++ (s ++ (w'' ++
        (chComma :: (w₃ ++ (t ++ chRBrace :: rest)))))))))) := by simp
  have htail := fun j => iht j rest fuel (OrdMap.insert k v obj) (by omega)
  obtain ⟨t', rfl⟩ := members_head ht
  rw [hassoc, parseMembers_value hk hw hw' hs ih hw'' (headNot_cons.2 (by decide)) (headNot_cons.2 (by decide)) i
    fuel (by omega)]
  dsimp only
  rw [if_pos (by simp), Cursor.next_cons, List.cons_append, skipWhitespace_append _ hw₃ (headNot_cons.2 (by decide)),
    if_neg (by simp; decide), ← List.cons_append, htail]
  simp only [List.foldl_cons, List.length_append, List.length_cons, Except.ok.injEq, Prod.mk.injEq, Cursor.mk.injEq,
    true_and, and_true]
  omega

/-! ## Completeness -/

/-- **Every derived text is parsed**, whatever follows it: by induction on the derivation. -/
theorem parses_of_derives {x : Sym D} {s : List UInt8} (h : Derives x s) : Parses x s := by
  induction h with
  | true =>
    exact parses_word "invalid boolean" chT [114, 117, chE] (by decide)
      (fun fuel i rest => parseValue_cons fuel i (by decide))
  | false =>
    exact parses_word "invalid boolean" chF [97, 108, 115, chE] (by decide)
      (fun fuel i rest => parseValue_cons fuel i (by decide))
  | null =>
    exact parses_word "invalid null" chN [117, 108, 108] (by decide)
      (fun fuel i rest => parseValue_cons fuel i (by decide))
  | string hs => exact parses_string hs
  | @int sign ds hs hd hlo hhi =>
    refine parses_number rfl ?_ (fun i rest hr => ?_)
    · simpa using numeral_head hs hd []
    · have hnil : sign ++ ds = sign ++ (ds ++ ([] ++ [])) := by simp
      have hconv : convertNumber (sign ++ (ds ++ ([] ++ []))) (Bool.false || Bool.false) =
          .ok (JsonValue.int (Int32.ofInt (intValue sign ds)) : JsonValue D) := by
        rw [← hnil]; exact convertNumber_int hs hd hlo hhi
      rw [hnil]
      exact parseNumber_complete i hs hd .none .none hr hconv
  | double hs hd hf he hfe hst =>
    exact parses_number rfl (numeral_head hs hd _)
      (fun i rest hr => parseNumber_complete i hs hd hf he hr (by rw [hfe]; exact convertNumber_double hst))
  | emptyArray hw => exact parses_emptyArray hw
  | array hw hs ih => exact parses_array hw hs ih
  | lastElem hs hw ih => exact parses_lastElem hs ih hw
  | elem hs hw hw' ht ih iht => exact parses_elem hs ih hw hw' ht iht
  | emptyObject hw => exact parses_emptyObject hw
  | object hw hs ih => exact parses_object hw hs ih
  | lastMember hk hw hw' hs hw'' ih => exact parses_lastMember hk hw hw' hs ih hw''
  | member hk hw hw' hs hw'' hw₃ ht ih iht => exact parses_member hk hw hw' hs ih hw'' hw₃ ht iht

/-- **What is a text of a value is accepted, with this value.** -/
theorem deserialize_of_text {json : List UInt8} {v : JsonValue D} (h : Text json v) : deserialize json = .ok v := by
  obtain ⟨w, s, w', rfl, hw, hs, hw'⟩ := h
  have hhead : HeadNot isSpace (s ++ w') := by
    obtain ⟨b, t, rfl, hb, -⟩ := value_head hs
    exact headNot_cons.2 hb
  have hstop : NumberStop w' := by simpa using numberStop_blank hw' (headNot_nil _)
  have hskip : skipWhitespace ⟨0 + w.length + s.length, w'⟩ = ⟨0 + w.length + s.length + w'.length, []⟩ := by
    simpa using skipWhitespace_append (0 + w.length + s.length) hw' (headNot_nil isSpace)
  unfold deserialize
  rw [parseValue_blank _ 0 hw hhead, parses_of_derives hs _ w' _ (fun _ => hstop)
    (by simp only [parseFuel, List.length_append]; omega)]
  simp only [Except.ok_bind]
  rw [hskip, if_neg (by simp only [List.length_append]; omega)]

/-! ## Every input is answered -/

def Exn.isRuntimeError : Exn → Bool
  | .runtimeError _ => true
  | _ => false

/-- The call returns or throws one of the standard exceptions, and no `std::runtime_error`. -/
def OnlyThrows {α : Type} (x : Except Abort α) : Prop :=
  ∀ a, x = .error a → ∃ e, a = .throws e ∧ e.isRuntimeError = false

theorem onlyThrows_ok {α : Type} (a : α) : OnlyThrows (.ok a) := fun _ h => by cases h

theorem onlyThrows_throws {α : Type} (e : Exn) (he : e.isRuntimeError = false) :
    OnlyThrows (.error (.throws e) : Except Abort α) :=
  fun _ h => by cases h; exact ⟨e, rfl, he⟩

theorem OnlyThrows.bind {α β : Type} {x : Except Abort α} {f : α → Except Abort β} (hx : OnlyThrows x)
    (hf : ∀ a, x = .ok a → OnlyThrows (f a)) : OnlyThrows (x >>= f) := by
  cases x with
  | error a =>
    obtain ⟨e, rfl, he⟩ := hx a rfl
    exact onlyThrows_throws e he
  | ok a => exact hf a rfl

theorem OnlyThrows.ite {α : Type} {p : Prop} [Decidable p] {x y : Except Abort α} (hx : OnlyThrows x)
    (hy : OnlyThrows y) : OnlyThrows (if p then x else y) := by
  split
  · exact hx
  · exact hy

theorem parseStringFrom_onlyThrows : ∀ (l : List UInt8) (i : Nat) (acc : List UInt8),
    OnlyThrows (parseStringFrom i acc l)
  | [], i, acc => by rw [parseStringFrom]; exact onlyThrows_throws _ rfl
  | b :: rest, i, acc => by
    rw [parseStringFrom.eq_def]
    simp only
    split
    · exact onlyThrows_ok _
    split
    · cases rest with
      | nil => exact onlyThrows_throws _ rfl
      | cons e rest' =>
        simp only
        split
        · exact parseStringFrom_onlyThrows rest' _ _
        · exact onlyThrows_throws _ rfl
    · exact parseStringFrom_onlyThrows rest _ _

theorem parseString_onlyThrows (c : Cursor) : OnlyThrows (parseString c) := by
  unfold parseString
  exact (onlyThrows_throws _ rfl).ite (parseStringFrom_onlyThrows _ _ _)

theorem stoll_onlyThrows (s : List UInt8) : OnlyThrows (stoll s) := by
  unfold stoll
  exact (onlyThrows_throws _ rfl).ite ((onlyThrows_throws _ rfl).ite (onlyThrows_ok _))

theorem convertNumber_onlyThrows (num : List UInt8) (dbl : Bool) :
    OnlyThrows (convertNumber num dbl : Except Abort (JsonValue D)) := by
  unfold convertNumber
  split
  · refine OnlyThrows.bind ?_ (fun _ _ => onlyThrows_ok _)
    unfold stod
    split
    · exact onlyThrows_ok _
    · exact onlyThrows_throws _ rfl
  · refine (stoll_onlyThrows num).bind (fun n _ => ?_)
    split
    · exact onlyThrows_throws _ rfl
    · exact onlyThrows_ok _

theorem parseNumber_onlyThrows (c : Cursor) : OnlyThrows (parseNumber c : Except Abort (JsonValue D × Cursor)) := by
  unfold parseNumber
  refine OnlyThrows.bind ?_ (fun c₁ _ => ?_)
  · unfold parseSign
    exact OnlyThrows.ite ((onlyThrows_throws _ rfl).ite (onlyThrows_ok _)) (onlyThrows_ok _)
  refine OnlyThrows.bind ?_ (fun p _ => ?_)
  · unfold parseFraction
    exact OnlyThrows.ite ((onlyThrows_throws _ rfl).ite (onlyThrows_ok _)) (onlyThrows_ok _)
  refine OnlyThrows.bind ?_ (fun q _ => (convertNumber_onlyThrows _ _).bind (fun _ _ => onlyThrows_ok _))
  unfold parseExponent
  exact OnlyThrows.ite ((onlyThrows_throws _ rfl).ite (onlyThrows_ok _)) (onlyThrows_ok _)

omit [DoubleText D] in
theorem parseWord_onlyThrows (c : Cursor) (word what : String) (v : JsonValue D) :
    OnlyThrows (parseWord c word v what) := by
  unfold parseWord
  exact (onlyThrows_throws _ rfl).ite (onlyThrows_ok _)

theorem Consumes.length {c c' : Cursor} {s : List UInt8} (h : Consumes c c' s) :
    c.rest.length = s.length + c'.rest.length := by rw [h.rest, List.length_append]

theorem skipWhitespace_length (c : Cursor) : (skipWhitespace c).rest.length ≤ c.rest.length := by
  obtain ⟨w, -, h⟩ := skipWhitespace_consumes c
  have := h.length
  omega

theorem Cursor.next_length {c : Cursor} (h : ¬ c.atEnd = true) : c.next.rest.length + 1 = c.rest.length := by
  rw [Cursor.eq_cons_of_atEnd h, List.length_cons]

theorem parseValue_length {fuel : Nat} {c c' : Cursor} {v : JsonValue D} (h : parseValue fuel c = .ok (v, c')) :
    c'.rest.length < c.rest.length := by
  obtain ⟨s, hs, hcon⟩ := (parse_sound fuel).1 _ _ _ h
  obtain ⟨b, t, rfl, -, -⟩ := value_head hs
  have h₁ := hcon.length
  have h₂ := skipWhitespace_length c
  rw [List.length_cons] at h₁
  omega

theorem parseString_length {c c' : Cursor} {t : List UInt8} (h : parseString c = .ok (t, c')) :
    c'.rest.length < c.rest.length := by
  obtain ⟨s, -, hcon⟩ := parseString_sound h
  have := hcon.length
  rw [List.length_cons] at this
  omega

theorem parseValue_onlyThrows_succ {fuel : Nat} {c : Cursor}
    (harr : ∀ c : Cursor, 3 * c.rest.length ≤ fuel → 0 < c.rest.length →
      OnlyThrows (parseArray fuel c : Except Abort (JsonValue D × Cursor)))
    (hobj : ∀ c : Cursor, 3 * c.rest.length ≤ fuel → 0 < c.rest.length →
      OnlyThrows (parseObject fuel c : Except Abort (JsonValue D × Cursor)))
    (hfuel : 3 * c.rest.length + 1 ≤ fuel + 1) :
    OnlyThrows (parseValue (fuel + 1) c : Except Abort (JsonValue D × Cursor)) := by
  have hlen := skipWhitespace_length c
  rw [parseValue]
  simp only
  split
  · exact onlyThrows_throws _ rfl
  rename_i hend
  have hpos := Cursor.next_length hend
  split
  · exact hobj _ (by omega) (by omega)
  split
  · exact harr _ (by omega) (by omega)
  split
  · exact (parseString_onlyThrows _).bind (fun _ _ => onlyThrows_ok _)
  split
  · exact parseWord_onlyThrows _ _ _ _
  split
  · exact parseWord_onlyThrows _ _ _ _
  split
  · exact parseWord_onlyThrows _ _ _ _
  split
  · exact parseNumber_onlyThrows _
  · exact onlyThrows_throws _ rfl

theorem parseElems_onlyThrows_succ {fuel : Nat} {c : Cursor} {arr : List (JsonValue D)}
    (hval : ∀ c : Cursor, 3 * c.rest.length + 1 ≤ fuel →
      OnlyThrows (parseValue fuel c : Except Abort (JsonValue D × Cursor)))
    (helems : ∀ (arr : List (JsonValue D)) (c : Cursor), 3 * c.rest.length + 2 ≤ fuel →
      OnlyThrows (parseElems fuel arr c))
    (hfuel : 3 * c.rest.length + 2 ≤ fuel + 1) : OnlyThrows (parseElems (fuel + 1) arr c) := by
  rw [parseElems]
  split
  · refine (hval c (by omega)).bind (fun p hp => ?_)
    have h₁ := parseValue_length hp
    have h₂ := skipWhitespace_length p.2
    dsimp only
    split
    · rename_i hcomma
      simp only [Bool.and_eq_true, Bool.not_eq_true'] at hcomma
      have h₃ := Cursor.next_length (c := skipWhitespace p.2) (by simp [hcomma.1])
      have h₄ := skipWhitespace_length (skipWhitespace p.2).next
      split
      · exact onlyThrows_throws _ rfl
      · exact helems _ _ (by omega)
    · split
      · exact onlyThrows_throws _ rfl
      · exact helems _ _ (by omega)
  · split
    · exact onlyThrows_throws _ rfl
    · exact onlyThrows_ok _

theorem parseMembers_onlyThrows_succ {fuel : Nat} {c : Cursor} {obj : List (List UInt8 × JsonValue D)}
    (hval : ∀ c : Cursor, 3 * c.rest.length + 1 ≤ fuel →
      OnlyThrows (parseValue fuel c : Except Abort (JsonValue D × Cursor)))
    (hmem : ∀ (obj : List (List UInt8 × JsonValue D)) (c : Cursor), 3 * c.rest.length + 2 ≤ fuel →
      OnlyThrows (parseMembers fuel obj c))
    (hfuel : 3 * c.rest.length + 2 ≤ fuel + 1) : OnlyThrows (parseMembers (fuel + 1) obj c) := by
  rw [parseMembers]
  split
  · refine (parseString_onlyThrows c).bind (fun k hk => ?_)
    have h₁ := parseString_length hk
    have h₂ := skipWhitespace_length k.2
    simp only
    split
    · exact onlyThrows_throws _ rfl
    rename_i hcolon
    simp only [Bool.or_eq_true, not_or] at hcolon
    have h₃ := Cursor.next_length hcolon.1
    have h₄ := skipWhitespace_length (skipWhitespace k.2).next
    refine (hval _ (by omega)).bind (fun p hp => ?_)
    have h₅ := parseValue_length hp
    have h₆ := skipWhitespace_length p.2
    split
    · rename_i hcomma
      simp only [Bool.and_eq_true, Bool.not_eq_true'] at hcomma
      have h₇ := Cursor.next_length (c := skipWhitespace p.2) (by simp [hcomma.1])
      have h₈ := skipWhitespace_length (skipWhitespace p.2).next
      split
      · exact onlyThrows_throws _ rfl
      · exact hmem _ _ (by omega)
    · split
      · exact onlyThrows_throws _ rfl
      · exact hmem _ _ (by omega)
  · split
    · exact onlyThrows_throws _ rfl
    · exact onlyThrows_ok _

/-- Three calls for every byte are enough: every turn of a loop, and every nested value, has taken one off. -/
theorem parse_onlyThrows : ∀ fuel : Nat,
    (∀ c : Cursor, 3 * c.rest.length + 1 ≤ fuel →
      OnlyThrows (parseValue fuel c : Except Abort (JsonValue D × Cursor))) ∧
    (∀ c : Cursor, 3 * c.rest.length ≤ fuel → 0 < c.rest.length →
      OnlyThrows (parseArray fuel c : Except Abort (JsonValue D × Cursor))) ∧
    (∀ (arr : List (JsonValue D)) (c : Cursor), 3 * c.rest.length + 2 ≤ fuel → OnlyThrows (parseElems fuel arr c)) ∧
    (∀ c : Cursor, 3 * c.rest.length ≤ fuel → 0 < c.rest.length →
      OnlyThrows (parseObject fuel c : Except Abort (JsonValue D × Cursor))) ∧
    (∀ (obj : List (List UInt8 × JsonValue D)) (c : Cursor), 3 * c.rest.length + 2 ≤ fuel →
      OnlyThrows (parseMembers fuel obj c))
  | 0 => ⟨fun _ h => by omega, fun _ h h' => by omega, fun _ _ h => by omega, fun _ h h' => by omega,
      fun _ _ h => by omega⟩
  | fuel + 1 => by
    obtain ⟨hval, harr, helems, hobj, hmem⟩ := parse_onlyThrows fuel
    refine ⟨fun c h => parseValue_onlyThrows_succ harr hobj h, fun c h hpos => ?_,
      fun arr c h => parseElems_onlyThrows_succ hval helems h, fun c h hpos => ?_,
      fun obj c h => parseMembers_onlyThrows_succ hval hmem h⟩
    · rw [parseArray]
      split
      · exact onlyThrows_throws _ rfl
      rename_i hc
      simp only [Bool.or_eq_true, not_or] at hc
      have h₁ := Cursor.next_length hc.1
      have h₂ := skipWhitespace_length c.next
      exact helems _ _ (by omega)
    · rw [parseObject]
      split
      · exact onlyThrows_throws _ rfl
      rename_i hc
      simp only [Bool.or_eq_true, not_or] at hc
      have h₁ := Cursor.next_length hc.1
      have h₂ := skipWhitespace_length c.next
      exact hmem _ _ (by omega)

/-- The bound that `deserialize` passes is enough. -/
theorem deserialize_onlyThrows (json : List UInt8) : OnlyThrows (deserialize json : Except Abort (JsonValue D)) := by
  unfold deserialize
  refine ((parse_onlyThrows _).1 _ (Nat.le_refl _)).bind (fun p _ => ?_)
  simp only
  split
  · exact onlyThrows_throws _ rfl
  · exact onlyThrows_ok _

/-- **The parser decides the texts**: it returns a value exactly for the texts of this value, and on an input that is
no text of any value it throws. -/
theorem deserialize_decides (json : List UInt8) :
    (∀ v : JsonValue D, deserialize json = .ok v ↔ Text json v) ∧
      ((∃ v : JsonValue D, Text json v) ∨
        ∃ e, (deserialize json : Except Abort (JsonValue D)) = .error (.throws e)) := by
  refine ⟨fun v => ⟨text_of_deserialize, deserialize_of_text⟩, ?_⟩
  cases hd : (deserialize json : Except Abort (JsonValue D)) with
  | ok v => exact .inl ⟨v, text_of_deserialize hd⟩
  | error a =>
    obtain ⟨e, rfl, -⟩ := deserialize_onlyThrows json a hd
    exact .inr ⟨e, rfl⟩

end Complete

end MiniRos2

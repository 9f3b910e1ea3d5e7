import MiniRos2.JsonGrammar
/-!
# JsonSound — the parser accepts only the texts of the value it returns

`Consumes c c' s` says that going from `c` to `c'` takes `s` off the text.  Every function of the parser that returns
has taken off a text of what it returns, so what `deserialize` accepts is a `Text` of its value
(`text_of_deserialize`).
-/
namespace MiniRos2

/-! ## What a step of the parser takes off the text -/

/-- Going from `c` to `c'` takes `s` off the text. -/
structure Consumes (c c' : Cursor) (s : List UInt8) : Prop where
  rest : c.rest = s ++ c'.rest
  index : c'.index = c.index + s.length

theorem Consumes.trans {c c₁ c₂ : Cursor} {s t : List UInt8} (h : Consumes c c₁ s) (h' : Consumes c₁ c₂ t) :
    Consumes c c₂ (s ++ t) :=
  ⟨by rw [h.rest, h'.rest, List.append_assoc], by rw [h'.index, h.index, List.length_append]; omega⟩

theorem Consumes.take {c c' : Cursor} {s : List UInt8} (h : Consumes c c' s) :
    c.rest.take (c'.index - c.index) = s := by
  have hi := h.index
  rw [h.rest, show c'.index - c.index = s.length by omega, List.take_left']
  rfl

namespace Cursor

theorem atEnd_iff (c : Cursor) : c.atEnd = true ↔ c.rest = [] := by
  unfold atEnd; exact List.isEmpty_iff

theorem eq_cons_of_atEnd {c : Cursor} (h : ¬ c.atEnd = true) : c.rest = c.cur :: c.next.rest := by
  rw [atEnd_iff] at h
  obtain ⟨b, l, hl⟩ := List.exists_cons_of_ne_nil h
  simp [cur, next, advance, hl]

theorem consumes_next {c : Cursor} (h : ¬ c.atEnd = true) : Consumes c c.next [c.cur] :=
  ⟨eq_cons_of_atEnd h, rfl⟩

/-- A byte read that is not the terminating NUL was in the text. -/
theorem not_atEnd_of_cur {c : Cursor} (h : c.cur ≠ 0) : ¬ c.atEnd = true := by
  rw [atEnd_iff]
  intro hr
  exact h (by simp [cur, hr])

end Cursor

theorem skipWhileFrom_eq (p : UInt8 → Bool) : ∀ (i : Nat) (l : List UInt8),
    skipWhileFrom p i l = ⟨i + (l.takeWhile p).length, l.dropWhile p⟩
  | _, [] => rfl
  | i, b :: l => by
    unfold skipWhileFrom
    split
    · rename_i hb
      rw [skipWhileFrom_eq, List.takeWhile_cons_of_pos hb, List.dropWhile_cons_of_pos hb, List.length_cons]
      congr 1
      omega
    · rename_i hb
      rw [List.takeWhile_cons_of_neg hb, List.dropWhile_cons_of_neg hb]
      rfl

theorem Cursor.skipWhile_eq (p : UInt8 → Bool) (c : Cursor) :
    c.skipWhile p = ⟨c.index + (c.rest.takeWhile p).length, c.rest.dropWhile p⟩ :=
  skipWhileFrom_eq p _ _

theorem Cursor.skipWhile_consumes (p : UInt8 → Bool) (c : Cursor) :
    Consumes c (c.skipWhile p) (c.rest.takeWhile p) := by
  rw [Cursor.skipWhile_eq]
  exact ⟨List.takeWhile_append_dropWhile.symm, rfl⟩

theorem skipWhitespace_consumes (c : Cursor) : ∃ w, Blank w ∧ Consumes c (skipWhitespace c) w :=
  ⟨_, fun _ hb => List.mem_takeWhile_imp hb, c.skipWhile_consumes isSpace⟩

theorem skipWhitespace_idem (c : Cursor) : skipWhitespace (skipWhitespace c) = skipWhitespace c := by
  have hd : ∀ l : List UInt8, (l.dropWhile isSpace).takeWhile isSpace = [] ∧
      (l.dropWhile isSpace).dropWhile isSpace = l.dropWhile isSpace := by
    intro l
    induction l with
    | nil => exact ⟨rfl, rfl⟩
    | cons b l ih =>
      by_cases hb : isSpace b = true
      · rw [List.dropWhile_cons_of_pos hb]; exact ih
      · rw [List.dropWhile_cons_of_neg hb]
        exact ⟨List.takeWhile_cons_of_neg hb, List.dropWhile_cons_of_neg hb⟩
  unfold skipWhitespace
  rw [Cursor.skipWhile_eq, Cursor.skipWhile_eq, (hd c.rest).1, (hd c.rest).2]
  rfl

theorem skipDigits_consumes {c : Cursor} (hend : ¬ c.atEnd = true) (hd : Decimal.isDigit c.cur = true) :
    ∃ ds, Digits ds ∧ Consumes c (skipDigits c) ds := by
  refine ⟨_, ⟨?_, fun b hb => List.mem_takeWhile_imp hb⟩, c.skipWhile_consumes Decimal.isDigit⟩
  rw [Cursor.eq_cons_of_atEnd hend, List.takeWhile_cons_of_pos hd]
  exact List.cons_ne_nil _ _

theorem escape_of_unescape {e b : UInt8} (h : unescape e = some b) : Escape e b := by
  unfold unescape at h
  split at h
  · rename_i he; cases h; rw [he]; exact .quote
  split at h
  · rename_i he; cases h; rw [he]; exact .backslash
  split at h
  · rename_i he; cases h; rw [he]; exact .f
  split at h
  · rename_i he; cases h; rw [he]; exact .n
  split at h
  · rename_i he; cases h; rw [he]; exact .r
  split at h
  · rename_i he; cases h; rw [he]; exact .t
  · cases h

theorem unescape_of_escape {e b : UInt8} (h : Escape e b) : unescape e = some b := by
  cases h <;> decide

/-! ## Strings and numbers -/

theorem parseStringFrom_sound : ∀ (l : List UInt8) (i : Nat) (acc t : List UInt8) (c' : Cursor),
    parseStringFrom i acc l = .ok (t, c') →
      ∃ s u, StringBody s u ∧ t = acc ++ u ∧ Consumes ⟨i, l⟩ c' (s ++ [chQuote])
  | [], i, acc, t, c', h => by simp [parseStringFrom, parseError] at h
  | b :: rest, i, acc, t, c', h => by
    unfold parseStringFrom at h
    split at h
    · rename_i hb
      cases h
      exact ⟨[], [], .nil, by simp, by simp [hb], rfl⟩
    split at h
    · rename_i hbq hbs
      match rest with
      | [] => cases h
      | e :: rest' =>
        simp only at h
        split at h
        · rename_i r hr
          obtain ⟨s, u, hs, ht, hc⟩ := parseStringFrom_sound rest' _ _ _ _ h
          have htake : Consumes ⟨i, b :: e :: rest'⟩ ⟨i + 2, rest'⟩ [chBackslash, e] := ⟨by rw [hbs]; rfl, rfl⟩
          exact ⟨chBackslash :: e :: s, r :: u, .escape (escape_of_unescape hr) hs, by simp [ht], htake.trans hc⟩
        · cases h
    · rename_i hbq hbs
      obtain ⟨s, u, hs, ht, hc⟩ := parseStringFrom_sound rest _ _ _ _ h
      have htake : Consumes ⟨i, b :: rest⟩ ⟨i + 1, rest⟩ [b] := ⟨rfl, rfl⟩
      exact ⟨b :: s, b :: u, .plain hbq hbs hs, by simp [ht], htake.trans hc⟩

theorem parseString_sound {c c' : Cursor} {t : List UInt8} (h : parseString c = .ok (t, c')) :
    ∃ s, StringBody s t ∧ Consumes c c' (chQuote :: (s ++ [chQuote])) := by
  unfold parseString at h
  split at h
  · cases h
  rename_i hc
  simp only [Bool.or_eq_true, bne_iff_ne, ne_eq, not_or, Decidable.not_not] at hc
  obtain ⟨s, u, hs, ht, hcon⟩ := parseStringFrom_sound _ _ _ _ _ h
  have hnext := Cursor.consumes_next hc.1
  rw [hc.2] at hnext
  rw [List.nil_append] at ht
  exact ⟨s, ht ▸ hs, hnext.trans hcon⟩

theorem parseSign_sound {c c' : Cursor} (h : parseSign c = .ok c')
    (hc : c.cur = chMinus ∨ Decimal.isDigit c.cur = true) :
    ∃ sign, Sign sign ∧ Consumes c c' sign ∧ ¬ c'.atEnd = true ∧ Decimal.isDigit c'.cur = true := by
  unfold parseSign at h
  split at h
  · rename_i hm
    have hend : ¬ c.atEnd = true := Cursor.not_atEnd_of_cur (by rw [hm]; decide)
    split at h
    · cases h
    rename_i hd
    cases h
    simp only [Bool.or_eq_true, Bool.not_eq_true', not_or, Bool.not_eq_false] at hd
    have hnext := Cursor.consumes_next hend
    rw [hm] at hnext
    exact ⟨[chMinus], .minus, hnext, hd.1, hd.2⟩
  · rename_i hm
    cases h
    have hd := hc.resolve_left hm
    refine ⟨[], .none, ⟨rfl, rfl⟩, Cursor.not_atEnd_of_cur (fun h0 => ?_), hd⟩
    rw [h0] at hd
    exact absurd hd (by decide)

theorem parseFraction_sound {c c' : Cursor} {f : Bool} (h : parseFraction c = .ok (f, c')) :
    ∃ frac, Fraction f frac ∧ Consumes c c' frac := by
  unfold parseFraction at h
  split at h
  · rename_i hdot
    simp only [Bool.and_eq_true, Bool.not_eq_true', beq_iff_eq] at hdot
    split at h
    · cases h
    rename_i hd
    simp only [Bool.or_eq_true, Bool.not_eq_true', not_or, Bool.not_eq_false] at hd
    cases h
    obtain ⟨ds, hds, hcon⟩ := skipDigits_consumes hd.1 hd.2
    have hnext := Cursor.consumes_next (c := c) (by simp [hdot.1])
    rw [hdot.2] at hnext
    exact ⟨chDot :: ds, .digits hds, hnext.trans hcon⟩
  · cases h
    exact ⟨[], .none, rfl, rfl⟩

theorem parseExponent_sound {c c' : Cursor} {e : Bool} (h : parseExponent c = .ok (e, c')) :
    ∃ exp, Exponent e exp ∧ Consumes c c' exp := by
  unfold parseExponent at h
  split at h
  · rename_i he
    simp only [Bool.and_eq_true, Bool.not_eq_true', Bool.or_eq_true, beq_iff_eq] at he
    have hnext := Cursor.consumes_next (c := c) (by simp [he.1])
    -- the optional sign of the exponent
    obtain ⟨sign, c₁, hsign, hcon, hc₁⟩ : ∃ (sign : List UInt8) (c₁ : Cursor),
        (sign = [] ∨ sign = [chPlus] ∨ sign = [chMinus]) ∧ Consumes c.next c₁ sign ∧
        (if !c.next.atEnd && (c.next.cur == chPlus || c.next.cur == chMinus) then c.next.next else c.next) = c₁ := by
      split
      · rename_i hs
        simp only [Bool.and_eq_true, Bool.not_eq_true', Bool.or_eq_true, beq_iff_eq] at hs
        have hs' := Cursor.consumes_next (c := c.next) (by simp [hs.1])
        rcases hs.2 with hp | hm
        · exact ⟨[chPlus], _, .inr (.inl rfl), hp ▸ hs', rfl⟩
        · exact ⟨[chMinus], _, .inr (.inr rfl), hm ▸ hs', rfl⟩
      · exact ⟨[], _, .inl rfl, ⟨rfl, rfl⟩, rfl⟩
    simp only [hc₁] at h
    split at h
    · cases h
    rename_i hd
    simp only [Bool.or_eq_true, Bool.not_eq_true', not_or, Bool.not_eq_false] at hd
    cases h
    obtain ⟨ds, hds, hdig⟩ := skipDigits_consumes hd.1 hd.2
    exact ⟨c.cur :: (sign ++ ds), .digits he.2 hsign hds, (hnext.trans (hcon.trans hdig))⟩
  · cases h
    exact ⟨[], .none, rfl, rfl⟩

theorem isDigit_ne {b : UInt8} (h : Decimal.isDigit b = true) (b' : UInt8) (h' : Decimal.isDigit b' = false) :
    b ≠ b' := fun he => by rw [he, h'] at h; cases h

theorem stoll_numeral {sign ds : List UInt8} (hs : Sign sign) (hd : Digits ds) :
    stoll (sign ++ ds) =
      if intValue sign ds < LLONG_MIN ∨ LLONG_MAX < intValue sign ds then .error (.throws (.outOfRange (utf8 "stoll")))
      else .ok (intValue sign ds) := by
  obtain ⟨d, ds', rfl⟩ := List.exists_cons_of_ne_nil hd.1
  have hdig : Decimal.isDigit d = true := hd.2 d List.mem_cons_self
  have htake : (d :: ds').takeWhile Decimal.isDigit = d :: ds' := List.takeWhile_eq_self_iff.2 hd.2
  have hblank : (d == 32 || (decide (9 ≤ d) && decide (d ≤ 13))) = false := by
    obtain ⟨hlo, hhi⟩ := Decimal.toNat_of_isDigit hdig
    have h32 := isDigit_ne (hd.2 d List.mem_cons_self) 32 (by decide)
    have h13 : (13 : UInt8).toNat = 13 := rfl
    rw [beq_eq_false_iff_ne.2 h32, Bool.false_or, Bool.and_eq_false_iff, decide_eq_false_iff_not,
      decide_eq_false_iff_not, UInt8.le_iff_toNat_le, UInt8.le_iff_toNat_le]
    omega
  have hm := isDigit_ne hdig chMinus (by decide)
  have hp := isDigit_ne hdig chPlus (by decide)
  cases hs with
  | none => simp [stoll, intValue, hblank, hm, hp, htake]
  | minus => simp [stoll, intValue, show (chMinus == 32 || (decide (9 ≤ chMinus) && decide (chMinus ≤ 13))) = false from
      by decide, htake]

section Sound

variable {D : Type} [DoubleText D]

theorem convertNumber_sound {sign ds frac exp : List UInt8} {f e : Bool} {v : JsonValue D} (hs : Sign sign)
    (hd : Digits ds) (hf : Fraction f frac) (he : Exponent e exp)
    (h : convertNumber (sign ++ (ds ++ (frac ++ exp))) (f || e) = .ok v) :
    Derives (.value v) (sign ++ (ds ++ (frac ++ exp))) := by
  unfold convertNumber at h
  split at h
  · rename_i hfe
    obtain ⟨d, hd', hv⟩ := Except.bind_eq_ok h
    cases hv
    unfold stod at hd'
    split at hd'
    · rename_i d' hst
      cases hd'
      exact .double hs hd hf he hfe hst
    · cases hd'
  · rename_i hfe
    simp only [Bool.or_eq_true, not_or, Bool.not_eq_true] at hfe
    obtain ⟨rfl, rfl⟩ := hfe
    cases hf
    cases he
    rw [List.append_nil, List.append_nil] at h ⊢
    obtain ⟨n, hn, hv⟩ := Except.bind_eq_ok h
    rw [stoll_numeral hs hd] at hn
    split at hn
    · cases hn
    cases hn
    split at hv
    · cases hv
    rename_i hr
    cases hv
    exact .int hs hd (by omega) (by omega)

theorem parseNumber_sound {c c' : Cursor} {v : JsonValue D} (h : parseNumber c = .ok (v, c'))
    (hc : c.cur = chMinus ∨ Decimal.isDigit c.cur = true) : ∃ s, Derives (.value v) s ∧ Consumes c c' s := by
  obtain ⟨c₁, h₁, h⟩ := Except.bind_eq_ok h
  obtain ⟨sign, hsign, hcon₁, hend, hdig⟩ := parseSign_sound h₁ hc
  obtain ⟨ds, hds, hcon₂⟩ := skipDigits_consumes hend hdig
  obtain ⟨⟨f, c₃⟩, h₃, h⟩ := Except.bind_eq_ok h
  obtain ⟨frac, hfrac, hcon₃⟩ := parseFraction_sound h₃
  obtain ⟨⟨e, c₄⟩, h₄, h⟩ := Except.bind_eq_ok h
  obtain ⟨exp, hexp, hcon₄⟩ := parseExponent_sound h₄
  obtain ⟨v', h₅, h⟩ := Except.bind_eq_ok h
  cases h
  have hcon := hcon₁.trans (hcon₂.trans (hcon₃.trans hcon₄))
  rw [hcon.take] at h₅
  exact ⟨_, convertNumber_sound hsign hds hfrac hexp h₅, hcon⟩

/-! ## Values -/

omit [DoubleText D] in
theorem parseWord_sound {c c' : Cursor} {word what : String} {w v : JsonValue D}
    (h : parseWord c word w what = .ok (v, c')) : v = w ∧ Consumes c c' (utf8 word) := by
  unfold parseWord at h
  split at h
  · cases h
  rename_i hw
  simp only [Bool.or_eq_true, decide_eq_true_eq, bne_iff_ne, ne_eq, not_or, Decidable.not_not] at hw
  cases h
  have htake := List.take_append_drop (utf8 word).length c.rest
  rw [hw.2] at htake
  exact ⟨rfl, htake.symm, rfl⟩

/-- What a run of `parseArray` or `parseObject` took off is a text of its value. -/
def ValueFrom (c c' : Cursor) (v : JsonValue D) : Prop := ∃ s, Derives (.value v) s ∧ Consumes c c' s

/-- What the loop of `parseArray` took off, from a cursor that is not at a blank: the closing bracket, or elements and
the closing bracket. -/
def ElemsFrom (c c' : Cursor) (arr : List (JsonValue D)) (v : JsonValue D) : Prop :=
  (c.cur = chRBrack ∧ v = .array arr ∧ Consumes c c' [chRBrack]) ∨
    (c.cur ≠ chRBrack ∧ ∃ vs s, Derives (.elems vs) s ∧ v = .array (arr ++ vs) ∧ Consumes c c' (s ++ [chRBrack]))

/-- The same for the loop of `parseObject`. -/
def MembersFrom (c c' : Cursor) (obj : List (List UInt8 × JsonValue D)) (v : JsonValue D) : Prop :=
  (c.cur = chRBrace ∧ v = .object obj ∧ Consumes c c' [chRBrace]) ∨
    (c.cur ≠ chRBrace ∧ ∃ kvs s, Derives (.members kvs) s ∧
      v = .object (kvs.foldl (fun m p => OrdMap.insert p.1 p.2 m) obj) ∧ Consumes c c' (s ++ [chRBrace]))

theorem parseValue_sound_succ {fuel : Nat} {c c' : Cursor} {v : JsonValue D}
    (harr : ∀ c c' (v : JsonValue D), parseArray fuel c = .ok (v, c') → ValueFrom c c' v)
    (hobj : ∀ c c' (v : JsonValue D), parseObject fuel c = .ok (v, c') → ValueFrom c c' v)
    (h : parseValue (fuel + 1) c = .ok (v, c')) : ValueFrom (skipWhitespace c) c' v := by
  unfold parseValue at h
  simp only at h
  split at h
  · cases h
  split at h
  · exact hobj _ _ _ h
  split at h
  · exact harr _ _ _ h
  split at h
  · obtain ⟨⟨t, c₁⟩, h₁, h₂⟩ := Except.bind_eq_ok h
    cases h₂
    obtain ⟨s, hs, hcon⟩ := parseString_sound h₁
    exact ⟨_, .string hs, hcon⟩
  split at h
  · obtain ⟨rfl, hcon⟩ := parseWord_sound h
    exact ⟨_, .true, hcon⟩
  split at h
  · obtain ⟨rfl, hcon⟩ := parseWord_sound h
    exact ⟨_, .false, hcon⟩
  split at h
  · obtain ⟨rfl, hcon⟩ := parseWord_sound h
    exact ⟨_, .null, hcon⟩
  split at h
  · rename_i hnum
    simp only [Bool.or_eq_true, beq_iff_eq] at hnum
    exact parseNumber_sound h hnum
  · cases h

theorem parseArray_sound_succ {fuel : Nat} {c c' : Cursor} {v : JsonValue D}
    (helems : ∀ c c' (v : JsonValue D), skipWhitespace c = c → parseElems fuel [] c = .ok (v, c') →
      ElemsFrom c c' [] v)
    (h : parseArray (fuel + 1) c = .ok (v, c')) : ValueFrom c c' v := by
  unfold parseArray at h
  split at h
  · cases h
  rename_i hc
  simp only [Bool.or_eq_true, bne_iff_ne, ne_eq, not_or, Decidable.not_not] at hc
  have hopen := Cursor.consumes_next hc.1
  rw [hc.2] at hopen
  obtain ⟨w, hw, hcon⟩ := skipWhitespace_consumes c.next
  rcases helems _ _ _ (skipWhitespace_idem _) h with ⟨-, rfl, hclose⟩ | ⟨-, vs, s, hs, rfl, hrest⟩
  · exact ⟨_, .emptyArray hw, hopen.trans (hcon.trans hclose)⟩
  · exact ⟨_, .array hw hs, hopen.trans (hcon.trans hrest)⟩

theorem parseElems_sound_succ {fuel : Nat} {c c' : Cursor} {arr : List (JsonValue D)} {v : JsonValue D}
    (hval : ∀ c c' (v : JsonValue D), parseValue fuel c = .ok (v, c') → ValueFrom (skipWhitespace c) c' v)
    (helems : ∀ arr c c' (v : JsonValue D), skipWhitespace c = c → parseElems fuel arr c = .ok (v, c') →
      ElemsFrom c c' arr v)
    (hskip : skipWhitespace c = c) (h : parseElems (fuel + 1) arr c = .ok (v, c')) : ElemsFrom c c' arr v := by
  unfold parseElems at h
  split at h
  · rename_i hc
    simp only [Bool.and_eq_true, Bool.not_eq_true', bne_iff_ne, ne_eq] at hc
    obtain ⟨⟨x, c₁⟩, h₁, h₂⟩ := Except.bind_eq_ok h
    obtain ⟨s, hs, hcon₁⟩ := hval _ _ _ h₁
    rw [hskip] at hcon₁
    obtain ⟨w, hw, hcon₂⟩ := skipWhitespace_consumes c₁
    refine .inr ⟨hc.2, ?_⟩
    simp only at h₂
    split at h₂
    · rename_i hcomma
      simp only [Bool.and_eq_true, Bool.not_eq_true', beq_iff_eq] at hcomma
      have hcon₃ := Cursor.consumes_next (c := skipWhitespace c₁) (by simp [hcomma.1])
      rw [hcomma.2] at hcon₃
      obtain ⟨w', hw', hcon₄⟩ := skipWhitespace_consumes (skipWhitespace c₁).next
      split at h₂
      · cases h₂
      rename_i hnext
      simp only [Bool.or_eq_true, beq_iff_eq, not_or] at hnext
      rcases helems _ _ _ _ (skipWhitespace_idem _) h₂ with ⟨hcl, -⟩ | ⟨-, vs, t, ht, rfl, hcon₅⟩
      · exact absurd hcl hnext.2
      · refine ⟨x :: vs, _, .elem hs hw hw' ht, by simp, ?_⟩
        have hcon := hcon₁.trans (hcon₂.trans (hcon₃.trans (hcon₄.trans hcon₅)))
        simpa using hcon
    · split at h₂
      · cases h₂
      rename_i hcl
      simp only [bne_iff_ne, ne_eq, Decidable.not_not] at hcl
      -- the loop ends at the bracket: no further elements
      rcases helems _ _ _ _ (skipWhitespace_idem _) h₂ with ⟨-, rfl, hcon₃⟩ | ⟨hne, -⟩
      · refine ⟨[x], _, .lastElem hs hw, rfl, ?_⟩
        have hcon := hcon₁.trans (hcon₂.trans hcon₃)
        simpa using hcon
      · exact absurd hcl hne
  · split at h
    · cases h
    rename_i hcl
    simp only [Bool.or_eq_true, bne_iff_ne, ne_eq, not_or, Decidable.not_not] at hcl
    cases h
    have hcon := Cursor.consumes_next hcl.1
    rw [hcl.2] at hcon
    exact .inl ⟨hcl.2, rfl, hcon⟩

theorem parseObject_sound_succ {fuel : Nat} {c c' : Cursor} {v : JsonValue D}
    (hmem : ∀ c c' (v : JsonValue D), skipWhitespace c = c → parseMembers fuel [] c = .ok (v, c') →
      MembersFrom c c' [] v)
    (h : parseObject (fuel + 1) c = .ok (v, c')) : ValueFrom c c' v := by
  unfold parseObject at h
  split at h
  · cases h
  rename_i hc
  simp only [Bool.or_eq_true, bne_iff_ne, ne_eq, not_or, Decidable.not_not] at hc
  have hopen := Cursor.consumes_next hc.1
  rw [hc.2] at hopen
  obtain ⟨w, hw, hcon⟩ := skipWhitespace_consumes c.next
  rcases hmem _ _ _ (skipWhitespace_idem _) h with ⟨-, rfl, hclose⟩ | ⟨-, kvs, s, hs, rfl, hrest⟩
  · exact ⟨_, .emptyObject hw, hopen.trans (hcon.trans hclose)⟩
  · exact ⟨_, .object hw hs, hopen.trans (hcon.trans hrest)⟩

theorem parseMembers_sound_succ {fuel : Nat} {c c' : Cursor} {obj : List (List UInt8 × JsonValue D)}
    {v : JsonValue D}
    (hval : ∀ c c' (v : JsonValue D), parseValue fuel c = .ok (v, c') → ValueFrom (skipWhitespace c) c' v)
    (hmem : ∀ obj c c' (v : JsonValue D), skipWhitespace c = c → parseMembers fuel obj c = .ok (v, c') →
      MembersFrom c c' obj v)
    (h : parseMembers (fuel + 1) obj c = .ok (v, c')) : MembersFrom c c' obj v := by
  unfold parseMembers at h
  split at h
  · rename_i hc
    simp only [Bool.and_eq_true, Bool.not_eq_true', bne_iff_ne, ne_eq] at hc
    obtain ⟨⟨k, c₁⟩, h₁, h₂⟩ := Except.bind_eq_ok h
    obtain ⟨ks, hks, hcon₁⟩ := parseString_sound h₁
    obtain ⟨w, hw, hcon₂⟩ := skipWhitespace_consumes c₁
    refine .inr ⟨hc.2, ?_⟩
    simp only at h₂
    split at h₂
    · cases h₂
    rename_i hcolon
    simp only [Bool.or_eq_true, bne_iff_ne, ne_eq, not_or, Decidable.not_not] at hcolon
    have hcon₃ := Cursor.consumes_next hcolon.1
    rw [hcolon.2] at hcon₃
    obtain ⟨w', hw', hcon₄⟩ := skipWhitespace_consumes (skipWhitespace c₁).next
    obtain ⟨⟨x, c₂⟩, h₃, h₄⟩ := Except.bind_eq_ok h₂
    obtain ⟨s, hs, hcon₅⟩ := hval _ _ _ h₃
    rw [skipWhitespace_idem] at hcon₅
    obtain ⟨w'', hw'', hcon₆⟩ := skipWhitespace_consumes c₂
    have hfirst := hcon₁.trans (hcon₂.trans (hcon₃.trans (hcon₄.trans (hcon₅.trans hcon₆))))
    simp only at h₄
    split at h₄
    · rename_i hcomma
      simp only [Bool.and_eq_true, Bool.not_eq_true', beq_iff_eq] at hcomma
      have hcon₇ := Cursor.consumes_next (c := skipWhitespace c₂) (by simp [hcomma.1])
      rw [hcomma.2] at hcon₇
      obtain ⟨w₃, hw₃, hcon₈⟩ := skipWhitespace_consumes (skipWhitespace c₂).next
      split at h₄
      · cases h₄
      rename_i hnext
      simp only [Bool.or_eq_true, beq_iff_eq, not_or] at hnext
      rcases hmem _ _ _ _ (skipWhitespace_idem _) h₄ with ⟨hcl, -⟩ | ⟨-, kvs, t, ht, rfl, hcon₉⟩
      · exact absurd hcl hnext.2
      · refine ⟨(k, x) :: kvs, _, .member hks hw hw' hs hw'' hw₃ ht, rfl, ?_⟩
        have hcon := hfirst.trans (hcon₇.trans (hcon₈.trans hcon₉))
        simpa using hcon
    · split at h₄
      · cases h₄
      rename_i hcl
      simp only [bne_iff_ne, ne_eq, Decidable.not_not] at hcl
      rcases hmem _ _ _ _ (skipWhitespace_idem _) h₄ with ⟨-, rfl, hcon₇⟩ | ⟨hne, -⟩
      · refine ⟨[(k, x)], _, .lastMember hks hw hw' hs hw'', rfl, ?_⟩
        have hcon := hfirst.trans hcon₇
        simpa using hcon
      · exact absurd hcl hne
  · split at h
    · cases h
    rename_i hcl
    simp only [Bool.or_eq_true, bne_iff_ne, ne_eq, not_or, Decidable.not_not] at hcl
    cases h
    have hcon := Cursor.consumes_next hcl.1
    rw [hcl.2] at hcon
    exact .inl ⟨hcl.2, rfl, hcon⟩

/-- The five functions together, by induction on the bound of their depth. -/
theorem parse_sound : ∀ fuel : Nat,
    (∀ c c' (v : JsonValue D), parseValue fuel c = .ok (v, c') → ValueFrom (skipWhitespace c) c' v) ∧
    (∀ c c' (v : JsonValue D), parseArray fuel c = .ok (v, c') → ValueFrom c c' v) ∧
    (∀ arr c c' (v : JsonValue D), skipWhitespace c = c → parseElems fuel arr c = .ok (v, c') →
      ElemsFrom c c' arr v) ∧
    (∀ c c' (v : JsonValue D), parseObject fuel c = .ok (v, c') → ValueFrom c c' v) ∧
    (∀ obj c c' (v : JsonValue D), skipWhitespace c = c → parseMembers fuel obj c = .ok (v, c') →
      MembersFrom c c' obj v)
  | 0 => by
    refine ⟨?_, ?_, ?_, ?_, ?_⟩
    · intro c c' v h; simp [parseValue] at h
    · intro c c' v h; simp [parseArray] at h
    · intro arr c c' v _ h; simp [parseElems] at h
    · intro c c' v h; simp [parseObject] at h
    · intro obj c c' v _ h; simp [parseMembers] at h
  | fuel + 1 => by
    obtain ⟨hval, harr, helems, hobj, hmem⟩ := parse_sound fuel
    exact ⟨fun _ _ _ h => parseValue_sound_succ harr hobj h,
      fun _ _ _ h => parseArray_sound_succ (helems []) h,
      fun _ _ _ _ hs h => parseElems_sound_succ hval helems hs h,
      fun _ _ _ h => parseObject_sound_succ (hmem []) h,
      fun _ _ _ _ _ h => parseMembers_sound_succ hval hmem h⟩

/-- **What `deserialize` accepts is a text of the value it returns.** -/
theorem text_of_deserialize {json : List UInt8} {v : JsonValue D} (h : deserialize json = .ok v) : Text json v := by
  obtain ⟨⟨root, c⟩, h₁, h₂⟩ := Except.bind_eq_ok h
  simp only at h₂
  split at h₂
  · cases h₂
  rename_i hlen
  cases h₂
  obtain ⟨w, hw, hcon₁⟩ := skipWhitespace_consumes ⟨0, json⟩
  obtain ⟨s, hs, hcon₂⟩ := (parse_sound _).1 _ _ _ h₁
  obtain ⟨w', hw', hcon₃⟩ := skipWhitespace_consumes c
  have hcon := hcon₁.trans (hcon₂.trans hcon₃)
  -- the index has reached the end, so nothing is left
  have hrest := hcon.rest
  have hidx := hcon.index
  have hnil : (skipWhitespace c).rest = [] := by
    have hl := congrArg List.length hrest
    simp only [List.length_append] at hl hidx
    exact List.eq_nil_of_length_eq_zero (by omega)
  refine ⟨w, s, w', ?_, hw, hs, hw'⟩
  simpa [hnil] using hrest

end Sound

end MiniRos2

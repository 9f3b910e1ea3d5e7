import MiniRos2.JsonRoundTrip
/-!
# JsonDelimited — a text says where it ends

A value that is no number ends with the byte that closes it, so a reader accepts blanks behind its text and nothing else
(`deserialize_append`), and no value's text is a proper front of it: a front that is a text would be followed by blanks
only, and a value's text does not end with a blank.  A number is no front either, for its first byte starts no other
value.
-/
namespace MiniRos2

variable {D : Type} [DoubleText D]

/-- The first byte of a value's text says whether the value is a number. -/
theorem isNumber_of_head {v : JsonValue D} {b : UInt8} {t : List UInt8} (h : Derives (.value v) (b :: t)) :
    v.isNumber = true ↔ b = chMinus ∨ Decimal.isDigit b = true := by
  generalize hsym : Sym.value v = x at h
  generalize hs : b :: t = s at h
  have hnumber : ∀ {sign ds l : List UInt8}, Sign sign → Digits ds → b :: t = sign ++ (ds ++ l) →
      b = chMinus ∨ Decimal.isDigit b = true := by
    intro sign ds l hsign hd heq
    obtain ⟨c, l', hc, hhead⟩ := numeral_head hsign hd l
    rw [hc, List.cons.injEq] at heq
    rw [heq.1]
    exact hhead
  -- every other value starts with a letter, a quote or a bracket
  have hother : ∀ {c : UInt8} {l : List UInt8}, v.isNumber = false → b :: t = c :: l →
      ¬ (c = chMinus ∨ Decimal.isDigit c = true) → (v.isNumber = true ↔ b = chMinus ∨ Decimal.isDigit b = true) := by
    intro c l hv heq hc
    rw [(List.cons.inj heq).1]
    exact iff_of_false (by simp [hv]) hc
  cases h with
  | @int sign ds hsign hd =>
    cases hsym
    exact iff_of_true rfl (hnumber hsign hd (l := []) (by simpa using hs))
  | double hsign hd =>
    cases hsym
    exact iff_of_true rfl (hnumber hsign hd hs)
  | true =>
    cases hsym
    exact hother rfl (hs.trans (rfl : _ = chT :: _)) (by decide)
  | false =>
    cases hsym
    exact hother rfl (hs.trans (rfl : _ = chF :: _)) (by decide)
  | null =>
    cases hsym
    exact hother rfl (hs.trans (rfl : _ = chN :: _)) (by decide)
  | string _ =>
    cases hsym
    exact hother rfl hs (by decide)
  | emptyArray _ =>
    cases hsym
    exact hother rfl hs (by decide)
  | array _ _ =>
    cases hsym
    exact hother rfl hs (by decide)
  | emptyObject _ =>
    cases hsym
    exact hother rfl hs (by decide)
  | object _ _ =>
    cases hsym
    exact hother rfl hs (by decide)
  | _ => cases hsym

/-- **No value's text is a proper front of a text that is no number's.** -/
theorem not_derives_front_of {v v' : JsonValue D} {s r : List UInt8} (h : Derives (.value v) (s ++ r))
    (hn : v.isNumber = false) (hr : r ≠ []) : ¬ Derives (.value v') s := by
  intro hs
  have hn' : v'.isNumber = false := by
    obtain ⟨b, t, rfl, -⟩ := value_head hs
    by_contra hnum
    rw [Bool.not_eq_false, isNumber_of_head hs, ← isNumber_of_head h, hn] at hnum
    cases hnum
  have hparse : deserialize (s ++ r) = .ok v := deserialize_of_text (by simpa using text_of_derives h blank_nil)
  exact not_blank_of_suffix h hr ((deserialize_append hs hn').1 hparse).2

/-- **A text says where it ends**: behind it the parser accepts blanks and nothing else, and gives the message; and it
throws on every proper front of the text. -/
structure SelfDelimiting (m : Message D) : Prop where
  accepts : ∀ t, (∃ v : JsonValue D, deserialize (m.val.serialize ++ t) = .ok v) ↔ Blank t
  gives : ∀ t, Blank t → deserialize (m.val.serialize ++ t) = .ok m.val
  front : ∀ k, k < m.val.serialize.length →
    ∃ e, (deserialize (m.val.serialize.take k) : Except Abort (JsonValue D)) = .error (.throws e)

/-- **The text of a message that is no number is self-delimiting exactly when no string and no key has the byte 8.** -/
theorem selfDelimiting_iff (m : Message D) (hn : m.val.isNumber = false) :
    SelfDelimiting m ↔ m.val.NoBackspace := by
  constructor
  · intro h
    by_contra hb
    obtain ⟨e, he⟩ := deserialize_backspace m hb []
    cases (h.gives [] blank_nil).symm.trans he
  · intro hb
    have hm := derives_message m hb
    have happend : ∀ (t : List UInt8) (v : JsonValue D),
        deserialize (m.val.serialize ++ t) = .ok v ↔ v = m.val ∧ Blank t := fun t v => deserialize_append hm hn
    refine ⟨fun t => ⟨?_, fun ht => ⟨m.val, (happend t m.val).2 ⟨rfl, ht⟩⟩⟩,
      fun t ht => (happend t m.val).2 ⟨rfl, ht⟩, fun k hk => ?_⟩
    · rintro ⟨v, hv⟩
      exact ((happend t v).1 hv).2
    · rcases (deserialize_decides (D := D) (m.val.serialize.take k)).2 with ⟨v, hv⟩ | he
      · obtain ⟨s, r, hsr, hr, hs⟩ := front_of_text hm hk hv
        rw [hsr] at hm
        exact absurd hs (not_derives_front_of hm hn hr)
      · exact he

/-- A list of one text. -/
def listOfOne : Message (List UInt8) where
  val := .array [.string (utf8 "a]")]
  doubleFree := by simp [JsonValue.DoubleFree, JsonValue.All, JsonValue.AllElems]
  ordered := by simp [JsonValue.Ordered, JsonValue.All, JsonValue.AllElems]

theorem noBackspace_listOfOne : listOfOne.val.NoBackspace :=
  noBackspace_array (fun v hv => by
    rw [List.mem_singleton.1 hv]
    exact JsonValue.onStrings_string (by decide +kernel))

theorem selfDelimiting_list : SelfDelimiting listOfOne :=
  (selfDelimiting_iff listOfOne rfl).2 noBackspace_listOfOne

/-- The text of a single backspace is not parsed, although nothing stands behind it. -/
theorem not_always_selfDelimiting :
    ¬ ∀ m : Message (List UInt8), m.val.isNumber = false → SelfDelimiting m := by
  intro h
  have hok := (h backspaceMessage rfl).gives [] blank_nil
  obtain ⟨e, he⟩ := deserialize_backspace backspaceMessage
    (fun hb => hb.1 [8] rfl List.mem_cons_self) []
  cases hok.symm.trans he

end MiniRos2

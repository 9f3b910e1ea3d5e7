import MiniRos2.JsonRoundTrip
import MiniRos2.Lib.StandardJson
/-!
# JsonStandard — what `serialize` writes and standard JSON

`escapeString` has a short escape for five control characters and writes every other one as it is.  Where no string and
no key holds another control character, what `serialize` writes is standard JSON (`exists_derives`); where one does, it
is not, since the byte stands in the text (`strings_of_serialize`).
-/
namespace MiniRos2

open StandardJson (StringChar quotationMark reverseSolidus beginObject endObject)

/-- No control character that `escapeString` writes as it is. -/
def NoBareControl (s : List UInt8) : Prop := ∀ b ∈ s, 32 ≤ b ∨ b = 8 ∨ b = 9 ∨ b = 10 ∨ b = 12 ∨ b = 13

namespace JsonValue

/-! ## One string -/

/-- **What `escapeString` does with one byte**: a short escape, or the byte as it is. -/
theorem escapeByte_cases (c : UInt8) :
    (∃ e ∈ [quotationMark, reverseSolidus, '/', 'b', 'f', 'n', 'r', 't'],
      escapeByte c = Utf8.encode [reverseSolidus, e] ∧ (32 ≤ c ∨ c = 8 ∨ c = 9 ∨ c = 10 ∨ c = 12 ∨ c = 13)) ∨
    (escapeByte c = [c] ∧ c ≠ chQuote ∧ c ≠ chBackslash ∧ c ≠ 8 ∧ c ≠ 9 ∧ c ≠ 10 ∧ c ≠ 12 ∧ c ≠ 13) := by
  unfold escapeByte
  split
  · rename_i h
    exact .inl ⟨quotationMark, by simp, rfl, by rw [h]; decide⟩
  split
  · rename_i h
    exact .inl ⟨reverseSolidus, by simp, rfl, by rw [h]; decide⟩
  split
  · rename_i h
    exact .inl ⟨'b', by simp, rfl, by rw [h]; decide⟩
  split
  · rename_i h
    exact .inl ⟨'f', by simp, rfl, by rw [h]; decide⟩
  split
  · rename_i h
    exact .inl ⟨'n', by simp, rfl, by rw [h]; decide⟩
  split
  · rename_i h
    exact .inl ⟨'r', by simp, rfl, by rw [h]; decide⟩
  split
  · rename_i h
    exact .inl ⟨'t', by simp, rfl, by rw [h]; decide⟩
  · rename_i hquote hback hb hf hn hr ht
    exact .inr ⟨rfl, hquote, hback, hb, ht, hn, hf, hr⟩

theorem escapeString_append (s t : List UInt8) : escapeString (s ++ t) = escapeString s ++ escapeString t :=
  List.flatMap_append

theorem escapeString_of_le : ∀ {s : List UInt8}, (∀ b ∈ s, 128 ≤ b) → escapeString s = s
  | [], _ => rfl
  | b :: s, h => by
    rw [List.forall_mem_cons] at h
    have hne : ∀ c < (128 : UInt8), b ≠ c := fun c hc he => by
      rw [he] at h
      exact absurd h.1 (UInt8.not_le.2 hc)
    have hb : escapeByte b = [b] := by
      rw [escapeByte, if_neg (hne _ (by decide)), if_neg (hne _ (by decide)), if_neg (hne _ (by decide)),
        if_neg (hne _ (by decide)), if_neg (hne _ (by decide)), if_neg (hne _ (by decide)),
        if_neg (hne _ (by decide))]
    calc escapeString (b :: s) = escapeByte b ++ escapeString s := rfl
      _ = b :: s := by rw [hb, escapeString_of_le h.2]; rfl

/-- `s` is written as the inside of a standard string. -/
def Escapes (s : List UInt8) : Prop := ∃ t, StandardJson.StringBody t ∧ escapeString s = Utf8.encode t

theorem exists_stringChar {c : Char} (hc : NoBareControl (String.utf8EncodeChar c)) :
    ∃ s, StringChar s ∧ escapeString (String.utf8EncodeChar c) = Utf8.encode s := by
  rcases Nat.lt_or_ge c.toNat 128 with h | h
  · have henc := Utf8.encodeChar_of_lt h
    have hnat : (UInt8.ofNat c.toNat).toNat = c.toNat := by
      rw [UInt8.toNat_ofNat']
      omega
    have hesc : escapeString [UInt8.ofNat c.toNat] = escapeByte (UInt8.ofNat c.toNat) := List.append_nil _
    rw [henc] at hc ⊢
    rw [hesc]
    rcases escapeByte_cases (UInt8.ofNat c.toNat) with ⟨e, he, hes, -⟩ | ⟨hes, hq, hb, h8, h9, h10, h12, h13⟩
    · exact ⟨_, .escape he, hes⟩
    · have hle : 32 ≤ UInt8.ofNat c.toNat := by
        rcases hc _ List.mem_cons_self with hle | h | h | h | h | h
        · exact hle
        all_goals contradiction
      refine ⟨[c], .unescaped ⟨?_, ?_, ?_⟩, ?_⟩
      · rw [← hnat]
        exact UInt8.le_iff_toNat_le.1 hle
      · rintro rfl
        exact hq rfl
      · rintro rfl
        exact hb rfl
      · rw [hes, Utf8.encode_cons, henc]
        rfl
  · have hle := Utf8.le_of_mem_encodeChar h
    refine ⟨[c], .unescaped ⟨by omega, ?_, ?_⟩, ?_⟩
    · rintro rfl
      exact absurd h (by decide)
    · rintro rfl
      exact absurd h (by decide)
    · rw [escapeString_of_le hle, Utf8.encode_cons, Utf8.encode_nil, List.append_nil]

theorem escapes_encode : ∀ t : List Char, NoBareControl (Utf8.encode t) → Escapes (Utf8.encode t)
  | [], _ => ⟨[], .nil, rfl⟩
  | c :: t, h => by
    rw [Utf8.encode_cons] at h ⊢
    obtain ⟨s, hs, hes⟩ := exists_stringChar (fun b hb => h b (List.mem_append_left _ hb))
    obtain ⟨r, hr, her⟩ := escapes_encode t (fun b hb => h b (List.mem_append_right _ hb))
    refine ⟨s ++ r, .cons hs hr, ?_⟩
    rw [escapeString_append, hes, her, Utf8.encode_append]

theorem escapes_of_valid {s : List UInt8} (hs : Utf8.Valid s) (hc : NoBareControl s) : Escapes s := by
  obtain ⟨t, rfl⟩ := hs
  exact escapes_encode t hc

/-- A byte of `s` has a short escape, or it stands in what `escapeString` writes. -/
theorem escaped_or_mem {s : List UInt8} {b : UInt8} (hb : b ∈ s) :
    (32 ≤ b ∨ b = 8 ∨ b = 9 ∨ b = 10 ∨ b = 12 ∨ b = 13) ∨ b ∈ escapeString s := by
  rcases escapeByte_cases b with ⟨_, -, -, h⟩ | ⟨h, -⟩
  · exact .inl h
  · exact .inr (List.mem_flatMap.2 ⟨b, hb, by rw [h]; exact List.mem_cons_self⟩)

/-! ## Values without other control characters -/

variable {D : Type}


variable [DoubleText D]

theorem str_of_escapes {s : List UInt8} (h : Escapes s) :
    ∃ t, StandardJson.Str t ∧ chQuote :: (escapeString s ++ [chQuote]) = Utf8.encode t := by
  obtain ⟨t, ht, he⟩ := h
  refine ⟨_, .mk ht, ?_⟩
  rw [he, Utf8.encode_cons, Utf8.encode_append]
  rfl

theorem isDigit_asciiChar {b : UInt8} (h : Decimal.isDigit b = true) : (Utf8.asciiChar b).isDigit := by
  obtain ⟨hlo, hhi⟩ := Decimal.toNat_of_isDigit h
  have hnat : (Utf8.asciiChar b).toNat = b.toNat :=
    Utf8.asciiChar_toNat (UInt8.lt_iff_toNat_lt.2 (Nat.lt_of_le_of_lt hhi (by decide)))
  rw [Char.isDigit_iff_toNat, hnat]
  exact ⟨hlo, hhi⟩

theorem intPart_digits (n : Nat) : StandardJson.IntPart ((Decimal.digits n).map Utf8.asciiChar) := by
  have hdig := Decimal.isDigit_of_mem_digits n
  rcases Decimal.digits_head n with h | ⟨b, ds, h, hb⟩
  · rw [h]
    exact .zero
  · rw [h] at hdig ⊢
    rw [List.forall_mem_cons] at hdig
    refine .digits (isDigit_asciiChar hdig.1) (fun he => ?_) (fun c hc => ?_)
    · have hlt : b.toNat < 128 := Nat.lt_of_le_of_lt (Decimal.toNat_of_isDigit hdig.1).2 (by decide)
      have hnat := Utf8.asciiChar_toNat (UInt8.lt_iff_toNat_lt.2 hlt)
      rw [he] at hnat
      exact hb (UInt8.toNat_inj.1 hnat.symm)
    · obtain ⟨d, hd, rfl⟩ := List.mem_map.1 hc
      exact isDigit_asciiChar (hdig.2 d hd)

theorem encode_digits (n : Nat) : Utf8.encode ((Decimal.digits n).map Utf8.asciiChar) = Decimal.digits n :=
  Utf8.encode_map_asciiChar (fun b hb => UInt8.lt_iff_toNat_lt.2
    (Nat.lt_of_le_of_lt (Decimal.toNat_of_isDigit (Decimal.isDigit_of_mem_digits n b hb)).2 (by decide)))

theorem exists_number (n : Int) : ∃ t, StandardJson.Number t ∧ printInt n = Utf8.encode t := by
  unfold printInt
  split
  · refine ⟨_, .mk (.inr rfl) (intPart_digits n.natAbs) .none .none, ?_⟩
    rw [List.append_nil, Utf8.encode_append, List.append_nil, encode_digits]
    rfl
  · refine ⟨_, .mk (.inl rfl) (intPart_digits n.natAbs) .none .none, ?_⟩
    rw [List.append_nil, List.nil_append, List.append_nil, encode_digits]

mutual

/-- **Every value whose strings are escaped is written as a value of the standard**: by induction on the value. -/
theorem exists_derives : ∀ v : JsonValue D, v.DoubleFree → v.Strings Escapes →
    ∃ t, StandardJson.Derives .value t ∧ v.serialize = Utf8.encode t
  | .null, _, _ => ⟨_, .null, rfl⟩
  | .bool false, _, _ => ⟨_, .false, rfl⟩
  | .bool true, _, _ => ⟨_, .true, rfl⟩
  | .int n, _, _ => by
    obtain ⟨t, ht, he⟩ := exists_number n.toInt
    exact ⟨t, .number ht, he⟩
  | .double d, hd, _ => absurd rfl (hd d)
  | .string s, _, hs => by
    obtain ⟨t, ht, he⟩ := str_of_escapes (hs.1 s rfl)
    exact ⟨t, .string ht, he⟩
  | .array [], _, _ => ⟨_, .emptyArray (.self '[') (.self ']'), rfl⟩
  | .array (v :: vs), hd, hs => by
    obtain ⟨t, ht, he⟩ := exists_derivesElems (v :: vs) hd.2 hs.2 (List.cons_ne_nil _ _)
    refine ⟨_, .array (.self '[') ht (.self ']'), ?_⟩
    rw [serialize, he, Utf8.encode_append, Utf8.encode_append]
    rfl
  | .object [], _, _ => ⟨_, .emptyObject (.self beginObject) (.self endObject), rfl⟩
  | .object (p :: kvs), hd, hs => by
    obtain ⟨t, ht, he⟩ := exists_derivesMembers (p :: kvs) hd.2 hs.2 (hs.1.2 _ rfl) (List.cons_ne_nil _ _)
    refine ⟨_, .object (.self beginObject) ht (.self endObject), ?_⟩
    rw [serialize, he, Utf8.encode_append, Utf8.encode_append]
    rfl

theorem exists_derivesElems : ∀ vs : List (JsonValue D), AllElems (fun w => ∀ d, w ≠ .double d) vs →
    AllElems (OnStrings Escapes) vs → vs ≠ [] →
    ∃ t, StandardJson.Derives .elements t ∧ serializeElems 0 vs = Utf8.encode t
  | [], _, _, hne => absurd rfl hne
  | [v], hd, hs, _ => by
    obtain ⟨t, ht, he⟩ := exists_derives v hd.1 hs.1
    refine ⟨t, .lastElement ht, ?_⟩
    rw [serializeElems, if_neg (by omega), List.nil_append, he]
    exact List.append_nil _
  | v :: v' :: vs, hd, hs, _ => by
    obtain ⟨t, ht, he⟩ := exists_derives v hd.1 hs.1
    obtain ⟨r, hr, her⟩ := exists_derivesElems (v' :: vs) hd.2 hs.2 (List.cons_ne_nil _ _)
    refine ⟨_, .element ht (.self ',') hr, ?_⟩
    rw [serializeElems, serializeElems_succ, if_neg (by omega), List.nil_append, he, her, Utf8.encode_append,
      Utf8.encode_append]
    rfl

theorem exists_derivesMembers : ∀ kvs : List (List UInt8 × JsonValue D),
    AllMembers (fun w => ∀ d, w ≠ .double d) kvs → AllMembers (OnStrings Escapes) kvs → (∀ p ∈ kvs, Escapes p.1) →
    kvs ≠ [] → ∃ t, StandardJson.Derives .members t ∧ serializeMembers 0 kvs = Utf8.encode t
  | [], _, _, _, hne => absurd rfl hne
  | [(k, v)], hd, hs, hk, _ => by
    obtain ⟨t, ht, he⟩ := exists_derives v hd.1 hs.1
    obtain ⟨c, hc, hec⟩ := str_of_escapes (hk _ List.mem_cons_self)
    refine ⟨_, .lastMember hc (.self ':') ht, ?_⟩
    rw [Utf8.encode_append, Utf8.encode_append, ← he, ← hec, serializeMembers, if_neg (by omega), List.nil_append,
      List.cons_append, List.append_assoc]
    exact congrArg (fun l => chQuote :: (escapeString k ++ chQuote :: chColon :: l)) (List.append_nil _)
  | (k, v) :: p :: kvs, hd, hs, hk, _ => by
    rw [List.forall_mem_cons] at hk
    obtain ⟨t, ht, he⟩ := exists_derives v hd.1 hs.1
    obtain ⟨c, hc, hec⟩ := str_of_escapes hk.1
    obtain ⟨r, hr, her⟩ := exists_derivesMembers (p :: kvs) hd.2 hs.2 hk.2 (List.cons_ne_nil _ _)
    refine ⟨_, .member hc (.self ':') ht (.self ',') hr, ?_⟩
    rw [Utf8.encode_append, Utf8.encode_append, Utf8.encode_append, Utf8.encode_append, ← he, ← hec, ← her,
      serializeMembers, serializeMembers_succ, if_neg (by omega), List.nil_append, List.cons_append,
      List.append_assoc]
    rfl

end

/-! ## Where every byte of a string goes -/

mutual

/-- **The text of a value holds the written text of its strings and keys**: where `P` fails of no byte of it, it
fails of no byte of theirs. -/
theorem strings_of_serialize (P : UInt8 → Prop) : ∀ v : JsonValue D, (∀ b ∈ v.serialize, P b) →
    v.Strings (fun s => ∀ b ∈ escapeString s, P b)
  | .null, _ => onStrings_of_ne (fun _ he => nomatch he) (fun _ he => nomatch he)
  | .bool _, _ => onStrings_of_ne (fun _ he => nomatch he) (fun _ he => nomatch he)
  | .int _, _ => onStrings_of_ne (fun _ he => nomatch he) (fun _ he => nomatch he)
  | .double _, _ => onStrings_of_ne (fun _ he => nomatch he) (fun _ he => nomatch he)
  | .string _, h => onStrings_string (fun b hb => h b (List.mem_cons_of_mem _ (List.mem_append_left _ hb)))
  | .array vs, h => ⟨onStrings_of_ne (fun _ he => nomatch he) (fun _ he => nomatch he),
    strings_of_serializeElems P 0 vs (fun b hb => h b (List.mem_cons_of_mem _ (List.mem_append_left _ hb)))⟩
  | .object kvs, h => by
    obtain ⟨hks, hvs⟩ := strings_of_serializeMembers P 0 kvs (fun b hb =>
      h b (List.mem_cons_of_mem _ (List.mem_append_left _ hb)))
    exact ⟨onStrings_object hks, hvs⟩

theorem strings_of_serializeElems (P : UInt8 → Prop) (i : Nat) : ∀ vs : List (JsonValue D),
    (∀ b ∈ serializeElems i vs, P b) → AllElems (OnStrings fun s => ∀ b ∈ escapeString s, P b) vs
  | [], _ => trivial
  | v :: vs, h => by
    rw [serializeElems] at h
    have hrest := fun b hb => h b (List.mem_append_right _ hb)
    exact ⟨strings_of_serialize P v (fun b hb => hrest b (List.mem_append_left _ hb)),
      strings_of_serializeElems P (i + 1) vs (fun b hb => hrest b (List.mem_append_right _ hb))⟩

theorem strings_of_serializeMembers (P : UInt8 → Prop) (i : Nat) : ∀ kvs : List (List UInt8 × JsonValue D),
    (∀ b ∈ serializeMembers i kvs, P b) → (∀ p ∈ kvs, ∀ b ∈ escapeString p.1, P b) ∧
      AllMembers (OnStrings fun s => ∀ b ∈ escapeString s, P b) kvs
  | [], _ => ⟨List.forall_mem_nil _, trivial⟩
  | (k, v) :: kvs, h => by
    rw [serializeMembers] at h
    have hkey := fun b hb => h b (List.mem_append_right _ (List.mem_cons_of_mem _ hb))
    have hval := fun b hb => hkey b (List.mem_append_right _ (List.mem_cons_of_mem _ (List.mem_cons_of_mem _ hb)))
    obtain ⟨hks, hvs⟩ := strings_of_serializeMembers P (i + 1) kvs (fun b hb =>
      hval b (List.mem_append_right _ hb))
    exact ⟨List.forall_mem_cons.2 ⟨fun b hb => hkey b (List.mem_append_left _ hb), hks⟩,
      strings_of_serialize P v (fun b hb => hval b (List.mem_append_left _ hb)), hvs⟩

end

theorem strings_noBareControl {v : JsonValue D} (hs : v.Strings Utf8.Valid)
    (h : StandardJson.Conforms v.serialize) : v.Strings NoBareControl :=
  Strings.imp₂ (fun _ _ hs b hb => by
    rcases escaped_or_mem hb with hesc | hmem
    · exact hesc
    · rcases hs b hmem with h | h | h | h
      · exact .inl h
      · exact .inr (.inr (.inl h))
      · exact .inr (.inr (.inr (.inl h)))
      · exact .inr (.inr (.inr (.inr (.inr h))))) hs (strings_of_serialize _ v h.plain)

end JsonValue

variable {D : Type} [DoubleText D]

/-- **When `serialize` writes standard JSON**: exactly when no string and no key holds a control character other than
BS, HT, LF, FF and CR. -/
theorem conforms_serialize (v : JsonValue D) (hd : v.DoubleFree) (hs : v.Strings Utf8.Valid) :
    StandardJson.Conforms v.serialize ↔ v.Strings NoBareControl := by
  constructor
  · exact JsonValue.strings_noBareControl hs
  · intro hc
    obtain ⟨t, ht, he⟩ := v.exists_derives hd (.imp₂ (fun _ => JsonValue.escapes_of_valid) hs hc)
    exact ⟨t, ht.text, he⟩

/-- The key `k` with a text of two code points, one of them a line feed. -/
theorem conforms_serialize_lf : StandardJson.Conforms
    (JsonValue.object [([107], .string [195, 169, 10])] : JsonValue (List UInt8)).serialize := by
  have hkey : ∀ p ∈ [(([107] : List UInt8), (JsonValue.string [195, 169, 10] : JsonValue (List UInt8)))],
      Utf8.Valid p.1 ∧ NoBareControl p.1 := fun p hp => by
    rw [List.mem_singleton.1 hp]
    exact ⟨⟨['k'], rfl⟩, List.forall_mem_cons.2 ⟨.inl (by decide), List.forall_mem_nil _⟩⟩
  have htext : NoBareControl [195, 169, 10] :=
    List.forall_mem_cons.2 ⟨.inl (by decide), List.forall_mem_cons.2 ⟨.inl (by decide),
      List.forall_mem_cons.2 ⟨.inr (.inr (.inr (.inl rfl))), List.forall_mem_nil _⟩⟩⟩
  have hd : (JsonValue.object [([107], .string [195, 169, 10])] : JsonValue (List UInt8)).DoubleFree :=
    ⟨(fun _ he => nomatch he), (fun _ he => nomatch he), trivial⟩
  exact (conforms_serialize _ hd ⟨JsonValue.onStrings_object (fun p hp => (hkey p hp).1),
    JsonValue.onStrings_string ⟨['é', '\n'], rfl⟩, trivial⟩).2
    ⟨JsonValue.onStrings_object (fun p hp => (hkey p hp).2), JsonValue.onStrings_string htext, trivial⟩

/-- A published text may hold U+0001, which is written as it is. -/
theorem not_conforms_control : ¬ ∀ v : JsonValue (List UInt8), v.DoubleFree → v.Strings Utf8.Valid →
    StandardJson.Conforms v.serialize := by
  intro h
  have hc := h (.string [1]) (fun _ he => nomatch he) (JsonValue.onStrings_string ⟨['\x01'], by decide⟩)
  exact absurd (hc.plain 1 (by decide)) (by decide)

end MiniRos2

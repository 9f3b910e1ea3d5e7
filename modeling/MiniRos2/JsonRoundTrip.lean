import MiniRos2.JsonEscapes
/-!
# JsonRoundTrip — what `serialize` writes is read back, alone and inside a longer text

A value without doubles whose objects are maps prints as a derivation of itself in the format (`derives_mapDoubles`).
The parser gives it back exactly when no string and no key has the byte 8 (`deserialize_serialize_iff`): where one has,
the text has the escape that the parser lacks.  A region that is larger than the text it holds
gives the parser a text with something behind it, and one that is smaller gives it the text's front; both cases are
decided here (`text_serialize_append`, `not_text_take`).
-/
namespace MiniRos2

variable {D : Type} [DoubleText D]

/-! ## Serialized values are derived -/

/-- **The body that `escapeString` writes** is one of every grammar that has the parser's escapes and, where the string
has a backspace, `\b`. -/
theorem stringBody_escape {E : UInt8 → UInt8 → Prop} (hE : ∀ e b, Escape e b → E e b) : ∀ s : List UInt8,
    (8 ∈ s → E 98 8) → StringBodyBy E (JsonValue.escapeString s) s
  | [], _ => .nil
  | c :: s, h8 => by
    have ih := stringBody_escape hE s (fun h => h8 (List.mem_cons_of_mem _ h))
    have hcons : JsonValue.escapeString (c :: s) = JsonValue.escapeByte c ++ JsonValue.escapeString s := rfl
    rw [hcons]
    unfold JsonValue.escapeByte
    split
    · rename_i h; rw [h]; exact .escape (hE _ _ .quote) ih
    split
    · rename_i h; rw [h]; exact .escape (hE _ _ .backslash) ih
    split
    · rename_i h; rw [h]; exact .escape (h8 (h ▸ List.mem_cons_self)) ih
    split
    · rename_i h; rw [h]; exact .escape (hE _ _ .f) ih
    split
    · rename_i h; rw [h]; exact .escape (hE _ _ .n) ih
    split
    · rename_i h; rw [h]; exact .escape (hE _ _ .r) ih
    split
    · rename_i h; rw [h]; exact .escape (hE _ _ .t) ih
    · rename_i hq hb _ _ _ _ _
      exact .plain hq hb ih

theorem formatBody_escape (s : List UInt8) : StringBodyBy FormatEscape (JsonValue.escapeString s) s :=
  stringBody_escape (fun _ _ => .parsed) s (fun _ => .b)

theorem digits_decimal (n : Nat) : Digits (Decimal.digits n) :=
  ⟨Decimal.digits_ne_nil n, Decimal.isDigit_of_mem_digits n⟩

theorem printInt_numeral (n : Int) : ∃ sign, Sign sign ∧ printInt n = sign ++ Decimal.digits n.natAbs ∧
    intValue sign (Decimal.digits n.natAbs) = n := by
  unfold printInt
  split
  · refine ⟨[chMinus], .minus, rfl, ?_⟩
    rw [intValue, if_neg (List.cons_ne_nil _ _), Decimal.value_digits]
    omega
  · refine ⟨[], .none, rfl, ?_⟩
    rw [intValue, if_pos rfl, Decimal.value_digits]
    omega

theorem Int32.toInt_range (n : Int32) : INT_MIN ≤ n.toInt ∧ n.toInt ≤ INT_MAX := by
  have h₁ := Int32.le_toInt n
  have h₂ := Int32.toInt_lt n
  unfold INT_MIN INT_MAX
  omega

theorem derives_int {E : UInt8 → UInt8 → Prop} (n : Int32) :
    DerivesBy E (.value (.int n : JsonValue D)) (printInt n.toInt) := by
  obtain ⟨sign, hs, hp, hv⟩ := printInt_numeral n.toInt
  obtain ⟨hlo, hhi⟩ := Int32.toInt_range n
  have h : DerivesBy E (.value (.int (Int32.ofInt (intValue sign (Decimal.digits n.toInt.natAbs))) : JsonValue D))
      (sign ++ Decimal.digits n.toInt.natAbs) :=
    .int hs (digits_decimal _) (by rw [hv]; exact hlo) (by rw [hv]; exact hhi)
  rw [hv, Int32.ofInt_toInt] at h
  rw [hp]
  exact h

namespace JsonValue

theorem serializeElems_succ (i : Nat) : ∀ vs : List (JsonValue D),
    serializeElems (i + 1) vs = (if vs = [] then [] else [chComma]) ++ serializeElems 0 vs
  | [] => rfl
  | v :: vs => by
    have h : ∀ j : Nat, serializeElems (j + 1) vs = serializeElems 1 vs := fun j => by
      rw [serializeElems_succ j vs, serializeElems_succ 0 vs]
    rw [serializeElems, serializeElems, h (i + 1), h 0, if_neg (List.cons_ne_nil _ _), if_pos (by omega),
      if_neg (by omega), List.nil_append]

theorem serializeMembers_succ (i : Nat) : ∀ kvs : List (List UInt8 × JsonValue D),
    serializeMembers (i + 1) kvs = (if kvs = [] then [] else [chComma]) ++ serializeMembers 0 kvs
  | [] => rfl
  | (k, v) :: kvs => by
    have h : ∀ j : Nat, serializeMembers (j + 1) kvs = serializeMembers 1 kvs := fun j => by
      rw [serializeMembers_succ j kvs, serializeMembers_succ 0 kvs]
    rw [serializeMembers, serializeMembers, h (i + 1), h 0, if_neg (List.cons_ne_nil _ _), if_pos (by omega),
      if_neg (by omega), List.nil_append]

end JsonValue

theorem blank_nil : Blank [] := fun b hb => by cases hb

namespace JsonValue

/-! ## A value with its doubles replaced -/

mutual

/-- The value with every double node replaced. -/
def mapDoubles (f : D → JsonValue D) : JsonValue D → JsonValue D
  | .double d => f d
  | .array xs => .array (mapDoublesElems f xs)
  | .object kvs => .object (mapDoublesMembers f kvs)
  | v => v

def mapDoublesElems (f : D → JsonValue D) : List (JsonValue D) → List (JsonValue D)
  | [] => []
  | v :: vs => mapDoubles f v :: mapDoublesElems f vs

def mapDoublesMembers (f : D → JsonValue D) : List (List UInt8 × JsonValue D) → List (List UInt8 × JsonValue D)
  | [] => []
  | (k, v) :: kvs => (k, mapDoubles f v) :: mapDoublesMembers f kvs

end

omit [DoubleText D]

theorem mapDoublesMembers_eq_map (f : D → JsonValue D) : ∀ kvs : List (List UInt8 × JsonValue D),
    mapDoublesMembers f kvs = kvs.map (fun p => (p.1, mapDoubles f p.2))
  | [] => rfl
  | (k, v) :: kvs => by rw [mapDoublesMembers, mapDoublesMembers_eq_map, List.map_cons]

theorem sorted_mapDoublesMembers {f : D → JsonValue D} {kvs : List (List UInt8 × JsonValue D)}
    (h : OrdMap.Sorted kvs) : OrdMap.Sorted (mapDoublesMembers f kvs) := by
  rw [mapDoublesMembers_eq_map]
  exact List.pairwise_map.2 h

mutual

theorem mapDoubles_of_doubleFree (f : D → JsonValue D) : ∀ v : JsonValue D, v.DoubleFree → v.mapDoubles f = v
  | .null, _ => rfl
  | .bool _, _ => rfl
  | .int _, _ => rfl
  | .double d, h => absurd rfl (h d)
  | .string _, _ => rfl
  | .array xs, h => congrArg JsonValue.array (mapDoublesElems_of_doubleFree f xs h.2)
  | .object kvs, h => congrArg JsonValue.object (mapDoublesMembers_of_doubleFree f kvs h.2)

theorem mapDoublesElems_of_doubleFree (f : D → JsonValue D) : ∀ xs : List (JsonValue D),
    AllElems (fun w => ∀ d, w ≠ .double d) xs → mapDoublesElems f xs = xs
  | [], _ => rfl
  | v :: vs, h => by
    rw [mapDoublesElems, mapDoubles_of_doubleFree f v h.1, mapDoublesElems_of_doubleFree f vs h.2]

theorem mapDoublesMembers_of_doubleFree (f : D → JsonValue D) : ∀ kvs : List (List UInt8 × JsonValue D),
    AllMembers (fun w => ∀ d, w ≠ .double d) kvs → mapDoublesMembers f kvs = kvs
  | [], _ => rfl
  | (k, v) :: kvs, h => by
    rw [mapDoublesMembers, mapDoubles_of_doubleFree f v h.1, mapDoublesMembers_of_doubleFree f kvs h.2]

end

end JsonValue

section Grammar

variable {E : UInt8 → UInt8 → Prop}

/-- `f` gives a value that the printed double is a text of. -/
def DerivesDouble (E : UInt8 → UInt8 → Prop) (f : D → JsonValue D) (w : JsonValue D) : Prop :=
  ∀ d, w = .double d → DerivesBy E (.value (f d)) (DoubleText.print d)

/-- What `escapeString` writes for the string is a body of it. -/
def DerivesString (E : UInt8 → UInt8 → Prop) (s : List UInt8) : Prop := StringBodyBy E (JsonValue.escapeString s) s

mutual

/-- **What `serialize` writes derives the value with every double replaced by one that its own text derives**: by
induction on the value. -/
theorem derives_mapDoubles (f : D → JsonValue D) : ∀ v : JsonValue D, v.All (DerivesDouble E f) →
    v.Strings (DerivesString E) → v.Ordered → DerivesBy E (.value (v.mapDoubles f)) v.serialize
  | .null, _, _, _ => .null
  | .bool b, _, _, _ => by
    cases b with
    | false => exact .false
    | true => exact .true
  | .int n, _, _, _ => derives_int n
  | .double d, hd, _, _ => hd d rfl
  | .string s, _, hs, _ => .string (hs.1 s rfl)
  | .array [], _, _, _ => .emptyArray blank_nil
  | .array (v :: vs), hd, hs, ho =>
    .array blank_nil (derives_mapDoublesElems f (v :: vs) hd.2 hs.2 ho.2 (List.cons_ne_nil _ _))
  | .object [], _, _, _ => .emptyObject blank_nil
  | .object (p :: kvs), hd, hs, ho => by
    have h := DerivesBy.object blank_nil
      (derives_mapDoublesMembers f (p :: kvs) hd.2 hs.2 ho.2 (hs.1.2 _ rfl) (List.cons_ne_nil _ _))
    rw [OrdMap.ofList_of_sorted _ (JsonValue.sorted_mapDoublesMembers (ho.1 _ rfl))] at h
    exact h

theorem derives_mapDoublesElems (f : D → JsonValue D) : ∀ vs : List (JsonValue D),
    JsonValue.AllElems (DerivesDouble E f) vs → JsonValue.AllElems (JsonValue.OnStrings (DerivesString E)) vs →
    JsonValue.AllElems (fun w => ∀ kvs, w = .object kvs → OrdMap.Sorted kvs) vs → vs ≠ [] →
    DerivesBy E (.elems (JsonValue.mapDoublesElems f vs)) (JsonValue.serializeElems 0 vs)
  | [], _, _, _, hne => absurd rfl hne
  | [v], hd, hs, ho, _ => by
    rw [JsonValue.serializeElems, if_neg (by omega), List.nil_append]
    exact .lastElem (derives_mapDoubles f v hd.1 hs.1 ho.1) blank_nil
  | v :: v' :: vs, hd, hs, ho, _ => by
    rw [JsonValue.serializeElems, JsonValue.serializeElems_succ, if_neg (by omega), List.nil_append]
    exact .elem (derives_mapDoubles f v hd.1 hs.1 ho.1) blank_nil blank_nil
      (derives_mapDoublesElems f (v' :: vs) hd.2 hs.2 ho.2 (List.cons_ne_nil _ _))

theorem derives_mapDoublesMembers (f : D → JsonValue D) : ∀ kvs : List (List UInt8 × JsonValue D),
    JsonValue.AllMembers (DerivesDouble E f) kvs → JsonValue.AllMembers (JsonValue.OnStrings (DerivesString E)) kvs →
    JsonValue.AllMembers (fun w => ∀ kvs, w = .object kvs → OrdMap.Sorted kvs) kvs →
    (∀ p ∈ kvs, DerivesString E p.1) → kvs ≠ [] →
    DerivesBy E (.members (JsonValue.mapDoublesMembers f kvs)) (JsonValue.serializeMembers 0 kvs)
  | [], _, _, _, _, hne => absurd rfl hne
  | [(k, v)], hd, hs, ho, hk, _ =>
    .lastMember (hk _ List.mem_cons_self) blank_nil blank_nil (derives_mapDoubles f v hd.1 hs.1 ho.1) blank_nil
  | (k, v) :: p :: kvs, hd, hs, ho, hk, _ => by
    obtain ⟨hk, hks⟩ := List.forall_mem_cons.1 hk
    rw [JsonValue.serializeMembers, JsonValue.serializeMembers_succ, if_neg (by omega), List.nil_append]
    exact .member hk blank_nil blank_nil (derives_mapDoubles f v hd.1 hs.1 ho.1) blank_nil blank_nil
      (derives_mapDoublesMembers f (p :: kvs) hd.2 hs.2 ho.2 hks (List.cons_ne_nil _ _))

end

/-- **What `serialize` writes derives a value without doubles.** -/
theorem derives_serialize {v : JsonValue D} (hd : v.DoubleFree) (hs : v.Strings (DerivesString E)) (ho : v.Ordered) :
    DerivesBy E (.value v) v.serialize := by
  have h := derives_mapDoubles .double v (hd.imp (fun _ hw d he => absurd he (hw d)) v) hs ho
  rw [JsonValue.mapDoubles_of_doubleFree _ v hd] at h
  exact h

end Grammar

/-! ## Texts without the byte 8 -/

theorem StringBodyBy.not_mem_eight {s u : List UInt8} (h : StringBody s u) (h8 : 8 ∉ s) : 8 ∉ u := by
  induction h with
  | nil => exact h8
  | plain _ _ _ ih =>
    rw [List.mem_cons, not_or] at h8 ⊢
    exact ⟨h8.1, ih h8.2⟩
  | escape he _ ih =>
    rw [List.mem_cons, List.mem_cons, not_or, not_or] at h8
    rw [List.mem_cons, not_or]
    exact ⟨by cases he <;> decide, ih h8.2.2⟩

/-- No string and no key of what the symbol holds has the byte 8. -/
def Sym.NoBackspace : Sym D → Prop
  | .value v => v.NoBackspace
  | .elems vs => ∀ v ∈ vs, v.NoBackspace
  | .members kvs => ∀ p ∈ kvs, 8 ∉ p.1 ∧ p.2.NoBackspace

omit [DoubleText D] in
theorem noBackspace_array {vs : List (JsonValue D)} (h : ∀ v ∈ vs, v.NoBackspace) :
    (JsonValue.array vs).NoBackspace :=
  ⟨JsonValue.onStrings_of_ne nofun nofun, JsonValue.allElems_iff.2 h⟩

omit [DoubleText D] in
theorem noBackspace_object {kvs : List (List UInt8 × JsonValue D)} (h : ∀ p ∈ kvs, 8 ∉ p.1 ∧ p.2.NoBackspace) :
    (JsonValue.object (OrdMap.ofList kvs)).NoBackspace :=
  JsonValue.all_ofList (JsonValue.onStrings_object fun p hp => (h p (OrdMap.mem_ofList hp)).1) fun p hp => (h p hp).2

/-- **The parser makes no byte 8 out of other bytes**: none of its escapes stands for it. -/
theorem Derives.noBackspace {x : Sym D} {s : List UInt8} (h : Derives x s) : 8 ∉ s → x.NoBackspace := by
  have hleaf : ∀ {v : JsonValue D}, (∀ s, v ≠ .string s) → (∀ kvs, v ≠ .object kvs) →
      JsonValue.OnStrings (fun s => 8 ∉ s) v := JsonValue.onStrings_of_ne
  induction h with
  | true => exact fun _ => hleaf nofun nofun
  | false => exact fun _ => hleaf nofun nofun
  | null => exact fun _ => hleaf nofun nofun
  | int => exact fun _ => hleaf nofun nofun
  | double => exact fun _ => hleaf nofun nofun
  | string hs =>
    intro h8
    simp only [List.mem_cons, List.mem_append, not_or] at h8
    exact JsonValue.onStrings_string (hs.not_mem_eight h8.2.1)
  | emptyArray => exact fun _ => noBackspace_array nofun
  | array _ _ ih =>
    intro h8
    simp only [List.mem_cons, List.mem_append, not_or] at h8
    exact noBackspace_array (ih h8.2.2.1)
  | lastElem _ _ ih =>
    intro h8
    rw [List.mem_append, not_or] at h8
    exact List.forall_mem_cons.2 ⟨ih h8.1, nofun⟩
  | elem _ _ _ _ ih iht =>
    intro h8
    simp only [List.mem_cons, List.mem_append, not_or] at h8
    exact List.forall_mem_cons.2 ⟨ih h8.1, iht h8.2.2.2.2⟩
  | emptyObject => exact fun _ => ⟨JsonValue.onStrings_object (List.forall_mem_nil _), trivial⟩
  | object _ _ ih =>
    intro h8
    simp only [List.mem_cons, List.mem_append, not_or] at h8
    exact noBackspace_object (ih h8.2.2.1)
  | lastMember hk _ _ _ _ ih =>
    intro h8
    simp only [List.mem_cons, List.mem_append, not_or] at h8
    exact List.forall_mem_cons.2 ⟨⟨hk.not_mem_eight h8.2.1, ih h8.2.2.2.2.2.2.1⟩, nofun⟩
  | member hk _ _ _ _ _ _ ih iht =>
    intro h8
    simp only [List.mem_cons, List.mem_append, not_or] at h8
    exact List.forall_mem_cons.2 ⟨⟨hk.not_mem_eight h8.2.1, ih h8.2.2.2.2.2.2.1⟩, iht h8.2.2.2.2.2.2.2.2.2.2⟩

theorem Text.noBackspace {text : List UInt8} {v : JsonValue D} (h : Text text v) (h8 : 8 ∉ text) : v.NoBackspace := by
  obtain ⟨w, s, w', rfl, -, hs, -⟩ := h
  rw [List.mem_append, List.mem_append, not_or, not_or] at h8
  exact Derives.noBackspace hs h8.2.1

/-- A byte that `escapeString` writes is a printed one or stands in the string and has no escape. -/
theorem mem_escapeString {s : List UInt8} {b : UInt8} (h : b ∈ JsonValue.escapeString s) :
    32 ≤ b ∨ (b ∈ s ∧ b ≠ 8) := by
  obtain ⟨c, hc, hb⟩ := List.mem_flatMap.1 h
  unfold JsonValue.escapeByte at hb
  split_ifs at hb with _ _ h8 <;> simp only [List.mem_cons, List.not_mem_nil, or_false] at hb
  all_goals first
    | (rcases hb with rfl | rfl <;> exact .inl (by decide))
    | (rw [hb]; exact .inr ⟨hc, h8⟩)

theorem le_of_mem_printInt (n : Int) : ∀ b ∈ printInt n, 32 ≤ b := by
  intro b hb
  obtain ⟨sign, hs, hp, -⟩ := printInt_numeral n
  rw [hp] at hb
  exact (int_numberByte hs (digits_decimal _) b hb).le

/-- `P` holds of what a double is printed as. -/
def OnPrinted (P : UInt8 → Prop) (w : JsonValue D) : Prop := ∀ d, w = .double d → ∀ b ∈ DoubleText.print d, P b

mutual

/-- **The bytes of a text** are printed ones and those that `escapeString` writes for the strings and keys. -/
theorem forall_serialize {P : UInt8 → Prop} (hP : ∀ b : UInt8, 32 ≤ b → P b) : ∀ v : JsonValue D,
    v.All (OnPrinted P) → v.Strings (fun s => ∀ b ∈ JsonValue.escapeString s, P b) → ∀ b ∈ v.serialize, P b
  | .null, _, _, b, hb => hP b (by revert b; show ∀ b ∈ utf8 "null", 32 ≤ b; decide +kernel)
  | .bool false, _, _, b, hb => hP b (by revert b; show ∀ b ∈ utf8 "false", 32 ≤ b; decide +kernel)
  | .bool true, _, _, b, hb => hP b (by revert b; show ∀ b ∈ utf8 "true", 32 ≤ b; decide +kernel)
  | .int _, _, _, b, hb => hP b (le_of_mem_printInt _ b hb)
  | .double d, hd, _, b, hb => hd d rfl b hb
  | .string s, _, hs, b, hb => by
    rcases List.mem_cons.1 hb with rfl | hb
    · exact hP _ (by decide)
    rcases List.mem_append.1 hb with hb | hb
    · exact hs.1 s rfl b hb
    · exact hP _ (by rw [List.mem_singleton.1 hb]; decide)
  | .array xs, hd, hs, b, hb => by
    rcases List.mem_cons.1 hb with rfl | hb
    · exact hP _ (by decide)
    rcases List.mem_append.1 hb with hb | hb
    · exact forall_serializeElems hP 0 xs hd.2 hs.2 b hb
    · exact hP _ (by rw [List.mem_singleton.1 hb]; decide)
  | .object kvs, hd, hs, b, hb => by
    rcases List.mem_cons.1 hb with rfl | hb
    · exact hP _ (by decide)
    rcases List.mem_append.1 hb with hb | hb
    · exact forall_serializeMembers hP 0 kvs hd.2 hs.2 (hs.1.2 kvs rfl) b hb
    · exact hP _ (by rw [List.mem_singleton.1 hb]; decide)

theorem forall_serializeElems {P : UInt8 → Prop} (hP : ∀ b : UInt8, 32 ≤ b → P b) (i : Nat) :
    ∀ xs : List (JsonValue D), JsonValue.AllElems (OnPrinted P) xs →
    JsonValue.AllElems (JsonValue.OnStrings fun s => ∀ b ∈ JsonValue.escapeString s, P b) xs →
    ∀ b ∈ JsonValue.serializeElems i xs, P b
  | [], _, _, b, hb => by cases hb
  | v :: vs, hd, hs, b, hb => by
    rcases List.mem_append.1 hb with hb | hb
    · split at hb
      · exact hP _ (by rw [List.mem_singleton.1 hb]; decide)
      · cases hb
    rcases List.mem_append.1 hb with hb | hb
    · exact forall_serialize hP v hd.1 hs.1 b hb
    · exact forall_serializeElems hP (i + 1) vs hd.2 hs.2 b hb

theorem forall_serializeMembers {P : UInt8 → Prop} (hP : ∀ b : UInt8, 32 ≤ b → P b) (i : Nat) :
    ∀ kvs : List (List UInt8 × JsonValue D), JsonValue.AllMembers (OnPrinted P) kvs →
    JsonValue.AllMembers (JsonValue.OnStrings fun s => ∀ b ∈ JsonValue.escapeString s, P b) kvs →
    (∀ p ∈ kvs, ∀ b ∈ JsonValue.escapeString p.1, P b) → ∀ b ∈ JsonValue.serializeMembers i kvs, P b
  | [], _, _, _, b, hb => by cases hb
  | (k, v) :: kvs, hd, hs, hk, b, hb => by
    obtain ⟨hk, hks⟩ := List.forall_mem_cons.1 hk
    rcases List.mem_append.1 hb with hb | hb
    · split at hb
      · exact hP _ (by rw [List.mem_singleton.1 hb]; decide)
      · cases hb
    rcases List.mem_cons.1 hb with rfl | hb
    · exact hP _ (by decide)
    rcases List.mem_append.1 hb with hb | hb
    · exact hk b hb
    rcases List.mem_cons.1 hb with rfl | hb
    · exact hP _ (by decide)
    rcases List.mem_cons.1 hb with rfl | hb
    · exact hP _ (by decide)
    rcases List.mem_append.1 hb with hb | hb
    · exact forall_serialize hP v hd.1 hs.1 b hb
    · exact forall_serializeMembers hP (i + 1) kvs hd.2 hs.2 hks b hb

end

/-- **No text has the byte 8**: where a string has it, the text has its escape. -/
theorem eight_not_mem_serialize {v : JsonValue D} (hd : v.All (OnPrinted (32 ≤ ·))) : 8 ∉ v.serialize := by
  have hne : ∀ b : UInt8, 32 ≤ b → b ≠ 8 := by
    rintro _ hle rfl
    exact absurd hle (by decide)
  intro h8
  refine forall_serialize (P := (· ≠ 8)) hne v (hd.imp (fun _ hw d hd b hb => hne b (hw d hd b hb)) v) ?_ 8 h8 rfl
  refine JsonValue.strings_of_forall (fun s b hb => ?_) v
  rcases mem_escapeString hb with hle | ⟨-, hb8⟩
  · exact hne b hle
  · exact hb8

theorem onPrinted_message (P : UInt8 → Prop) (m : Message D) : m.val.All (OnPrinted P) :=
  m.doubleFree.imp (fun _ hw d hd => absurd hd (hw d)) m.val

theorem eight_not_mem_message (m : Message D) : 8 ∉ m.val.serialize := eight_not_mem_serialize (onPrinted_message _ m)

/-! ## Messages -/

theorem format_message (m : Message D) : DerivesBy FormatEscape (.value m.val) m.val.serialize :=
  derives_serialize m.doubleFree (JsonValue.strings_of_forall formatBody_escape m.val) m.ordered

omit [DoubleText D] in
theorem derivesString_of_noBackspace {v : JsonValue D} (hb : v.NoBackspace) : v.Strings (DerivesString Escape) :=
  JsonValue.Strings.imp (fun s hs => stringBody_escape (fun _ _ h => h) s fun h => absurd h hs) hb

theorem derives_message (m : Message D) (hb : m.val.NoBackspace) : Derives (.value m.val) m.val.serialize :=
  derives_serialize m.doubleFree (derivesString_of_noBackspace hb) m.ordered

theorem text_of_derives {E : UInt8 → UInt8 → Prop} {v : JsonValue D} {s w : List UInt8}
    (h : DerivesBy E (.value v) s) (hw : Blank w) : TextBy E (s ++ w) v := ⟨[], s, w, rfl, blank_nil, h, hw⟩

theorem text_message (m : Message D) (hb : m.val.NoBackspace) : Text m.val.serialize m.val := by
  simpa using text_of_derives (derives_message m hb) blank_nil

theorem deserialize_serialize (m : Message D) (hb : m.val.NoBackspace) : deserialize m.val.serialize = .ok m.val :=
  deserialize_of_text (text_message m hb)

/-- **Where a string or a key has a backspace, the text has the escape of it.** -/
theorem hasBackspace_message (m : Message D) (hb : ¬ m.val.NoBackspace) : HasBackspace m.val.serialize := by
  by_contra hnot
  exact hb (Derives.noBackspace (derives_iff_format.2 ⟨format_message m, hnot⟩) (eight_not_mem_message m))

/-- **A message with a backspace is not parsed**, whatever stands behind its text. -/
theorem deserialize_backspace (m : Message D) (hb : ¬ m.val.NoBackspace) (t : List UInt8) :
    ∃ e, (deserialize (m.val.serialize ++ t) : Except Abort (JsonValue D)) = .error (.throws e) :=
  deserialize_throws_of_backspace (format_message m) (hasBackspace_message m hb) t

theorem not_text_backspace (m : Message D) (hb : ¬ m.val.NoBackspace) (t : List UInt8) (v : JsonValue D) :
    ¬ Text (m.val.serialize ++ t) v := by
  intro h
  obtain ⟨e, he⟩ := deserialize_backspace m hb t
  cases (deserialize_of_text h).symm.trans he

/-- **Round trip**: what `serialize` writes, `deserialize` reads back, exactly when no string and no key has the
byte 8. -/
theorem deserialize_serialize_iff (m : Message D) : deserialize m.val.serialize = .ok m.val ↔ m.val.NoBackspace := by
  constructor
  · intro h
    exact (text_of_deserialize h).noBackspace (eight_not_mem_message m)
  · exact deserialize_serialize m

/-- A string of one backspace. -/
def backspaceMessage : Message (List UInt8) := ⟨.string [8], nofun, nofun⟩

theorem not_always_deserialize_serialize :
    ¬ ∀ m : Message (List UInt8), deserialize m.val.serialize = .ok m.val := by
  intro h
  exact (text_of_deserialize (h backspaceMessage)).noBackspace (by decide) |>.1 [8] rfl List.mem_cons_self

/-! ## A text with something behind it -/

theorem skipWhitespace_index_eq_iff (i : Nat) (t : List UInt8) :
    (skipWhitespace ⟨i, t⟩).index = i + t.length ↔ Blank t := by
  unfold skipWhitespace
  rw [Cursor.skipWhile_eq]
  constructor
  · intro h
    have hlen := congrArg List.length (List.takeWhile_append_dropWhile (p := isSpace) (l := t))
    rw [List.length_append] at hlen
    have hnil : t.dropWhile isSpace = [] := List.eq_nil_of_length_eq_zero (by simp only at h; omega)
    exact List.dropWhile_eq_nil_iff.1 hnil
  · intro h
    rw [List.takeWhile_eq_self_iff.2 h]

/-- **A value that is no number ends where it ends**: behind its text only blanks are accepted. -/
theorem deserialize_append {v v' : JsonValue D} {s t : List UInt8} (h : Derives (.value v) s)
    (hn : v.isNumber = false) : deserialize (s ++ t) = .ok v' ↔ v' = v ∧ Blank t := by
  unfold deserialize
  rw [parses_of_derives h 0 t _ (fun hv => by rw [hn] at hv; cases hv)
    (by simp only [parseFuel, List.length_append]; omega)]
  simp only [Except.ok_bind]
  rw [List.length_append, Nat.zero_add]
  split
  · rename_i hi
    constructor
    · intro he
      cases he
    · intro he
      exact absurd ((skipWhitespace_index_eq_iff _ _).2 he.2) hi
  · rename_i hi
    rw [Decidable.not_not, skipWhitespace_index_eq_iff] at hi
    constructor
    · intro he
      cases he
      exact ⟨rfl, hi⟩
    · rintro ⟨rfl, -⟩
      rfl

/-- The blanks before a text that starts with a value are none. -/
theorem text_append_cases {v v' : JsonValue D} {s t : List UInt8} (h : Derives (.value v) s)
    (ht : Text (s ++ t) v') : ∃ s' w', s ++ t = s' ++ w' ∧ Derives (.value v') s' ∧ Blank w' := by
  obtain ⟨w, s', w', heq, hw, hs', hw'⟩ := ht
  obtain ⟨b, l, rfl, hb, -⟩ := value_head h
  cases w with
  | nil => exact ⟨s', w', heq, hs', hw'⟩
  | cons c w =>
    rw [List.cons_append, List.cons_append, List.cons.injEq] at heq
    have := hw c List.mem_cons_self
    rw [← heq.1, hb] at this
    cases this

theorem derives_int_cases {n : Int32} {s : List UInt8} (h : Derives (.value (.int n : JsonValue D)) s) :
    ∃ sign ds, s = sign ++ ds ∧ Sign sign ∧ Digits ds ∧ intValue sign ds = n.toInt := by
  generalize hsym : Sym.value (JsonValue.int n : JsonValue D) = x at h
  cases h with
  | @int sign ds hs hd hlo hhi =>
    refine ⟨sign, ds, rfl, hs, hd, ?_⟩
    cases hsym
    unfold INT_MIN at hlo
    unfold INT_MAX at hhi
    exact (Int32.toInt_ofInt_of_le (by omega) (by omega)).symm
  | _ => cases hsym

theorem sign_unique {sign sign' ds ds' l l' : List UInt8} (hs : Sign sign) (hs' : Sign sign') (hd : Digits ds)
    (hd' : Digits ds') (h : sign ++ (ds ++ l) = sign' ++ (ds' ++ l')) : sign = sign' ∧ ds ++ l = ds' ++ l' := by
  obtain ⟨d, e, rfl, hdig⟩ := hd.exists_cons
  obtain ⟨d', e', rfl, hdig'⟩ := hd'.exists_cons
  cases hs with
  | none =>
    cases hs' with
    | none => exact ⟨rfl, h⟩
    | minus =>
      simp only [List.nil_append, List.cons_append, List.cons.injEq] at h
      exact absurd h.1 (isDigit_ne hdig _ (by decide))
  | minus =>
    cases hs' with
    | none =>
      simp only [List.nil_append, List.cons_append, List.cons.injEq] at h
      exact absurd h.1.symm (isDigit_ne hdig' _ (by decide))
    | minus => exact ⟨rfl, by simpa using h⟩

theorem intValue_natAbs (sign ds : List UInt8) : (intValue sign ds).natAbs = Decimal.value ds := by
  unfold intValue
  split <;> omega

theorem not_digit_and_blank {b : UInt8} (hd : Decimal.isDigit b = true) (hb : isSpace b = true) : False := by
  rw [isSpace_of_isDigit hd] at hb
  cases hb

/-- What stands behind a numeral that a longer numeral of the same value starts with. -/
theorem numeral_append {sign sign' ds ds' t w' : List UInt8} (hs : Sign sign) (hs' : Sign sign') (hd : Digits ds)
    (hd' : Digits ds') (hw : Blank w') (h : sign ++ (ds ++ t) = sign' ++ (ds' ++ w'))
    (hv : Decimal.value ds = Decimal.value ds') :
    ∃ z, t = z ++ w' ∧ (z = [] ∨ (Decimal.value ds = 0 ∧ z = List.replicate z.length 48)) := by
  obtain ⟨-, heq⟩ := sign_unique hs hs' hd hd' h
  rcases List.append_eq_append_iff.1 heq with ⟨es, rfl, rfl⟩ | ⟨es, rfl, rfl⟩
  · refine ⟨es, rfl, ?_⟩
    by_cases hes : es = []
    · exact .inl hes
    · have hdig : ∀ b ∈ es, Decimal.isDigit b = true := fun b hb => hd'.2 b (List.mem_append_right _ hb)
      exact .inr ((Decimal.value_append_eq_iff ds es hes hdig).1 hv.symm)
  · -- a digit of the shorter numeral would be one of the blanks
    cases es with
    | nil => exact ⟨[], rfl, .inl rfl⟩
    | cons e es =>
      exact absurd (hw e List.mem_cons_self) (fun hb =>
        not_digit_and_blank (hd.2 e (List.mem_append_right _ List.mem_cons_self)) hb)

/-- The bytes that may stand behind a message's text: blanks, or, behind a single zero, zeros and then blanks. -/
def Padding (m : Message D) (t : List UInt8) : Prop :=
  Blank t ∨ (m.val = .int 0 ∧ ∃ z w, t = z ++ w ∧ (∀ b ∈ z, b = 48) ∧ Blank w)

theorem derives_zeros {z : List UInt8} (hz : ∀ b ∈ z, b = 48) :
    Derives (.value (.int 0 : JsonValue D)) (Decimal.digits 0 ++ z) := by
  have hd : Digits (Decimal.digits 0 ++ z) := ⟨by simp [Decimal.digits_ne_nil], fun b hb => by
    rcases List.mem_append.1 hb with hb | hb
    · exact Decimal.isDigit_of_mem_digits 0 b hb
    · rw [hz b hb]; decide⟩
  have hval : Decimal.value (Decimal.digits 0 ++ z) = 0 := by
    rw [Decimal.value_eq_zero_iff _ hd.2]
    refine List.eq_replicate_iff.2 ⟨rfl, fun b hb => ?_⟩
    rcases List.mem_append.1 hb with hb | hb
    · exact List.mem_singleton.1 hb
    · exact hz b hb
  have hint : intValue [] (Decimal.digits 0 ++ z) = 0 := by rw [intValue, if_pos rfl, hval]; rfl
  have h : Derives (.value (.int (Int32.ofInt (intValue [] (Decimal.digits 0 ++ z))) : JsonValue D)) _ :=
    .int .none hd (by rw [hint]; decide) (by rw [hint]; decide)
  rw [hint] at h
  exact h

omit [DoubleText D] in
theorem isNumber_cases (m : Message D) : m.val.isNumber = false ∨ ∃ n, m.val = .int n := by
  cases hv : m.val with
  | int n => exact .inr ⟨n, rfl⟩
  | double d => exact absurd hv (by
      have h := m.doubleFree
      rw [hv] at h
      exact absurd rfl (h d))
  | _ => exact .inl rfl

theorem int_eq_zero {n : Int32} (h : n.toInt.natAbs = 0) : n = 0 :=
  Int32.toInt_inj.1 (by rw [Int.natAbs_eq_zero.1 h]; rfl)

/-- What stands behind a printed number in a text of this number. -/
theorem padding_int {n : Int32} {t : List UInt8} (h : Text (printInt n.toInt ++ t) (.int n : JsonValue D)) :
    Blank t ∨ (n = 0 ∧ ∃ z w, t = z ++ w ∧ (∀ b ∈ z, b = 48) ∧ Blank w) := by
  obtain ⟨s', w', heq, hs', hw'⟩ := text_append_cases (derives_int n) h
  obtain ⟨sign', ds', rfl, hsign', hd', hv'⟩ := derives_int_cases hs'
  obtain ⟨sign, hsign, hp, hv⟩ := printInt_numeral n.toInt
  rw [hp, List.append_assoc, List.append_assoc] at heq
  have hval : Decimal.value (Decimal.digits n.toInt.natAbs) = Decimal.value ds' := by
    rw [← intValue_natAbs sign, ← intValue_natAbs sign', hv, hv']
  obtain ⟨z, rfl, rfl | ⟨h0, hz⟩⟩ := numeral_append hsign hsign' (digits_decimal _) hd' hw' heq hval
  · exact .inl hw'
  · rw [Decimal.value_digits] at h0
    exact .inr ⟨int_eq_zero h0, z, w', rfl, fun b hb => (List.eq_replicate_iff.1 hz).2 b hb, hw'⟩

/-- **A message's text with something behind it** is a text of the message exactly when this is padding and the
message has no backspace. -/
theorem text_serialize_append (m : Message D) (t : List UInt8) :
    Text (m.val.serialize ++ t) m.val ↔ m.val.NoBackspace ∧ Padding m t := by
  constructor
  · intro h
    have hm : m.val.NoBackspace := by
      by_contra hb
      exact not_text_backspace m hb t m.val h
    refine ⟨hm, ?_⟩
    rcases isNumber_cases m with hn | ⟨n, hn⟩
    · exact .inl ((deserialize_append (derives_message m hm) hn).1 (deserialize_of_text h)).2
    · rw [hn] at h
      rcases padding_int h with hb | ⟨rfl, hz⟩
      · exact .inl hb
      · exact .inr ⟨hn, hz⟩
  · rintro ⟨hm, hb | ⟨hn, z, w, rfl, hz, hw⟩⟩
    · exact text_of_derives (derives_message m hm) hb
    · rw [hn, ← List.append_assoc]
      exact text_of_derives (derives_zeros hz) hw

/-! ## A text cut short -/

theorem value_last {E : UInt8 → UInt8 → Prop} {v : JsonValue D} {s : List UInt8} (h : DerivesBy E (.value v) s) :
    ∃ l b, s = l ++ [b] ∧ isSpace b = false := by
  generalize hsym : Sym.value v = x at h
  have hdigits : ∀ (l ds : List UInt8), Digits ds → ∃ l' b, l ++ ds = l' ++ [b] ∧ isSpace b = false := by
    intro l ds hd
    refine ⟨l ++ ds.dropLast, ds.getLast hd.1, ?_, isSpace_of_isDigit (hd.2 _ (List.getLast_mem hd.1))⟩
    rw [List.append_assoc, List.dropLast_append_getLast]
  cases h with
  | true => exact ⟨[chT, 114, 117], chE, by decide, by decide⟩
  | false => exact ⟨[chF, 97, 108, 115], chE, by decide, by decide⟩
  | null => exact ⟨[chN, 117, 108], 108, by decide, by decide⟩
  | @string s _ => exact ⟨chQuote :: s, chQuote, rfl, by decide⟩
  | int hs hd => exact hdigits _ _ hd
  | @double sign ds frac exp f e d hs hd hf he hfe =>
    cases he with
    | none =>
      cases hf with
      | none => cases hfe
      | @digits fs hfs =>
        obtain ⟨l, b, hl, hb⟩ := hdigits (sign ++ (ds ++ [chDot])) fs hfs
        exact ⟨l, b, by rw [← hl]; simp, hb⟩
    | @digits e esign es _ _ hes =>
      obtain ⟨l, b, hl, hb⟩ := hdigits (sign ++ (ds ++ (frac ++ e :: esign))) es hes
      exact ⟨l, b, by rw [← hl]; simp, hb⟩
  | @emptyArray w => exact ⟨chLBrack :: w, chRBrack, by simp, by decide⟩
  | @array w s => exact ⟨chLBrack :: (w ++ s), chRBrack, by simp, by decide⟩
  | @emptyObject w => exact ⟨chLBrace :: w, chRBrace, by simp, by decide⟩
  | @object w s => exact ⟨chLBrace :: (w ++ s), chRBrace, by simp, by decide⟩
  | _ => cases hsym

theorem not_blank_of_suffix {E : UInt8 → UInt8 → Prop} {v : JsonValue D} {s r : List UInt8}
    (h : DerivesBy E (.value v) (s ++ r)) (hr : r ≠ []) : ¬ Blank r := by
  intro hblank
  obtain ⟨l, b, hl, hb⟩ := value_last h
  rw [← List.dropLast_append_getLast hr, ← List.append_assoc] at hl
  have hlast := List.append_inj_right' hl rfl
  rw [List.cons.injEq] at hlast
  have hspace := hblank _ (List.getLast_mem hr)
  rw [hlast.1, hb] at hspace
  cases hspace

/-- A text that is cut short and is a text again starts with a value's text that is a proper front of it. -/
theorem front_of_text {E : UInt8 → UInt8 → Prop} {v v' : JsonValue D} {t : List UInt8} {n : Nat}
    (h : DerivesBy E (.value v) t) (hn : n < t.length) (ht : Text (t.take n) v') :
    ∃ s r, t = s ++ r ∧ r ≠ [] ∧ Derives (.value v') s := by
  obtain ⟨w, s, w', heq, hw, hs, -⟩ := ht
  have hdrop : w' ++ t.drop n ≠ [] := by
    intro h0
    have hlen := congrArg List.length h0
    rw [List.length_append, List.length_drop, List.length_nil] at hlen
    omega
  have hsplit := List.take_append_drop n t
  rw [heq, List.append_assoc, List.append_assoc] at hsplit
  obtain ⟨b, l, rfl, hb, -⟩ := value_head h
  cases w with
  | nil => exact ⟨s, _, by simpa using hsplit.symm, hdrop, hs⟩
  | cons c w =>
    rw [List.cons_append, List.cons.injEq] at hsplit
    have hspace := hw c List.mem_cons_self
    rw [hsplit.1, hb] at hspace
    cases hspace

/-- A text of a message is no proper front of what `serialize` writes for it. -/
theorem not_derives_front (m : Message D) {s r : List UInt8} (h : m.val.serialize = s ++ r) (hr : r ≠ []) :
    ¬ Derives (.value m.val) s := by
  intro hs
  rcases isNumber_cases m with hn | ⟨n, hn⟩
  · -- a front without the byte 8 is a text of a message without backspaces only
    have h8 := eight_not_mem_message m
    rw [h, List.mem_append, not_or] at h8
    have hm : m.val.NoBackspace := Derives.noBackspace hs h8.1
    have hd := deserialize_serialize m hm
    rw [h] at hd
    exact not_blank_of_suffix (h ▸ derives_message m hm) hr ((deserialize_append hs hn).1 hd).2
  · rw [hn] at h hs
    obtain ⟨sign', ds', rfl, hsign', hd', hv'⟩ := derives_int_cases hs
    obtain ⟨sign, hsign, hp, hv⟩ := printInt_numeral n.toInt
    have heq : sign' ++ (ds' ++ r) = sign ++ (Decimal.digits n.toInt.natAbs ++ []) := by
      rw [List.append_nil, ← hp, ← List.append_assoc]
      exact h.symm
    have hval : Decimal.value ds' = Decimal.value (Decimal.digits n.toInt.natAbs) := by
      rw [← intValue_natAbs sign', ← intValue_natAbs sign, hv, hv']
    obtain ⟨z, hz, hz0 | ⟨h0, -⟩⟩ := numeral_append hsign' hsign hd' (digits_decimal _) blank_nil heq hval
    · rw [hz0] at hz
      exact hr hz
    · -- a zero is printed with one digit
      rw [hval, Decimal.value_digits] at h0
      have hlen := congrArg List.length (sign_unique hsign' hsign hd' (digits_decimal _) heq).2
      have hone : (Decimal.digits n.toInt.natAbs).length = 1 := by rw [h0]; rfl
      have hpos := List.length_pos_of_ne_nil hd'.1
      have hrpos := List.length_pos_of_ne_nil hr
      rw [List.length_append, List.length_append, hone, List.length_nil] at hlen
      omega

/-- **A message's text cut short is no text of the message.** -/
theorem not_text_take (m : Message D) {n : Nat} (hn : n < m.val.serialize.length) :
    ¬ Text (m.val.serialize.take n) m.val := by
  intro ht
  obtain ⟨s, r, hsr, hr, hs⟩ := front_of_text (format_message m) hn ht
  exact not_derives_front m hsr hr hs

end MiniRos2

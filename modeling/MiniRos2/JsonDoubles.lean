import MiniRos2.JsonRoundTrip
import MiniRos2.Lib.PrintfG
/-!
# JsonDoubles — what a double is read back as

`serialize` prints a double with `operator<<` in its default format, which is `%g` with six significant digits, and
`parseNumber` takes a number for a double only where its text has a point or an exponent.  A double that rounds to an
integer below a million is printed with neither and is read back as an `Int`; every other comes back as a double, if
`std::stod` reads its text and no string of the tree has a backspace (`keepsTypes_iff`).  `std::stod` is a parameter:
whether a number too small for a normal double is out of its range differs between libraries.
-/
namespace MiniRos2

/-- **A finite `double`**: a sign and `mantissa * 2 ^ exponent`, the mantissa of 53 bits but for the least exponent. -/
structure Double where
  negative : Bool
  mantissa : Nat
  exponent : Int
  mantissa_lt : mantissa < 2 ^ 53
  exponent_range : -1074 ≤ exponent ∧ exponent ≤ 971
  normal : 2 ^ 52 ≤ mantissa ∨ exponent = -1074

namespace Double

/-- The six digits that are printed. -/
def rounded (d : Double) : PrintfG.Rounded :=
  PrintfG.round (d.mantissa * 2 ^ d.exponent.toNat) (2 ^ (-d.exponent).toNat)

/-- `operator<<`. -/
def print (d : Double) : List UInt8 := PrintfG.text d.negative d.rounded

/-- The doubles with `operator<<` in its default format and a `std::stod`. -/
abbrev text (stod : List UInt8 → Option Double) : DoubleText Double := ⟨print, stod⟩

theorem rounded_normal (d : Double) : d.rounded.Normal := PrintfG.round_normal (by positivity)

/-! ## A printed double is a numeral -/

def sign (d : Double) : List UInt8 := if d.negative then [chMinus] else []

theorem sign_sign (d : Double) : Sign d.sign := by
  unfold sign
  split
  · exact .minus
  · exact .none

theorem digits_integer (r : PrintfG.Rounded) : Digits r.integer :=
  ⟨PrintfG.integer_ne_nil r, fun _ hb => PrintfG.isDigit_of_mem_integer hb⟩

theorem fraction_text (r : PrintfG.Rounded) :
    Fraction (decide (r.fraction ≠ [])) (if r.fraction = [] then [] else chDot :: r.fraction) := by
  by_cases h : r.fraction = []
  · rw [if_pos h, decide_eq_false (not_not_intro h)]
    exact .none
  · rw [if_neg h, decide_eq_true h]
    exact .digits ⟨h, fun _ hb => PrintfG.isDigit_of_mem_fraction hb⟩

theorem exponent_text (r : PrintfG.Rounded) :
    Exponent (decide r.Scientific) (if r.Scientific then PrintfG.exponentText r.exponent else []) := by
  by_cases h : r.Scientific
  · rw [if_pos h, decide_eq_true h]
    have hdigits : Digits ((if r.exponent.natAbs < 10 then [48] else []) ++ Decimal.digits r.exponent.natAbs) := by
      refine ⟨List.append_ne_nil_of_right_ne_nil _ (Decimal.digits_ne_nil _), fun b hb => ?_⟩
      rcases List.mem_append.1 hb with hb | hb
      · split at hb
        · rw [List.mem_singleton.1 hb]
          rfl
        · cases hb
      · exact Decimal.isDigit_of_mem_digits _ b hb
    unfold PrintfG.exponentText
    by_cases hneg : r.exponent < 0
    · rw [if_pos hneg]
      exact @Exponent.digits chE [chMinus] _ (.inl rfl) (.inr (.inr rfl)) hdigits
    · rw [if_neg hneg]
      exact @Exponent.digits chE [chPlus] _ (.inl rfl) (.inr (.inl rfl)) hdigits
  · rw [if_neg h, decide_eq_false h]
    exact .none

theorem print_eq (d : Double) : d.print = d.sign ++ (d.rounded.integer ++
    ((if d.rounded.fraction = [] then [] else chDot :: d.rounded.fraction) ++
      if d.rounded.Scientific then PrintfG.exponentText d.rounded.exponent else [])) := rfl

/-- **The text has a fraction or an exponent exactly when the rounded number is no integer below a million.** -/
theorem point_or_exponent_iff (d : Double) :
    (decide (d.rounded.fraction ≠ []) || decide d.rounded.Scientific) = true ↔ ¬ d.rounded.Whole := by
  rw [Bool.or_eq_true, decide_eq_true_iff, decide_eq_true_iff]
  by_cases hs : d.rounded.Scientific
  · refine iff_of_true (.inr hs) fun hw => ?_
    unfold PrintfG.Rounded.Scientific at hs
    unfold PrintfG.Rounded.Whole at hw
    omega
  · rw [ne_eq, PrintfG.fraction_nil_iff_whole d.rounded_normal hs]
    exact or_iff_left hs

/-- A text that has neither is a sign and at most six digits. -/
theorem print_of_whole {d : Double} (h : d.rounded.Whole) : d.print = d.sign ++ d.rounded.integer := by
  have hno : ¬ (decide (d.rounded.fraction ≠ []) || decide d.rounded.Scientific) = true :=
    fun hp => (point_or_exponent_iff d).1 hp h
  rw [Bool.or_eq_true, decide_eq_true_iff, decide_eq_true_iff, not_or, not_not] at hno
  rw [print_eq, if_pos hno.1, if_neg hno.2, List.append_nil, List.append_nil]

theorem intValue_range (d : Double) : INT_MIN ≤ intValue d.sign d.rounded.integer ∧
    intValue d.sign d.rounded.integer ≤ INT_MAX := by
  have hlt := Decimal.value_lt (digits_integer d.rounded).2
  have hpow : 10 ^ d.rounded.integer.length ≤ 10 ^ 6 :=
    Nat.pow_le_pow_right (by norm_num) (PrintfG.length_integer_le d.rounded)
  have habs := intValue_natAbs d.sign d.rounded.integer
  unfold INT_MIN INT_MAX
  omega

/-! ## What is read back -/

/-- What `parseNumber` makes of a printed double. -/
def readBack (stod : List UInt8 → Option Double) (d : Double) : JsonValue Double :=
  if d.rounded.Whole then .int (Int32.ofInt (intValue d.sign d.rounded.integer))
  else .double ((stod d.print).getD d)

theorem derives_readBack {stod : List UInt8 → Option Double} {d : Double}
    (h : ¬ d.rounded.Whole → (stod d.print).isSome = true) :
    @Derives Double (text stod) (.value (readBack stod d)) d.print := by
  let _ := text stod
  unfold readBack
  split
  · rename_i hw
    rw [print_of_whole hw]
    obtain ⟨hlo, hhi⟩ := intValue_range d
    exact .int d.sign_sign (digits_integer _) hlo hhi
  · rename_i hw
    obtain ⟨d', hd'⟩ := Option.isSome_iff_exists.1 (h hw)
    have hread : DoubleText.stod d.print = some ((stod d.print).getD d) := by
      rw [hd']
      exact hd'
    have hpoint := (point_or_exponent_iff d).2 hw
    exact .double d.sign_sign (digits_integer _) (fraction_text _) (exponent_text _) hpoint hread

end Double

/-! ## The same tree but for the doubles -/

namespace JsonValue

mutual

/-- **The same type at every node, and the same values but for those of the doubles.** -/
def SameShape {D : Type} : JsonValue D → JsonValue D → Prop
  | .null, .null => True
  | .bool b, .bool b' => b = b'
  | .int n, .int n' => n = n'
  | .double _, .double _ => True
  | .string s, .string s' => s = s'
  | .array xs, .array ys => SameShapeElems xs ys
  | .object kvs, .object kws => SameShapeMembers kvs kws
  | _, _ => False

def SameShapeElems {D : Type} : List (JsonValue D) → List (JsonValue D) → Prop
  | [], [] => True
  | v :: vs, w :: ws => SameShape v w ∧ SameShapeElems vs ws
  | _, _ => False

def SameShapeMembers {D : Type} : List (List UInt8 × JsonValue D) → List (List UInt8 × JsonValue D) → Prop
  | [], [] => True
  | (k, v) :: kvs, (k', w) :: kws => k = k' ∧ SameShape v w ∧ SameShapeMembers kvs kws
  | _, _ => False

end

variable {D : Type}

/-- **Where a double was stored, a double is found.** -/
theorem SameShape.asDouble {v w : JsonValue D} {d : D} (h : v.SameShape w) (hv : v.asDouble = .ok d) :
    ∃ d', w.asDouble = .ok d' := by
  cases v with
  | double x =>
    cases w with
    | double y => exact ⟨y, rfl⟩
    | _ => exact h.elim
  | _ => cases hv

theorem sameShapeElems_getElem? : ∀ {xs ys : List (JsonValue D)} {i : Nat} {x : JsonValue D},
    SameShapeElems xs ys → xs[i]? = some x → ∃ y, ys[i]? = some y ∧ x.SameShape y
  | [], _, _, _, _, hx => by simp at hx
  | _ :: _, [], _, _, h, _ => h.elim
  | v :: vs, w :: ws, 0, x, h, hx => by
    rw [List.getElem?_cons_zero, Option.some.injEq] at hx
    exact ⟨w, rfl, hx ▸ h.1⟩
  | v :: vs, w :: ws, i + 1, x, h, hx => by
    rw [List.getElem?_cons_succ] at hx ⊢
    exact sameShapeElems_getElem? h.2 hx

theorem sameShapeMembers_find? (key : List UInt8) : ∀ {kvs kws : List (List UInt8 × JsonValue D)},
    SameShapeMembers kvs kws →
      SameShape ((OrdMap.find? key kvs).getD .null) ((OrdMap.find? key kws).getD .null)
  | [], [], _ => trivial
  | [], _ :: _, h => h.elim
  | _ :: _, [], h => h.elim
  | (k, v) :: kvs, (k', w) :: kws, h => by
    obtain ⟨rfl, hvw, hrest⟩ := h
    rw [OrdMap.find?, OrdMap.find?]
    by_cases hk : key = k
    · rw [if_pos hk, if_pos hk]
      exact hvw
    · rw [if_neg hk, if_neg hk]
      exact sameShapeMembers_find? key hrest

/-- The elements have the same shape. -/
theorem SameShape.atIndex {v w x : JsonValue D} {i : Nat} (h : v.SameShape w) (hv : v.atIndex i = .ok x) :
    ∃ y, w.atIndex i = .ok y ∧ x.SameShape y := by
  cases v with
  | array xs =>
    cases w with
    | array ys =>
      rw [JsonValue.atIndex] at hv
      split at hv
      · rename_i x' hx
        cases hv
        obtain ⟨y, hy, hxy⟩ := sameShapeElems_getElem? h hx
        refine ⟨y, ?_, hxy⟩
        rw [JsonValue.atIndex, hy]
      · cases hv
    | _ => exact h.elim
  | _ => cases hv

/-- The members have the same shape. -/
theorem SameShape.atKey {v w x : JsonValue D} {key : List UInt8} (h : v.SameShape w) (hv : v.atKey key = .ok x) :
    ∃ y, w.atKey key = .ok y ∧ x.SameShape y := by
  cases v with
  | null =>
    cases w with
    | null =>
      cases hv
      exact ⟨.null, rfl, trivial⟩
    | _ => exact h.elim
  | object kvs =>
    cases w with
    | object kws =>
      cases hv
      exact ⟨_, rfl, sameShapeMembers_find? key h⟩
    | _ => exact h.elim
  | _ => cases hv

/-- `[i]` or `[key]`. -/
inductive Access where
  | index (i : Nat)
  | key (k : List UInt8)

/-- The field behind some accesses, one after another. -/
def field : List Access → JsonValue D → Except Abort (JsonValue D)
  | [], v => .ok v
  | .index i :: path, v => do
    let x ← v.atIndex i
    field path x
  | .key k :: path, v => do
    let x ← v.atKey k
    field path x

theorem SameShape.field : ∀ {path : List Access} {v w x : JsonValue D}, v.SameShape w → field path v = .ok x →
    ∃ y, JsonValue.field path w = .ok y ∧ x.SameShape y
  | [], v, w, x, h, hx => by
    cases hx
    exact ⟨w, rfl, h⟩
  | .index i :: path, v, w, x, h, hx => by
    obtain ⟨v', hv', hx⟩ := Except.bind_eq_ok hx
    obtain ⟨w', hw', h'⟩ := h.atIndex hv'
    obtain ⟨y, hy, hxy⟩ := SameShape.field h' hx
    exact ⟨y, by rw [JsonValue.field, hw']; exact hy, hxy⟩
  | .key k :: path, v, w, x, h, hx => by
    obtain ⟨v', hv', hx⟩ := Except.bind_eq_ok hx
    obtain ⟨w', hw', h'⟩ := h.atKey hv'
    obtain ⟨y, hy, hxy⟩ := SameShape.field h' hx
    exact ⟨y, by rw [JsonValue.field, hw']; exact hy, hxy⟩

/-- `f` makes a double of a double. -/
def StaysDouble (f : D → JsonValue D) (w : JsonValue D) : Prop := ∀ d, w = .double d → ∃ d', f d = .double d'

mutual

theorem sameShape_mapDoubles (f : D → JsonValue D) : ∀ v : JsonValue D,
    SameShape v (v.mapDoubles f) ↔ v.All (StaysDouble f)
  | .null => iff_of_true trivial fun _ h => by cases h
  | .bool _ => iff_of_true rfl fun _ h => by cases h
  | .int _ => iff_of_true rfl fun _ h => by cases h
  | .string _ => iff_of_true rfl fun _ h => by cases h
  | .double d => by
    constructor
    · intro h d' hd'
      cases hd'
      rw [mapDoubles] at h
      cases hf : f d with
      | double x => exact ⟨x, rfl⟩
      | _ =>
        rw [hf] at h
        exact h.elim
    · intro h
      obtain ⟨d', hd'⟩ := h d rfl
      rw [mapDoubles, hd']
      trivial
  | .array xs => by
    have ih := sameShape_mapDoublesElems f xs
    exact ih.trans (iff_and_self.2 fun _ _ h => by cases h)
  | .object kvs => by
    have ih := sameShape_mapDoublesMembers f kvs
    exact ih.trans (iff_and_self.2 fun _ _ h => by cases h)

theorem sameShape_mapDoublesElems (f : D → JsonValue D) : ∀ xs : List (JsonValue D),
    SameShapeElems xs (mapDoublesElems f xs) ↔ AllElems (StaysDouble f) xs
  | [] => Iff.rfl
  | v :: vs => and_congr (sameShape_mapDoubles f v) (sameShape_mapDoublesElems f vs)

theorem sameShape_mapDoublesMembers (f : D → JsonValue D) : ∀ kvs : List (List UInt8 × JsonValue D),
    SameShapeMembers kvs (mapDoublesMembers f kvs) ↔ AllMembers (StaysDouble f) kvs
  | [] => Iff.rfl
  | (_, v) :: kvs =>
    (and_iff_right rfl).trans (and_congr (sameShape_mapDoubles f v) (sameShape_mapDoublesMembers f kvs))

end

mutual

theorem mapDoubles_inj {f g : D → JsonValue D} : ∀ {v : JsonValue D}, v.mapDoubles f = v.mapDoubles g →
    v.All (fun w => ∀ d, w = .double d → f d = g d)
  | .null, _ => fun _ h => by cases h
  | .bool _, _ => fun _ h => by cases h
  | .int _, _ => fun _ h => by cases h
  | .string _, _ => fun _ h => by cases h
  | .double d, h => fun d' hd' => by
    cases hd'
    exact h
  | .array xs, h => ⟨fun _ h => (by cases h), mapDoublesElems_inj (JsonValue.array.inj h)⟩
  | .object kvs, h => ⟨fun _ h => (by cases h), mapDoublesMembers_inj (JsonValue.object.inj h)⟩

theorem mapDoublesElems_inj {f g : D → JsonValue D} : ∀ {xs : List (JsonValue D)},
    mapDoublesElems f xs = mapDoublesElems g xs → AllElems (fun w => ∀ d, w = .double d → f d = g d) xs
  | [], _ => trivial
  | _ :: _, h => ⟨mapDoubles_inj (List.cons.inj h).1, mapDoublesElems_inj (List.cons.inj h).2⟩

theorem mapDoublesMembers_inj {f g : D → JsonValue D} : ∀ {kvs : List (List UInt8 × JsonValue D)},
    mapDoublesMembers f kvs = mapDoublesMembers g kvs →
      AllMembers (fun w => ∀ d, w = .double d → f d = g d) kvs
  | [], _ => trivial
  | (_, _) :: _, h =>
    ⟨mapDoubles_inj (Prod.mk.inj (List.cons.inj h).1).2, mapDoublesMembers_inj (List.cons.inj h).2⟩

end

mutual

/-- The strings and keys are the same. -/
theorem SameShape.strings {P : List UInt8 → Prop} : ∀ {v w : JsonValue D}, v.SameShape w → w.Strings P → v.Strings P
  | .null, .null, _, h => h
  | .bool _, .bool _, _, _ => onStrings_of_ne nofun nofun
  | .int _, .int _, _, _ => onStrings_of_ne nofun nofun
  | .double _, .double _, _, _ => onStrings_of_ne nofun nofun
  | .string _, .string _, hs, h => by rw [show _ = _ from hs]; exact h
  | .array _, .array _, hs, h => ⟨onStrings_of_ne nofun nofun, stringsElems_of_sameShape hs h.2⟩
  | .object kvs, .object kws, hs, h => by
    obtain ⟨hkeys, hvs⟩ := stringsMembers_of_sameShape hs (h.1.2 kws rfl) h.2
    exact ⟨onStrings_object hkeys, hvs⟩

theorem stringsElems_of_sameShape {P : List UInt8 → Prop} : ∀ {xs ys : List (JsonValue D)}, SameShapeElems xs ys →
    AllElems (OnStrings P) ys → AllElems (OnStrings P) xs
  | [], [], _, _ => trivial
  | _ :: _, _ :: _, hs, h => ⟨SameShape.strings hs.1 h.1, stringsElems_of_sameShape hs.2 h.2⟩

theorem stringsMembers_of_sameShape {P : List UInt8 → Prop} : ∀ {kvs kws : List (List UInt8 × JsonValue D)},
    SameShapeMembers kvs kws → (∀ p ∈ kws, P p.1) → AllMembers (OnStrings P) kws →
    (∀ p ∈ kvs, P p.1) ∧ AllMembers (OnStrings P) kvs
  | [], [], _, _, _ => ⟨List.forall_mem_nil _, trivial⟩
  | (k, v) :: kvs, (_, w) :: kws, ⟨rfl, hvw, hs⟩, hk, h => by
    obtain ⟨hk, hks⟩ := List.forall_mem_cons.1 hk
    obtain ⟨hkeys, hvs⟩ := stringsMembers_of_sameShape hs hks h.2
    exact ⟨List.forall_mem_cons.2 ⟨hk, hkeys⟩, SameShape.strings hvw h.1, hvs⟩

end

end JsonValue

/-! ## Two ways of reading doubles -/

section Instances

variable {D : Type} {i j : DoubleText D}

mutual

/-- **`serialize` uses the printing of doubles only.** -/
theorem serialize_congr (h : ∀ d, i.print d = j.print d) : ∀ v : JsonValue D,
    @JsonValue.serialize D i v = @JsonValue.serialize D j v
  | .null => rfl
  | .bool _ => rfl
  | .int _ => rfl
  | .double d => h d
  | .string _ => rfl
  | .array xs => congrArg (fun s => chLBrack :: (s ++ [chRBrack])) (serializeElems_congr h 0 xs)
  | .object kvs => congrArg (fun s => chLBrace :: (s ++ [chRBrace])) (serializeMembers_congr h 0 kvs)

theorem serializeElems_congr (h : ∀ d, i.print d = j.print d) : ∀ (n : Nat) (xs : List (JsonValue D)),
    @JsonValue.serializeElems D i n xs = @JsonValue.serializeElems D j n xs
  | _, [] => rfl
  | n, v :: vs =>
    congrArg₂ (fun s t => (if 0 < n then [chComma] else []) ++ (s ++ t)) (serialize_congr h v)
      (serializeElems_congr h (n + 1) vs)

theorem serializeMembers_congr (h : ∀ d, i.print d = j.print d) : ∀ (n : Nat) (kvs : List (List UInt8 × JsonValue D)),
    @JsonValue.serializeMembers D i n kvs = @JsonValue.serializeMembers D j n kvs
  | _, [] => rfl
  | n, (k, v) :: kvs =>
    congrArg₂
      (fun s t => (if 0 < n then [chComma] else []) ++
        (chQuote :: (JsonValue.escapeString k ++ (chQuote :: chColon :: (s ++ t)))))
      (serialize_congr h v) (serializeMembers_congr h (n + 1) kvs)

end

/-- **Where more texts of doubles are read, no text of a value is lost.** -/
theorem Derives.mono (h : ∀ s d, i.stod s = some d → j.stod s = some d) {x : Sym D} {s : List UInt8}
    (hx : @Derives D i x s) : @Derives D j x s := by
  induction hx with
  | double hs hd hf he hfe hread => exact .double hs hd hf he hfe (h _ _ hread)
  | _ => constructor <;> assumption

theorem deserialize_mono (h : ∀ s d, i.stod s = some d → j.stod s = some d) {json : List UInt8} {v : JsonValue D}
    (hv : @deserialize D i json = .ok v) : @deserialize D j json = .ok v := by
  obtain ⟨w, s, w', hs, hw, hder, hw'⟩ := @text_of_deserialize D i json v hv
  exact @deserialize_of_text D j json v ⟨w, s, w', hs, hw, Derives.mono h hder, hw'⟩

end Instances

/-! ## A double is read back as a double -/

open JsonValue (SameShape StaysDouble)

/-- `deserialize(serialize(v))`. -/
def reread (stod : List UInt8 → Option Double) (v : JsonValue Double) : Except Abort (JsonValue Double) :=
  letI := Double.text stod
  deserialize v.serialize

/-- **The types are kept**: the text is read back, and with the same type at every node. -/
def KeepsTypes (stod : List UInt8 → Option Double) (v : JsonValue Double) : Prop :=
  ∃ w, reread stod v = .ok w ∧ v.SameShape w

/-- **`asDouble` does not throw on a field that is read back** where it does not throw on the one that was sent. -/
theorem KeepsTypes.asDouble_field {stod : List UInt8 → Option Double} {v x : JsonValue Double}
    {path : List JsonValue.Access} {d : Double} (h : KeepsTypes stod v) (hx : JsonValue.field path v = .ok x)
    (hd : x.asDouble = .ok d) :
    ∃ w y d', reread stod v = .ok w ∧ JsonValue.field path w = .ok y ∧ y.asDouble = .ok d' := by
  obtain ⟨w, hw, hshape⟩ := h
  obtain ⟨y, hy, hxy⟩ := hshape.field hx
  obtain ⟨d', hd'⟩ := hxy.asDouble hd
  exact ⟨w, y, d', hw, hy, hd'⟩

/-- A node is no double, or is a double that is printed with a point or an exponent and whose text is read. -/
def Readable (stod : List UInt8 → Option Double) (w : JsonValue Double) : Prop :=
  ∀ d, w = .double d → ¬ d.rounded.Whole ∧ (stod d.print).isSome = true

theorem printed_number (d : Double) : ∀ b ∈ d.print, NumberByte b :=
  number_numberByte d.sign_sign (Double.digits_integer _) (Double.fraction_text _) (Double.exponent_text _)

/-- **Only a tree without backspaces is read back as one of the same shape.** -/
theorem noBackspace_of_reread {stod : List UInt8 → Option Double} {v w : JsonValue Double} (h : reread stod v = .ok w)
    (hshape : v.SameShape w) : v.NoBackspace := by
  let _ := Double.text stod
  have hprinted : v.All (OnPrinted (32 ≤ ·)) :=
    JsonValue.all_of_forall (fun _ d _ b hb => (printed_number d b hb).le) v
  exact hshape.strings ((text_of_deserialize h).noBackspace (eight_not_mem_serialize hprinted))

theorem reread_eq {stod : List UInt8 → Option Double} {v : JsonValue Double} (ho : v.Ordered) (hb : v.NoBackspace)
    (h : v.All (fun w => ∀ d, w = .double d → ¬ d.rounded.Whole → (stod d.print).isSome = true)) :
    reread stod v = .ok (v.mapDoubles (Double.readBack stod)) := by
  let _ := Double.text stod
  have hall : v.All (DerivesDouble Escape (Double.readBack stod)) :=
    h.imp (fun _ hw d hd => Double.derives_readBack (hw d hd)) v
  have htext := text_of_derives (derives_mapDoubles (Double.readBack stod) v hall (derivesString_of_noBackspace hb) ho)
    blank_nil
  rw [List.append_nil] at htext
  exact deserialize_of_text htext

/-- `stod` with a value for every text it does not read. -/
def orElse (stod : List UInt8 → Option Double) (d : Double) (s : List UInt8) : Option Double :=
  some ((stod s).getD d)

/-- **What is read back is what every total extension of `stod` gives.** -/
theorem eq_mapDoubles_of_reread {stod : List UInt8 → Option Double} {v w : JsonValue Double} (ho : v.Ordered)
    (hb : v.NoBackspace) (h : reread stod v = .ok w) (d : Double) :
    w = v.mapDoubles (Double.readBack (orElse stod d)) := by
  have hmono : reread (orElse stod d) v = .ok w := by
    unfold reread at h ⊢
    rw [serialize_congr (i := Double.text (orElse stod d)) (j := Double.text stod) (fun _ => rfl)]
    refine deserialize_mono (i := Double.text stod) (fun s x hx => ?_) h
    show some ((stod s).getD d) = some x
    rw [show stod s = some x from hx, Option.getD_some]
  have hall : v.All (fun w => ∀ x, w = .double x → ¬ x.rounded.Whole → ((orElse stod d) x.print).isSome = true) :=
    ho.imp (fun _ _ _ _ _ => rfl) v
  exact Except.ok.inj (hmono.symm.trans (reread_eq ho hb hall))

/-- **A value keeps its types exactly when each of its doubles is printed with a point or an exponent and read**, and
no string and no key has the byte 8. -/
theorem keepsTypes_iff (stod : List UInt8 → Option Double) {v : JsonValue Double} (ho : v.Ordered) :
    KeepsTypes stod v ↔ v.NoBackspace ∧ v.All (Readable stod) := by
  constructor
  · rintro ⟨w, hw, hshape⟩
    have hb := noBackspace_of_reread hw hshape
    refine ⟨hb, ?_⟩
    -- two zeros, so that what is read cannot be both
    obtain ⟨z, z', hz⟩ : ∃ z z' : Double, z ≠ z' :=
      ⟨⟨false, 0, -1074, by norm_num, by norm_num, .inr rfl⟩, ⟨true, 0, -1074, by norm_num, by norm_num, .inr rfl⟩,
        fun h => Bool.false_ne_true (Double.mk.inj h).1⟩
    have heq := eq_mapDoubles_of_reread ho hb hw z
    have heq' := eq_mapDoubles_of_reread ho hb hw z'
    have hstays : v.All (StaysDouble (Double.readBack (orElse stod z))) :=
      (JsonValue.sameShape_mapDoubles _ v).1 (heq ▸ hshape)
    have hsame := JsonValue.mapDoubles_inj (heq.symm.trans heq')
    refine (hstays.and hsame).imp (fun x hx d hd => ?_) v
    obtain ⟨d', hd'⟩ := hx.1 d hd
    have hd'' := hx.2 d hd
    unfold Double.readBack at hd' hd''
    split at hd'
    · cases hd'
    · rename_i hw
      rw [if_neg hw, if_neg hw, JsonValue.double.injEq] at hd''
      refine ⟨hw, ?_⟩
      cases hs : stod d.print with
      | some _ => rfl
      | none =>
        simp only [orElse, hs, Option.getD_none, Option.getD_some] at hd''
        exact absurd hd'' hz
  · rintro ⟨hb, h⟩
    refine ⟨_, reread_eq ho hb (h.imp (fun _ hw d hd _ => (hw d hd).2) v), ?_⟩
    rw [JsonValue.sameShape_mapDoubles]
    refine h.imp (fun w hw d hd => ⟨(stod d.print).getD d, ?_⟩) v
    unfold Double.readBack
    rw [if_neg (hw d hd).1]

/-- A person of this height. -/
def person (height : Double) : JsonValue Double := .object [(utf8 "height", .double height)]

def onePointEight : Double where
  negative := false
  mantissa := 8106479329266893
  exponent := -52
  mantissa_lt := by norm_num
  exponent_range := by norm_num
  normal := .inl (by norm_num)

def two : Double where
  negative := false
  mantissa := 2 ^ 52
  exponent := -51
  mantissa_lt := by norm_num
  exponent_range := by norm_num
  normal := .inl (by norm_num)

theorem ordered_person (d : Double) : (person d).Ordered := by
  simp [person, JsonValue.Ordered, JsonValue.All, JsonValue.AllMembers, OrdMap.Sorted]

theorem noBackspace_person (d : Double) : (person d).NoBackspace :=
  ⟨JsonValue.onStrings_object (List.forall_mem_singleton.2
    (show 8 ∉ utf8 "height" by decide +kernel)), JsonValue.onStrings_of_ne nofun nofun,
    trivial⟩

theorem all_person {P : JsonValue Double → Prop} {d : Double} (hp : P (person d)) (hd : P (.double d)) :
    (person d).All P := ⟨hp, hd, trivial⟩

/-- A height of 1.8 stays a double. -/
theorem keepsTypes_onePointEight :
    (person onePointEight).Ordered ∧
      KeepsTypes (fun s => if s = utf8 "1.8" then some onePointEight else none) (person onePointEight) := by
  refine ⟨ordered_person _, (keepsTypes_iff _ (ordered_person _)).2 ⟨noBackspace_person _,
    all_person (fun d hd => ?_) (fun d hd => ?_)⟩⟩
  · cases hd
  · cases hd
    exact ⟨by decide +kernel, by decide +kernel⟩

theorem whole_two : two.rounded.Whole := by decide +kernel

/-- A height of 2.0 is read back as the `Int` 2, whatever `std::stod` reads. -/
theorem reread_two (stod : List UInt8 → Option Double) :
    reread stod (person two) = .ok (.object [(utf8 "height", .int 2)]) := by
  have hall := all_person (P := fun w => ∀ d, w = .double d → ¬ d.rounded.Whole → (stod d.print).isSome = true)
    (d := two) (fun _ hd => by cases hd) (fun d hd hw => absurd whole_two (JsonValue.double.inj hd ▸ hw))
  have hint : Int32.ofInt (intValue two.sign two.rounded.integer) = 2 := by decide +kernel
  have hread : Double.readBack stod two = .int 2 := by
    unfold Double.readBack
    rw [if_pos whole_two, hint]
  rw [reread_eq (ordered_person two) (noBackspace_person two) hall]
  unfold person
  rw [JsonValue.mapDoubles, JsonValue.mapDoublesMembers, JsonValue.mapDoubles, hread]
  rfl

theorem not_keepsTypes_two : ¬ ∃ stod : List UInt8 → Option Double, ∀ v, v.Ordered → KeepsTypes stod v := by
  rintro ⟨stod, h⟩
  obtain ⟨w, hw, hshape⟩ := h (person two) (ordered_person two)
  rw [reread_two] at hw
  cases hw
  exact hshape.2.1

end MiniRos2

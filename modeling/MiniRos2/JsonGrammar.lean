import MiniRos2.JsonParse
/-!
# JsonGrammar — the texts of a value

`DerivesBy` is the grammar of the format, written as concatenations of bytes and without any position: blanks, string
bodies, numbers, and the three recursive symbols (a value, the elements of an array, the members of an object).  The
escapes are a parameter: the format has seven (`FormatEscape`), the compiled parser six (`Escape`).  The parser is
compared with the grammar of its own escapes (`Derives`) in `JsonSound` and `JsonComplete`, and this one with the
format's in `JsonEscapes`.
-/
namespace MiniRos2

/-! ## The grammar -/

/-- A run of space, tab, LF and CR. -/
def Blank (w : List UInt8) : Prop := ∀ b ∈ w, isSpace b = true

/-- The escapes that the parser has: the byte after a backslash and the byte it stands for. -/
inductive Escape : UInt8 → UInt8 → Prop where
  | quote : Escape chQuote chQuote
  | backslash : Escape chBackslash chBackslash
  | f : Escape chF 12
  | n : Escape chN 10
  | r : Escape 114 13
  | t : Escape chT 9

/-- The escapes that `escapeString` writes: these and `\b`. -/
inductive FormatEscape : UInt8 → UInt8 → Prop where
  | parsed {e b : UInt8} : Escape e b → FormatEscape e b
  | b : FormatEscape 98 8

/-- What stands between the quotes, and the string it stands for. -/
inductive StringBodyBy (E : UInt8 → UInt8 → Prop) : List UInt8 → List UInt8 → Prop where
  | nil : StringBodyBy E [] []
  | plain {b : UInt8} {s t : List UInt8} :
      b ≠ chQuote → b ≠ chBackslash → StringBodyBy E s t → StringBodyBy E (b :: s) (b :: t)
  | escape {e b : UInt8} {s t : List UInt8} :
      E e b → StringBodyBy E s t → StringBodyBy E (chBackslash :: e :: s) (b :: t)

abbrev StringBody : List UInt8 → List UInt8 → Prop := StringBodyBy Escape

/-- One or more digits. -/
def Digits (ds : List UInt8) : Prop := ds ≠ [] ∧ ∀ b ∈ ds, Decimal.isDigit b = true

inductive Sign : List UInt8 → Prop where
  | none : Sign []
  | minus : Sign [chMinus]

/-- An optional fraction; the flag tells whether it is there. -/
inductive Fraction : Bool → List UInt8 → Prop where
  | none : Fraction false []
  | digits {ds : List UInt8} : Digits ds → Fraction true (chDot :: ds)

/-- An optional exponent; the flag tells whether it is there. -/
inductive Exponent : Bool → List UInt8 → Prop where
  | none : Exponent false []
  | digits {e : UInt8} {sign ds : List UInt8} : e = chE ∨ e = chUpE →
      sign = [] ∨ sign = [chPlus] ∨ sign = [chMinus] → Digits ds → Exponent true (e :: (sign ++ ds))

/-- The integer a sign and digits stand for. -/
def intValue (sign ds : List UInt8) : Int :=
  if sign = [] then Decimal.value ds else -(Decimal.value ds : Int)

/-- The recursive symbols, each with what it stands for. -/
inductive Sym (D : Type) where
  | value (v : JsonValue D)
  | elems (vs : List (JsonValue D))
  | members (kvs : List (List UInt8 × JsonValue D))

inductive DerivesBy {D : Type} [DoubleText D] (E : UInt8 → UInt8 → Prop) : Sym D → List UInt8 → Prop where
  | true : DerivesBy E (.value (.bool Bool.true)) (utf8 "true")
  | false : DerivesBy E (.value (.bool Bool.false)) (utf8 "false")
  | null : DerivesBy E (.value .null) (utf8 "null")
  | string {s t : List UInt8} : StringBodyBy E s t → DerivesBy E (.value (.string t)) (chQuote :: (s ++ [chQuote]))
  | int {sign ds : List UInt8} : Sign sign → Digits ds → INT_MIN ≤ intValue sign ds → intValue sign ds ≤ INT_MAX →
      DerivesBy E (.value (.int (Int32.ofInt (intValue sign ds)))) (sign ++ ds)
  | double {sign ds frac exp : List UInt8} {f e : Bool} {d : D} : Sign sign → Digits ds → Fraction f frac →
      Exponent e exp → (f || e) = Bool.true → DoubleText.stod (sign ++ (ds ++ (frac ++ exp))) = some d →
      DerivesBy E (.value (.double d)) (sign ++ (ds ++ (frac ++ exp)))
  | emptyArray {w : List UInt8} : Blank w → DerivesBy E (.value (.array [])) (chLBrack :: (w ++ [chRBrack]))
  | array {w s : List UInt8} {vs : List (JsonValue D)} : Blank w → DerivesBy E (.elems vs) s →
      DerivesBy E (.value (.array vs)) (chLBrack :: (w ++ (s ++ [chRBrack])))
  | lastElem {s w : List UInt8} {v : JsonValue D} : DerivesBy E (.value v) s → Blank w →
      DerivesBy E (.elems [v]) (s ++ w)
  | elem {s w w' t : List UInt8} {v : JsonValue D} {vs : List (JsonValue D)} : DerivesBy E (.value v) s → Blank w →
      Blank w' → DerivesBy E (.elems vs) t → DerivesBy E (.elems (v :: vs)) (s ++ (w ++ (chComma :: (w' ++ t))))
  | emptyObject {w : List UInt8} : Blank w → DerivesBy E (.value (.object [])) (chLBrace :: (w ++ [chRBrace]))
  | object {w s : List UInt8} {kvs : List (List UInt8 × JsonValue D)} : Blank w → DerivesBy E (.members kvs) s →
      DerivesBy E (.value (.object (OrdMap.ofList kvs))) (chLBrace :: (w ++ (s ++ [chRBrace])))
  | lastMember {ks k w w' s w'' : List UInt8} {v : JsonValue D} : StringBodyBy E ks k → Blank w → Blank w' →
      DerivesBy E (.value v) s → Blank w'' →
      DerivesBy E (.members [(k, v)]) (chQuote :: (ks ++ (chQuote :: (w ++ (chColon :: (w' ++ (s ++ w'')))))))
  | member {ks k w w' s w'' w₃ t : List UInt8} {v : JsonValue D} {kvs : List (List UInt8 × JsonValue D)} :
      StringBodyBy E ks k → Blank w → Blank w' → DerivesBy E (.value v) s → Blank w'' → Blank w₃ →
      DerivesBy E (.members kvs) t → DerivesBy E (.members ((k, v) :: kvs))
        (chQuote :: (ks ++ (chQuote :: (w ++ (chColon :: (w' ++ (s ++ (w'' ++ (chComma :: (w₃ ++ t))))))))))

/-- The grammar of the compiled parser. -/
abbrev Derives {D : Type} [DoubleText D] : Sym D → List UInt8 → Prop := DerivesBy Escape

/-- **The texts of a value**: one derivation, blanks before and behind it. -/
def TextBy {D : Type} [DoubleText D] (E : UInt8 → UInt8 → Prop) (text : List UInt8) (v : JsonValue D) : Prop :=
  ∃ w s w', text = w ++ (s ++ w') ∧ Blank w ∧ DerivesBy E (.value v) s ∧ Blank w'

abbrev Text {D : Type} [DoubleText D] : List UInt8 → JsonValue D → Prop := TextBy Escape

end MiniRos2

import MiniRos2.JsonValue
/-!
# JsonParse — `JsonValue::deserialize`

The parser walks the text with one `index` passed by reference.  A `Cursor` is that index together with the text from
it on, so `json[index]` is the head of `rest`, and the NUL that `std::string` keeps at position `size()` when `rest` is
empty.  The six mutually recursive functions take a bound on their depth (`outOfFuel` when it is too small);
`deserialize` gives one that always suffices (`deserialize_onlyThrows` in `JsonComplete`).
-/
namespace MiniRos2

structure Cursor where
  index : Nat
  rest : List UInt8

namespace Cursor

/-- `index >= json.size()`. -/
def atEnd (c : Cursor) : Bool := c.rest.isEmpty

/-- `json[index]`. -/
def cur (c : Cursor) : UInt8 := c.rest.headD 0

/-- `index += n`. -/
def advance (c : Cursor) (n : Nat) : Cursor := ⟨c.index + n, c.rest.drop n⟩

/-- `index++`. -/
def next (c : Cursor) : Cursor := c.advance 1

end Cursor

def isSpace (b : UInt8) : Bool := b == 32 || b == 9 || b == 10 || b == 13

/-- The exception of a syntax error: the text, then the index. -/
def parseError {α : Type} (what : String) (index : Nat) : Except Abort α :=
  .error (.throws (.invalidArgument (utf8 "Json deserialize: " ++ utf8 what ++ utf8 " at index " ++ toString index)))

/-- `while (index < json.size() && p(json[index])) index++`. -/
def skipWhileFrom (p : UInt8 → Bool) : Nat → List UInt8 → Cursor
  | i, [] => ⟨i, []⟩
  | i, b :: rest => if p b then skipWhileFrom p (i + 1) rest else ⟨i, b :: rest⟩

def Cursor.skipWhile (p : UInt8 → Bool) (c : Cursor) : Cursor := skipWhileFrom p c.index c.rest

def skipWhitespace (c : Cursor) : Cursor := c.skipWhile isSpace

/-! ## Strings -/

/-- The `switch` after a backslash.  It has no `case 'b'`: the comment behind `case '\\'` ends in a backslash, which
joins the next line, the one with this case, to the comment. -/
def unescape (e : UInt8) : Option UInt8 :=
  if e = chQuote then some chQuote
  else if e = chBackslash then some chBackslash
  else if e = chF then some 12
  else if e = chN then some 10
  else if e = 114 then some 13
  else if e = chT then some 9
  else none

def invalidEscape {α : Type} (e : UInt8) (index : Nat) : Except Abort α :=
  .error (.throws (.invalidArgument (utf8 "Json deserialize: invalid escape character '" ++ e :: utf8 "' at index " ++
    toString index)))

/-- The loop of `parseString` up to and over the closing quote, with the result so far. -/
def parseStringFrom : Nat → List UInt8 → List UInt8 → Except Abort (List UInt8 × Cursor)
  | i, _, [] => parseError "expected '\"'" i
  | i, result, b :: rest =>
    if b = chQuote then .ok (result, ⟨i + 1, rest⟩)
    else if b = chBackslash then
      match rest with
      | [] => invalidEscape 0 (i + 1)
      | e :: rest' =>
        match unescape e with
        | some r => parseStringFrom (i + 2) (result ++ [r]) rest'
        | none => invalidEscape e (i + 1)
    else parseStringFrom (i + 1) (result ++ [b]) rest

def parseString (c : Cursor) : Except Abort (List UInt8 × Cursor) :=
  if c.atEnd || c.cur != chQuote then parseError "expected '\"'" c.index
  else parseStringFrom c.next.index [] c.next.rest

/-! ## Numbers -/

/-- The loops of `parseNumber` over digits. -/
def skipDigits (c : Cursor) : Cursor := c.skipWhile Decimal.isDigit

def LLONG_MIN : Int := -(2 ^ 63)
def LLONG_MAX : Int := 2 ^ 63 - 1
def INT_MIN : Int := -(2 ^ 31)
def INT_MAX : Int := 2 ^ 31 - 1

/-- `std::stoll` in base 10: blanks, a sign, the longest run of digits. -/
def stoll (s : List UInt8) : Except Abort Int :=
  let s := s.dropWhile (fun b => b == 32 || (decide (9 ≤ b) && decide (b ≤ 13)))
  let negative := s.head? == some chMinus
  let digits := (if negative || s.head? == some chPlus then s.tail else s).takeWhile Decimal.isDigit
  let n : Int := if negative then -(Decimal.value digits) else Decimal.value digits
  if digits.isEmpty then .error (.throws (.invalidArgument (utf8 "stoll")))
  else if n < LLONG_MIN ∨ LLONG_MAX < n then .error (.throws (.outOfRange (utf8 "stoll")))
  else .ok n

def stod {D : Type} [DoubleText D] (s : List UInt8) : Except Abort D :=
  match DoubleText.stod s with
  | some d => .ok d
  | none => .error (.throws (.outOfRange (utf8 "stod")))

/-- An optional minus sign, which a digit must follow. -/
def parseSign (c : Cursor) : Except Abort Cursor :=
  if c.cur = chMinus then
    if c.next.atEnd || !Decimal.isDigit c.next.cur then parseError "invalid number" c.next.index
    else .ok c.next
  else .ok c

/-- The fraction, if there is one (`is_double`). -/
def parseFraction (c : Cursor) : Except Abort (Bool × Cursor) :=
  if !c.atEnd && c.cur == chDot then
    if c.next.atEnd || !Decimal.isDigit c.next.cur then parseError "invalid decimal" c.next.index
    else .ok (true, skipDigits c.next)
  else .ok (false, c)

/-- The exponent, if there is one (`is_double`). -/
def parseExponent (c : Cursor) : Except Abort (Bool × Cursor) :=
  if !c.atEnd && (c.cur == chE || c.cur == chUpE) then
    let c := c.next
    let c := if !c.atEnd && (c.cur == chPlus || c.cur == chMinus) then c.next else c
    if c.atEnd || !Decimal.isDigit c.cur then parseError "invalid exponent" c.index
    else .ok (true, skipDigits c)
  else .ok (false, c)

section Parse

variable {D : Type} [DoubleText D]

/-- The conversion of the number's text. -/
def convertNumber (num_str : List UInt8) (is_double : Bool) : Except Abort (JsonValue D) :=
  if is_double then do
    let d ← stod num_str
    .ok (.double d)
  else do
    let num ← stoll num_str
    if num < INT_MIN ∨ INT_MAX < num then
      .error (.throws (.invalidArgument (utf8 "Json deserialize: number " ++ num_str ++ utf8 " out of int range")))
    else .ok (.int (Int32.ofInt num))

def parseNumber (start : Cursor) : Except Abort (JsonValue D × Cursor) := do
  let c ← parseSign start
  let c := skipDigits c
  let (frac, c) ← parseFraction c
  let (exp, c) ← parseExponent c
  let num_str := start.rest.take (c.index - start.index)
  let v ← convertNumber num_str (frac || exp)
  .ok (v, c)

/-! ## Values -/

/-- `true`, `false` and `null`: the word must stand here in full. -/
def parseWord (c : Cursor) (word : String) (v : JsonValue D) (what : String) :
    Except Abort (JsonValue D × Cursor) :=
  if c.rest.length ≤ (utf8 word).length - 1 || c.rest.take (utf8 word).length != utf8 word then
    parseError what c.index
  else .ok (v, c.advance (utf8 word).length)

def missingColon {α : Type} (key : List UInt8) (index : Nat) : Except Abort α :=
  .error (.throws (.invalidArgument (utf8 "Json deserialize: expected ':' after key '" ++ key ++ utf8 "' at index " ++
    toString index)))

def unexpectedCharacter {α : Type} (b : UInt8) (index : Nat) : Except Abort α :=
  .error (.throws (.invalidArgument (utf8 "Json deserialize: unexpected character '" ++ b :: utf8 "' at index " ++
    toString index)))

mutual

def parseValue : Nat → Cursor → Except Abort (JsonValue D × Cursor)
  | 0, _ => .error .outOfFuel
  | fuel + 1, c =>
    let c := skipWhitespace c
    if c.atEnd then .error (.throws (.invalidArgument (utf8 "Json deserialize: unexpected end of input")))
    else if c.cur = chLBrace then parseObject fuel c
    else if c.cur = chLBrack then parseArray fuel c
    else if c.cur = chQuote then do
      let (s, c) ← parseString c
      .ok (.string s, c)
    else if c.cur = chT then parseWord c "true" (.bool true) "invalid boolean"
    else if c.cur = chF then parseWord c "false" (.bool false) "invalid boolean"
    else if c.cur = chN then parseWord c "null" .null "invalid null"
    else if c.cur == chMinus || Decimal.isDigit c.cur then parseNumber c
    else unexpectedCharacter c.cur c.index

def parseArray : Nat → Cursor → Except Abort (JsonValue D × Cursor)
  | 0, _ => .error .outOfFuel
  | fuel + 1, c =>
    if c.atEnd || c.cur != chLBrack then parseError "expected '['" c.index
    else parseElems fuel [] (skipWhitespace c.next)

/-- The loop of `parseArray`, with the elements so far. -/
def parseElems : Nat → List (JsonValue D) → Cursor → Except Abort (JsonValue D × Cursor)
  | 0, _, _ => .error .outOfFuel
  | fuel + 1, arr, c =>
    if !c.atEnd && c.cur != chRBrack then do
      let (v, c) ← parseValue fuel c
      let c := skipWhitespace c
      if !c.atEnd && c.cur == chComma then
        let c := skipWhitespace c.next
        if c.atEnd || c.cur == chRBrack then parseError "unexpected ',' at end of array" c.index
        else parseElems fuel (arr ++ [v]) c
      else if c.cur != chRBrack then parseError "expected ',' or ']'" c.index
      else parseElems fuel (arr ++ [v]) c
    else if c.atEnd || c.cur != chRBrack then parseError "expected ']'" c.index
    else .ok (.array arr, c.next)

def parseObject : Nat → Cursor → Except Abort (JsonValue D × Cursor)
  | 0, _ => .error .outOfFuel
  | fuel + 1, c =>
    if c.atEnd || c.cur != chLBrace then parseError "expected '\x7b'" c.index
    else parseMembers fuel [] (skipWhitespace c.next)

/-- The loop of `parseObject`, with the map so far. -/
def parseMembers : Nat → List (List UInt8 × JsonValue D) → Cursor → Except Abort (JsonValue D × Cursor)
  | 0, _, _ => .error .outOfFuel
  | fuel + 1, obj, c =>
    if !c.atEnd && c.cur != chRBrace then do
      let (key, c) ← parseString c
      let c := skipWhitespace c
      if c.atEnd || c.cur != chColon then missingColon key c.index
      else do
        let (v, c) ← parseValue fuel (skipWhitespace c.next)
        let obj := OrdMap.insert key v obj
        let c := skipWhitespace c
        if !c.atEnd && c.cur == chComma then
          let c := skipWhitespace c.next
          if c.atEnd || c.cur == chRBrace then parseError "unexpected ',' at end of object" c.index
          else parseMembers fuel obj c
        else if c.cur != chRBrace then parseError "expected ',' or '\x7d'" c.index
        else parseMembers fuel obj c
    else if c.atEnd || c.cur != chRBrace then parseError "expected '\x7d'" c.index
    else .ok (.object obj, c.next)

end

/-- Three calls and one byte for every byte of the text, and the call for the root. -/
def parseFuel (n : Nat) : Nat := 3 * n + 1

def deserialize (json : List UInt8) : Except Abort (JsonValue D) := do
  let (root, c) ← parseValue (parseFuel json.length) ⟨0, json⟩
  let c := skipWhitespace c
  if c.index ≠ json.length then parseError "unexpected characters after root value" c.index
  else .ok root

end Parse

end MiniRos2

import MiniRos2.JsonParse
import MiniRos2.Lib.Traced
/-!
# JsonScan — what the parser reads of its text

`JsonParse` walks the text by what is left of it.  Here the parser has the whole text and an `index`, as in the source,
and every `json[i]` and every `substr` is logged with its position.  The loops over single bytes take one more than the
text's length as the bound on their turns.  The two parsers give the same values and the same failures (`all_agree`).
-/
namespace MiniRos2
namespace Indexed

open Traced (Prog)
open Traced.Prog

inductive Access where
  /-- `json[i]`. -/
  | char (i : Nat)
  /-- `json.substr(start, n)`. -/
  | substr (start : Nat)

def Access.pos : Access → Nat
  | .char i => i
  | .substr start => start

abbrev Scan (α : Type) := Prog Access Abort Nat α

/-- The value of `index`. -/
def index : Scan Nat := state

/-- `index += n`. -/
def advance (n : Nat) : Scan Unit := setState (· + n)

/-- `throw std::invalid_argument` with the text and the index. -/
def syntaxError {α : Type} (what : String) : Scan α := do
  match (parseError what (← index) : Except Abort α) with
  | .ok a => return a
  | .error e => fail e

def liftE {α : Type} (x : Except Abort α) : Scan α :=
  match x with
  | .ok a => pure a
  | .error e => fail e

section Text

variable (json : List UInt8)

/-- `json[index]`, which is the NUL at `json.size()`. -/
def cur : Scan UInt8 := touch .char (fun i => json.getD i 0)

/-- `index >= json.size()`. -/
def atEnd : Scan Bool := do return decide (json.length ≤ (← index))

/-- `index < json.size() && p(json[index])`. -/
def sees (p : UInt8 → Bool) : Scan Bool := do
  if ← atEnd json then return false
  else return p (← cur json)

/-- `json.substr(start, n)`. -/
def substr (start n : Nat) : Scan (List UInt8) := do
  touch (fun _ => .substr start) (fun _ => ())
  if start > json.length then fail (.throws (.outOfRange (utf8 "basic_string::substr")))
  else return (json.drop start).take n

/-- `while (index < json.size() && p(json[index])) index++`. -/
def skipWhileLoop (p : UInt8 → Bool) : Nat → Scan Unit
  | 0 => fail .outOfFuel
  | n + 1 => do
    if ← sees json p then
      advance 1
      skipWhileLoop p n

def skipWhile (p : UInt8 → Bool) : Scan Unit := skipWhileLoop json p (json.length + 1)

def skipWhitespace : Scan Unit := skipWhile json isSpace

def skipDigits : Scan Unit := skipWhile json Decimal.isDigit

/-! ## Strings -/

/-- The loop of `parseString`. -/
def parseStringLoop : Nat → List UInt8 → Scan (List UInt8)
  | 0, _ => fail .outOfFuel
  | n + 1, result => do
    if ← sees json (· != chQuote) then
      if (← cur json) = chBackslash then
        advance 1
        match unescape (← cur json) with
        | some r =>
          advance 1
          parseStringLoop n (result ++ [r])
        | none => liftE (invalidEscape (← cur json) (← index))
      else
        let b ← cur json
        advance 1
        parseStringLoop n (result ++ [b])
    else return result

def parseString : Scan (List UInt8) := do
  if ← sees json (· == chQuote) then
    advance 1
    let result ← parseStringLoop json (json.length + 1) []
    if ← sees json (· == chQuote) then
      advance 1
      return result
    else syntaxError "expected '\"'"
  else syntaxError "expected '\"'"

/-! ## Numbers -/

def parseSign : Scan Unit := do
  if (← cur json) = chMinus then
    advance 1
    if ← sees json Decimal.isDigit then return ()
    else syntaxError "invalid number"

def parseFraction : Scan Bool := do
  if ← sees json (· == chDot) then
    advance 1
    if ← sees json Decimal.isDigit then
      skipDigits json
      return true
    else syntaxError "invalid decimal"
  else return false

def parseExponent : Scan Bool := do
  if ← sees json (fun b => b == chE || b == chUpE) then
    advance 1
    if ← sees json (fun b => b == chPlus || b == chMinus) then
      advance 1
    if ← sees json Decimal.isDigit then
      skipDigits json
      return true
    else syntaxError "invalid exponent"
  else return false

variable {D : Type} [DoubleText D]

def parseNumber : Scan (JsonValue D) := do
  let start ← index
  parseSign json
  skipDigits json
  let frac ← parseFraction json
  let exp ← parseExponent json
  let num_str ← substr json start ((← index) - start)
  liftE (convertNumber num_str (frac || exp))

/-! ## Values -/

/-- `true`, `false` and `null`. -/
def parseWord (word : String) (v : JsonValue D) (what : String) : Scan (JsonValue D) := do
  if (← index) + ((utf8 word).length - 1) ≥ json.length then syntaxError what
  else if (← substr json (← index) (utf8 word).length) != utf8 word then syntaxError what
  else
    advance (utf8 word).length
    return v

mutual

def parseValue : Nat → Scan (JsonValue D)
  | 0 => fail .outOfFuel
  | fuel + 1 => do
    skipWhitespace json
    if ← atEnd json then fail (.throws (.invalidArgument (utf8 "Json deserialize: unexpected end of input")))
    else
      let first_char ← cur json
      if first_char = chLBrace then parseObject fuel
      else if first_char = chLBrack then parseArray fuel
      else if first_char = chQuote then return .string (← parseString json)
      else if first_char = chT then parseWord json "true" (.bool true) "invalid boolean"
      else if first_char = chF then parseWord json "false" (.bool false) "invalid boolean"
      else if first_char = chN then parseWord json "null" .null "invalid null"
      else if first_char == chMinus || Decimal.isDigit first_char then parseNumber json
      else liftE (unexpectedCharacter first_char (← index))

def parseArray : Nat → Scan (JsonValue D)
  | 0 => fail .outOfFuel
  | fuel + 1 => do
    if ← sees json (· == chLBrack) then
      advance 1
      skipWhitespace json
      parseElems fuel []
    else syntaxError "expected '['"

/-- The loop of `parseArray`, with the elements so far, and the closing bracket. -/
def parseElems : Nat → List (JsonValue D) → Scan (JsonValue D)
  | 0, _ => fail .outOfFuel
  | fuel + 1, arr => do
    if ← sees json (· != chRBrack) then
      let v ← parseValue fuel
      skipWhitespace json
      if ← sees json (· == chComma) then
        advance 1
        skipWhitespace json
        if ← sees json (· != chRBrack) then parseElems fuel (arr ++ [v])
        else syntaxError "unexpected ',' at end of array"
      else if (← cur json) != chRBrack then syntaxError "expected ',' or ']'"
      else parseElems fuel (arr ++ [v])
    else if ← sees json (· == chRBrack) then
      advance 1
      return .array arr
    else syntaxError "expected ']'"

def parseObject : Nat → Scan (JsonValue D)
  | 0 => fail .outOfFuel
  | fuel + 1 => do
    if ← sees json (· == chLBrace) then
      advance 1
      skipWhitespace json
      parseMembers fuel []
    else syntaxError "expected '\x7b'"

/-- The loop of `parseObject`, with the map so far, and the closing brace. -/
def parseMembers : Nat → List (List UInt8 × JsonValue D) → Scan (JsonValue D)
  | 0, _ => fail .outOfFuel
  | fuel + 1, obj => do
    if ← sees json (· != chRBrace) then
      let key ← parseString json
      skipWhitespace json
      if ← sees json (· == chColon) then
        advance 1
        skipWhitespace json
        let v ← parseValue fuel
        let obj := OrdMap.insert key v obj
        skipWhitespace json
        if ← sees json (· == chComma) then
          advance 1
          skipWhitespace json
          if ← sees json (· != chRBrace) then parseMembers fuel obj
          else syntaxError "unexpected ',' at end of object"
        else if (← cur json) != chRBrace then syntaxError "expected ',' or '\x7d'"
        else parseMembers fuel obj
      else liftE (missingColon key (← index))
    else if ← sees json (· == chRBrace) then
      advance 1
      return .object obj
    else syntaxError "expected '\x7d'"

end

end Text

/-! ## The parser of `JsonParse` -/

section Cursor

variable (json : List UInt8)

/-- The index with what is left of the text. -/
def cursorAt (i : Nat) : Cursor := ⟨i, json.drop i⟩

def onCursor {α : Type} : Except Abort (α × Nat) → Except Abort (α × Cursor)
  | .ok (a, j) => .ok (a, cursorAt json j)
  | .error e => .error e

end Cursor

section Run

variable {json : List UInt8} {α : Type} {i : Nat}

theorem atEnd_cursorAt : (cursorAt json i).atEnd = decide (json.length ≤ i) := by
  rw [Bool.eq_iff_iff]
  simp [cursorAt, Cursor.atEnd]

theorem cur_cursorAt : (cursorAt json i).cur = json.getD i 0 := by
  simp [cursorAt, Cursor.cur, List.headD_eq_head?_getD, List.getD_eq_getElem?_getD]

theorem advance_cursorAt (n : Nat) : (cursorAt json i).advance n = cursorAt json (i + n) := by
  simp [cursorAt, Cursor.advance]

theorem next_cursorAt : (cursorAt json i).next = cursorAt json (i + 1) := advance_cursorAt 1

@[simp] theorem run_index : index.run i = .ok (i, i) := rfl
@[simp] theorem run_advance (n : Nat) : (advance n).run i = .ok ((), i + n) := rfl
@[simp] theorem run_cur : (cur json).run i = .ok (json.getD i 0, i) := rfl
@[simp] theorem run_atEnd : (atEnd json).run i = .ok (decide (json.length ≤ i), i) := rfl
@[simp] theorem run_syntaxError (what : String) : (syntaxError what : Scan α).run i = parseError what i := rfl

/-- What `sees` answers. -/
def seesAt (json : List UInt8) (p : UInt8 → Bool) (i : Nat) : Bool :=
  !(cursorAt json i).atEnd && p (cursorAt json i).cur

theorem run_sees (p : UInt8 → Bool) : (sees json p).run i = .ok (seesAt json p i, i) := by
  unfold sees seesAt
  rw [Traced.run_bind, run_atEnd, atEnd_cursorAt, cur_cursorAt]
  by_cases h : json.length ≤ i
  · simp [h, Except.ok_bind]
  · simp [h, Except.ok_bind]

theorem seesAt_of_lt (p : UInt8 → Bool) (h : i < json.length) : seesAt json p i = p (json.getD i 0) := by
  rw [seesAt, atEnd_cursorAt, cur_cursorAt, decide_eq_false (by omega)]
  rfl

theorem seesAt_of_ge (p : UInt8 → Bool) (h : json.length ≤ i) : seesAt json p i = false := by
  rw [seesAt, atEnd_cursorAt, decide_eq_true h]
  rfl

theorem drop_of_lt (h : i < json.length) : json.drop i = json.getD i 0 :: json.drop (i + 1) := by
  rw [List.drop_eq_getElem_cons h, List.getD_eq_getElem _ _ h]

theorem run_skipWhileLoop (p : UInt8 → Bool) : ∀ (n i : Nat), json.length - i < n → ∃ j,
    (skipWhileLoop json p n).run i = .ok ((), j) ∧ skipWhileFrom p i (json.drop i) = cursorAt json j
  | 0, _, hn => absurd hn (Nat.not_lt_zero _)
  | n + 1, i, hn => by
    rw [skipWhileLoop, Traced.run_bind, run_sees, Except.ok_bind]
    rcases Nat.lt_or_ge i json.length with hlt | hge
    · rw [seesAt_of_lt p hlt, drop_of_lt hlt, skipWhileFrom]
      by_cases hp : p (json.getD i 0) = true
      · rw [if_pos hp, if_pos hp, Traced.run_bind]
        exact run_skipWhileLoop p n (i + 1) (by omega)
      · rw [if_neg hp, if_neg hp, ← drop_of_lt hlt]
        exact ⟨i, rfl, rfl⟩
    · rw [seesAt_of_ge p hge, if_neg Bool.false_ne_true, List.drop_eq_nil_of_le hge, skipWhileFrom,
        ← List.drop_eq_nil_of_le hge]
      exact ⟨i, rfl, rfl⟩

/-- **A loop over bytes moves the cursor.** -/
theorem run_skipWhitespace (json : List UInt8) (i : Nat) : ∃ j,
    (skipWhitespace json).run i = .ok ((), j) ∧ MiniRos2.skipWhitespace (cursorAt json i) = cursorAt json j :=
  run_skipWhileLoop isSpace _ i (by omega)

theorem run_skipDigits (json : List UInt8) (i : Nat) : ∃ j,
    (skipDigits json).run i = .ok ((), j) ∧ MiniRos2.skipDigits (cursorAt json i) = cursorAt json j :=
  run_skipWhileLoop Decimal.isDigit _ i (by omega)

/-- One turn, with the NUL read behind a backslash at the end. -/
theorem parseStringFrom_cons (i : Nat) (result : List UInt8) (b : UInt8) (rest : List UInt8) :
    parseStringFrom i result (b :: rest) =
      if b = chQuote then .ok (result, ⟨i + 1, rest⟩)
      else if b = chBackslash then
        match unescape (rest.headD 0) with
        | some r => parseStringFrom (i + 2) (result ++ [r]) rest.tail
        | none => invalidEscape (rest.headD 0) (i + 1)
      else parseStringFrom (i + 1) (result ++ [b]) rest := by
  rw [parseStringFrom.eq_def]
  cases rest with
  | nil => rfl
  | cons e rest => rfl

theorem run_parseStringLoop : ∀ (n i : Nat) (result : List UInt8), json.length - i < n →
    parseStringFrom i result (json.drop i) =
      (parseStringLoop json n result).run i >>= fun p =>
        if seesAt json (· == chQuote) p.2 then .ok (p.1, cursorAt json (p.2 + 1))
        else parseError "expected '\"'" p.2
  | 0, _, _, hn => absurd hn (Nat.not_lt_zero _)
  | n + 1, i, result, hn => by
    rw [parseStringLoop, Traced.run_bind, run_sees, Except.ok_bind]
    rcases Nat.lt_or_ge i json.length with hlt | hge
    · rw [seesAt_of_lt _ hlt, drop_of_lt hlt, parseStringFrom_cons]
      by_cases hq : json.getD i 0 = chQuote
      · have hsees : seesAt json (· == chQuote) i = true := by
          rw [seesAt_of_lt _ hlt, hq]
          rfl
        rw [if_pos hq, if_neg (by rw [hq]; exact Bool.false_ne_true), Traced.run_pure, Except.ok_bind, if_pos hsees]
        rfl
      · rw [if_neg hq, if_pos (bne_iff_ne.2 hq), Traced.run_bind, run_cur, Except.ok_bind]
        by_cases hb : json.getD i 0 = chBackslash
        · have hhead : (json.drop (i + 1)).headD 0 = json.getD (i + 1) 0 := cur_cursorAt
          rw [if_pos hb, if_pos hb, Traced.run_bind, run_advance, Except.ok_bind, Traced.run_bind, run_cur,
            Except.ok_bind, hhead]
          cases he : unescape (json.getD (i + 1) 0) with
          | none => rfl
          | some r =>
            rw [List.tail_drop]
            exact run_parseStringLoop n (i + 1 + 1) _ (by omega)
        · rw [if_neg hb, if_neg hb, Traced.run_bind, run_cur, Except.ok_bind, Traced.run_bind, run_advance,
            Except.ok_bind]
          exact run_parseStringLoop n (i + 1) _ (by omega)
    · rw [seesAt_of_ge _ hge, if_neg Bool.false_ne_true, List.drop_eq_nil_of_le hge, parseStringFrom,
        Traced.run_pure, Except.ok_bind, if_neg (by rw [seesAt_of_ge _ hge]; exact Bool.false_ne_true)]

/-- **A call agrees** with the one on the cursor: the same value where it stops, or the same failure. -/
def Agrees (json : List UInt8) (x : Scan α) (i : Nat) (y : Except Abort (α × Cursor)) : Prop :=
  y = onCursor json (x.run i)

section Agrees

variable {β : Type} {x : Scan α} {f : α → Scan β} {y : Except Abort (β × Cursor)}

theorem Agrees.bind {y : Except Abort (α × Cursor)} {g : α × Cursor → Except Abort (β × Cursor)}
    (hx : Agrees json x i y) (hf : ∀ a j, Agrees json (f a) j (g (a, cursorAt json j))) :
    Agrees json (x >>= f) i (y >>= g) := by
  unfold Agrees at *
  rw [hx, Traced.run_bind]
  rcases x.run i with e | ⟨a, j⟩
  · rfl
  · exact hf a j

/-- A call for the index alone. -/
theorem Agrees.bindIndex {f : Unit → Scan β} {x : Scan Unit} {y : Except Abort Cursor}
    {g : Cursor → Except Abort (β × Cursor)} (hx : Agrees json x i (y.map fun c => ((), c)))
    (hf : ∀ j, Agrees json (f ()) j (g (cursorAt json j))) : Agrees json (x >>= f) i (y >>= g) := by
  have hbind := Agrees.bind (g := fun p => g p.2) hx fun _ j => hf j
  cases y with
  | error e => exact hbind
  | ok c => exact hbind

/-- A part that does not fail is run alone. -/
theorem Agrees.after {a : α} {j : Nat} (hx : x.run i = .ok (a, j)) (hf : Agrees json (f a) j y) :
    Agrees json (x >>= f) i y := by
  unfold Agrees at *
  rw [hf, Traced.run_bind, hx]
  rfl

theorem Agrees.ite {c c' : Bool} {x x' : Scan α} {y y' : Except Abort (α × Cursor)} (hc : c = c')
    (hx : Agrees json x i y) (hx' : Agrees json x' i y') :
    Agrees json (if c = true then x else x') i (if c' = true then y else y') := by
  subst hc
  split
  · exact hx
  · exact hx'

/-- The source asks for the failure first. -/
theorem Agrees.ite_not {c c' : Bool} {x x' : Scan α} {y y' : Except Abort (α × Cursor)} (hc : c' = !c)
    (hx : Agrees json x i y) (hx' : Agrees json x' i y') :
    Agrees json (if c = true then x else x') i (if c' = true then y' else y) := by
  subst hc
  cases c with
  | true => exact hx
  | false => exact hx'

theorem Agrees.ite_prop {c : Prop} [Decidable c] {x x' : Scan α} {y y' : Except Abort (α × Cursor)}
    (hx : Agrees json x i y) (hx' : Agrees json x' i y') :
    Agrees json (if c then x else x') i (if c then y else y') := by
  split
  · exact hx
  · exact hx'

theorem agrees_syntaxError (what : String) :
    Agrees json (syntaxError what : Scan α) i (parseError what (cursorAt json i).index) := rfl

theorem agrees_liftE (e : Except Abort α) :
    Agrees json (liftE e) i (e >>= fun a => .ok (a, cursorAt json i)) := by
  cases e <;> rfl

theorem agrees_pure (a : α) : Agrees json (pure a : Scan α) i (.ok (a, cursorAt json i)) := rfl

end Agrees

theorem not_sees (p : UInt8 → Bool) :
    ((cursorAt json i).atEnd || !p (cursorAt json i).cur) = !seesAt json p i := by
  rw [seesAt, Bool.not_and, Bool.not_not]

theorem not_sees_eq (b : UInt8) :
    ((cursorAt json i).atEnd || (cursorAt json i).cur != b) = !seesAt json (· == b) i := not_sees (· == b)

theorem not_sees_ne (b : UInt8) :
    ((cursorAt json i).atEnd || (cursorAt json i).cur == b) = !seesAt json (· != b) i := by
  simp [seesAt, bne]

theorem run_substr {start n : Nat} (h : start ≤ json.length) :
    (substr json start n).run i = .ok ((json.drop start).take n, i) := by
  unfold substr
  simp only [Traced.run_bind, Traced.run_touch, Except.ok_bind, if_neg (show ¬ start > json.length by omega)]
  rfl

theorem agrees_parseString (i : Nat) : Agrees json (parseString json) i (MiniRos2.parseString (cursorAt json i)) := by
  unfold parseString MiniRos2.parseString
  refine .after (run_sees _) (.ite_not (not_sees_eq _) (.after (run_advance 1) ?_) (agrees_syntaxError _))
  rw [next_cursorAt]
  unfold Agrees
  rw [show parseStringFrom (cursorAt json (i + 1)).index [] (cursorAt json (i + 1)).rest = _ from
    run_parseStringLoop (json.length + 1) (i + 1) [] (by omega), Traced.run_bind]
  rcases (parseStringLoop json (json.length + 1) []).run (i + 1) with e | ⟨result, j⟩
  · rfl
  · simp only [Except.ok_bind, Traced.run_bind, run_sees]
    split <;> rfl

theorem agrees_parseSign (i : Nat) :
    Agrees json (parseSign json) i ((MiniRos2.parseSign (cursorAt json i)).map fun c => ((), c)) := by
  unfold parseSign MiniRos2.parseSign
  refine .after run_cur ?_
  rw [cur_cursorAt, next_cursorAt, not_sees]
  by_cases hm : json.getD i 0 = chMinus
  · rw [if_pos hm, if_pos hm]
    refine .after (run_advance 1) (.after (run_sees _) ?_)
    cases seesAt json Decimal.isDigit (i + 1) <;> rfl
  · rw [if_neg hm, if_neg hm]
    rfl

theorem agrees_parseFraction (i : Nat) :
    Agrees json (parseFraction json) i (MiniRos2.parseFraction (cursorAt json i)) := by
  unfold parseFraction MiniRos2.parseFraction
  refine .after (run_sees _) (.ite rfl (.after (run_advance 1) (.after (run_sees _) ?_)) (agrees_pure _))
  obtain ⟨j, hrun, hj⟩ := run_skipDigits json (i + 1)
  rw [next_cursorAt, hj]
  exact .ite_not (not_sees _) (.after hrun (agrees_pure _)) (agrees_syntaxError _)

theorem agrees_parseExponent (i : Nat) :
    Agrees json (parseExponent json) i (MiniRos2.parseExponent (cursorAt json i)) := by
  have hdigits : ∀ k, Agrees json (do
      if ← sees json Decimal.isDigit then
        skipDigits json
        return true
      else syntaxError "invalid exponent") k
      (if (cursorAt json k).atEnd || !Decimal.isDigit (cursorAt json k).cur then
        parseError "invalid exponent" (cursorAt json k).index
      else .ok (true, MiniRos2.skipDigits (cursorAt json k))) := by
    intro k
    obtain ⟨j, hrun, hj⟩ := run_skipDigits json k
    rw [hj]
    exact .after (run_sees _) (.ite_not (not_sees _) (.after hrun (agrees_pure _)) (agrees_syntaxError _))
  unfold parseExponent MiniRos2.parseExponent
  refine .after (run_sees _) (.ite rfl (.after (run_advance 1) (.after (run_sees _) ?_)) (agrees_pure _))
  simp only [next_cursorAt]
  have hsign : (!(cursorAt json (i + 1)).atEnd && ((cursorAt json (i + 1)).cur == chPlus ||
      (cursorAt json (i + 1)).cur == chMinus)) = seesAt json (fun b => b == chPlus || b == chMinus) (i + 1) := rfl
  rw [hsign]
  cases seesAt json (fun b => b == chPlus || b == chMinus) (i + 1) with
  | true => exact .after (run_advance 1) (hdigits (i + 1 + 1))
  | false => exact hdigits (i + 1)

section Parse

variable {D : Type} [DoubleText D]

theorem agrees_parseNumber (hi : i ≤ json.length) :
    Agrees json (parseNumber json : Scan (JsonValue D)) i (MiniRos2.parseNumber (cursorAt json i)) := by
  unfold parseNumber MiniRos2.parseNumber
  refine .after run_index (.bindIndex (agrees_parseSign i) fun j => ?_)
  obtain ⟨k, hrun, hk⟩ := run_skipDigits json j
  rw [hk]
  refine .after hrun ?_
  refine .bind (agrees_parseFraction k) fun frac l => .bind (agrees_parseExponent l) fun exp m => ?_
  exact .after run_index (.after (run_substr hi) (agrees_liftE _))

omit [DoubleText D] in
theorem agrees_parseWord (i : Nat) (word : String) (v : JsonValue D) (what : String) :
    Agrees json (parseWord json word v what) i (MiniRos2.parseWord (cursorAt json i) word v what) := by
  have hlength : (cursorAt json i).rest.length = json.length - i := List.length_drop
  unfold parseWord MiniRos2.parseWord
  refine .after run_index ?_
  rw [hlength]
  by_cases hlong : i + ((utf8 word).length - 1) ≥ json.length
  · have hshort : json.length - i ≤ (utf8 word).length - 1 := by omega
    rw [if_pos hlong, if_pos (by simp [hshort])]
    exact agrees_syntaxError _
  · have hroom : ¬ json.length - i ≤ (utf8 word).length - 1 := by omega
    rw [if_neg hlong, decide_eq_false hroom, Bool.false_or]
    refine .after run_index (.after (run_substr (by omega)) (.ite rfl (agrees_syntaxError _) ?_))
    rw [advance_cursorAt]
    exact .after (run_advance _) (agrees_pure _)

/-! ### The functions that call one another -/

def ValueAgrees (json : List UInt8) (D : Type) [DoubleText D] (fuel : Nat) : Prop :=
  ∀ i, Agrees json (parseValue json fuel : Scan (JsonValue D)) i (MiniRos2.parseValue fuel (cursorAt json i))

def ArrayAgrees (json : List UInt8) (D : Type) [DoubleText D] (fuel : Nat) : Prop :=
  ∀ i, Agrees json (parseArray json fuel : Scan (JsonValue D)) i (MiniRos2.parseArray fuel (cursorAt json i))

def ElemsAgrees (json : List UInt8) (D : Type) [DoubleText D] (fuel : Nat) : Prop :=
  ∀ i arr, Agrees json (parseElems json fuel arr : Scan (JsonValue D)) i
    (MiniRos2.parseElems fuel arr (cursorAt json i))

def ObjectAgrees (json : List UInt8) (D : Type) [DoubleText D] (fuel : Nat) : Prop :=
  ∀ i, Agrees json (parseObject json fuel : Scan (JsonValue D)) i (MiniRos2.parseObject fuel (cursorAt json i))

def MembersAgrees (json : List UInt8) (D : Type) [DoubleText D] (fuel : Nat) : Prop :=
  ∀ i obj, Agrees json (parseMembers json fuel obj : Scan (JsonValue D)) i
    (MiniRos2.parseMembers fuel obj (cursorAt json i))

variable {fuel : Nat}

theorem array_agrees (helems : ElemsAgrees json D fuel) : ArrayAgrees json D (fuel + 1) := by
  intro i
  rw [parseArray, MiniRos2.parseArray]
  refine .after (run_sees _) (.ite_not (not_sees_eq _) (.after (run_advance 1) ?_) (agrees_syntaxError _))
  obtain ⟨j, hrun, hj⟩ := run_skipWhitespace json (i + 1)
  rw [next_cursorAt, hj]
  exact .after hrun (helems j [])

theorem object_agrees (hmembers : MembersAgrees json D fuel) : ObjectAgrees json D (fuel + 1) := by
  intro i
  rw [parseObject, MiniRos2.parseObject]
  refine .after (run_sees _) (.ite_not (not_sees_eq _) (.after (run_advance 1) ?_) (agrees_syntaxError _))
  obtain ⟨j, hrun, hj⟩ := run_skipWhitespace json (i + 1)
  rw [next_cursorAt, hj]
  exact .after hrun (hmembers j [])

theorem elems_agrees (hvalue : ValueAgrees json D fuel) (helems : ElemsAgrees json D fuel) :
    ElemsAgrees json D (fuel + 1) := by
  intro i arr
  rw [parseElems, MiniRos2.parseElems]
  refine .after (run_sees _) (.ite rfl (.bind (hvalue i) fun v j => ?_) ?_)
  · obtain ⟨k, hrun, hk⟩ := run_skipWhitespace json j
    obtain ⟨l, hrun', hl⟩ := run_skipWhitespace json (k + 1)
    simp only [hk]
    refine .after hrun (.after (run_sees _) (.ite rfl (.after (run_advance 1) ?_) ?_))
    · rw [next_cursorAt, hl]
      exact .after hrun' (.after (run_sees _) (.ite_not (not_sees_ne _) (helems l _) (agrees_syntaxError _)))
    · exact .after run_cur (.ite (by rw [cur_cursorAt]) (agrees_syntaxError _) (helems k _))
  · refine .after (run_sees _) (.ite_not (not_sees_eq _) (.after (run_advance 1) ?_) (agrees_syntaxError _))
    rw [next_cursorAt]
    exact agrees_pure _

theorem members_agrees (hvalue : ValueAgrees json D fuel) (hmembers : MembersAgrees json D fuel) :
    MembersAgrees json D (fuel + 1) := by
  intro i obj
  rw [parseMembers, MiniRos2.parseMembers]
  refine .after (run_sees _) (.ite rfl (.bind (agrees_parseString i) fun key j => ?_) ?_)
  · obtain ⟨k, hrun, hk⟩ := run_skipWhitespace json j
    obtain ⟨l, hrun', hl⟩ := run_skipWhitespace json (k + 1)
    simp only [hk]
    refine .after hrun (.after (run_sees _) (.ite_not (not_sees_eq _) (.after (run_advance 1) ?_) ?_))
    · rw [next_cursorAt, hl]
      refine .after hrun' (.bind (hvalue l) fun v m => ?_)
      obtain ⟨n, hrun, hn⟩ := run_skipWhitespace json m
      obtain ⟨o, hrun', ho⟩ := run_skipWhitespace json (n + 1)
      simp only [hn]
      refine .after hrun (.after (run_sees _) (.ite rfl (.after (run_advance 1) ?_) ?_))
      · rw [next_cursorAt, ho]
        exact .after hrun' (.after (run_sees _) (.ite_not (not_sees_ne _) (hmembers o _) (agrees_syntaxError _)))
      · exact .after run_cur (.ite (by rw [cur_cursorAt]) (agrees_syntaxError _) (hmembers n _))
    · exact .after run_index rfl
  · refine .after (run_sees _) (.ite_not (not_sees_eq _) (.after (run_advance 1) ?_) (agrees_syntaxError _))
    rw [next_cursorAt]
    exact agrees_pure _

theorem value_agrees (harray : ArrayAgrees json D fuel) (hobject : ObjectAgrees json D fuel) :
    ValueAgrees json D (fuel + 1) := by
  intro i
  rw [parseValue, MiniRos2.parseValue]
  obtain ⟨j, hrun, hj⟩ := run_skipWhitespace json i
  rw [hj]
  refine .after hrun (.after run_atEnd ?_)
  rw [atEnd_cursorAt]
  rcases Nat.lt_or_ge j json.length with hlt | hge
  · rw [decide_eq_false (Nat.not_le.2 hlt), cur_cursorAt]
    refine .after run_cur (.ite_prop (hobject j) (.ite_prop (harray j) (.ite_prop ?_ ?_)))
    · exact .bind (agrees_parseString j) fun s k => agrees_pure _
    refine .ite_prop (agrees_parseWord j _ _ _) (.ite_prop (agrees_parseWord j _ _ _)
      (.ite_prop (agrees_parseWord j _ _ _) ?_))
    exact .ite rfl (agrees_parseNumber hlt.le) (.after run_index rfl)
  · rw [decide_eq_true hge]
    rfl

/-- **The two parsers agree**, with every bound on the depth. -/
theorem all_agree (json : List UInt8) (D : Type) [DoubleText D] : ∀ fuel : Nat,
    ValueAgrees json D fuel ∧ ArrayAgrees json D fuel ∧ ElemsAgrees json D fuel ∧ ObjectAgrees json D fuel ∧
      MembersAgrees json D fuel
  | 0 => ⟨fun _ => rfl, fun _ => rfl, fun _ _ => rfl, fun _ => rfl, fun _ _ => rfl⟩
  | fuel + 1 => by
    obtain ⟨hvalue, harray, helems, hobject, hmembers⟩ := all_agree json D fuel
    exact ⟨value_agrees harray hobject, array_agrees helems, elems_agrees hvalue helems, object_agrees hmembers,
      members_agrees hvalue hmembers⟩

end Parse

end Run

end Indexed
end MiniRos2

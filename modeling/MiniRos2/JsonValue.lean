import MiniRos2.Basic
/-!
# JsonValue — the message type and its text

`JsonValue` is the tagged union of `json.h`; a `JsonObject` is a `std::map`, so its entries are in increasing byte
order of their keys (`Ordered`).  The type of doubles is a parameter: `operator<<` and `std::stod` on it are the
library's (`DoubleText`).
-/
namespace MiniRos2

/-- **What the standard library does with a `double`**: `operator<<` prints it, `std::stod` reads a text or throws. -/
class DoubleText (D : Type) where
  print : D → List UInt8
  stod : List UInt8 → Option D

/-- A double kept as the text it was read from. -/
instance textDouble : DoubleText (List UInt8) := ⟨id, some⟩

abbrev chQuote : UInt8 := 34
abbrev chPlus : UInt8 := 43
abbrev chComma : UInt8 := 44
abbrev chMinus : UInt8 := 45
abbrev chDot : UInt8 := 46
abbrev chColon : UInt8 := 58
abbrev chUpE : UInt8 := 69
abbrev chLBrack : UInt8 := 91
abbrev chBackslash : UInt8 := 92
abbrev chRBrack : UInt8 := 93
abbrev chE : UInt8 := 101
abbrev chF : UInt8 := 102
abbrev chN : UInt8 := 110
abbrev chT : UInt8 := 116
abbrev chLBrace : UInt8 := 123
abbrev chRBrace : UInt8 := 125

inductive JsonValue (D : Type) where
  | null
  | bool (b : Bool)
  | int (n : Int32)
  | double (d : D)
  | string (s : List UInt8)
  | array (xs : List (JsonValue D))
  | object (kvs : List (List UInt8 × JsonValue D))

namespace JsonValue

variable {D : Type}

/-! ## Access, with the exceptions of `json.h` -/

def asBool : JsonValue D → Except Abort Bool
  | .bool b => .ok b
  | _ => .error (.throws (.domainError (utf8 "JsonValue: not a boolean")))

def asInt : JsonValue D → Except Abort Int32
  | .int n => .ok n
  | _ => .error (.throws (.domainError (utf8 "JsonValue: not an integer")))

def asDouble : JsonValue D → Except Abort D
  | .double d => .ok d
  | _ => .error (.throws (.domainError (utf8 "JsonValue: not a double")))

def asString : JsonValue D → Except Abort (List UInt8)
  | .string s => .ok s
  | _ => .error (.throws (.domainError (utf8 "JsonValue: not a string")))

/-- `v[i]` for an array index. -/
def atIndex (v : JsonValue D) (i : Nat) : Except Abort (JsonValue D) :=
  match v with
  | .array xs =>
    match xs[i]? with
    | some x => .ok x
    | none => .error (.throws (.outOfRange (utf8 "JsonValue: array index out of range")))
  | _ => .error (.throws (.domainError (utf8 "JsonValue: [] index not valid for non-array")))

/-- `v[key]` of a value that is not `const`: a null becomes an object, and a key that is not there is inserted with
a null. -/
def atKey (v : JsonValue D) (key : List UInt8) : Except Abort (JsonValue D) :=
  match v with
  | .null => .ok .null
  | .object kvs => .ok ((OrdMap.find? key kvs).getD .null)
  | _ => .error (.throws (.domainError (utf8 "JsonValue: [] key not valid for non-object")))

/-! ## serialize -/

/-- One byte of `escapeString`. -/
def escapeByte (c : UInt8) : List UInt8 :=
  if c = chQuote then [chBackslash, chQuote]
  else if c = chBackslash then [chBackslash, chBackslash]
  else if c = 8 then [chBackslash, 98]
  else if c = 12 then [chBackslash, chF]
  else if c = 10 then [chBackslash, chN]
  else if c = 13 then [chBackslash, 114]
  else if c = 9 then [chBackslash, chT]
  else [c]

def escapeString (str : List UInt8) : List UInt8 := str.flatMap escapeByte

section Serialize

variable [DoubleText D]

mutual

def serialize : JsonValue D → List UInt8
  | .null => utf8 "null"
  | .bool b => if b then utf8 "true" else utf8 "false"
  | .int n => printInt n.toInt
  | .double d => DoubleText.print d
  | .string s => chQuote :: (escapeString s ++ [chQuote])
  | .array xs => chLBrack :: (serializeElems 0 xs ++ [chRBrack])
  | .object kvs => chLBrace :: (serializeMembers 0 kvs ++ [chRBrace])

/-- The loop over the array from index `i` on. -/
def serializeElems (i : Nat) : List (JsonValue D) → List UInt8
  | [] => []
  | v :: vs => (if 0 < i then [chComma] else []) ++ (serialize v ++ serializeElems (i + 1) vs)

/-- The loop over the map from its `i`-th entry on. -/
def serializeMembers (i : Nat) : List (List UInt8 × JsonValue D) → List UInt8
  | [] => []
  | (k, v) :: kvs =>
    (if 0 < i then [chComma] else []) ++
      (chQuote :: (escapeString k ++ (chQuote :: chColon :: (serialize v ++ serializeMembers (i + 1) kvs))))

end

end Serialize

/-! ## Predicates on every node -/

mutual

/-- `P` holds of the value and of every value in it. -/
def All (P : JsonValue D → Prop) : JsonValue D → Prop
  | .array xs => P (.array xs) ∧ AllElems P xs
  | .object kvs => P (.object kvs) ∧ AllMembers P kvs
  | v => P v

def AllElems (P : JsonValue D → Prop) : List (JsonValue D) → Prop
  | [] => True
  | v :: vs => All P v ∧ AllElems P vs

def AllMembers (P : JsonValue D → Prop) : List (List UInt8 × JsonValue D) → Prop
  | [] => True
  | (_, v) :: kvs => All P v ∧ AllMembers P kvs

end

theorem allElems_iff {P : JsonValue D → Prop} : ∀ {xs : List (JsonValue D)}, AllElems P xs ↔ ∀ v ∈ xs, All P v
  | [] => by simp [AllElems]
  | v :: vs => by rw [AllElems, allElems_iff, List.forall_mem_cons]

theorem allMembers_iff {P : JsonValue D → Prop} : ∀ {kvs : List (List UInt8 × JsonValue D)},
    AllMembers P kvs ↔ ∀ p ∈ kvs, All P p.2
  | [] => by simp [AllMembers]
  | (k, v) :: kvs => by rw [AllMembers, allMembers_iff, List.forall_mem_cons]

mutual

theorem All.imp {P Q : JsonValue D → Prop} (h : ∀ w, P w → Q w) : ∀ v : JsonValue D, All P v → All Q v
  | .null, hv => h _ hv
  | .bool _, hv => h _ hv
  | .int _, hv => h _ hv
  | .double _, hv => h _ hv
  | .string _, hv => h _ hv
  | .array xs, hv => ⟨h _ hv.1, AllElems.imp h xs hv.2⟩
  | .object kvs, hv => ⟨h _ hv.1, AllMembers.imp h kvs hv.2⟩

theorem AllElems.imp {P Q : JsonValue D → Prop} (h : ∀ w, P w → Q w) : ∀ xs : List (JsonValue D),
    AllElems P xs → AllElems Q xs
  | [], _ => trivial
  | v :: vs, hv => ⟨All.imp h v hv.1, AllElems.imp h vs hv.2⟩

theorem AllMembers.imp {P Q : JsonValue D → Prop} (h : ∀ w, P w → Q w) : ∀ kvs : List (List UInt8 × JsonValue D),
    AllMembers P kvs → AllMembers Q kvs
  | [], _ => trivial
  | (_, v) :: kvs, hv => ⟨All.imp h v hv.1, AllMembers.imp h kvs hv.2⟩

end

mutual

theorem all_of_forall {P : JsonValue D → Prop} (h : ∀ w, P w) : ∀ v : JsonValue D, All P v
  | .null => h _
  | .bool _ => h _
  | .int _ => h _
  | .double _ => h _
  | .string _ => h _
  | .array xs => ⟨h _, allElems_of_forall h xs⟩
  | .object kvs => ⟨h _, allMembers_of_forall h kvs⟩

theorem allElems_of_forall {P : JsonValue D → Prop} (h : ∀ w, P w) (xs : List (JsonValue D)) : AllElems P xs := by
  cases xs with
  | nil => exact trivial
  | cons v vs => exact ⟨all_of_forall h v, allElems_of_forall h vs⟩

theorem allMembers_of_forall {P : JsonValue D → Prop} (h : ∀ w, P w) (kvs : List (List UInt8 × JsonValue D)) :
    AllMembers P kvs := by
  cases kvs with
  | nil => exact trivial
  | cons p kvs => exact ⟨all_of_forall h p.2, allMembers_of_forall h kvs⟩

end

mutual

theorem All.and {P Q : JsonValue D → Prop} : ∀ {v : JsonValue D}, All P v → All Q v → All (fun w => P w ∧ Q w) v
  | .null, hp, hq => ⟨hp, hq⟩
  | .bool _, hp, hq => ⟨hp, hq⟩
  | .int _, hp, hq => ⟨hp, hq⟩
  | .double _, hp, hq => ⟨hp, hq⟩
  | .string _, hp, hq => ⟨hp, hq⟩
  | .array _, hp, hq => ⟨⟨hp.1, hq.1⟩, AllElems.and hp.2 hq.2⟩
  | .object _, hp, hq => ⟨⟨hp.1, hq.1⟩, AllMembers.and hp.2 hq.2⟩

theorem AllElems.and {P Q : JsonValue D → Prop} : ∀ {xs : List (JsonValue D)}, AllElems P xs → AllElems Q xs →
    AllElems (fun w => P w ∧ Q w) xs
  | [], _, _ => trivial
  | _ :: _, hp, hq => ⟨All.and hp.1 hq.1, AllElems.and hp.2 hq.2⟩

theorem AllMembers.and {P Q : JsonValue D → Prop} : ∀ {kvs : List (List UInt8 × JsonValue D)}, AllMembers P kvs →
    AllMembers Q kvs → AllMembers (fun w => P w ∧ Q w) kvs
  | [], _, _ => trivial
  | (_, _) :: _, hp, hq => ⟨All.and hp.1 hq.1, AllMembers.and hp.2 hq.2⟩

end

theorem all_ofList {P : JsonValue D → Prop} {l : List (List UInt8 × JsonValue D)}
    (h : P (.object (OrdMap.ofList l))) (hl : ∀ p ∈ l, All P p.2) : All P (.object (OrdMap.ofList l)) :=
  ⟨h, allMembers_iff.2 (fun p hp => hl p (OrdMap.mem_ofList hp))⟩

/-- No node is a double. -/
def DoubleFree (v : JsonValue D) : Prop := v.All (fun w => ∀ d, w ≠ .double d)

/-- Every object is a `std::map`: its keys are in increasing byte order. -/
def Ordered (v : JsonValue D) : Prop := v.All (fun w => ∀ kvs, w = .object kvs → OrdMap.Sorted kvs)

/-- `P` holds of the node's text and of its keys. -/
def OnStrings (P : List UInt8 → Prop) (w : JsonValue D) : Prop :=
  (∀ s, w = .string s → P s) ∧ ∀ kvs, w = .object kvs → ∀ p ∈ kvs, P p.1

theorem onStrings_of_ne {P : List UInt8 → Prop} {w : JsonValue D} (hs : ∀ s, w ≠ .string s)
    (ho : ∀ kvs, w ≠ .object kvs) : OnStrings P w :=
  ⟨fun s he => absurd he (hs s), fun kvs he => absurd he (ho kvs)⟩

theorem onStrings_string {P : List UInt8 → Prop} {s : List UInt8} (h : P s) : OnStrings P (.string s : JsonValue D) :=
  ⟨fun _ he => JsonValue.string.inj he ▸ h, fun _ he => nomatch he⟩

theorem onStrings_object {P : List UInt8 → Prop} {kvs : List (List UInt8 × JsonValue D)} (h : ∀ p ∈ kvs, P p.1) :
    OnStrings P (.object kvs) :=
  ⟨fun _ he => (nomatch he), fun _ he => JsonValue.object.inj he ▸ h⟩

/-- `P` holds of every string and of every key in the value. -/
def Strings (P : List UInt8 → Prop) (v : JsonValue D) : Prop := v.All (OnStrings P)

theorem Strings.imp₂ {P Q R : List UInt8 → Prop} (h : ∀ s, P s → Q s → R s) {v : JsonValue D} (hp : v.Strings P)
    (hq : v.Strings Q) : v.Strings R :=
  All.imp (fun _ hw => ⟨fun s hs => h s (hw.1.1 s hs) (hw.2.1 s hs),
    fun kvs hk p hp => h p.1 (hw.1.2 kvs hk p hp) (hw.2.2 kvs hk p hp)⟩) v (hp.and hq)

theorem Strings.imp {P Q : List UInt8 → Prop} (h : ∀ s, P s → Q s) {v : JsonValue D} (hp : v.Strings P) :
    v.Strings Q :=
  hp.imp₂ (fun s hs _ => h s hs) hp

theorem strings_of_forall {P : List UInt8 → Prop} (h : ∀ s, P s) (v : JsonValue D) : v.Strings P :=
  all_of_forall (fun _ => ⟨fun s _ => h s, fun _ _ p _ => h p.1⟩) v

/-- No string and no key has the byte 8. -/
def NoBackspace (v : JsonValue D) : Prop := v.Strings (fun s => 8 ∉ s)

/-- The root is a number. -/
def isNumber : JsonValue D → Bool
  | .int _ => true
  | .double _ => true
  | _ => false

end JsonValue

/-- **A message**: a value without doubles whose objects are maps. -/
structure Message (D : Type) where
  val : JsonValue D
  doubleFree : val.DoubleFree
  ordered : val.Ordered

end MiniRos2

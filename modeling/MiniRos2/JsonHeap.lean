import MiniRos2.JsonValue
import MiniRos2.Lib.OwnedAt
/-!
# JsonHeap — `JsonValue` as the tagged union of `json.h`

A value is a tag beside a union; for a string, an array and an object the union holds the pointer to a block of the
heap that the value owns.  The variables of a program are the cells of one more block, at address 0, so that a
reference (`JsonValue&`) is the address of a block with the slot of a cell in it: a place of a `std::vector`, a key of
a `std::map`.  Where the source leaves what C++ defines (a pointer to what was deleted, a member of the union that was
not the last one written) the answer is `Fault.undefined`; the depth of the recursions is bounded by `next`, which is
never reached (`run_refines` in `JsonRun`).
-/
namespace MiniRos2
namespace JsonHeap

open Owned

variable {D : Type}

inductive JsonType where
  | null
  | bool
  | int
  | double
  | string
  | array
  | object
  deriving DecidableEq, Repr

/-- `union Data`: the member that was written last.  To read another one is undefined. -/
inductive Data (D : Type) where
  | unset
  | bool_val (b : Bool)
  | int_val (n : Int32)
  | double_val (d : D)
  | str_val (p : Option Nat)
  | arr_val (p : Option Nat)
  | obj_val (p : Option Nat)

structure Cell (D : Type) where
  type_ : JsonType
  data_ : Data D

/-- Where a cell is in its block: at an index of a vector or under a key of a map. -/
inductive Slot where
  | index (i : Nat)
  | key (k : List UInt8)
  deriving DecidableEq

namespace Slot

/-- The order of the entries of a block. -/
protected def lt : Slot → Slot → Prop
  | .index i, .index j => i < j
  | .index _, .key _ => True
  | .key _, .index _ => False
  | .key a, .key b => a < b

instance : LT Slot := ⟨Slot.lt⟩

instance : DecidableLT Slot := fun
  | .index i, .index j => inferInstanceAs (Decidable (i < j))
  | .index _, .key _ => .isTrue trivial
  | .key _, .index _ => .isFalse id
  | .key a, .key b => inferInstanceAs (Decidable (a < b))

theorem irrefl : Std.Irrefl (fun a b : Slot => a < b) := ⟨fun a => by
  cases a with
  | index i => exact Nat.lt_irrefl i
  | key k => exact List.lt_irrefl k⟩

/-- The key of a member; a vector has none. -/
def name : Slot → List UInt8
  | .index _ => []
  | .key k => k

end Slot

/-- A `JsonArray` or a `JsonObject`. -/
inductive Kind where
  | arr
  | obj
  deriving DecidableEq, Repr

abbrev Memory (D : Type) := Heap (Block (List UInt8) Slot (Cell D) Kind)

/-- `JsonValue&`. -/
abbrev Ref := Nat × Slot

/-! ## Reading a member of the union, and what it points to -/

namespace Data

def boolVal : Data D → Except Fault Bool
  | .bool_val b => .ok b
  | _ => .error .undefined

def intVal : Data D → Except Fault Int32
  | .int_val n => .ok n
  | _ => .error .undefined

def doubleVal : Data D → Except Fault D
  | .double_val d => .ok d
  | _ => .error .undefined

def strVal : Data D → Except Fault (Option Nat)
  | .str_val p => .ok p
  | _ => .error .undefined

def arrVal : Data D → Except Fault (Option Nat)
  | .arr_val p => .ok p
  | _ => .error .undefined

def objVal : Data D → Except Fault (Option Nat)
  | .obj_val p => .ok p
  | _ => .error .undefined

end Data

/-- `*p` for a `std::string*`. -/
def readString (h : Memory D) : Option Nat → Except Fault (List UInt8)
  | none => .error .undefined
  | some a => do
    match ← h.read a with
    | .atom s => .ok s
    | .node _ _ => .error .undefined

/-- `*p` for a `JsonArray*` or a `JsonObject*`. -/
def readNode (h : Memory D) (l : Kind) : Option Nat → Except Fault (List (Slot × Cell D))
  | none => .error .undefined
  | some a => do
    match ← h.read a with
    | .atom _ => .error .undefined
    | .node l' es => if l' = l then .ok es else .error .undefined

/-! ## destroyData, copyData -/

def destroyData : Nat → Memory D → Cell D → Except Fault (Memory D)
  | 0, _, _ => .error .starved
  | n + 1, h, c =>
    match c.type_ with
    | .string => do
      match ← c.data_.strVal with
      | none => .ok h
      | some a => do
        let _ ← readString h (some a)
        h.free a
    | .array => do
      match ← c.data_.arrVal with
      | none => .ok h
      | some a => do
        let es ← readNode h .arr (some a)
        let h ← es.foldlM (fun h e => destroyData n h e.2) h
        h.free a
    | .object => do
      match ← c.data_.objVal with
      | none => .ok h
      | some a => do
        let es ← readNode h .obj (some a)
        let h ← es.foldlM (fun h e => destroyData n h e.2) h
        h.free a
    | _ => .ok h

/-- `this->copyData(other)`, with what is in `this` afterwards.  The elements of a vector and of a map are made by the
copy constructor, which is `copyData` after the type was taken over. -/
def copyData : Nat → Memory D → Cell D → Cell D → Except Fault (Memory D × Cell D)
  | 0, _, _, _ => .error .starved
  | n + 1, h, this, other =>
    match other.type_ with
    | .null => .ok (h, this)
    | .bool => do
      let b ← other.data_.boolVal
      .ok (h, { this with data_ := .bool_val b })
    | .int => do
      let i ← other.data_.intVal
      .ok (h, { this with data_ := .int_val i })
    | .double => do
      let d ← other.data_.doubleVal
      .ok (h, { this with data_ := .double_val d })
    | .string => do
      let s ← readString h (← other.data_.strVal)
      .ok (h.alloc (.atom s), { this with data_ := .str_val (some h.next) })
    | .array => do
      let es ← readNode h .arr (← other.data_.arrVal)
      let (h, es) ← copyEntries (fun h c => copyData n h ⟨c.type_, .unset⟩ c) h es
      .ok (h.alloc (.node .arr es), { this with data_ := .arr_val (some h.next) })
    | .object => do
      let es ← readNode h .obj (← other.data_.objVal)
      let (h, es) ← copyEntries (fun h c => copyData n h ⟨c.type_, .unset⟩ c) h es
      .ok (h.alloc (.node .obj es), { this with data_ := .obj_val (some h.next) })

/-! ## Assignment -/

def getRef (h : Memory D) (r : Ref) : Except Fault (Cell D) := cellAt h r.1 r.2

def setRef (h : Memory D) (r : Ref) (c : Cell D) : Except Fault (Memory D) := setCell h r.1 r.2 c

/-- What every assignment begins with: `destroyData()`, then the type is set.  The union is as it was. -/
def retype (h : Memory D) (this : Ref) (t : Memory D → Except Fault JsonType) : Except Fault (Memory D × Cell D) := do
  let c ← getRef h this
  let h ← destroyData (h.next + 1) h c
  let c := { c with type_ := ← t h }
  .ok (← setRef h this c, c)

/-- `operator=(const JsonValue& other)`. -/
def assignCopy (h : Memory D) (this other : Ref) : Except Fault (Memory D) :=
  if this = other then .ok h
  else do
    let (h, c) ← retype h this (fun h => do .ok (← getRef h other).type_)
    let o ← getRef h other
    let (h, c) ← copyData (h.next + 1) h c o
    setRef h this c

/-- The pointer goes from `other` to `this`: the unions of both afterwards. -/
def transfer (t : JsonType) (other : Data D) : Except Fault (Data D × Data D) :=
  match t with
  | .string => do .ok (.str_val (← other.strVal), .str_val none)
  | .array => do .ok (.arr_val (← other.arrVal), .arr_val none)
  | .object => do .ok (.obj_val (← other.objVal), .obj_val none)
  | _ => .ok (other, other)

/-- `operator=(JsonValue&& other)`. -/
def assignMove (h : Memory D) (this other : Ref) : Except Fault (Memory D) :=
  if this = other then .ok h
  else do
    let (h, c) ← retype h this (fun h => do .ok (← getRef h other).type_)
    let (d, d') ← transfer c.type_ (← getRef h other).data_
    let h ← setRef h this { c with data_ := d }
    setRef h other ⟨.null, d'⟩

/-- `operator=(JsonValue&& other)` from a temporary, which is a null value when it is destroyed. -/
def assignTemporary (h : Memory D) (this : Ref) (other : Cell D) : Except Fault (Memory D) := do
  let (h, c) ← retype h this (fun _ => .ok other.type_)
  let (d, _) ← transfer c.type_ other.data_
  setRef h this { c with data_ := d }

/-- `operator=(const std::string&)`, `operator=(const JsonArray&)` and `operator=(const JsonObject&)`: `new` with the
argument, a string, an array or an object at the address `a`. -/
def assignBlock (h : Memory D) (this : Ref) (t : JsonType) (d : Data D) : Except Fault (Memory D) := do
  let (h, c) ← retype h this (fun _ => .ok t)
  let (h, c) ← copyData (h.next + 1) h c ⟨t, d⟩
  setRef h this c

/-- The literals that are assigned without a temporary `JsonValue`. -/
inductive Literal (D : Type) where
  | bool (b : Bool)
  | int (n : Int32)
  | double (d : D)
  | string (s : List UInt8)

/-- `operator=(bool)`, `operator=(int)`, `operator=(double)` and `operator=(const char*)`. -/
def assignLiteral (h : Memory D) (this : Ref) (x : Literal D) : Except Fault (Memory D) :=
  match x with
  | .bool b => do
    let (h, c) ← retype h this (fun _ => .ok .bool)
    setRef h this { c with data_ := .bool_val b }
  | .int n => do
    let (h, c) ← retype h this (fun _ => .ok .int)
    setRef h this { c with data_ := .int_val n }
  | .double d => do
    let (h, c) ← retype h this (fun _ => .ok .double)
    setRef h this { c with data_ := .double_val d }
  | .string s => do
    let (h, c) ← retype h this (fun _ => .ok .string)
    setRef (h.alloc (.atom s)) this { c with data_ := .str_val (some h.next) }

/-! ## Access -/

/-- `operator[](size_t)`. -/
def atIndex (h : Memory D) (this : Ref) (i : Nat) : Except Fault (Except Exn Ref) := do
  let c ← getRef h this
  if c.type_ ≠ .array then .ok (.error (.domainError (utf8 "JsonValue: [] index not valid for non-array")))
  else do
    match ← c.data_.arrVal with
    | none => .error .undefined
    | some a => do
      let es ← readNode h .arr (some a)
      if es.length ≤ i then .ok (.error (.outOfRange (utf8 "JsonValue: array index out of range")))
      else .ok (.ok (a, .index i))

/-- `(*data_.obj_val)[key]`: a key that is not there gets a null. -/
def member (h : Memory D) (c : Cell D) (k : List UInt8) : Except Fault (Memory D × Ref) := do
  match ← c.data_.objVal with
  | none => .error .undefined
  | some a => do
    let es ← readNode h .obj (some a)
    match OrdMap.find? (.key k) es with
    | some _ => .ok (h, (a, .key k))
    | none => do
      let h ← h.write a (.node .obj (OrdMap.insert (.key k) ⟨.null, .unset⟩ es))
      .ok (h, (a, .key k))

/-- `operator[](const std::string&)`: a null becomes an object. -/
def atKey (h : Memory D) (this : Ref) (k : List UInt8) : Except Fault (Memory D × Except Exn Ref) := do
  let c ← getRef h this
  if c.type_ = .null then do
    let c : Cell D := ⟨.object, .obj_val (some h.next)⟩
    let h ← setRef (h.alloc (.node .obj [])) this c
    let (h, r) ← member h c k
    .ok (h, .ok r)
  else if c.type_ ≠ .object then
    .ok (h, .error (.domainError (utf8 "JsonValue: [] key not valid for non-object")))
  else do
    let (h, r) ← member h c k
    .ok (h, .ok r)

/-- `push_back`: the element is made before the vector changes. -/
def pushBack (h : Memory D) (this value : Ref) : Except Fault (Memory D × Except Exn Unit) := do
  let c ← getRef h this
  if c.type_ ≠ .array then .ok (h, .error (.domainError (utf8 "JsonValue: cannot push_back to non-array")))
  else do
    match ← c.data_.arrVal with
    | none => .error .undefined
    | some a => do
      let o ← getRef h value
      let (h, x) ← copyData (h.next + 1) h ⟨o.type_, .unset⟩ o
      let es ← readNode h .arr (some a)
      let h ← h.write a (.node .arr (es ++ [(.index es.length, x)]))
      .ok (h, .ok ())

end JsonHeap
end MiniRos2

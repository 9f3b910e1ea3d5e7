import MiniRos2.SharedMemory
/-!
# ShmBase — the objects a process reaches shared memory through

A `SharedMemory` knows a name and, once it has created or opened it, the object it has mapped; a creator is the owner
and takes the name away when it is destroyed.  Only owners unlink, and a creation fails while the name is there.
`ShmBase` adds the head: an access needs the pointers that `Open` sets.
-/
namespace MiniRos2

/-- The name space of one machine. -/
abbrev ShmSpace := Posix.Space (List UInt8) Region

/-- `data_` is the object that is mapped. -/
structure SharedMemory where
  name_ : List UInt8
  size_ : Nat
  data_ : Option Nat
  is_owner_ : Bool

namespace SharedMemory

/-- The constructor for a creator. -/
def ofSize (name : List UInt8) (size : Nat) : Except Abort SharedMemory :=
  if name.head? ≠ some 47 ∨ size = 0 ∨ size > 10 * 1024 * 1024 then
    .error (.throws (.invalidArgument (utf8 "Invalid name or size for SharedMemory")))
  else .ok ⟨name, size, none, false⟩

/-- The constructor for a name that exists: the size is the object's. -/
def ofName (sp : ShmSpace) (name : List UInt8) : Except Abort SharedMemory :=
  if name.head? ≠ some 47 then .error (.throws (.invalidArgument (utf8 "Not exist")))
  else
    match sp.lookup name with
    | none => .error (.throws (.invalidArgument (utf8 "Not exist")))
    | some id => .ok ⟨name, (sp.obj id).size, none, false⟩

def exists_ (m : SharedMemory) (sp : ShmSpace) : Bool := (sp.lookup m.name_).isSome

def create (m : SharedMemory) (sp : ShmSpace) : Bool × SharedMemory × ShmSpace :=
  if m.is_owner_ then (true, m, sp)
  else
    match sp.create m.name_ (Region.fresh m.size_) with
    | none => (false, m, sp)
    | some (id, sp') => (true, { m with data_ := some id, is_owner_ := true }, sp')

def open_ (m : SharedMemory) (sp : ShmSpace) : Bool × SharedMemory :=
  if m.is_owner_ then (true, m)
  else
    match sp.lookup m.name_ with
    | none => (false, m)
    | some id => (true, { m with data_ := some id })

def close (m : SharedMemory) : SharedMemory := { m with data_ := none }

def unlink (m : SharedMemory) (sp : ShmSpace) : ShmSpace := if m.is_owner_ then sp.unlink m.name_ else sp

/-- `~SharedMemory`. -/
def destroy (m : SharedMemory) (sp : ShmSpace) : ShmSpace := m.close.unlink sp

theorem create_of_lookup_none {m : SharedMemory} {sp : ShmSpace} (ho : m.is_owner_ = false)
    (h : sp.lookup m.name_ = none) :
    ∃ sp', sp.create m.name_ (Region.fresh m.size_) = some (sp.next, sp') ∧
      m.create sp = (true, { m with data_ := some sp.next, is_owner_ := true }, sp') := by
  obtain ⟨sp', hsp⟩ := sp.create_of_lookup_none (Region.fresh m.size_) h
  refine ⟨sp', hsp, ?_⟩
  unfold create
  rw [ho, hsp]
  rfl

theorem open_of_lookup {m : SharedMemory} {sp : ShmSpace} {id : Nat} (ho : m.is_owner_ = false)
    (h : sp.lookup m.name_ = some id) : m.open_ sp = (true, { m with data_ := some id }) := by
  unfold open_
  rw [ho, h]
  rfl

end SharedMemory

/-- `mutex_ptr_` stands for the pointers into the head. -/
structure ShmBase where
  shm_ : SharedMemory
  mutex_ptr_ : Bool

namespace ShmBase

def ofSize (name : List UInt8) (size : Nat) : Except Abort ShmBase := do
  let shm_ ← SharedMemory.ofSize name (sizeofShmHead + size)
  return ⟨shm_, false⟩

def ofName (sp : ShmSpace) (name : List UInt8) : Except Abort ShmBase := do
  let shm_ ← SharedMemory.ofName sp name
  return ⟨shm_, false⟩

def exists_ (b : ShmBase) (sp : ShmSpace) : Bool := b.shm_.exists_ sp

def create (b : ShmBase) (sp : ShmSpace) : Except Abort (ShmBase × ShmSpace) :=
  match b.shm_.create sp with
  | (true, shm_, sp') => .ok ({ b with shm_ := shm_ }, sp')
  | (false, _, _) => .error (.throws (.runtimeError (utf8 "Failed to create shared memory")))

def open_ (b : ShmBase) (sp : ShmSpace) : Except Abort ShmBase :=
  match b.shm_.open_ sp with
  | (true, shm_) => .ok ⟨shm_, true⟩
  | (false, _) => .error (.throws (.runtimeError (utf8 "Failed to open shared memory")))

/-- `data_size_`. -/
def getDataSize (b : ShmBase) : Nat := b.shm_.size_ - sizeofShmHead

/-- The object an access goes to. -/
def mapped (b : ShmBase) : Except Abort Nat :=
  match b.shm_.data_ with
  | none => .error (.throws (.runtimeError (utf8 "Shared memory not initialized")))
  | some id => .ok id

/-- The mapping has the object's size, which is the size the `ShmBase` was made with. -/
def write (b : ShmBase) (data : List UInt8) (offset : Nat) (sp : ShmSpace) : Except Abort ShmSpace := do
  if offset + data.length > b.shm_.size_ then
    .error (.throws (.outOfRange (utf8 "Write exceeds shared memory size")))
  else
    let id ← b.mapped
    if b.mutex_ptr_ then
      let r ← (sp.obj id).write data offset
      return sp.put id r
    else .error (.throws (.runtimeError (utf8 "互斥锁指针未初始化，请先调用 Open()")))

def readUnlocked (b : ShmBase) (size offset : Nat) (sp : ShmSpace) : Except Abort (List UInt8) := do
  if offset + size > b.shm_.size_ then
    .error (.throws (.outOfRange (utf8 "read exceeds shared memory size")))
  else
    let id ← b.mapped
    (sp.obj id).read size offset

/-! ### What a call that returned did -/

theorem ofSize_eq_ok {name : List UInt8} {size : Nat} {b : ShmBase} (h : ofSize name size = .ok b) :
    b = ⟨⟨name, sizeofShmHead + size, none, false⟩, false⟩ := by
  obtain ⟨m, hm, hb⟩ := Except.bind_eq_ok h
  cases hb
  unfold SharedMemory.ofSize at hm
  split at hm <;> cases hm
  rfl

theorem create_eq_ok {b b' : ShmBase} {sp sp' : ShmSpace} (ho : b.shm_.is_owner_ = false)
    (h : b.create sp = .ok (b', sp')) :
    sp.create b.shm_.name_ (Region.fresh b.shm_.size_) = some (sp.next, sp') ∧
      b' = { b with shm_ := { b.shm_ with data_ := some sp.next, is_owner_ := true } } := by
  cases hl : sp.lookup b.shm_.name_ with
  | none =>
    obtain ⟨sp₁, hsp, hm⟩ := SharedMemory.create_of_lookup_none ho hl
    unfold create at h
    rw [hm] at h
    cases h
    exact ⟨hsp, rfl⟩
  | some id =>
    have hc : sp.create b.shm_.name_ (Region.fresh b.shm_.size_) = none := by
      unfold Posix.Space.create
      rw [show sp.names b.shm_.name_ = some id from hl]
    unfold create SharedMemory.create at h
    rw [ho, hc] at h
    cases h

/-- The creator has the object mapped already. -/
theorem open_of_owner {b : ShmBase} (sp : ShmSpace) (ho : b.shm_.is_owner_ = true) :
    b.open_ sp = .ok ⟨b.shm_, true⟩ := by
  unfold open_ SharedMemory.open_
  rw [ho]
  rfl

theorem ofName_of_lookup {sp : ShmSpace} {name : List UInt8} {id : Nat} {b : ShmBase}
    (hl : sp.lookup name = some id) (h : ofName sp name = .ok b) :
    b = ⟨⟨name, (sp.obj id).size, none, false⟩, false⟩ := by
  obtain ⟨m, hm, hb⟩ := Except.bind_eq_ok h
  cases hb
  unfold SharedMemory.ofName at hm
  rw [hl] at hm
  split at hm <;> cases hm
  rfl

theorem lookup_of_ofName {sp : ShmSpace} {name : List UInt8} {b : ShmBase} (h : ofName sp name = .ok b) :
    ∃ id, sp.lookup name = some id := by
  obtain ⟨m, hm, -⟩ := Except.bind_eq_ok h
  unfold SharedMemory.ofName at hm
  cases hl : sp.lookup name with
  | none =>
    rw [hl] at hm
    split at hm <;> cases hm
  | some id => exact ⟨id, rfl⟩

theorem open_of_lookup {b : ShmBase} {sp : ShmSpace} {id : Nat} (ho : b.shm_.is_owner_ = false)
    (hl : sp.lookup b.shm_.name_ = some id) : b.open_ sp = .ok ⟨{ b.shm_ with data_ := some id }, true⟩ := by
  unfold open_
  rw [SharedMemory.open_of_lookup ho hl]

theorem write_eq_ok {b : ShmBase} {data : List UInt8} {offset : Nat} {sp sp' : ShmSpace}
    (h : b.write data offset sp = .ok sp') :
    ∃ id r, b.shm_.data_ = some id ∧ (sp.obj id).write data offset = .ok r ∧ sp' = sp.put id r := by
  unfold write at h
  split at h
  · cases h
  obtain ⟨id, hid, h⟩ := Except.bind_eq_ok h
  split at h
  · obtain ⟨r, hr, h⟩ := Except.bind_eq_ok h
    cases h
    refine ⟨id, r, ?_, hr, rfl⟩
    unfold mapped at hid
    split at hid <;> cases hid
    assumption
  · cases h

theorem readUnlocked_of_le {b : ShmBase} {size offset id : Nat} {sp : ShmSpace} (hd : b.shm_.data_ = some id)
    (hs : (sp.obj id).size = b.shm_.size_) (hle : offset + size ≤ b.shm_.size_) :
    b.readUnlocked size offset sp = .ok (ByteMem.read (sp.obj id).mem offset size) := by
  unfold readUnlocked mapped
  rw [if_neg (by omega), hd]
  exact Region.read_of_le (by omega)

end ShmBase

end MiniRos2

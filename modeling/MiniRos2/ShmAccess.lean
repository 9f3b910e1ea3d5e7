import MiniRos2.ShmBase
/-!
# ShmAccess — the bounds of an access, in `size_t`

The other modules count sizes in `Nat`.  Here a `ShmBase` has them as the `size_t` of the source, whose sums and
differences wrap, and an access goes to the addresses of the process.  The check compares `offset + size`, modulo 2^64,
with the size of the whole region, while `data_ptr_` stands behind the head: an access stays in the data area exactly
when its end is neither one of the 104 ends behind the data area nor one that wraps (`stays_iff`).
-/
namespace MiniRos2
namespace SizeT

/-! ## The address space -/

abbrev Memory := UInt64 → UInt8

/-- `memcpy` of `size` bytes to `dst`. -/
def Memory.store (m : Memory) (dst size : UInt64) (data : Nat → UInt8) : Memory := fun i =>
  if i - dst < size then data (i - dst).toNat else m i

/-- The `size` bytes from `src` on. -/
def Memory.load (m : Memory) (src size : UInt64) : List UInt8 :=
  (List.range size.toNat).map (fun i => m (src + UInt64.ofNat i))

/-- The bytes of a `uint64_t`. -/
def bytesOf (n : UInt64) (i : Nat) : UInt8 := (n >>> UInt64.ofNat (8 * i)).toUInt8

/-- What a call does to the memory. -/
abbrev Call (α : Type) := EStateM Abort Memory α

/-- A test, which leaves the memory alone. -/
def lift {α : Type} (x : Except Abort α) : Call α := fun m =>
  match x with
  | .ok a => .ok a m
  | .error e => .error e m

/-! ## `ShmBase` -/

structure SharedMemory where
  name_ : List UInt8
  size_ : UInt64
  data_ : Option UInt64

structure ShmBase where
  name_ : List UInt8
  offset_ : UInt64
  data_size_ : UInt64
  total_size_ : UInt64
  shm_ : SharedMemory
  mutex_ptr_ : Option UInt64
  time_ptr_ : Option UInt64
  data_ptr_ : Option UInt64

def SharedMemory.ofSize (name : List UInt8) (size : UInt64) : Except Abort SharedMemory :=
  if name.head? ≠ some 47 ∨ size = 0 ∨ size > 10 * 1024 * 1024 then
    .error (.throws (.invalidArgument (utf8 "Invalid name or size for SharedMemory")))
  else .ok ⟨name, size, none⟩

/-- The constructor for a name, where `st_size` is the size of its object. -/
def SharedMemory.ofName (name : List UInt8) (st_size : Option UInt64) : Except Abort SharedMemory :=
  if name.head? ≠ some 47 then .error (.throws (.invalidArgument (utf8 "Not exist")))
  else
    match st_size with
    | none => .error (.throws (.invalidArgument (utf8 "Not exist")))
    | some size => .ok ⟨name, size, none⟩

namespace ShmBase

def ofSize (name : List UInt8) (size : UInt64) : Except Abort ShmBase := do
  let offset_ : UInt64 := 104
  let data_size_ := size
  let total_size_ := offset_ + data_size_
  let shm_ ← SharedMemory.ofSize name total_size_
  return ⟨name, offset_, data_size_, total_size_, shm_, none, none, none⟩

def ofName (name : List UInt8) (st_size : Option UInt64) : Except Abort ShmBase := do
  let shm_ ← SharedMemory.ofName name st_size
  let total_size_ := shm_.size_
  let offset_ : UInt64 := 104
  return ⟨name, offset_, total_size_ - offset_, total_size_, shm_, none, none, none⟩

/-- `Open`, where the object is mapped at `head`: the pointers into the head and behind it are set. -/
def open_ (b : ShmBase) (head : UInt64) : ShmBase :=
  { b with
    shm_ := { b.shm_ with data_ := some head }
    mutex_ptr_ := some (head + 8)
    time_ptr_ := some (head + 96)
    data_ptr_ := some (head + 104) }

/-- The checks that all accesses begin with. -/
def check (b : ShmBase) (what : String) (size offset : UInt64) : Except Abort Unit :=
  if offset + size > b.shm_.size_ then .error (.throws (.outOfRange (utf8 what)))
  else if b.shm_.data_ = none then .error (.throws (.runtimeError (utf8 "Shared memory not initialized")))
  else .ok ()

/-- The further check of those that lock the mutex of the head; an initialised mutex locks and unlocks without an
error. -/
def checkMutex (b : ShmBase) : Except Abort Unit :=
  if b.mutex_ptr_ = none then .error (.throws (.runtimeError (utf8 "互斥锁指针未初始化，请先调用 Open()")))
  else .ok ()

/-- A pointer that is used must be set. -/
def pointer (p : Option UInt64) : Except Abort UInt64 :=
  match p with
  | none => .error .undefined
  | some a => .ok a

/-- The `try` of the writes: the bytes, and the time stamp. -/
def put (b : ShmBase) (now : UInt64) (data : Nat → UInt8) (size offset : UInt64) : Call Unit := do
  let data_ptr_ ← lift (pointer b.data_ptr_)
  let time_ptr_ ← lift (pointer b.time_ptr_)
  modify (fun m => (m.store (data_ptr_ + offset) size data).store time_ptr_ 8 (bytesOf now))

/-- The `try` of the reads. -/
def get (b : ShmBase) (size offset : UInt64) : Call (List UInt8) := do
  let data_ptr_ ← lift (pointer b.data_ptr_)
  let m ← EStateM.get
  return m.load (data_ptr_ + offset) size

def write (b : ShmBase) (now : UInt64) (data : Nat → UInt8) (size offset : UInt64) : Call Unit := do
  lift (b.check "Write exceeds shared memory size" size offset)
  lift b.checkMutex
  b.put now data size offset

def writeUnlocked (b : ShmBase) (now : UInt64) (data : Nat → UInt8) (size offset : UInt64) : Call Unit := do
  lift (b.check "Write exceeds shared memory size" size offset)
  b.put now data size offset

def readUnlocked (b : ShmBase) (size offset : UInt64) : Call (List UInt8) := do
  lift (b.check "read exceeds shared memory size" size offset)
  b.get size offset

def read (b : ShmBase) (size offset : UInt64) : Call (List UInt8) := do
  lift (b.check "read exceeds shared memory size" size offset)
  lift b.checkMutex
  b.get size offset

end ShmBase

/-! ## Accesses -/

/-- The four calls, with the bytes that go in and the time of a write. -/
inductive Access where
  | write (now : UInt64) (data : Nat → UInt8)
  | writeUnlocked (now : UInt64) (data : Nat → UInt8)
  | read
  | readUnlocked

/-- The call, and the bytes that come out. -/
def Access.call (b : ShmBase) (size offset : UInt64) : Access → Call (List UInt8)
  | .write now data => do
    b.write now data size offset
    return []
  | .writeUnlocked now data => do
    b.writeUnlocked now data size offset
    return []
  | .read => b.read size offset
  | .readUnlocked => b.readUnlocked size offset

def Access.Writes : Access → Prop
  | .write _ _ | .writeUnlocked _ _ => True
  | .read | .readUnlocked => False

/-- The address holds one of the bytes `offset .. offset + size - 1` of the data area of a region mapped at `head`. -/
def InSpan (head size offset i : UInt64) : Prop :=
  offset.toNat ≤ (i - (head + 104)).toNat ∧ (i - (head + 104)).toNat < offset.toNat + size.toNat

/-- The address holds a byte of `time_`. -/
def InStamp (head i : UInt64) : Prop := i - (head + 96) < 8

/-- **An access stays in the data area**: it throws and changes no byte, or ends within the data area, stores its bytes
there (and the time stamp, in the head) and reads no other byte. -/
structure Stays (b : ShmBase) (head size offset : UInt64) (a : Access) (m : Memory) : Prop where
  throws : ∀ e m', a.call b size offset m = .error e m' → (∃ x, e = .throws x) ∧ m' = m
  bounds : ∀ bs m', a.call b size offset m = .ok bs m' → offset.toNat + size.toNat ≤ b.data_size_.toNat
  mapped : ∀ bs m', a.call b size offset m = .ok bs m' → ∀ i, InSpan head size offset i →
    104 ≤ (i - head).toNat ∧ (i - head).toNat < b.total_size_.toNat
  stores : ∀ bs m', a.call b size offset m = .ok bs m' → ∀ i, m' i ≠ m i →
    a.Writes ∧ (InSpan head size offset i ∨ InStamp head i)
  reads : ∀ bs m', a.call b size offset m = .ok bs m' → ∀ m₂ : Memory, (∀ i, InSpan head size offset i → m₂ i = m i) →
    ∃ m₂', a.call b size offset m₂ = .ok bs m₂'

/-- The sizes add up without wrapping. -/
def ShmBase.Exact (b : ShmBase) : Prop := b.offset_.toNat + b.data_size_.toNat = b.total_size_.toNat

/-- The two constructors. -/
inductive Built where
  | ofSize (size : UInt64)
  | ofName (st_size : UInt64)

def Built.make (name : List UInt8) : Built → Except Abort ShmBase
  | .ofSize size => ShmBase.ofSize name size
  | .ofName st_size => ShmBase.ofName name (some st_size)

/-- **The head fits**: the size that is asked for leaves room for it, the region that exists is no smaller. -/
def Built.HeadFits : Built → Prop
  | .ofSize size => sizeofShmHead + size.toNat < 2 ^ 64
  | .ofName st_size => sizeofShmHead ≤ st_size.toNat

/-- **The end of an access** is none of the 104 ends behind the data area, and none of those that wrap to an end in the
region. -/
def EndOk (total : Nat) (stop : Nat) : Prop :=
  ¬ (total < stop + sizeofShmHead ∧ stop ≤ total) ∧ ¬ (2 ^ 64 ≤ stop ∧ stop ≤ 2 ^ 64 + total)

instance (total stop : Nat) : Decidable (EndOk total stop) := inferInstanceAs (Decidable (_ ∧ _))

/-! ## What a call does -/

/-- What a call that passed the check gives and leaves. -/
def Access.result (head size offset : UInt64) (m : Memory) : Access → List UInt8 × Memory
  | .write now data | .writeUnlocked now data =>
    ([], (m.store (head + 104 + offset) size data).store (head + 96) 8 (bytesOf now))
  | .read | .readUnlocked => (m.load (head + 104 + offset) size, m)

theorem check_open (b : ShmBase) (head : UInt64) (what : String) (size offset : UInt64) :
    (b.open_ head).check what size offset =
      if offset + size > b.shm_.size_ then .error (.throws (.outOfRange (utf8 what))) else .ok () := by
  unfold ShmBase.check
  rw [if_neg (show ¬ (b.open_ head).shm_.data_ = none from Option.some_ne_none _)]
  rfl

theorem checkMutex_open (b : ShmBase) (head : UInt64) : (b.open_ head).checkMutex = .ok () :=
  if_neg (show ¬ (b.open_ head).mutex_ptr_ = none from Option.some_ne_none _)

/-- A call that the check rejects. -/
theorem call_of_gt {b : ShmBase} {size offset : UInt64} (h : offset + size > b.shm_.size_) (head : UInt64) (a : Access)
    (m : Memory) : ∃ x, a.call (b.open_ head) size offset m = .error (.throws x) m := by
  have hcheck : ∀ what, (b.open_ head).check what size offset = .error (.throws (.outOfRange (utf8 what))) := by
    intro what
    rw [check_open, if_pos h]
  cases a with
  | write now data => exact ⟨_, by simp only [Access.call, ShmBase.write, hcheck]; rfl⟩
  | writeUnlocked now data => exact ⟨_, by simp only [Access.call, ShmBase.writeUnlocked, hcheck]; rfl⟩
  | read => exact ⟨_, by simp only [Access.call, ShmBase.read, hcheck]; rfl⟩
  | readUnlocked => exact ⟨_, by simp only [Access.call, ShmBase.readUnlocked, hcheck]; rfl⟩

/-- A call that the check lets through. -/
theorem call_of_not_gt {b : ShmBase} {size offset : UInt64} (h : ¬ offset + size > b.shm_.size_) (head : UInt64)
    (a : Access) (m : Memory) : a.call (b.open_ head) size offset m =
      .ok (a.result head size offset m).1 (a.result head size offset m).2 := by
  have hcheck : ∀ what, (b.open_ head).check what size offset = .ok () := by
    intro what
    rw [check_open, if_neg h]
  have hmutex := checkMutex_open b head
  cases a with
  | write now data => simp only [Access.call, ShmBase.write, hcheck, hmutex]; rfl
  | writeUnlocked now data => simp only [Access.call, ShmBase.writeUnlocked, hcheck]; rfl
  | read => simp only [Access.call, ShmBase.read, hcheck, hmutex]; rfl
  | readUnlocked => simp only [Access.call, ShmBase.readUnlocked, hcheck]; rfl

/-! ## Spans -/

/-- The addresses of a `memcpy` that does not wrap. -/
theorem sub_lt_iff_inSpan {head size offset i : UInt64} (h : offset.toNat + size.toNat < 2 ^ 64) :
    i - (head + 104 + offset) < size ↔ InSpan head size offset i := by
  unfold InSpan
  rw [UInt64.lt_iff_toNat_lt]
  have hsub : i - (head + 104 + offset) = i - (head + 104) - offset := by grind
  rw [hsub]
  generalize i - (head + 104) = p
  have hp := p.toNat_lt
  rw [UInt64.toNat_sub]
  have ho := offset.toNat_lt
  omega

/-- A load depends on the bytes of its span. -/
theorem load_congr {head size offset : UInt64} (h : offset.toNat + size.toNat < 2 ^ 64) {m m₂ : Memory}
    (heq : ∀ i, InSpan head size offset i → m₂ i = m i) :
    m₂.load (head + 104 + offset) size = m.load (head + 104 + offset) size := by
  unfold Memory.load
  refine List.map_congr_left fun k hk => heq _ ?_
  have hk := List.mem_range.1 hk
  rw [← sub_lt_iff_inSpan h, UInt64.lt_iff_toNat_lt]
  have hsub : head + 104 + offset + UInt64.ofNat k - (head + 104 + offset) = UInt64.ofNat k := by grind
  rw [hsub, UInt64.toNat_ofNat']
  exact Nat.lt_of_le_of_lt (Nat.mod_le _ _) hk

/-- A store changes the bytes of its span. -/
theorem inSpan_of_store {head size offset i : UInt64} (h : offset.toNat + size.toNat < 2 ^ 64) {m : Memory}
    {data : Nat → UInt8} (hne : m.store (head + 104 + offset) size data i ≠ m i) : InSpan head size offset i := by
  rw [← sub_lt_iff_inSpan h]
  by_contra hout
  exact hne (if_neg hout)

/-- The data area ends where the region does. -/
theorem mapped_of_inSpan {head size offset i : UInt64} {total : Nat} (h : InSpan head size offset i)
    (hend : sizeofShmHead + (offset.toNat + size.toNat) ≤ total) (htotal : total < 2 ^ 64) :
    104 ≤ (i - head).toNat ∧ (i - head).toNat < total := by
  unfold InSpan at h
  unfold sizeofShmHead at hend
  have hsub : i - head = i - (head + 104) + 104 := by grind
  rw [hsub]
  generalize i - (head + 104) = p at h
  have hadd : (p + 104).toNat = (p.toNat + 104) % 2 ^ 64 := UInt64.toNat_add p 104
  omega

/-! ## The bounds -/

theorem Built.make_eq_ok {how : Built} {name : List UInt8} {b : ShmBase} (h : how.make name = .ok b) :
    b.shm_.size_ = b.total_size_ ∧ (b.Exact ↔ how.HeadFits) ∧
      (how.HeadFits → b.total_size_.toNat = sizeofShmHead + b.data_size_.toNat) := by
  cases how with
  | ofSize size =>
    obtain ⟨shm_, hshm, hb⟩ := Except.bind_eq_ok h
    cases hb
    unfold SharedMemory.ofSize at hshm
    split at hshm
    · cases hshm
    · cases hshm
      have hsize := size.toNat_lt
      refine ⟨rfl, ?_, ?_⟩
      · simp only [ShmBase.Exact, Built.HeadFits, sizeofShmHead, UInt64.toNat_add, UInt64.reduceToNat]
        omega
      · simp only [Built.HeadFits, sizeofShmHead, UInt64.toNat_add, UInt64.reduceToNat]
        omega
  | ofName st_size =>
    obtain ⟨shm_, hshm, hb⟩ := Except.bind_eq_ok h
    cases hb
    unfold SharedMemory.ofName at hshm
    split at hshm
    · cases hshm
    · cases hshm
      have hsize := st_size.toNat_lt
      refine ⟨rfl, ?_, ?_⟩
      · simp only [ShmBase.Exact, Built.HeadFits, sizeofShmHead, UInt64.toNat_sub, UInt64.reduceToNat]
        omega
      · simp only [Built.HeadFits, sizeofShmHead, UInt64.toNat_sub, UInt64.reduceToNat]
        omega

/-- The check, in `Nat`. -/
theorem exceeds_iff (size offset total : UInt64) :
    offset + size > total ↔ total.toNat < (offset.toNat + size.toNat) % 2 ^ 64 := by
  rw [gt_iff_lt, UInt64.lt_iff_toNat_lt, UInt64.toNat_add]

theorem stays_of_gt {b : ShmBase} {head size offset : UInt64} (h : offset + size > b.shm_.size_) (a : Access)
    (m : Memory) : Stays (b.open_ head) head size offset a m := by
  obtain ⟨x, hx⟩ := call_of_gt h head a m
  have hno : ∀ {bs m'}, a.call (b.open_ head) size offset m ≠ .ok bs m' := by
    intro bs m' hok
    rw [hx] at hok
    cases hok
  constructor
  · intro e m' he
    rw [hx] at he
    cases he
    exact ⟨⟨x, rfl⟩, rfl⟩
  · exact fun bs m' hok => absurd hok hno
  · exact fun bs m' hok => absurd hok hno
  · exact fun bs m' hok => absurd hok hno
  · exact fun bs m' hok => absurd hok hno

theorem stays_of_le {b : ShmBase} {head size offset : UInt64} (h : ¬ offset + size > b.shm_.size_)
    (hend : offset.toNat + size.toNat ≤ b.data_size_.toNat)
    (htotal : b.total_size_.toNat = sizeofShmHead + b.data_size_.toNat) (a : Access) (m : Memory) :
    Stays (b.open_ head) head size offset a m := by
  have hlt := b.total_size_.toNat_lt
  have hcall := call_of_not_gt h head a
  have hwrap : offset.toNat + size.toNat < 2 ^ 64 := by omega
  constructor
  · intro e m' he
    rw [hcall] at he
    cases he
  · exact fun _ _ _ => hend
  · intro _ _ _ i hi
    have hfit : sizeofShmHead + (offset.toNat + size.toNat) ≤ b.total_size_.toNat := by omega
    exact mapped_of_inSpan hi hfit hlt
  · intro bs m' hok i hne
    rw [hcall] at hok
    cases hok
    cases a with
    | write now data | writeUnlocked now data =>
      by_cases hstamp : InStamp head i
      · exact ⟨trivial, .inr hstamp⟩
      · have hstore : (Access.result head size offset m (.write now data)).2 i =
            m.store (head + 104 + offset) size data i := if_neg hstamp
        have hne : m.store (head + 104 + offset) size data i ≠ m i := by
          rw [← hstore]
          exact hne
        exact ⟨trivial, .inl (inSpan_of_store hwrap hne)⟩
    | read | readUnlocked => exact absurd rfl hne
  · intro bs m' hok m₂ heq
    rw [hcall] at hok
    cases hok
    refine ⟨(a.result head size offset m₂).2, ?_⟩
    rw [hcall]
    cases a with
    | write now data | writeUnlocked now data => rfl
    | read | readUnlocked =>
      show EStateM.Result.ok (m₂.load (head + 104 + offset) size) _ = _
      rw [load_congr hwrap heq]
      rfl

/-- **`Region.write` makes the same check**, as long as the sum does not wrap. -/
theorem check_iff_region_write {b : ShmBase} {r : Region} (hr : r.size = b.shm_.size_.toNat) (head : UInt64)
    (what : String) {data : List UInt8} {offset : UInt64} (h : offset.toNat + data.length < 2 ^ 64) :
    (b.open_ head).check what (UInt64.ofNat data.length) offset = .ok () ↔
      ∃ r', r.write data offset.toNat = .ok r' := by
  have hgt := exceeds_iff (UInt64.ofNat data.length) offset b.shm_.size_
  rw [UInt64.toNat_ofNat', Nat.mod_eq_of_lt (show data.length < 2 ^ 64 by omega), Nat.mod_eq_of_lt h, ← hr] at hgt
  rw [check_open]
  unfold Region.write
  by_cases hthrow : offset + UInt64.ofNat data.length > b.shm_.size_
  · rw [if_pos hthrow, if_pos (hgt.1 hthrow)]
    exact iff_of_false (by simp) (by simp)
  · rw [if_neg hthrow, if_neg (mt hgt.2 hthrow)]
    exact iff_of_true rfl ⟨_, rfl⟩

/-- **An access stays in the data area, and the sizes are exact, exactly when the head fits and the end of the access
is none of those that the check lets through by mistake.** -/
theorem stays_iff {how : Built} {name : List UInt8} {b : ShmBase} (hb : how.make name = .ok b)
    (head size offset : UInt64) (a : Access) (m : Memory) :
    (b.Exact ∧ Stays (b.open_ head) head size offset a m) ↔
      how.HeadFits ∧ EndOk b.total_size_.toNat (offset.toNat + size.toNat) := by
  obtain ⟨hshm, hexact, htotal⟩ := how.make_eq_ok hb
  rw [hexact]
  refine and_congr_right fun hfits => ?_
  have htotal := htotal hfits
  have hlt := b.total_size_.toNat_lt
  have hsize := size.toNat_lt
  have hoffset := offset.toNat_lt
  have hgt : offset + size > b.shm_.size_ ↔ b.total_size_.toNat < (offset.toNat + size.toNat) % 2 ^ 64 := by
    rw [hshm]
    exact exceeds_iff size offset b.total_size_
  constructor
  · intro hs
    by_cases hthrow : offset + size > b.shm_.size_
    · have := hgt.1 hthrow
      unfold EndOk
      omega
    · have hle : offset.toNat + size.toNat ≤ b.data_size_.toNat := hs.bounds _ _ (call_of_not_gt hthrow head a m)
      unfold EndOk
      omega
  · rintro ⟨hhead, hwrap⟩
    by_cases hthrow : offset + size > b.shm_.size_
    · exact stays_of_gt hthrow a m
    · have hle := mt hgt.2 hthrow
      exact stays_of_le hthrow (by omega) (by omega) a m

/-- A region for 16 bytes that its creator has opened. -/
def small : ShmBase := ⟨[47], 104, 16, 120, ⟨[47], 120, none⟩, none, none, none⟩

/-- The last byte of the data area is read. -/
theorem stays_last : (Built.ofSize 16).make [47] = .ok small ∧
    small.Exact ∧ Stays (small.open_ 4096) 4096 1 15 .read (fun _ => 0) := by
  have hmade : (Built.ofSize 16).make [47] = .ok small := by rfl
  have hfits : (Built.ofSize 16).HeadFits := by
    show 104 + 16 < 2 ^ 64
    decide
  exact ⟨hmade, (stays_iff hmade 4096 1 15 .read _).2 ⟨hfits, by decide⟩⟩

/-- The byte behind the data area is read as well. -/
theorem stays_not_always : ¬ ∀ (how : Built) (name : List UInt8) (b : ShmBase), how.make name = .ok b →
    ∀ (head size offset : UInt64) (a : Access) (m : Memory), b.Exact ∧ Stays (b.open_ head) head size offset a m := by
  intro h
  have hmade : (Built.ofSize 16).make [47] = .ok small := by rfl
  obtain ⟨-, hs⟩ := h _ _ _ hmade 4096 1 16 .read (fun _ => 0)
  have hcall : Access.call (small.open_ 4096) 1 16 .read (fun _ => 0) = .ok [0] (fun _ => 0) := by rfl
  exact absurd (hs.bounds _ _ hcall) (by decide)

end SizeT

end MiniRos2

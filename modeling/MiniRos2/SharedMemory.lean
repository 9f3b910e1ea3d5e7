import MiniRos2.Basic
import MiniRos2.Lib.Posix
/-!
# SharedMemory — `SharedMemory` and `ShmBase`

A region is a POSIX object: its size (`ftruncate`) and its bytes, which stand at their positions from `data_ptr_` on,
behind the `ShmHead`.  `ShmBase` checks an access against the size of the whole region, head included, but counts its
offset from behind the head, so an access can end up to `sizeof(ShmHead)` bytes behind the data area.  Behind the
registry's data these bytes are in the mapping's last page; the model keeps them like the others.  The mutex of the head
is held for one access only, which is a step of its own here.
-/
namespace MiniRos2

open ByteMem (Mem)

/-- `sizeof(ShmHead)`: the flag, the mutex, the condition variable and the time stamp. -/
def sizeofShmHead : Nat := 104

structure Region where
  size : Nat
  mem : Mem

namespace Region

/-- The object after `ftruncate`. -/
def fresh (size : Nat) : Region := ⟨size, ByteMem.zero⟩

/-- `ShmBase::Write`. -/
def write (r : Region) (data : List UInt8) (offset : Nat) : Except Abort Region :=
  if offset + data.length > r.size then .error (.throws (.outOfRange (utf8 "Write exceeds shared memory size")))
  else .ok { r with mem := ByteMem.write r.mem offset data }

/-- `ShmBase::Read` and `ShmBase::ReadUnlocked`. -/
def read (r : Region) (size offset : Nat) : Except Abort (List UInt8) :=
  if offset + size > r.size then .error (.throws (.outOfRange (utf8 "read exceeds shared memory size")))
  else .ok (ByteMem.read r.mem offset size)

theorem write_of_le {r : Region} {data : List UInt8} {offset : Nat} (h : offset + data.length ≤ r.size) :
    r.write data offset = .ok { r with mem := ByteMem.write r.mem offset data } := if_neg (by omega)

theorem read_of_le {r : Region} {size offset : Nat} (h : offset + size ≤ r.size) :
    r.read size offset = .ok (ByteMem.read r.mem offset size) := if_neg (by omega)

/-- **What a write that returned did.** -/
theorem write_eq_ok {r r' : Region} {data : List UInt8} {offset : Nat} (h : r.write data offset = .ok r') :
    offset + data.length ≤ r.size ∧ r' = { r with mem := ByteMem.write r.mem offset data } := by
  unfold write at h
  split at h
  · cases h
  · rename_i hle
    cases h
    exact ⟨by omega, rfl⟩

end Region

end MiniRos2

import MiniRos2.ShmBase
import MiniRos2.Lib.Ledger
/-!
# ShmHandle — a `SharedMemory` with its descriptor and its pointer

What the operating system keeps for one object is its name space and two ledgers, of the descriptors the object was
given (each refers to a region) and of its mappings (a region and a length).  Whether a system call succeeds where it
can is an argument; `::close` always closes.  `Create` and `Open` on an object that is no owner do one of three things
(`Attempt`).  Where every system call succeeds, the handle does what the `SharedMemory` of the registry does
(`view_create`, `view_open`, `view_close`, `view_unlink`, `view_destroy`, and `view_ofSize`, `view_ofName` for the
constructors).
-/
namespace MiniRos2

/-- A region's number for a descriptor, and the length with it for a mapping. -/
structure Kernel where
  sp : ShmSpace
  fds : Ledger Nat
  maps : Ledger (Nat × Nat)

/-- Which system calls of one call succeed. -/
structure Outcomes where
  exists_ : Bool
  shm_open : Bool
  fstat : Bool
  ftruncate : Bool
  mmap : Bool
  shm_unlink : Bool

/-- Every system call succeeds where it can. -/
def Outcomes.all : Outcomes := ⟨true, true, true, true, true, true⟩

namespace Kernel

def start (sp : ShmSpace) : Kernel := ⟨sp, .empty, .empty⟩

/-- `shm_open` with `O_CREAT | O_EXCL`; `none` is -1. -/
def shmCreate (k : Kernel) (name : List UInt8) (ok : Bool) : Option Nat × Kernel :=
  match if ok then k.sp.create name (Region.fresh 0) else none with
  | none => (none, k)
  | some (obj, sp) => (some (k.fds.acquire obj).1, ⟨sp, (k.fds.acquire obj).2, k.maps⟩)

/-- `shm_open` of an existing name. -/
def shmOpen (k : Kernel) (name : List UInt8) (ok : Bool) : Option Nat × Kernel :=
  match if ok then k.sp.lookup name else none with
  | none => (none, k)
  | some obj => (some (k.fds.acquire obj).1, ⟨k.sp, (k.fds.acquire obj).2, k.maps⟩)

/-- `false` is -1. -/
def ftruncate (k : Kernel) (fd size : Nat) (ok : Bool) : Bool × Kernel :=
  match if ok then k.fds.obtained[fd]? else none with
  | none => (false, k)
  | some obj => (true, { k with sp := k.sp.put obj { k.sp.obj obj with size := size } })

def fstat (k : Kernel) (fd : Nat) (ok : Bool) : Option Nat :=
  (if ok then k.fds.obtained[fd]? else none).map fun obj => (k.sp.obj obj).size

/-- `none` is `MAP_FAILED`. -/
def mmap (k : Kernel) (fd size : Nat) (ok : Bool) : Option Nat × Kernel :=
  match if ok then k.fds.obtained[fd]? else none with
  | none => (none, k)
  | some obj => (some (k.maps.acquire (obj, size)).1, ⟨k.sp, k.fds, (k.maps.acquire (obj, size)).2⟩)

/-- Of another length than the mapping's it leaves a part of it. -/
def munmap (k : Kernel) (m size : Nat) : Kernel :=
  if (k.maps.obtained[m]?).map Prod.snd = some size then { k with maps := k.maps.release m } else k

/-- `::close`. -/
def close (k : Kernel) (fd : Nat) : Kernel := { k with fds := k.fds.release fd }

def shmUnlink (k : Kernel) (name : List UInt8) (ok : Bool) : Bool × Kernel :=
  if ok = true ∧ k.sp.lookup name ≠ none then (true, { k with sp := k.sp.unlink name }) else (false, k)

/-! ### What a call can do -/

theorem shmCreate_cases (k : Kernel) (name : List UInt8) (ok : Bool) : k.shmCreate name ok = (none, k) ∨
    ∃ obj sp, sp.lookup name = some obj ∧ obj < sp.next ∧
      k.shmCreate name ok = (some (k.fds.acquire obj).1, ⟨sp, (k.fds.acquire obj).2, k.maps⟩) := by
  unfold shmCreate
  split
  · exact .inl rfl
  · rename_i obj sp hcreate
    have hsome : k.sp.create name (Region.fresh 0) = some (obj, sp) := by
      split at hcreate
      · exact hcreate
      · cases hcreate
    obtain ⟨-, hobj, hnext, hlookup, -⟩ := Posix.Space.create_eq_some hsome
    exact .inr ⟨obj, sp, hlookup, by omega, rfl⟩

theorem shmOpen_of_none {k : Kernel} {name : List UInt8} {ok : Bool} (h : ok = false ∨ k.sp.lookup name = none) :
    k.shmOpen name ok = (none, k) := by
  unfold shmOpen
  rcases h with rfl | hl
  · rfl
  · rw [hl, ite_self]

theorem shmOpen_of_lookup {k : Kernel} {name : List UInt8} {obj : Nat} (hl : k.sp.lookup name = some obj) :
    k.shmOpen name true = (some (k.fds.acquire obj).1, ⟨k.sp, (k.fds.acquire obj).2, k.maps⟩) := by
  unfold shmOpen
  rw [if_pos rfl, hl]

theorem shmOpen_cases (k : Kernel) (name : List UInt8) (ok : Bool) : k.shmOpen name ok = (none, k) ∨
    ∃ obj, k.sp.lookup name = some obj ∧
      k.shmOpen name ok = (some (k.fds.acquire obj).1, ⟨k.sp, (k.fds.acquire obj).2, k.maps⟩) := by
  cases ok with
  | false => exact .inl (shmOpen_of_none (.inl rfl))
  | true =>
    cases hl : k.sp.lookup name with
    | none => exact .inl (shmOpen_of_none (.inr hl))
    | some obj => exact .inr ⟨obj, rfl, shmOpen_of_lookup hl⟩

theorem ftruncate_cases (k : Kernel) (fd size : Nat) (ok : Bool) : ∃ b sp, k.ftruncate fd size ok = (b, { k with sp }) ∧
    (∀ name, sp.lookup name = k.sp.lookup name) ∧ sp.next = k.sp.next := by
  unfold ftruncate
  split
  · exact ⟨false, k.sp, rfl, fun _ => rfl, rfl⟩
  · exact ⟨true, _, rfl, fun _ => rfl, rfl⟩

theorem mmap_cases {k : Kernel} {fd obj : Nat} (hfd : k.fds.obtained[fd]? = some obj) (size : Nat) (ok : Bool) :
    k.mmap fd size ok = (none, k) ∨
      k.mmap fd size ok = (some (k.maps.acquire (obj, size)).1, ⟨k.sp, k.fds, (k.maps.acquire (obj, size)).2⟩) := by
  unfold mmap
  rw [hfd]
  cases ok with
  | false => exact .inl rfl
  | true => exact .inr rfl

@[simp] theorem fds_munmap (k : Kernel) (m size : Nat) : (k.munmap m size).fds = k.fds := by
  unfold munmap
  split <;> rfl

@[simp] theorem sp_munmap (k : Kernel) (m size : Nat) : (k.munmap m size).sp = k.sp := by
  unfold munmap
  split <;> rfl

theorem maps_munmap {k : Kernel} {m obj size : Nat} (h : k.maps.Live m (obj, size)) :
    (k.munmap m size).maps = k.maps.release m := by
  unfold munmap
  rw [h.1]
  exact congrArg Kernel.maps (if_pos rfl)

@[simp] theorem fds_shmUnlink (k : Kernel) (name : List UInt8) (ok : Bool) : (k.shmUnlink name ok).2.fds = k.fds := by
  unfold shmUnlink
  split <;> rfl

@[simp] theorem maps_shmUnlink (k : Kernel) (name : List UInt8) (ok : Bool) :
    (k.shmUnlink name ok).2.maps = k.maps := by
  unfold shmUnlink
  split <;> rfl

end Kernel

/-- `data_`: null, `MAP_FAILED` or a mapping. -/
inductive MapPtr where
  | null
  | failed
  | mapped (m : Nat)

/-- The mappings behind a pointer. -/
def MapPtr.held : MapPtr → List Nat
  | .mapped m => [m]
  | _ => []

/-- `fd_` is `none` for -1. -/
structure ShmHandle where
  name_ : List UInt8
  size_ : Nat
  fd_ : Option Nat
  data_ : MapPtr
  is_owner_ : Bool

namespace ShmHandle

def close (h : ShmHandle) (k : Kernel) : ShmHandle × Kernel :=
  let (data_, k) := match h.data_ with
    | .mapped m => (MapPtr.null, k.munmap m h.size_)
    | p => (p, k)
  let k := match h.fd_ with
    | some fd => k.close fd
    | none => k
  ({ h with data_ := data_, fd_ := none }, k)

def unlink (h : ShmHandle) (k : Kernel) (ok : Bool) : Bool × Kernel :=
  if h.is_owner_ then k.shmUnlink h.name_ ok else (false, k)

def create (h : ShmHandle) (k : Kernel) (o : Outcomes) : Bool × ShmHandle × Kernel :=
  if h.is_owner_ then (true, h, k)
  else
    match k.shmCreate h.name_ o.shm_open with
    | (none, k) => (false, { h with fd_ := none }, k)
    | (some fd, k) =>
      let h := { h with fd_ := some fd }
      match k.ftruncate fd h.size_ o.ftruncate with
      | (false, k) =>
        let (h, k) := h.close k
        (false, h, (k.shmUnlink h.name_ o.shm_unlink).2)
      | (true, k) =>
        match k.mmap fd h.size_ o.mmap with
        | (none, k) =>
          let (h, k) := { h with data_ := .failed }.close k
          (false, h, (k.shmUnlink h.name_ o.shm_unlink).2)
        | (some m, k) => (true, { h with data_ := .mapped m, is_owner_ := true }, k)

/-- `Exists`: the descriptor is closed at once. -/
def exists_ (name : List UInt8) (k : Kernel) (ok : Bool) : Bool × Kernel :=
  match k.shmOpen name ok with
  | (none, k) => (false, k)
  | (some fd, k) => (true, k.close fd)

def open_ (h : ShmHandle) (k : Kernel) (o : Outcomes) : Bool × ShmHandle × Kernel :=
  if h.is_owner_ then (true, h, k)
  else
    match k.shmOpen h.name_ o.shm_open with
    | (none, k) => (false, { h with fd_ := none }, k)
    | (some fd, k) =>
      let h := { h with fd_ := some fd }
      match k.mmap fd h.size_ o.mmap with
      | (none, k) =>
        let (h, k) := { h with data_ := .failed }.close k
        (false, h, k)
      | (some m, k) => (true, { h with data_ := .mapped m }, k)

/-- `~SharedMemory`. -/
def destroy (h : ShmHandle) (k : Kernel) (ok : Bool) : Kernel :=
  let (h, k) := match h.data_ with
    | .mapped _ => h.close k
    | _ => (h, k)
  if h.is_owner_ then (h.unlink k ok).2 else k

/-- The constructor with a size. -/
def ofSize (name : List UInt8) (size : Nat) : Except Abort ShmHandle :=
  if name.head? ≠ some 47 ∨ size = 0 ∨ size > 10 * 1024 * 1024 then
    .error (.throws (.invalidArgument (utf8 "Invalid name or size for SharedMemory")))
  else .ok ⟨name, size, none, .null, false⟩

/-- The constructor with a name alone; nothing closes its descriptor. -/
def ofName (name : List UInt8) (k : Kernel) (o : Outcomes) : Except Abort ShmHandle × Kernel :=
  if name.head? ≠ some 47 then (.error (.throws (.invalidArgument (utf8 "Not exist"))), k)
  else
    match exists_ name k o.exists_ with
    | (false, k) => (.error (.throws (.invalidArgument (utf8 "Not exist"))), k)
    | (true, k) =>
      match k.shmOpen name o.shm_open with
      | (none, k) => (.error (.throws (.invalidArgument (utf8 "Can not Open " ++ name))), k)
      | (some fd, k) =>
        match k.fstat fd o.fstat with
        | none => (.error (.throws (.invalidArgument (utf8 "Can not get Stat"))), k)
        | some size => (.ok ⟨name, size, none, .null, false⟩, k)

/-! ## Close -/

@[simp] theorem close_fd (h : ShmHandle) (k : Kernel) : (h.close k).1.fd_ = none := by
  unfold close
  split
  rfl

@[simp] theorem close_name (h : ShmHandle) (k : Kernel) : (h.close k).1.name_ = h.name_ := by
  unfold close
  split
  rfl

@[simp] theorem close_size (h : ShmHandle) (k : Kernel) : (h.close k).1.size_ = h.size_ := by
  unfold close
  split
  rfl

@[simp] theorem close_is_owner (h : ShmHandle) (k : Kernel) : (h.close k).1.is_owner_ = h.is_owner_ := by
  unfold close
  split
  rfl

@[simp] theorem close_held (h : ShmHandle) (k : Kernel) : (h.close k).1.data_.held = [] := by
  unfold close
  split
  rename_i heq
  split at heq
  · cases heq
    rfl
  · rename_i hne
    cases heq
    cases hd : h.data_ with
    | mapped m => exact absurd hd (hne m)
    | _ => rfl

@[simp] theorem sp_close (h : ShmHandle) (k : Kernel) : (h.close k).2.sp = k.sp := by
  unfold close
  split
  rename_i heq
  split <;> split at heq <;> cases heq <;> simp [Kernel.close]

theorem fds_close (h : ShmHandle) (k : Kernel) :
    (h.close k).2.fds = h.fd_.elim k.fds (fun fd => k.fds.release fd) := by
  unfold close
  split
  rename_i heq
  split at heq <;> cases heq <;> cases h.fd_ <;> simp [Kernel.close]

theorem maps_close_of_held {h : ShmHandle} (k : Kernel) (hd : h.data_.held = []) : (h.close k).2.maps = k.maps := by
  unfold close
  split
  rename_i heq
  split at heq
  · rename_i m hm
    rw [hm] at hd
    cases hd
  · cases heq
    split <;> rfl

theorem maps_close_of_mapped {h : ShmHandle} {k : Kernel} {m obj : Nat} (hm : h.data_ = .mapped m)
    (hl : k.maps.Live m (obj, h.size_)) : (h.close k).2.maps = k.maps.release m := by
  unfold close
  split
  rename_i heq
  rw [hm] at heq
  cases heq
  rw [← Kernel.maps_munmap hl]
  split <;> rfl

@[simp] theorem fds_unlink (h : ShmHandle) (k : Kernel) (ok : Bool) : (h.unlink k ok).2.fds = k.fds := by
  unfold unlink
  split
  · exact Kernel.fds_shmUnlink _ _ _
  · rfl

@[simp] theorem maps_unlink (h : ShmHandle) (k : Kernel) (ok : Bool) : (h.unlink k ok).2.maps = k.maps := by
  unfold unlink
  split
  · exact Kernel.maps_shmUnlink _ _ _
  · rfl

/-! ## Create and Open -/

/-- **What `Create` and `Open` can do** when the object is no owner: nothing but to forget the descriptor, to obtain a
descriptor and close it again, or to map the region that the name has. -/
inductive Attempt (h : ShmHandle) (k : Kernel) : Bool × ShmHandle × Kernel → Prop where
  | refused : Attempt h k (false, { h with fd_ := none }, k)
  | undone {obj : Nat} {data_ : MapPtr} {sp : ShmSpace} {h' h'' : ShmHandle} {k' k'' : Kernel}
      (hd : data_ = h.data_ ∨ data_ = .failed) (hh : h' = { h with fd_ := some (k.fds.acquire obj).1, data_ := data_ })
      (hk : k' = ⟨sp, (k.fds.acquire obj).2, k.maps⟩) (hh' : h'' = (h'.close k').1)
      (hfds : k''.fds = (h'.close k').2.fds) (hmaps : k''.maps = (h'.close k').2.maps) : Attempt h k (false, h'', k'')
  | mapped {obj : Nat} {sp : ShmSpace} {own : Bool} (hl : sp.lookup h.name_ = some obj)
      (hown : own = true → obj < sp.next) :
      Attempt h k (true, { h with fd_ := some (k.fds.acquire obj).1,
                                  data_ := .mapped (k.maps.acquire (obj, h.size_)).1, is_owner_ := own },
        ⟨sp, (k.fds.acquire obj).2, (k.maps.acquire (obj, h.size_)).2⟩)

theorem exists_of_none {k : Kernel} {name : List UInt8} {ok : Bool} (h : ok = false ∨ k.sp.lookup name = none) :
    exists_ name k ok = (false, k) := by
  unfold exists_
  rw [Kernel.shmOpen_of_none h]

theorem exists_of_lookup {k : Kernel} {name : List UInt8} {obj : Nat} (hl : k.sp.lookup name = some obj) :
    exists_ name k true = (true, ⟨k.sp, (k.fds.acquire obj).2.release (k.fds.acquire obj).1, k.maps⟩) := by
  unfold exists_
  rw [Kernel.shmOpen_of_lookup hl]
  rfl

theorem attempt_create {h : ShmHandle} (k : Kernel) (o : Outcomes) (ho : h.is_owner_ = false) :
    Attempt h k (h.create k o) := by
  unfold create
  rw [if_neg (by rw [ho]; exact Bool.false_ne_true)]
  rcases k.shmCreate_cases h.name_ o.shm_open with heq | ⟨obj, sp, hl, hlt, heq⟩
  · rw [heq]
    exact .refused
  have hfd : (k.fds.acquire obj).2.obtained[(k.fds.acquire obj).1]? = some obj := List.getElem?_concat_length
  rw [heq]
  dsimp only
  obtain ⟨b, sp', htr, hl', hnext⟩ := Kernel.ftruncate_cases ⟨sp, (k.fds.acquire obj).2, k.maps⟩
    (k.fds.acquire obj).1 h.size_ o.ftruncate
  rw [htr]
  cases b with
  | false => exact .undone (.inl rfl) rfl rfl rfl (Kernel.fds_shmUnlink _ _ _) (Kernel.maps_shmUnlink _ _ _)
  | true =>
    dsimp only
    rcases Kernel.mmap_cases (k := ⟨sp', (k.fds.acquire obj).2, k.maps⟩) hfd h.size_ o.mmap with hmap | hmap
    · rw [hmap]
      exact .undone (.inr rfl) rfl rfl rfl (Kernel.fds_shmUnlink _ _ _) (Kernel.maps_shmUnlink _ _ _)
    · rw [hmap]
      exact .mapped ((hl' _).trans hl) (fun _ => by rw [hnext]; exact hlt)

theorem attempt_open {h : ShmHandle} (k : Kernel) (o : Outcomes) (ho : h.is_owner_ = false) :
    Attempt h k (h.open_ k o) := by
  unfold open_
  rw [if_neg (by rw [ho]; exact Bool.false_ne_true)]
  rcases k.shmOpen_cases h.name_ o.shm_open with heq | ⟨obj, hl, heq⟩
  · rw [heq]
    exact .refused
  have hfd : (k.fds.acquire obj).2.obtained[(k.fds.acquire obj).1]? = some obj := List.getElem?_concat_length
  rw [heq]
  dsimp only
  rcases Kernel.mmap_cases (k := ⟨k.sp, (k.fds.acquire obj).2, k.maps⟩) hfd h.size_ o.mmap with hmap | hmap
  · rw [hmap]
    exact .undone (.inr rfl) rfl rfl rfl rfl rfl
  · rw [hmap]
    exact .mapped hl (fun hown => absurd (ho.symm.trans hown) Bool.false_ne_true)

/-! ## The registry's `SharedMemory` -/

/-- The object without its descriptor. -/
def view (h : ShmHandle) (k : Kernel) : SharedMemory :=
  ⟨h.name_, h.size_, match h.data_ with
    | .mapped m => (k.maps.obtained[m]?).map Prod.fst
    | _ => none, h.is_owner_⟩

theorem create_all_of_lookup {h : ShmHandle} {k : Kernel} {id : Nat} (ho : h.is_owner_ = false)
    (hl : k.sp.lookup h.name_ = some id) : h.create k .all = (false, { h with fd_ := none }, k) := by
  have hs : k.shmCreate h.name_ true = (none, k) := by
    unfold Kernel.shmCreate Posix.Space.create
    rw [if_pos rfl, show k.sp.names h.name_ = some id from hl]
  unfold create
  rw [if_neg (by rw [ho]; exact Bool.false_ne_true), show Outcomes.all.shm_open = true from rfl, hs]

theorem create_all_of_lookup_none {h : ShmHandle} {k : Kernel} (ho : h.is_owner_ = false)
    (hl : k.sp.lookup h.name_ = none) :
    ∃ sp, k.sp.create h.name_ (Region.fresh h.size_) = some (k.sp.next, sp) ∧
      h.create k .all = (true, { h with fd_ := some (k.fds.acquire k.sp.next).1,
                                        data_ := .mapped (k.maps.acquire (k.sp.next, h.size_)).1, is_owner_ := true },
        ⟨sp, (k.fds.acquire k.sp.next).2, (k.maps.acquire (k.sp.next, h.size_)).2⟩) := by
  obtain ⟨sp, hsp⟩ := k.sp.create_of_lookup_none (Region.fresh 0) hl
  have hobj : sp.obj k.sp.next = Region.fresh 0 := (Posix.Space.create_eq_some hsp).2.2.2.2.1
  have hfd : (k.fds.acquire k.sp.next).2.obtained[(k.fds.acquire k.sp.next).1]? = some k.sp.next :=
    List.getElem?_concat_length
  have hs : k.shmCreate h.name_ true =
      (some (k.fds.acquire k.sp.next).1, ⟨sp, (k.fds.acquire k.sp.next).2, k.maps⟩) := by
    unfold Kernel.shmCreate
    rw [if_pos rfl, hsp]
  refine ⟨_, Posix.Space.create_put hsp _, ?_⟩
  unfold create
  rw [if_neg (by rw [ho]; exact Bool.false_ne_true), show Outcomes.all.shm_open = true from rfl, hs]
  simp only [Kernel.ftruncate, Kernel.mmap, show Outcomes.all.ftruncate = true from rfl,
    show Outcomes.all.mmap = true from rfl, if_true, hfd, hobj]
  rfl

theorem view_of_acquire (h : ShmHandle) (sp : ShmSpace) (fds : Ledger Nat) (l : Ledger (Nat × Nat)) (fd_ : Option Nat)
    (obj : Nat) (own : Bool) :
    view { h with fd_ := fd_, data_ := .mapped (l.acquire (obj, h.size_)).1, is_owner_ := own }
      ⟨sp, fds, (l.acquire (obj, h.size_)).2⟩ = ⟨h.name_, h.size_, some obj, own⟩ := by
  unfold view
  dsimp only
  rw [show (l.acquire (obj, h.size_)).2.obtained[(l.acquire (obj, h.size_)).1]? = some (obj, h.size_) from
    List.getElem?_concat_length]
  rfl

theorem view_create (h : ShmHandle) (k : Kernel) : (h.view k).create k.sp =
    ((h.create k .all).1, (h.create k .all).2.1.view (h.create k .all).2.2, (h.create k .all).2.2.sp) := by
  cases ho : h.is_owner_ with
  | true =>
    have hc : h.create k .all = (true, h, k) := if_pos ho
    rw [hc]
    exact if_pos ho
  | false =>
    have hv : (h.view k).is_owner_ = false := ho
    cases hl : k.sp.lookup h.name_ with
    | none =>
      obtain ⟨sp, hsp, hc⟩ := create_all_of_lookup_none ho hl
      obtain ⟨sp', hsp', hm⟩ := SharedMemory.create_of_lookup_none hv hl
      have heq : sp' = sp := congrArg Prod.snd (Option.some.inj (hsp'.symm.trans hsp))
      rw [hc, hm, heq, view_of_acquire]
      rfl
    | some id =>
      rw [create_all_of_lookup ho hl]
      unfold SharedMemory.create Posix.Space.create
      rw [hv, if_neg Bool.false_ne_true, show k.sp.names (h.view k).name_ = some id from hl]
      rfl

theorem view_open (h : ShmHandle) (k : Kernel) : (h.view k).open_ k.sp =
    ((h.open_ k .all).1, (h.open_ k .all).2.1.view (h.open_ k .all).2.2) := by
  cases ho : h.is_owner_ with
  | true =>
    have hc : h.open_ k .all = (true, h, k) := if_pos ho
    rw [hc]
    exact if_pos ho
  | false =>
    have hv : (h.view k).is_owner_ = false := ho
    cases hl : k.sp.lookup h.name_ with
    | none =>
      unfold open_ SharedMemory.open_
      rw [hv, if_neg Bool.false_ne_true, if_neg (by rw [ho]; exact Bool.false_ne_true),
        show k.sp.lookup (h.view k).name_ = none from hl, Kernel.shmOpen_of_none (.inr hl)]
      rfl
    | some id =>
      have hfd : (k.fds.acquire id).2.obtained[(k.fds.acquire id).1]? = some id := List.getElem?_concat_length
      rw [SharedMemory.open_of_lookup hv hl]
      unfold open_
      rw [if_neg (by rw [ho]; exact Bool.false_ne_true), show Outcomes.all.shm_open = true from rfl,
        Kernel.shmOpen_of_lookup hl]
      simp only [Kernel.mmap, show Outcomes.all.mmap = true from rfl, if_true, hfd]
      exact congrArg (Prod.mk true) (view_of_acquire h k.sp _ k.maps _ id h.is_owner_).symm

theorem view_of_held {h : ShmHandle} (k : Kernel) (hd : h.data_.held = []) :
    h.view k = ⟨h.name_, h.size_, none, h.is_owner_⟩ := by
  unfold view
  cases hp : h.data_ with
  | mapped m =>
    rw [hp] at hd
    cases hd
  | _ => rfl

theorem view_close (h : ShmHandle) (k : Kernel) : (h.view k).close = (h.close k).1.view (h.close k).2 := by
  rw [view_of_held _ (close_held h k), close_name, close_size, close_is_owner]
  rfl

theorem view_unlink (h : ShmHandle) (k : Kernel) : (h.view k).unlink k.sp = (h.unlink k true).2.sp := by
  unfold unlink SharedMemory.unlink
  cases ho : h.is_owner_ with
  | false => exact if_neg (by rw [view, ho]; exact Bool.false_ne_true)
  | true =>
    rw [if_pos (show (h.view k).is_owner_ = true from ho), if_pos rfl]
    by_cases hl : k.sp.lookup h.name_ = none
    · rw [Kernel.shmUnlink, if_neg (fun hc => hc.2 hl)]
      exact k.sp.unlink_of_lookup_none hl
    · rw [Kernel.shmUnlink, if_pos ⟨rfl, hl⟩]
      rfl

theorem view_ofSize (name : List UInt8) (size : Nat) (k : Kernel) :
    SharedMemory.ofSize name size = (ofSize name size).map fun h => h.view k := by
  unfold SharedMemory.ofSize ofSize
  split <;> rfl

theorem ofName_all_of_lookup {name : List UInt8} {k : Kernel} {obj : Nat} (hname : ¬ name.head? ≠ some 47)
    (hl : k.sp.lookup name = some obj) :
    ∃ k', ofName name k .all = (.ok ⟨name, (k.sp.obj obj).size, none, .null, false⟩, k') := by
  have hfd : ∀ l : Ledger Nat, (l.acquire obj).2.obtained[(l.acquire obj).1]? = some obj := fun _ =>
    List.getElem?_concat_length
  unfold ofName
  rw [if_neg hname, show Outcomes.all.exists_ = true from rfl, exists_of_lookup hl]
  dsimp only
  rw [show Outcomes.all.shm_open = true from rfl,
    Kernel.shmOpen_of_lookup (k := ⟨k.sp, (k.fds.acquire obj).2.release (k.fds.acquire obj).1, k.maps⟩) hl]
  simp only [Kernel.fstat, show Outcomes.all.fstat = true from rfl, if_true, hfd, Option.map_some]
  exact ⟨_, rfl⟩

theorem view_ofName (name : List UInt8) (k : Kernel) : SharedMemory.ofName k.sp name =
    (ofName name k .all).1.map fun h => h.view (ofName name k .all).2 := by
  unfold SharedMemory.ofName
  by_cases hname : name.head? ≠ some 47
  · rw [if_pos hname, ofName, if_pos hname]
    rfl
  rw [if_neg hname]
  cases hl : k.sp.lookup name with
  | none =>
    rw [ofName, if_neg hname, exists_of_none (.inr hl)]
    rfl
  | some obj =>
    obtain ⟨k', heq⟩ := ofName_all_of_lookup hname hl
    rw [heq]
    rfl

theorem view_destroy (h : ShmHandle) (k : Kernel) : (h.view k).destroy k.sp = (h.destroy k true).sp := by
  have hclosed : ∀ (h : ShmHandle) (k : Kernel), (h.view k).unlink k.sp =
      (if h.is_owner_ then (h.unlink k true).2 else k).sp := fun h k => by
    rw [view_unlink]
    cases ho : h.is_owner_ with
    | true => rfl
    | false =>
      unfold unlink
      rw [ho]
      rfl
  unfold destroy
  split
  rename_i h' k' heq
  rw [← hclosed]
  split at heq
  · have hh : (h.close k).1 = h' := congrArg Prod.fst heq
    have hk : (h.close k).2 = k' := congrArg Prod.snd heq
    rw [← hh, ← hk, ← view_close, sp_close]
    rfl
  · cases heq
    rfl

end ShmHandle

end MiniRos2

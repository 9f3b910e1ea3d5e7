import MiniRos2.ShmBase
import MiniRos2.Lib.Monitor
/-!
# ShmBytes — the accesses of `ShmBase` to one region, byte by byte

Threads of any processes write and read the data area at once, `memcpy` copies one byte at a time in an order of its
own, and any thread may come between.  `writes` records the writes as their copying begins, and nothing reads it.  A
`Read` returns what the area was between two writes; a `ReadUnlocked` returns bytes each of which was there at some
time, not all of them at one (`reads_of_run`).
-/
namespace MiniRos2
namespace ShmBytes

open Monitor ByteMem

inductive Call where
  | write (data : List UInt8) (offset : Nat) (now : UInt64)
  | read (size offset : Nat)
  | readUnlocked (size offset : Nat)

/-- What the region holds behind its head, and the time in the head. -/
structure Area where
  data : Mem
  time_ : UInt64
  writes : List (Nat × List UInt8)
  /-- The last of `writes` is not done. -/
  writing : Bool

/-- How many writes are done. -/
def Area.done (x : Area) : Nat := if x.writing then x.writes.length - 1 else x.writes.length

/-- How a call ended; the reads with the writes that were done when they began to copy. -/
inductive Result where
  | returned
  | read (done offset : Nat) (bytes : List UInt8)
  | readUnlocked (done offset : Nat) (bytes : List UInt8)
  | threw (e : Exn)

/-- Where a thread is in a call; `order` is what its `memcpy` has still to copy. -/
inductive Point where
  | outside
  | enter (size_ : Nat) (c : Call) (order : List Nat)
  | store (data : List UInt8) (offset : Nat) (now : UInt64) (order : List Nat)
  | storing (data : List UInt8) (offset : Nat) (now : UInt64) (order : List Nat)
  | load (locked : Bool) (size offset : Nat) (order : List Nat)
  | loading (locked : Bool) (size offset done : Nat) (order : List Nat) (buffer : Mem)
  | leave (what : String) (r : Result)
  | done (r : Result)

namespace Call

def size : Call → Nat
  | .write data _ _ => data.length
  | .read size _ => size
  | .readUnlocked size _ => size

def offset : Call → Nat
  | .write _ offset _ => offset
  | .read _ offset => offset
  | .readUnlocked _ offset => offset

def outOfRange : Call → Exn
  | .write _ _ _ => .outOfRange (utf8 "Write exceeds shared memory size")
  | _ => .outOfRange (utf8 "read exceeds shared memory size")

def locks : Call → Bool
  | .readUnlocked _ _ => false
  | _ => true

/-- Behind the lock, or without one. -/
def body (order : List Nat) : Call → Point
  | .write data offset now => .store data offset now order
  | .read size offset => .load true size offset order
  | .readUnlocked size offset => .load false size offset order

end Call

/-- One turn of the `memcpy` of a write; the time is set after the last. -/
def storeByte (data : List UInt8) (offset : Nat) (now : UInt64) (order : List Nat) (x : Area) : Area × Point :=
  match order with
  | [] => ({ x with time_ := now, writing := false }, .leave "释放互斥锁失败WRITE: " .returned)
  | i :: order =>
    ({ x with data := Function.update x.data (offset + i) ((data[i]?).getD 0) }, .storing data offset now order)

/-- One turn of the `memcpy` of a read. -/
def loadByte (locked : Bool) (size offset done : Nat) (order : List Nat) (buffer : Mem) (x : Area) : Area × Point :=
  match order with
  | [] =>
    if locked then (x, .leave "释放互斥锁失败READ: " (.read done offset (ByteMem.read buffer 0 size)))
    else (x, .done (.readUnlocked done offset (ByteMem.read buffer 0 size)))
  | i :: order => (x, .loading locked size offset done order (Function.update buffer i (x.data (offset + i))))

variable (strerror : Nat → List UInt8)

/-- `pthread_mutex_lock` returned `ret`. -/
def locked (c : Call) (order : List Nat) (ret : Nat) : Point :=
  if ret = 0 then c.body order else .done (.threw (.runtimeError (utf8 "获取互斥锁失败：" ++ strerror ret)))

/-- **The calls, instruction by instruction.** -/
def instr : Point → Instr Point Area
  | .outside => .idle
  | .done _ => .idle
  | .enter size_ c order =>
    if size_ < c.offset + c.size then .access fun x => (x, .done (.threw c.outOfRange))
    else if c.locks then .lock (locked strerror c order)
    else .access fun x => (x, c.body order)
  | .store data offset now order => .access fun x =>
    ({ x with writes := x.writes ++ [(offset, data)], writing := true }, .storing data offset now order)
  | .storing data offset now order => .access (storeByte data offset now order)
  | .load locked size offset order => .access fun x => (x, .loading locked size offset x.done order zero)
  | .loading locked size offset done order buffer => .access (loadByte locked size offset done order buffer)
  | .leave what r => .unlock fun ret =>
    if ret ≠ 0 then .done (.threw (.runtimeError (utf8 what ++ strerror ret))) else .done r

/-- Where a call begins: each byte is copied once, and an access that passes the check is in the data area. -/
def Begins : Point → Prop
  | .enter size_ c order =>
    order.Perm (List.range c.size) ∧
      (c.offset + c.size ≤ size_ → sizeofShmHead + (c.offset + c.size) ≤ size_)
  | _ => False

/-! ## What the calls are for -/

/-- The area, once the writes are done. -/
def after (m₀ : Mem) (ws : List (Nat × List UInt8)) : Mem := ws.foldl (fun m w => ByteMem.write m w.1 w.2) m₀

theorem after_snoc (m₀ : Mem) (ws : List (Nat × List UInt8)) (offset : Nat) (data : List UInt8) :
    after m₀ (ws ++ [(offset, data)]) = ByteMem.write (after m₀ ws) offset data := by
  rw [after, List.foldl_append]
  rfl

/-- **What a read returned**: the bytes that some number of writes left, of which there were `done` at the beginning;
one number for all the bytes, or one for each. -/
def Result.Holds (m₀ : Mem) (ws : List (Nat × List UInt8)) : Result → Prop
  | .read done offset bytes =>
    done ≤ ws.length ∧ bytes = ByteMem.read (after m₀ (ws.take done)) offset bytes.length
  | .readUnlocked done offset bytes => ∀ i b, bytes[i]? = some b →
    ∃ j, done ≤ j ∧ j ≤ ws.length ∧ b = after m₀ (ws.take j) (offset + i)
  | _ => True

/-- Nobody writes. -/
def Quiet (m₀ : Mem) (x : Area) : Prop := x.writing = false ∧ x.data = after m₀ x.writes

/-- Each byte is what the writes that are done left, or all that have begun. -/
def Torn (m₀ : Mem) (x : Area) : Prop :=
  ∀ a, ∃ j, x.done ≤ j ∧ j ≤ x.writes.length ∧ x.data a = after m₀ (x.writes.take j) a

variable {m₀ : Mem}

theorem Quiet.done_eq {x : Area} (h : Quiet m₀ x) : x.done = x.writes.length := by
  rw [Area.done, h.1]
  rfl

theorem Quiet.torn {x : Area} (h : Quiet m₀ x) : Torn m₀ x := by
  refine fun a => ⟨x.writes.length, Nat.le_of_eq h.done_eq, Nat.le_refl _, ?_⟩
  rw [List.take_length, h.2]

/-- In the middle of a write, a byte is from before it or from after it. -/
theorem torn_of_writing {x : Area} {ws : List (Nat × List UInt8)} {offset : Nat} {data : List UInt8}
    (hw : x.writing = true) (hws : x.writes = ws ++ [(offset, data)])
    (hx : ∀ a, x.data a = after m₀ ws a ∨ x.data a = ByteMem.write (after m₀ ws) offset data a) : Torn m₀ x := by
  have hlen : x.writes.length = ws.length + 1 := by rw [hws, List.length_append]; rfl
  have hdone : x.done = ws.length := by rw [Area.done, hw, hlen]; rfl
  intro a
  rcases hx a with h | h
  · exact ⟨ws.length, Nat.le_of_eq hdone, by omega, by rw [h, hws, List.take_left]⟩
  · refine ⟨x.writes.length, by omega, Nat.le_refl _, ?_⟩
    rw [h, List.take_length, hws, after_snoc]

theorem Result.Holds.mono {ws ws' : List (Nat × List UInt8)} {r : Result} (h : r.Holds m₀ ws) (hp : ws <+: ws') :
    r.Holds m₀ ws' := by
  obtain ⟨l, rfl⟩ := hp
  cases r with
  | read done offset bytes =>
    refine ⟨Nat.le_trans h.1 (by rw [List.length_append]; omega), ?_⟩
    rw [List.take_append_of_le_length h.1]
    exact h.2
  | readUnlocked done offset bytes =>
    intro i b hb
    obtain ⟨j, hlo, hhi, heq⟩ := h i b hb
    refine ⟨j, hlo, by rw [List.length_append]; omega, ?_⟩
    rw [List.take_append_of_le_length hhi]
    exact heq
  | returned => trivial
  | threw e => trivial

/-! ## The outline -/

def held : Point → Bool
  | .store _ _ _ _ => true
  | .storing _ _ _ _ => true
  | .load locked _ _ _ => locked
  | .loading locked _ _ _ _ _ => locked
  | .leave _ _ => true
  | _ => false

/-- What a thread in its section knows of the area. -/
def known (m₀ : Mem) : Point → Area → Prop
  | .store data _ _ order, x => Quiet m₀ x ∧ order.Perm (List.range data.length)
  | .storing data offset _ order, x => x.writing = true ∧ (∀ i ∈ order, i < data.length) ∧
    ∃ ws, x.writes = ws ++ [(offset, data)] ∧ ∀ a, x.data a = ByteMem.write (after m₀ ws) offset data a ∨
      x.data a = after m₀ ws a ∧ offset ≤ a ∧ a - offset ∈ order
  | .load _ size _ order, x => Quiet m₀ x ∧ order.Perm (List.range size)
  | .loading _ size offset done order buffer, x => Quiet m₀ x ∧ done = x.writes.length ∧
    ∀ i, i < size → i ∈ order ∨ buffer i = x.data (offset + i)
  | .leave _ r, x => Quiet m₀ x ∧ r.Holds m₀ x.writes
  | _, x => Quiet m₀ x

/-- What stands for a thread outside its section, whatever the others do. -/
def away (m₀ : Mem) : Point → Area → Prop
  | .enter _ c order, x => Torn m₀ x ∧ order.Perm (List.range c.size)
  | .load _ size _ order, x => Torn m₀ x ∧ order.Perm (List.range size)
  | .loading _ size offset done order buffer, x => Torn m₀ x ∧ done ≤ x.done ∧ ∀ i, i < size → i ∈ order ∨
    ∃ j, done ≤ j ∧ j ≤ x.writes.length ∧ buffer i = after m₀ (x.writes.take j) (offset + i)
  | .done r, x => Torn m₀ x ∧ r.Holds m₀ x.writes
  | _, x => Torn m₀ x

def outline (m₀ : Mem) : Outline Point Area := ⟨held, Quiet m₀, known m₀, away m₀⟩

theorem torn_of_away {p : Point} {x : Area} (h : away m₀ p x) : Torn m₀ x := by
  cases p with
  | enter size_ c order => exact h.1
  | load locked size offset order => exact h.1
  | loading locked size offset done order buffer => exact h.1
  | done r => exact h.1
  | outside => exact h
  | store data offset now order => exact h
  | storing data offset now order => exact h
  | leave what r => exact h

theorem away_mono {p : Point} {x y : Area} (h : away m₀ p x) (hp : x.writes <+: y.writes) (hd : x.done ≤ y.done)
    (hy : Torn m₀ y) : away m₀ p y := by
  cases p with
  | enter size_ c order => exact ⟨hy, h.2⟩
  | load locked size offset order => exact ⟨hy, h.2⟩
  | loading locked size offset done order buffer =>
    refine ⟨hy, Nat.le_trans h.2.1 hd, fun i hi => (h.2.2 i hi).imp_right ?_⟩
    rintro ⟨j, hlo, hhi, heq⟩
    obtain ⟨l, hl⟩ := hp
    refine ⟨j, hlo, by rw [← hl, List.length_append]; omega, ?_⟩
    rw [← hl, List.take_append_of_le_length hhi]
    exact heq
  | done r => exact ⟨hy, h.2.mono hp⟩
  | outside => exact hy
  | store data offset now order => exact hy
  | storing data offset now order => exact hy
  | leave what r => exact hy

/-- A thread that changes nothing changes nothing for the others. -/
theorem away_self {x : Area} : ∀ q, away m₀ q x → away m₀ q x := fun _ hq => hq

theorem checks_enter (size_ : Nat) (c : Call) (order : List Nat) (ret : Nat) :
    (outline m₀).Checks (.enter size_ c order) ret (instr strerror (.enter size_ c order)) := by
  have hlock : (∀ x, Quiet m₀ x → order.Perm (List.range c.size) → (outline m₀).Inside (c.body order) x) →
      (outline m₀).Checks (.enter size_ c order) ret (.lock (locked strerror c order)) := by
    refine fun hbody => ⟨rfl, fun x hx => ⟨fun hret hquiet => ?_, fun hret => ?_⟩⟩
    · have heq : locked strerror c order 0 = c.body order := if_pos rfl
      rw [heq]
      exact hbody x hquiet hx.2
    · have heq : locked strerror c order ret = .done _ := if_neg hret
      rw [heq]
      exact ⟨rfl, hx.1, trivial⟩
  rw [instr]
  split
  · exact ⟨nofun, fun _ x hx => ⟨rfl, rfl, hx.1, trivial⟩⟩
  · cases c with
    | write data offset now => exact hlock (fun x hq hp => ⟨rfl, hq, hp⟩)
    | read size offset => exact hlock (fun x hq hp => ⟨rfl, hq, hp⟩)
    | readUnlocked size offset =>
      show (outline m₀).Checks _ ret (.access fun x => (x, .load false size offset order))
      exact ⟨nofun, fun _ x hx => ⟨rfl, rfl, hx⟩⟩

/-- The write begins: nothing is copied, but what was the last area is now the one before. -/
theorem checks_store (data : List UInt8) (offset : Nat) (now : UInt64) (order : List Nat) :
    (outline m₀).Checks (.store data offset now order) 0 (instr strerror (.store data offset now order)) := by
  refine ⟨fun _ x hx => ?_, nofun⟩
  obtain ⟨hquiet, hperm⟩ := hx
  have hmem : ∀ i, i ∈ order ↔ i < data.length := fun i => (hperm.mem_iff).trans List.mem_range
  have htorn : Torn m₀ { x with writes := x.writes ++ [(offset, data)], writing := true } :=
    torn_of_writing rfl rfl (fun a => .inl (by rw [← hquiet.2]))
  refine ⟨⟨rfl, rfl, fun i hi => (hmem i).1 hi, x.writes, rfl, fun a => ?_⟩, fun q hq => ?_⟩
  · by_cases ha : offset ≤ a ∧ a - offset < data.length
    · exact .inr ⟨congrFun hquiet.2 a, ha.1, (hmem _).2 ha.2⟩
    · refine .inl ((congrFun hquiet.2 a).trans ?_)
      by_cases hlt : a < offset
      · exact (ByteMem.write_of_lt _ _ _ _ hlt).symm
      · exact (ByteMem.write_of_ge _ _ _ _ (by omega)).symm
  · refine away_mono hq (List.prefix_append _ _) ?_ htorn
    rw [hquiet.done_eq, Area.done, if_pos rfl, List.length_append]
    exact Nat.le_refl _

theorem checks_storing (data : List UInt8) (offset : Nat) (now : UInt64) (order : List Nat) :
    (outline m₀).Checks (.storing data offset now order) 0 (.access (storeByte data offset now order)) := by
  refine ⟨fun _ x hx => ?_, nofun⟩
  obtain ⟨hw, hlt, ws, hws, hdata⟩ := hx
  cases order with
  | nil =>
    have hquiet : Quiet m₀ { x with time_ := now, writing := false } := by
      refine ⟨rfl, funext (fun a => ?_)⟩
      rw [hws, after_snoc]
      exact (hdata a).resolve_right (fun h => (List.not_mem_nil h.2.2).elim)
    have hdone : x.done ≤ Area.done { x with time_ := now, writing := false } := by
      rw [hquiet.done_eq, Area.done, hw]
      exact Nat.sub_le _ _
    exact ⟨⟨rfl, hquiet, trivial⟩, fun q hq => away_mono hq (List.prefix_refl _) hdone hquiet.torn⟩
  | cons i order =>
    have hi : i < data.length := hlt i List.mem_cons_self
    have hnew : ∀ a, Function.update x.data (offset + i) ((data[i]?).getD 0) a =
        ByteMem.write (after m₀ ws) offset data a ∨
        Function.update x.data (offset + i) ((data[i]?).getD 0) a = after m₀ ws a ∧
          offset ≤ a ∧ a - offset ∈ order := by
      intro a
      by_cases ha : a = offset + i
      · subst ha
        refine .inl ?_
        have hsub : offset + i - offset = i := by omega
        rw [Function.update_self, ByteMem.write, if_pos (Nat.le_add_right _ _), hsub, List.getElem?_eq_getElem hi]
        rfl
      · rw [Function.update_of_ne ha]
        refine (hdata a).imp_right (fun h => ⟨h.1, h.2.1, ?_⟩)
        exact (List.mem_cons.1 h.2.2).resolve_left (fun heq => ha (by omega))
    have htorn : Torn m₀ { x with data := Function.update x.data (offset + i) ((data[i]?).getD 0) } :=
      torn_of_writing hw hws (fun a => (hnew a).elim .inr (fun h => .inl h.1))
    exact ⟨⟨rfl, hw, fun j hj => hlt j (List.mem_cons_of_mem _ hj), ws, hws, hnew⟩,
      fun q hq => away_mono hq (List.prefix_refl _) (Nat.le_refl _) htorn⟩

/-- The bytes that are copied are the first `size` of the buffer. -/
theorem copied {P : Nat → UInt8 → Prop} {size : Nat} {buffer : Mem} (h : ∀ i, i < size → i ∈ [] ∨ P i (buffer i)) :
    ∀ i b, (ByteMem.read buffer 0 size)[i]? = some b → P i b := by
  intro i b hb
  have hi : i < size := by
    have hlt := (List.getElem?_eq_some_iff.1 hb).1
    rwa [length_read] at hlt
  rw [getElem?_read _ _ _ _ hi, Nat.zero_add] at hb
  rw [← Option.some.inj hb]
  exact (h i hi).resolve_left List.not_mem_nil

/-- One more byte is copied. -/
theorem copied_update {P : Nat → UInt8 → Prop} {size i : Nat} {order : List Nat} {buffer : Mem} {b : UInt8}
    (h : ∀ j, j < size → j ∈ i :: order ∨ P j (buffer j)) (hb : P i b) :
    ∀ j, j < size → j ∈ order ∨ P j (Function.update buffer i b j) := by
  intro j hj
  by_cases hji : j = i
  · rw [hji, Function.update_self]
    exact .inr hb
  · rw [Function.update_of_ne hji]
    exact (h j hj).imp_left (fun hm => (List.mem_cons.1 hm).resolve_left hji)

theorem checks_load (lock : Bool) (size offset : Nat) (order : List Nat) :
    (outline m₀).Checks (.load lock size offset order) 0 (instr strerror (.load lock size offset order)) := by
  have hall : order.Perm (List.range size) → ∀ (P : Prop) i, i < size → i ∈ order ∨ P := fun hperm P i hi =>
    .inl (hperm.mem_iff.2 (List.mem_range.2 hi))
  cases lock with
  | true =>
    refine ⟨fun _ x hx => ⟨⟨rfl, hx.1, hx.1.done_eq, fun i hi => hall hx.2 _ i hi⟩, away_self⟩, nofun⟩
  | false =>
    refine ⟨nofun, fun _ x hx => ⟨rfl, rfl, hx.1, Nat.le_refl _, fun i hi => hall hx.2 _ i hi⟩⟩

theorem checks_loading (lock : Bool) (size offset done : Nat) (order : List Nat) (buffer : Mem) :
    (outline m₀).Checks (.loading lock size offset done order buffer) 0
      (.access (loadByte lock size offset done order buffer)) := by
  cases lock with
  | true =>
    refine ⟨fun _ x hx => ?_, nofun⟩
    obtain ⟨hquiet, rfl, hcopy⟩ := hx
    cases order with
    | nil =>
      have hbytes : ByteMem.read buffer 0 size =
          ByteMem.read (after m₀ (x.writes.take x.writes.length)) offset (ByteMem.read buffer 0 size).length := by
        rw [List.take_length, ← hquiet.2, length_read]
        refine List.map_congr_left (fun i hi => ?_)
        rw [Nat.zero_add]
        exact (hcopy i (List.mem_range.1 hi)).resolve_left List.not_mem_nil
      exact ⟨⟨rfl, hquiet, Nat.le_refl _, hbytes⟩, away_self⟩
    | cons i order =>
      exact ⟨⟨rfl, hquiet, rfl, copied_update (P := fun j b => b = x.data (offset + j)) hcopy rfl⟩, away_self⟩
  | false =>
    refine ⟨nofun, fun _ x hx => ?_⟩
    obtain ⟨htorn, hdone, hcopy⟩ := hx
    cases order with
    | nil =>
      exact ⟨rfl, rfl, htorn, copied (P := fun i b => ∃ j, done ≤ j ∧ j ≤ x.writes.length ∧
        b = after m₀ (x.writes.take j) (offset + i)) hcopy⟩
    | cons i order =>
      obtain ⟨j, hlo, hhi, heq⟩ := htorn (offset + i)
      exact ⟨rfl, rfl, htorn, hdone, copied_update (P := fun i b => ∃ j, done ≤ j ∧ j ≤ x.writes.length ∧
        b = after m₀ (x.writes.take j) (offset + i)) hcopy ⟨j, Nat.le_trans hdone hlo, hhi, heq⟩⟩

/-- **Every instruction fits**, whatever it returns. -/
theorem checks (p : Point) (ret : Nat) : (outline m₀).Checks p ret (instr strerror p) := by
  cases p with
  | outside => rfl
  | done r => rfl
  | enter size_ c order => exact checks_enter strerror size_ c order ret
  | store data offset now order => exact checks_store strerror data offset now order
  | storing data offset now order => exact checks_storing data offset now order
  | load lock size offset order => exact checks_load strerror lock size offset order
  | loading lock size offset done order buffer => exact checks_loading lock size offset done order buffer
  | leave what r => exact ⟨rfl, fun x hx => ⟨hx.1, rfl, hx.1.torn, hx.2⟩⟩

/-! ## Runs -/

variable {κ : Type} [DecidableEq κ] {t : State κ Point Area} {as : List (Act κ Point)}

/-- Nobody calls, and the area is as it is. -/
def init (m₀ : Mem) : State κ Point Area := State.init ⟨m₀, 0, [], false⟩ .outside

def Steps : State κ Point Area → Act κ Point → State κ Point Area → Prop := Step (instr strerror) Begins

theorem outside_of_begins {p : Point} (hp : Begins p) {q : Point} {x : Area} (hq : (outline m₀).Outside q x) :
    (outline m₀).Outside p x := by
  cases p with
  | enter size_ c order => exact ⟨rfl, torn_of_away hq.2, hp.1⟩
  | outside => exact hp.elim
  | done r => exact hp.elim
  | store data offset now order => exact hp.elim
  | storing data offset now order => exact hp.elim
  | load lock size offset order => exact hp.elim
  | loading lock size offset done order buffer => exact hp.elim
  | leave what r => exact hp.elim

theorem sound_of_run (h : Trans.Run (Steps strerror) Trans.free (init m₀) as t) :
    (outline m₀).Sound (instr strerror) t := by
  have hquiet : Quiet m₀ ⟨m₀, 0, [], false⟩ := ⟨rfl, rfl⟩
  refine Outline.sound_of_run (h.weaken (fun s a _ => ?_)) (Outline.sound_init hquiet ⟨rfl, hquiet.torn⟩)
    (fun p hp q x hq => outside_of_begins hp hq)
  cases a with
  | wake k ret => trivial
  | call k p => exact checks strerror _ _
  | step k ret => exact checks strerror _ _

/-- **The accesses do what they are for.** -/
structure Faithful (m₀ : Mem) (t : State κ Point Area) : Prop where
  reads : ∀ k r, t.point k = .done r → r.Holds m₀ t.shared.writes
  whole : t.owner = none → t.shared.data = after m₀ t.shared.writes
  inside : ∀ k, t.owner = some k → held (t.point k) = true
  defined : t.undefined = false

/-- **Whatever any number of threads write and read, a `Read` returns the bytes that some number of whole writes left**,
one number for all of them, and a `ReadUnlocked` for each byte of its own, not less than were done when it began and not
more than have begun; and between the calls the area is what whole writes left. -/
theorem reads_of_run (h : Trans.Run (Steps strerror) Trans.free (init m₀) as t) : Faithful m₀ t := by
  have hsound := sound_of_run strerror h
  refine ⟨fun k r hk => ?_, fun hown => (hsound.free hown).2, fun k hown => ((hsound.owner k).1 hown).2,
    hsound.defined⟩
  have haway := hsound.away k (hsound.not_owns (by rw [hk]; rfl))
  rw [hk] at haway
  exact haway.2

/-- One thread writes a byte and reads it back. -/
theorem reads_of_run_seven : ∃ t : State Unit Point Area,
    t.point () = .done (.read 1 0 [7]) ∧ Faithful zero t := by
  have hperm : [0].Perm (List.range 1) := by decide
  have h₁ : Trans.Run (Steps (fun _ => [])) Trans.free (init zero : State Unit Point Area)
    [.call () (.enter 105 (.write [7] 0 0) [0])] _ := .single trivial (.call ⟨rfl, rfl⟩ ⟨hperm, by decide⟩)
  have h₂ := run_advance h₁ () ⟨rfl, rfl⟩ trivial
  have h₃ := run_advance h₂ () ⟨rfl, trivial⟩ trivial
  have h₄ := run_advance h₃ () ⟨rfl, trivial⟩ trivial
  have h₅ := run_advance h₄ () ⟨rfl, trivial⟩ trivial
  have h₆ := run_advance h₅ () ⟨rfl, rfl⟩ trivial
  have h₇ := h₆.snoc (a := .call () (.enter 105 (.read 1 0) [0])) trivial (.call ⟨rfl, rfl⟩ ⟨hperm, by decide⟩)
  have h₈ := run_advance h₇ () ⟨rfl, rfl⟩ trivial
  have h₉ := run_advance h₈ () ⟨rfl, trivial⟩ trivial
  have h₁₀ := run_advance h₉ () ⟨rfl, trivial⟩ trivial
  have h₁₁ := run_advance h₁₀ () ⟨rfl, trivial⟩ trivial
  have h₁₂ := run_advance h₁₁ () ⟨rfl, rfl⟩ trivial
  exact ⟨_, rfl, reads_of_run (fun _ => []) h₁₂⟩

end ShmBytes
end MiniRos2

import MiniRos2.ShmHandle
/-!
# ShmLife — one `SharedMemory` object from its constructor to its destructor

A life is a constructor, calls on the object with what other processes do to the name space between them, and the
destructor.  It is as it should be (`Kept`) when `Create` and `Open` return true only with the region of the name mapped
and its descriptor open, and when every descriptor and mapping has been released exactly once in the end.  Calls keep
the account (`Good`) until one of them forgets a descriptor, and a forgotten descriptor is never closed
(`Forgotten.not_kept`).
-/
namespace MiniRos2
namespace ShmLife

/-- `gone`: the name of an owner was taken away, by its own `Unlink` or by another process. -/
structure Life where
  handle : ShmHandle
  kernel : Kernel
  gone : Bool

/-- The calls on the object, and what other processes do between them. -/
inductive Act where
  | create (o : Outcomes)
  | open_ (o : Outcomes)
  | close
  | unlink (ok : Bool)
  | exists_ (ok : Bool)
  | otherCreate (name : List UInt8) (r : Region)
  | otherUnlink (name : List UInt8)
  | otherStore (obj : Nat) (r : Region)

/-- `Create` and `Open`. -/
def Act.maps : Act → Bool
  | .create _ => true
  | .open_ _ => true
  | _ => false

/-- What the call returns, and the state after it. -/
def step (w : Life) : Act → Bool × Life
  | .create o =>
    let (b, h, k) := w.handle.create w.kernel o
    (b, ⟨h, k, w.gone⟩)
  | .open_ o =>
    let (b, h, k) := w.handle.open_ w.kernel o
    (b, ⟨h, k, w.gone⟩)
  | .close =>
    let (h, k) := w.handle.close w.kernel
    (true, ⟨h, k, w.gone⟩)
  | .unlink ok =>
    let (b, k) := w.handle.unlink w.kernel ok
    (b, ⟨w.handle, k, w.gone || b⟩)
  | .exists_ ok =>
    let (b, k) := ShmHandle.exists_ w.handle.name_ w.kernel ok
    (b, ⟨w.handle, k, w.gone⟩)
  | .otherCreate name r =>
    match w.kernel.sp.create name r with
    | none => (false, w)
    | some (_, sp) => (true, ⟨w.handle, { w.kernel with sp }, w.gone⟩)
  | .otherUnlink name =>
    (true, ⟨w.handle, { w.kernel with sp := w.kernel.sp.unlink name },
      w.gone || (w.handle.is_owner_ && decide (name = w.handle.name_))⟩)
  | .otherStore obj r => (true, ⟨w.handle, { w.kernel with sp := w.kernel.sp.put obj r }, w.gone⟩)

/-! ## What should hold -/

/-- `fd_` is open on the region, and `data_` is a live mapping of it with `size_` bytes. -/
def Mapped (h : ShmHandle) (k : Kernel) (obj : Nat) : Prop :=
  ∃ fd m, h.fd_ = some fd ∧ h.data_ = .mapped m ∧ k.fds.Live fd obj ∧ k.maps.Live m (obj, h.size_)

/-- **The region that has the name is mapped.** -/
def Consistent (w : Life) : Prop :=
  ∃ obj, Mapped w.handle w.kernel obj ∧ w.kernel.sp.lookup w.handle.name_ = some obj

/-- **Every descriptor and every mapping was released exactly once.** -/
def Released (k : Kernel) : Prop := k.fds.Settled ∧ k.maps.Settled

/-- The calls `as` and then the destructor. -/
def Kept (w : Life) : List Act → Prop
  | [] => ∀ ok, Released (w.handle.destroy w.kernel ok)
  | a :: as => (a.maps = true → (step w a).1 = true → Consistent (step w a).2) ∧ Kept (step w a).2 as

/-- `Create` and `Open` are for an object that has nothing open, or for an owner that is still open and whose name is
still there. -/
def Act.Proper (w : Life) (a : Act) : Prop :=
  a.maps = true → (w.handle.is_owner_ = true → w.handle.fd_ ≠ none ∧ w.gone = false) ∧
    (w.handle.is_owner_ = false → w.handle.fd_ = none)

def Proper (w : Life) : List Act → Prop
  | [] => True
  | a :: as => a.Proper w ∧ Proper (step w a).2 as

theorem step_of_owner {w : Life} {a : Act} (ho : w.handle.is_owner_ = true) (hm : a.maps = true) :
    step w a = (true, w) := by
  cases a with
  | create o =>
    have hsame : w.handle.create w.kernel o = (true, w.handle, w.kernel) := if_pos ho
    rw [step, hsame]
  | open_ o =>
    have hsame : w.handle.open_ w.kernel o = (true, w.handle, w.kernel) := if_pos ho
    rw [step, hsame]
  | _ => cases hm

theorem step_of_not_owner {w : Life} {a : Act} (ho : w.handle.is_owner_ = false) (hm : a.maps = true) :
    ∃ r, ShmHandle.Attempt w.handle w.kernel r ∧ step w a = (r.1, ⟨r.2.1, r.2.2, w.gone⟩) := by
  cases a with
  | create o => exact ⟨_, ShmHandle.attempt_create w.kernel o ho, rfl⟩
  | open_ o => exact ⟨_, ShmHandle.attempt_open w.kernel o ho, rfl⟩
  | _ => cases hm

/-! ## The account of an object -/

/-- **The object holds the one descriptor and the one mapping still to be released**, or none of either. -/
structure Good (w : Life) : Prop where
  fds : w.kernel.fds.Accounts w.handle.fd_.toList
  maps : w.kernel.maps.Accounts w.handle.data_.held
  paired : (w.handle.fd_ = none ∧ w.handle.data_.held = []) ∨ ∃ obj, Mapped w.handle w.kernel obj
  owned : w.handle.is_owner_ = true → ∃ obj, obj < w.kernel.sp.next ∧
    (w.gone = false ↔ w.kernel.sp.lookup w.handle.name_ = some obj) ∧
      ∀ fd, w.handle.fd_ = some fd → w.kernel.fds.Live fd obj
  still : w.handle.is_owner_ = false → w.gone = false

variable {w : Life}

theorem Good.held_of_closed (hg : Good w) (hfd : w.handle.fd_ = none) : w.handle.data_.held = [] := by
  rcases hg.paired with h | ⟨obj, fd, m, hsome, -⟩
  · exact h.2
  · rw [hfd] at hsome
    cases hsome

theorem Good.consistent (hg : Good w) (ho : w.handle.is_owner_ = true) (hfd : w.handle.fd_ ≠ none)
    (hgone : w.gone = false) : Consistent w := by
  rcases hg.paired with h | ⟨obj, hm⟩
  · exact absurd h.1 hfd
  · obtain ⟨obj', -, hiff, hlive⟩ := hg.owned ho
    refine ⟨obj, hm, ?_⟩
    obtain ⟨fd, m, hsome, -, hfd', -⟩ := hm
    rw [hiff.1 hgone, (hlive fd hsome).unique hfd']

/-- **An object with nothing open** has a good account when nothing is left to release. -/
theorem good_of_closed {h : ShmHandle} {k : Kernel} {gone : Bool} (hfd : h.fd_ = none) (hheld : h.data_.held = [])
    (hfds : k.fds.Accounts []) (hmaps : k.maps.Accounts [])
    (howned : h.is_owner_ = true → ∃ obj, obj < k.sp.next ∧ (gone = false ↔ k.sp.lookup h.name_ = some obj))
    (hstill : h.is_owner_ = false → gone = false) : Good ⟨h, k, gone⟩ := by
  refine ⟨?_, ?_, .inl ⟨hfd, hheld⟩, fun ho => ?_, hstill⟩
  · show k.fds.Accounts h.fd_.toList
    rw [hfd]
    exact hfds
  · show k.maps.Accounts h.data_.held
    rw [hheld]
    exact hmaps
  · obtain ⟨obj, hlt, hiff⟩ := howned ho
    refine ⟨obj, hlt, hiff, fun fd hsome => ?_⟩
    cases hfd.symm.trans hsome

/-- **`Create` and `Open` on an object with nothing open** keep the account. -/
theorem Good.attempt (hg : Good w) (ho : w.handle.is_owner_ = false) (hfd : w.handle.fd_ = none)
    {r : Bool × ShmHandle × Kernel} (hr : ShmHandle.Attempt w.handle w.kernel r) :
    Good ⟨r.2.1, r.2.2, w.gone⟩ ∧ (r.1 = true → Consistent ⟨r.2.1, r.2.2, w.gone⟩) := by
  have hfds := hg.fds
  have hmaps := hg.maps
  have hheld := hg.held_of_closed hfd
  rw [hfd] at hfds
  rw [hheld] at hmaps
  cases hr with
  | refused =>
    exact ⟨good_of_closed rfl hheld hfds hmaps (fun h => absurd (ho.symm.trans h) Bool.false_ne_true) hg.still,
      fun h => nomatch h⟩
  | @undone obj data_ sp h' h'' k' k'' hd hh hk hh' hfds' hmaps' =>
    have hnil : h'.data_.held = [] := by
      rw [hh]
      rcases hd with rfl | rfl
      · exact hheld
      · rfl
    have hf : k''.fds.Accounts [] := by
      rw [hfds', ShmHandle.fds_close, hh, hk]
      exact hfds.brief obj
    have hm : k''.maps.Accounts [] := by
      rw [hmaps', ShmHandle.maps_close_of_held _ hnil, hk]
      exact hmaps
    have ho' : h''.is_owner_ = false := by rw [hh', ShmHandle.close_is_owner, hh, ho]
    exact ⟨good_of_closed (by rw [hh', ShmHandle.close_fd]) (by rw [hh', ShmHandle.close_held]) hf hm
      (fun h => absurd (ho'.symm.trans h) Bool.false_ne_true) (fun _ => hg.still ho), fun h => nomatch h⟩
  | @mapped obj sp own hl hown =>
    have hm : Mapped { w.handle with fd_ := some (w.kernel.fds.acquire obj).1,
                                     data_ := .mapped (w.kernel.maps.acquire (obj, w.handle.size_)).1,
                                     is_owner_ := own }
        ⟨sp, (w.kernel.fds.acquire obj).2, (w.kernel.maps.acquire (obj, w.handle.size_)).2⟩ obj :=
      ⟨_, _, rfl, rfl, hfds.live_acquire obj, hmaps.live_acquire _⟩
    refine ⟨⟨hfds.acquire obj, hmaps.acquire _, .inr ⟨obj, hm⟩, fun h => ?_, fun _ => hg.still ho⟩,
      fun _ => ⟨obj, hm, hl⟩⟩
    refine ⟨obj, hown h, iff_of_true (hg.still ho) hl, fun fd hsome => ?_⟩
    cases hsome
    exact hfds.live_acquire obj

theorem Good.close (hg : Good w) : Good (step w .close).2 := by
  have hfds := hg.fds
  have hmaps := hg.maps
  have hf : (w.handle.close w.kernel).2.fds.Accounts [] := by
    rw [ShmHandle.fds_close]
    cases hfd : w.handle.fd_ with
    | none =>
      rw [hfd] at hfds
      exact hfds
    | some fd =>
      rw [hfd] at hfds
      exact hfds.release List.not_mem_nil
  have hm : (w.handle.close w.kernel).2.maps.Accounts [] := by
    rcases hg.paired with ⟨-, hheld⟩ | ⟨obj, fd, m, -, hd, -, hlive⟩
    · rw [ShmHandle.maps_close_of_held _ hheld, ← hheld]
      exact hmaps
    · rw [hd] at hmaps
      rw [ShmHandle.maps_close_of_mapped hd hlive]
      exact hmaps.release List.not_mem_nil
  have ho : (w.handle.close w.kernel).1.is_owner_ = w.handle.is_owner_ := ShmHandle.close_is_owner _ _
  show Good ⟨(w.handle.close w.kernel).1, (w.handle.close w.kernel).2, w.gone⟩
  refine good_of_closed (ShmHandle.close_fd _ _) (ShmHandle.close_held _ _) hf hm (fun h => ?_)
    (fun h => hg.still (ho.symm.trans h))
  rw [ShmHandle.sp_close, ShmHandle.close_name]
  obtain ⟨obj, hlt, hiff, -⟩ := hg.owned (ho.symm.trans h)
  exact ⟨obj, hlt, hiff⟩

/-- A step that leaves the object and its mappings alone. -/
theorem Good.other (hg : Good w) {k : Kernel} {gone : Bool} (hmaps : k.maps = w.kernel.maps)
    (hfds : ∀ held, w.kernel.fds.Accounts held → k.fds.Accounts held)
    (hlive : ∀ fd obj, w.kernel.fds.Live fd obj → k.fds.Live fd obj)
    (hstill : w.handle.is_owner_ = false → w.gone = false → gone = false)
    (howned : ∀ obj, obj < w.kernel.sp.next → (w.gone = false ↔ w.kernel.sp.lookup w.handle.name_ = some obj) →
      w.handle.is_owner_ = true → obj < k.sp.next ∧ (gone = false ↔ k.sp.lookup w.handle.name_ = some obj)) :
    Good ⟨w.handle, k, gone⟩ := by
  refine ⟨hfds _ hg.fds, ?_, ?_, fun ho => ?_, fun ho => hstill ho (hg.still ho)⟩
  · show k.maps.Accounts _
    rw [hmaps]
    exact hg.maps
  · rcases hg.paired with h | ⟨obj, fd, m, hfd, hd, hl, hm⟩
    · exact .inl h
    · exact .inr ⟨obj, fd, m, hfd, hd, hlive fd obj hl, by rw [hmaps]; exact hm⟩
  · obtain ⟨obj, hlt, hiff, hl⟩ := hg.owned ho
    obtain ⟨hlt', hiff'⟩ := howned obj hlt hiff ho
    exact ⟨obj, hlt', hiff', fun fd hfd => hlive fd obj (hl fd hfd)⟩

theorem Good.unlink (hg : Good w) (ok : Bool) : Good (step w (.unlink ok)).2 := by
  show Good ⟨w.handle, (w.handle.unlink w.kernel ok).2, w.gone || (w.handle.unlink w.kernel ok).1⟩
  unfold ShmHandle.unlink Kernel.shmUnlink
  split
  · rename_i ho
    split
    · refine hg.other rfl (fun _ h => h) (fun _ _ h => h) (fun h => absurd (h.symm.trans ho) Bool.false_ne_true)
        (fun obj hlt _ _ => ⟨hlt, ?_⟩)
      rw [Bool.or_true]
      refine iff_of_false Bool.true_eq_false.mp (fun hsome => ?_)
      rw [Posix.Space.lookup_unlink_self] at hsome
      cases hsome
    · rw [Bool.or_false]
      exact hg
  · rw [Bool.or_false]
    exact hg

theorem Good.exists_ (hg : Good w) (ok : Bool) : Good (step w (.exists_ ok)).2 := by
  show Good ⟨w.handle, (ShmHandle.exists_ w.handle.name_ w.kernel ok).2, w.gone⟩
  unfold ShmHandle.exists_
  rcases w.kernel.shmOpen_cases w.handle.name_ ok with heq | ⟨obj, -, heq⟩
  · rw [heq]
    exact hg
  · rw [heq]
    exact hg.other rfl (fun _ h => h.brief obj) (fun _ _ h => (h.acquire obj).release (h.pending.ne_acquire obj))
      (fun _ h => h) (fun obj hlt hiff _ => ⟨hlt, hiff⟩)

theorem Good.otherCreate (hg : Good w) (name : List UInt8) (r : Region) : Good (step w (.otherCreate name r)).2 := by
  rw [step]
  split
  · exact hg
  · rename_i obj sp hcreate
    obtain ⟨hfree, hobj, hnext, hself, -, hother, -⟩ := Posix.Space.create_eq_some hcreate
    refine hg.other rfl (fun _ h => h) (fun _ _ h => h) (fun _ h => h) (fun obj' hlt hiff _ => ⟨?_, ?_⟩)
    · show obj' < sp.next
      omega
    · show w.gone = false ↔ sp.lookup w.handle.name_ = some obj'
      by_cases hname : w.handle.name_ = name
      · -- a region made now is not the one the owner made
        rw [hname, hself]
        rw [hname, hfree] at hiff
        refine iff_of_false (fun h => nomatch hiff.1 h) (fun h => ?_)
        cases h
        omega
      · rw [hother _ hname]
        exact hiff

theorem Good.otherUnlink (hg : Good w) (name : List UInt8) : Good (step w (.otherUnlink name)).2 := by
  refine hg.other rfl (fun _ h => h) (fun _ _ h => h) (fun ho hgone => ?_) (fun obj hlt hiff ho => ⟨hlt, ?_⟩)
  · rw [ho, hgone]
    rfl
  · show (w.gone || (w.handle.is_owner_ && decide (name = w.handle.name_))) = false ↔
      (w.kernel.sp.unlink name).lookup w.handle.name_ = some obj
    by_cases hname : name = w.handle.name_
    · rw [hname, Posix.Space.lookup_unlink_self, ho, decide_eq_true rfl, Bool.and_true, Bool.or_true]
      exact iff_of_false Bool.true_eq_false.mp (fun h => nomatch h)
    · rw [Posix.Space.lookup_unlink_of_ne _ (Ne.symm hname), decide_eq_false hname, Bool.and_false, Bool.or_false]
      exact hiff

/-- **One step under the condition** keeps the account, and `Create` and `Open` return true as they should. -/
theorem Good.step (hg : Good w) {a : Act} (hp : a.Proper w) :
    Good (step w a).2 ∧ (a.maps = true → (step w a).1 = true → Consistent (step w a).2) := by
  cases hm : a.maps with
  | false =>
    refine ⟨?_, fun h => nomatch h⟩
    cases a with
    | create o => cases hm
    | open_ o => cases hm
    | close => exact hg.close
    | unlink ok => exact hg.unlink ok
    | exists_ ok => exact hg.exists_ ok
    | otherCreate name r => exact hg.otherCreate name r
    | otherUnlink name => exact hg.otherUnlink name
    | otherStore obj r =>
      exact hg.other rfl (fun _ h => h) (fun _ _ h => h) (fun _ h => h) (fun _ hlt hiff _ => ⟨hlt, hiff⟩)
  | true =>
    obtain ⟨hown, hclosed⟩ := hp hm
    cases ho : w.handle.is_owner_ with
    | true =>
      rw [step_of_owner ho hm]
      exact ⟨hg, fun _ _ => hg.consistent ho (hown ho).1 (hown ho).2⟩
    | false =>
      obtain ⟨r, hr, heq⟩ := step_of_not_owner ho hm
      obtain ⟨hgood, hret⟩ := hg.attempt ho (hclosed ho) hr
      rw [heq]
      exact ⟨hgood, fun _ => hret⟩

theorem unlink_released {h : ShmHandle} {k : Kernel} (ok : Bool) :
    Released (if h.is_owner_ then (h.unlink k ok).2 else k) ↔ Released k := by
  split
  · unfold Released
    rw [ShmHandle.fds_unlink, ShmHandle.maps_unlink]
  · rfl

/-- **The destructor releases what the object holds.** -/
theorem Good.destroy (hg : Good w) (ok : Bool) : Released (w.handle.destroy w.kernel ok) := by
  have hclosed : ∀ {w : Life}, Good w → w.handle.fd_ = none → Released w.kernel := fun {w} hg hfd => by
    have hfds := hg.fds
    have hmaps := hg.maps
    rw [hfd] at hfds
    rw [hg.held_of_closed hfd] at hmaps
    exact ⟨Ledger.accounts_nil_iff.1 hfds, Ledger.accounts_nil_iff.1 hmaps⟩
  unfold ShmHandle.destroy
  split
  rename_i heq
  rw [unlink_released]
  split at heq
  · cases heq
    exact hclosed hg.close (ShmHandle.close_fd _ _)
  · rename_i hne
    cases heq
    refine hclosed hg ?_
    rcases hg.paired with h | ⟨_, _, m, _, hd, _⟩
    · exact h.1
    · exact absurd hd (hne m)

/-! ## A forgotten descriptor -/

/-- The descriptor is open, and the object does not know it. -/
def Forgotten (w : Life) (fd : Nat) : Prop := w.kernel.fds.Pending fd ∧ w.handle.fd_ ≠ some fd

theorem forgotten_attempt {fd : Nat} (hp : w.kernel.fds.Pending fd) {r : Bool × ShmHandle × Kernel}
    (hr : ShmHandle.Attempt w.handle w.kernel r) : Forgotten ⟨r.2.1, r.2.2, w.gone⟩ fd := by
  cases hr with
  | refused => exact ⟨hp, fun h => nomatch h⟩
  | @undone obj data_ sp h' h'' k' k'' hd hh hk hh' hfds hmaps =>
    refine ⟨?_, ?_⟩
    · show k''.fds.Pending fd
      rw [hfds, ShmHandle.fds_close, hh, hk]
      exact (hp.acquire obj).release (hp.ne_acquire obj)
    · show h''.fd_ ≠ some fd
      rw [hh', ShmHandle.close_fd]
      exact fun h => nomatch h
  | mapped hl hown => exact ⟨hp.acquire _, fun h => hp.ne_acquire _ (Option.some.inj h).symm⟩

theorem forgotten_close {fd : Nat} (hf : Forgotten w fd) (gone : Bool) :
    Forgotten ⟨(w.handle.close w.kernel).1, (w.handle.close w.kernel).2, gone⟩ fd := by
  refine ⟨?_, ?_⟩
  · show (w.handle.close w.kernel).2.fds.Pending fd
    rw [ShmHandle.fds_close]
    cases hfd : w.handle.fd_ with
    | none => exact hf.1
    | some fd' => exact hf.1.release (fun h => hf.2 (by rw [hfd, h]))
  · show (w.handle.close w.kernel).1.fd_ ≠ some fd
    rw [ShmHandle.close_fd]
    exact fun h => nomatch h

theorem Forgotten.of_fds {fd : Nat} (hf : Forgotten w fd) {k : Kernel} (gone : Bool) (hk : k.fds = w.kernel.fds) :
    Forgotten ⟨w.handle, k, gone⟩ fd := ⟨by show k.fds.Pending fd; rw [hk]; exact hf.1, hf.2⟩

/-- **A forgotten descriptor stays forgotten.** -/
theorem Forgotten.step {fd : Nat} (hf : Forgotten w fd) (a : Act) : Forgotten (step w a).2 fd := by
  cases hm : a.maps with
  | true =>
    cases ho : w.handle.is_owner_ with
    | true =>
      rw [step_of_owner ho hm]
      exact hf
    | false =>
      obtain ⟨r, hr, heq⟩ := step_of_not_owner ho hm
      rw [heq]
      exact forgotten_attempt hf.1 hr
  | false =>
    cases a with
    | create o => cases hm
    | open_ o => cases hm
    | close => exact forgotten_close hf w.gone
    | unlink ok => exact hf.of_fds _ (ShmHandle.fds_unlink _ _ _)
    | exists_ ok =>
      show Forgotten ⟨w.handle, (ShmHandle.exists_ w.handle.name_ w.kernel ok).2, w.gone⟩ fd
      unfold ShmHandle.exists_
      rcases w.kernel.shmOpen_cases w.handle.name_ ok with heq | ⟨obj, -, heq⟩
      · rw [heq]
        exact hf
      · rw [heq]
        exact ⟨(hf.1.acquire obj).release (hf.1.ne_acquire obj), hf.2⟩
    | otherCreate name r =>
      rw [ShmLife.step]
      split
      · exact hf
      · exact hf.of_fds _ rfl
    | otherUnlink name => exact hf.of_fds _ rfl
    | otherStore obj r => exact hf.of_fds _ rfl

theorem Forgotten.not_released {fd : Nat} (hf : Forgotten w fd) (ok : Bool) :
    ¬ Released (w.handle.destroy w.kernel ok) := by
  unfold ShmHandle.destroy
  split
  rename_i heq
  rw [unlink_released]
  split at heq
  · cases heq
    exact fun h => (forgotten_close hf w.gone).1.not_settled h.1
  · cases heq
    exact fun h => hf.1.not_settled h.1

/-- **Nothing closes a forgotten descriptor**, whatever is called on the object: by induction on the calls. -/
theorem Forgotten.not_kept {fd : Nat} : ∀ {as : List Act} {w : Life}, Forgotten w fd → ¬ Kept w as
  | [], _, hf, hk => hf.not_released true (hk true)
  | a :: _, _, hf, hk => (hf.step a).not_kept hk.2

/-- **A call that does not meet the condition** returns true without the mapping, or forgets the descriptor. -/
theorem Good.proper_of_kept (hg : Good w) {a : Act} {as : List Act} (hk : Kept w (a :: as)) : a.Proper w := by
  intro hmaps
  refine ⟨fun ho => ?_, fun ho => ?_⟩
  · have hret := hk.1 hmaps
    rw [step_of_owner ho hmaps] at hret
    obtain ⟨obj, ⟨fd, m, hfd, -, hlive, -⟩, hl⟩ := hret rfl
    obtain ⟨obj', -, hiff, hlive'⟩ := hg.owned ho
    have hopen : w.handle.fd_ ≠ none := fun hnone => by cases hfd.symm.trans hnone
    refine ⟨hopen, hiff.2 ?_⟩
    rw [← hlive.unique (hlive' fd hfd)]
    exact hl
  · rcases hg.paired with h | ⟨obj, fd, m, -, -, hlive, -⟩
    · exact h.1
    · obtain ⟨r, hr, heq⟩ := step_of_not_owner ho hmaps
      have hrest := hk.2
      rw [heq] at hrest
      exact absurd hrest (forgotten_attempt hlive.pending hr).not_kept

/-- **When an object with a good account is as it should be**: exactly when every call meets the condition. -/
theorem Good.kept_iff : ∀ {as : List Act} {w : Life}, Good w → (Kept w as ↔ Proper w as)
  | [], _, hg => ⟨fun _ => trivial, fun _ ok => hg.destroy ok⟩
  | a :: as, w, hg => by
    constructor
    · intro hk
      have hp := hg.proper_of_kept hk
      exact ⟨hp, (hg.step hp).1.kept_iff.1 hk.2⟩
    · rintro ⟨hp, hps⟩
      exact ⟨(hg.step hp).2, (hg.step hp).1.kept_iff.2 hps⟩

/-! ## The constructors -/

inductive Ctor where
  | ofSize (name : List UInt8) (size : Nat)
  | ofName (name : List UInt8) (o : Outcomes)

def Ctor.run (sp : ShmSpace) : Ctor → Except Abort ShmHandle × Kernel
  | .ofSize name size => (ShmHandle.ofSize name size, .start sp)
  | .ofName name o => ShmHandle.ofName name (.start sp) o

/-- **The whole life is as it should be**: what a constructor that throws has obtained is released before. -/
def Ctor.Kept (sp : ShmSpace) (c : Ctor) (as : List Act) : Prop :=
  match c.run sp with
  | (.error _, k) => Released k
  | (.ok h, k) => ShmLife.Kept ⟨h, k, false⟩ as

/-- The object is made with a size and its calls meet the condition, or the constructor with a name alone obtains no
descriptor. -/
def Ctor.Proper (sp : ShmSpace) : Ctor → List Act → Prop
  | .ofSize name size, as => ∀ h, ShmHandle.ofSize name size = .ok h → ShmLife.Proper ⟨h, .start sp, false⟩ as
  | .ofName name o, _ => name.head? ≠ some 47 ∨ sp.lookup name = none ∨ o.exists_ = false ∨ o.shm_open = false

theorem released_start (sp : ShmSpace) : Released (.start sp) :=
  ⟨Ledger.accounts_nil_iff.1 .empty, Ledger.accounts_nil_iff.1 .empty⟩

theorem good_ofSize {name : List UInt8} {size : Nat} {h : ShmHandle} (hh : ShmHandle.ofSize name size = .ok h)
    (sp : ShmSpace) : Good ⟨h, .start sp, false⟩ := by
  unfold ShmHandle.ofSize at hh
  split at hh <;> cases hh
  exact good_of_closed rfl rfl .empty .empty (fun ho => nomatch ho) (fun _ => rfl)

/-- **The constructor with a name alone** throws before it has a descriptor to keep. -/
theorem ofName_of_proper {sp : ShmSpace} {name : List UInt8} {o : Outcomes} {as : List Act}
    (hp : Ctor.Proper sp (.ofName name o) as) :
    ∃ e k, (Ctor.ofName name o).run sp = (.error e, k) ∧ Released k := by
  show ∃ e k, ShmHandle.ofName name (.start sp) o = (.error e, k) ∧ Released k
  unfold ShmHandle.ofName
  by_cases hname : name.head? ≠ some 47
  · rw [if_pos hname]
    exact ⟨_, _, rfl, released_start sp⟩
  rw [if_neg hname]
  have hrest := hp.resolve_left hname
  by_cases hex : o.exists_ = false ∨ sp.lookup name = none
  · rw [ShmHandle.exists_of_none (k := .start sp) hex]
    exact ⟨_, _, rfl, released_start sp⟩
  rw [not_or] at hex
  obtain ⟨obj, hl⟩ := Option.ne_none_iff_exists'.1 hex.2
  have hopen : o.shm_open = false := (hrest.resolve_left hex.2).resolve_left hex.1
  rw [Bool.eq_true_of_not_eq_false hex.1, ShmHandle.exists_of_lookup (k := .start sp) hl]
  dsimp only
  rw [Kernel.shmOpen_of_none (.inl hopen)]
  exact ⟨_, _, rfl, Ledger.accounts_nil_iff.1 (Ledger.Accounts.empty.brief obj), Ledger.accounts_nil_iff.1 .empty⟩

/-- **Otherwise it obtains a descriptor that the object does not know.** -/
theorem ofName_of_not_proper {sp : ShmSpace} {name : List UInt8} {o : Outcomes} {as : List Act}
    (hp : ¬ Ctor.Proper sp (.ofName name o) as) :
    ∃ r k fd, (Ctor.ofName name o).run sp = (r, k) ∧ k.fds.Pending fd ∧ ∀ h, r = .ok h → h.fd_ = none := by
  obtain ⟨hname, hp⟩ := not_or.1 hp
  obtain ⟨hlookup, hp⟩ := not_or.1 hp
  obtain ⟨hex, hopen⟩ := not_or.1 hp
  obtain ⟨obj, hl⟩ := Option.ne_none_iff_exists'.1 hlookup
  show ∃ r k fd, ShmHandle.ofName name (.start sp) o = (r, k) ∧ k.fds.Pending fd ∧ ∀ h, r = .ok h → h.fd_ = none
  unfold ShmHandle.ofName
  rw [if_neg hname, Bool.eq_true_of_not_eq_false hex, ShmHandle.exists_of_lookup (k := .start sp) hl]
  dsimp only
  rw [Bool.eq_true_of_not_eq_false hopen, Kernel.shmOpen_of_lookup hl]
  dsimp only
  have hlive := (Ledger.Accounts.empty.brief obj).live_acquire obj
  split
  · exact ⟨_, _, _, rfl, hlive.pending, fun h he => nomatch he⟩
  · refine ⟨_, _, _, rfl, hlive.pending, fun h he => ?_⟩
    cases he
    rfl

theorem kept_iff_ofName (sp : ShmSpace) (name : List UInt8) (o : Outcomes) (as : List Act) :
    Ctor.Kept sp (.ofName name o) as ↔ Ctor.Proper sp (.ofName name o) as := by
  by_cases hp : Ctor.Proper sp (.ofName name o) as
  · obtain ⟨e, k, heq, hrel⟩ := ofName_of_proper hp
    refine iff_of_true ?_ hp
    unfold Ctor.Kept
    rw [heq]
    exact hrel
  · obtain ⟨r, k, fd, heq, hpend, hnone⟩ := ofName_of_not_proper hp
    refine iff_of_false (fun hk => ?_) hp
    unfold Ctor.Kept at hk
    rw [heq] at hk
    cases r with
    | error e => exact hpend.not_settled hk.1
    | ok h =>
      have hf : Forgotten ⟨h, k, false⟩ fd := ⟨hpend, by rw [hnone h rfl]; exact fun h => nomatch h⟩
      exact hf.not_kept hk

/-- **When a `SharedMemory` object is as it should be over its whole life.** -/
theorem life_kept_iff (sp : ShmSpace) (c : Ctor) (as : List Act) : c.Kept sp as ↔ c.Proper sp as := by
  cases c with
  | ofName name o => exact kept_iff_ofName sp name o as
  | ofSize name size =>
    unfold Ctor.Kept Ctor.run Ctor.Proper
    dsimp only
    cases hh : ShmHandle.ofSize name size with
    | error e => exact iff_of_true (released_start sp) (fun h he => nomatch he)
    | ok h =>
      constructor
      · intro hk h' he
        cases he
        exact (good_ofSize hh sp).kept_iff.1 hk
      · intro hp
        exact (good_ofSize hh sp).kept_iff.2 (hp h rfl)

/-- An owner that was closed answers that it is there, and the constructor with a name alone leaves its descriptor
open. -/
theorem lives_not_kept :
    ¬ Ctor.Kept ⟨fun _ => none, fun _ => Region.fresh 0, 0⟩ (.ofSize [47, 97] 16) [.create .all, .close, .create .all] ∧
      ¬ Ctor.Kept ⟨fun _ => some 0, fun _ => Region.fresh 16, 1⟩ (.ofName [47, 97] .all) [] := by
  refine ⟨fun h => ?_, fun h => ?_⟩
  · obtain ⟨obj, ⟨fd, m, hfd, -⟩, -⟩ := h.2.2.1 rfl rfl
    cases hfd
  · exact absurd ((h true).1 1) (by decide)

end ShmLife
end MiniRos2

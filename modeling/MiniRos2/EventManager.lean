import MiniRos2.Basic
import MiniRos2.Lib.BlockVec
import MiniRos2.Lib.Trans
/-!
# EventManager — addresses into `event_sources_`

`addEventSource` gives epoll the address of the element it has just appended, and `run` goes to this address when the
descriptor is readable.  A later insertion that moves the vector leaves every registration behind, and a removal moves
the elements that follow under the addresses of their predecessors.  The right callbacks are called exactly as long as
the vector never moves while something is registered and only its last element is removed (`right_of_run`).
-/
namespace MiniRos2

open BlockVec (Addr)

variable {γ : Type}

/-- The members that `EventManager` reads; an empty `std::function` is `none`. -/
@[ext] structure EventSource (γ : Type) where
  efd : Int
  callback : Option γ

/-- `epoll` is what `epoll_fd_` has registered: `ev.data.ptr` for each descriptor. -/
structure EventManager (γ : Type) where
  event_sources_ : BlockVec (EventSource γ)
  epoll : Int → Option Addr

namespace EventManager

def empty : EventManager γ := ⟨BlockVec.empty, fun _ => none⟩

/-- `addEventSource` of a descriptor that `fcntl` knows; `capacity` is for the case that the vector grows. -/
def addEventSource (m : EventManager γ) (source : EventSource γ) (capacity : Nat) : Bool × EventManager γ :=
  if source.callback.isNone then (false, m)
  else
    let sources := m.event_sources_.push source capacity
    match m.epoll source.efd with
    | some _ => (false, { m with event_sources_ := sources.pop })
    | none => (true, ⟨sources, Function.update m.epoll source.efd (some sources.back)⟩)

def removeEventSource (m : EventManager γ) (efd : Int) : Bool × EventManager γ :=
  match m.event_sources_.items.findIdx? (fun src => src.efd == efd) with
  | none => (false, m)
  | some i =>
    match m.epoll efd with
    | none => (false, m)
    | some _ => (true, ⟨m.event_sources_.erase i, Function.update m.epoll efd none⟩)

/-- One turn of the loop over the ready events: the descriptor that is read, and the callback. -/
def handle (m : EventManager γ) (ptr : Addr) : Except Abort (Int × Option γ) :=
  match m.event_sources_.deref ptr with
  | none => .error .undefined
  | some src => .ok (src.efd, src.callback)

/-- **`run`** behind one `epoll_wait` that reports the descriptors `ready`. -/
def run (m : EventManager γ) (ready : List Int) : Except Abort (List (Int × Option γ)) :=
  (ready.filterMap m.epoll).mapM m.handle

end EventManager

/-- A manager, and the callback that was given for each registered descriptor. -/
structure Managed (γ : Type) where
  mgr : EventManager γ
  given : Int → Option γ

inductive SourceAct (γ : Type) where
  | add (source : EventSource γ) (capacity : Nat)
  | remove (efd : Int)

/-- **One successful call.** -/
inductive SourceAct.Step (s : Managed γ) : SourceAct γ → Managed γ → Prop where
  | add {source : EventSource γ} {capacity : Nat} {m : EventManager γ} :
      s.mgr.event_sources_.items.length < capacity → s.mgr.addEventSource source capacity = (true, m) →
      Step s (.add source capacity) ⟨m, Function.update s.given source.efd source.callback⟩
  | remove {efd : Int} {m : EventManager γ} : s.mgr.removeEventSource efd = (true, m) →
      Step s (.remove efd) ⟨m, Function.update s.given efd none⟩

namespace Managed

def init : Managed γ := ⟨EventManager.empty, fun _ => none⟩

/-- **The right callbacks**: of all descriptors that are ready, each is read and its own callback is called. -/
def Right (s : Managed γ) : Prop := ∀ ready : List Int, (∀ fd ∈ ready, s.given fd ≠ none) →
  s.mgr.run ready = .ok (ready.map (fun fd => (fd, s.given fd)))

/-- **The elements stay where they are**: the vector moves only while nothing is registered, and only the last element
is removed. -/
def StaysPut (s : Managed γ) : SourceAct γ → Prop
  | .add _ _ => s.mgr.event_sources_.Room ∨ s.mgr.event_sources_.items = []
  | .remove efd => ∃ src, s.mgr.event_sources_.items.getLast? = some src ∧ src.efd = efd

/-! ## What is registered -/

def descriptors (s : Managed γ) : List Int := s.mgr.event_sources_.items.map EventSource.efd

/-- What every call keeps: the elements of the vector are the registered descriptors, with the callbacks given. -/
structure Ok (s : Managed γ) : Prop where
  nodup : s.descriptors.Nodup
  registered : ∀ fd, s.mgr.epoll fd ≠ none ↔ fd ∈ s.descriptors
  given : ∀ src ∈ s.mgr.event_sources_.items, s.given src.efd = src.callback
  callback : ∀ fd, s.given fd ≠ none ↔ fd ∈ s.descriptors

/-- Every registration leads to the element of its descriptor. -/
def Located (m : EventManager γ) : Prop := ∀ fd p, m.epoll fd = some p →
  ∃ src, m.event_sources_.deref p = some src ∧ src.efd = fd

theorem ok_init : (init : Managed γ).Ok where
  nodup := List.nodup_nil
  registered _ := iff_of_false (fun h => h rfl) List.not_mem_nil
  given _ h := absurd h List.not_mem_nil
  callback _ := iff_of_false (fun h => h rfl) List.not_mem_nil

theorem located_empty : Located (EventManager.empty : EventManager γ) := fun _ _ h => by cases h

/-- An element's position is known by its descriptor. -/
theorem Ok.index_eq {s : Managed γ} (h : s.Ok) {i j : Nat} {a b : EventSource γ}
    (hi : s.mgr.event_sources_.items[i]? = some a) (hj : s.mgr.event_sources_.items[j]? = some b)
    (hab : a.efd = b.efd) : i = j := by
  have hi' : s.descriptors[i]? = some a.efd := by simp [descriptors, hi]
  have hj' : s.descriptors[j]? = some b.efd := by simp [descriptors, hj]
  have hlt : i < s.descriptors.length := (List.getElem?_eq_some_iff.1 hi').1
  exact (List.getElem?_inj hlt h.nodup).1 (by rw [hi', hj', hab])

theorem handle_eq_ok_iff {m : EventManager γ} {p : Addr} {fd : Int} {cb : Option γ} :
    m.handle p = .ok (fd, cb) ↔ m.event_sources_.deref p = some ⟨fd, cb⟩ := by
  unfold EventManager.handle
  cases m.event_sources_.deref p with
  | none => simp
  | some src => simp [EventSource.ext_iff]

theorem run_cons (m : EventManager γ) {fd : Int} {p : Addr} (h : m.epoll fd = some p) (ready : List Int) :
    m.run (fd :: ready) = m.handle p >>= fun r => m.run ready >>= fun rs => .ok (r :: rs) := by
  unfold EventManager.run
  rw [List.filterMap_cons_some h, List.mapM_cons]
  rfl

/-- **The right callbacks are called exactly when every registration leads to its element.** -/
theorem Ok.right_iff {s : Managed γ} (h : s.Ok) : s.Right ↔ Located s.mgr := by
  constructor
  · intro hr fd p hp
    have hfd : s.given fd ≠ none := (h.callback fd).2 ((h.registered fd).1 (by rw [hp]; exact Option.some_ne_none _))
    have hrun := hr [fd] (by simpa using hfd)
    rw [run_cons s.mgr hp] at hrun
    obtain ⟨⟨fd', cb⟩, hhandle, hrest⟩ := Except.bind_eq_ok hrun
    cases hrest
    exact ⟨_, handle_eq_ok_iff.1 hhandle, rfl⟩
  · intro hl ready
    induction ready with
    | nil => exact fun _ => rfl
    | cons fd ready ih =>
      intro hready
      have hfd := hready fd List.mem_cons_self
      obtain ⟨p, hp⟩ := Option.ne_none_iff_exists'.1 ((h.registered fd).2 ((h.callback fd).1 hfd))
      obtain ⟨src, hsrc, rfl⟩ := hl fd p hp
      have hgiven := h.given src (BlockVec.mem_of_deref hsrc)
      have hhandle : s.mgr.handle p = .ok (src.efd, s.given src.efd) := by
        rw [handle_eq_ok_iff, hgiven]
        exact hsrc
      rw [run_cons s.mgr hp, hhandle, Except.ok_bind, ih (fun fd hfd => hready fd (List.mem_cons_of_mem _ hfd)),
        Except.ok_bind]
      rfl

/-! ## What a call did -/

theorem addEventSource_eq_true {m m' : EventManager γ} {source : EventSource γ} {capacity : Nat}
    (h : m.addEventSource source capacity = (true, m')) :
    source.callback ≠ none ∧ m.epoll source.efd = none ∧ m'.event_sources_ = m.event_sources_.push source capacity ∧
      m'.epoll = Function.update m.epoll source.efd (some m'.event_sources_.back) := by
  unfold EventManager.addEventSource at h
  split at h
  · cases h
  · rename_i hcb
    cases hfd : m.epoll source.efd with
    | some p =>
      rw [hfd] at h
      cases h
    | none =>
      rw [hfd] at h
      cases h
      exact ⟨fun hnone => hcb (by simp [hnone]), rfl, rfl, rfl⟩

theorem removeEventSource_eq_true {m m' : EventManager γ} {efd : Int} (h : m.removeEventSource efd = (true, m')) :
    ∃ i src, m.event_sources_.items[i]? = some src ∧ src.efd = efd ∧ m'.event_sources_ = m.event_sources_.erase i ∧
      m'.epoll = Function.update m.epoll efd none := by
  unfold EventManager.removeEventSource at h
  cases hi : m.event_sources_.items.findIdx? (fun src => src.efd == efd) with
  | none =>
    rw [hi] at h
    cases h
  | some i =>
    obtain ⟨hlt, hefd, -⟩ := List.findIdx?_eq_some_iff_getElem.1 hi
    simp only [hi] at h
    cases hfd : m.epoll efd with
    | none =>
      rw [hfd] at h
      cases h
    | some p =>
      rw [hfd] at h
      cases h
      exact ⟨i, _, List.getElem?_eq_getElem hlt, by simpa using hefd, rfl, rfl⟩

/-- The descriptors without the one at a position are those that are not the one there. -/
theorem Ok.erase {s : Managed γ} (h : s.Ok) {i : Nat} {src : EventSource γ}
    (hi : s.mgr.event_sources_.items[i]? = some src) :
    (s.mgr.event_sources_.items.eraseIdx i).map EventSource.efd = s.descriptors.erase src.efd := by
  obtain ⟨hlt, hitem⟩ := List.getElem?_eq_some_iff.1 hi
  have hlt' : i < s.descriptors.length := by simpa [descriptors] using hlt
  have hefd : s.descriptors[i] = src.efd := by simp [descriptors, hitem]
  rw [← hefd, h.nodup.erase_getElem, descriptors, List.eraseIdx_map]

theorem Ok.add {s : Managed γ} (h : s.Ok) {source : EventSource γ} {capacity : Nat} {m : EventManager γ}
    (hadd : s.mgr.addEventSource source capacity = (true, m)) :
    Ok ⟨m, Function.update s.given source.efd source.callback⟩ := by
  obtain ⟨hcb, hfree, hsources, hreg⟩ := addEventSource_eq_true hadd
  have hnew : source.efd ∉ s.descriptors := fun hmem => (h.registered _).2 hmem hfree
  generalize hs' : (⟨m, Function.update s.given source.efd source.callback⟩ : Managed γ) = s'
  have hm : s'.mgr = m := by rw [← hs']
  have hg : s'.given = Function.update s.given source.efd source.callback := by rw [← hs']
  have hitems : s'.mgr.event_sources_.items = s.mgr.event_sources_.items ++ [source] := by
    rw [hm, hsources, BlockVec.items_push]
  have hdesc : s'.descriptors = s.descriptors ++ [source.efd] := by simp [descriptors, hitems]
  have hmem : ∀ fd, fd ∈ s'.descriptors ↔ fd ∈ s.descriptors ∨ fd = source.efd := fun fd => by simp [hdesc]
  constructor
  · rw [hdesc, ← List.concat_eq_append]
    exact h.nodup.concat hnew
  · intro fd
    rw [hmem]
    by_cases hfd : fd = source.efd
    · rw [hfd, hm, hreg, Function.update_self]
      exact iff_of_true (Option.some_ne_none _) (.inr rfl)
    · rw [hm, hreg, Function.update_of_ne hfd, h.registered fd]
      simp [hfd]
  · intro src hsrc
    rw [hitems, List.mem_append, List.mem_singleton] at hsrc
    rcases hsrc with hsrc | rfl
    · have hne : src.efd ≠ source.efd := fun heq => hnew (heq ▸ List.mem_map_of_mem hsrc)
      rw [hg, Function.update_of_ne hne]
      exact h.given src hsrc
    · rw [hg, Function.update_self]
  · intro fd
    rw [hmem]
    by_cases hfd : fd = source.efd
    · rw [hfd, hg, Function.update_self]
      exact iff_of_true hcb (.inr rfl)
    · rw [hg, Function.update_of_ne hfd, h.callback fd]
      simp [hfd]

theorem Ok.remove {s : Managed γ} (h : s.Ok) {efd : Int} {m : EventManager γ}
    (hrem : s.mgr.removeEventSource efd = (true, m)) : Ok ⟨m, Function.update s.given efd none⟩ := by
  obtain ⟨i, src, hi, rfl, hsources, hreg⟩ := removeEventSource_eq_true hrem
  generalize hs' : (⟨m, Function.update s.given src.efd none⟩ : Managed γ) = s'
  have hm : s'.mgr = m := by rw [← hs']
  have hg : s'.given = Function.update s.given src.efd none := by rw [← hs']
  have hitems : s'.mgr.event_sources_.items = s.mgr.event_sources_.items.eraseIdx i := by
    rw [hm, hsources, BlockVec.items_erase]
  have hdesc : s'.descriptors = s.descriptors.erase src.efd := by
    rw [← h.erase hi, ← hitems]
    rfl
  have hmem : ∀ fd, fd ∈ s'.descriptors ↔ fd ≠ src.efd ∧ fd ∈ s.descriptors := fun fd => by
    rw [hdesc]
    exact h.nodup.mem_erase_iff
  constructor
  · rw [hdesc]
    exact h.nodup.erase _
  · intro fd
    rw [hmem]
    by_cases hfd : fd = src.efd
    · rw [hfd, hm, hreg, Function.update_self]
      exact iff_of_false (fun hne => hne rfl) (fun hne => hne.1 rfl)
    · rw [hm, hreg, Function.update_of_ne hfd, h.registered fd]
      simp [hfd]
  · intro src' hsrc'
    have hne : src'.efd ≠ src.efd := ((hmem _).1 (List.mem_map_of_mem hsrc')).1
    rw [hitems] at hsrc'
    rw [hg, Function.update_of_ne hne]
    exact h.given src' (List.mem_of_mem_eraseIdx hsrc')
  · intro fd
    rw [hmem]
    by_cases hfd : fd = src.efd
    · rw [hfd, hg, Function.update_self]
      exact iff_of_false (fun hne => hne rfl) (fun hne => hne.1 rfl)
    · rw [hg, Function.update_of_ne hfd, h.callback fd]
      simp [hfd]

theorem Ok.step {s s' : Managed γ} {a : SourceAct γ} (h : s.Ok) (hs : SourceAct.Step s a s') : s'.Ok := by
  cases hs with
  | add _ hadd => exact h.add hadd
  | remove hrem => exact h.remove hrem

/-! ## Where the registrations lead -/

/-- **An insertion** keeps every registration on its element exactly when the vector stays or had no element. -/
theorem Located.add_iff {s : Managed γ} (h : Located s.mgr) (hok : s.Ok) {source : EventSource γ} {capacity : Nat}
    {m : EventManager γ} (hadd : s.mgr.addEventSource source capacity = (true, m)) :
    Located m ↔ s.mgr.event_sources_.Room ∨ s.mgr.event_sources_.items = [] := by
  obtain ⟨-, hfree, hsources, hepoll⟩ := addEventSource_eq_true hadd
  constructor
  · intro hl
    by_contra hno
    obtain ⟨hroom, hne⟩ := not_or.1 hno
    -- an element that was there is still registered at its old address
    obtain ⟨old, hold⟩ := List.exists_mem_of_ne_nil _ hne
    have hreg := (hok.registered old.efd).2 (List.mem_map_of_mem hold)
    obtain ⟨p, hp⟩ := Option.ne_none_iff_exists'.1 hreg
    obtain ⟨src, hsrc, -⟩ := h _ p hp
    have hfd : old.efd ≠ source.efd := by
      intro heq
      rw [heq, hfree] at hp
      cases hp
    obtain ⟨src', hsrc', -⟩ := hl old.efd p (by rw [hepoll, Function.update_of_ne hfd, hp])
    rw [hsources, BlockVec.deref_push_moved hroom hsrc] at hsrc'
    cases hsrc'
  · intro hstay fd p hp
    rw [hepoll] at hp
    by_cases hfd : fd = source.efd
    · rw [hfd, Function.update_self] at hp
      cases hp
      rw [hsources]
      exact ⟨source, BlockVec.deref_back_push _ _ _, hfd.symm⟩
    · rw [Function.update_of_ne hfd] at hp
      rw [hsources]
      obtain ⟨src, hsrc, hefd⟩ := h fd p hp
      rcases hstay with hroom | hnil
      · exact ⟨src, BlockVec.deref_push_of_room hroom hsrc _ _, hefd⟩
      · have hmem := BlockVec.mem_of_deref hsrc
        rw [hnil] at hmem
        cases hmem

/-- The registration of an element leads to its position. -/
theorem Located.index {s : Managed γ} (h : Located s.mgr) (hok : s.Ok) {i : Nat} {src : EventSource γ}
    (hi : s.mgr.event_sources_.items[i]? = some src) : s.mgr.epoll src.efd = some ⟨s.mgr.event_sources_.block, i⟩ := by
  have hreg := (hok.registered src.efd).2 (List.mem_map_of_mem (List.mem_of_getElem? hi))
  obtain ⟨p, hp⟩ := Option.ne_none_iff_exists'.1 hreg
  obtain ⟨src', hsrc', hefd⟩ := h _ p hp
  obtain ⟨hblock, hitem⟩ := BlockVec.deref_eq_some_iff.1 hsrc'
  rw [hp, ← hblock, ← hok.index_eq hitem hi hefd]

/-- **A removal** keeps every registration on its element exactly when the element was the last. -/
theorem Located.remove_iff {s : Managed γ} (h : Located s.mgr) (hok : s.Ok) {efd : Int} {m : EventManager γ}
    (hrem : s.mgr.removeEventSource efd = (true, m)) :
    Located m ↔ ∃ src, s.mgr.event_sources_.items.getLast? = some src ∧ src.efd = efd := by
  obtain ⟨i, gone, hi, rfl, hsources, hepoll⟩ := removeEventSource_eq_true hrem
  have hlt : i < s.mgr.event_sources_.items.length := (List.getElem?_eq_some_iff.1 hi).1
  constructor
  · intro hl
    by_contra hno
    have hnext : i + 1 < s.mgr.event_sources_.items.length := by
      by_contra hend
      refine hno ⟨gone, ?_, rfl⟩
      rw [List.getLast?_eq_getElem?, show s.mgr.event_sources_.items.length - 1 = i by omega, hi]
    -- the next element has moved to the position of the one that is gone
    have hi' : s.mgr.event_sources_.items[i + 1]? = some s.mgr.event_sources_.items[i + 1] :=
      List.getElem?_eq_getElem hnext
    generalize s.mgr.event_sources_.items[i + 1] = next at hi'
    have hne : next.efd ≠ gone.efd := fun heq => by
      have := hok.index_eq hi' hi heq
      omega
    obtain ⟨src, hsrc, hefd⟩ := hl next.efd _ (by rw [hepoll, Function.update_of_ne hne, h.index hok hi'])
    rw [hsources, BlockVec.deref_erase_of_le _ (Nat.le_succ i)] at hsrc
    have hindex : i + 1 + 1 = i + 1 := hok.index_eq (BlockVec.deref_eq_some_iff.1 hsrc).2 hi' hefd
    omega
  · rintro ⟨last, hlast, hefd⟩ fd p hp
    rw [hepoll] at hp
    have hfd : fd ≠ gone.efd := by
      rintro rfl
      rw [Function.update_self] at hp
      cases hp
    rw [Function.update_of_ne hfd] at hp
    rw [hsources]
    obtain ⟨src, hsrc, hsrcfd⟩ := h fd p hp
    have hitem := (BlockVec.deref_eq_some_iff.1 hsrc).2
    rw [List.getLast?_eq_getElem?] at hlast
    have hend := hok.index_eq hlast hi hefd
    have hbound := (List.getElem?_eq_some_iff.1 hitem).1
    have hne : p.index ≠ i := by
      intro heq
      rw [heq, hi] at hitem
      cases hitem
      exact hfd hsrcfd.symm
    exact ⟨src, (BlockVec.deref_erase_of_lt _ (by omega)).trans hsrc, hsrcfd⟩

/-! ## Runs -/

/-- **One call keeps the right callbacks exactly when the elements stay where they are.** -/
theorem right_step_iff {s s' : Managed γ} {a : SourceAct γ} (hok : s.Ok) (hr : s.Right)
    (hs : SourceAct.Step s a s') : s'.Right ↔ s.StaysPut a := by
  have hl := hok.right_iff.1 hr
  rw [(hok.step hs).right_iff]
  cases hs with
  | add _ hadd => exact hl.add_iff hok hadd
  | remove hrem => exact hl.remove_iff hok hrem

/-- **In every run whose calls leave the elements where they are, the right callbacks are called**; and the first call
that does not ends this. -/
theorem right_of_run {s : Managed γ} {as : List (SourceAct γ)}
    (hrun : Trans.Run SourceAct.Step StaysPut (init : Managed γ) as s) :
    s.Right ∧ ∀ a s', SourceAct.Step s a s' → (s'.Right ↔ s.StaysPut a) := by
  have hinit : (init : Managed γ).Ok ∧ (init : Managed γ).Right := ⟨ok_init, ok_init.right_iff.2 located_empty⟩
  obtain ⟨hok, hr⟩ := hrun.invariant (P := fun s => s.Ok ∧ s.Right) hinit (by
    rintro s a s' ⟨hok, hr⟩ hg hs
    exact ⟨hok.step hs, (right_step_iff hok hr hs).2 hg⟩)
  exact ⟨hr, fun a s' hs => right_step_iff hok hr hs⟩

/-- Two descriptors are added, the second is removed, and a third takes its place. -/
theorem right_of_one : ∃ s : Managed Nat, s.descriptors = [3, 5] ∧ s.given 3 = some 30 ∧ s.given 5 = some 50 ∧
    s.Right := by
  have h₁ : SourceAct.Step (init : Managed Nat) (.add ⟨3, some 30⟩ 2) _ := .add (by decide) rfl
  have hrun : Trans.Run SourceAct.Step StaysPut (init : Managed Nat) [.add ⟨3, some 30⟩ 2] _ := .single (.inr rfl) h₁
  have h₂ := hrun.snoc (a := SourceAct.add ⟨4, some 40⟩ 2) (.inl (by decide)) (.add (by decide) rfl)
  have h₃ := h₂.snoc (a := SourceAct.remove 4) ⟨_, rfl, rfl⟩ (.remove rfl)
  have h₄ := h₃.snoc (a := SourceAct.add ⟨5, some 50⟩ 2) (.inl (by decide)) (.add (by decide) rfl)
  exact ⟨_, rfl, rfl, rfl, (right_of_run h₄).1⟩

/-- One descriptor is registered. -/
def one : Managed Unit :=
  ⟨⟨⟨[⟨3, some ()⟩], 1, 1⟩, Function.update (fun _ => none) 3 (some ⟨1, 0⟩)⟩,
    Function.update (fun _ => none) 3 (some ())⟩

theorem one_added : SourceAct.Step init (.add ⟨3, some ()⟩ 1) one := .add (by decide) rfl

/-- A second descriptor moves the vector, and the address of the first leads nowhere. -/
theorem right_not_always : ¬ ∀ (as : List (SourceAct Unit)) (s : Managed Unit),
    Trans.Run SourceAct.Step Trans.free init as s → s.Right := by
  intro h
  obtain ⟨m, hm⟩ : ∃ m, one.mgr.addEventSource ⟨4, some ()⟩ 2 = (true, m) := ⟨_, rfl⟩
  have hdangling : m.run [3] = .error .undefined := by
    cases hm
    rfl
  have hrun : Trans.Run SourceAct.Step Trans.free init _ _ :=
    (Trans.Run.single trivial one_added).snoc trivial (.add (by decide) hm)
  have hright := h _ _ hrun [3] (by simp [one])
  rw [hdangling] at hright
  cases hright

end Managed

end MiniRos2

import MiniRos2.Lib.Trans
import Mathlib.Logic.Function.Basic
/-!
# Monitor — data under a mutex with a condition variable

Each thread is at a point of a program; the instruction there takes the mutex, gives it back, accesses the data,
waits or notifies, one at a time and in any order among the threads.  To unlock or to wait without the mutex is
undefined.  An `Outline` says of each point whether the mutex is held there and what is then known of the data, and
what is known of it while the mutex is free; when every instruction fits the outline (`Outline.Checks`), the outline is
right in every state reached (`Outline.sound_of_run`).  Nobody sleeps on a condition that holds when whoever makes it
true notifies behind that, and whoever is woken tests it (`wakeful_of_run`).  A thread that is out of its section with
the mutex still its own keeps all others out of theirs forever (`Leaked.of_run`).
-/
namespace Monitor

/-- `struct timespec`. -/
structure Timespec where
  tv_sec : Int
  tv_nsec : Int
  deriving DecidableEq

/-- What `pthread_cond_timedwait` asks of its deadline. -/
def Timespec.Valid (t : Timespec) : Prop := 0 ≤ t.tv_nsec ∧ t.tv_nsec < 1000000000

instance (t : Timespec) : Decidable t.Valid := inferInstanceAs (Decidable (_ ∧ _))

def EINVAL : Nat := 22

def ETIMEDOUT : Nat := 110

/-- **What a thread does at a point of its program**; `next` takes what the call returned. -/
inductive Instr (P σ : Type) where
  /-- The thread is in no call. -/
  | idle
  | lock (next : Nat → P)
  | unlock (next : Nat → P)
  | access (f : σ → σ × P)
  | wait (abstime : Option Timespec) (next : Nat → P)
  | notify (all : Bool) (next : P)

/-- `awake` has what the wait will return, as soon as the mutex is taken again. -/
inductive Phase where
  | running
  | blocked
  | awake (ret : Nat)
  deriving DecidableEq

structure State (κ P σ : Type) where
  owner : Option κ
  shared : σ
  point : κ → P
  phase : κ → Phase
  undefined : Bool

inductive Act (κ P : Type) where
  /-- A thread that is in no call begins one. -/
  | call (k : κ) (p : P)
  /-- A thread does what is at its point, or comes out of its wait. -/
  | step (k : κ) (ret : Nat)
  /-- A wait ends without a reason, or because it is time. -/
  | wake (k : κ) (ret : Nat)

/-- What a wait may return: an error at once when the deadline is not valid. -/
def Returns (abstime : Option Timespec) (ret : Nat) : Prop :=
  ret = 0 ∨ (∃ t, abstime = some t ∧ t.Valid ∧ ret = ETIMEDOUT) ∨ ∃ t, abstime = some t ∧ ¬ t.Valid ∧ ret = EINVAL

/-- The wait has no deadline, or a valid one. -/
def Blocks (abstime : Option Timespec) : Prop := ∀ t, abstime = some t → t.Valid

variable {κ P σ : Type} [DecidableEq κ]

namespace State

def init (shared : σ) (p : P) : State κ P σ := ⟨none, shared, fun _ => p, fun _ => .running, false⟩

def goto (s : State κ P σ) (k : κ) (p : P) : State κ P σ := { s with point := Function.update s.point k p }

def put (s : State κ P σ) (k : κ) (ph : Phase) : State κ P σ := { s with phase := Function.update s.phase k ph }

/-- `pthread_cond_broadcast`. -/
def wakeAll (s : State κ P σ) : State κ P σ :=
  { s with phase := fun k => if s.phase k = .blocked then .awake 0 else s.phase k }

@[simp] theorem goto_self (s : State κ P σ) (k : κ) (p : P) : (s.goto k p).point k = p := Function.update_self ..

theorem goto_of_ne (s : State κ P σ) {k j : κ} (p : P) (h : j ≠ k) : (s.goto k p).point j = s.point j :=
  Function.update_of_ne h ..

@[simp] theorem put_self (s : State κ P σ) (k : κ) (ph : Phase) : (s.put k ph).phase k = ph := Function.update_self ..

theorem put_of_ne (s : State κ P σ) {k j : κ} (ph : Phase) (h : j ≠ k) : (s.put k ph).phase j = s.phase j :=
  Function.update_of_ne h ..

end State

/-- The thread runs and is at an instruction. -/
def At (instr : P → Instr P σ) (s : State κ P σ) (k : κ) (i : Instr P σ) : Prop :=
  s.phase k = .running ∧ instr (s.point k) = i

/-- **One step of one thread.**  A mutex that is its owner's is not given again, to the owner neither. -/
inductive Step (instr : P → Instr P σ) (entry : P → Prop) (s : State κ P σ) : Act κ P → State κ P σ → Prop where
  | call {k : κ} {p : P} : At instr s k .idle → entry p → Step instr entry s (.call k p) (s.goto k p)
  | lock {k : κ} {next : Nat → P} : At instr s k (.lock next) → s.owner = none →
      Step instr entry s (.step k 0) { s.goto k (next 0) with owner := some k }
  | lockFails {k : κ} {next : Nat → P} {ret : Nat} : At instr s k (.lock next) → ret ≠ 0 →
      Step instr entry s (.step k ret) (s.goto k (next ret))
  | unlock {k : κ} {next : Nat → P} : At instr s k (.unlock next) → s.owner = some k →
      Step instr entry s (.step k 0) { s.goto k (next 0) with owner := none }
  | unlockFree {k : κ} {next : Nat → P} : At instr s k (.unlock next) → s.owner ≠ some k →
      Step instr entry s (.step k 0) { s with undefined := true }
  | access {k : κ} {f : σ → σ × P} : At instr s k (.access f) →
      Step instr entry s (.step k 0) { s.goto k (f s.shared).2 with shared := (f s.shared).1 }
  | wait {k : κ} {abstime : Option Timespec} {next : Nat → P} : At instr s k (.wait abstime next) →
      s.owner = some k → Blocks abstime → Step instr entry s (.step k 0) { s.put k .blocked with owner := none }
  | waitFails {k : κ} {t : Timespec} {next : Nat → P} : At instr s k (.wait (some t) next) → s.owner = some k →
      ¬ t.Valid → Step instr entry s (.step k EINVAL) (s.goto k (next EINVAL))
  | waitFree {k : κ} {abstime : Option Timespec} {next : Nat → P} : At instr s k (.wait abstime next) →
      s.owner ≠ some k → Step instr entry s (.step k 0) { s with undefined := true }
  | resume {k : κ} {abstime : Option Timespec} {next : Nat → P} {ret : Nat} :
      instr (s.point k) = .wait abstime next → s.phase k = .awake ret → s.owner = none →
      Step instr entry s (.step k ret) { (s.goto k (next ret)).put k .running with owner := some k }
  | wake {k : κ} : s.phase k = .blocked → Step instr entry s (.wake k 0) (s.put k (.awake 0))
  | expire {k : κ} {t : Timespec} {next : Nat → P} : instr (s.point k) = .wait (some t) next → s.phase k = .blocked →
      Step instr entry s (.wake k ETIMEDOUT) (s.put k (.awake ETIMEDOUT))
  | signal {k j : κ} {next : P} : At instr s k (.notify false next) → s.phase j = .blocked →
      Step instr entry s (.step k 0) ((s.goto k next).put j (.awake 0))
  | signalNobody {k : κ} {next : P} : At instr s k (.notify false next) → (∀ j, s.phase j ≠ .blocked) →
      Step instr entry s (.step k 0) (s.goto k next)
  | broadcast {k : κ} {next : P} : At instr s k (.notify true next) →
      Step instr entry s (.step k 0) (s.goto k next).wakeAll

/-- What a thread that runs does when nothing is left to choose. -/
def State.advance (instr : P → Instr P σ) (s : State κ P σ) (k : κ) : State κ P σ :=
  match instr (s.point k) with
  | .lock next => { s.goto k (next 0) with owner := some k }
  | .unlock next => { s.goto k (next 0) with owner := none }
  | .access f => { s.goto k (f s.shared).2 with shared := (f s.shared).1 }
  | .notify _ next => (s.goto k next).wakeAll
  | .idle | .wait _ _ => s

/-- The thread can go on, and nothing is left to choose. -/
def Ready (instr : P → Instr P σ) (s : State κ P σ) (k : κ) : Prop :=
  s.phase k = .running ∧ match instr (s.point k) with
    | .lock _ => s.owner = none
    | .unlock _ => s.owner = some k
    | .access _ => True
    | .notify all _ => all = true
    | .idle | .wait _ _ => False

theorem step_advance {instr : P → Instr P σ} {entry : P → Prop} {s : State κ P σ} {k : κ} (h : Ready instr s k) :
    Step instr entry s (.step k 0) (s.advance instr k) := by
  obtain ⟨hr, h⟩ := h
  unfold State.advance
  cases hi : instr (s.point k) with
  | lock next =>
    rw [hi] at h
    exact .lock ⟨hr, hi⟩ h
  | unlock next =>
    rw [hi] at h
    exact .unlock ⟨hr, hi⟩ h
  | access f => exact .access ⟨hr, hi⟩
  | notify all next =>
    rw [hi] at h
    subst h
    exact .broadcast ⟨hr, hi⟩
  | idle =>
    rw [hi] at h
    exact h.elim
  | wait abstime next =>
    rw [hi] at h
    exact h.elim

/-- A run goes on with what the thread is ready for. -/
theorem run_advance {instr : P → Instr P σ} {entry : P → Prop} {guard : State κ P σ → Act κ P → Prop}
    {s t : State κ P σ} {as : List (Act κ P)} (h : Trans.Run (Step instr entry) guard s as t) (k : κ)
    (hr : Ready instr t k) (hg : guard t (.step k 0)) :
    Trans.Run (Step instr entry) guard s (as ++ [.step k 0]) (t.advance instr k) := h.snoc hg (step_advance hr)

/-- **A loop**: turns that only access the data, each going to the next. -/
theorem run_loop {instr : P → Instr P σ} {entry : P → Prop} {guard : State κ P σ → Act κ P → Prop}
    {s t : State κ P σ} {as : List (Act κ P)} (k : κ) (pt : Nat → P) (x : Nat → σ)
    (h : Trans.Run (Step instr entry) guard s as t) (hr : t.phase k = .running) (hp : t.point k = pt 0)
    (hx : t.shared = x 0) (hg : ∀ i u, u.point k = pt i → guard u (.step k 0)) : ∀ n : Nat,
    (∀ i, i < n → ∃ f, instr (pt i) = .access f ∧ f (x i) = (x (i + 1), pt (i + 1))) →
    Trans.Run (Step instr entry) guard s (as ++ List.replicate n (.step k 0)) { t.goto k (pt n) with shared := x n }
  | 0, _ => by
    rw [State.goto, ← hp, ← hx, Function.update_eq_self, List.replicate_zero, List.append_nil]
    exact h
  | n + 1, hi => by
    have hrun := run_loop k pt x h hr hp hx hg n (fun i hin => hi i (Nat.lt_succ_of_lt hin))
    obtain ⟨f, hf, hnext⟩ := hi n (Nat.lt_succ_self n)
    have hpoint : ({ t.goto k (pt n) with shared := x n } : State κ P σ).point k = pt n := State.goto_self ..
    have hlast := run_advance hrun k ⟨hr, by rw [hpoint, hf]; trivial⟩ (hg n _ hpoint)
    rw [State.advance, hpoint, hf] at hlast
    simp only [hnext, State.goto, Function.update_idem] at hlast
    rw [List.replicate_succ', ← List.append_assoc]
    exact hlast

/-! ## Outlines -/

/-- **What is known at each point**: of the data while the mutex is free, at a point where it is held, and at a point
where it is not. -/
structure Outline (P σ : Type) where
  held : P → Bool
  free : σ → Prop
  known : P → σ → Prop
  away : P → σ → Prop

variable {instr : P → Instr P σ} {entry : P → Prop} {o : Outline P σ} {s s' : State κ P σ} {a : Act κ P}

/-- What is known of the data while the mutex is held at `p`. -/
def Outline.Inside (o : Outline P σ) (p : P) (x : σ) : Prop := o.held p = true ∧ o.known p x

/-- What is known of the data by a thread at `p` that does not hold the mutex. -/
def Outline.Outside (o : Outline P σ) (p : P) (x : σ) : Prop := o.held p = false ∧ o.away p x

/-- **The instruction fits the outline**, when it returns `ret`.  What is known outside stands whatever the holder
does. -/
def Outline.Checks (o : Outline P σ) (p : P) (ret : Nat) : Instr P σ → Prop
  | .idle => o.held p = false
  | .lock next => o.held p = false ∧ ∀ x, o.away p x → (ret = 0 → o.free x → o.Inside (next 0) x) ∧
      (ret ≠ 0 → o.Outside (next ret) x)
  | .unlock next => o.held p = true ∧ ∀ x, o.known p x → o.free x ∧ o.Outside (next 0) x
  | .access f => (o.held p = true → ∀ x, o.known p x → o.Inside (f x).2 (f x).1 ∧ ∀ q, o.away q x → o.away q (f x).1) ∧
      (o.held p = false → ∀ x, o.away p x → (f x).1 = x ∧ o.Outside (f x).2 x)
  | .wait abstime next => o.held p = true ∧ (∀ x, o.known p x → o.free x ∧ o.away p x) ∧
      ∀ x, Returns abstime ret → o.away p x → o.free x → o.Inside (next ret) x
  | .notify _ next => (o.held p = true → ∀ x, o.known p x → o.Inside next x) ∧
      (o.held p = false → ∀ x, o.away p x → o.Outside next x)

/-- **The outline is right in a state.** -/
structure Outline.Sound (o : Outline P σ) (instr : P → Instr P σ) (s : State κ P σ) : Prop where
  owner : ∀ k, s.owner = some k ↔ s.phase k = .running ∧ o.held (s.point k) = true
  free : s.owner = none → o.free s.shared
  known : ∀ k, s.owner = some k → o.known (s.point k) s.shared
  away : ∀ k, s.owner ≠ some k → o.away (s.point k) s.shared
  waits : ∀ k, s.phase k ≠ .running → ∃ abstime next, instr (s.point k) = .wait abstime next ∧ Blocks abstime ∧
    ∀ ret, s.phase k = .awake ret → Returns abstime ret
  defined : s.undefined = false

omit [DecidableEq κ] in
/-- A thread that runs at a point where the mutex is held owns it. -/
theorem Outline.Sound.owns (h : o.Sound instr s) {k : κ} (hr : s.phase k = .running)
    (hp : o.held (s.point k) = true) : s.owner = some k := (h.owner k).2 ⟨hr, hp⟩

omit [DecidableEq κ] in
theorem Outline.Sound.not_owns (h : o.Sound instr s) {k : κ} (hp : o.held (s.point k) = false) : s.owner ≠ some k :=
  fun hk => by
    rw [((h.owner k).1 hk).2] at hp
    cases hp

/-- A thread moves outside. -/
theorem Outline.Sound.out (h : o.Sound instr s) {k : κ} {p : P} (hr : s.phase k = .running)
    (hk : o.held (s.point k) = false) (hp : o.Outside p s.shared) : o.Sound instr (s.goto k p) := by
  have hown := h.not_owns hk
  have hother : ∀ {j}, s.owner = some j → j ≠ k := fun hj heq => hown (heq ▸ hj)
  refine ⟨fun j => ?_, h.free, fun j hj => ?_, fun j hj => ?_, fun j hj => ?_, h.defined⟩
  · by_cases hjk : j = k
    · subst hjk
      rw [State.goto_self, hp.1]
      exact ⟨fun hj => absurd hj hown, fun hj => Bool.noConfusion hj.2⟩
    · rw [State.goto_of_ne _ _ hjk]
      exact h.owner j
  · rw [State.goto_of_ne _ _ (hother hj)]
    exact h.known j hj
  · by_cases hjk : j = k
    · subst hjk
      rw [State.goto_self]
      exact hp.2
    · rw [State.goto_of_ne _ _ hjk]
      exact h.away j hj
  · have hjk : j ≠ k := fun heq => hj (heq ▸ hr)
    rw [State.goto_of_ne _ _ hjk]
    exact h.waits j hj

/-- The owner moves inside, and may change the data. -/
theorem Outline.Sound.inside (h : o.Sound instr s) {k : κ} {p : P} {x : σ} (hk : s.owner = some k) (hp : o.Inside p x)
    (hx : ∀ q, o.away q s.shared → o.away q x) : o.Sound instr { s.goto k p with shared := x } := by
  have hr := ((h.owner k).1 hk).1
  have hother : ∀ {j}, s.owner ≠ some j → j ≠ k := fun hj heq => hj (heq ▸ hk)
  refine ⟨fun j => ?_, fun hn => ?_, fun j hj => ?_, fun j hj => ?_, fun j hj => ?_, h.defined⟩
  · by_cases hjk : j = k
    · subst hjk
      show _ ↔ _ ∧ o.held ((s.goto j p).point j) = true
      rw [State.goto_self]
      exact ⟨fun _ => ⟨hr, hp.1⟩, fun _ => hk⟩
    · show _ ↔ _ ∧ o.held ((s.goto k p).point j) = true
      rw [State.goto_of_ne _ _ hjk]
      exact h.owner j
  · have hnone : s.owner = none := hn
    rw [hk] at hnone
    cases hnone
  · have hjk : some k = some j := hk.symm.trans hj
    cases hjk
    show o.known ((s.goto k p).point k) x
    rw [State.goto_self]
    exact hp.2
  · show o.away ((s.goto k p).point j) x
    rw [State.goto_of_ne _ _ (hother hj)]
    exact hx _ (h.away j hj)
  · have hjk : j ≠ k := fun heq => hj (heq ▸ hr)
    show ∃ abstime next, instr ((s.goto k p).point j) = _ ∧ _
    rw [State.goto_of_ne _ _ hjk]
    exact h.waits j hj

/-- A thread takes the mutex. -/
theorem Outline.Sound.take (h : o.Sound instr s) {k : κ} {p : P} (hk : s.owner = none) (hp : o.Inside p s.shared) :
    o.Sound instr { (s.goto k p).put k .running with owner := some k } := by
  have hother : ∀ {j}, some k ≠ some j → j ≠ k := fun hj heq => hj (heq ▸ rfl)
  refine ⟨fun j => ?_, fun hn => (by cases hn), fun j hj => ?_, fun j hj => ?_, fun j hj => ?_, h.defined⟩
  · by_cases hjk : j = k
    · subst hjk
      refine ⟨fun _ => ⟨State.put_self .., ?_⟩, fun _ => rfl⟩
      show o.held ((s.goto j p).point j) = true
      rw [State.goto_self]
      exact hp.1
    · refine ⟨fun hj => absurd (Option.some.inj hj).symm hjk, fun hj => ?_⟩
      rw [State.put_of_ne _ _ hjk] at hj
      have hpoint : ((s.goto k p).put k .running).point j = s.point j := s.goto_of_ne p hjk
      have hown := (h.owner j).2 ⟨hj.1, by rw [← hpoint]; exact hj.2⟩
      rw [hk] at hown
      cases hown
  · cases hj
    show o.known ((s.goto k p).point k) s.shared
    rw [State.goto_self]
    exact hp.2
  · show o.away ((s.goto k p).point j) s.shared
    rw [State.goto_of_ne _ _ (hother hj)]
    exact h.away j (by rw [hk]; exact (Option.some_ne_none j).symm)
  · have hjk : j ≠ k := fun heq => hj (heq ▸ State.put_self ..)
    have hphase : ((s.goto k p).put k .running).phase j = s.phase j := State.put_of_ne _ _ hjk
    have hpoint : ((s.goto k p).put k .running).point j = s.point j := s.goto_of_ne p hjk
    show ∃ abstime next, instr (((s.goto k p).put k .running).point j) = _ ∧ _ ∧
      ∀ ret, ((s.goto k p).put k .running).phase j = _ → _
    rw [hpoint, hphase]
    exact h.waits j (hphase ▸ hj)

/-- The owner gives the mutex back. -/
theorem Outline.Sound.release (h : o.Sound instr s) {k : κ} {p : P} (hk : s.owner = some k) (hf : o.free s.shared)
    (hp : o.Outside p s.shared) : o.Sound instr { s.goto k p with owner := none } := by
  have hr := ((h.owner k).1 hk).1
  refine ⟨fun j => ⟨fun hj => (by cases hj), fun hj => ?_⟩, fun _ => hf, fun j hj => (by cases hj), fun j _ => ?_,
    fun j hj => ?_, h.defined⟩
  · by_cases hjk : j = k
    · subst hjk
      have hheld : o.held ((s.goto j p).point j) = true := hj.2
      rw [State.goto_self, hp.1] at hheld
      cases hheld
    · have hheld : o.held ((s.goto k p).point j) = true := hj.2
      rw [State.goto_of_ne _ _ hjk] at hheld
      have hown := h.owns hj.1 hheld
      rw [hk] at hown
      exact absurd (Option.some.inj hown).symm hjk
  · show o.away ((s.goto k p).point j) s.shared
    by_cases hjk : j = k
    · subst hjk
      rw [State.goto_self]
      exact hp.2
    · rw [State.goto_of_ne _ _ hjk]
      exact h.away j (fun hj => hjk (Option.some.inj (hj.symm.trans hk)))
  · have hjk : j ≠ k := fun heq => hj (heq ▸ hr)
    show ∃ abstime next, instr ((s.goto k p).point j) = _ ∧ _
    rw [State.goto_of_ne _ _ hjk]
    exact h.waits j hj

/-- The owner blocks. -/
theorem Outline.Sound.block (h : o.Sound instr s) {k : κ} {abstime : Option Timespec} {next : Nat → P}
    (hi : instr (s.point k) = .wait abstime next) (hb : Blocks abstime) (hk : s.owner = some k) (hf : o.free s.shared)
    (ha : o.away (s.point k) s.shared) : o.Sound instr { s.put k .blocked with owner := none } := by
  refine ⟨fun j => ⟨fun hj => (by cases hj), fun hj => ?_⟩, fun _ => hf, fun j hj => (by cases hj), fun j _ => ?_,
    fun j hj => ?_, h.defined⟩
  · by_cases hjk : j = k
    · subst hjk
      have hphase : (s.put j .blocked).phase j = .running := hj.1
      rw [State.put_self] at hphase
      cases hphase
    · have hphase : (s.put k .blocked).phase j = .running := hj.1
      rw [State.put_of_ne _ _ hjk] at hphase
      have hown := h.owns hphase hj.2
      rw [hk] at hown
      exact absurd (Option.some.inj hown).symm hjk
  · by_cases hjk : j = k
    · subst hjk
      exact ha
    · exact h.away j (fun hj => hjk (Option.some.inj (hj.symm.trans hk)))
  · by_cases hjk : j = k
    · subst hjk
      refine ⟨abstime, next, hi, hb, fun ret hret => ?_⟩
      have hphase : (s.put j .blocked).phase j = .awake ret := hret
      rw [State.put_self] at hphase
      cases hphase
    · have hphase : (s.put k .blocked).phase j = s.phase j := State.put_of_ne _ _ hjk
      show ∃ abstime next, instr (s.point j) = _ ∧ _ ∧ ∀ ret, (s.put k .blocked).phase j = _ → _
      rw [hphase]
      exact h.waits j (hphase ▸ hj)

omit [DecidableEq κ] in
/-- Some of the blocked threads are woken. -/
theorem Outline.Sound.woken (h : o.Sound instr s) {phase : κ → Phase}
    (hphase : ∀ k, phase k = s.phase k ∨ s.phase k = .blocked ∧ ∃ ret, phase k = .awake ret ∧
      ∀ abstime next, instr (s.point k) = .wait abstime next → Blocks abstime → Returns abstime ret) :
    o.Sound instr { s with phase := phase } := by
  have hrun : ∀ k, phase k = .running ↔ s.phase k = .running := fun k => by
    rcases hphase k with heq | ⟨hb, ret, hw, -⟩
    · rw [heq]
    · rw [hb, hw]
      exact ⟨fun hx => (by cases hx), fun hx => (by cases hx)⟩
  refine ⟨fun k => ?_, h.free, h.known, h.away, fun k hk => ?_, h.defined⟩
  · show _ ↔ phase k = .running ∧ _
    rw [hrun k]
    exact h.owner k
  · obtain ⟨abstime, next, hi, hblocks, hret⟩ := h.waits k (fun hr => hk ((hrun k).2 hr))
    refine ⟨abstime, next, hi, hblocks, fun ret hr => ?_⟩
    rcases hphase k with heq | ⟨-, ret', hw, hall⟩
    · exact hret ret (heq ▸ hr)
    · have heq : Phase.awake ret = Phase.awake ret' := hr.symm.trans hw
      cases heq
      exact hall abstime next hi hblocks

/-- A thread moves, inside or outside. -/
theorem Outline.Sound.move (h : o.Sound instr s) {k : κ} {all : Bool} {next : P} (hr : s.phase k = .running)
    (hc : o.Checks (s.point k) 0 (.notify all next)) : o.Sound instr (s.goto k next) := by
  cases hheld : o.held (s.point k) with
  | true =>
    have hk := h.owns hr hheld
    exact h.inside hk (hc.1 hheld _ (h.known k hk)) (fun _ hq => hq)
  | false => exact h.out hr hheld (hc.2 hheld _ (h.away k (h.not_owns hheld)))

/-- What holds of the point of the thread that acts, and of what it gets back. -/
def Act.Meets (C : P → Nat → Prop) (s : State κ P σ) : Act κ P → Prop
  | .call k _ => C (s.point k) 0
  | .step k ret => C (s.point k) ret
  | .wake _ _ => True

/-- **A step whose instruction fits keeps the outline right.**  One case for each thing a thread may do. -/
theorem Outline.Sound.step (h : o.Sound instr s) (hs : Step instr entry s a s')
    (hc : a.Meets (fun p ret => o.Checks p ret (instr p)) s)
    (hentry : ∀ p, entry p → ∀ q x, o.Outside q x → o.Outside p x) : o.Sound instr s' := by
  cases hs with
  | @call k p hi hp =>
    have hidle : o.Checks (s.point k) 0 .idle := by rw [← hi.2]; exact hc
    exact h.out hi.1 hidle (hentry p hp _ _ ⟨hidle, h.away k (h.not_owns hidle)⟩)
  | @lock k next hi hn =>
    have hlock : o.Checks (s.point k) 0 (.lock next) := by rw [← hi.2]; exact hc
    have htake := h.take (k := k) hn ((hlock.2 _ (h.away k (h.not_owns hlock.1))).1 rfl (h.free hn))
    have hphase : (s.goto k (next 0)).put k .running = s.goto k (next 0) := by
      rw [State.put, ← hi.1]
      exact congrArg (fun ph => { s.goto k (next 0) with phase := ph }) (Function.update_eq_self k s.phase)
    rwa [hphase] at htake
  | @lockFails k next ret hi hret =>
    have hlock : o.Checks (s.point k) ret (.lock next) := by rw [← hi.2]; exact hc
    exact h.out hi.1 hlock.1 ((hlock.2 _ (h.away k (h.not_owns hlock.1))).2 hret)
  | @unlock k next hi hk =>
    have hunlock : o.Checks (s.point k) 0 (.unlock next) := by rw [← hi.2]; exact hc
    obtain ⟨hf, hp⟩ := hunlock.2 _ (h.known k hk)
    exact h.release hk hf hp
  | @unlockFree k next hi hk =>
    have hunlock : o.Checks (s.point k) 0 (.unlock next) := by rw [← hi.2]; exact hc
    exact absurd (h.owns hi.1 hunlock.1) hk
  | @access k f hi =>
    have haccess : o.Checks (s.point k) 0 (.access f) := by rw [← hi.2]; exact hc
    cases hheld : o.held (s.point k) with
    | true =>
      have hk := h.owns hi.1 hheld
      obtain ⟨hp, hx⟩ := haccess.1 hheld _ (h.known k hk)
      exact h.inside hk hp hx
    | false =>
      obtain ⟨hx, hp⟩ := haccess.2 hheld _ (h.away k (h.not_owns hheld))
      rw [hx]
      exact h.out hi.1 hheld hp
  | @wait k abstime next hi hk hb =>
    have hwait : o.Checks (s.point k) 0 (.wait abstime next) := by rw [← hi.2]; exact hc
    obtain ⟨hf, ha⟩ := hwait.2.1 _ (h.known k hk)
    exact h.block hi.2 hb hk hf ha
  | @waitFails k t next hi hk ht =>
    have hwait : o.Checks (s.point k) EINVAL (.wait (some t) next) := by rw [← hi.2]; exact hc
    obtain ⟨hf, ha⟩ := hwait.2.1 _ (h.known k hk)
    exact h.inside hk (hwait.2.2 _ (.inr (.inr ⟨t, rfl, ht, rfl⟩)) ha hf) (fun _ hq => hq)
  | @waitFree k abstime next hi hk =>
    have hwait : o.Checks (s.point k) 0 (.wait abstime next) := by rw [← hi.2]; exact hc
    exact absurd (h.owns hi.1 hwait.1) hk
  | @resume k abstime next ret hi hphase hn =>
    have hwait : o.Checks (s.point k) ret (.wait abstime next) := by rw [← hi]; exact hc
    obtain ⟨abstime', next', hi', -, hret⟩ := h.waits k (by rw [hphase]; exact nofun)
    rw [hi] at hi'
    cases hi'
    have ha := h.away k (by rw [hn]; exact (Option.some_ne_none k).symm)
    exact h.take hn (hwait.2.2 _ (hret ret hphase) ha (h.free hn))
  | @wake k hb =>
    refine h.woken (fun j => ?_)
    by_cases hjk : j = k
    · subst hjk
      exact .inr ⟨hb, 0, Function.update_self .., fun _ _ _ _ => .inl rfl⟩
    · exact .inl (Function.update_of_ne hjk ..)
  | @expire k t next hi hb =>
    refine h.woken (fun j => ?_)
    by_cases hjk : j = k
    · subst hjk
      refine .inr ⟨hb, ETIMEDOUT, Function.update_self .., fun abstime next' hi' hblocks => ?_⟩
      rw [hi] at hi'
      cases hi'
      exact .inr (.inl ⟨t, rfl, hblocks t rfl, rfl⟩)
    · exact .inl (Function.update_of_ne hjk ..)
  | @signal k j next hi hb =>
    have hmove := h.move hi.1 (by rw [← hi.2]; exact hc)
    refine hmove.woken (fun i => ?_)
    by_cases hij : i = j
    · subst hij
      exact .inr ⟨hb, 0, Function.update_self .., fun _ _ _ _ => .inl rfl⟩
    · exact .inl (Function.update_of_ne hij ..)
  | @signalNobody k next hi _ => exact h.move hi.1 (by rw [← hi.2]; exact hc)
  | @broadcast k next hi =>
    have hmove := h.move hi.1 (by rw [← hi.2]; exact hc)
    refine hmove.woken (fun i => ?_)
    by_cases hb : s.phase i = .blocked
    · exact .inr ⟨hb, 0, if_pos hb, fun _ _ _ _ => .inl rfl⟩
    · exact .inl (if_neg hb)

omit [DecidableEq κ] in
theorem Outline.sound_init {x : σ} {p : P} (hf : o.free x) (hp : o.Outside p x) :
    o.Sound instr (State.init x p : State κ P σ) := by
  refine ⟨fun k => ⟨fun hk => (by cases hk), fun hk => ?_⟩, fun _ => hf, fun k hk => (by cases hk), fun _ _ => hp.2,
    fun k hk => absurd rfl hk, rfl⟩
  have hheld : o.held p = true := hk.2
  rw [hp.1] at hheld
  cases hheld

/-- **The rule of outlines**: in a run whose steps fit, the outline is right in the state reached. -/
theorem Outline.sound_of_run {s t : State κ P σ} {as : List (Act κ P)}
    (h : Trans.Run (Step instr entry) (fun s a => a.Meets (fun p ret => o.Checks p ret (instr p)) s) s as t)
    (hs : o.Sound instr s) (hentry : ∀ p, entry p → ∀ q x, o.Outside q x → o.Outside p x) : o.Sound instr t :=
  h.invariant hs (fun _ _ _ ht hc hstep => ht.step hstep hc hentry)

/-! ## Nobody sleeps on a condition that holds -/

/-- The thread is woken, or at a point from which it tests the condition or notifies. -/
def Alert (alert : P → Bool) (s : State κ P σ) (k : κ) : Prop :=
  (∃ ret, s.phase k = .awake ret) ∨ s.phase k = .running ∧ alert (s.point k) = true

/-- **While the condition holds, somebody is alert**, if anybody is blocked. -/
def Wakeful (cond : σ → Prop) (alert : P → Bool) (s : State κ P σ) : Prop :=
  cond s.shared → ∀ j, s.phase j = .blocked → ∃ k, Alert alert s k

/-- **The instruction keeps watch**, when it returns `ret`: a thread stops to be alert by making the condition false or
by a notification, makes it true to be alert itself, and waits only when it is false. -/
def Outline.Watches (o : Outline P σ) (cond : σ → Prop) (alert : P → Bool) (p : P) (ret : Nat) : Instr P σ → Prop
  | .idle => alert p = false
  | .lock next => alert p = true → alert (next ret) = true
  | .unlock next => alert p = true → alert (next 0) = true
  | .access f => ∀ x, (o.held p = true → o.known p x) → cond (f x).1 →
      alert (f x).2 = true ∨ cond x ∧ alert p = false
  | .wait _ next => (∀ x, o.known p x → ¬ cond x) ∧ alert (next ret) = true
  | .notify _ _ => True

variable {cond : σ → Prop} {alert : P → Bool}

/-- A thread moves, and is as alert as it was. -/
theorem Alert.goto {k j : κ} {p : P} (h : Alert alert s k) (hj : s.phase j = .running)
    (hp : alert (s.point j) = true → alert p = true) : Alert alert (s.goto j p) k := by
  refine h.imp_right (fun hr => ⟨hr.1, ?_⟩)
  by_cases hkj : k = j
  · subst hkj
    rw [State.goto_self]
    exact hp hr.2
  · rw [State.goto_of_ne _ _ hkj]
    exact hr.2

theorem Wakeful.goto (h : Wakeful cond alert s) {k : κ} {p : P} (hk : s.phase k = .running)
    (hp : alert (s.point k) = true → alert p = true) : Wakeful cond alert (s.goto k p) := fun hc j hj => by
  obtain ⟨i, hi⟩ := h hc j hj
  exact ⟨i, hi.goto hk hp⟩

omit [DecidableEq κ] in
theorem Wakeful.of_awake {k : κ} {ret : Nat} (h : s.phase k = .awake ret) : Wakeful cond alert s :=
  fun _ _ _ => ⟨k, .inl ⟨ret, h⟩⟩

/-- **A step that keeps watch keeps somebody alert.** -/
theorem Wakeful.step (h : Wakeful cond alert s) (hsound : o.Sound instr s) (hs : Step instr entry s a s')
    (hw : a.Meets (fun p ret => o.Watches cond alert p ret (instr p)) s) : Wakeful cond alert s' := by
  cases hs with
  | @call k p hi _ =>
    have hidle : o.Watches cond alert (s.point k) 0 .idle := by rw [← hi.2]; exact hw
    exact h.goto hi.1 (fun ht => by rw [hidle] at ht; cases ht)
  | @lock k next hi _ =>
    have hlock : o.Watches cond alert (s.point k) 0 (.lock next) := by rw [← hi.2]; exact hw
    exact h.goto hi.1 hlock
  | @lockFails k next ret hi _ =>
    have hlock : o.Watches cond alert (s.point k) ret (.lock next) := by rw [← hi.2]; exact hw
    exact h.goto hi.1 hlock
  | @unlock k next hi _ =>
    have hunlock : o.Watches cond alert (s.point k) 0 (.unlock next) := by rw [← hi.2]; exact hw
    exact h.goto hi.1 hunlock
  | unlockFree _ _ => exact h
  | @access k f hi =>
    have haccess : o.Watches cond alert (s.point k) 0 (.access f) := by rw [← hi.2]; exact hw
    intro hc j hj
    rcases haccess s.shared (fun hheld => hsound.known k (hsound.owns hi.1 hheld)) hc with hp | ⟨hx, hp⟩
    · exact ⟨k, .inr ⟨hi.1, by
        show alert ((s.goto k (f s.shared).2).point k) = true
        rw [State.goto_self]
        exact hp⟩⟩
    · obtain ⟨i, hi'⟩ := h hx j hj
      exact ⟨i, hi'.goto hi.1 (fun ht => by rw [hp] at ht; cases ht)⟩
  | @wait k abstime next hi hk _ =>
    have hwait : o.Watches cond alert (s.point k) 0 (.wait abstime next) := by rw [← hi.2]; exact hw
    exact fun hc => absurd hc (hwait.1 _ (hsound.known k hk))
  | @waitFails k t next hi hk _ =>
    have hwait : o.Watches cond alert (s.point k) EINVAL (.wait (some t) next) := by rw [← hi.2]; exact hw
    exact h.goto hi.1 (fun _ => hwait.2)
  | waitFree _ _ => exact h
  | @resume k abstime next ret hi _ _ =>
    have hwait : o.Watches cond alert (s.point k) ret (.wait abstime next) := by rw [← hi]; exact hw
    refine fun _ _ _ => ⟨k, .inr ⟨State.put_self .., ?_⟩⟩
    show alert ((s.goto k (next ret)).point k) = true
    rw [State.goto_self]
    exact hwait.2
  | wake _ => exact .of_awake (State.put_self ..)
  | expire _ _ => exact .of_awake (State.put_self ..)
  | signal _ _ => exact .of_awake (State.put_self ..)
  | signalNobody _ hn => exact fun _ j hj => absurd hj (hn j)
  | @broadcast k next _ =>
    intro _ j hj
    have hphase : (if s.phase j = .blocked then .awake 0 else s.phase j) = Phase.blocked := hj
    split at hphase
    · cases hphase
    · contradiction

/-- **The rule of wake-ups**: in a run whose steps fit the outline and keep watch, somebody is alert whenever somebody
is blocked on a condition that holds. -/
theorem wakeful_of_run {s t : State κ P σ} {as : List (Act κ P)}
    (h : Trans.Run (Step instr entry) (fun s a => a.Meets (fun p ret => o.Checks p ret (instr p) ∧
      o.Watches cond alert p ret (instr p)) s) s as t)
    (hs : o.Sound instr s) (hentry : ∀ p, entry p → ∀ q x, o.Outside q x → o.Outside p x)
    (hw : Wakeful cond alert s) : o.Sound instr t ∧ Wakeful cond alert t := by
  refine h.invariant (P := fun t => o.Sound instr t ∧ Wakeful cond alert t) ⟨hs, hw⟩ (fun t a u ht hg hstep => ?_)
  have hboth : a.Meets (fun p ret => o.Checks p ret (instr p)) t ∧
      a.Meets (fun p ret => o.Watches cond alert p ret (instr p)) t := by
    cases a with
    | call k p => exact hg
    | step k ret => exact hg
    | wake k ret => exact ⟨trivial, trivial⟩
  exact ⟨ht.1.step hstep hboth.1 hentry, ht.2.step ht.1 hstep hboth.2⟩

/-! ## A mutex that is not given back -/

/-- **The instruction gets to a point where the mutex is held with `lock` only**, and changes nothing without it. -/
def Guarded (held : P → Bool) (p : P) : Instr P σ → Prop
  | .idle => True
  | .lock next => ∀ ret, ret ≠ 0 → held (next ret) = false
  | .unlock _ => held p = true
  | .access f => held p = false → ∀ x, (f x).1 = x ∧ held (f x).2 = false
  | .wait _ _ => held p = true
  | .notify _ next => held p = false → held next = false

/-- **A thread has the mutex that is at a point where it is not held**, and nobody is where it is. -/
structure Leaked (held : P → Bool) (s : State κ P σ) (k : κ) : Prop where
  owner : s.owner = some k
  running : s.phase k = .running
  outside : ∀ j, s.phase j = .running → held (s.point j) = false

/-- A thread moves to a point where the mutex is not held. -/
theorem Leaked.goto {held : P → Bool} {k j : κ} {p : P} (h : Leaked held s k) (hp : held p = false) :
    Leaked held (s.goto j p) k := by
  refine ⟨h.owner, h.running, fun i hi => ?_⟩
  by_cases hij : i = j
  · subst hij
    rw [State.goto_self]
    exact hp
  · rw [State.goto_of_ne _ _ hij]
    exact h.outside i hi

omit [DecidableEq κ] in
theorem Leaked.woken {held : P → Bool} {k : κ} {phase : κ → Phase} (h : Leaked held s k)
    (hphase : ∀ k, phase k = s.phase k ∨ s.phase k = .blocked ∧ ∃ ret, phase k = .awake ret) :
    Leaked held { s with phase := phase } k := by
  refine ⟨h.owner, ?_, fun j hj => ?_⟩
  · rcases hphase k with heq | ⟨hb, -⟩
    · exact heq.trans h.running
    · rw [h.running] at hb
      cases hb
  · rcases hphase j with heq | ⟨-, ret, hw⟩
    · exact h.outside j (heq.symm.trans hj)
    · have hr : phase j = .running := hj
      rw [hw] at hr
      cases hr

/-- **A mutex that was not given back stays so**, and the data as they are, while nobody unlocks it from outside. -/
theorem Leaked.step {held : P → Bool} {k : κ} (h : Leaked held s k) (hs : Step instr entry s a s')
    (hg : a.Meets (fun p _ => Guarded held p (instr p)) s) (hentry : ∀ p, entry p → held p = false) :
    Leaked held s' k ∧ s'.shared = s.shared := by
  have hguard : ∀ {j ret i}, a = .step j ret → At instr s j i → Guarded held (s.point j) i := by
    rintro j ret i rfl ⟨-, rfl⟩
    exact hg
  have hnot : ∀ {j}, s.phase j = .running → held (s.point j) ≠ true := fun hr hheld => by
    rw [h.outside _ hr] at hheld
    cases hheld
  have hnone : s.owner ≠ none := by
    rw [h.owner]
    exact Option.some_ne_none k
  cases hs with
  | call _ hp => exact ⟨h.goto (hentry _ hp), rfl⟩
  | lock _ hn => exact absurd hn hnone
  | lockFails hi hret => exact ⟨h.goto (hguard rfl hi _ hret), rfl⟩
  | unlock hi _ => exact absurd (hguard rfl hi) (hnot hi.1)
  | unlockFree hi _ => exact absurd (hguard rfl hi) (hnot hi.1)
  | access hi =>
    obtain ⟨hx, hp⟩ := hguard rfl hi (h.outside _ hi.1) s.shared
    rw [hx]
    exact ⟨h.goto hp, rfl⟩
  | wait hi _ _ => exact absurd (hguard rfl hi) (hnot hi.1)
  | waitFails hi _ _ => exact absurd (hguard rfl hi) (hnot hi.1)
  | waitFree hi _ => exact absurd (hguard rfl hi) (hnot hi.1)
  | resume _ _ hn => exact absurd hn hnone
  | @wake j hb =>
    refine ⟨h.woken (fun i => ?_), rfl⟩
    by_cases hij : i = j
    · subst hij
      exact .inr ⟨hb, 0, Function.update_self ..⟩
    · exact .inl (Function.update_of_ne hij ..)
  | @expire j t next hi hb =>
    refine ⟨h.woken (fun i => ?_), rfl⟩
    by_cases hij : i = j
    · subst hij
      exact .inr ⟨hb, ETIMEDOUT, Function.update_self ..⟩
    · exact .inl (Function.update_of_ne hij ..)
  | @signal j j' next hi hb =>
    refine ⟨(h.goto (j := j) (hguard rfl hi (h.outside _ hi.1))).woken (fun i => ?_), rfl⟩
    by_cases hij : i = j'
    · subst hij
      exact .inr ⟨hb, 0, Function.update_self ..⟩
    · exact .inl (Function.update_of_ne hij ..)
  | signalNobody hi _ => exact ⟨h.goto (hguard rfl hi (h.outside _ hi.1)), rfl⟩
  | @broadcast j next hi =>
    refine ⟨(h.goto (j := j) (hguard rfl hi (h.outside _ hi.1))).woken (fun i => ?_), rfl⟩
    by_cases hb : s.phase i = .blocked
    · exact .inr ⟨hb, 0, if_pos hb⟩
    · exact .inl (if_neg hb)

theorem Leaked.of_run {held : P → Bool} {s t : State κ P σ} {as : List (Act κ P)} {k : κ}
    (h : Trans.Run (Step instr entry) (fun s a => a.Meets (fun p _ => Guarded held p (instr p)) s) s as t)
    (hs : Leaked held s k) (hentry : ∀ p, entry p → held p = false) : Leaked held t k ∧ t.shared = s.shared :=
  h.invariant (P := fun t => Leaked held t k ∧ t.shared = s.shared) ⟨hs, rfl⟩ (fun _ _ _ ht hg hstep => by
    obtain ⟨hl, hx⟩ := ht.1.step hstep hg hentry
    exact ⟨hl, hx.trans ht.2⟩)

end Monitor

import MiniRos2.DispatchRound
import Mathlib.Logic.Function.Basic
/-!
# RegionInit — who initialises a shared region, and when

The creator initialises the region whatever its magic number says, `EventNotificationShm::Create` twice; a process that
opens it initialises when it finds the number unset, and tests it without a lock.  Nothing is initialised again after
somebody has finished opening the region as long as nobody finishes while another process is still to initialise
(`initialisedOnce_of_alone`), and where one does the others' initialisation comes after it
(`alone_of_initialisedOnce`).
-/
namespace MiniRos2
namespace RegionInit

inductive RegionClass where
  | shmBase
  | eventNotification

/-- The process that creates the region, and those that open it. -/
inductive Process (κ : Type) where
  | creator
  | opener (k : κ)
  deriving DecidableEq

/-- What a process does to the region after `shm_open`; `initMutex` is `pthread_mutex_init` and `pthread_cond_init`. -/
inductive InitOp where
  | setSize
  | test (is_owner_ : Bool)
  | initMutex
  | setInitialized
  | resetFlags
  | cachePointers
  deriving DecidableEq

/-- `initMutexAndCond`. -/
def initMutexAndCond : RegionClass → List InitOp
  | .shmBase => [.initMutex, .setInitialized, .cachePointers]
  | .eventNotification => [.initMutex, .setInitialized, .resetFlags, .cachePointers]

/-- `Open`, whose test decides what follows. -/
def open_ (is_owner_ : Bool) : List InitOp := [.test is_owner_]

/-- `ShmBase::Create` and the `Open` after it; `EventNotificationShm::Create`. -/
def create : RegionClass → List InitOp
  | .shmBase => .setSize :: open_ true
  | .eventNotification => .setSize :: open_ true ++ initMutexAndCond .eventNotification

@[simp] theorem initMutex_mem (cls : RegionClass) : .initMutex ∈ initMutexAndCond cls := by
  cases cls <;> simp [initMutexAndCond]

@[simp] theorem setInitialized_mem (cls : RegionClass) : .setInitialized ∈ initMutexAndCond cls := by
  cases cls <;> simp [initMutexAndCond]

@[simp] theorem test_mem_create (cls : RegionClass) : .test true ∈ create cls := by
  cases cls <;> simp [create, open_]

/-- Where a process is: `inside []` has finished opening, and `locked` has the mutex. -/
inductive ProcessPc where
  | away
  | inside (program : List InitOp)
  | locked

def ProcessPc.Finished : ProcessPc → Prop
  | .away => False
  | .inside program => program = []
  | .locked => True

/-- Inside `initMutexAndCond`, before its last write but the pointers', or in the creator before that. -/
def ProcessPc.Pending : ProcessPc → Prop
  | .inside program => .initMutex ∈ program ∨ .resetFlags ∈ program ∨ .test true ∈ program
  | _ => False

/-- The region; `reinitialised` says that a process initialised after another had finished opening, and `erased` that
an initialisation took away an event bit. -/
structure RegionState (κ : Type) where
  named : Bool
  sized : Bool
  initialized_ : Bool
  mutex_ : Option (Process κ)
  event_flag_ : Nat → Bool
  processes : Process κ → ProcessPc
  reinitialised : Prop
  erased : Prop

variable {κ : Type}

namespace RegionState

def init : RegionState κ := ⟨false, false, false, none, fun _ => false, fun _ => .away, False, False⟩

/-- **The process has opened the region.** -/
def Finished (s : RegionState κ) (p : Process κ) : Prop := (s.processes p).Finished

/-- **The process is still to initialise.** -/
def Pending (s : RegionState κ) (p : Process κ) : Prop := (s.processes p).Pending

/-- The process has one operation left. -/
def Finishes (s : RegionState κ) (p : Process κ) : Prop :=
  ∃ o, s.processes p = .inside [o] ∧ ∀ b, o ≠ .test b

/-- Nothing was initialised again, and no event bit was lost. -/
structure InitialisedOnce (s : RegionState κ) : Prop where
  once : ¬ s.reinitialised
  kept : ¬ s.erased

variable [DecidableEq κ]

def goTo (s : RegionState κ) (p : Process κ) (pc : ProcessPc) : RegionState κ :=
  { s with processes := Function.update s.processes p pc }

/-- An initialisation, after which it is too late if a process has finished. -/
def noting (s : RegionState κ) : RegionState κ := { s with reinitialised := s.reinitialised ∨ ∃ q, s.Finished q }

end RegionState

inductive InitAct (κ : Type) where
  | create
  | open_ (k : κ)
  | op (p : Process κ)
  | lock (p : Process κ)
  | trigger (p : Process κ) (event_id : Nat)
  | unlock (p : Process κ)

variable [DecidableEq κ]

/-- **One step of one process.**  `create` and `open_` are `shm_open`; a process that reads the number before the region
has its size is killed. -/
inductive InitAct.Step (cls : RegionClass) (s : RegionState κ) : InitAct κ → RegionState κ → Prop where
  | create : s.processes .creator = .away → s.named = false →
      Step cls s .create { s.goTo .creator (.inside (RegionInit.create cls)) with named := true }
  | open_ {k : κ} : s.processes (.opener k) = .away → s.named = true →
      Step cls s (.open_ k) (s.goTo (.opener k) (.inside (RegionInit.open_ false)))
  | setSize {p : Process κ} {rest : List InitOp} : s.processes p = .inside (.setSize :: rest) →
      Step cls s (.op p) { s.goTo p (.inside rest) with sized := true }
  | killed {p : Process κ} {b : Bool} {rest : List InitOp} : s.processes p = .inside (.test b :: rest) →
      s.sized = false → Step cls s (.op p) (s.goTo p .away)
  | unset {p : Process κ} {b : Bool} {rest : List InitOp} : s.processes p = .inside (.test b :: rest) →
      s.sized = true → b = true ∨ s.initialized_ = false →
      Step cls s (.op p) (s.goTo p (.inside (initMutexAndCond cls ++ rest)))
  | set {p : Process κ} {rest : List InitOp} : s.processes p = .inside (.test false :: rest) →
      s.sized = true → s.initialized_ = true →
      Step cls s (.op p) (s.goTo p (.inside (.cachePointers :: rest)))
  | initMutex {p : Process κ} {rest : List InitOp} : s.processes p = .inside (.initMutex :: rest) →
      Step cls s (.op p) { s.noting.goTo p (.inside rest) with mutex_ := none }
  | setInitialized {p : Process κ} {rest : List InitOp} : s.processes p = .inside (.setInitialized :: rest) →
      Step cls s (.op p) { s.goTo p (.inside rest) with initialized_ := true }
  | resetFlags {p : Process κ} {rest : List InitOp} : s.processes p = .inside (.resetFlags :: rest) →
      Step cls s (.op p) { s.noting.goTo p (.inside rest) with
        event_flag_ := fun _ => false, erased := s.erased ∨ ∃ i, s.event_flag_ i = true }
  | cachePointers {p : Process κ} {rest : List InitOp} : s.processes p = .inside (.cachePointers :: rest) →
      Step cls s (.op p) (s.goTo p (.inside rest))
  | lock {p : Process κ} : s.processes p = .inside [] → s.mutex_ = none →
      Step cls s (.lock p) { s.goTo p .locked with mutex_ := some p }
  | trigger {p : Process κ} {event_id : Nat} : cls = .eventNotification → s.processes p = .locked →
      event_id < EVENT_MAX_COUNT →
      Step cls s (.trigger p event_id) { s with event_flag_ := Function.update s.event_flag_ event_id true }
  | unlock {p : Process κ} : s.processes p = .locked →
      Step cls s (.unlock p) { s.goTo p (.inside []) with mutex_ := none }

/-- **Nobody finishes opening the region while another process is still to initialise.** -/
def Alone (s : RegionState κ) : InitAct κ → Prop
  | .op p => s.Finishes p → ∀ q, q ≠ p → ¬ s.Pending q
  | _ => True

/-! ## What a step does -/

/-- The magic number was tested. -/
def ProcessPc.Tested : ProcessPc → Prop
  | .away => False
  | .inside program => .setSize ∉ program ∧ ∀ b, .test b ∉ program
  | .locked => True

/-- The magic number was found, or set. -/
def ProcessPc.Announced : ProcessPc → Prop
  | .away => False
  | .inside program => .setInitialized ∉ program ∧ ∀ b, .test b ∉ program
  | .locked => True

@[simp] theorem ProcessPc.finished_inside {program : List InitOp} : (inside program).Finished ↔ program = [] := Iff.rfl

@[simp] theorem ProcessPc.pending_inside {program : List InitOp} : (inside program).Pending ↔
    .initMutex ∈ program ∨ .resetFlags ∈ program ∨ .test true ∈ program := Iff.rfl

@[simp] theorem ProcessPc.tested_inside {program : List InitOp} : (inside program).Tested ↔
    .setSize ∉ program ∧ ∀ b, .test b ∉ program := Iff.rfl

@[simp] theorem ProcessPc.announced_inside {program : List InitOp} : (inside program).Announced ↔
    .setInitialized ∉ program ∧ ∀ b, .test b ∉ program := Iff.rfl

@[simp] theorem ProcessPc.finished_locked : locked.Finished := trivial

@[simp] theorem ProcessPc.not_finished_away : ¬ away.Finished := id

@[simp] theorem ProcessPc.not_pending_locked : ¬ locked.Pending := id

@[simp] theorem ProcessPc.not_pending_away : ¬ away.Pending := id

@[simp] theorem ProcessPc.not_tested_away : ¬ away.Tested := id

@[simp] theorem ProcessPc.not_announced_away : ¬ away.Announced := id

theorem ProcessPc.Finished.tested {pc : ProcessPc} (h : pc.Finished) : pc.Tested := by
  cases pc with
  | away => cases h
  | inside program =>
    obtain rfl : program = [] := h
    simp [Tested]
  | locked => trivial

theorem ProcessPc.Finished.announced {pc : ProcessPc} (h : pc.Finished) : pc.Announced := by
  cases pc with
  | away => cases h
  | inside program =>
    obtain rfl : program = [] := h
    simp [Announced]
  | locked => trivial

theorem ProcessPc.Finished.not_pending {pc : ProcessPc} (h : pc.Finished) : ¬ pc.Pending := by
  cases pc with
  | away => cases h
  | inside program =>
    obtain rfl : program = [] := h
    simp [Pending]
  | locked => exact id

variable {s s' : RegionState κ}

/-- The region has its name before a process is in it, its size before a process has tested the number, and the number
before a process has cached the pointers; the bits are set by processes that have finished. -/
structure RegionState.Sound (s : RegionState κ) : Prop where
  named : ∀ p, s.processes p ≠ .away → s.named = true
  sized : ∀ p, (s.processes p).Tested → s.sized = true
  initialized : ∀ p, (s.processes p).Announced → s.initialized_ = true
  flags : ∀ i, s.event_flag_ i = true → ∃ p, s.Finished p

/-- **What a step does**, `p` being the process that takes it. -/
structure Moved (s : RegionState κ) (a : InitAct κ) (s' : RegionState κ) (p : Process κ) : Prop where
  frame : ∀ q, q ≠ p → s'.processes q = s.processes q
  actor : ∀ q, a = .op q → q = p
  named : s'.named = true
  sized : s.sized = true → s'.sized = true
  initialized : s.initialized_ = true → s'.initialized_ = true
  tested : (s'.processes p).Tested → s'.sized = true
  announced : (s'.processes p).Announced → s'.initialized_ = true
  stays : s.Finished p → s'.Finished p
  finishes : s'.Finished p → s.Finished p ∨ a = .op p ∧ s.Finishes p
  finished : s.Finishes p → s'.Finished p
  flags : ∀ i, s'.event_flag_ i = true → s.event_flag_ i = true ∨ s'.Finished p
  pending : s'.Pending p → s.Pending p ∨ s.named = false ∨ s.initialized_ = false
  initialises : s.Pending p → s'.Pending p ∨ s.sized = false ∨ ((∃ q, s.Finished q) → s'.reinitialised)
  late : s'.reinitialised → s.reinitialised ∨ s.Pending p ∧ ∃ q, s.Finished q
  lost : s'.erased → s.erased ∨ s.Pending p ∧ ∃ i, s.event_flag_ i = true
  since : s.reinitialised → s'.reinitialised

open RegionState in
theorem RegionState.Sound.moved {cls : RegionClass} {a : InitAct κ} (h : s.Sound) (hs : InitAct.Step cls s a s') :
    ∃ p, Moved s a s' p := by
  cases hs with
  | create hp hnamed =>
    have hne : RegionInit.create cls ≠ [] := List.ne_nil_of_mem (test_mem_create cls)
    refine ⟨.creator, ?_⟩
    constructor <;> simp +contextual [goTo, hp, hnamed, hne, Finished, Finishes, Pending]
  | @open_ k hp hnamed =>
    refine ⟨.opener k, ?_⟩
    constructor <;> simp +contextual [goTo, hp, hnamed, RegionInit.open_, Finished, Finishes, Pending]
  | @killed p b rest hp hsized =>
    have hnamed := h.named p (by simp [hp])
    refine ⟨p, ?_⟩
    constructor <;> simp +contextual [goTo, hp, hnamed, hsized, Finished, Finishes, Pending]
  | @unset p b rest hp hsized hb =>
    have hnamed := h.named p (by simp [hp])
    have hne : initMutexAndCond cls ≠ [] := List.ne_nil_of_mem (initMutex_mem cls)
    refine ⟨p, ?_⟩
    constructor <;> simp +contextual [goTo, hp, hnamed, hsized, hne, Finished, Finishes, Pending]
    -- the process becomes one that is to initialise: it is the creator, or the number is unset
    rcases hb with rfl | hb
    · simp
    · simp [hb]
  | @set p rest hp hsized hinit =>
    have hnamed := h.named p (by simp [hp])
    refine ⟨p, ?_⟩
    constructor <;> simp +contextual [goTo, hp, hnamed, hsized, hinit, Finished, Finishes, Pending]
  | @setSize p rest hp | @setInitialized p rest hp | @cachePointers p rest hp =>
    have hnamed := h.named p (by simp [hp])
    have htested := h.sized p
    have hannounced := h.initialized p
    simp [hp] at htested hannounced
    refine ⟨p, ?_⟩
    constructor <;> simp +contextual [goTo, hp, hnamed, htested, hannounced, Finished, Finishes, Pending]
  | @initMutex p rest hp | @resetFlags p rest hp =>
    have hnamed := h.named p (by simp [hp])
    have htested := h.sized p
    have hannounced := h.initialized p
    simp [hp] at htested hannounced
    refine ⟨p, ?_⟩
    constructor <;> simp +contextual [goTo, noting, hp, hnamed, htested, hannounced, Finished, Finishes, Pending]
  | @lock p hp hmutex =>
    have hnamed := h.named p (by simp [hp])
    have hsized := h.sized p (by simp [hp])
    have hinit := h.initialized p (by simp [hp])
    refine ⟨p, ?_⟩
    constructor <;> simp +contextual [goTo, hp, hnamed, hsized, hinit, Finished, Finishes, Pending]
  | @trigger p i hcls hp hi =>
    have hnamed := h.named p (by simp [hp])
    have hsized := h.sized p (by rw [hp]; trivial)
    have hinit := h.initialized p (by rw [hp]; trivial)
    refine ⟨p, ?_⟩
    constructor <;> simp +contextual [hp, hnamed, hsized, hinit, Finished, Finishes, Pending]
  | @unlock p hp =>
    have hnamed := h.named p (by simp [hp])
    have hsized := h.sized p (by rw [hp]; trivial)
    have hinit := h.initialized p (by rw [hp]; trivial)
    refine ⟨p, ?_⟩
    constructor <;> simp +contextual [goTo, hp, hnamed, hsized, hinit, Finished, Finishes, Pending]

/-! ## What holds in every run -/

omit [DecidableEq κ] in
theorem init_sound : (RegionState.init : RegionState κ).Sound where
  named _ h := absurd rfl h
  sized _ h := h.elim
  initialized _ h := h.elim
  flags _ h := by cases h

omit [DecidableEq κ] in
theorem Moved.processes_of_ne {p q : Process κ} {a : InitAct κ} (hm : Moved s a s' p) {P : ProcessPc → Prop}
    (hq : q ≠ p) : P (s'.processes q) ↔ P (s.processes q) := by rw [hm.frame q hq]

/-- A process that has finished opening has done so for good. -/
theorem Moved.finished_stays {p : Process κ} {a : InitAct κ} (hm : Moved s a s' p) {q : Process κ} (hq : s.Finished q) :
    s'.Finished q := by
  by_cases hqp : q = p
  · subst hqp
    exact hm.stays hq
  · exact (hm.processes_of_ne hqp).2 hq

theorem Moved.sound {p : Process κ} {a : InitAct κ} (hm : Moved s a s' p) (h : s.Sound) : s'.Sound where
  named _ _ := hm.named
  sized q hq := by
    by_cases hqp : q = p
    · subst hqp
      exact hm.tested hq
    · exact hm.sized (h.sized q ((hm.processes_of_ne hqp).1 hq))
  initialized q hq := by
    by_cases hqp : q = p
    · subst hqp
      exact hm.announced hq
    · exact hm.initialized (h.initialized q ((hm.processes_of_ne hqp).1 hq))
  flags i hi := by
    rcases hm.flags i hi with hi | hp
    · obtain ⟨q, hq⟩ := h.flags i hi
      exact ⟨q, hm.finished_stays hq⟩
    · exact ⟨p, hp⟩

omit [DecidableEq κ] in
theorem RegionState.Finished.not_pending {q : Process κ} (h : s.Finished q) : ¬ s.Pending q :=
  ProcessPc.Finished.not_pending h

omit [DecidableEq κ] in
theorem finished_of_processes {p : Process κ} (h : s.processes p = .inside []) : s.Finished p := by
  unfold RegionState.Finished
  rw [h]
  rfl

/-- **After one process has finished, nobody is to initialise**, and nothing went wrong. -/
structure RegionState.Settled (s : RegionState κ) : Prop where
  sound : s.Sound
  done : ∀ q, s.Finished q → ∀ r, ¬ s.Pending r
  once : s.InitialisedOnce

omit [DecidableEq κ] in
theorem init_settled : (RegionState.init : RegionState κ).Settled where
  sound := init_sound
  done _ h := h.elim
  once := ⟨id, id⟩

/-- **A step that leaves no initialisation behind a process that finishes keeps the region settled.** -/
theorem RegionState.Settled.step {cls : RegionClass} {a : InitAct κ} (h : s.Settled) (hg : Alone s a)
    (hs : InitAct.Step cls s a s') : s'.Settled := by
  obtain ⟨p, hm⟩ := h.sound.moved hs
  refine ⟨hm.sound h.sound, fun q hq r hr => ?_, fun hlate => ?_, fun hlost => ?_⟩
  · by_cases hfirst : ∃ q₀, s.Finished q₀
    · -- the number is set, so that nobody becomes one who is to initialise
      obtain ⟨q₀, hq₀⟩ := hfirst
      have hnamed : s.named = true := by
        refine h.sound.named q₀ (fun haway => ?_)
        unfold RegionState.Finished at hq₀
        rw [haway] at hq₀
        exact hq₀
      have hinit : s.initialized_ = true := h.sound.initialized q₀ (ProcessPc.Finished.announced hq₀)
      by_cases hrp : r = p
      · subst hrp
        rcases hm.pending hr with hr | hno | hno
        · exact h.done q₀ hq₀ r hr
        · simp [hnamed] at hno
        · simp [hinit] at hno
      · exact h.done q₀ hq₀ r ((hm.processes_of_ne hrp).1 hr)
    · -- the process that moved is the first to finish
      have hqp : q = p := by
        by_contra hne
        exact hfirst ⟨q, (hm.processes_of_ne hne).1 hq⟩
      subst hqp
      rcases hm.finishes hq with hq | ⟨rfl, hlast⟩
      · exact hfirst ⟨q, hq⟩
      · by_cases hrq : r = q
        · subst hrq
          exact hq.not_pending hr
        · exact hg hlast r hrq ((hm.processes_of_ne hrq).1 hr)
  · rcases hm.late hlate with hlate | ⟨hp, q, hq⟩
    · exact h.once.once hlate
    · exact h.done q hq p hp
  · rcases hm.lost hlost with hlost | ⟨hp, i, hi⟩
    · exact h.once.kept hlost
    · obtain ⟨q, hq⟩ := h.sound.flags i hi
      exact h.done q hq p hp

/-- **Nothing is initialised again, and no event bit is lost**, in any state of any run in which nobody finishes opening
the region while another process is still to initialise. -/
theorem initialisedOnce_of_alone {cls : RegionClass} {as : List (InitAct κ)}
    (h : Trans.Run (InitAct.Step cls) Alone .init as s) : s.InitialisedOnce := by
  have hsettled : s.Settled :=
    h.invariant (P := RegionState.Settled) init_settled (fun _ _ _ hp hg hs => hp.step hg hs)
  exact hsettled.once

/-- It is too late, or will be when the process that is to initialise goes on. -/
def RegionState.Doomed (s : RegionState κ) : Prop := s.reinitialised ∨ (∃ q, s.Finished q) ∧ ∃ r, s.Pending r

theorem RegionState.Doomed.step {cls : RegionClass} {a : InitAct κ} (h : s.Doomed) (hsound : s.Sound)
    (hs : InitAct.Step cls s a s') : s'.Doomed := by
  obtain ⟨p, hm⟩ := hsound.moved hs
  rcases h with hlate | ⟨⟨q, hq⟩, r, hr⟩
  · exact .inl (hm.since hlate)
  · by_cases hrp : r = p
    · subst hrp
      rcases hm.initialises hr with hr | hno | hlate
      · exact .inr ⟨⟨q, hm.finished_stays hq⟩, r, hr⟩
      · have hsized : s.sized = true := hsound.sized q (ProcessPc.Finished.tested hq)
        simp [hsized] at hno
      · exact .inl (hlate ⟨q, hq⟩)
    · exact .inr ⟨⟨q, hm.finished_stays hq⟩, r, (hm.processes_of_ne hrp).2 hr⟩

/-- A process that finishes too early dooms the region. -/
theorem RegionState.Sound.doomed {cls : RegionClass} {a : InitAct κ} (h : s.Sound) (hg : ¬ Alone s a)
    (hs : InitAct.Step cls s a s') : s'.Doomed := by
  obtain ⟨p, hm⟩ := h.moved hs
  cases a with
  | op q =>
    obtain rfl := hm.actor q rfl
    simp only [Alone, not_forall, not_not] at hg
    obtain ⟨hlast, r, hrq, hr⟩ := hg
    exact .inr ⟨⟨q, hm.finished hlast⟩, r, (hm.processes_of_ne hrq).2 hr⟩
  | _ => exact absurd trivial hg

/-- **Whoever has finished too early finds the region initialised again** when the others have gone on to the end. -/
theorem alone_of_initialisedOnce {cls : RegionClass} {as : List (InitAct κ)}
    (h : Trans.Run (InitAct.Step cls) Trans.free .init as s) (hdone : ∀ p, ¬ s.Pending p) (honce : s.InitialisedOnce) :
    Trans.Run (InitAct.Step cls) Alone .init as s := by
  have hspared : ¬ s.Doomed := by
    rintro (hlate | ⟨-, r, hr⟩)
    · exact honce.once hlate
    · exact hdone r hr
  clear hdone honce
  induction h with
  | nil => exact .nil
  | @snoc as a t u hrun _ hs ih =>
    have hsound : t.Sound :=
      hrun.invariant (P := RegionState.Sound) init_sound fun _ _ _ hp _ hs => by
        obtain ⟨p, hm⟩ := hp.moved hs
        exact hm.sound hp
    have hg : Alone t a := by
      by_contra hg
      exact hspared (hsound.doomed hg hs)
    exact (ih fun hd => hspared (hd.step hsound hs)).snoc hg hs

/-- **When a region is initialised once**: it is in every run in which nobody finishes too early, and where it is, and
all have gone on to the end, nobody has. -/
theorem initialisedOnce_iff_of_run {cls : RegionClass} {as : List (InitAct κ)}
    (h : Trans.Run (InitAct.Step cls) Trans.free .init as s) :
    (Trans.Run (InitAct.Step cls) Alone .init as s → s.InitialisedOnce) ∧
      ((∀ p, ¬ s.Pending p) → (s.InitialisedOnce ↔ Trans.Run (InitAct.Step cls) Alone .init as s)) :=
  ⟨initialisedOnce_of_alone, fun hdone => ⟨alone_of_initialisedOnce h hdone, initialisedOnce_of_alone⟩⟩

/-! ## Three runs -/

omit [DecidableEq κ] in
theorem alone_of_length {p : Process κ} {program : List InitOp} (hp : s.processes p = .inside program)
    (hlen : program.length ≠ 1) : Alone s (.op p) := by
  rintro ⟨o, ho, -⟩
  rw [hp] at ho
  cases ho
  exact absurd rfl hlen

/-- `EventNotificationShm::Create` has returned from the `initMutexAndCond` of its `Open`. -/
structure HalfCreated (s : RegionState Unit) : Prop where
  creator : s.processes .creator = .inside (initMutexAndCond .eventNotification)
  opener : s.processes (.opener ()) = .away
  named : s.named = true
  sized : s.sized = true
  initialized : s.initialized_ = true

theorem exists_halfCreated : ∃ (as : List (InitAct Unit)) (s : RegionState Unit),
    Trans.Run (InitAct.Step .eventNotification) Alone .init as s ∧ HalfCreated s := by
  let s₀ : RegionState Unit := .init
  have h₀ : InitAct.Step .eventNotification s₀ .create _ := .create rfl rfl
  have hrun : Trans.Run (InitAct.Step .eventNotification) Alone s₀ _ _ := .single (by trivial) h₀
  have h₁ := hrun.snoc (by exact alone_of_length rfl (by decide)) (.setSize (p := .creator) rfl)
  have h₂ := h₁.snoc (by exact alone_of_length rfl (by decide)) (.unset (p := .creator) rfl rfl (.inl rfl))
  have h₃ := h₂.snoc (by exact alone_of_length rfl (by decide)) (.initMutex (p := .creator) rfl)
  have h₄ := h₃.snoc (by exact alone_of_length rfl (by decide)) (.setInitialized (p := .creator) rfl)
  have h₅ := h₄.snoc (by exact alone_of_length rfl (by decide)) (.resetFlags (p := .creator) rfl)
  have h₆ := h₅.snoc (by exact alone_of_length rfl (by decide)) (.cachePointers (p := .creator) rfl)
  exact ⟨_, _, h₆, rfl, rfl, rfl, rfl, rfl⟩

/-- The creator comes to its end before another process opens the region. -/
theorem initialisedOnce_of_late : ∃ s : RegionState Unit, s.Finished .creator ∧ s.Finished (.opener ()) ∧
    s.InitialisedOnce := by
  obtain ⟨as, s, hrun, h⟩ := exists_halfCreated
  have h₁ := hrun.snoc (alone_of_length h.creator (by decide)) (.initMutex h.creator)
  have h₂ := h₁.snoc (by exact alone_of_length rfl (by decide)) (.setInitialized (p := .creator) rfl)
  have h₃ := h₂.snoc (by exact alone_of_length rfl (by decide)) (.resetFlags (p := .creator) rfl)
  have h₄ := h₃.snoc (by
    rintro - (_ | ⟨⟨⟩⟩) hne hpending
    · exact hne rfl
    · have haway : (s.processes (.opener ())).Pending := hpending
      rw [h.opener] at haway
      exact haway) (.cachePointers (p := .creator) rfl)
  have h₅ := h₄.snoc (by trivial) (.open_ (k := ()) h.opener h.named)
  have h₆ := h₅.snoc (by
    rintro ⟨o, ho, hno⟩
    cases ho
    exact absurd rfl (hno false)) (.set (p := .opener ()) rfl h.sized rfl)
  have h₇ := h₆.snoc (by
    rintro - (_ | ⟨⟨⟩⟩) hne
    · exact (finished_of_processes rfl).not_pending
    · exact absurd rfl hne) (.cachePointers (p := .opener ()) rfl)
  exact ⟨_, finished_of_processes rfl, finished_of_processes rfl,
    (initialisedOnce_iff_of_run (h₇.weaken fun _ _ _ => trivial)).1 h₇⟩

/-- A process opens the region between the two initialisations of `EventNotificationShm::Create` and triggers an event,
which the second one takes away; and one opens a `ShmBase` region between its creation and its creator's test. -/
theorem not_always_initialisedOnce :
    (¬ ∀ (s : RegionState Unit) (as : List (InitAct Unit)),
      Trans.Run (InitAct.Step .eventNotification) Trans.free .init as s → s.InitialisedOnce) ∧
    ¬ ∀ (s : RegionState Unit) (as : List (InitAct Unit)),
      Trans.Run (InitAct.Step .shmBase) Trans.free .init as s → s.InitialisedOnce := by
  constructor
  · intro hall
    obtain ⟨as, s, hrun, h⟩ := exists_halfCreated
    have hfree : Trans.Run (InitAct.Step .eventNotification) Trans.free .init as s := hrun.weaken (fun _ _ _ => trivial)
    have h₁ := hfree.snoc trivial (.open_ h.opener h.named)
    have h₂ := h₁.snoc trivial (.set (p := .opener ()) rfl h.sized h.initialized)
    have h₃ := h₂.snoc trivial (.cachePointers (p := .opener ()) rfl)
    have h₄ := h₃.snoc trivial (.initMutex (p := .creator) h.creator)
    have h₅ := h₄.snoc trivial (.lock (p := .opener ()) rfl rfl)
    have h₆ := h₅.snoc trivial (.trigger (p := .opener ()) rfl rfl (show 5 < EVENT_MAX_COUNT by decide))
    have h₇ := h₆.snoc trivial (.setInitialized (p := .creator) rfl)
    have h₈ := h₇.snoc trivial (.resetFlags (p := .creator) rfl)
    exact (hall _ _ h₈).kept (.inr ⟨5, rfl⟩)
  · intro hall
    let s₀ : RegionState Unit := .init
    have h₀ : InitAct.Step .shmBase s₀ .create _ := .create rfl rfl
    have hrun : Trans.Run (InitAct.Step .shmBase) Trans.free s₀ _ _ := .single trivial h₀
    have h₁ := hrun.snoc trivial (.setSize (p := .creator) rfl)
    have h₂ := h₁.snoc trivial (.open_ (k := ()) rfl rfl)
    have h₃ := h₂.snoc trivial (.unset (p := .opener ()) rfl rfl (.inr rfl))
    have h₄ := h₃.snoc trivial (.initMutex (p := .opener ()) rfl)
    have h₅ := h₄.snoc trivial (.setInitialized (p := .opener ()) rfl)
    have h₆ := h₅.snoc trivial (.cachePointers (p := .opener ()) rfl)
    have h₇ := h₆.snoc trivial (.unset (p := .creator) rfl rfl (.inl rfl))
    have h₈ := h₇.snoc trivial (.initMutex (p := .creator) rfl)
    exact (hall _ _ h₈).once (.inr ⟨.opener (), rfl⟩)

end RegionInit
end MiniRos2

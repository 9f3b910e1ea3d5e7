import Mathlib.Data.Finset.Basic
import Mathlib.Logic.Function.Basic
import Mathlib.Tactic.Common
/-!
# Locks — threads that take and release mutexes

Each thread has a program, the list of what it still does; a mutex has an owner.  `Scoped R held p` says that a thread
which holds `held` and runs `p` releases what it takes and takes nothing that the rule `R` does not allow it there.
Where the rule orders the mutexes by rank no set of threads is deadlocked; where it allows exceptions, every deadlock
passes through one (`Deadlocked.exists_unranked`).  Two threads that each hold a mutex the other takes before it
releases its own stay so forever (`Crossed.step`).
-/
namespace Locks

/-- **One operation of a thread.** -/
inductive Op (M E : Type) where
  | lock (m : M)
  | unlock (m : M)
  | run (e : E)

variable {T M E : Type}

/-- A program that holds `m` while it runs `p`. -/
def critical (m : M) (p : List (Op M E)) : List (Op M E) := .lock m :: p ++ [.unlock m]

structure State (T M E : Type) where
  owner : M → Option T
  program : T → List (Op M E)

/-- Every mutex is free, and every thread idle. -/
def State.init : State T M E := ⟨fun _ => none, fun _ => []⟩

section Steps

variable [DecidableEq T] [DecidableEq M]

/-- **A thread takes its next operation**; a mutex is taken when it is free, and released by its owner. -/
inductive Step (s : State T M E) (t : T) : Op M E → State T M E → Prop where
  | lock {m : M} {p : List (Op M E)} : s.program t = .lock m :: p → s.owner m = none →
      Step s t (.lock m) ⟨Function.update s.owner m (some t), Function.update s.program t p⟩
  | unlock {m : M} {p : List (Op M E)} : s.program t = .unlock m :: p → s.owner m = some t →
      Step s t (.unlock m) ⟨Function.update s.owner m none, Function.update s.program t p⟩
  | run {e : E} {p : List (Op M E)} : s.program t = .run e :: p →
      Step s t (.run e) ⟨s.owner, Function.update s.program t p⟩

/-- A thread is given more to do. -/
def State.append (s : State T M E) (t : T) (p : List (Op M E)) : State T M E :=
  { s with program := Function.update s.program t (s.program t ++ p) }

/-- The next operation of a thread, if it can be taken. -/
def State.advance (s : State T M E) (t : T) : Option (Op M E × State T M E) :=
  match s.program t with
  | [] => none
  | .lock m :: p =>
    if s.owner m = none then
      some (.lock m, ⟨Function.update s.owner m (some t), Function.update s.program t p⟩)
    else none
  | .unlock m :: p =>
    if s.owner m = some t then
      some (.unlock m, ⟨Function.update s.owner m none, Function.update s.program t p⟩)
    else none
  | .run e :: p => some (.run e, ⟨s.owner, Function.update s.program t p⟩)

theorem State.step_of_advance {s s' : State T M E} {t : T} {o : Op M E} (h : s.advance t = some (o, s')) :
    Step s t o s' := by
  unfold State.advance at h
  split at h
  · cases h
  · rename_i m p hp
    split at h
    · rename_i hfree
      obtain ⟨rfl, rfl⟩ := Prod.mk.inj (Option.some.inj h)
      exact .lock hp hfree
    · cases h
  · rename_i m p hp
    split at h
    · rename_i hown
      obtain ⟨rfl, rfl⟩ := Prod.mk.inj (Option.some.inj h)
      exact .unlock hp hown
    · cases h
  · rename_i e p hp
    obtain ⟨rfl, rfl⟩ := Prod.mk.inj (Option.some.inj h)
    exact .run hp

/-! ## What one operation changes -/

section Frame

variable {s s' : State T M E} {t u : T} {m : M} {o : Op M E}

theorem Step.next (h : Step s t o s') : s.program t = o :: s'.program t := by
  cases h with
  | lock hp _ => simpa using hp
  | unlock hp _ => simpa using hp
  | run hp => simpa using hp

theorem Step.frame (h : Step s t o s') (hu : u ≠ t) : s'.program u = s.program u := by
  cases h with
  | lock _ _ => exact Function.update_of_ne hu _ _
  | unlock _ _ => exact Function.update_of_ne hu _ _
  | run _ => exact Function.update_of_ne hu _ _

theorem Step.ne_lock (h : Step s t o s') (hm : s.owner m = some u) : o ≠ .lock m := by
  rintro rfl
  cases h with
  | lock _ hfree =>
    rw [hm] at hfree
    cases hfree

theorem Step.owner_lock (h : Step s t (.lock m) s') : s'.owner m = some t := by
  cases h with
  | lock _ _ => exact Function.update_self m (some t) s.owner

theorem Step.owner (h : Step s t o s') (hm : s.owner m = some u) (hu : u = t → o ≠ .unlock m) :
    s'.owner m = some u := by
  have hlock := h.ne_lock hm
  cases h with
  | @lock n _ _ _ =>
    have hn : m ≠ n := fun heq => hlock (heq ▸ rfl)
    exact (Function.update_of_ne hn _ _).trans hm
  | @unlock n _ _ hown =>
    have hn : m ≠ n := by
      rintro rfl
      rw [hm, Option.some.injEq] at hown
      exact hu hown rfl
    exact (Function.update_of_ne hn _ _).trans hm
  | run _ => exact hm

/-- Whoever owns a mutex now owned it before, or has just taken it. -/
theorem Step.owner_cases (h : Step s t o s') (hm : s'.owner m = some u) :
    o ≠ .unlock m ∧ (s.owner m = some u ∨ u = t ∧ o = .lock m) := by
  cases h with
  | @lock n p _ _ =>
    refine ⟨nofun, ?_⟩
    by_cases hn : m = n
    · subst hn
      have hself : some t = some u := (Function.update_self m (some t) s.owner).symm.trans hm
      exact .inr ⟨(Option.some.inj hself).symm, rfl⟩
    · exact .inl ((Function.update_of_ne hn _ _).symm.trans hm)
  | @unlock n p _ _ =>
    have hn : m ≠ n := by
      rintro rfl
      have hself : none = some u := (Function.update_self m none s.owner).symm.trans hm
      cases hself
    refine ⟨fun heq => hn (Op.unlock.inj heq).symm, .inl ?_⟩
    exact (Function.update_of_ne hn _ _).symm.trans hm
  | run _ => exact ⟨nofun, .inl hm⟩

end Frame

/-! ## Scopes -/

/-- **A program that holds `held`, keeps the rule and releases everything.** -/
def Scoped (R : Finset M → Op M E → Prop) : Finset M → List (Op M E) → Prop
  | held, [] => held = ∅
  | held, .lock m :: p => R held (.lock m) ∧ Scoped R (insert m held) p
  | held, .unlock m :: p => m ∈ held ∧ Scoped R (held.erase m) p
  | held, .run e :: p => R held (.run e) ∧ Scoped R held p

/-- **A piece of a program that releases what it takes.** -/
def Block (R : Finset M → Op M E → Prop) (held : Finset M) (p : List (Op M E)) : Prop :=
  ∀ q, Scoped R held q → Scoped R held (p ++ q)

variable {R : Finset M → Op M E → Prop} {held : Finset M} {p q : List (Op M E)}

theorem Block.nil : Block R held ([] : List (Op M E)) := fun _ hq => hq

theorem Block.append (hp : Block R held p) (hq : Block R held q) : Block R held (p ++ q) := by
  intro r hr
  rw [List.append_assoc]
  exact hp _ (hq _ hr)

theorem Block.run {e : E} (h : R held (.run e)) : Block R held [.run e] := fun _ hq => ⟨h, hq⟩

theorem Block.critical {m : M} (hm : R held (.lock m)) (hn : m ∉ held) (hp : Block R (insert m held) p) :
    Block R held (critical m p) := by
  intro q hq
  have hend : Scoped R (insert m held) (.unlock m :: q) := by
    refine ⟨Finset.mem_insert_self m held, ?_⟩
    rw [Finset.erase_insert hn]
    exact hq
  have hbody := hp _ hend
  rw [Locks.critical, List.cons_append, List.cons_append, List.append_assoc]
  exact ⟨hm, hbody⟩

theorem Block.flatMap {β : Type} {f : β → List (Op M E)} :
    ∀ {l : List β}, (∀ b ∈ l, Block R held (f b)) → Block R held (l.flatMap f)
  | [], _ => .nil
  | b :: l, h => by
    rw [List.flatMap_cons]
    have hl : ∀ c ∈ l, Block R held (f c) := fun c hc => h c (List.mem_cons_of_mem b hc)
    exact (h b List.mem_cons_self).append (Block.flatMap hl)

theorem Block.scoped (h : Block R ∅ p) : Scoped R ∅ p := by
  have := h [] rfl
  rwa [List.append_nil] at this

theorem Scoped.append : ∀ {p : List (Op M E)} {held : Finset M}, Scoped R held p → Scoped R ∅ q → Scoped R held (p ++ q)
  | [], _, hp, hq => by
    obtain rfl := hp
    exact hq
  | .lock _ :: _, _, hp, hq => ⟨hp.1, Scoped.append hp.2 hq⟩
  | .unlock _ :: _, _, hp, hq => ⟨hp.1, Scoped.append hp.2 hq⟩
  | .run _ :: _, _, hp, hq => ⟨hp.1, Scoped.append hp.2 hq⟩

end Steps

/-! ## Every thread in its scope -/

section Sound

variable [DecidableEq T] [DecidableEq M]

/-- **Every thread owns what its program releases, and keeps its rule.** -/
def State.Sound (R : T → Finset M → Op M E → Prop) (s : State T M E) : Prop :=
  ∀ t, ∃ held : Finset M, (∀ m, s.owner m = some t ↔ m ∈ held) ∧ Scoped (R t) held (s.program t)

variable {R : T → Finset M → Op M E → Prop} {s s' : State T M E} {t : T}

omit [DecidableEq T] in
theorem State.Sound.init : (State.init : State T M E).Sound R := by
  intro t
  refine ⟨∅, fun m => ?_, rfl⟩
  simp [State.init]

/-- **One operation keeps every thread in its scope.** -/
theorem State.Sound.step {o : Op M E} (h : s.Sound R) (hs : Step s t o s') : s'.Sound R := by
  intro u
  obtain ⟨held, howner, hscope⟩ := h u
  cases hs with
  | @lock m p hp hfree =>
    by_cases hu : u = t
    · subst hu
      rw [hp] at hscope
      refine ⟨insert m held, fun n => ?_, ?_⟩
      · by_cases hn : n = m
        · subst hn
          simp
        · simp [howner, hn]
      · simpa using hscope.2
    · refine ⟨held, fun n => ?_, ?_⟩
      · by_cases hn : n = m
        · subst hn
          have hno : n ∉ held := fun hmem => by
            rw [← howner, hfree] at hmem
            cases hmem
          simp [hno, Ne.symm hu]
        · simp [Function.update_of_ne hn, howner]
      · simpa [Function.update_of_ne hu] using hscope
  | @unlock m p hp htm =>
    by_cases hu : u = t
    · subst hu
      rw [hp] at hscope
      refine ⟨held.erase m, fun n => ?_, ?_⟩
      · by_cases hn : n = m
        · subst hn
          simp
        · simp [howner, hn]
      · simpa using hscope.2
    · refine ⟨held, fun n => ?_, ?_⟩
      · by_cases hn : n = m
        · subst hn
          have hno : n ∉ held := fun hmem => by
            rw [← howner, htm, Option.some.injEq] at hmem
            exact hu hmem.symm
          simp [hno]
        · simp [Function.update_of_ne hn, howner]
      · simpa [Function.update_of_ne hu] using hscope
  | @run e p hp =>
    refine ⟨held, howner, ?_⟩
    by_cases hu : u = t
    · subst hu
      rw [hp] at hscope
      simpa using hscope.2
    · simpa [Function.update_of_ne hu] using hscope

theorem State.Sound.append {p : List (Op M E)} (h : s.Sound R) (hp : Scoped (R t) ∅ p) : (s.append t p).Sound R := by
  intro u
  obtain ⟨held, howner, hscope⟩ := h u
  refine ⟨held, howner, ?_⟩
  by_cases hu : u = t
  · subst hu
    simpa [State.append] using hscope.append hp
  · simpa [State.append, Function.update_of_ne hu] using hscope

omit [DecidableEq T] in
theorem State.Sound.idle (h : s.Sound R) (ht : s.program t = []) (m : M) : s.owner m ≠ some t := by
  obtain ⟨held, howner, hscope⟩ := h t
  rw [ht] at hscope
  obtain rfl := hscope
  exact fun hm => absurd ((howner m).1 hm) (Finset.notMem_empty m)

omit [DecidableEq T] in
/-- What the rule says of the next operation of a thread. -/
theorem State.Sound.next {o : Op M E} {p : List (Op M E)} (h : s.Sound R) (hp : s.program t = o :: p)
    (ho : ∀ m, o ≠ .unlock m) : ∃ held : Finset M, (∀ m, s.owner m = some t ↔ m ∈ held) ∧ R t held o := by
  obtain ⟨held, howner, hscope⟩ := h t
  rw [hp] at hscope
  refine ⟨held, howner, ?_⟩
  cases o with
  | lock m => exact hscope.1
  | unlock m => exact absurd rfl (ho m)
  | run e => exact hscope.1

end Sound

/-! ## Deadlock -/

section Deadlock

variable {s s' : State T M E}

/-- The thread waits for the mutex, unless the mutex is free. -/
def State.Wants (s : State T M E) (t : T) (m : M) : Prop := ∃ p, s.program t = .lock m :: p

/-- **A non-empty set of threads each of which waits for a mutex that another thread of the set owns.** -/
def State.Deadlocked (s : State T M E) (D : Set T) : Prop :=
  D.Nonempty ∧ ∀ t ∈ D, ∃ m, s.Wants t m ∧ ∃ u ∈ D, u ≠ t ∧ s.owner m = some u

theorem State.Wants.unique {t : T} {m n : M} (hm : s.Wants t m) (hn : s.Wants t n) : m = n := by
  obtain ⟨p, hp⟩ := hm
  obtain ⟨q, hq⟩ := hn
  rw [hp, List.cons.injEq, Op.lock.injEq] at hq
  exact hq.1

/-- **From every waiting thread of a deadlock the chain of owners leads to one that takes its mutexes out of order**:
the rank rises with each thread that takes them in order, and it is bounded. -/
theorem State.Deadlocked.exists_unranked {D : Set T} {rank : M → ℕ} {bound : ℕ} (hb : ∀ m, rank m ≤ bound)
    (h : s.Deadlocked D) {t₀ : T} {m₀ : M} (ht₀ : t₀ ∈ D) (hm₀ : s.Wants t₀ m₀) :
    ∃ t ∈ D, ∃ m n, s.Wants t m ∧ s.owner n = some t ∧ rank m₀ ≤ rank n ∧ rank m ≤ rank n := by
  by_contra hno
  have hrise : ∀ k, ∃ t ∈ D, ∃ m, s.Wants t m ∧ rank m₀ + k ≤ rank m := by
    intro k
    induction k with
    | zero => exact ⟨t₀, ht₀, m₀, hm₀, le_rfl⟩
    | succ k ih =>
      obtain ⟨t, ht, m, hm, hk⟩ := ih
      obtain ⟨m', hm', u, hu, -, hown⟩ := h.2 t ht
      obtain rfl := hm'.unique hm
      obtain ⟨n, hn, -⟩ := h.2 u hu
      refine ⟨u, hu, n, hn, ?_⟩
      by_contra hlt
      exact hno ⟨u, hu, n, m', hn, hown, by omega, by omega⟩
  obtain ⟨t, -, m, -, hm⟩ := hrise (bound + 1)
  have := hb m
  omega

/-! ## Two threads crossed -/

/-- The program takes `n` before it releases `m`. -/
def LocksBefore (n m : M) (p : List (Op M E)) : Prop := ∃ q r, p = q ++ .lock n :: r ∧ .unlock m ∉ q

/-- **Each of two threads holds a mutex that the other takes before it releases its own.** -/
structure State.Crossed (s : State T M E) (t u : T) (m n : M) : Prop where
  left : s.owner m = some t
  right : s.owner n = some u
  leftTakes : LocksBefore n m (s.program t)
  rightTakes : LocksBefore m n (s.program u)

theorem State.Crossed.symm {t u : T} {m n : M} (h : s.Crossed t u m n) : s.Crossed u t n m :=
  ⟨h.right, h.left, h.rightTakes, h.leftTakes⟩

/-- **The operation crosses the two threads**: one of them takes its mutex while the other holds its own, and both are
still to take the other's. -/
def State.Across (s : State T M E) (t u : T) (m n : M) (v : T) (o : Op M E) : Prop :=
  LocksBefore n m (s.program t) ∧ LocksBefore m n (s.program u) ∧
    (v = t ∧ o = .lock m ∧ s.owner n = some u ∨ v = u ∧ o = .lock n ∧ s.owner m = some t)

theorem LocksBefore.mem {n m : M} {p : List (Op M E)} (h : LocksBefore n m p) : .lock n ∈ p := by
  obtain ⟨q, r, rfl, -⟩ := h
  simp

theorem LocksBefore.head {n m : M} {p : List (Op M E)} : LocksBefore n m (.lock n :: p) :=
  ⟨[], p, rfl, List.not_mem_nil⟩

theorem LocksBefore.cons {n m : M} {o : Op M E} {p : List (Op M E)} (h : LocksBefore n m p) (ho : o ≠ .unlock m) :
    LocksBefore n m (o :: p) := by
  obtain ⟨q, r, rfl, hq⟩ := h
  refine ⟨o :: q, r, rfl, fun hmem => ?_⟩
  rcases List.mem_cons.1 hmem with heq | hmem
  · exact ho heq.symm
  · exact hq hmem

/-- Past an operation that is not the lock itself the lock is still to come, and the operation released nothing. -/
theorem LocksBefore.tail {n m : M} {o : Op M E} {p : List (Op M E)} (h : LocksBefore n m (o :: p)) (ho : o ≠ .lock n) :
    LocksBefore n m p ∧ o ≠ .unlock m := by
  obtain ⟨q, r, hp, hq⟩ := h
  cases q with
  | nil =>
    rw [List.nil_append, List.cons.injEq] at hp
    exact absurd hp.1 ho
  | cons o' q =>
    rw [List.cons_append, List.cons.injEq] at hp
    obtain ⟨rfl, rfl⟩ := hp
    have hne : o ≠ .unlock m := fun heq => hq (heq ▸ List.mem_cons_self)
    exact ⟨⟨q, r, rfl, fun hmem => hq (List.mem_cons_of_mem o hmem)⟩, hne⟩

theorem LocksBefore.append {n m : M} {p q : List (Op M E)} (h : LocksBefore n m p) : LocksBefore n m (p ++ q) := by
  obtain ⟨a, b, rfl, ha⟩ := h
  exact ⟨a, b ++ q, by simp, ha⟩

variable [DecidableEq T] [DecidableEq M] {t u v : T} {m n : M} {o : Op M E}

/-- What a thread is about to lock stays to come while another owns it, and until then nothing is released. -/
theorem Step.locksBefore (hs : Step s v o s') (hn : s.owner n = some u) (h : LocksBefore n m (s.program t)) :
    LocksBefore n m (s'.program t) ∧ (t = v → o ≠ .unlock m) := by
  by_cases htv : t = v
  · subst htv
    rw [hs.next] at h
    obtain ⟨htail, ho⟩ := h.tail (hs.ne_lock hn)
    exact ⟨htail, fun _ => ho⟩
  · rw [hs.frame htv]
    exact ⟨h, fun heq => absurd heq htv⟩

/-- **Crossed threads stay crossed**, whatever any thread does next. -/
theorem State.Crossed.step (h : s.Crossed t u m n) (hs : Step s v o s') : s'.Crossed t u m n := by
  obtain ⟨hleft, hkeep⟩ := hs.locksBefore h.right h.leftTakes
  obtain ⟨hright, hkeep'⟩ := hs.locksBefore h.left h.rightTakes
  exact ⟨hs.owner h.left hkeep, hs.owner h.right hkeep', hleft, hright⟩

theorem Step.locksBefore_of (hs : Step s v o s') (ho : o ≠ .unlock m) (h : LocksBefore n m (s'.program t)) :
    LocksBefore n m (s.program t) := by
  by_cases htv : t = v
  · subst htv
    rw [hs.next]
    exact h.cons ho
  · rw [← hs.frame htv]
    exact h

/-- **Two threads come to be crossed by an operation that crosses them.** -/
theorem State.Crossed.of_step (h : s'.Crossed t u m n) (hne : t ≠ u) (hs : Step s v o s') :
    s.Crossed t u m n ∨ s.Across t u m n v o := by
  obtain ⟨hm, hleft⟩ := hs.owner_cases h.left
  obtain ⟨hn, hright⟩ := hs.owner_cases h.right
  have htakes := hs.locksBefore_of hm h.leftTakes
  have hutakes := hs.locksBefore_of hn h.rightTakes
  rcases hleft with hleft | ⟨rfl, rfl⟩
  · rcases hright with hright | ⟨rfl, rfl⟩
    · exact .inl ⟨hleft, hright, htakes, hutakes⟩
    · exact .inr ⟨htakes, hutakes, .inr ⟨rfl, rfl, hleft⟩⟩
  · rcases hright with hright | ⟨hut, -⟩
    · exact .inr ⟨htakes, hutakes, .inl ⟨rfl, rfl, hright⟩⟩
    · exact absurd hut.symm hne

/-- **A thread that takes its mutex then is crossed.** -/
theorem State.Crossed.of_lock (hs : Step s t (.lock m) s') (hne : u ≠ t) (hn : s.owner n = some u)
    (ht : LocksBefore n m (s.program t)) (hu : LocksBefore m n (s.program u)) : s'.Crossed t u m n := by
  obtain ⟨hleft, -⟩ := hs.locksBefore hn ht
  refine ⟨hs.owner_lock, hs.owner hn (fun heq => absurd heq hne), hleft, ?_⟩
  rw [hs.frame hne]
  exact hu

theorem State.Across.crossed (h : s.Across t u m n v o) (hne : t ≠ u) (hs : Step s v o s') : s'.Crossed t u m n := by
  obtain ⟨ht, hu, ⟨rfl, rfl, hown⟩ | ⟨rfl, rfl, hown⟩⟩ := h
  · exact .of_lock hs hne.symm hown ht hu
  · exact (State.Crossed.of_lock hs hne hown hu ht).symm

omit [DecidableEq M] in
/-- More to do for a thread that holds neither mutex crosses nobody. -/
theorem State.Crossed.of_append {p : List (Op M E)} (h : (s.append v p).Crossed t u m n) (ht : s.owner m ≠ some v)
    (hu : s.owner n ≠ some v) : s.Crossed t u m n := by
  have htv : t ≠ v := by
    rintro rfl
    exact ht h.left
  have huv : u ≠ v := by
    rintro rfl
    exact hu h.right
  have hleft := h.leftTakes
  have hright := h.rightTakes
  simp only [State.append, Function.update_of_ne htv] at hleft
  simp only [State.append, Function.update_of_ne huv] at hright
  exact ⟨h.left, h.right, hleft, hright⟩

omit [DecidableEq M] in
theorem State.Crossed.append {p : List (Op M E)} (h : s.Crossed t u m n) : (s.append v p).Crossed t u m n := by
  have hgrow : ∀ (w : T) {a b : M}, LocksBefore a b (s.program w) → LocksBefore a b ((s.append v p).program w) := by
    intro w a b hw
    by_cases hwv : w = v
    · subst hwv
      simpa [State.append] using hw.append
    · simpa [State.append, Function.update_of_ne hwv] using hw
  exact ⟨h.left, h.right, hgrow t h.leftTakes, hgrow u h.rightTakes⟩

end Deadlock

end Locks

import MiniRos2.Lib.Trans
import Mathlib.Logic.Function.Basic
/-!
# Signal — a cell that is announced by one bit

Any number of writers and of readers share a cell and a bit.  A writer writes the cell and then sets the bit; a reader
that finds the bit set reads the cell and then clears the bit, whoever has set it meanwhile and whoever else is still to
find it; others may set or clear the bit at any time.  As long as every clear leaves each reader something to come back
for, no reader stays behind the cell (`read_of_run`); a clear that does not makes a reader miss what is in the cell
(`Step.lost`, `Lost.of_run`).
-/
namespace Signal

/-- Where a reader is: before it looks at the bit, with a bit that it found set, or with the bit to clear. -/
inductive Phase where
  | top
  | seen
  | read
  deriving DecidableEq

structure State (κ ι M : Type) where
  cell : M
  bit : Bool
  pending : κ → Bool
  phase : ι → Phase
  last : ι → M

inductive Act (κ ι M : Type) where
  | write (k : κ) (m : M)
  | announce (k : κ)
  | look (i : ι)
  | read (i : ι)
  | clear (i : ι)
  | put (b : Bool)

variable {κ ι M : Type}

/-- Without the bit, the reader has read the cell or will look at it again. -/
def State.Due (s : State κ ι M) (i : ι) : Prop :=
  s.last i = s.cell ∨ (∃ k, s.pending k = true) ∨ s.phase i = .seen

/-- The reader has read the cell or will look at it again. -/
def State.Awaited (s : State κ ι M) (i : ι) : Prop := s.bit = true ∨ s.Due i

/-- **Every writer is between writes, every reader at the top, and the bit is clear.** -/
structure State.Quiet (s : State κ ι M) : Prop where
  pending : ∀ k, s.pending k = false
  phase : ∀ i, s.phase i = .top
  bit : s.bit = false

theorem State.Awaited.read_of_quiet {s : State κ ι M} {i : ι} (h : s.Awaited i) (hq : s.Quiet) : s.last i = s.cell := by
  rcases h with h | h | ⟨k, hk⟩ | h
  · simp [hq.bit] at h
  · exact h
  · simp [hq.pending k] at hk
  · simp [hq.phase i] at h

section Steps

variable [DecidableEq κ] [DecidableEq ι]

def State.write (k : κ) (m : M) (s : State κ ι M) : State κ ι M :=
  { s with cell := m, pending := Function.update s.pending k true }

def State.announce (k : κ) (s : State κ ι M) : State κ ι M :=
  { s with bit := true, pending := Function.update s.pending k false }

def State.look (i : ι) (s : State κ ι M) : State κ ι M :=
  { s with phase := Function.update s.phase i (if s.bit then .seen else .top) }

def State.read (i : ι) (s : State κ ι M) : State κ ι M :=
  { s with last := Function.update s.last i s.cell, phase := Function.update s.phase i .read }

def State.clear (i : ι) (s : State κ ι M) : State κ ι M :=
  { s with bit := false, phase := Function.update s.phase i .top }

/-- Somebody else sets or clears the bit. -/
def State.put (b : Bool) (s : State κ ι M) : State κ ι M := { s with bit := b }

inductive Step (s : State κ ι M) : Act κ ι M → State κ ι M → Prop where
  | write {k : κ} {m : M} : s.pending k = false → Step s (.write k m) (s.write k m)
  | announce {k : κ} : s.pending k = true → Step s (.announce k) (s.announce k)
  | look {i : ι} : s.phase i = .top → Step s (.look i) (s.look i)
  | read {i : ι} : s.phase i = .seen → Step s (.read i) (s.read i)
  | clear {i : ι} : s.phase i = .read → Step s (.clear i) (s.clear i)
  | put {b : Bool} : Step s (.put b) (s.put b)

/-- **The bit is cleared only when no reader needs it.** -/
def State.Covers (s : State κ ι M) : Act κ ι M → Prop
  | .clear _ | .put false => ∀ i, s.Due i
  | _ => True

/-- **One covered step keeps every reader's cell awaited.** -/
theorem State.Awaited.step {s s' : State κ ι M} {a : Act κ ι M} {i : ι} (h : s.Awaited i) (hg : s.Covers a)
    (hs : Step s a s') : s'.Awaited i := by
  cases hs with
  | @write k m _ => exact .inr (.inr (.inl ⟨k, Function.update_self ..⟩))
  | announce _ => exact .inl rfl
  | @look j htop =>
    rcases h with h | h | h | h
    · exact .inl h
    · exact .inr (.inl h)
    · exact .inr (.inr (.inl h))
    · have hij : i ≠ j := by
        rintro rfl
        rw [htop] at h
        cases h
      exact .inr (.inr (.inr (by simpa [State.look, hij] using h)))
  | @read j _ =>
    by_cases hij : i = j
    · subst hij
      exact .inr (.inl (by simp [State.read]))
    · rcases h with h | h | h | h
      · exact .inl h
      · exact .inr (.inl (by simpa [State.read, hij] using h))
      · exact .inr (.inr (.inl h))
      · exact .inr (.inr (.inr (by simpa [State.read, hij] using h)))
  | @clear j hj =>
    rcases hg i with h | h | h
    · exact .inr (.inl h)
    · exact .inr (.inr (.inl h))
    · have hij : i ≠ j := by
        rintro rfl
        rw [hj] at h
        cases h
      exact .inr (.inr (.inr (by simpa [State.clear, hij] using h)))
  | @put b =>
    cases b with
    | true => exact .inl rfl
    | false => exact .inr (hg i)

/-- **No reader stays behind the cell**, in any quiet state of any run whose clears all leave every reader something to
come back for. -/
theorem read_of_run {s t : State κ ι M} {as : List (Act κ ι M)} (hs : ∀ i, s.last i = s.cell)
    (h : Trans.Run Step State.Covers s as t) (hq : t.Quiet) (i : ι) : t.last i = t.cell := by
  refine State.Awaited.read_of_quiet (h.invariant (P := fun s => s.Awaited i) (.inr (.inl (hs i))) ?_) hq
  exact fun _ _ _ hp hg hs => hp.step hg hs

/-! ## What is lost -/

/-- The reader is behind the cell, and nothing will make it look. -/
structure State.Lost (s : State κ ι M) (i : ι) : Prop where
  last : s.last i ≠ s.cell
  pending : ∀ k, s.pending k = false
  phase : s.phase i ≠ .seen
  bit : s.bit = false

/-- No writer writes, and nobody else sets the bit. -/
def Silent (_ : State κ ι M) : Act κ ι M → Prop
  | .write _ _ | .put true => False
  | _ => True

/-- **A step that is not covered makes a reader miss the cell.** -/
theorem Step.lost {s t : State κ ι M} {a : Act κ ι M} (h : Step s a t) (hg : ¬ s.Covers a) : ∃ i, t.Lost i := by
  have hmiss (hg : ¬ ∀ i, s.Due i) : ∃ i, s.last i ≠ s.cell ∧ (∀ k, s.pending k = false) ∧ s.phase i ≠ .seen := by
    obtain ⟨i, hi⟩ := not_forall.1 hg
    simp only [State.Due, not_or, not_exists, Bool.not_eq_true] at hi
    exact ⟨i, hi⟩
  cases h with
  | @clear j _ =>
    obtain ⟨i, hlast, hpending, hphase⟩ := hmiss hg
    refine ⟨i, hlast, hpending, ?_, rfl⟩
    by_cases hij : i = j
    · simp [State.clear, hij]
    · simpa [State.clear, hij] using hphase
  | @put b =>
    cases b with
    | true => exact absurd trivial hg
    | false =>
      obtain ⟨i, hlast, hpending, hphase⟩ := hmiss hg
      exact ⟨i, hlast, hpending, hphase, rfl⟩
  | _ => exact absurd trivial hg

/-- **What is lost stays lost** until the next write. -/
theorem State.Lost.of_run {s t : State κ ι M} {as : List (Act κ ι M)} {i : ι} (hs : s.Lost i)
    (h : Trans.Run Step Silent s as t) : t.Lost i := by
  refine h.invariant (P := fun s => s.Lost i) hs fun s a s' hl hg hs => ?_
  cases hs with
  | write _ => exact hg.elim
  | @announce k hk => simp [hl.pending k] at hk
  | @look j _ =>
    refine ⟨hl.last, hl.pending, ?_, hl.bit⟩
    by_cases hij : i = j
    · simp [State.look, hij, hl.bit]
    · simpa [State.look, hij] using hl.phase
  | @read j hj =>
    have hij : i ≠ j := by
      rintro rfl
      exact hl.phase hj
    exact ⟨by simpa [State.read, hij] using hl.last, hl.pending, by simpa [State.read, hij] using hl.phase, hl.bit⟩
  | @clear j _ =>
    refine ⟨hl.last, hl.pending, ?_, rfl⟩
    by_cases hij : i = j
    · simp [State.clear, hij]
    · simpa [State.clear, hij] using hl.phase
  | @put b =>
    cases b with
    | true => exact hg.elim
    | false => exact ⟨hl.last, hl.pending, hl.phase, rfl⟩

end Steps

end Signal

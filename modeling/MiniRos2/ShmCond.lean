import MiniRos2.Lib.Monitor
import Mathlib.Data.List.Induction
/-!
# ShmCond — a flag that one side sets and the other waits for

`Wait` sleeps until the flag is set, and resets it; `Signal` sets it and wakes one that sleeps.  Neither looks at what
`pthread_mutex_lock` returned.  `log` records what was done, in order, and nothing reads it.  While the locks succeed,
each `Wait` that returns has a `Signal` of its own, though one `Signal` may cover an earlier one, and nobody sleeps
while the flag is set, unless somebody is about to look at it or to wake him (`kept_of_run`).
-/
namespace MiniRos2
namespace ShmCond

open Monitor

inductive Call where
  | wait
  | signal

inductive Entry where
  | signalled
  | taken
  deriving DecidableEq

structure ShmCondData where
  data_ready : Bool
  log : List Entry

/-- Where a thread is in a call; `test` is the head of the loop. -/
inductive Point where
  | outside
  | enter (c : Call)
  | test
  | sleep
  | reset
  | set
  | notify
  | leave (c : Call)
  | done (c : Call)

/-- **The calls, instruction by instruction**; what the locks return is not looked at. -/
def instr : Point → Instr Point ShmCondData
  | .outside => .idle
  | .done _ => .idle
  | .enter .wait => .lock fun _ => .test
  | .enter .signal => .lock fun _ => .set
  | .test => .access fun x => (x, if x.data_ready then .reset else .sleep)
  | .sleep => .wait none fun _ => .test
  | .reset => .access fun x => (⟨false, x.log ++ [.taken]⟩, .leave .wait)
  | .set => .access fun x => (⟨true, x.log ++ [.signalled]⟩, .notify)
  | .notify => .notify false (.leave .signal)
  | .leave c => .unlock fun _ => .done c

def Begins : Point → Prop
  | .enter _ => True
  | _ => False

/-! ## What the calls are for -/

/-- There was a `Signal`, and no `Wait` has returned on it. -/
def Ready (log : List Entry) : Prop := ∃ l₁ l₂, log = l₁ ++ .signalled :: l₂ ∧ .taken ∉ l₂

/-- **Each `Wait` that returned had a `Signal`** that no other returned on. -/
def Paired (log : List Entry) : Prop := ∀ l₁ l₂, log = l₁ ++ .taken :: l₂ → Ready l₁

def Right (x : ShmCondData) : Prop := Paired x.log ∧ (x.data_ready = true ↔ Ready x.log)

theorem ready_signalled (log : List Entry) : Ready (log ++ [.signalled]) := ⟨log, [], rfl, List.not_mem_nil⟩

theorem not_ready_taken (log : List Entry) : ¬ Ready (log ++ [.taken]) := by
  rintro ⟨l₁, l₂, heq, hnot⟩
  rcases List.eq_nil_or_concat l₂ with rfl | ⟨l₂, x, rfl⟩
  · obtain ⟨-, hx⟩ := List.append_inj' heq rfl
    cases hx
  · rw [List.concat_eq_append, ← List.cons_append, ← List.append_assoc] at heq
    obtain ⟨-, hx⟩ := List.append_inj' heq rfl
    cases hx
    rw [List.concat_eq_append] at hnot
    exact hnot (List.mem_append_right _ (List.mem_singleton_self _))

theorem Paired.snoc {log : List Entry} {e : Entry} (h : Paired log) (he : e = .taken → Ready log) :
    Paired (log ++ [e]) := by
  intro l₁ l₂ heq
  rcases List.eq_nil_or_concat l₂ with rfl | ⟨l₂, x, rfl⟩
  · obtain ⟨rfl, hx⟩ := List.append_inj' heq rfl
    cases hx
    exact he rfl
  · rw [List.concat_eq_append, ← List.cons_append, ← List.append_assoc] at heq
    obtain ⟨hlog, -⟩ := List.append_inj' heq rfl
    exact h l₁ l₂ hlog

theorem Paired.of_append {log l : List Entry} (h : Paired (log ++ l)) : Paired log := fun l₁ l₂ heq =>
  h l₁ (l₂ ++ l) (by rw [heq, List.append_assoc, List.cons_append])

/-- No more `Wait`s return than there are `Signal`s; one fewer while the flag is set. -/
theorem Paired.count_le {log : List Entry} (h : Paired log) :
    log.count .taken ≤ log.count .signalled ∧ (Ready log → log.count .taken < log.count .signalled) := by
  induction log using List.reverseRecOn with
  | nil =>
    refine ⟨Nat.le_refl _, ?_⟩
    rintro ⟨l₁, l₂, heq, -⟩
    cases l₁ <;> cases heq
  | append_singleton log e ih =>
    obtain ⟨hle, hlt⟩ := ih h.of_append
    rw [List.count_append, List.count_append]
    cases e with
    | signalled =>
      have htaken : [Entry.signalled].count .taken = 0 := by decide
      have hsignalled : [Entry.signalled].count .signalled = 1 := by decide
      exact ⟨by omega, fun _ => by omega⟩
    | taken =>
      have htaken : [Entry.taken].count .taken = 1 := by decide
      have hsignalled : [Entry.taken].count .signalled = 0 := by decide
      have hready := hlt (h log [] rfl)
      exact ⟨by omega, fun hr => absurd hr (not_ready_taken log)⟩

/-! ## The outline -/

def held : Point → Bool
  | .outside => false
  | .enter _ => false
  | .done _ => false
  | _ => true

/-- What a thread in its section knows of the flag. -/
def known : Point → ShmCondData → Prop
  | .sleep, x => Right x ∧ x.data_ready = false
  | .reset, x => Right x ∧ x.data_ready = true
  | _, x => Right x

def outline : Outline Point ShmCondData := ⟨held, Right, known, fun _ _ => True⟩

/-- It will look at the flag, or wake somebody. -/
def alert : Point → Bool
  | .test => true
  | .reset => true
  | .notify => true
  | _ => false

/-- The locks succeed. -/
def Good (p : Point) (ret : Nat) : Prop := ∀ c, p = .enter c → ret = 0

theorem Right.of_known {p : Point} {x : ShmCondData} (h : known p x) : Right x := by
  cases p with
  | sleep => exact h.1
  | reset => exact h.1
  | _ => exact h

/-- **Every instruction fits.** -/
theorem checks {p : Point} {ret : Nat} (hp : Good p ret) : outline.Checks p ret (instr p) := by
  cases p with
  | outside => rfl
  | done c => rfl
  | enter c =>
    have hret : ret ≠ 0 → False := fun hne => hne (hp c rfl)
    cases c with
    | wait => exact ⟨rfl, fun x _ => ⟨fun _ hx => ⟨rfl, hx⟩, fun hne => (hret hne).elim⟩⟩
    | signal => exact ⟨rfl, fun x _ => ⟨fun _ hx => ⟨rfl, hx⟩, fun hne => (hret hne).elim⟩⟩
  | test =>
    refine ⟨fun _ x hx => ⟨?_, fun _ hq => hq⟩, nofun⟩
    show outline.Inside (if x.data_ready then .reset else .sleep) x
    split
    · rename_i hready
      exact ⟨rfl, hx, hready⟩
    · rename_i hready
      exact ⟨rfl, hx, (Bool.not_eq_true _).mp hready⟩
  | sleep => exact ⟨rfl, fun x hx => ⟨hx.1, trivial⟩, fun x _ _ hx => ⟨rfl, hx⟩⟩
  | reset =>
    refine ⟨fun _ x hx => ⟨⟨rfl, ?_, ?_⟩, fun _ hq => hq⟩, nofun⟩
    · exact hx.1.1.snoc (fun _ => hx.1.2.1 hx.2)
    · exact ⟨nofun, fun hr => absurd hr (not_ready_taken x.log)⟩
  | set =>
    refine ⟨fun _ x hx => ⟨⟨rfl, ?_, ?_⟩, fun _ hq => hq⟩, nofun⟩
    · exact Paired.snoc hx.1 nofun
    · exact ⟨fun _ => ready_signalled x.log, fun _ => rfl⟩
  | notify => exact ⟨fun _ x hx => ⟨rfl, hx⟩, nofun⟩
  | leave c => exact ⟨rfl, fun x hx => ⟨hx, rfl, trivial⟩⟩

/-- **Every instruction keeps watch over the flag.** -/
theorem watches (p : Point) (ret : Nat) :
    outline.Watches (fun x => x.data_ready = true) alert p ret (instr p) := by
  cases p with
  | outside => rfl
  | done c => rfl
  | enter c => cases c <;> exact nofun
  | test =>
    refine fun x _ hready => .inl ?_
    show alert (if x.data_ready then .reset else .sleep) = true
    split
    · rfl
    · contradiction
  | sleep =>
    refine ⟨fun x hx hready => ?_, rfl⟩
    have hready' : x.data_ready = true := hready
    rw [hx.2] at hready'
    cases hready'
  | reset => exact fun x _ hready => (by cases hready)
  | set => exact fun x _ _ => .inl rfl
  | notify => trivial
  | leave c => exact nofun

/-! ## Runs -/

variable {κ : Type} [DecidableEq κ] {t : State κ Point ShmCondData} {as : List (Act κ Point)}

/-- `Init`, and nobody calls. -/
def init : State κ Point ShmCondData := State.init ⟨false, []⟩ .outside

def Steps : State κ Point ShmCondData → Act κ Point → State κ Point ShmCondData → Prop := Step instr Begins

/-- **The calls do what they are for.** -/
structure Kept (t : State κ Point ShmCondData) : Prop where
  paired : Paired t.shared.log
  count : t.shared.log.count .taken ≤ t.shared.log.count .signalled
  ready : t.owner = none → (t.shared.data_ready = true ↔ Ready t.shared.log)
  wakeful : t.shared.data_ready = true → ∀ j, t.phase j = .blocked → ∃ k, Alert alert t k
  inside : ∀ k, t.owner = some k → held (t.point k) = true
  defined : t.undefined = false

theorem sound_of_run (h : Trans.Run Steps (fun s a => a.Meets Good s) init as t) :
    outline.Sound instr t ∧ Wakeful (fun x => x.data_ready = true) alert t := by
  have hright : Right ⟨false, []⟩ := by
    refine ⟨fun l₁ l₂ heq => ?_, nofun, ?_⟩
    · cases l₁ <;> cases heq
    · rintro ⟨l₁, l₂, heq, -⟩
      cases l₁ <;> cases heq
  refine wakeful_of_run (h.weaken (fun s a hg => ?_)) (Outline.sound_init hright ⟨rfl, trivial⟩)
    (fun p hp q x _ => ?_) (fun hready => (by cases hready))
  · cases a with
    | wake k ret => trivial
    | call k p => exact ⟨checks hg, watches _ _⟩
    | step k ret => exact ⟨checks hg, watches _ _⟩
  · cases p with
    | enter c => exact ⟨rfl, trivial⟩
    | _ => exact hp.elim

/-- **Whatever any number of threads and processes call, while the locks succeed**: each `Wait` that returned had a
`Signal` that no other returned on, and nobody is left asleep while the flag is set. -/
theorem kept_of_run (h : Trans.Run Steps (fun s a => a.Meets Good s) init as t) : Kept t := by
  obtain ⟨hsound, hwakeful⟩ := sound_of_run h
  have hpaired : Paired t.shared.log := by
    cases hown : t.owner with
    | none => exact (hsound.free hown).1
    | some k => exact (Right.of_known (hsound.known k hown)).1
  exact ⟨hpaired, hpaired.count_le.1, fun hown => (hsound.free hown).2, hwakeful,
    fun k hown => ((hsound.owner k).1 hown).2, hsound.defined⟩

/-- One thread waits and sleeps, another signals, and the first wakes and returns. -/
theorem kept_of_run_two : ∃ t : State Bool Point ShmCondData,
    t.point true = .done .wait ∧ t.point false = .done .signal ∧ Kept t := by
  have h₁ : Trans.Run Steps (fun s a => a.Meets Good s) (init : State Bool Point ShmCondData)
    [.call true (.enter .wait)] _ := .single (fun _ _ => rfl) (.call ⟨rfl, rfl⟩ trivial)
  have h₂ := run_advance h₁ true ⟨rfl, rfl⟩ (fun _ _ => rfl)
  have h₃ := run_advance h₂ true ⟨rfl, trivial⟩ (fun _ _ => rfl)
  have h₄ := h₃.snoc (a := Act.step true 0) (fun _ _ => rfl)
    (.wait (k := true) ⟨rfl, rfl⟩ rfl (fun _ ht => by cases ht))
  have h₅ := h₄.snoc (a := Act.call false (.enter .signal)) (fun _ _ => rfl)
    (.call (k := false) (p := Point.enter .signal) ⟨rfl, rfl⟩ trivial)
  have h₆ := run_advance h₅ false ⟨rfl, rfl⟩ (fun _ _ => rfl)
  have h₇ := run_advance h₆ false ⟨rfl, trivial⟩ (fun _ _ => rfl)
  have h₈ := h₇.snoc (a := Act.step false 0) (fun _ _ => rfl) (.signal (k := false) (j := true) ⟨rfl, rfl⟩ rfl)
  have h₉ := run_advance h₈ false ⟨rfl, rfl⟩ (fun _ _ => rfl)
  have h₁₀ := h₉.snoc (a := Act.step true 0) (fun _ _ => rfl) (.resume (k := true) rfl rfl rfl)
  have h₁₁ := run_advance h₁₀ true ⟨rfl, trivial⟩ (fun _ _ => rfl)
  have h₁₂ := run_advance h₁₁ true ⟨rfl, trivial⟩ (fun _ _ => rfl)
  have h₁₃ := run_advance h₁₂ true ⟨rfl, rfl⟩ (fun _ _ => rfl)
  exact ⟨_, rfl, rfl, kept_of_run h₁₃⟩

end ShmCond
end MiniRos2

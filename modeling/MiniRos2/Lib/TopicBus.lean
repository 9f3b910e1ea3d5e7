import MiniRos2.Lib.Trans
import Mathlib
/-!
# TopicBus — names that carry contents to subscriptions

Under every name there is one content, which publishers write over and then mark.  A node goes round: it looks which
names are marked, hands over what its subscriptions find under them, and then takes the marks away.  Everything happens
in steps of its own, whoever does what meanwhile; where the names are `lossy`, a mark may fail to be set.  No
subscription hands over more often than somebody went to mark its name (`taken_le_of_run`), and when no mark gets lost
and every mark that is taken away has been answered by all, none stays behind its content (`current_of_run`).
-/
namespace TopicBus

variable {κ ι ν C M V : Type}

/-- A content is written over, and handed over in place of an earlier value. -/
structure Medium (C M V : Type) where
  put : C → M → C
  hand : C → V → V

/-- Where a node is in its round: with the marks it saw and the names it has answered, or with marks to take away. -/
inductive Round (ν : Type) where
  | waiting
  | checking (seen : ν → Bool) (id : Nat) (taken : List ν)
  | clearing (taken : List ν)

structure Sub (ν V : Type) where
  name : ν
  msg : V

/-- `owed` is the name that a publisher still has to mark, and `handed` what the subscriptions handed over, with what
they had before. -/
@[ext] structure State (κ ι ν C V : Type) where
  owed : κ → Option ν
  content : ν → C
  pending : ν → Bool
  subscriptions : ι → List (Sub ν V)
  round : ι → Round ν
  handed : List (ι × Nat × V × V)

/-- The node has this subscription at this place. -/
abbrev State.Holds (s : State κ ι ν C V) (i : ι) (id : Nat) (x : Sub ν V) : Prop :=
  (s.subscriptions i)[id]? = some x

inductive Act (κ ι ν M : Type) where
  | store (k : κ) (n : ν) (m : M)
  | announce (k : κ) (n : ν)
  | wait (i : ι)
  | check (i : ι)
  | leave (i : ι)
  | clear (i : ι)
  | again (i : ι)

section Steps

variable [DecidableEq κ] [DecidableEq ι] [DecidableEq ν]

namespace State

def store (s : State κ ι ν C V) (k : κ) (n ch : ν) (c : C) : State κ ι ν C V :=
  { s with content := Function.update s.content ch c, owed := Function.update s.owed k (some n) }

def announce (s : State κ ι ν C V) (k : κ) (n : ν) : State κ ι ν C V :=
  { s with pending := Function.update s.pending n true, owed := Function.update s.owed k none }

/-- The mark gets lost. -/
def lose (s : State κ ι ν C V) (k : κ) : State κ ι ν C V := { s with owed := Function.update s.owed k none }

def goto (s : State κ ι ν C V) (i : ι) (r : Round ν) : State κ ι ν C V :=
  { s with round := Function.update s.round i r }

/-- The subscription hands over what it finds. -/
def take (s : State κ ι ν C V) (i : ι) (id : Nat) (x : Sub ν V) (v : V) : State κ ι ν C V :=
  { s with
    subscriptions := Function.update s.subscriptions i ((s.subscriptions i).set id ⟨x.name, v⟩)
    handed := s.handed ++ [(i, id, x.msg, v)] }

def clear (s : State κ ι ν C V) (n : ν) : State κ ι ν C V := { s with pending := Function.update s.pending n false }

end State

/-- **One step**; `channel k` is the name whose content a publisher writes. -/
inductive Step (μ : Medium C M V) (channel : κ → ν) (lossy : Prop) (s : State κ ι ν C V) :
    Act κ ι ν M → State κ ι ν C V → Prop where
  | store {k : κ} {n : ν} {m : M} : s.owed k = none →
      Step μ channel lossy s (.store k n m) (s.store k n (channel k) (μ.put (s.content (channel k)) m))
  | announce {k : κ} {n : ν} : s.owed k = some n → Step μ channel lossy s (.announce k n) (s.announce k n)
  | lose {k : κ} {n : ν} : lossy → s.owed k = some n → Step μ channel lossy s (.announce k n) (s.lose k)
  | wait {i : ι} : s.round i = .waiting → Step μ channel lossy s (.wait i) (s.goto i (.checking s.pending 0 []))
  | take {i : ι} {seen : ν → Bool} {id : Nat} {taken : List ν} {x : Sub ν V} :
      s.round i = .checking seen id taken → s.Holds i id x → seen x.name = true →
      Step μ channel lossy s (.check i)
        ((s.take i id x (μ.hand (s.content x.name) x.msg)).goto i (.checking seen (id + 1) (taken ++ [x.name])))
  | skip {i : ι} {seen : ν → Bool} {id : Nat} {taken : List ν} {x : Sub ν V} :
      s.round i = .checking seen id taken → s.Holds i id x → seen x.name = false →
      Step μ channel lossy s (.check i) (s.goto i (.checking seen (id + 1) taken))
  | leave {i : ι} {seen : ν → Bool} {id : Nat} {taken : List ν} : s.round i = .checking seen id taken →
      (∀ j x, id ≤ j → s.Holds i j x → seen x.name = false) →
      Step μ channel lossy s (.leave i) (s.goto i (.clearing taken))
  | clear {i : ι} {n : ν} {taken : List ν} : s.round i = .clearing (n :: taken) →
      Step μ channel lossy s (.clear i) ((s.clear n).goto i (.clearing taken))
  | again {i : ι} : s.round i = .clearing [] → Step μ channel lossy s (.again i) (s.goto i .waiting)

/-! ## The rounds -/

namespace State

variable (s : State κ ι ν C V)

omit [DecidableEq κ] [DecidableEq ν] in
@[simp] theorem goto_self (i : ι) (r : Round ν) : (s.goto i r).round i = r := Function.update_self ..

omit [DecidableEq κ] [DecidableEq ν] in
theorem goto_of_ne {i j : ι} (h : j ≠ i) (r : Round ν) : (s.goto i r).round j = s.round j := Function.update_of_ne h ..

omit [DecidableEq κ] [DecidableEq ν] in
theorem take_self (i : ι) (id : Nat) (x : Sub ν V) (v : V) :
    (s.take i id x v).subscriptions i = (s.subscriptions i).set id ⟨x.name, v⟩ := Function.update_self ..

omit [DecidableEq κ] [DecidableEq ν] in
theorem take_of_ne {i j : ι} (h : j ≠ i) (id : Nat) (x : Sub ν V) (v : V) :
    (s.take i id x v).subscriptions j = s.subscriptions j := Function.update_of_ne h ..

variable {s}

omit [DecidableEq κ] [DecidableEq ν] in
/-- A subscription that is there behind `take`. -/
theorem take_get {i j : ι} {id id' : Nat} {x y : Sub ν V} {v : V}
    (hx : s.Holds i id x) (h : (s.take i id x v).Holds j id' y) :
    s.Holds j id' y ∧ (j = i → id' ≠ id) ∨ j = i ∧ id' = id ∧ y = ⟨x.name, v⟩ := by
  by_cases hji : j = i
  · subst hji
    rw [Holds, take_self] at h
    by_cases hid : id' = id
    · subst hid
      obtain ⟨hlt, -⟩ := List.getElem?_eq_some_iff.1 hx
      rw [List.getElem?_set_self hlt] at h
      exact .inr ⟨rfl, rfl, (Option.some.inj h).symm⟩
    · rw [List.getElem?_set_ne (fun heq => hid heq.symm)] at h
      exact .inl ⟨h, fun _ => hid⟩
  · rw [Holds, take_of_ne s hji] at h
    exact .inl ⟨h, fun heq => absurd heq hji⟩

end State

/-! ## Nothing is missed -/

/-- What a subscription handed over last, with what it had before. -/
def State.last (s : State κ ι ν C V) (i : ι) (id : Nat) : Option (V × V) :=
  (s.handed.filter fun h => decide (h.1 = i ∧ h.2.1 = id)).getLast?.map fun h => h.2.2

omit [DecidableEq κ] [DecidableEq ν] in
theorem State.last_take_self (s : State κ ι ν C V) (i : ι) (id : Nat) (x : Sub ν V) (v : V) :
    (s.take i id x v).last i id = some (x.msg, v) := by
  have hlast : [(i, id, x.msg, v)].filter (fun h => decide (h.1 = i ∧ h.2.1 = id)) = [(i, id, x.msg, v)] :=
    List.filter_cons_of_pos (decide_eq_true ⟨rfl, rfl⟩)
  unfold State.last State.take
  dsimp only
  rw [List.filter_append, hlast, List.getLast?_concat]
  rfl

omit [DecidableEq κ] [DecidableEq ν] in
theorem State.last_take_of_ne (s : State κ ι ν C V) {i j : ι} {id id' : Nat} (h : j = i → id' ≠ id) (x : Sub ν V)
    (v : V) : (s.take i id x v).last j id' = s.last j id' := by
  have hnone : [(i, id, x.msg, v)].filter (fun h => decide (h.1 = j ∧ h.2.1 = id')) = [] :=
    List.filter_cons_of_neg fun heq => h (of_decide_eq_true heq).1.symm (of_decide_eq_true heq).2.symm
  unfold State.last State.take
  dsimp only
  rw [List.filter_append, hnone, List.append_nil]

/-- **What the subscription handed over last is what is there**, in place of what it had before that. -/
def State.Current (μ : Medium C M V) (s : State κ ι ν C V) (i : ι) (id : Nat) (x : Sub ν V) : Prop :=
  ∃ before, s.last i id = some (before, x.msg) ∧ x.msg = μ.hand (s.content x.name) before

/-- Without the mark, the subscription is up to date, or somebody will see to it. -/
def State.Due (μ : Medium C M V) (s : State κ ι ν C V) (i : ι) (id : Nat) (x : Sub ν V) : Prop :=
  s.Current μ i id x ∨ (∃ k, s.owed k = some x.name) ∨
    ∃ seen id' taken, s.round i = .checking seen id' taken ∧ seen x.name = true ∧ id' ≤ id

/-- **A publisher writes the content whose name it marks, and a mark is taken away when all have answered it.** -/
def State.Covers (μ : Medium C M V) (channel : κ → ν) (s : State κ ι ν C V) : Act κ ι ν M → Prop
  | .store k n _ => channel k = n
  | .clear i => ∀ n taken, s.round i = .clearing (n :: taken) →
      ∀ j id x, s.Holds j id x → x.name = n → s.Due μ j id x
  | _ => True

/-- **No publisher has a name to mark, no node is in a round, and nothing is marked.** -/
structure State.Quiet (s : State κ ι ν C V) : Prop where
  owed : ∀ k, s.owed k = none
  round : ∀ i, s.round i = .waiting
  pending : ∀ n, s.pending n = false

/-- **Every subscription is up to date, or its name is marked or will be.** -/
def State.Awaited (μ : Medium C M V) (s : State κ ι ν C V) : Prop :=
  ∀ i id x, s.Holds i id x → s.pending x.name = true ∨ s.Due μ i id x

section Awaited

variable {μ : Medium C M V} {channel : κ → ν} {lossy : Prop} {s t : State κ ι ν C V}

omit [DecidableEq κ] [DecidableEq ν] in
/-- A node that goes on in its round still looks at what it was to look at. -/
theorem State.Due.goto {i j : ι} {id : Nat} {x : Sub ν V} {r : Round ν} (h : s.Due μ j id x)
    (hr : j = i → ∀ seen id' taken, s.round i = .checking seen id' taken → seen x.name = true → id' ≤ id →
      ∃ id'' taken', r = .checking seen id'' taken' ∧ id'' ≤ id) : (s.goto i r).Due μ j id x := by
  rcases h with h | h | ⟨seen, id', taken, hround, hs, hle⟩
  · exact .inl h
  · exact .inr (.inl h)
  · by_cases hji : j = i
    · obtain ⟨id'', taken', heq, hle'⟩ := hr hji seen id' taken (hji ▸ hround) hs hle
      exact .inr (.inr ⟨seen, id'', taken', by rw [hji, State.goto_self, heq], hs, hle'⟩)
    · exact .inr (.inr ⟨seen, id', taken, (s.goto_of_ne hji r).trans hround, hs, hle⟩)

omit [DecidableEq κ] [DecidableEq ν] in
/-- So does a node that was not looking. -/
theorem State.Due.goto_of_passed {i j : ι} {id : Nat} {x : Sub ν V} {r : Round ν} (h : s.Due μ j id x)
    (hr : ∀ seen id' taken, s.round i ≠ .checking seen id' taken) : (s.goto i r).Due μ j id x :=
  h.goto fun _ seen id' taken hround => absurd hround (hr seen id' taken)

omit [DecidableEq ι] [DecidableEq ν] in
/-- What a publisher owes to others than this name. -/
theorem owed_update {k k' : κ} {n n' : ν} {o : Option ν} (hk : s.owed k' = some n') (h : s.owed k = none ∨
    s.owed k = some n ∧ n' ≠ n) : Function.update s.owed k o k' = some n' := by
  have hne : k' ≠ k := by
    rintro rfl
    rcases h with h | ⟨h, hn⟩
    · cases hk.symm.trans h
    · exact hn (Option.some.inj (hk.symm.trans h))
  exact (Function.update_of_ne hne ..).trans hk

theorem State.Awaited.store (h : s.Awaited μ) {k : κ} (howed : s.owed k = none) (c : C) :
    (s.store k (channel k) (channel k) c).Awaited μ := by
  intro i id x hx
  by_cases hn : x.name = channel k
  · exact .inr (.inr (.inl ⟨k, hn ▸ Function.update_self ..⟩))
  · refine (h i id x hx).imp_right ?_
    rintro (⟨before, hlast, hv⟩ | ⟨k', hk'⟩ | hseen)
    · refine .inl ⟨before, hlast, hv.trans ?_⟩
      exact congrArg (μ.hand · before) (Function.update_of_ne hn ..).symm
    · exact .inr (.inl ⟨k', owed_update (n := x.name) hk' (.inl howed)⟩)
    · exact .inr (.inr hseen)

theorem State.Awaited.announce (h : s.Awaited μ) {k : κ} {n : ν} (howed : s.owed k = some n) :
    (s.announce k n).Awaited μ := by
  intro i id x hx
  by_cases hn : x.name = n
  · exact .inl (hn ▸ Function.update_self ..)
  · refine (h i id x hx).imp (Function.update_of_ne hn ..).trans ?_
    rintro (heq | ⟨k', hk'⟩ | hseen)
    · exact .inl heq
    · exact .inr (.inl ⟨k', owed_update hk' (.inr ⟨howed, hn⟩)⟩)
    · exact .inr (.inr hseen)

omit [DecidableEq κ] [DecidableEq ν] in
theorem State.Awaited.take (h : s.Awaited μ) {i : ι} {seen : ν → Bool} {id : Nat} {taken taken' : List ν} {x : Sub ν V}
    (hr : s.round i = .checking seen id taken) (hx : s.Holds i id x) :
    ((s.take i id x (μ.hand (s.content x.name) x.msg)).goto i (.checking seen (id + 1) taken')).Awaited μ := by
  intro j id' y hy
  rcases State.take_get hx hy with ⟨hy, hid⟩ | ⟨rfl, rfl, rfl⟩
  · refine (h j id' y hy).imp_right fun hdue => State.Due.goto ?_ ?_
    · refine hdue.imp_left ?_
      rintro ⟨before, hlast, hv⟩
      exact ⟨before, (s.last_take_of_ne hid x _).trans hlast, hv⟩
    · intro hji seen' id'' taken' hround _ hle
      cases hr.symm.trans hround
      have hne := hid hji
      exact ⟨_, _, rfl, by omega⟩
  · exact .inr (.inl ⟨x.msg, s.last_take_self j id' x _, rfl⟩)

omit [DecidableEq κ] [DecidableEq ν] in
theorem State.Awaited.skip (h : s.Awaited μ) {i : ι} {seen : ν → Bool} {id : Nat} {taken : List ν} {x : Sub ν V}
    (hr : s.round i = .checking seen id taken) (hx : s.Holds i id x) (hseen : seen x.name = false) :
    (s.goto i (.checking seen (id + 1) taken)).Awaited μ := by
  refine fun j id' y hy => (h j id' y hy).imp_right fun hdue => hdue.goto ?_
  intro hji seen' id'' taken' hround hs hle
  cases hr.symm.trans hround
  have hne : id' ≠ id := by
    rintro rfl
    obtain rfl := Option.some.inj (hx.symm.trans (hji ▸ hy))
    rw [hseen] at hs
    cases hs
  exact ⟨_, _, rfl, by omega⟩

omit [DecidableEq κ] [DecidableEq ν] in
theorem State.Awaited.leave (h : s.Awaited μ) {i : ι} {seen : ν → Bool} {id : Nat} {taken : List ν}
    (hr : s.round i = .checking seen id taken) (hrest : ∀ j x, id ≤ j → s.Holds i j x → seen x.name = false) :
    (s.goto i (.clearing taken)).Awaited μ := by
  refine fun j id' y hy => (h j id' y hy).imp_right fun hdue => hdue.goto ?_
  intro hji seen' id'' taken' hround hs hle
  cases hr.symm.trans hround
  rw [hrest id' y hle (hji ▸ hy)] at hs
  cases hs

omit [DecidableEq κ] in
theorem State.Awaited.clear (h : s.Awaited μ) {i : ι} {n : ν} {taken : List ν} (hr : s.round i = .clearing (n :: taken))
    (hc : ∀ j id x, s.Holds j id x → x.name = n → s.Due μ j id x) :
    ((s.clear n).goto i (.clearing taken)).Awaited μ := by
  intro j id x hx
  -- whoever is still to look is in a round of its own
  have hkeep : s.Due μ j id x → ((s.clear n).goto i (.clearing taken)).Due μ j id x := fun hdue =>
    State.Due.goto_of_passed (s := s.clear n) hdue fun _ _ _ hround => by cases hr.symm.trans hround
  by_cases hn : x.name = n
  · exact .inr (hkeep (hc j id x hx hn))
  · exact (h j id x hx).imp (Function.update_of_ne hn ..).trans hkeep

/-- **One covered step**, when no mark gets lost. -/
theorem State.Awaited.step {a : Act κ ι ν M} (h : s.Awaited μ) (hl : ¬ lossy) (hc : s.Covers μ channel a)
    (hs : Step μ channel lossy s a t) : t.Awaited μ := by
  cases hs with
  | @store k n m howed =>
    obtain rfl : channel k = n := hc
    exact h.store howed _
  | announce howed => exact h.announce howed
  | lose hlossy _ => exact absurd hlossy hl
  | @wait i hr =>
    refine fun j id x hx => (h j id x hx).imp_right fun hdue => hdue.goto_of_passed fun _ _ _ hround => ?_
    cases hr.symm.trans hround
  | take hr hx _ => exact h.take hr hx
  | skip hr hx hseen => exact h.skip hr hx hseen
  | leave hr hrest => exact h.leave hr hrest
  | clear hr => exact h.clear hr (hc _ _ hr)
  | @again i hr =>
    refine fun j id x hx => (h j id x hx).imp_right fun hdue => hdue.goto_of_passed fun _ _ _ hround => ?_
    cases hr.symm.trans hround

/-- **Nothing is missed**: in every quiet state of a covered run, each subscription is up to date. -/
theorem current_of_run {s₀ : State κ ι ν C V} {as : List (Act κ ι ν M)} (h₀ : s₀.Awaited μ) (hl : ¬ lossy)
    (h : Trans.Run (Step μ channel lossy) (State.Covers μ channel) s₀ as s) (hq : s.Quiet) {i : ι} {id : Nat}
    {x : Sub ν V} (hx : s.Holds i id x) : s.Current μ i id x := by
  have hs : s.Awaited μ := h.invariant h₀ fun _ _ _ hp hg hs => hp.step hl hg hs
  rcases hs i id x hx with hp | heq | ⟨k, hk⟩ | ⟨seen, id', taken, hr, -⟩
  · rw [hq.pending] at hp
    cases hp
  · exact heq
  · rw [hq.owed] at hk
    cases hk
  · rw [hq.round] at hr
    cases hr

end Awaited

/-! ## Nothing is handed over twice -/

def Act.announces (n : ν) : Act κ ι ν M → Bool
  | .announce _ n' => decide (n' = n)
  | _ => false

/-- The marks there were at the start, and how often somebody went to make one. -/
def marks (marked : ν → Bool) (as : List (Act κ ι ν M)) (n : ν) : Nat := (marked n).toNat + as.countP (Act.announces n)

/-- How often a subscription has handed over. -/
def State.taken (s : State κ ι ν C V) (i : ι) (id : Nat) : Nat := s.handed.countP (fun h => h.1 = i ∧ h.2.1 = id)

/-- A mark that the subscription has not answered. -/
def State.Open (s : State κ ι ν C V) (i : ι) (id : Nat) (n : ν) : Prop :=
  match s.round i with
  | .waiting => s.pending n = true
  | .checking seen id' _ => if seen n = true then id' ≤ id else s.pending n = true
  | .clearing taken => n ∉ taken ∧ s.pending n = true

/-- A round has the names it passed among those it takes away. -/
def Round.Ok (subs : List (Sub ν V)) : Round ν → Prop
  | .checking seen id taken =>
    ∀ (j : Nat) (x : Sub ν V), j < id → subs[j]? = some x → seen x.name = true → x.name ∈ taken
  | _ => True

/-- What every step keeps. -/
structure State.Accounted (p : ν → Bool) (s : State κ ι ν C V) (as : List (Act κ ι ν M)) : Prop where
  rounds : ∀ i, (s.round i).Ok (s.subscriptions i)
  counted : ∀ i id x, s.Holds i id x → s.taken i id ≤ marks p as x.name ∧
    (s.Open i id x.name → s.taken i id < marks p as x.name)

section Marks

variable {p : ν → Bool} {as : List (Act κ ι ν M)} {s : State κ ι ν C V}

omit [DecidableEq κ] [DecidableEq ι] in
theorem marks_snoc (a : Act κ ι ν M) (n : ν) :
    marks p (as ++ [a]) n = marks p as n + if a.announces n then 1 else 0 := by
  rw [marks, marks, List.countP_append, List.countP_singleton, Nat.add_assoc]

omit [DecidableEq κ] [DecidableEq ι] in
theorem marks_le (a : Act κ ι ν M) (n : ν) : marks p as n ≤ marks p (as ++ [a]) n := by
  rw [marks_snoc]
  exact Nat.le_add_right ..

omit [DecidableEq κ] [DecidableEq ι] in
theorem marks_self (k : κ) (n : ν) : marks p (as ++ [.announce k n]) n = marks p as n + 1 := by
  rw [marks_snoc]
  simp [Act.announces]

omit [DecidableEq κ] [DecidableEq ι] [DecidableEq ν] in
theorem State.Open.of_pending {t : State κ ι ν C V} {i : ι} {id : Nat} {n : ν} (h : t.Open i id n)
    (hr : t.round i = s.round i) (hp : t.pending n = true → s.pending n = true) : s.Open i id n := by
  unfold State.Open at h ⊢
  rw [hr] at h
  cases hround : s.round i with
  | waiting =>
    rw [hround] at h
    exact hp h
  | checking seen id' taken =>
    rw [hround] at h
    dsimp only at h ⊢
    split at h
    · rwa [if_pos ‹_›]
    · rw [if_neg ‹_›]
      exact hp h
  | clearing taken =>
    rw [hround] at h
    exact ⟨h.1, hp h.2⟩

omit [DecidableEq κ] in
theorem State.Accounted.snoc (h : s.Accounted p as) (a : Act κ ι ν M) : s.Accounted p (as ++ [a]) where
  rounds := h.rounds
  counted i id x hx := by
    obtain ⟨hle, hlt⟩ := h.counted i id x hx
    have hmono : marks p as x.name ≤ marks p (as ++ [a]) x.name := marks_le a x.name
    exact ⟨Nat.le_trans hle hmono, fun ho => Nat.lt_of_lt_of_le (hlt ho) hmono⟩

omit [DecidableEq κ] in
/-- A node goes on in its round, and no mark is unanswered that was not. -/
theorem State.Accounted.goto (h : s.Accounted p as) {i : ι} {r : Round ν} (hr : r.Ok (s.subscriptions i))
    (hopen : ∀ id x, s.Holds i id x → (s.goto i r).Open i id x.name → s.Open i id x.name) :
    (s.goto i r).Accounted p as where
  rounds j := by
    by_cases hji : j = i
    · rw [hji, State.goto_self]
      exact hr
    · rw [State.goto_of_ne _ hji]
      exact h.rounds j
  counted j id x hx := by
    refine ⟨(h.counted j id x hx).1, fun ho => (h.counted j id x hx).2 ?_⟩
    by_cases hji : j = i
    · subst hji
      exact hopen id x hx ho
    · exact ho.of_pending (s.goto_of_ne hji r) fun hp => hp

omit [DecidableEq κ] [DecidableEq ι] in
theorem State.pending_of_clear {n n' : ν} (h : (s.clear n).pending n' = true) : n' ≠ n ∧ s.pending n' = true := by
  have hne : n' ≠ n := by
    rintro rfl
    have hself : (s.clear n').pending n' = false := Function.update_self ..
    rw [hself] at h
    cases h
  exact ⟨hne, (Function.update_of_ne hne ..).symm.trans h⟩

omit [DecidableEq κ] in
theorem State.Accounted.clear (h : s.Accounted p as) (n : ν) : (s.clear n).Accounted p as := by
  refine ⟨h.rounds, fun i id x hx => ⟨(h.counted i id x hx).1, fun ho => (h.counted i id x hx).2 ?_⟩⟩
  exact ho.of_pending rfl fun hp => (State.pending_of_clear hp).2

omit [DecidableEq κ] [DecidableEq ν] in
theorem State.taken_take (i j : ι) (id id' : Nat) (x : Sub ν V) (v : V) :
    (s.take i id x v).taken j id' = s.taken j id' + if i = j ∧ id = id' then 1 else 0 := by
  rw [State.taken, State.take, List.countP_append, List.countP_singleton]
  simp only [decide_eq_true_eq]
  rfl

omit [DecidableEq κ] in
theorem State.Accounted.start (hr : ∀ i, s.round i = .waiting) (hn : s.handed = []) :
    s.Accounted s.pending ([] : List (Act κ ι ν M)) where
  rounds i := by
    rw [hr]
    trivial
  counted i id x _ := by
    have hnone : s.taken i id = 0 := by
      rw [State.taken, hn]
      rfl
    refine ⟨hnone ▸ Nat.zero_le _, fun ho => ?_⟩
    unfold State.Open at ho
    rw [hr] at ho
    rw [hnone, marks, ho]
    exact Nat.one_pos

omit [DecidableEq κ] in
/-- A publisher's step marks at most the name it announces. -/
theorem State.Accounted.announce (h : s.Accounted p as) (k : κ) (n : ν) {t : State κ ι ν C V}
    (hround : t.round = s.round) (hsubs : t.subscriptions = s.subscriptions) (hhanded : t.handed = s.handed)
    (hp : ∀ n', n' ≠ n → t.pending n' = true → s.pending n' = true) : t.Accounted p (as ++ [.announce k n]) := by
  have h' := h.snoc (.announce k n)
  have htaken : t.taken = s.taken := by
    unfold State.taken
    rw [hhanded]
  refine ⟨fun i => by rw [hround, hsubs]; exact h'.rounds i, fun i id x hx => ?_⟩
  have hx' : s.Holds i id x := by
    unfold State.Holds at hx ⊢
    rwa [hsubs] at hx
  rw [htaken]
  refine ⟨(h'.counted i id x hx').1, fun ho => ?_⟩
  by_cases heq : x.name = n
  · have hself : marks p (as ++ [.announce k n]) n = marks p as n + 1 := marks_self k n
    have hle := (h.counted i id x hx').1
    rw [heq] at hle ⊢
    omega
  · exact (h'.counted i id x hx').2 (ho.of_pending (congrFun hround i) (hp x.name heq))

omit [DecidableEq κ] in
theorem State.Accounted.wait (h : s.Accounted p as) {i : ι} (hr : s.round i = .waiting) :
    (s.goto i (.checking s.pending 0 [])).Accounted p as := by
  refine h.goto (fun j x hj => absurd hj (Nat.not_lt_zero j)) fun id x _ ho => ?_
  unfold State.Open at ho ⊢
  rw [State.goto_self] at ho
  rw [hr]
  dsimp only at ho ⊢
  split at ho
  · assumption
  · exact ho

omit [DecidableEq κ] [DecidableEq ι] [DecidableEq ν] in
/-- Who is not reached yet is not reached one place further on. -/
theorem State.open_of_checking {t : State κ ι ν C V} {i : ι} {seen : ν → Bool} {id id' : Nat} {taken taken' : List ν}
    {n : ν} (hr : s.round i = .checking seen id taken) (ht : t.round i = .checking seen (id + 1) taken')
    (hp : t.pending = s.pending) (h : t.Open i id' n) : s.Open i id' n := by
  unfold State.Open at h ⊢
  rw [ht, hp] at h
  rw [hr]
  dsimp only at h ⊢
  split
  · rw [if_pos ‹_›] at h
    omega
  · rwa [if_neg ‹_›] at h

omit [DecidableEq κ] [DecidableEq ν] in
/-- The round that took what a subscription hands over. -/
theorem Round.ok_take {i : ι} {seen : ν → Bool} {id : Nat} {taken : List ν} {x : Sub ν V} {v : V}
    (h : (Round.checking seen id taken).Ok (s.subscriptions i)) (hx : s.Holds i id x) :
    (Round.checking seen (id + 1) (taken ++ [x.name])).Ok ((s.take i id x v).subscriptions i) := by
  intro j y hj hy hs
  rcases State.take_get hx (j := i) hy with ⟨hy, hne⟩ | ⟨-, -, rfl⟩
  · have hne' := hne rfl
    exact List.mem_append_left _ (h j y (by omega) hy hs)
  · exact List.mem_append_right _ (List.mem_singleton_self _)

omit [DecidableEq κ] in
/-- **The subscription had not answered the mark that the node saw**, and now it has. -/
theorem State.Accounted.take (h : s.Accounted p as) {i : ι} {seen : ν → Bool} {id : Nat} {taken : List ν} {x : Sub ν V}
    {v : V} (hr : s.round i = .checking seen id taken) (hx : s.Holds i id x) (hseen : seen x.name = true) :
    ((s.take i id x v).goto i (.checking seen (id + 1) (taken ++ [x.name]))).Accounted p as := by
  have hpassed := h.rounds i
  rw [hr] at hpassed
  refine ⟨fun j => ?_, fun j id' y hy => ?_⟩
  · by_cases hji : j = i
    · subst hji
      rw [State.goto_self]
      exact Round.ok_take hpassed hx
    · rw [State.goto_of_ne _ hji]
      show (s.round j).Ok ((s.take i id x v).subscriptions j)
      rw [State.take_of_ne _ hji]
      exact h.rounds j
  · show (s.take i id x v).taken j id' ≤ _ ∧ (State.Open _ j id' y.name → (s.take i id x v).taken j id' < _)
    rw [State.taken_take]
    rcases State.take_get hx hy with ⟨hy, hid⟩ | ⟨rfl, rfl, rfl⟩
    · rw [if_neg (fun heq => hid heq.1.symm heq.2.symm)]
      refine ⟨(h.counted j id' y hy).1, fun ho => (h.counted j id' y hy).2 ?_⟩
      by_cases hji : j = i
      · subst hji
        exact State.open_of_checking hr (State.goto_self _ j _) rfl ho
      · exact ho.of_pending (State.goto_of_ne _ hji _) fun hp => hp
    · have hopen : s.Open j id' x.name := by
        unfold State.Open
        rw [hr]
        dsimp only
        rw [if_pos hseen]
      rw [if_pos ⟨rfl, rfl⟩]
      refine ⟨(h.counted j id' x hx).2 hopen, fun ho => ?_⟩
      unfold State.Open at ho
      rw [State.goto_self] at ho
      dsimp only at ho
      rw [if_pos hseen] at ho
      omega

omit [DecidableEq κ] in
theorem State.Accounted.skip (h : s.Accounted p as) {i : ι} {seen : ν → Bool} {id : Nat} {taken : List ν} {x : Sub ν V}
    (hr : s.round i = .checking seen id taken) (hx : s.Holds i id x) (hseen : seen x.name = false) :
    (s.goto i (.checking seen (id + 1) taken)).Accounted p as := by
  have hpassed := h.rounds i
  rw [hr] at hpassed
  refine h.goto (fun j y hj hy hs => ?_) fun id' y _ ho => State.open_of_checking hr (State.goto_self _ i _) rfl ho
  by_cases hjid : j = id
  · subst hjid
    obtain rfl := Option.some.inj (hx.symm.trans hy)
    rw [hseen] at hs
    cases hs
  · exact hpassed j y (by omega) hy hs

omit [DecidableEq κ] in
theorem State.Accounted.leave (h : s.Accounted p as) {i : ι} {seen : ν → Bool} {id : Nat} {taken : List ν}
    (hr : s.round i = .checking seen id taken) : (s.goto i (.clearing taken)).Accounted p as := by
  refine h.goto trivial fun id' x hx ho => ?_
  have hpassed := h.rounds i
  unfold State.Open at ho ⊢
  rw [State.goto_self] at ho
  rw [hr] at hpassed ⊢
  dsimp only at ho ⊢
  split
  · by_cases hle : id ≤ id'
    · exact hle
    · exact absurd (hpassed id' x (by omega) hx ‹_›) ho.1
  · exact ho.2

omit [DecidableEq κ] in
theorem State.Accounted.takeAway (h : s.Accounted p as) {i : ι} {n : ν} {taken : List ν}
    (hr : s.round i = .clearing (n :: taken)) : ((s.clear n).goto i (.clearing taken)).Accounted p as := by
  refine (h.clear n).goto trivial fun id x _ ho => ?_
  unfold State.Open at ho ⊢
  rw [State.goto_self] at ho
  rw [show (s.clear n).round i = .clearing (n :: taken) from hr]
  refine ⟨fun hmem => ?_, ho.2⟩
  rcases List.mem_cons.1 hmem with heq | hmem
  · exact (State.pending_of_clear ho.2).1 heq
  · exact ho.1 hmem

omit [DecidableEq κ] in
theorem State.Accounted.again (h : s.Accounted p as) {i : ι} (hr : s.round i = .clearing []) :
    (s.goto i .waiting).Accounted p as := by
  refine h.goto trivial fun id x _ ho => ?_
  unfold State.Open at ho ⊢
  rw [State.goto_self] at ho
  rw [hr]
  exact ⟨List.not_mem_nil, ho⟩

/-- **One step.** -/
theorem State.Accounted.step {μ : Medium C M V} {channel : κ → ν} {lossy : Prop} {t : State κ ι ν C V}
    {a : Act κ ι ν M} (h : s.Accounted p as) (hs : Step μ channel lossy s a t) : t.Accounted p (as ++ [a]) := by
  have h' := h.snoc a
  cases hs with
  | store _ => exact ⟨h'.rounds, h'.counted⟩
  | @announce k n _ => exact h.announce k n rfl rfl rfl fun n' hn => (Function.update_of_ne hn ..).symm.trans
  | @lose k n _ _ => exact h.announce k n rfl rfl rfl fun _ _ hp => hp
  | wait hr => exact h'.wait hr
  | take hr hx hseen => exact h'.take hr hx hseen
  | skip hr hx hseen => exact h'.skip hr hx hseen
  | leave hr _ => exact h'.leave hr
  | clear hr => exact h'.takeAway hr
  | again hr => exact h'.again hr

end Marks

/-- **Nothing is handed over twice**: in every state of every run in which everybody waits at the start, a subscription
has handed over at most as often as somebody went to mark its name, and once more for a mark at the start. -/
theorem taken_le_of_run {μ : Medium C M V} {channel : κ → ν} {lossy : Prop} {s₀ s : State κ ι ν C V}
    {as : List (Act κ ι ν M)} (hr : ∀ i, s₀.round i = .waiting) (hn : s₀.handed = [])
    (h : Trans.Run (Step μ channel lossy) Trans.free s₀ as s) {i : ι} {id : Nat} {x : Sub ν V} (hx : s.Holds i id x) :
    s.taken i id ≤ marks s₀.pending as x.name := by
  have hs : s.Accounted s₀.pending as := by
    clear hx
    induction h with
    | nil => exact .start hr hn
    | snoc _ _ hstep ih => exact ih.step hstep
  exact (hs.counted i id x hx).1

end Steps

end TopicBus

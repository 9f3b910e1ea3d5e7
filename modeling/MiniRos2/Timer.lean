import MiniRos2.Lib.Throttle
import Mathlib.Algebra.Order.Ring.Int
/-!
# Timer — when `isReady` answers true

A `Timer` holds its period and the instant it was triggered at last.  The elapsed time is cut down to milliseconds in a
signed count; the comparison converts the count to the unsigned type of `period_`.  As long as the clock does not run
backwards the count is not negative, and the polls that are answered true are the instants that `Throttle.pass` lets
through (`readyAt_instants`).
-/
namespace MiniRos2

/-- `steady_clock::time_point`: nanoseconds from the start of the machine. -/
structure TimePoint where
  ns : Int64
  nonneg : 0 ≤ ns.toInt

def TimePoint.instant (t : TimePoint) : Int := t.ns.toInt

instance : LE TimePoint := ⟨fun a b => a.instant ≤ b.instant⟩

/-- `now - last`. -/
def TimePoint.since (now last : TimePoint) : Int64 := now.ns - last.ns

/-- `duration_cast<milliseconds>(elapsed).count()`. -/
def milliseconds (elapsed : Int64) : Int64 := elapsed / 1000000

structure Timer where
  period_ : UInt64
  last_triggered_ : TimePoint
  is_active_ : Bool

namespace Timer

/-- The constructor, at the instant `now`. -/
def make (period : UInt64) (now : TimePoint) : Timer := ⟨period, now, true⟩

def isReady (t : Timer) (now : TimePoint) : Bool × Timer :=
  if !t.is_active_ then (false, t)
  else if (milliseconds (now.since t.last_triggered_)).toUInt64 ≥ t.period_ then
    (true, { t with last_triggered_ := now })
  else (false, t)

/-- The polls of a run that are answered true. -/
def readyAt : Timer → List TimePoint → List TimePoint
  | _, [] => []
  | t, now :: polls =>
    match t.isReady now with
    | (true, t') => now :: readyAt t' polls
    | (false, t') => readyAt t' polls

/-- The period in nanoseconds. -/
def periodNs (period : UInt64) : Int := period.toNat * 1000000

end Timer

/-! ## The elapsed time -/

theorem TimePoint.le_iff {a b : TimePoint} : a ≤ b ↔ a.instant ≤ b.instant := Iff.rfl

instance : Trans (α := TimePoint) (· ≤ ·) (· ≤ ·) (· ≤ ·) := ⟨fun hab hbc => Int.le_trans hab hbc⟩

theorem TimePoint.toInt_since {now last : TimePoint} (h : last ≤ now) :
    (now.since last).toInt = now.instant - last.instant := by
  rw [TimePoint.le_iff] at h
  unfold TimePoint.instant at *
  have hnow := now.ns.toInt_lt
  have hlast := last.nonneg
  rw [TimePoint.since, Int64.toInt_sub, Int.bmod_eq_of_le] <;> omega

theorem toInt_milliseconds {e : Int64} (h : 0 ≤ e.toInt) : (milliseconds e).toInt = e.toInt / 1000000 := by
  rw [milliseconds, Int64.toInt_div_of_ne_right _ _ (by decide), Int.tdiv_eq_ediv_of_nonneg h]
  rfl

/-- A count that is not negative keeps its value. -/
theorem toNat_toUInt64 {e : Int64} (h : 0 ≤ e.toInt) : (e.toUInt64.toNat : Int) = e.toInt := by
  have hle : (0 : Int64) ≤ e := Int64.le_iff_toInt_le.2 h
  rw [Int64.toNat_toUInt64_of_le hle]
  exact Int.toNat_of_nonneg h

/-- **When the comparison holds**: the truncation loses nothing against a whole number of milliseconds. -/
theorem period_le_iff {period : UInt64} {now last : TimePoint} (h : last ≤ now) :
    (milliseconds (now.since last)).toUInt64 ≥ period ↔ Timer.periodNs period ≤ now.instant - last.instant := by
  have hsince := TimePoint.toInt_since h
  have hpos : 0 ≤ (now.since last).toInt := by
    rw [hsince]
    exact Int.sub_nonneg_of_le h
  have hms := toInt_milliseconds hpos
  have hcount := toNat_toUInt64 (e := milliseconds (now.since last)) (by omega)
  rw [ge_iff_le, UInt64.le_iff_toNat_le]
  unfold Timer.periodNs
  omega

namespace Timer

theorem isReady_of_active {t : Timer} {now : TimePoint} (ha : t.is_active_ = true)
    (h : t.last_triggered_ ≤ now) :
    t.isReady now = if periodNs t.period_ ≤ now.instant - t.last_triggered_.instant then
      (true, { t with last_triggered_ := now }) else (false, t) := by
  unfold isReady
  rw [if_neg (by simp [ha])]
  simp only [period_le_iff h]

/-- **The polls answered true are the instants a rate limiter lets through.** -/
theorem readyAt_instants : ∀ (polls : List TimePoint) (t : Timer), t.is_active_ = true →
    (t.last_triggered_ :: polls).Pairwise (· ≤ ·) →
    (t.readyAt polls).map TimePoint.instant =
      Throttle.pass (periodNs t.period_) t.last_triggered_.instant (polls.map TimePoint.instant)
  | [], _, _, _ => rfl
  | now :: polls, t, ha, h => by
    rw [List.pairwise_cons, List.pairwise_cons] at h
    obtain ⟨hlast, hnow, hpolls⟩ := h
    rw [readyAt, isReady_of_active ha (hlast now List.mem_cons_self), List.map_cons, Throttle.pass]
    by_cases hp : periodNs t.period_ ≤ now.instant - t.last_triggered_.instant
    · rw [if_pos hp, if_pos hp, List.map_cons, readyAt_instants polls { t with last_triggered_ := now } ha
        (List.pairwise_cons.2 ⟨hnow, hpolls⟩)]
    · rw [if_neg hp, if_neg hp, readyAt_instants polls t ha
        (List.pairwise_cons.2 ⟨fun p hm => hlast p (List.mem_cons_of_mem _ hm), hpolls⟩)]

/-! ## The rate -/

theorem periodNs_pos {period : UInt64} (hp : 0 < period) : 0 < periodNs period := by
  have hpos : 0 < period.toNat := UInt64.lt_iff_toNat_lt.1 hp
  unfold periodNs
  omega

section Rate

variable {period : UInt64} {start : TimePoint} {polls : List TimePoint}

theorem readyAt_make (period : UInt64) (hmono : (start :: polls).IsChain (· ≤ ·)) :
    ((make period start).readyAt polls).map TimePoint.instant =
      Throttle.pass (periodNs period) start.instant (polls.map TimePoint.instant) :=
  readyAt_instants polls (make period start) rfl hmono.pairwise

theorem readyAt_apart (hmono : (start :: polls).IsChain (· ≤ ·)) :
    ((make period start).readyAt polls).IsChain (fun a b => periodNs period ≤ b.instant - a.instant) := by
  have hchain := (Throttle.pass_isChain (periodNs period) start.instant (polls.map TimePoint.instant)).tail
  rw [List.tail_cons, ← readyAt_make period hmono] at hchain
  exact (List.isChain_map _).1 hchain

theorem length_readyAt_le (hp : 0 < period) (hmono : (start :: polls).IsChain (· ≤ ·)) (T : Int) :
    (((make period start).readyAt polls).filter (fun t => decide (t.instant ≤ T))).length ≤
      (T - start.instant).toNat / (period.toNat * 1000000) := by
  have hd := periodNs_pos hp
  have hlength : (((make period start).readyAt polls).filter (fun t => decide (t.instant ≤ T))).length =
      ((Throttle.pass (periodNs period) start.instant (polls.map TimePoint.instant)).filter (· ≤ T)).length := by
    rw [← readyAt_make period hmono, List.filter_map, List.length_map]
    rfl
  rw [hlength, Nat.le_div_iff_mul_le (by unfold periodNs at hd; omega)]
  rcases Int.lt_or_le T start.instant with hT | hT
  · rw [Throttle.filter_eq_nil hd.le _ hT]
    simp
  · have hcount := Throttle.nsmul_length_filter_le hd.le (polls.map TimePoint.instant) hT
    have hcast : ((period.toNat * 1000000 : Nat) : Int) = periodNs period := Int.natCast_mul _ _
    rw [Int.le_toNat (by omega), Int.natCast_mul, hcast]
    rwa [nsmul_eq_mul] at hcount

theorem readyAt_gaps (hp : 0 < period) (hmono : (start :: polls).IsChain (· ≤ ·)) {g : Int}
    (hg : polls.IsChain (fun a b => b.instant - a.instant ≤ g)) :
    ((make period start).readyAt polls).IsChain (fun a b => b.instant - a.instant < periodNs period + g) := by
  have hgaps := Throttle.pass_gaps (periodNs_pos hp) start.instant (polls.map TimePoint.instant)
    ((List.isChain_map _).2 hg)
  rw [← readyAt_make period hmono] at hgaps
  exact (List.isChain_map _).1 hgaps

end Rate

/-- **The rate of a timer**: polls answered true one after the other are a period apart; up to `T` there are at most as
many as there are periods since the start; and polls that are at most `g` apart leave gaps of less than a period and
`g`. -/
theorem rate (period : UInt64) (start : TimePoint) (polls : List TimePoint) (hp : 0 < period)
    (hmono : (start :: polls).IsChain (· ≤ ·)) :
    ((make period start).readyAt polls).IsChain (fun a b => periodNs period ≤ b.instant - a.instant) ∧
    (∀ T : Int, (((make period start).readyAt polls).filter (fun t => decide (t.instant ≤ T))).length ≤
      (T - start.instant).toNat / (period.toNat * 1000000)) ∧
    (∀ g : Int, polls.IsChain (fun a b => b.instant - a.instant ≤ g) →
      ((make period start).readyAt polls).IsChain (fun a b => b.instant - a.instant < periodNs period + g)) :=
  ⟨readyAt_apart hmono, length_readyAt_le hp hmono, fun _ hg => readyAt_gaps hp hmono hg⟩

/-- Three polls of a timer of one millisecond. -/
theorem rate_three : ∃ (start : TimePoint) (polls : List TimePoint), polls.length = 3 ∧
    ((make 1 start).readyAt polls).IsChain (fun a b => periodNs 1 ≤ b.instant - a.instant) ∧
    (∀ T : Int, (((make 1 start).readyAt polls).filter (fun t => decide (t.instant ≤ T))).length ≤
      (T - start.instant).toNat / ((1 : UInt64).toNat * 1000000)) ∧
    (∀ g : Int, polls.IsChain (fun a b => b.instant - a.instant ≤ g) →
      ((make 1 start).readyAt polls).IsChain (fun a b => b.instant - a.instant < periodNs 1 + g)) :=
  ⟨⟨0, by decide⟩, [⟨0, by decide⟩, ⟨1000001, by decide⟩, ⟨2500000, by decide⟩], rfl,
    rate 1 ⟨0, by decide⟩ [⟨0, by decide⟩, ⟨1000001, by decide⟩, ⟨2500000, by decide⟩] (by decide)
      (by simp [TimePoint.le_iff, TimePoint.instant])⟩

end Timer

end MiniRos2

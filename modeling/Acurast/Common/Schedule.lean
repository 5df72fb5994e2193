import Acurast.Base.Checked
import Mathlib.Data.List.Range

/-! The schedule of a job: when its executions start, which of them is current, and whether they meet
a given period. Times are milliseconds in 64 bits. -/

namespace Acurast

open Base

structure Schedule where
  duration : ℕ
  startTime : ℕ
  endTime : ℕ
  interval : ℕ
  maxStartDelay : ℕ
  fits : ∀ n ∈ [duration, startTime, endTime, interval, maxStartDelay], n < 2 ^ 64 := by decide
  deriving DecidableEq

structure ScheduleIter where
  delayedStartTime : ℕ
  delayedEndTime : ℕ
  interval : ℕ
  current : Option ℕ
  deriving DecidableEq

def ScheduleIter.next (it : ScheduleIter) : Option ℕ × ScheduleIter :=
  match it.current with
  | none =>
    let current := if it.delayedStartTime < it.delayedEndTime then some it.delayedStartTime else none
    (current, { it with current })
  | some curr =>
    match checkedAdd 64 curr it.interval with
    | none => (none, it)
    | some next =>
      let current := if next < it.delayedEndTime then some next else none
      (current, { it with current })

def ScheduleIter.collect : ℕ → ScheduleIter → List ℕ
  | 0, _ => []
  | fuel + 1, it =>
    match it.next with
    | (none, _) => []
    | (some start, it) => start :: ScheduleIter.collect fuel it

namespace Schedule

def executionCount (s : Schedule) : ℕ :=
  ((((checkedSub s.endTime s.startTime).bind fun period => checkedSub period 1).bind fun last =>
    checkedDiv last s.interval).bind fun count => checkedAdd 64 count 1).getD 0

def iter (s : Schedule) (startDelay : ℕ) : Option ScheduleIter := do
  let delayedStartTime ← checkedAdd 64 s.startTime startDelay
  let delayedEndTime ← checkedAdd 64 s.endTime startDelay
  pure ⟨delayedStartTime, delayedEndTime, s.interval, none⟩

def starts (s : Schedule) (startDelay : ℕ) : Option (List ℕ) :=
  (s.iter startDelay).map (ScheduleIter.collect (s.executionCount + 1))

def nthStartTime (s : Schedule) (startDelay executionIndex : ℕ) : Option ℕ :=
  if s.executionCount ≤ executionIndex then none
  else do
    let first ← checkedAdd 64 s.startTime startDelay
    let later ← checkedMul 64 s.interval executionIndex
    checkedAdd 64 first later

def currentExecutionIndex (s : Schedule) (startDelay now : ℕ) : Option ℕ :=
  let actualStart := saturatingAdd 64 s.startTime startDelay
  if now < actualStart then none
  else some (min ((now - actualStart) / s.interval) (s.executionCount - 1))

def nextExecutionIndex (s : Schedule) (startDelay now : ℕ) : ℕ :=
  ((s.currentExecutionIndex startDelay now).map (· + 1)).getD 0

def actualStart (s : Schedule) (startDelay : ℕ) : ℕ := saturatingAdd 64 s.startTime startDelay

def actualEnd (s : Schedule) (actualStart : ℕ) : ℕ :=
  if 0 < s.executionCount then
    saturatingAdd 64 (saturatingAdd 64 actualStart (saturatingMul 64 (s.executionCount - 1) s.interval))
      s.duration
  else actualStart

def isExpired (s : Schedule) (now reportTolerance : ℕ) : Bool :=
  saturatingAdd 64 (s.actualEnd (s.actualStart s.maxStartDelay)) reportTolerance < now

def range (s : Schedule) (startDelay : ℕ) : ℕ × ℕ :=
  (s.actualStart startDelay, s.actualEnd (s.actualStart startDelay))

def overlaps (s : Schedule) (startDelay : ℕ) (bounds : ℕ × ℕ) : Bool :=
  let (a, b) := bounds
  let (start, stop) := s.range startDelay
  if b ≤ a ∨ start = stop ∨ b ≤ start ∨ stop ≤ a then false
  else
    -- a period that begins before the first start is taken to begin at `start`, not at zero
    let relativeA := (checkedSub a start).getD start
    match checkedSub b start with
    | some relativeB =>
      let a := relativeA % s.interval
      let b := if relativeB % s.interval = 0 then s.interval else relativeB % s.interval
      b < a ∨ a < s.duration ∨ s.interval ≤ b - a
    | none => false

variable {s : Schedule} {startDelay delay now i : ℕ}

structure Proper (s : Schedule) : Prop where
  duration_pos : 0 < s.duration
  duration_lt : s.duration < s.interval
  executionCount_pos : 0 < s.executionCount

theorem Proper.interval_pos (h : s.Proper) : 0 < s.interval := h.duration_pos.trans h.duration_lt

theorem nthStartTime_eq_some {start : ℕ} : s.nthStartTime delay i = some start ↔
    i < s.executionCount ∧ s.startTime + delay + s.interval * i = start ∧ start < 2 ^ 64 := by
  unfold nthStartTime
  split_ifs with hi
  · simp only [false_iff, not_and]
    intro hl
    exact absurd hl (Nat.not_lt.mpr hi)
  · have hl := Nat.not_le.mp hi
    simp only [bind, Option.bind_eq_some_iff, checkedAdd_eq_some, checkedMul_eq_some, hl, true_and]
    constructor
    · rintro ⟨first, ⟨rfl, -⟩, later, ⟨rfl, -⟩, rfl, hf⟩
      exact ⟨rfl, hf⟩
    · rintro ⟨rfl, hf⟩
      exact ⟨_, ⟨rfl, by omega⟩, _, ⟨rfl, by omega⟩, rfl, hf⟩

theorem lt_executionCount (hn : 0 < s.interval) :
    i < s.executionCount ↔ s.startTime + s.interval * i < s.endTime := by
  have hf : s.endTime < 2 ^ 64 := s.fits _ (by simp)
  unfold executionCount
  by_cases hl : s.startTime < s.endTime
  · have hle : (s.endTime - s.startTime - 1) / s.interval ≤ s.endTime - s.startTime - 1 :=
      Nat.div_le_self _ _
    have hs : checkedSub s.endTime s.startTime = some (s.endTime - s.startTime) :=
      checkedSub_eq_some.mpr ⟨hl.le, rfl⟩
    have hs' : checkedSub (s.endTime - s.startTime) 1 = some (s.endTime - s.startTime - 1) :=
      checkedSub_eq_some.mpr ⟨by omega, rfl⟩
    have hd : checkedDiv (s.endTime - s.startTime - 1) s.interval =
        some ((s.endTime - s.startTime - 1) / s.interval) :=
      checkedDiv_eq_some.mpr ⟨hn.ne', rfl⟩
    have ha : checkedAdd 64 ((s.endTime - s.startTime - 1) / s.interval) 1 =
        some ((s.endTime - s.startTime - 1) / s.interval + 1) :=
      checkedAdd_eq_some.mpr ⟨rfl, by omega⟩
    simp only [hs, hs', hd, ha, Option.bind_some, Option.getD_some]
    rw [Nat.lt_succ_iff, Nat.le_div_iff_mul_le hn, Nat.mul_comm]
    omega
  · have ho : ((checkedSub s.endTime s.startTime).bind fun per => checkedSub per 1) = none := by
      rcases Nat.lt_or_ge s.endTime s.startTime with h | h
      · rw [checkedSub, if_neg (by omega), Option.bind_none]
      · rw [checkedSub, if_pos h, Option.bind_some, checkedSub, if_neg (by omega)]
    rw [ho]
    simp only [Option.bind_none, Option.getD_none]
    omega

end Schedule

theorem ScheduleIter.collect_some {start stop iv : ℕ} (hst : stop < 2 ^ 64) (m : ℕ) :
    ∀ (curr fuel : ℕ), (∀ k < m, curr + iv * (k + 1) < stop) →
      stop ≤ curr + iv * (m + 1) → m < fuel →
      collect fuel ⟨start, stop, iv, some curr⟩ =
        (List.range m).map fun k => curr + iv * (k + 1) := by
  induction m with
  | zero =>
    rintro curr (- | fuel) hb hd hf
    · cases hf
    · have hn : (next ⟨start, stop, iv, some curr⟩).1 = none := by
        unfold next
        dsimp only
        split
        · rfl
        · next t ht =>
          obtain ⟨rfl, -⟩ := checkedAdd_eq_some.mp ht
          exact if_neg (by omega)
      rw [collect]
      cases hit : next ⟨start, stop, iv, some curr⟩ with
      | mk item it =>
        rw [hit] at hn
        obtain rfl : item = none := hn
        rfl
  | succ m ih =>
    rintro curr (- | fuel) hb hd hf
    · cases hf
    · have hfi : curr + iv < stop := by
        have hz := hb 0 (by omega)
        simpa using hz
      have hn : next ⟨start, stop, iv, some curr⟩ =
          (some (curr + iv), ⟨start, stop, iv, some (curr + iv)⟩) := by
        have ha : checkedAdd 64 curr iv = some (curr + iv) :=
          checkedAdd_eq_some.mpr ⟨rfl, by omega⟩
        simp only [next, ha, if_pos hfi]
      have hs : ∀ k, curr + iv + iv * (k + 1) = curr + iv * (k + 1 + 1) := by
        intro k
        ring
      have hr := ih (curr + iv) fuel
        (fun k hk => by rw [hs]; exact hb (k + 1) (by omega))
        (by rw [hs]; exact hd) (by omega)
      rw [collect, hn]
      simp only [hr, List.range_succ_eq_map, List.map_cons, List.map_map, hs]
      rw [Nat.zero_add, Nat.mul_one]
      rfl

namespace Schedule

variable {s : Schedule} {startDelay delay i : ℕ}

theorem collect_iter (hin : 0 < s.interval) (hf : s.endTime + startDelay < 2 ^ 64) {fuel : ℕ}
    (hfu : s.executionCount ≤ fuel) :
    (s.iter startDelay).map (ScheduleIter.collect (fuel + 1)) =
      if s.startTime + startDelay < 2 ^ 64 then
        some ((List.range s.executionCount).map fun i => s.startTime + startDelay + s.interval * i)
      else none := by
  have hn : checkedAdd 64 s.endTime startDelay = some (s.endTime + startDelay) :=
    checkedAdd_eq_some.mpr ⟨rfl, hf⟩
  by_cases hs : s.startTime + startDelay < 2 ^ 64
  · have hb : checkedAdd 64 s.startTime startDelay = some (s.startTime + startDelay) :=
      checkedAdd_eq_some.mpr ⟨rfl, hs⟩
    have ht : s.iter startDelay =
        some ⟨s.startTime + startDelay, s.endTime + startDelay, s.interval, none⟩ := by
      simp only [iter, hb, hn, bind, pure, Option.bind_some]
    have hc := fun i => lt_executionCount (s := s) (i := i) hin
    rw [if_pos hs, ht, Option.map_some, ScheduleIter.collect]
    simp only [ScheduleIter.next]
    rcases Nat.eq_zero_or_pos s.executionCount with hz | hp
    · have hl : ¬ s.startTime + startDelay < s.endTime + startDelay := by
        have hno := (hc 0).not.mp (by omega)
        omega
      rw [if_neg hl, hz]
      rfl
    · have hlt : s.startTime + startDelay < s.endTime + startDelay := by
        have hr := (hc 0).mp hp
        omega
      obtain ⟨m, hm⟩ : ∃ m, s.executionCount = m + 1 := ⟨_, (Nat.succ_pred_eq_of_pos hp).symm⟩
      have ho : ScheduleIter.collect fuel ⟨s.startTime + startDelay, s.endTime + startDelay,
          s.interval, some (s.startTime + startDelay)⟩ =
          (List.range m).map fun k => s.startTime + startDelay + s.interval * (k + 1) :=
        ScheduleIter.collect_some hf m _ _
        (fun k hk => by have hk' := (hc (k + 1)).mp (by omega); omega)
        (by have ha := (hc (m + 1)).not.mp (by omega); omega) (by omega)
      simp only [if_pos hlt, ho, hm, List.range_succ_eq_map, List.map_cons, List.map_map,
        Nat.mul_zero, Nat.add_zero]
      rfl
  · have hb : checkedAdd 64 s.startTime startDelay = none := if_neg hs
    rw [if_neg hs, iter, hb]
    rfl

theorem starts_eq_some {l : List ℕ} (hn : 0 < s.interval) (h : s.starts delay = some l) :
    l = (List.range s.executionCount).map fun i => s.startTime + delay + s.interval * i := by
  have hf : s.endTime + delay < 2 ^ 64 := by
    simp only [starts, iter, Option.map_eq_some_iff, bind, Option.bind_eq_some_iff,
      checkedAdd_eq_some] at h
    obtain ⟨it, ⟨_, -, _, ⟨-, hf⟩, -⟩, -⟩ := h
    exact hf
  rw [starts, collect_iter hn hf le_rfl] at h
  split_ifs at h
  exact (Option.some.inj h).symm

abbrev Representable (s : Schedule) (startDelay : ℕ) : Prop := s.endTime + startDelay + s.duration < 2 ^ 64

def Ends (s : Schedule) (startDelay : ℕ) : Prop :=
  s.startTime + startDelay + s.interval * (s.executionCount - 1) + s.duration < 2 ^ 64

theorem Proper.ends (h : s.Proper) (hf : s.Representable delay) : s.Ends delay := by
  have hl := (lt_executionCount (i := s.executionCount - 1) h.interval_pos).mp
    (Nat.sub_lt h.executionCount_pos Nat.one_pos)
  unfold Ends
  omega

theorem Proper.range_eq (h : s.Proper) (hf : s.Ends startDelay) :
    s.range startDelay = (s.startTime + startDelay,
      s.startTime + startDelay + s.interval * (s.executionCount - 1) + s.duration) := by
  unfold Ends at hf
  have hm : saturatingMul 64 (s.executionCount - 1) s.interval =
      s.interval * (s.executionCount - 1) := by
    rw [Nat.mul_comm s.interval] at hf ⊢
    exact saturatingMul_eq (by omega)
  have hs : s.actualStart startDelay = s.startTime + startDelay := saturatingAdd_eq (by omega)
  have hls : saturatingAdd 64 (s.startTime + startDelay) (s.interval * (s.executionCount - 1)) =
      s.startTime + startDelay + s.interval * (s.executionCount - 1) := saturatingAdd_eq (by omega)
  rw [range, actualEnd, if_pos h.executionCount_pos, hs, hm, hls, saturatingAdd_eq (by omega)]

variable {start x y : ℕ}

theorem Proper.within_range (h : s.Proper) (hf : s.Ends delay)
    (hs : s.nthStartTime delay i = some start) :
    (s.range delay).1 ≤ start ∧ start + s.duration ≤ (s.range delay).2 := by
  obtain ⟨hi, rfl, -⟩ := nthStartTime_eq_some.mp hs
  have hl : s.interval * i ≤ s.interval * (s.executionCount - 1) :=
    Nat.mul_le_mul_left _ (Nat.le_sub_one_of_lt hi)
  rw [h.range_eq hf]
  omega

/-- The periods of which `overlaps` can tell whether an execution meets them: those that lie outside of
the range, and those that begin within it and are shorter than the interval. -/
abbrev Judges (s : Schedule) (startDelay : ℕ) (bounds : ℕ × ℕ) : Prop :=
  bounds.2 ≤ (s.range startDelay).1 ∨ (s.range startDelay).2 ≤ bounds.1 ∨
    (s.range startDelay).1 ≤ bounds.1 ∧ bounds.2 < bounds.1 + s.interval

theorem same_interval {n b : ℕ} (hlt : x < y) (hs : y < x + n)
    (hb : b = if y % n = 0 then n else y % n) (hab : x % n ≤ b) : y ≤ n * (x / n + 1) := by
  have hn : 0 < n := by omega
  have hx := Nat.div_add_mod x n
  have hy := Nat.div_add_mod y n
  have hq : y / n ≤ x / n + 1 := by
    have hl : y / n ≤ (x + n) / n := Nat.div_le_div_right hs.le
    rwa [Nat.add_div_right x hn] at hl
  rw [Nat.mul_add, Nat.mul_one]
  rcases Nat.lt_or_ge (y / n) (x / n + 1) with ha | hne
  · have hm : n * (y / n) ≤ n * (x / n) := Nat.mul_le_mul_left n (Nat.le_of_lt_succ ha)
    have hyl := Nat.mod_lt y hn
    omega
  · have heq : y / n = x / n + 1 := le_antisymm hq hne
    rw [heq, Nat.mul_add, Nat.mul_one] at hy
    split_ifs at hb with hz
    · omega
    · omega

theorem Proper.apart_of_overlaps (h : s.Proper) (ht : s.Ends startDelay)
    (hj : s.Judges startDelay (x, y)) (hf : s.overlaps startDelay (x, y) = false)
    (hs : s.nthStartTime startDelay i = some start) :
    y ≤ x ∨ y ≤ start ∨ start + s.duration ≤ x := by
  obtain ⟨hfi, hl⟩ := h.within_range ht hs
  rcases hj with hbef | haf | ⟨hb, hh⟩
  · exact .inr (.inl (hbef.trans hfi))
  · exact .inr (.inr (hl.trans haf))
  have hra := h.range_eq ht
  generalize hr : (s.range startDelay).1 = first at *
  generalize hto : (s.range startDelay).2 = stop at *
  unfold overlaps at hf
  rw [show s.range startDelay = (first, stop) from Prod.ext hr hto] at hf
  dsimp only at hf
  split_ifs at hf with ho
  · rcases ho with hem | hn | ho | ho
    · exact .inl hem
    · omega
    · exact .inr (.inl (ho.trans hfi))
    · exact .inr (.inr (hl.trans ho))
  · have hsu : checkedSub x first = some (x - first) := checkedSub_eq_some.mpr ⟨hb, rfl⟩
    have hu : checkedSub y first = some (y - first) := checkedSub_eq_some.mpr ⟨by omega, rfl⟩
    rw [hsu, hu] at hf
    simp only [Option.getD_some, decide_eq_false_iff_not, not_or, not_lt] at hf
    obtain ⟨hle, hg, -⟩ := hf
    obtain ⟨hi, rfl, -⟩ := nthStartTime_eq_some.mp hs
    have hf' : first = s.startTime + startDelay := by
      rw [hra] at hr
      exact hr.symm
    have hx := Nat.div_add_mod (x - first) s.interval
    have hsa := same_interval (n := s.interval) (x := x - first) (y := y - first) (by omega)
      (by omega) rfl hle
    rcases Nat.lt_or_ge ((x - first) / s.interval) i with ha | hea
    · -- the execution begins after the interval that the period lies in
      have hm : s.interval * ((x - first) / s.interval + 1) ≤ s.interval * i :=
        Nat.mul_le_mul_left _ ha
      exact .inr (.inl (by omega))
    · -- the execution has ended before the period begins
      have hm : s.interval * i ≤ s.interval * ((x - first) / s.interval) :=
        Nat.mul_le_mul_left _ hea
      exact .inr (.inr (by omega))

end Schedule
end Acurast

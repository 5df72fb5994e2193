import Acurast.Common.Schedule

/-! The functions of a schedule against its list of executions: the iterator, the start time of an
execution and the current execution describe one list, and `overlaps` misses some of its periods. -/

namespace Acurast.Schedule

open Base

variable {s : Schedule} {startDelay delay now i start a b : ℕ}

theorem nthStartTime_eq_none (hf : s.endTime + delay < 2 ^ 64) (hn : 0 < s.interval) :
    s.nthStartTime delay i = none ↔ s.executionCount ≤ i := by
  rw [Option.eq_none_iff_forall_ne_some]
  constructor
  · intro h
    by_contra hi
    have hl := (lt_executionCount hn).mp (Nat.lt_of_not_le hi)
    exact h _ (nthStartTime_eq_some.mpr ⟨Nat.lt_of_not_le hi, rfl, by omega⟩)
  · intro hi t ht
    exact absurd (nthStartTime_eq_some.mp ht).1 (Nat.not_lt.mpr hi)

theorem currentExecutionIndex_eq (hf : s.startTime + delay < 2 ^ 64) :
    s.currentExecutionIndex delay now = if now < s.startTime + delay then none
      else some (min ((now - (s.startTime + delay)) / s.interval) (s.executionCount - 1)) := by
  rw [currentExecutionIndex, saturatingAdd_eq hf]

theorem current_isGreatest (hn : 0 < s.interval) (hc : 0 < s.executionCount)
    (hle : s.startTime + delay ≤ now) (hf : s.endTime + delay < 2 ^ 64) :
    ∃ i start, s.currentExecutionIndex delay now = some i ∧ s.nthStartTime delay i = some start ∧
      start ≤ now ∧ ∀ j t, s.nthStartTime delay j = some t → t ≤ now → j ≤ i := by
  have hz := (lt_executionCount hn).mp hc
  rw [currentExecutionIndex_eq (by omega), if_neg (Nat.not_lt.mpr hle)]
  generalize hq : min ((now - (s.startTime + delay)) / s.interval) (s.executionCount - 1) = q
  have hlt : q < s.executionCount := by omega
  have hm : s.interval * q ≤ now - (s.startTime + delay) := by
    rw [Nat.mul_comm, ← Nat.le_div_iff_mul_le hn]
    omega
  have he := (lt_executionCount hn).mp hlt
  refine ⟨q, _, rfl, nthStartTime_eq_some.mpr ⟨hlt, rfl, by omega⟩, by omega, fun j t ht hj => ?_⟩
  obtain ⟨hjc, rfl, -⟩ := nthStartTime_eq_some.mp ht
  have hd : j ≤ (now - (s.startTime + delay)) / s.interval := by
    rw [Nat.le_div_iff_mul_le hn, Nat.mul_comm]
    omega
  omega

/-- The iterator ends and lists the start times that there are, one for each execution, and the current
execution is the last one that has started. -/
theorem schedule_views_agree (hinterval : 0 < s.interval)
    (hfits : s.endTime + startDelay < 2 ^ 64) :
    (∃ l : List ℕ, l.length = s.executionCount ∧
      (∀ fuel, s.executionCount < fuel →
        ((s.iter startDelay).map (ScheduleIter.collect fuel)).getD [] = l) ∧
      ∀ i < s.executionCount, s.nthStartTime startDelay i = l[i]?) ∧
    (∀ i, s.nthStartTime startDelay i = none ↔ s.executionCount ≤ i) ∧
    (0 < s.executionCount → ∃ first, s.nthStartTime startDelay 0 = some first ∧ ∀ now,
      (s.currentExecutionIndex startDelay now = none ↔ now < first) ∧
      (first ≤ now → ∃ i start, s.currentExecutionIndex startDelay now = some i ∧
        s.nthStartTime startDelay i = some start ∧ start ≤ now ∧
        ∀ j t, s.nthStartTime startDelay j = some t → t ≤ now → j ≤ i)) := by
  refine ⟨⟨(List.range s.executionCount).map fun i => s.startTime + startDelay + s.interval * i,
    ?_, fun fuel hf => ?_, fun i hi => ?_⟩, fun i => nthStartTime_eq_none hfits hinterval,
    fun hc => ?_⟩
  · rw [List.length_map, List.length_range]
  · obtain ⟨fuel, rfl⟩ := Nat.exists_eq_succ_of_ne_zero (Nat.ne_zero_of_lt hf)
    rw [collect_iter hinterval hfits (Nat.le_of_lt_succ hf)]
    split_ifs with hs
    · rfl
    · have hz : s.executionCount = 0 := by
        by_contra hp
        have hl := (lt_executionCount hinterval).mp (Nat.pos_of_ne_zero hp)
        omega
      rw [hz]
      rfl
  · have hl := (lt_executionCount hinterval).mp hi
    have hf : s.startTime + startDelay + s.interval * i < 2 ^ 64 := by omega
    rw [List.getElem?_map, List.getElem?_range hi]
    exact nthStartTime_eq_some.mpr ⟨hi, rfl, hf⟩
  · have hz := (lt_executionCount hinterval).mp hc
    have hf : s.startTime + startDelay < 2 ^ 64 := by omega
    refine ⟨s.startTime + startDelay, nthStartTime_eq_some.mpr ⟨hc, rfl, hf⟩, fun now => ⟨?_, ?_⟩⟩
    · rw [currentExecutionIndex_eq hf, ite_eq_left_iff]
      refine ⟨fun h => ?_, fun h hn => absurd h hn⟩
      by_contra hn
      cases h hn
    · exact fun hle => current_isGreatest hinterval hc hle hfits

def everyFive : Schedule where
  duration := 2
  startTime := 3
  endTime := 14
  interval := 5
  maxStartDelay := 2

theorem schedule_views_agree_everyFive :
    everyFive.starts 2 = some [5, 10, 15] ∧ everyFive.currentExecutionIndex 2 14 = some 1 ∧
      ∀ i, everyFive.nthStartTime 2 i = none ↔ 3 ≤ i :=
  ⟨by decide, by decide, (schedule_views_agree (s := everyFive) (by decide) (by decide)).2.1⟩

def Meets (s : Schedule) (startDelay i a b : ℕ) : Prop :=
  s.startTime + startDelay + s.interval * i < b ∧
    a < s.startTime + startDelay + s.interval * i + s.duration

/-- The place in its interval that a period is taken to begin at. Before the first start, the time of
this start stands for the time since then. -/
def place (s : Schedule) (first a : ℕ) : ℕ := (if first ≤ a then a - first else first) % s.interval

/-- The period is judged, or is taken to begin during an execution, or to begin at a later place of an
interval than it ends at. -/
def Discerns (s : Schedule) (startDelay a b : ℕ) : Prop :=
  s.Judges startDelay (a, b) ∨ s.place (s.startTime + startDelay) a < s.duration ∨
    (b - (s.startTime + startDelay) - 1) % s.interval + 1 < s.place (s.startTime + startDelay) a

theorem place_of_end {n y : ℕ} (hn : 0 < n) (hy : 0 < y) :
    (if y % n = 0 then n else y % n) = (y - 1) % n + 1 := by
  have hd := Nat.div_add_mod y n
  have hl := Nat.mod_lt y hn
  split_ifs with hz
  · obtain ⟨q, hq⟩ := Nat.exists_eq_succ_of_ne_zero
      (Nat.div_pos (Nat.le_of_dvd hy (Nat.dvd_of_mod_eq_zero hz)) hn).ne'
    have hs : y - 1 = n * q + (n - 1) := by
      rw [hz, hq, Nat.mul_succ] at hd
      omega
    rw [hs, Nat.mul_add_mod, Nat.mod_eq_of_lt (by omega)]
    omega
  · have hs : y - 1 = n * (y / n) + (y % n - 1) := by omega
    have hm : (y - 1) % n = y % n - 1 := by
      rw [hs, Nat.mul_add_mod]
      exact Nat.mod_eq_of_lt (by omega)
    omega

variable {first stop : ℕ}

theorem overlaps_iff (hn : 0 < s.interval) (hd : 0 < s.duration)
    (hr : s.range delay = (first, stop)) (hne : first < stop) (hab : a < b) :
    s.overlaps delay (a, b) = true ↔ first < b ∧ a < stop ∧
      (s.place first a < s.duration ∨ (b - first - 1) % s.interval + 1 < s.place first a) := by
  have ha : (checkedSub a first).getD first = if first ≤ a then a - first else first := by
    unfold checkedSub
    split_ifs
    · rfl
    · rfl
  unfold overlaps place
  rw [hr]
  dsimp only
  rw [ha]
  generalize (if first ≤ a then a - first else first) % s.interval = x
  split_ifs with ho
  · simp only [false_iff]
    omega
  · have hb : checkedSub b first = some (b - first) := checkedSub_eq_some.mpr ⟨by omega, rfl⟩
    rw [hb]
    dsimp only
    rw [place_of_end hn (by omega), decide_eq_true_eq]
    have hl := Nat.mod_lt (b - first - 1) hn
    omega

theorem Proper.meets (h : s.Proper) (hfi : first = s.startTime + delay) (hle : first ≤ a)
    (hla : a < first + s.interval * (s.executionCount - 1) + s.duration) (hab : a < b)
    (hr : (a - first) % s.interval < s.duration ∨
      first + s.interval * ((a - first) / s.interval + 1) < b) :
    ∃ i < s.executionCount, s.Meets delay i a b := by
  have hx := Nat.div_add_mod (a - first) s.interval
  have hc := h.executionCount_pos
  have hd := h.duration_lt
  unfold Meets
  rw [← hfi]
  generalize (a - first) / s.interval = i at *
  have hi : i < s.executionCount := by
    by_contra hge
    have hm := Nat.mul_le_mul_left s.interval (by omega : s.executionCount - 1 + 1 ≤ i)
    rw [Nat.mul_succ] at hm
    omega
  by_cases hdu : (a - first) % s.interval < s.duration
  · exact ⟨i, hi, by omega, by omega⟩
  · have hlt : i ≠ s.executionCount - 1 := by
      rintro rfl
      omega
    have hl := Nat.mod_lt (a - first) h.interval_pos
    refine ⟨i + 1, by omega, hr.resolve_left hdu, ?_⟩
    rw [Nat.mul_succ]
    omega

theorem Proper.meets_of_place (h : s.Proper) (hfi : first = s.startTime + delay) (hb : first < b)
    (hla : a < first + s.interval * (s.executionCount - 1) + s.duration) (hab : a < b)
    (hp : s.place first a < s.duration ∨ (b - first - 1) % s.interval + 1 < s.place first a) :
    ∃ i < s.executionCount, s.Meets delay i a b := by
  unfold place at hp
  split_ifs at hp with hle
  · refine h.meets hfi hle hla hab (hp.imp_right fun hp => ?_)
    have hx := Nat.div_add_mod (a - first) s.interval
    have hy := Nat.div_add_mod (b - first - 1) s.interval
    have hq : (a - first) / s.interval < (b - first - 1) / s.interval := by
      by_contra hge
      have hm := Nat.mul_le_mul_left s.interval (Nat.le_of_not_lt hge)
      omega
    have hm : s.interval * ((a - first) / s.interval + 1) ≤ _ := Nat.mul_le_mul_left s.interval hq
    omega
  · exact ⟨0, h.executionCount_pos, hfi ▸ hb, by rw [← hfi]; omega⟩

theorem Proper.meets_of_not_judges (h : s.Proper) (he : s.Ends delay) (hab : a < b)
    (hj : ¬ s.Judges delay (a, b)) : ∃ i < s.executionCount, s.Meets delay i a b := by
  unfold Judges at hj
  rw [h.range_eq he] at hj
  by_cases hle : s.startTime + delay ≤ a
  · refine h.meets rfl hle (by omega) hab ?_
    have hx := Nat.div_add_mod (a - (s.startTime + delay)) s.interval
    have hd := h.duration_pos
    rw [Nat.mul_succ]
    omega
  · exact ⟨0, h.executionCount_pos, by omega, by omega⟩

/-- `overlaps` is right about a period exactly if it discerns it: where it is wrong, it misses an
execution. -/
theorem overlaps_exact_iff (hproper : s.Proper) (hends : s.Ends startDelay) (hperiod : a < b) :
    (s.overlaps startDelay (a, b) = true ↔ ∃ i < s.executionCount, s.Meets startDelay i a b) ↔
      s.Discerns startDelay a b := by
  have hd := hproper.duration_pos
  have hra := hproper.range_eq hends
  have hov := overlaps_iff hproper.interval_pos hd hra (by omega) hperiod
  by_cases hj : s.Judges startDelay (a, b)
  · refine iff_of_true ⟨fun ho => ?_, ?_⟩ (.inl hj)
    · obtain ⟨hb, ha, hp⟩ := hov.mp ho
      exact hproper.meets_of_place rfl hb ha hperiod hp
    rintro ⟨i, hi, hm⟩
    by_contra hno
    have hst : s.nthStartTime startDelay i = some (s.startTime + startDelay + s.interval * i) := by
      refine nthStartTime_eq_some.mpr ⟨hi, rfl, ?_⟩
      have hle := Nat.mul_le_mul_left s.interval (Nat.le_sub_one_of_lt hi)
      unfold Ends at hends
      omega
    unfold Meets at hm
    rcases hproper.apart_of_overlaps hends hj (Bool.eq_false_of_not_eq_true hno) hst with h | h | h
    · omega
    · omega
    · omega
  · have hin := hj
    unfold Judges at hin
    rw [hra] at hin
    rw [iff_true_right (hproper.meets_of_not_judges hends hperiod hj), hov, Discerns,
      or_iff_right hj, and_iff_right (by omega), and_iff_right (by omega)]

/-- A period longer than the interval, and one that begins before the first start. -/
theorem overlaps_misses :
    (everyFive.overlaps 0 (5, 12) = false ∧ everyFive.Meets 0 1 5 12) ∧
      everyFive.overlaps 0 (2, 8) = false ∧ everyFive.Meets 0 0 2 8 :=
  ⟨⟨by decide, by decide, by decide⟩, by decide, by decide, by decide⟩

theorem overlaps_exact_everyFive :
    everyFive.overlaps 0 (6, 9) = true ↔ ∃ i < 3, everyFive.Meets 0 i 6 9 :=
  (overlaps_exact_iff ⟨by decide, by decide, by decide⟩ (by unfold Ends; decide) (by decide)).mpr
    (.inl (by decide))

end Acurast.Schedule

import Acurast.Marketplace.Strategy

/-! The execution that a report is booked for, and whether the report comes in time for it. -/

namespace Acurast.Marketplace

open Base

variable {A : Type} {T : Config A} {s s' : State T} {p : A} {j : JobId A}
  {registration reg : JobRegistration A} {a : Assignment} {now i : ℕ}

/-- The time lies in the window of an execution, under the delay of the assignment, or within the
tolerance after it. -/
def Timely (T : Config A) (registration : JobRegistration A) (a : Assignment) (now i : ℕ) : Prop :=
  ∃ start, registration.schedule.nthStartTime a.startDelay i = some start ∧ start ≤ now ∧
    now < start + registration.schedule.duration + T.reportTolerance

instance (T : Config A) (registration : JobRegistration A) (a : Assignment) (now i : ℕ) :
    Decidable (Timely T registration a now i) :=
  decidable_of_iff (∃ start ∈ registration.schedule.nthStartTime a.startDelay i, start ≤ now ∧
    now < start + registration.schedule.duration + T.reportTolerance) Iff.rfl

theorem timely_of_check (h : checkReportIsTimely T reg a now i = .ok ()) :
    Timely T reg a now i := by
  simp only [checkReportIsTimely, ok_iff] at h
  obtain ⟨start, hs, ⟨⟩, hbe, hb⟩ := h
  refine ⟨start, hs, hbe, hb.trans_le ?_⟩
  calc saturatingAdd 64 (saturatingAdd 64 start reg.schedule.duration) T.reportTolerance
      ≤ saturatingAdd 64 start reg.schedule.duration + T.reportTolerance := saturatingAdd_le
    _ ≤ start + reg.schedule.duration + T.reportTolerance :=
      Nat.add_le_add_right saturatingAdd_le _

theorem timely_of_isOk (h : (checkReportIsTimely T reg a now i).isOk = true) :
    Timely T reg a now i := by
  obtain ⟨⟨⟩, hc⟩ := isOk_iff.mp h
  exact timely_of_check hc

abbrev WindowOpen (T : Config A) (schedule : Schedule) (delay now : ℕ) : Prop :=
  ∃ k < schedule.executionCount, schedule.startTime + delay + schedule.interval * k ≤ now ∧
    now < schedule.startTime + delay + schedule.interval * k + schedule.duration + T.reportTolerance

theorem Timely.windowOpen (h : Timely T reg a now i) :
    WindowOpen T reg.schedule a.startDelay now := by
  obtain ⟨start, hs, hle, hlt⟩ := h
  obtain ⟨hi, rfl, -⟩ := Schedule.nthStartTime_eq_some.mp hs
  exact ⟨i, hi, hle, hlt⟩

def currentReport (registration : JobRegistration A) (a : Assignment) (now : ℕ) : ℕ :=
  (registration.schedule.currentExecutionIndex a.startDelay now).getD 0

theorem WindowOpen.timely_current (h : WindowOpen T reg.schedule a.startDelay now)
    (hnow : now < 2 ^ 64) : Timely T reg a now (currentReport reg a now) := by
  obtain ⟨k, hk, hle, hlt⟩ := h
  have hs : reg.schedule.startTime + a.startDelay < 2 ^ 64 := by omega
  have hn : ¬ now < reg.schedule.startTime + a.startDelay := by omega
  obtain ⟨i, hi⟩ : ∃ i, min ((now - (reg.schedule.startTime + a.startDelay)) / reg.schedule.interval)
      (reg.schedule.executionCount - 1) = i := ⟨_, rfl⟩
  have hc : currentReport reg a now = i := by
    rw [currentReport, Schedule.currentExecutionIndex, saturatingAdd_eq hs, if_neg hn, hi]
    rfl
  have hil : i < reg.schedule.executionCount := by omega
  have hstart : reg.schedule.interval * i ≤ now - (reg.schedule.startTime + a.startDelay) := by
    refine le_trans (Nat.mul_le_mul_left _ ?_) (Nat.mul_div_le _ _)
    rw [← hi]
    exact min_le_left _ _
  have hlate : reg.schedule.interval * k ≤ reg.schedule.interval * i := by
    rcases Nat.eq_zero_or_pos reg.schedule.interval with hz | hp
    · rw [hz, Nat.zero_mul, Nat.zero_mul]
    · refine Nat.mul_le_mul_left _ ?_
      rw [← hi, le_min_iff, Nat.le_div_iff_mul_le hp, Nat.mul_comm]
      exact ⟨by omega, by omega⟩
  refine ⟨_, Schedule.nthStartTime_eq_some.mpr ⟨hc ▸ hil, rfl, ?_⟩, ?_, ?_⟩ <;> rw [hc] <;> omega

theorem bookedExecution_timely {current exp rep missing : ℕ}
    (h : bookedExecution T reg a now current exp = .ok (rep, missing)) :
    Timely T reg a now rep ∨ rep = current ∧ exp = current := by
  unfold bookedExecution at h
  split_ifs at h with hl
  · simp only [ok_iff, Prod.mk.injEq] at h
    obtain ⟨⟨⟩, hc, rfl, -⟩ := h
    exact .inl (timely_of_check hc)
  · simp only [pure_eq_ok, Prod.mk.injEq] at h
    obtain ⟨rfl, -⟩ := h
    by_cases hc : (checkReportIsTimely T reg a now exp).isOk = true
    · exact .inl (timely_of_isOk hc)
    · have hu : exp = current := by
        by_contra hn
        exact hl ⟨Bool.eq_false_iff.mpr hc, hn⟩
      exact .inr ⟨hu, hu⟩

variable [DecidableEq A]

def State.expectedReport (s : State T) (j : JobId A) (p : A) (current : ℕ) : ℕ :=
  (s.nextReportIndex.lookup (j, p)).getD current

def State.bookedFor (s : State T) (j : JobId A) (p : A) : Option ℕ := do
  let a ← s.storedMatches.lookup (p, j)
  let registration ← s.storedJobRegistration.lookup j
  let current := currentReport registration a s.time
  let booked ← (bookedExecution T registration a s.time current (s.expectedReport j p current)).toOption
  pure booked.1

theorem doReport_booked (h : doReport s j p = .ok s') : ∃ registration a reported missing,
    s.storedJobRegistration.lookup j = some registration ∧ s.storedMatches.lookup (p, j) = some a ∧
    a.acknowledged = true ∧ s.time < 2 ^ 64 ∧
    bookedExecution T registration a s.time (currentReport registration a s.time)
      (s.expectedReport j p (currentReport registration a s.time)) = .ok (reported, missing) ∧
    s.bookedFor j p = some reported := by
  simp only [doReport, ok_iff, Prod.exists] at h
  obtain ⟨s₁, a', hu, registration, hr, s₂, missing, v, hn, -⟩ := h
  obtain ⟨a, hf, ha, -, rfl, rfl⟩ := updateAssignment_ok hu
  simp only [updateNextReportIndexOnReport, ok_iff, Prod.exists] at hn
  obtain ⟨now, ho, ⟨⟩, -, reported, missing', hb, -⟩ := hn
  simp only [State.now, ok_iff] at ho
  obtain ⟨⟨⟩, hl, rfl⟩ := ho
  -- the count of the reports does not matter for the booking
  have hb' : bookedExecution T registration a s.time (currentReport registration a s.time)
      (s.expectedReport j p (currentReport registration a s.time)) = .ok (reported, missing') := hb
  refine ⟨registration, a, reported, missing', hr, hf, ha, hl, hb', ?_⟩
  have hr' : s.storedJobRegistration.lookup j = some registration := hr
  simp only [State.bookedFor, bind, Option.bind, hf, hr', hb', Except.toOption, pure]

/-- A report that succeeds is booked for an execution it is in time for exactly if any execution of
the schedule is in its window: otherwise the current execution is taken without a look at the time. -/
theorem report_timely_iff (T : Config A) (s : State T) (p : A) (j : JobId A)
    (hreport : (perform s (.dispatch (.signed p) (.report j))).isOk = true) :
    ∃ registration a i, s.storedJobRegistration.lookup j = some registration ∧
      s.storedMatches.lookup (p, j) = some a ∧ s.bookedFor j p = some i ∧
      (Timely T registration a s.time i ↔
        WindowOpen T registration.schedule a.startDelay s.time) := by
  obtain ⟨s', hk⟩ := isOk_iff.mp hreport
  obtain ⟨registration, a, i, missing, hr, hf, -, hnow, hb, ho⟩ := doReport_booked hk
  refine ⟨registration, a, i, hr, hf, ho, Timely.windowOpen, fun hw => ?_⟩
  rcases bookedExecution_timely hb with ht | ⟨rfl, -⟩
  · exact ht
  · exact hw.timely_current hnow

def acknowledgedJob : List (Op mock) :=
  [signed 1 (.register (plainJob atThousand (.single none) 10) none), advertised 2, proposed 1 2 0,
    signed 2 (.acknowledgeMatch (mockJob 1) [])]

def startedJob : List (Op mock) := acknowledgedJob ++ [.timestamp 1000]

theorem report_timely_of_startedJob : ∃ registration a i,
      (after startedJob).storedJobRegistration.lookup (mockJob 1) = some registration ∧
      (after startedJob).storedMatches.lookup (2, mockJob 1) = some a ∧
      (after startedJob).bookedFor (mockJob 1) 2 = some i ∧
      Timely mock registration a (after startedJob).time i := by
  obtain ⟨reg, a, i, hr, hf, hb, ht⟩ :=
    report_timely_iff mock (after startedJob) 2 (mockJob 1) (by decide +kernel)
  have hw : ∃ r ∈ (after startedJob).storedJobRegistration.lookup (mockJob 1),
      ∃ a ∈ (after startedJob).storedMatches.lookup (2, mockJob 1),
        WindowOpen mock r.schedule a.startDelay (after startedJob).time := by
    decide +kernel
  obtain ⟨r, hr', a', ha', hw⟩ := hw
  obtain rfl := Option.some.inj (hr.symm.trans hr')
  obtain rfl := Option.some.inj (hf.symm.trans ha')
  exact ⟨reg, a, i, hr, hf, hb, ht.mpr hw⟩

/-- The report of the first execution is accepted long before it starts. -/
theorem early_report_of_acknowledgedJob :
    (perform (after acknowledgedJob) (signed 2 (.report (mockJob 1)))).isOk = true ∧
      (after acknowledgedJob).bookedFor (mockJob 1) 2 = some 0 ∧ (after acknowledgedJob).time = 0 ∧
      ∃ registration a, (after acknowledgedJob).storedJobRegistration.lookup (mockJob 1) =
          some registration ∧
        (after acknowledgedJob).storedMatches.lookup (2, mockJob 1) = some a ∧
        ¬ Timely mock registration a (after acknowledgedJob).time 0 := by
  refine ⟨by decide +kernel, by decide +kernel, by decide +kernel,
    plainJob atThousand (.single none) 10, ⟨0, 0, 5, true, ⟨1, 0⟩, [], .all⟩, by decide +kernel,
    by decide +kernel, by decide +kernel⟩

end Acurast.Marketplace

import Acurast.Marketplace.Timely

/-! The delays of the assignments. A match may be proposed with any delay; only a job that is cleaned up
as expired is taken to keep to its largest one. -/

namespace Acurast

open Base

namespace Schedule

variable {s : Schedule} {delay now tolerance i start : ℕ}

theorem over_of_isExpired (hd : delay ≤ s.maxStartDelay) (ho : now < 2 ^ 64)
    (hx : s.isExpired now tolerance = true) (hs : s.nthStartTime delay i = some start) :
    start + s.duration + tolerance < now := by
  obtain ⟨hi, rfl, -⟩ := nthStartTime_eq_some.mp hs
  have hn := of_decide_eq_true hx
  have hm : now ≤ maxOf 64 := Nat.le_sub_one_of_lt ho
  -- what ends before now does not fit tightly, so none of the sums has stopped at the largest value
  have hal := saturatingAdd_eq_of_lt (hn.trans_le hm)
  have ha := lt_of_saturatingAdd_lt (hn.trans_le hm)
  rw [hal, actualEnd, if_pos (by omega)] at hn
  rw [actualEnd, if_pos (by omega)] at ha
  have hw := saturatingAdd_eq_of_lt ha
  have hl := lt_of_saturatingAdd_lt ha
  rw [hw, saturatingAdd_eq_of_lt hl] at hn
  have hf : s.actualStart s.maxStartDelay = s.startTime + s.maxStartDelay :=
    saturatingAdd_eq_of_lt (lt_of_saturatingAdd_lt hl)
  have hu : saturatingMul 64 (s.executionCount - 1) s.interval = s.interval * (s.executionCount - 1) := by
    rw [Nat.mul_comm s.interval]
    rw [saturatingAdd_eq_of_lt hl] at hl
    unfold saturatingMul at hl ⊢
    omega
  have hle : s.interval * i ≤ s.interval * (s.executionCount - 1) :=
    Nat.mul_le_mul_left _ (Nat.le_sub_one_of_lt hi)
  omega

end Schedule

namespace Marketplace

variable {A : Type} {T : Config A} [DecidableEq A] {good : Book A → Deed A → Prop} {b b' : Book A}
  {p : A} {j : JobId A} {registration reg : JobRegistration A} {a : Assignment}

def WithinDelay (b : Book A) : Deed A → Prop
  | .hire offer => ∀ registration ∈ b.registrations.lookup offer.jobId,
    offer.startDelay ≤ registration.schedule.maxStartDelay
  | .release _ _ => True

instance (b : Book A) : (deed : Deed A) → Decidable (WithinDelay b deed)
  | .hire _ => inferInstanceAs (Decidable (∀ _ ∈ _, _))
  | .release _ _ => inferInstanceAs (Decidable True)

def DelaysBounded (b : Book A) : Prop :=
  ∀ p j a registration, b.assignments.lookup (p, j) = some a →
    b.registrations.lookup j = some registration → a.startDelay ≤ registration.schedule.maxStartDelay

namespace DelaysBounded

theorem congr (hb : DelaysBounded b) (ha : b'.assignments = b.assignments)
    (hr : b'.registrations = b.registrations) : DelaysBounded b' := by
  unfold DelaysBounded
  rw [ha, hr]
  exact hb

theorem insert (hb : DelaysBounded b)
    (ha : ∀ reg, b.registrations.lookup j = some reg → a.startDelay ≤ reg.schedule.maxStartDelay) :
    DelaysBounded { b with assignments := b.assignments.insert (p, j) a } := by
  intro p' j' a' r hf hr
  rw [lookup_insert_eq] at hf
  split_ifs at hf with hk
  · obtain ⟨rfl, rfl⟩ := Prod.mk.inj hk
    rw [← Option.some.inj hf]
    exact ha r hr
  · exact hb p' j' a' r hf hr

theorem replace (hb : DelaysBounded b) {a₀ : Assignment} (hf : b.assignments.lookup (p, j) = some a₀)
    (hd : a.startDelay = a₀.startDelay) :
    DelaysBounded { b with assignments := b.assignments.insert (p, j) a } := by
  refine hb.insert fun r hr => ?_
  rw [hd]
  exact hb p j a₀ r hf hr

theorem unassign (hb : DelaysBounded b) (p : A) (j : JobId A) : DelaysBounded (b.unassign p j) := by
  intro p' j' a' r hf hr
  exact hb p' j' a' r (of_lookup_erase hf).2 hr

theorem setRegistration (hb : DelaysBounded b)
    (hs : ∀ p a, b.assignments.lookup (p, j) = some a →
      ∃ r, b.registrations.lookup j = some r ∧ reg.schedule = r.schedule) :
    DelaysBounded { b with registrations := b.registrations.insert j reg } := by
  intro p' j' a' r hf hr
  rw [lookup_insert_eq] at hr
  split_ifs at hr with hj
  · subst hj
    obtain ⟨r₀, hr₀, hc⟩ := hs p' a' hf
    rw [← Option.some.inj hr, hc]
    exact hb p' j' a' r₀ hf hr₀
  · exact hb p' j' a' r hf hr

end DelaysBounded

theorem Assigns.delaysBounded {ex : ExecutionSpecifier} {n : ℕ}
    (h : Assigns T WithinDelay j reg ex b n b') (hb : DelaysBounded b) :
    DelaysBounded b' := by
  induction h with
  | none => exact hb
  | more hbe ha ho ih => exact (ih.insert ho).congr rfl rfl

theorem MatchesAll.delaysBounded (h : MatchesAll T WithinDelay j reg b b')
    (hb : DelaysBounded b) : DelaysBounded b' := by
  cases h with
  | intro his hs ha => exact (ha.delaysBounded hb).congr rfl rfl

theorem Deal.delaysBounded (h : Deal T WithinDelay b b') (hin : Indexed T b)
    (hb : DelaysBounded b) : DelaysBounded b' := by
  cases h with
  | tick | reopen => exact hb.congr rfl rfl
  | revise hf sched hx => exact hb.setRegistration fun _ _ _ => ⟨_, hf, sched⟩
  | @register b₁ j reg st registrable his hop ho hins =>
    have hg : DelaysBounded (b.register j reg st) := by
      refine (hb.setRegistration fun p a hfo => ?_).congr rfl rfl
      rw [hin.free his p] at hfo
      cases hfo
    have hma : DelaysBounded b₁ := by
      rcases hins with rfl | hm
      · exact hg
      · exact hm.delaysBounded hg
    exact hma.congr rfl rfl
  | matchAll hf hm => exact hm.delaysBounded hb
  | matchExecution hf his hs hea hl ha =>
    exact (ha.delaysBounded hb).congr rfl rfl
  | drop => exact hb.unassign _ _
  | rekey hf => exact hb.replace hf rfl
  | acknowledge registered hf hu ht st hrep hn pay hp =>
    obtain ⟨hre, -, has, -⟩ := pay.fixed
    obtain ⟨hr', ha', -⟩ := st.fixed
    refine DelaysBounded.congr (hb.replace hf ?_) (has.trans ha') (hre.trans hr')
    rfl
  | report reps hn pay =>
    obtain ⟨hre, -⟩ := pay.fixed
    exact (hb.replace reps.found (by rw [reps.counted])).congr rfl hre
  | reportLast reps hn pay =>
    obtain ⟨hre, -⟩ := pay.fixed
    refine DelaysBounded.unassign ?_ _ _
    exact (hb.replace reps.found (by rw [reps.counted])).congr rfl hre
  | release fair registered pay hp =>
    obtain ⟨hre, -, has, -⟩ := pay.fixed
    exact (hb.congr has hre).unassign _ _
  | deregister hd hex ho =>
    intro p' j' a' r hfo hr
    exact hb p' j' a' r hfo (of_lookup_erase hr).2

theorem expired_of_cleanup {s s' : State T} (h : cleanupJobAssignments s j = .ok s')
    (hf : s.storedMatches.lookup (p, j) = some a) (hg : s'.storedMatches.lookup (p, j) = none)
    (hr : s.storedJobRegistration.lookup j = some reg) :
    s.time < 2 ^ 64 ∧ reg.schedule.isExpired s.time T.reportTolerance = true := by
  simp only [cleanupJobAssignments, State.now, ok_iff] at h
  obtain ⟨now, ⟨⟨⟩, hfi, rfl⟩, rfl⟩ := h
  refine ⟨hfi, ?_⟩
  by_contra hv
  have hj : isJobExpired s j s.time = false := by
    rw [isJobExpired, hr]
    exact Bool.eq_false_iff.mpr hv
  rw [hj, if_neg Bool.false_ne_true, hf] at hg
  cases hg

/-- In every run whose matches keep to the largest delays, every assignment does; an expired job is
over for all its assignments, and the cleanup takes none that can still be reported in time. -/
theorem start_delays_bounded (T : Config A) (world : T.World) (ops : List (Op T))
    (hrun : Along step (Agreed WithinDelay) (State.genesis T world) ops) :
    (∀ p j a registration,
      (reached world ops).storedMatches.lookup (p, j) = some a →
      (reached world ops).storedJobRegistration.lookup j = some registration →
        a.startDelay ≤ registration.schedule.maxStartDelay ∧
        ∀ now < 2 ^ 64, registration.schedule.isExpired now T.reportTolerance = true →
          ∀ i start, registration.schedule.nthStartTime a.startDelay i = some start →
            start + registration.schedule.duration + T.reportTolerance < now) ∧
    ∀ p j a registration s',
      cleanupJobAssignments (reached world ops) j = .ok s' →
      (reached world ops).storedMatches.lookup (p, j) = some a →
      s'.storedMatches.lookup (p, j) = none →
      (reached world ops).storedJobRegistration.lookup j = some registration →
        ∀ now, (reached world ops).time ≤ now →
          ∀ i, ¬ Timely T registration a now i := by
  have hd : ∀ b b', Deal T WithinDelay b b' → Indexed T b ∧ DelaysBounded b →
      Indexed T b' ∧ DelaysBounded b' :=
    fun b b' hd hb => ⟨hd.indexed hb.1, hd.delaysBounded hb.1 hb.2⟩
  have ho : DelaysBounded (reached world ops).book :=
    (run_deals hd hrun ⟨genesis_indexed world, by rintro p j a r ⟨⟩⟩).2
  refine ⟨fun p j a r ha hr => ⟨ho p j a r ha hr, fun now hn hx i start hs =>
    Schedule.over_of_isExpired (ho p j a r ha hr) hn hx hs⟩, ?_⟩
  rintro p j a r s' hc ha hg hr now hn i ⟨start, hs, -, hbe⟩
  obtain ⟨hf, hx⟩ := expired_of_cleanup hc ha hg hr
  have hv := Schedule.over_of_isExpired (ho p j a r ha hr) hf hx hs
  omega

def flexibleJob : JobRegistration ℕ :=
  plainJob ⟨5, 1000, 1001, 10, 100, by decide⟩ (.single none) 10

def matchedFlexibly : List (Op mock) :=
  [signed 1 (.register flexibleJob none), advertised 2, proposed 1 2 100]

theorem start_delays_bounded_of_matchedFlexibly :
    ((after matchedFlexibly).storedMatches.lookup (2, mockJob 1)).map (·.startDelay) = some 100 ∧
      ∀ p j a registration, (after matchedFlexibly).storedMatches.lookup (p, j) = some a →
        (after matchedFlexibly).storedJobRegistration.lookup j = some registration →
          a.startDelay ≤ registration.schedule.maxStartDelay :=
  ⟨by decide +kernel, fun p j a registration ha hr =>
    ((start_delays_bounded mock (1 : ℕ) matchedFlexibly (by decide +kernel)).1 p j a registration ha hr).1⟩

def matchedTooLate : List (Op mock) :=
  [signed 1 (.register flexibleJob none), advertised 2, proposed 1 2 200100,
    signed 2 (.acknowledgeMatch (mockJob 1) []), .timestamp 201100]

theorem start_delay_ignored_of_matchedTooLate :
    (after matchedTooLate).storedJobRegistration.lookup (mockJob 1) = some flexibleJob ∧
    ∃ a, (after matchedTooLate).storedMatches.lookup (2, mockJob 1) = some a ∧
      flexibleJob.schedule.maxStartDelay < a.startDelay ∧
      Timely mock flexibleJob a (after matchedTooLate).time 0 ∧
      (step (after matchedTooLate) (signed 1 (.cleanupJobAssignments (mockJob 1)))).storedMatches.lookup
        (2, mockJob 1) = none := by
  refine ⟨by decide +kernel, ⟨0, 200100, 5, true, ⟨1, 0⟩, [], .all⟩, by decide +kernel,
    by decide +kernel, by decide +kernel, by decide +kernel⟩

end Marketplace
end Acurast

import Acurast.Marketplace.Deals

/-! Every call of the marketplace is a sequence of deals, as long as the processors it hires and releases
are good deeds. -/

namespace Acurast.Marketplace

open Base

theorem transferPositive_book (h : transferPositive s p n = .ok s') : s'.book = s.book := by
  unfold transferPositive at h
  split_ifs at h
  · simp only [ok_iff] at h
    obtain ⟨w, -, rfl⟩ := h
    rfl
  · rw [pure_eq_ok.mp h]

theorem le_bookedExecution {current expected reported : ℕ}
    (h : bookedExecution T reg a now current expected = .ok (reported, missing))
    (hl : expected ≤ current) : expected ≤ reported := by
  unfold bookedExecution at h
  split_ifs at h
  · simp only [ok_iff, Prod.mk.injEq] at h
    obtain ⟨⟨⟩, -, rfl, -⟩ := h
    exact hl
  · simp only [pure_eq_ok, Prod.mk.injEq] at h
    exact h.1.le

theorem dueAt_of_release (h : (match a.execution with
      | .all => true
      | .index index => decide (index = reg.schedule.nextExecutionIndex a.startDelay now)) =
        true ∧ a.acknowledged = true) : dueAt reg now a := by
  refine ⟨?_, h.2⟩
  have hd := h.1
  cases hx : a.execution with
  | all => exact .inl rfl
  | index i =>
    rw [hx] at hd
    exact .inr (congrArg _ (of_decide_eq_true hd))

theorem SameExcept.refl [DecidableEq K] {P : K → Prop} (m : StorageMap K V) :
    SameExcept P m m := fun _ _ => rfl

theorem totalRewardAmount_eq {r : ℕ} (h : totalRewardAmount reg = .ok r) :
    r = reg.totalReward := by
  simp only [totalRewardAmount, ok_iff, checkedMul_eq_some] at h
  obtain ⟨_, ⟨rfl, -⟩, rfl, -⟩ := h
  rfl

theorem doAdvertise_book [DecidableEq A] {ad : AdvertisementRestriction A}
    (h : doAdvertise s p ad = .ok s') : s'.book = s.book := by
  simp only [doAdvertise, ok_iff] at h
  obtain ⟨⟨⟩, -, rfl⟩ := h
  rfl

variable {A : Type} {T : Config A} {good : Book A → Deed A → Prop} {b b' : Book A}
  {s s' s₁ s₂ : State T} {p : A} {j : JobId A} {registration reg : JobRegistration A}

theorem doUpdateReputation_book [DecidableEq A] (h : doUpdateReputation s p a missing = .ok s') :
    s'.book = s.book := by
  unfold doUpdateReputation at h
  split_ifs at h
  · simp only [ok_iff] at h
    obtain ⟨_, -, _, -, rfl⟩ := h
    rfl
  · rw [pure_eq_ok.mp h]

theorem cleanupJobMatcher_book [DecidableEq A] (h : cleanupJobMatcher s j = .ok s') :
    s'.book = s.book := by
  simp only [cleanupJobMatcher, ok_iff] at h
  obtain ⟨now, -, rfl⟩ := h
  split_ifs <;> rfl

variable [DecidableEq A]

variable {execution ex : ExecutionSpecifier} {a a' : Assignment} {missing n now : ℕ}
  {pubKeys keys : List PubKey} {l : List A} {K V : Type} {minMetrics mins : Option (List (PoolId × ℕ × ℕ))}
  {script : Script} {call : Call A} {op : Op T}

theorem Acknowledges.reports (h : Acknowledges j b ex b') : b'.reports = b.reports := by
  cases h <;> rfl

theorem updateJobStatus_acknowledges (h : updateJobStatus s j ex = .ok s') :
    Acknowledges j s.book ex s'.book := by
  cases ex with
  | all =>
    simp only [updateJobStatus, ok_iff] at h
    obtain ⟨st, hf, status', hs', rfl⟩ := h
    exact .all hf hs'
  | index i =>
    simp only [updateJobStatus, ok_iff] at h
    obtain ⟨status', hs', rfl⟩ := h
    exact .index hs'

theorem updateNextReportIndexOnAcknowledge_book
    (h : updateNextReportIndexOnAcknowledge s j p a ex = .ok s') :
    ∃ next reports, s'.book = { s.book with reports } ∧
      (∀ k, reports.lookup k = if k = (j, p) then some next else s.book.reports.lookup k) ∧
      (ex = .all → next = 0) ∧
      ∀ i, ex = .index i → next = i ∨ s.book.reports.lookup (j, p) = some next := by
  have hw : ∀ next k, (s.nextReportIndex.insert (j, p) next).lookup k =
      if k = (j, p) then some next else s.book.reports.lookup k :=
    fun next k => lookup_insert_eq s.nextReportIndex (j, p) k next
  cases ex with
  | all =>
    refine ⟨0, _, (congrArg State.book (pure_eq_ok.mp h)).symm, hw 0, fun _ => rfl, ?_⟩
    rintro i ⟨⟩
  | index i =>
    have hn : ∀ i', ExecutionSpecifier.index i = .index i' → i = i' :=
      fun i' => ExecutionSpecifier.index.inj
    unfold updateNextReportIndexOnAcknowledge at h
    cases hold : s.nextReportIndex.lookup (j, p) with
    | none =>
      rw [hold] at h
      exact ⟨i, _, (congrArg State.book (pure_eq_ok.mp h)).symm, hw i, (fun ha => by cases ha),
        fun i' hi' => .inl (hn i' hi')⟩
    | some old =>
      rw [hold] at h
      simp only [ok_iff] at h
      obtain ⟨reg, -, now, -, h⟩ := h
      split_ifs at h
      · refine ⟨old, s.nextReportIndex, (congrArg State.book (pure_eq_ok.mp h)).symm, fun k => ?_,
          (fun ha => by cases ha), fun _ _ => .inr hold⟩
        split_ifs with hk
        · rw [hk, hold]
        · rfl
      · simp only [ok_iff] at h
        obtain ⟨s₁, hre, rfl⟩ := h
        have hb := doUpdateReputation_book hre
        have hr : s₁.nextReportIndex = s.nextReportIndex := congrArg Book.reports hb
        refine ⟨i, s₁.nextReportIndex.insert (j, p) i, ?_, ?_, (fun ha => by cases ha),
          fun i' hi' => .inl (hn i' hi')⟩
        · show { s₁.book with reports := s₁.nextReportIndex.insert (j, p) i } = _
          rw [hb]
        · rw [hr]
          exact hw i

theorem unreserve_pay (h : unreserve s j n = .ok s') :
    n ≤ s.book.budget j ∧ s'.book = s.book.pay j n := by
  simp only [unreserve, ok_iff] at h
  obtain ⟨⟨⟩, hc, rfl⟩ := h
  exact ⟨hc, rfl⟩

theorem handleReward_pay (h : handleReward s j n = .ok s') :
    n ≤ s.book.budget j ∧ s'.book = s.book.pay j n := by
  simp only [handleReward, ok_iff, Prod.exists] at h
  obtain ⟨s₁, hu, w, imbalance, -, rfl⟩ := h
  obtain ⟨hc, hb⟩ := unreserve_pay hu
  exact ⟨hc, hb⟩

theorem payMatcherReward_pay {matcher : A} (h : payMatcherReward s j n matcher = .ok s') :
    T.matcherPercentage.mulFloor n ≤ s.book.budget j ∧
      s'.book = s.book.pay j (T.matcherPercentage.mulFloor n) := by
  simp only [payMatcherReward, bind_eq_ok] at h
  obtain ⟨s₁, hu, s₂, hf, hr⟩ := h
  obtain ⟨hc, hb⟩ := unreserve_pay hu
  exact ⟨hc, (transferPositive_book hr).trans ((transferPositive_book hf).trans hb)⟩

theorem Assignment.isInvalid_eq (a : Assignment) (sched : Schedule) (now tolerance : ℕ) :
    a.isInvalid sched now tolerance = if a.acknowledged = false
      then decide ((a.period sched tolerance).1 < now)
      else decide ((a.period sched tolerance).2 < now) := rfl

theorem updateAssignmentToAcknowledged_ok {sched : Schedule} {changed : Bool}
    (h : updateAssignmentToAcknowledged s p j execution pubKeys sched = .ok (s', changed, a')) :
    ∃ a, s.storedMatches.lookup (p, j) = some a ∧ a.execution = execution ∧
      (a.period sched T.reportTolerance).1 ≥ s.time ∧ changed = !a.acknowledged ∧
      a' = { a with acknowledged := true, pubKeys } ∧
      s' = { s with storedMatches := (s.storedMatches.insert (p, j) a') } := by
  simp only [updateAssignmentToAcknowledged, ok_iff, Prod.mk.injEq] at h
  obtain ⟨a, hf, now, hn, ⟨⟩, ht, ⟨⟩, hex, rfl, rfl, rfl⟩ := h
  obtain rfl := now_eq_ok hn
  refine ⟨a, hf, hex, ?_, rfl, rfl, rfl⟩
  subst hex
  unfold Assignment.period
  cases hx : a.execution with
  | all =>
    rw [hx] at ht
    exact ht
  | index i =>
    rw [hx] at ht
    exact ht

theorem processAcknowledgeMatch_ok (h : processAcknowledgeMatch s p j execution pubKeys = .ok s') :
    ∃ reg a, s.book.registrations.lookup j = some reg ∧
      s.book.assignments.lookup (p, j) = some a ∧ a.execution = execution ∧
      (a.acknowledged = true ∧ s'.book = { s.book with
            assignments := s.book.assignments.insert (p, j) { a with pubKeys } } ∨
        a.acknowledged = false ∧
          a.isInvalid reg.schedule s.book.time T.reportTolerance = false ∧
          ∃ (b₁ : Book A) (reports : StorageMap (JobId A × A) ℕ) (next paid : ℕ),
            Acknowledges j { s.book with assignments := (s.book.assignments.insert (p, j)
              { a with acknowledged := true, pubKeys }) } execution b₁ ∧
            (∀ k, reports.lookup k = if k = (j, p) then some next else s.book.reports.lookup k) ∧
            (execution = .all → next = 0) ∧
            (∀ i, execution = .index i → next = i ∨ s.book.reports.lookup (j, p) = some next) ∧
            Payment { b₁ with reports } j paid s'.book ∧
            (paid = 0 ∨
              paid = T.matcherPercentage.mulFloor (matcherRemaining reg a a.execution))) := by
  simp only [processAcknowledgeMatch, ok_iff, Prod.exists] at h
  obtain ⟨reg, hre, s₁, changed, a', hu, h⟩ := h
  obtain ⟨a, hf, rfl, ht, rfl, rfl, rfl⟩ := updateAssignmentToAcknowledged_ok hu
  refine ⟨reg, a, hre, hf, rfl, ?_⟩
  cases hc : a.acknowledged with
  | true =>
    rw [hc] at h
    cases h
    exact .inl ⟨rfl, rfl⟩
  | false =>
    rw [hc] at h
    simp only [Bool.not_false, if_true, ok_iff] at h
    obtain ⟨s₁, hs, s₂, hr, world, -, hp⟩ := h
    have hv : a.isInvalid reg.schedule s.time T.reportTolerance = false := by
      rw [Assignment.isInvalid_eq, if_pos hc]
      exact decide_eq_false (Nat.not_lt.mpr ht)
    have ha := updateJobStatus_acknowledges hs
    obtain ⟨next, reports, hb, hl, hal, hn⟩ :=
      updateNextReportIndexOnAcknowledge_book hr
    rw [ha.reports] at hl hn
    refine .inr ⟨rfl, hv, s₁.book, reports, next, ?_⟩
    cases hm : s₂.jobMatcher.lookup j with
    | none =>
      rw [hm] at hp
      cases hp
      have ho : Payment { s₁.book with reports } j 0 s₂.book := by
        rw [← hb]
        exact .none
      exact ⟨0, ha, hl, hal, hn, ho, .inl rfl⟩
    | some matcher =>
      rw [hm] at hp
      obtain ⟨hco, hpa⟩ := payMatcherReward_pay hp
      have hso : Payment { s₁.book with reports } j
          (T.matcherPercentage.mulFloor (matcherRemaining reg a a.execution)) s'.book := by
        rw [← hb, hpa]
        exact .some hco
      exact ⟨_, ha, hl, hal, hn, hso, .inr rfl⟩

theorem processAcknowledgeMatch_deals (h : processAcknowledgeMatch s p j ex keys = .ok s') :
    Deals T good s.book s'.book := by
  obtain ⟨reg, a, hr, hf, rfl, hc⟩ := processAcknowledgeMatch_ok h
  refine Deal.deals ?_
  rcases hc with ⟨-, hb⟩ | ⟨hu, hv, b₁, reports, next, paid, hac, hl, ha, -, hpa, hp⟩
  · rw [hb]
    exact .rekey hf
  · exact .acknowledge hr hf hu hv hac hl ha hpa hp

theorem updateAssignment_ok (h : updateAssignment s p j = .ok (s', a')) :
    ∃ a, s.storedMatches.lookup (p, j) = some a ∧ a.acknowledged = true ∧ a.sla.met < a.sla.total ∧
      a' = { a with sla := { a.sla with met := a.sla.met + 1 } } ∧
      s' = { s with storedMatches := (s.storedMatches.insert (p, j) a') } := by
  simp only [updateAssignment, ok_iff, Prod.mk.injEq] at h
  obtain ⟨a, hf, ⟨⟩, ha, ⟨⟩, hw, rfl, rfl⟩ := h
  exact ⟨a, hf, ha, hw, rfl, rfl⟩

theorem updateNextReportIndexOnReport_ok {v : Option ℕ}
    (h : updateNextReportIndexOnReport s j p reg a = .ok (s', missing, v)) :
    ∃ expected rep, (∀ n, s.nextReportIndex.lookup (j, p) = some n → expected = n) ∧
      expected ≤ rep ∧ v = nextExpectedReport a rep ∧
      s' = { s with nextReportIndex := setOrRemove s.nextReportIndex (j, p) v } := by
  simp only [updateNextReportIndexOnReport, ok_iff, Prod.mk.injEq, Prod.exists] at h
  obtain ⟨now, -, ⟨⟩, hl, rep, missing', hb, rfl, -, rfl⟩ := h
  refine ⟨_, rep, ?_, le_bookedExecution hb hl, rfl, rfl⟩
  intro n hn
  rw [hn, Option.getD_some]

theorem doReport_deals (h : doReport s j p = .ok s') : Deals T good s.book s'.book := by
  simp only [doReport, ok_iff, Prod.exists] at h
  obtain ⟨s₁, a', hu, reg, hre, s₂, missing, v, hn, s₃, hw, s₄, hp, rfl⟩ := h
  obtain ⟨a, ho, ha, hf, rfl, rfl⟩ := updateAssignment_ok hu
  obtain ⟨expected, reported, hx, hl, rfl, rfl⟩ := updateNextReportIndexOnReport_ok hn
  obtain ⟨hc, hpa⟩ := handleReward_pay hw
  have hb := (doUpdateReputation_book hp).trans hpa
  have hr : Reports s.book p j reg a _ expected reported :=
    ⟨hre, ho, ha, hf, rfl, hx, hl⟩
  refine Deal.deals ?_
  cases hv : nextExpectedReport
      { a with sla := { a.sla with met := a.sla.met + 1 } } reported with
  | none =>
    rw [hv] at hb
    show Deal T good s.book (s₄.book.unassign p j)
    rw [hb]
    exact .reportLast hr hv (.some hc)
  | some next =>
    rw [hv] at hb
    rw [if_neg (by simp), hb]
    exact .report hr hv (.some hc)

theorem doCleanupAssignment_deals (s : State T) (p : A) (j : JobId A) (now : ℕ) :
    Deals T good s.book (doCleanupAssignment s p j now).book := by
  unfold doCleanupAssignment
  split
  · exact .refl _
  · split
    · exact Deal.deals .drop
    · split_ifs
      · exact Deal.deals .drop
      · exact .refl _

theorem doCleanupAssignments_deals {jobIds : List (JobId A)}
    (h : doCleanupAssignments s p jobIds = .ok s') : Deals T good s.book s'.book := by
  simp only [doCleanupAssignments, ok_iff] at h
  obtain ⟨now, -, rfl⟩ := h
  induction jobIds generalizing s with
  | nil => exact .refl _
  | cons j jobIds ih => exact (doCleanupAssignment_deals s p j now).trans ih

theorem unassignAll_deals (s : State T) (j : JobId A) (l : List A) :
    Deals T good s.book (s.unassignAll j l).book := by
  induction l generalizing s with
  | nil => exact .refl _
  | cons p l ih => exact Deals.trans (Deal.deals .drop) (ih (s.unassign p j))

theorem cleanupStorage_deals (s : State T) (j : JobId A) (maxIterations : ℕ) :
    Deals T good s.book (cleanupStorage s j maxIterations).book := by
  unfold cleanupStorage
  split_ifs
  · exact unassignAll_deals s j _
  · exact .refl _

theorem cleanupJobAssignments_deals (h : cleanupJobAssignments s j = .ok s') :
    Deals T good s.book s'.book := by
  simp only [cleanupJobAssignments, ok_iff] at h
  obtain ⟨now, -, rfl⟩ := h
  split_ifs
  · exact unassignAll_deals s j _
  · exact .refl _

theorem lookup_foldl_erase {m : StorageMap (JobId A × A) Unit}
    (h : ∀ p, p ∈ l ∨ m.lookup (j, p) = none) (p : A) :
    (l.foldl (fun m p => m.erase (j, p)) m).lookup (j, p) = none := by
  induction l generalizing m with
  | nil => exact (h p).resolve_left List.not_mem_nil
  | cons p' l ih =>
    refine ih fun p'' => ?_
    rw [lookup_erase_eq]
    rcases h p'' with hm | hn
    · rcases List.mem_cons.mp hm with rfl | hl
      · exact .inr (if_pos rfl)
      · exact .inl hl
    · rw [hn, ite_self]
      exact .inr rfl

theorem mem_processorsOf (s : State T) (j : JobId A) (p : A) :
    p ∈ s.processorsOf j ∨ s.assignedProcessors.lookup (j, p) = none := by
  cases hp : s.assignedProcessors.lookup (j, p) with
  | none => exact .inr rfl
  | some u => exact .inl (List.mem_map.mpr ⟨(p, u), mem_iterPrefix.mpr hp, rfl⟩)

theorem unassignAll_book (s : State T) (j : JobId A) (l : List A) :
    (s.unassignAll j l).book = { s.book with
      assignments := l.foldl (fun m p => m.erase (p, j)) s.storedMatches
      processors := (l.foldl (fun m p => m.erase (j, p)) s.assignedProcessors) } := by
  induction l generalizing s with
  | nil => rfl
  | cons p l ih => exact ih (s.unassign p j)

theorem finalizeJob_book (h : finalizeJob s j = .ok s') :
    s'.book = { s.book with budgets := s.jobBudgets.insert j 0 } := by
  simp only [finalizeJob, refund, unreserveRemaining, ok_iff, Prod.exists, Prod.mk.injEq] at h
  obtain ⟨s₁, remaining, ⟨_, -, _, -, rfl, -⟩, _, -, rfl⟩ := h
  rfl

theorem releaseProcessor_deal (hr : s.storedJobRegistration.lookup j = some reg)
    (hf : good s.book (.release p j)) (h : releaseProcessor j reg s.time s p = .ok s') :
    Deal T good s.book s'.book ∧ s'.time = s.time ∧
      s'.storedJobRegistration = s.storedJobRegistration ∧
      s'.assignedProcessors = s.assignedProcessors.erase (j, p) := by
  simp only [releaseProcessor] at h
  have hn : s' = s.unassign p j → Deal T good s.book s'.book ∧ s'.time = s.time ∧
      s'.storedJobRegistration = s.storedJobRegistration ∧
      s'.assignedProcessors = s.assignedProcessors.erase (j, p) := by
    rintro rfl
    exact ⟨.release hf hr .none (.inl rfl), rfl, rfl, rfl⟩
  rcases whenSome_eq_ok.mp h with ⟨-, hs⟩ | ⟨a, ho, h⟩
  · exact hn hs.symm
  · split_ifs at h with hd
    · obtain ⟨hc, hp⟩ := handleReward_pay h
      have hin : dueAt reg s.time a := dueAt_of_release hd
      refine ⟨?_, congrArg Book.time hp, congrArg Book.registrations hp,
        congrArg Book.processors hp⟩
      have hde : Deal T good s.book ((s.book.pay j a.feePerExecution).unassign p j) :=
        .release hf hr (.some hc) (.inr ⟨a, ho, hin, rfl⟩)
      rw [hp]
      exact hde
    · exact hn (pure_eq_ok.mp h).symm

theorem releaseProcessors_deals
    (hr : s.storedJobRegistration.lookup j = some reg)
    (hfa : AlongM (releaseProcessor j reg s.time) (fun s p => good s.book (.release p j)) s l)
    (h : l.foldlM (releaseProcessor j reg s.time) s = .ok s') :
    Deals T good s.book s'.book ∧
      s'.assignedProcessors = l.foldl (fun m p => m.erase (j, p)) s.assignedProcessors := by
  induction l generalizing s with
  | nil =>
    cases h
    exact ⟨.refl _, rfl⟩
  | cons p l ih =>
    rw [List.foldlM_cons, bind_eq_ok] at h
    obtain ⟨s₁, hf, hs⟩ := h
    obtain ⟨ho, hfr⟩ := alongM_cons hfa hf
    obtain ⟨hd, ht, hg, hp⟩ :=
      releaseProcessor_deal hr ho hf
    rw [← hg] at hr
    rw [← ht] at hs hfr
    obtain ⟨hde, ha⟩ := ih hr hfr hs
    refine ⟨(Deal.deals hd).trans hde, ?_⟩
    rw [ha, hp, List.foldl_cons]

theorem sameExcept_clearPrefixLimit [DecidableEq K] (m : StorageMap (JobId A × K) V) (j : JobId A)
    (limit : ℕ) : SameExcept (·.1 = j) m (clearPrefixLimit m j limit) :=
  fun k hk => lookup_clearPrefixLimit_ne hk limit k.2

def JobStatus.isAssigned : JobStatus → Bool
  | .opened | .matched => false
  | .assigned _ => true

def Releases (good : Book A → Deed A → Prop) (s : State T) (j : JobId A) : Prop :=
  (s.storedJobStatus.lookup j).any JobStatus.isAssigned = true →
    ∀ registration ∈ s.storedJobRegistration.lookup j,
    AlongM (releaseProcessor j registration s.time) (fun s p => good s.book (.release p j))
      { s with jobKeyIds := s.jobKeyIds.erase j } (s.processorsOf j)

instance [∀ b deed, Decidable (good b deed)] (s : State T) (j : JobId A) :
    Decidable (Releases good s j) := inferInstanceAs (Decidable (_ = _ → ∀ _ ∈ _, _))

theorem deregisterFor_deals (h : deregisterFor s j = .ok s') (hg : Releases good s j) :
    Deals T good s.book s'.book := by
  simp only [deregisterFor, deregisterHook, ok_iff] at h
  obtain ⟨s₁, ⟨st, hs, reg, hr, h⟩, rfl⟩ := h
  cases st with
  | opened =>
    simp only [ok_iff] at h
    obtain ⟨s₂, hf, rfl⟩ := h
    show Deals T good s.book { s₂.book with
      registrations := s₂.book.registrations.erase j
      status := s₂.book.status.erase j
      executionStatus := clearPrefixLimit s₂.book.executionStatus j _ }
    rw [finalizeJob_book hf]
    exact Deal.deals (.deregister (.inl hs) (sameExcept_clearPrefixLimit _ j _) (.refl _))
  | matched =>
    simp only [ok_iff] at h
    obtain ⟨s₂, hf, rfl⟩ := h
    have hb := finalizeJob_book hf
    have hm : s₂.storedMatches = s.storedMatches := congrArg Book.assignments hb
    have hp : s₂.assignedProcessors = s.assignedProcessors := congrArg Book.processors hb
    have hli : s₂.processorsOf j = s.processorsOf j := by
      unfold State.processorsOf
      rw [hp]
    refine (unassignAll_deals s j (s.processorsOf j)).trans ?_
    show Deals T good _ { (s₂.unassignAll j (s₂.processorsOf j)).book with
      registrations := (s₂.unassignAll j (s₂.processorsOf j)).book.registrations.erase j
      status := (s₂.unassignAll j (s₂.processorsOf j)).book.status.erase j
      executionStatus := clearPrefixLimit
        (s₂.unassignAll j (s₂.processorsOf j)).book.executionStatus j _ }
    rw [unassignAll_book, unassignAll_book, hli, hm, hp, hb]
    exact Deal.deals (.deregister (.inr (lookup_foldl_erase (mem_processorsOf s j)))
      (sameExcept_clearPrefixLimit _ j _) (.refl _))
  | assigned count =>
    simp only [ok_iff] at h
    obtain ⟨now, hn, s₂, hl, s₃, hf, rfl⟩ := h
    obtain rfl := now_eq_ok hn
    obtain ⟨hd, hp⟩ : Deals T good s.book s₂.book ∧ s₂.assignedProcessors =
        (s.processorsOf j).foldl (fun m p => m.erase (j, p)) s.assignedProcessors :=
      releaseProcessors_deals (s := { s with jobKeyIds := s.jobKeyIds.erase j }) hr
        (hg (by rw [hs]; rfl) reg hr) hl
    refine hd.trans ?_
    show Deals T good s₂.book { s₃.book with
      registrations := s₃.book.registrations.erase j
      status := s₃.book.status.erase j
      executionStatus := clearPrefixLimit s₃.book.executionStatus j _
      reports := clearPrefixLimit s₃.book.reports j _ }
    rw [finalizeJob_book hf]
    have hdr : s₂.book.Drained j := by
      show ∀ p, s₂.assignedProcessors.lookup (j, p) = none
      rw [hp]
      exact lookup_foldl_erase (mem_processorsOf s j)
    exact Deal.deals (.deregister (.inr hdr) (sameExcept_clearPrefixLimit _ j _)
      (sameExcept_clearPrefixLimit _ j _))

def AssignmentStrategy.instantSources : AssignmentStrategy A → Option (List (PlannedExecution A))
  | .single instantMatch => instantMatch
  | .competing => none

def RegisterOffers (good : Book A → Deed A → Prop) (s : State T) (j : JobId A)
    (registration : JobRegistration A) (minMetrics : Option (List (PoolId × ℕ × ℕ))) : Prop :=
  ∀ sources ∈ registration.extra.assignmentStrategy.instantSources,
    WhenOk (storeRegistration s j registration minMetrics >>= (admitJob · j registration)) fun s =>
      MatchOffers good none s ⟨j, sources⟩

instance [∀ b o, Decidable (good b o)] (s : State T) (j : JobId A) (registration : JobRegistration A)
    (minMetrics : Option (List (PoolId × ℕ × ℕ))) :
    Decidable (RegisterOffers good s j registration minMetrics) :=
  inferInstanceAs (Decidable (∀ _ ∈ _, _))

theorem storeRegistration_book (h : storeRegistration s j reg mins = .ok s') :
    s'.book = { s.book with
      registrations := s.storedJobRegistration.insert j reg
      history := .registered j reg :: s.history } := by
  simp only [storeRegistration, bind_eq_ok] at h
  obtain ⟨⟨⟩, -, ⟨⟩, -, h⟩ := h
  rcases whenSome_eq_ok.mp h with ⟨-, rfl⟩ | ⟨ms, -, h⟩
  · rfl
  · simp only [ok_iff] at h
    obtain ⟨⟨⟩, -, rfl⟩ := h
    rfl

theorem registrable_of_checks (h : checkRegistration s reg = .ok ())
    (hm : matchInstantly s₁ j reg = .ok s₂) : Registrable T reg := by
  simp only [checkRegistration, ok_iff] at h
  obtain ⟨⟨⟩, hd, ⟨⟩, -, ⟨⟩, hc, ⟨⟩, hn, _, -, ⟨⟩, -, ⟨⟩, -, ⟨⟩, hs, -⟩ := h
  refine ⟨⟨hd, hn, hc⟩, hs, fun ho => ?_⟩
  unfold matchInstantly at hm
  rw [ho] at hm
  simp only [ok_iff] at hm
  obtain ⟨⟨⟩, hmi, -⟩ := hm
  exact hmi

theorem openJob_book (h : openJob s j = .ok s') : ∃ status, s'.book = { s.book with status } ∧
      (∀ st, s.storedJobStatus.lookup j = some st → st = .opened) ∧
      status.lookup j = some .opened ∧ SameExcept (· = j) s.storedJobStatus status := by
  unfold openJob at h
  cases hf : s.storedJobStatus.lookup j with
  | none =>
    rw [hf] at h
    exact ⟨s.storedJobStatus.insert j .opened, congrArg State.book (pure_eq_ok.mp h).symm,
      fun st hs => (by cases hs), AList.lookup_insert _, fun k hk => AList.lookup_insert_ne hk⟩
  | some st =>
    rw [hf] at h
    simp only [ok_iff] at h
    obtain ⟨⟨⟩, rfl, rfl⟩ := h
    exact ⟨_, rfl, fun st hs => (Option.some.inj hs).symm, hf, .refl _⟩

theorem matchInstantly_matches (h : matchInstantly s j reg = .ok s')
    (ho : s.book.registrations.lookup j = some reg)
    (hg : ∀ sources ∈ reg.extra.assignmentStrategy.instantSources,
      MatchOffers good none s ⟨j, sources⟩) :
    s'.book = s.book ∨ MatchesAll T good j reg s.book s'.book := by
  unfold matchInstantly at h
  split at h
  · next instantMatch hs =>
    rcases whenSome_eq_ok.mp h with ⟨-, rfl⟩ | ⟨sources, rfl, h⟩
    · exact .inl rfl
    · rw [hs] at hg
      have hf : [⟨j, sources⟩].foldlM (matchJob none) s = .ok s' := h
      rw [List.foldlM_cons, bind_eq_ok] at hf
      obtain ⟨s₁, hm, hr⟩ := hf
      cases hr
      rcases matchJob_matches hm (hg sources rfl) with hb | ⟨reg', hf', ha⟩
      · exact .inl hb
      · obtain rfl := Option.mem_unique ho hf'
        exact .inr ha
  · simp only [ok_iff] at h
    obtain ⟨⟨⟩, -, rfl⟩ := h
    exact .inl rfl

theorem lockReward_book {reward : ℕ} (h : lockReward s j reward = .ok s') :
    s'.book = s.book.lock j reward := by
  simp only [lockReward, reserve, ok_iff, checkedAdd_eq_some] at h
  obtain ⟨_, -, _, -, _, ⟨rfl, -⟩, rfl⟩ := h
  rfl

theorem registerFor_deals (h : registerFor s j reg minMetrics = .ok s')
    (hg : RegisterOffers good s j reg minMetrics) : Deals T good s.book s'.book := by
  simp only [registerFor, registerHook, admitJob, bind_eq_ok] at h
  obtain ⟨s₁, hs, s₂, ⟨⟨⟩, hc, ho⟩, s₃, hm, reward, hw, hl⟩ := h
  have hd : admitJob s₁ j reg = .ok s₂ := bind_eq_ok.mpr ⟨(), hc, ho⟩
  obtain ⟨status, hsb, hb, hp, ht⟩ := openJob_book ho
  have hst := storeRegistration_book hs
  have ha : s₁.storedJobStatus = s.storedJobStatus := congrArg Book.status hst
  rw [ha] at hb ht
  have hr : s₂.book = s.book.register j reg status := by
    rw [hsb, hst]
    rfl
  have hf : s₂.book.registrations.lookup j = some reg := by
    rw [hr]
    exact AList.lookup_insert _
  have hn := matchInstantly_matches hm hf fun sources hso =>
    WhenOk.of_eq_ok (a := s₂) (hg sources hso) (bind_eq_ok.mpr ⟨s₁, hs, hd⟩)
  rw [hr] at hn
  rw [lockReward_book hl, totalRewardAmount_eq hw]
  exact Deal.deals (.register (registrable_of_checks hc hm) hb hp ht hn)

theorem updateAllowedSources_ok {seq : ℕ} {ups : List (ListUpdateOperation × A)}
    (h : updateAllowedSources s p seq ups = .ok s') :
    ∃ reg sources, s.storedJobRegistration.lookup (.acurast p, seq) = some reg ∧
      sources = ups.foldl updateAllowedSource (reg.allowedSources.getD []) ∧
      s' = { s with storedJobRegistration := (s.storedJobRegistration.insert (.acurast p, seq)
        { reg with allowedSources := if sources = [] then none else some sources }) } := by
  simp only [updateAllowedSources, ok_iff] at h
  obtain ⟨reg, hf, ⟨⟩, -, st, -, h⟩ := h
  refine ⟨reg, _, hf, rfl, ?_⟩
  split at h
  · simp only [ok_iff] at h
    obtain ⟨⟨⟩, -, rfl⟩ := h
    rfl
  · exact (pure_eq_ok.mp h).symm

theorem updateAllowedSources_deals {seq : ℕ} {ups : List (ListUpdateOperation × A)}
    (h : updateAllowedSources s p seq ups = .ok s') : Deals T good s.book s'.book := by
  obtain ⟨reg, sources, hf, -, rfl⟩ := updateAllowedSources_ok h
  exact Deal.deals (.revise hf rfl rfl)

theorem editScript_deals (h : editScript s p j script = .ok s') : Deals T good s.book s'.book := by
  simp only [editScript, transferKeyId, ok_iff, Prod.exists, Prod.mk.injEq] at h
  obtain ⟨ed, -, ⟨⟩, -, ⟨⟩, -, reg, hf, s₁, _, ⟨_, -, rfl, -⟩, rfl⟩ := h
  exact Deal.deals (.revise hf rfl rfl)

theorem setEnvironmentFor_book {envs : List (A × Environment)}
    (h : setEnvironmentFor s j envs = .ok s') : s'.book = s.book := by
  refine foldlM_invariant (P := fun s' : State T => s'.book = s.book) ?_ h rfl
  intro s₁ entry s₂ hs hs₁
  simp only [ok_iff] at hs
  obtain ⟨_, -, rfl⟩ := hs
  exact hs₁

theorem deleteAdvertisement_book (h : deleteAdvertisement s p = .ok s') : s'.book = s.book := by
  simp only [deleteAdvertisement, ok_iff] at h
  obtain ⟨_, -, ⟨⟩, -, rfl⟩ := h
  rfl

theorem transferEditor_book {ed : Option A} (h : transferEditor s p j ed = .ok s') :
    s'.book = s.book := by
  simp only [transferEditor, ok_iff] at h
  obtain ⟨_, -, ⟨⟩, -, rfl⟩ := h
  rfl

theorem prepareDeployment_book {mutability : ScriptMutability A} {reuseKeysFrom : Option (JobId A)}
    (h : prepareDeployment s p script mutability reuseKeysFrom = .ok (s', j)) :
    s'.book = s.book := by
  simp only [prepareDeployment, nextJobId, ok_iff, Prod.mk.injEq] at h
  obtain ⟨s₁, hk, rfl, -⟩ := h
  cases mutability with
  | immutable =>
    simp only [deployKeys, ok_iff] at hk
    obtain ⟨⟨⟩, -, rfl⟩ := hk
    rfl
  | mutable editor =>
    simp only [deployKeys, ok_iff, Prod.exists] at hk
    obtain ⟨s₂, _, _, hd, rfl⟩ := hk
    cases reuseKeysFrom with
    | none =>
      obtain ⟨rfl, -⟩ := Prod.mk.inj (pure_eq_ok.mp hd)
      rfl
    | some original =>
      simp only [deriveKeyId, transferKeyId, ok_iff, Prod.exists, Prod.mk.injEq] at hd
      obtain ⟨⟨⟩, -, _, -, _, -, _, -, ⟨⟩, -, _, _, ⟨_, -, rfl, -⟩, rfl, -⟩ := hd
      rfl

def Offers (good : Book A → Deed A → Prop) (s : State T) : Op T → Prop
  | .dispatch (.signed who) (.proposeMatching matching) =>
    AlongM (matchJob (some who)) (MatchOffers good (some who)) s matching
  | .dispatch (.signed who) (.proposeExecutionMatching matching) =>
    AlongM (matchExecution (some who)) (ExecutionOffers good) s matching
  | .dispatch (.signed who) (.register registration minMetrics) =>
    RegisterOffers good (nextJobId s).1 (.acurast who, (nextJobId s).2) registration minMetrics
  | .dispatch (.signed who) (.deploy registration mutability reuseKeysFrom minMetrics) =>
    WhenOk (prepareDeployment s who registration.script mutability reuseKeysFrom) fun (s, j) =>
      RegisterOffers good s j registration minMetrics
  | .execute (.registerJob j registration) => RegisterOffers good s j registration none
  | .dispatch (.signed who) (.deregister sequence) => Releases good s (.acurast who, sequence)
  | .execute (.deregisterJob j) => Releases good s j
  | _ => True

instance [∀ b o, Decidable (good b o)] (s : State T) (op : Op T) : Decidable (Offers good s op) := by
  unfold Offers
  split <;> infer_instance

theorem registerOffers_of_forall (h : ∀ b deed, good b deed) (s : State T) (j : JobId A)
    (reg : JobRegistration A) (minMetrics : Option (List (PoolId × ℕ × ℕ))) :
    RegisterOffers good s j reg minMetrics :=
  fun _ _ => .of_forall (fun _ _ _ _ => .of_forall (fun _ _ => h _ _) _ _) _

theorem offers_of_forall (h : ∀ b deed, good b deed) (s : State T) (op : Op T) : Offers good s op := by
  unfold Offers
  split
  · exact .of_forall (fun _ _ _ _ _ => .of_forall (fun _ _ => h _ _) _ _) _ _
  · exact .of_forall (fun _ _ _ _ _ => .of_forall (fun _ _ => h _ _) _ _) _ _
  · exact registerOffers_of_forall h _ _ _ _
  · exact .of_forall (fun _ => registerOffers_of_forall h _ _ _ _) _
  · exact registerOffers_of_forall h _ _ _ _
  · exact fun _ _ _ => .of_forall (fun _ _ => h _ _) _ _
  · exact fun _ _ _ => .of_forall (fun _ _ => h _ _) _ _
  · trivial

theorem dispatchSigned_deals (h : dispatchSigned s p call = .ok s')
    (hg : Offers good s (.dispatch (.signed p) call)) : Deals T good s.book s'.book := by
  cases call with
  | register reg mins =>
    have hr := registerFor_deals h hg
    exact hr
  | deregister sequence => exact deregisterFor_deals h hg
  | updateAllowedSources sequence updates => exact updateAllowedSources_deals h
  | setEnvironments sequence environments => exact .of_eq (setEnvironmentFor_book h)
  | advertise advertisement => exact .of_eq (doAdvertise_book h)
  | deleteAdvertisement => exact .of_eq (deleteAdvertisement_book h)
  | proposeMatching matching => exact processMatching_deals h hg
  | proposeExecutionMatching matching => exact processExecutionMatching_deals h hg
  | acknowledgeMatch jobId keys => exact processAcknowledgeMatch_deals h
  | acknowledgeExecutionMatch jobId executionIndex keys => exact processAcknowledgeMatch_deals h
  | report jobId => exact doReport_deals h
  | finalizeJob jobId => exact doCleanupAssignments_deals h
  | cleanupStorage jobId maxIterations => cases h
  | cleanupAssignments jobIds => exact doCleanupAssignments_deals h
  | cleanupAssignmentsFor processor jobIds => exact doCleanupAssignments_deals h
  | cleanupJobAssignments jobId => exact cleanupJobAssignments_deals h
  | cleanupJobMatcher jobId => exact .of_eq (cleanupJobMatcher_book h)
  | deploy reg mutability reuseKeysFrom mins =>
    simp only [dispatchSigned, deploy, bind_eq_ok] at h
    obtain ⟨⟨s₁, j⟩, hp, hr⟩ := h
    have hd := registerFor_deals hr (hg.of_eq_ok hp)
    rwa [prepareDeployment_book hp] at hd
  | editScript jobId script => exact editScript_deals h
  | transferEditor jobId newEditor => exact .of_eq (transferEditor_book h)
  | updatePriceSettings settings => cases h

theorem dispatch_cases {o : Origin A} (h : dispatch s o call = .ok s') :
    (∃ jobId maxIterations, s' = cleanupStorage s jobId maxIterations) ∨ s'.book = s.book ∨
      ∃ who, o = .signed who ∧ dispatchSigned s who call = .ok s' := by
  unfold dispatch at h
  split at h
  · simp only [ok_iff] at h
    obtain ⟨⟨⟩, -, rfl⟩ := h
    exact .inl ⟨_, _, rfl⟩
  · simp only [ok_iff] at h
    obtain ⟨⟨⟩, -, rfl⟩ := h
    exact .inr (.inl rfl)
  · split at h
    · cases h
    · exact .inr (.inr ⟨_, rfl, h⟩)

theorem perform_deals (h : perform s op = .ok s') (hg : Offers good s op) :
    Deals T good s.book s'.book := by
  cases op with
  | dispatch o call =>
    rcases dispatch_cases h with ho | hb | ⟨who, rfl, hs⟩
    · obtain ⟨hj, maxIterations, rfl⟩ := ho
      exact cleanupStorage_deals s hj maxIterations
    · exact .of_eq hb
    · exact dispatchSigned_deals hs hg
  | execute act =>
    cases act with
    | registerJob hj reg => exact registerFor_deals h hg
    | deregisterJob hj => exact deregisterFor_deals h hg
    | setJobEnvironment hj envs => exact .of_eq (setEnvironmentFor_book h)
  | timestamp now =>
    cases h
    exact Deal.deals (.tick (le_max_left s.time now))
  | outside w =>
    cases h
    exact .refl _

def Agreed (good : Book A → Deed A → Prop) (s : State T) (op : Op T) : Prop :=
  (perform s op).isOk = true → Offers good s op

instance [∀ b o, Decidable (good b o)] (s : State T) (op : Op T) : Decidable (Agreed good s op) :=
  inferInstanceAs (Decidable (_ = _ → Offers good s op))

theorem step_deals (h : Agreed good s op) : Deals T good s.book (step s op).book := by
  unfold step
  cases hp : perform s op with
  | ok s' => exact perform_deals hp (h (by rw [hp]; rfl))
  | error e => exact .refl _

theorem run_deals {P : Book A → Prop} (hd : ∀ b b', Deal T good b b' → P b → P b') {ops : List (Op T)}
    (hr : Along step (Agreed good) s ops) (hs : P s.book) : P (run step s ops).book := by
  have ht : ∀ (s : State T) (op : Op T), Agreed good s op → P s.book → P (step s op).book :=
    fun s op ho hp => Deals.invariant hd (step_deals ho) hp
  exact run_invariant ht hr hs

end Acurast.Marketplace

import Acurast.Marketplace.StepDeals

/-! How the maps of jobs and assignments fit together in every reachable state: an assignment belongs to
a registered job and to the index of its processors, and an open job has none. -/

namespace Acurast.Marketplace

open Base

variable {A : Type} {T : Config A} [DecidableEq A] {good : Book A → Deed A → Prop} {b b' : Book A}
  {p : A} {j : JobId A} {registration reg : JobRegistration A} {a a' : Assignment}

structure Indexed (T : Config A) (b : Book A) : Prop where
  processors : ∀ p j a, b.assignments.lookup (p, j) = some a → b.processors.lookup (j, p) = some ()
  registered : ∀ p j a, b.assignments.lookup (p, j) = some a →
    ∃ registration, b.registrations.lookup j = some registration
  status : ∀ j registration, b.registrations.lookup j = some registration →
    ∃ st, b.status.lookup j = some st
  registrable : ∀ j registration, b.registrations.lookup j = some registration →
    Registrable T registration
  opened : ∀ p j, b.status.lookup j = some .opened → b.assignments.lookup (p, j) = none

namespace Indexed

theorem congr (hb : Indexed T b) (hr : b'.registrations = b.registrations)
    (hs : b'.status = b.status) (has : b'.assignments = b.assignments)
    (hp : b'.processors = b.processors) : Indexed T b' := by
  obtain ⟨h₁, h₂, h₃, h₄, h₅⟩ := hb
  rw [← has, ← hp] at h₁
  rw [← has, ← hr] at h₂
  rw [← hr, ← hs] at h₃
  rw [← hr] at h₄
  rw [← hs, ← has] at h₅
  exact ⟨h₁, h₂, h₃, h₄, h₅⟩

theorem free (hb : Indexed T b) (ho : ∀ st, b.status.lookup j = some st → st = .opened) (p : A) :
    b.assignments.lookup (p, j) = none := by
  cases hf : b.assignments.lookup (p, j) with
  | none => rfl
  | some a =>
    obtain ⟨reg, hr⟩ := hb.registered p j a hf
    obtain ⟨st, hs⟩ := hb.status j reg hr
    obtain rfl := ho st hs
    rw [hb.opened p j hs] at hf
    cases hf

theorem not_assigned (hb : Indexed T b) (h : b.processors.lookup (j, p) = none) :
    b.assignments.lookup (p, j) = none := by
  cases hf : b.assignments.lookup (p, j) with
  | none => rfl
  | some a =>
    rw [hb.processors p j a hf] at h
    cases h

theorem unassign (hb : Indexed T b) (p : A) (j : JobId A) : Indexed T (b.unassign p j) := by
  have hl : ∀ p' j' a, (b.unassign p j).assignments.lookup (p', j') = some a →
      (p', j') ≠ (p, j) ∧ b.assignments.lookup (p', j') = some a := by
    intro p' j' a ha
    obtain ⟨hk, ha⟩ := of_lookup_erase ha
    exact ⟨hk, ha⟩
  refine ⟨fun p' j' a ha => ?_, fun p' j' a ha => hb.registered p' j' a (hl p' j' a ha).2,
    hb.status, hb.registrable, fun p' j' hs => ?_⟩
  · obtain ⟨hn, ha⟩ := hl p' j' a ha
    have hn' : (j', p') ≠ (j, p) := fun hq => hn (by
      obtain ⟨rfl, rfl⟩ := Prod.mk.inj hq
      rfl)
    simp only [Book.unassign, lookup_erase_eq, if_neg hn']
    exact hb.processors p' j' a ha
  · simp only [Book.unassign, lookup_erase_eq]
    rw [hb.opened p' j' hs, ite_self]

theorem replace (hb : Indexed T b) (hf : b.assignments.lookup (p, j) = some a) (a' : Assignment) :
    Indexed T { b with assignments := b.assignments.insert (p, j) a' } := by
  have hbe : ∀ p' j' a₁, (b.assignments.insert (p, j) a').lookup (p', j') = some a₁ →
      ∃ a₀, b.assignments.lookup (p', j') = some a₀ := by
    intro p' j' a₁ ha
    rw [lookup_insert_eq] at ha
    split_ifs at ha with hk
    · rw [hk]
      exact ⟨a, hf⟩
    · exact ⟨a₁, ha⟩
  refine ⟨fun p' j' a₁ ha => ?_, fun p' j' a₁ ha => ?_, hb.status, hb.registrable, fun p' j' hs => ?_⟩
  · obtain ⟨a₀, ha₀⟩ := hbe p' j' a₁ ha
    exact hb.processors p' j' a₀ ha₀
  · obtain ⟨a₀, ha₀⟩ := hbe p' j' a₁ ha
    exact hb.registered p' j' a₀ ha₀
  · cases hl : (b.assignments.insert (p, j) a').lookup (p', j') with
    | none => rfl
    | some a₁ =>
      obtain ⟨a₀, ha₀⟩ := hbe p' j' a₁ hl
      rw [hb.opened p' j' hs] at ha₀
      cases ha₀

theorem assign (hb : Indexed T b) (hr : b.registrations.lookup j = some reg)
    (ht : b.status.lookup j ≠ some .opened) (p : A) (a : Assignment) :
    Indexed T (b.assign p j a) := by
  refine ⟨fun p' j' a₁ ha => ?_, fun p' j' a₁ ha => ?_, hb.status, hb.registrable, fun p' j' hs => ?_⟩
  · simp only [Book.assign, lookup_insert_eq, Prod.mk.injEq] at ha ⊢
    by_cases hk : p' = p ∧ j' = j
    · rw [if_pos hk.symm]
    · rw [if_neg hk] at ha
      rw [if_neg fun hq => hk hq.symm]
      exact hb.processors p' j' a₁ ha
  · simp only [Book.assign, lookup_insert_eq, Prod.mk.injEq] at ha ⊢
    by_cases hk : p' = p ∧ j' = j
    · rw [hk.2]
      exact ⟨reg, hr⟩
    · rw [if_neg hk] at ha
      exact hb.registered p' j' a₁ ha
  · have hj : j' ≠ j := by
      rintro rfl
      exact ht hs
    simp only [Book.assign, lookup_insert_eq, Prod.mk.injEq]
    rw [if_neg fun hq => hj hq.2]
    exact hb.opened p' j' hs

theorem register (hb : Indexed T b) {status : StorageMap (JobId A) JobStatus}
    (hre : Registrable T reg)
    (hf : ∀ p, b.assignments.lookup (p, j) = none)
    (ht : ∃ st, status.lookup j = some st) (ho : SameExcept (· = j) b.status status) :
    Indexed T (b.register j reg status) := by
  refine ⟨hb.processors, fun p' j' a₁ ha => ?_, fun j' r hr => ?_, fun j' r hr => ?_,
    fun p' j' hs => ?_⟩
  · simp only [Book.register, lookup_insert_eq]
    split_ifs with hj
    · exact ⟨reg, rfl⟩
    · exact hb.registered p' j' a₁ ha
  · simp only [Book.register, lookup_insert_eq] at hr ⊢
    split_ifs at hr with hj
    · rw [hj]
      exact ht
    · rw [ho j' hj]
      exact hb.status j' r hr
  · simp only [Book.register, lookup_insert_eq] at hr
    split_ifs at hr with hj
    · rw [← Option.some.inj hr]
      exact hre
    · exact hb.registrable j' r hr
  · by_cases hj : j' = j
    · rw [hj]
      exact hf p'
    · simp only [Book.register, ho j' hj] at hs
      exact hb.opened p' j' hs

theorem deregister (hb : Indexed T b) (hf : ∀ p, b.assignments.lookup (p, j) = none) :
    Indexed T { b with registrations := b.registrations.erase j, status := b.status.erase j } := by
  have has : ∀ p' j' a, b.assignments.lookup (p', j') = some a → j' ≠ j := by
    rintro p' j' a ha rfl
    rw [hf p'] at ha
    cases ha
  refine ⟨hb.processors, fun p' j' a ha => ?_, fun j' r hr => ?_, fun j' r hr => ?_,
    fun p' j' hs => ?_⟩
  · simp only [lookup_erase_eq, if_neg (has p' j' a ha)]
    exact hb.registered p' j' a ha
  · simp only [lookup_erase_eq] at hr ⊢
    split_ifs at hr with hj
    rw [if_neg hj]
    exact hb.status j' r hr
  · obtain ⟨hj, hr⟩ := of_lookup_erase hr
    exact hb.registrable j' r hr
  · obtain ⟨hj, hs⟩ := of_lookup_erase hs
    exact hb.opened p' j' hs

theorem free_of_drained (hb : Indexed T b) (h : b.status.lookup j = some .opened ∨ b.Drained j) (p : A) :
    b.assignments.lookup (p, j) = none := by
  rcases h with ho | hd
  · exact hb.opened p j ho
  · exact hb.not_assigned (hd p)

theorem setStatus (hb : Indexed T b) (j : JobId A) {st : JobStatus} (hs : st ≠ .opened) :
    Indexed T { b with status := b.status.insert j st } := by
  refine ⟨hb.processors, hb.registered, fun j' reg hr => ?_, hb.registrable, fun p' j' ho => ?_⟩
  · simp only [lookup_insert_eq]
    by_cases hj : j' = j
    · rw [if_pos hj]
      exact ⟨st, rfl⟩
    · rw [if_neg hj]
      exact hb.status j' reg hr
  · simp only [lookup_insert_eq] at ho
    split_ifs at ho with hj
    · exact absurd (Option.some.inj ho) hs
    · exact hb.opened p' j' ho

end Indexed

variable {ex : ExecutionSpecifier} {n : ℕ}

theorem Assigns.indexed {status : StorageMap (JobId A) JobStatus}
    (h : Assigns T good j reg ex b n b') (hb : Indexed T { b with status })
    (hr : b.registrations.lookup j = some reg)
    (hs : status.lookup j ≠ some .opened) : Indexed T { b' with status } := by
  induction h with
  | none => exact hb
  | more hbe _ _ ih =>
    rw [← hbe.fixed.1] at hr
    exact ih.assign hr hs _ _

theorem MatchesAll.indexed (h : MatchesAll T good j reg b b') (hb : Indexed T b)
    (hr : b.registrations.lookup j = some reg) : Indexed T b' := by
  cases h with
  | intro his hs has =>
    have hm : Indexed T { b with status := b.status.insert j .matched } :=
      hb.setStatus j (by simp)
    have ha := has.indexed hm hr (by rw [AList.lookup_insert]; simp)
    rwa [← has.fixed.2.1] at ha

theorem acknowledgedStatus_ne_opened {st status' : JobStatus}
    (h : acknowledgedStatus st = .ok status') : status' ≠ .opened := by
  rintro rfl
  cases st with
  | opened => cases h
  | matched => cases pure_eq_ok.mp h
  | assigned count => cases pure_eq_ok.mp h

theorem Payment.fixed (h : Payment b j n b') :
    b'.registrations = b.registrations ∧ b'.status = b.status ∧ b'.assignments = b.assignments ∧
      b'.processors = b.processors ∧ b'.executionStatus = b.executionStatus ∧ b'.time = b.time ∧
      b'.reports = b.reports := by
  cases h <;> exact ⟨rfl, rfl, rfl, rfl, rfl, rfl, rfl⟩

theorem Acknowledges.fixed (h : Acknowledges j b ex b') :
    b'.registrations = b.registrations ∧ b'.assignments = b.assignments ∧ b'.time = b.time ∧
      b'.budgets = b.budgets ∧ b'.history = b.history := by
  cases h <;> exact ⟨rfl, rfl, rfl, rfl, rfl⟩

theorem Acknowledges.not_opened (h : Acknowledges j b ex b') :
    b'.status.lookup j ≠ some .opened := by
  cases h with
  | all hf ha =>
    simpa only [AList.lookup_insert, ne_eq, Option.some.injEq] using acknowledgedStatus_ne_opened ha
  | index ha =>
    simpa only [AList.lookup_insert, ne_eq, Option.some.injEq] using acknowledgedStatus_ne_opened ha

theorem Acknowledges.executionOpen (h : Acknowledges j b ex b') {j' : JobId A} {i : ℕ}
    (ho : b'.executionOpen j' i) : b.executionOpen j' i := by
  cases h with
  | all hf ha => exact ho
  | index ha =>
    unfold Book.executionOpen at ho
    rw [getD_insert] at ho
    split_ifs at ho with hk
    · exact absurd ho (acknowledgedStatus_ne_opened ha)
    · exact ho

theorem Acknowledges.indexed (h : Acknowledges j b ex b') (hb : Indexed T b) :
    Indexed T b' := by
  cases h with
  | all hf ha => exact hb.setStatus j (acknowledgedStatus_ne_opened ha)
  | index ha =>
    exact (hb.setStatus j (acknowledgedStatus_ne_opened ha)).congr rfl rfl rfl rfl

theorem Deal.indexed (h : Deal T good b b') (hb : Indexed T b) : Indexed T b' := by
  cases h with
  | tick => exact hb.congr rfl rfl rfl rfl
  | reopen => exact hb.congr rfl rfl rfl rfl
  | drop => exact hb.unassign _ _
  | rekey hf => exact hb.replace hf _
  | revise hf hc hx =>
    refine ⟨hb.processors, fun p' j' a₁ ha => ?_, fun j' r hr => ?_, fun j' r hr => ?_, hb.opened⟩
    · simp only [lookup_insert_eq]
      split_ifs with hj
      · exact ⟨_, rfl⟩
      · exact hb.registered p' j' a₁ ha
    · simp only [lookup_insert_eq] at hr
      split_ifs at hr with hj
      · rw [hj]
        exact hb.status _ _ hf
      · exact hb.status j' r hr
    · simp only [lookup_insert_eq] at hr
      split_ifs at hr with hj
      · obtain ⟨hpro, hl, hin⟩ := hb.registrable _ _ hf
        rw [← hc] at hpro hin
        rw [← hx] at hl hin
        rw [← Option.some.inj hr]
        exact ⟨hpro, hl, hin⟩
      · exact hb.registrable j' r hr
  | register registrable his hop ho hins =>
    have hg := hb.register registrable (hb.free his) ⟨_, hop⟩ ho
    rcases hins with rfl | hm
    · exact hg.congr rfl rfl rfl rfl
    · exact (hm.indexed hg (AList.lookup_insert _)).congr rfl rfl rfl rfl
  | matchAll hf hm => exact hm.indexed hb hf
  | matchExecution hf his hsta hea hslo hass =>
    rename_i b₁ j reg n i start
    have hma : Indexed T { b with status := b.status.insert j .matched } :=
      hb.setStatus j (by simp)
    have hasg := hass.indexed hma hf (by rw [AList.lookup_insert]; simp)
    rw [← hass.fixed.2.1] at hasg
    exact hasg.congr rfl rfl rfl rfl
  | acknowledge registered hf hu ht hs reports_eq hn hp hpa =>
    obtain ⟨hre, hst, has, hpr, -⟩ := hp.fixed
    exact (hs.indexed (hb.replace hf _)).congr hre hst has hpr
  | report hrep hn hp =>
    obtain ⟨hre, hst, -, hpr, -⟩ := hp.fixed
    exact (hb.replace hrep.found _).congr hre hst rfl hpr
  | reportLast hrep hn hp =>
    obtain ⟨hre, hst, -, hpr, -⟩ := hp.fixed
    refine ((hb.replace hrep.found _).unassign _ _).congr hre hst rfl ?_
    simp only [Book.unassign, hpr]
  | release fair registered hp hpa =>
    obtain ⟨hre, hst, has, hpr, -⟩ := hp.fixed
    exact (hb.congr hre hst has hpr).unassign _ _
  | deregister hd hex ho =>
    exact (hb.deregister (hb.free_of_drained hd)).congr rfl rfl rfl rfl

theorem genesis_indexed (w : T.World) : Indexed T (State.genesis T w).book := by
  constructor
  · rintro p j a ⟨⟩
  · rintro p j a ⟨⟩
  · rintro j reg ⟨⟩
  · rintro j reg ⟨⟩
  · rintro p j ⟨⟩

def Accounted (b : Book A) : Prop :=
  ∀ p j, b.processors.lookup (j, p) = some () → ∃ a, b.assignments.lookup (p, j) = some a

namespace Accounted

theorem congr (hb : Accounted b) (ha : b'.assignments = b.assignments)
    (hp : b'.processors = b.processors) : Accounted b' := by
  unfold Accounted
  rw [ha, hp]
  exact hb

theorem assign (hb : Accounted b) (p : A) (j : JobId A) (a : Assignment) :
    Accounted (b.assign p j a) := by
  intro p' j' hn
  simp only [Book.assign, lookup_insert_eq, Prod.mk.injEq] at hn ⊢
  by_cases hk : p' = p ∧ j' = j
  · rw [if_pos hk]
    exact ⟨a, rfl⟩
  · rw [if_neg fun hq => hk hq.symm] at hn
    rw [if_neg hk]
    exact hb p' j' hn

theorem unassign (hb : Accounted b) (p : A) (j : JobId A) : Accounted (b.unassign p j) := by
  intro p' j' hn
  simp only [Book.unassign, lookup_erase_eq, Prod.mk.injEq] at hn ⊢
  by_cases hk : p' = p ∧ j' = j
  · rw [if_pos hk.symm] at hn
    cases hn
  · rw [if_neg fun hq => hk hq.symm] at hn
    rw [if_neg hk]
    exact hb p' j' hn

theorem replace (hb : Accounted b) (p : A) (j : JobId A) (a : Assignment) :
    Accounted { b with assignments := b.assignments.insert (p, j) a } := by
  intro p' j' hn
  simp only [lookup_insert_eq]
  split_ifs with hk
  · exact ⟨a, rfl⟩
  · exact hb p' j' hn

end Accounted

theorem Assigns.accounted (h : Assigns T good j reg ex b n b') (hb : Accounted b) :
    Accounted b' := by
  induction h with
  | none => exact hb
  | more _ _ _ ih => exact ih.assign _ _ _

theorem MatchesAll.accounted (h : MatchesAll T good j reg b b') (hb : Accounted b) :
    Accounted b' := by
  cases h with
  | intro his hs ha => exact (ha.accounted hb).congr rfl rfl

theorem Acknowledges.processors (h : Acknowledges j b ex b') :
    b'.processors = b.processors := by
  cases h <;> rfl

theorem Deal.accounted (h : Deal T good b b') (hb : Accounted b) : Accounted b' := by
  cases h with
  | tick | revise | reopen | deregister => exact hb.congr rfl rfl
  | drop => exact hb.unassign _ _
  | rekey hf => exact hb.replace _ _ _
  | @register b₁ _ _ _ hg his hop ho hin =>
    have hre : Accounted b₁ := by
      rcases hin with rfl | hm
      · exact hb.congr rfl rfl
      · exact hm.accounted (hb.congr rfl rfl)
    exact hre.congr rfl rfl
  | matchAll hf hm => exact hm.accounted hb
  | matchExecution hf his hs hea hl ha =>
    exact (ha.accounted hb).congr rfl rfl
  | acknowledge hr hf hu ht st hrep hn pay hp =>
    obtain ⟨-, -, has, hpr, -⟩ := pay.fixed
    exact (hb.replace _ _ _).congr (has.trans st.fixed.2.1) (hpr.trans st.processors)
  | report reps hn pay =>
    obtain ⟨-, -, -, hpr, -⟩ := pay.fixed
    exact (hb.replace _ _ _).congr rfl hpr
  | reportLast reps hn pay =>
    obtain ⟨-, -, -, hpr, -⟩ := pay.fixed
    refine ((hb.replace _ _ _).unassign _ _).congr rfl ?_
    simp only [Book.unassign, hpr]
  | release fair hr pay hp =>
    obtain ⟨-, -, has, hpr, -⟩ := pay.fixed
    exact (hb.congr has hpr).unassign _ _

/-- In every reachable state the assignments and the index of the processors have the same entries, and
there are none for a job that is not registered, or no longer. -/
theorem assignments_match_index (T : Config A) (world : T.World) (ops : List (Op T)) :
    (∀ p j, (∃ a, (reached world ops).storedMatches.lookup (p, j) = some a) ↔
      (reached world ops).assignedProcessors.lookup (j, p) = some ()) ∧
    ∀ j, (reached world ops).storedJobRegistration.lookup j = none →
      ∀ p, (reached world ops).storedMatches.lookup (p, j) = none ∧
        (reached world ops).assignedProcessors.lookup (j, p) = none := by
  -- nobody has to be of good will for this
  let anyway : Book A → Deed A → Prop := fun _ _ => True
  have hg : Along step (Agreed anyway) (State.genesis T world) ops := by
    refine Along.of_forall (fun s op _ => ?_) ops
    exact offers_of_forall (fun _ _ => trivial) s op
  have hn : Indexed T (reached world ops).book :=
    run_deals (fun _ _ => Deal.indexed) hg (genesis_indexed world)
  have hc : Accounted (reached world ops).book :=
    run_deals (fun _ _ => Deal.accounted) hg (by rintro p j ⟨⟩)
  refine ⟨fun p j => ⟨?_, hc p j⟩, fun j ho p => ?_⟩
  · rintro ⟨a, ha⟩
    exact hn.processors p j a ha
  · have hf : (reached world ops).storedMatches.lookup (p, j) = none := by
      cases hfo : (reached world ops).storedMatches.lookup (p, j) with
      | none => rfl
      | some a =>
        obtain ⟨registration, hr⟩ := hn.registered p j a hfo
        exact absurd (ho.symm.trans hr) (by simp)
    refine ⟨hf, ?_⟩
    cases hp : (reached world ops).assignedProcessors.lookup (j, p) with
    | none => rfl
    | some u =>
      obtain ⟨a, ha⟩ := hc p j hp
      exact absurd (hf.symm.trans ha) (by simp)

/-- In every reachable state a registered job has a status and the requirements of an accepted registration,
and no processor is assigned to it while it is open. -/
theorem jobs_well_formed (T : Config A) (world : T.World) (ops : List (Op T)) :
    (∀ j registration,
      (reached world ops).storedJobRegistration.lookup j = some registration →
      Registrable T registration ∧
        ∃ status, (reached world ops).storedJobStatus.lookup j = some status) ∧
    ∀ p j, (reached world ops).storedJobStatus.lookup j = some .opened →
      (reached world ops).storedMatches.lookup (p, j) = none := by
  have hg : Along step (Agreed fun _ _ => True) (State.genesis T world) ops :=
    Along.of_forall (fun s op _ => offers_of_forall (fun _ _ => trivial) s op) ops
  have hi : Indexed T (reached world ops).book :=
    run_deals (fun _ _ => Deal.indexed) hg (genesis_indexed world)
  exact ⟨fun j r hr => ⟨hi.registrable j r hr, hi.status j r hr⟩, hi.opened⟩

end Acurast.Marketplace

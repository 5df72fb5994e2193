import Acurast.Marketplace.Strategy

/-! Which processor acknowledged and reported which execution of a job, and what the storage says about it:
an execution can be matched anew only after it has begun, so nobody acknowledges it twice. -/

namespace Acurast.Marketplace

open Base

variable {A : Type}

abbrev Turn (A : Type) := A × JobId A × ℕ

/-- The executions that reports were booked for, those of them that belong to competing jobs, and the
executions that were acknowledged one by one. -/
structure Turns (A : Type) where
  booked : List (Turn A)
  competing : List (Turn A)
  acknowledged : List (Turn A)

def registeredIds (history : List (Entry A)) : List (JobId A) :=
  history.filterMap fun
    | .registered j _ => some j
    | .paid _ _ => none

@[simp]
theorem registeredIds_registered (history : List (Entry A)) (j : JobId A) (r : JobRegistration A) :
    registeredIds (.registered j r :: history) = j :: registeredIds history := rfl

variable {T : Config A} [DecidableEq A] {g : Turns A} {b b' : Book A} {p : A} {j : JobId A}
  {registration reg : JobRegistration A}

theorem Payment.registeredIds {n : ℕ} (h : Payment b j n b') :
    registeredIds b'.history = registeredIds b.history := by
  cases h <;> rfl

structure Traced (g : Turns A) (b : Book A) : Prop where
  registered : ∀ j registration, b.registrations.lookup j = some registration →
    j ∈ registeredIds b.history
  known : ∀ p j i, (p, j, i) ∈ g.booked ∨ (p, j, i) ∈ g.acknowledged → j ∈ registeredIds b.history
  opened : ∀ p j i, b.status.lookup j = some .opened →
    ¬ ((p, j, i) ∈ g.booked ∨ (p, j, i) ∈ g.acknowledged)
  strategy : ∀ p j i registration, (p, j, i) ∈ g.acknowledged →
    b.registrations.lookup j = some registration → registration.extra.assignmentStrategy = .competing
  covered : ∀ p j i registration, (p, j, i) ∈ g.booked →
    b.registrations.lookup j = some registration →
    registration.extra.assignmentStrategy = .competing → (p, j, i) ∈ g.acknowledged
  started : ∀ p j i registration start, (p, j, i) ∈ g.acknowledged →
    b.registrations.lookup j = some registration → b.executionOpen j i →
    registration.schedule.nthStartTime 0 i = some start → start ≤ b.time
  freshAll : ∀ p j a i, b.assignments.lookup (p, j) = some a → a.acknowledged = false →
    a.execution = .all → (p, j, i) ∉ g.booked
  freshIndex : ∀ p j a i, b.assignments.lookup (p, j) = some a → a.acknowledged = false →
    a.execution = .index i → (p, j, i) ∉ g.acknowledged

namespace Traced

theorem keep (hb : Traced g b) (hh : registeredIds b'.history = registeredIds b.history)
    (hti : b.time ≤ b'.time)
    (hsta : ∀ j, b'.status.lookup j = some .opened → b.status.lookup j = some .opened)
    (hre : ∀ j reg', b'.registrations.lookup j = some reg' →
      ∃ reg, b.registrations.lookup j = some reg ∧
        reg'.extra = reg.extra ∧ reg'.schedule = reg.schedule ∧
        ∀ i, b'.executionOpen j i → b.executionOpen j i)
    (has : ∀ k a', b'.assignments.lookup k = some a' → a'.acknowledged = false →
      ∃ a, b.assignments.lookup k = some a ∧ a.acknowledged = false ∧ a'.execution = a.execution) :
    Traced g b' := by
  constructor
  · intro j reg' hr'
    obtain ⟨reg, hr, -⟩ := hre j reg' hr'
    rw [hh]
    exact hb.registered j reg hr
  · rw [hh]
    exact hb.known
  · exact fun p j i hop => hb.opened p j i (hsta j hop)
  · intro p j i reg' ht hr'
    obtain ⟨reg, hr, hx, -⟩ := hre j reg' hr'
    rw [hx]
    exact hb.strategy p j i reg ht hr
  · intro p j i reg' ht hr' ho
    obtain ⟨reg, hr, hx, -⟩ := hre j reg' hr'
    rw [hx] at ho
    exact hb.covered p j i reg ht hr ho
  · intro p j i reg' start ht hr' hp hs
    obtain ⟨reg, hr, -, hsc, hexe⟩ := hre j reg' hr'
    rw [hsc] at hs
    exact (hb.started p j i reg start ht hr (hexe i hp) hs).trans hti
  · intro p j a' i ha' hc hl
    obtain ⟨a, ha, hbe, hex⟩ := has (p, j) a' ha' hc
    exact hb.freshAll p j a i ha hbe (hex ▸ hl)
  · intro p j a' i ha' hc hn
    obtain ⟨a, ha, hbe, hex⟩ := has (p, j) a' ha' hc
    exact hb.freshIndex p j a i ha hbe (hex ▸ hn)

theorem same (hb : Traced g b) (hh : registeredIds b'.history = registeredIds b.history)
    (ht : b'.time = b.time) (hs : b'.status = b.status)
    (hre : b'.registrations = b.registrations)
    (hx : b'.executionStatus = b.executionStatus)
    (has : ∀ k a', b'.assignments.lookup k = some a' → a'.acknowledged = false →
      ∃ a, b.assignments.lookup k = some a ∧ a.acknowledged = false ∧ a'.execution = a.execution) :
    Traced g b' := by
  refine hb.keep hh ht.ge (fun j h => hs ▸ h) (fun j r hr => ?_) has
  rw [hre] at hr
  refine ⟨r, hr, rfl, rfl, fun i ho => ?_⟩
  unfold Book.executionOpen at ho ⊢
  rwa [hx] at ho

theorem unassign (hb : Traced g b) (p : A) (j : JobId A) : Traced g (b.unassign p j) := by
  refine hb.same rfl rfl rfl rfl rfl fun k a ha hc => ?_
  exact ⟨a, (of_lookup_erase ha).2, hc, rfl⟩

theorem replace {a a' : Assignment} (hb : Traced g b) (hf : b.assignments.lookup (p, j) = some a)
    (hc : a'.acknowledged = false → a.acknowledged = false)
    (hx : a'.execution = a.execution) :
    Traced g { b with assignments := b.assignments.insert (p, j) a' } := by
  refine hb.same rfl rfl rfl rfl rfl fun k a₁ ha hu => ?_
  rcases of_lookup_insert ha with ⟨hk, rfl⟩ | ⟨hk, ha⟩
  · rw [hk]
    exact ⟨a, hf, hc hu, hx⟩
  · exact ⟨a₁, ha, hu, rfl⟩

theorem register {status : StorageMap (JobId A) JobStatus} (hb : Traced g b)
    (hf : j ∉ registeredIds b.history) (hh : SameExcept (· = j) b.status status) :
    Traced g (b.register j reg status) := by
  -- nothing was booked or acknowledged for the job
  have hno : ∀ p i, ¬ ((p, j, i) ∈ g.booked ∨ (p, j, i) ∈ g.acknowledged) :=
    fun p i ht => hf (hb.known p j i ht)
  have ho : ∀ j' r, j' ≠ j → (b.registrations.insert j reg).lookup j' = some r →
      b.registrations.lookup j' = some r := by
    intro j' r hj hr
    rwa [lookup_insert_eq, if_neg hj] at hr
  have hn : ∀ p j' i, (p, j', i) ∈ g.booked ∨ (p, j', i) ∈ g.acknowledged → j' ≠ j := by
    rintro p j' i ht rfl
    exact hno p i ht
  constructor
  · intro j' r hr
    by_cases hj : j' = j
    · rw [hj]
      exact List.mem_cons_self
    · exact List.mem_cons_of_mem _ (hb.registered j' r (ho j' r hj hr))
  · exact fun p j' i ht => List.mem_cons_of_mem _ (hb.known p j' i ht)
  · intro p j' i hp ht
    have hs : status.lookup j' = some .opened := hp
    rw [hh j' (hn p j' i ht)] at hs
    exact hb.opened p j' i hs ht
  · exact fun p j' i r ht hr => hb.strategy p j' i r ht (ho j' r (hn p j' i (.inr ht)) hr)
  · exact fun p j' i r ht hr => hb.covered p j' i r ht (ho j' r (hn p j' i (.inl ht)) hr)
  · exact fun p j' i r start ht hr =>
      hb.started p j' i r start ht (ho j' r (hn p j' i (.inr ht)) hr)
  · exact hb.freshAll
  · exact hb.freshIndex

variable {good : Book A → Deed A → Prop} {st : JobStatus}

theorem assigned {ex : ExecutionSpecifier} {n : ℕ} (hb : Traced g b)
    (h : Assigns T good j reg ex b n b')
    (hl : ex = .all → ∀ p i, (p, j, i) ∉ g.booked)
    (hn : ∀ i, ex = .index i → ∀ p, (p, j, i) ∉ g.acknowledged) : Traced g b' := by
  obtain ⟨hre, hs, hexe, ht, -, -, hh⟩ := h.fixed
  constructor
  · rw [hre, hh]
    exact hb.registered
  · rw [hh]
    exact hb.known
  · rw [hs]
    exact hb.opened
  · rw [hre]
    exact hb.strategy
  · rw [hre]
    exact hb.covered
  · intro p j' i r start hu hr ho
    rw [hre] at hr
    rw [ht]
    refine hb.started p j' i r start hu hr ?_
    unfold Book.executionOpen at ho ⊢
    rwa [hexe] at ho
  · intro p j' a i ha hc hx
    rcases h.lookup_assignments ha with hbe | ⟨rfl, _, has⟩
    · exact hb.freshAll p j' a i hbe hc hx
    · exact hl (has.execution_eq.symm.trans hx) p i
  · intro p j' a i ha hc hx
    rcases h.lookup_assignments ha with hbe | ⟨rfl, _, has⟩
    · exact hb.freshIndex p j' a i hbe hc hx
    · exact hn i (has.execution_eq.symm.trans hx) p

theorem setStatus (hb : Traced g b) (j : JobId A) (hs : st ≠ .opened) :
    Traced g { b with status := b.status.insert j st } := by
  refine hb.keep rfl le_rfl (fun j' ho => ?_) (fun j' r hr => ⟨r, hr, rfl, rfl, fun _ => id⟩)
    (fun k a ha hc => ⟨a, ha, hc, rfl⟩)
  simp only [lookup_insert_eq] at ho
  split_ifs at ho with hj
  · exact absurd (Option.some.inj ho) hs
  · exact ho

theorem setExecutionStatus (hb : Traced g b) (j : JobId A) (i : ℕ) (hs : st ≠ .opened) :
    Traced g { b with executionStatus := b.executionStatus.insert (j, i) st } := by
  refine hb.keep rfl le_rfl (fun _ => id) (fun j' r hr => ⟨r, hr, rfl, rfl, fun i' ho => ?_⟩)
    (fun k a ha hc => ⟨a, ha, hc, rfl⟩)
  unfold Book.executionOpen at ho ⊢
  rw [getD_insert] at ho
  split_ifs at ho with hk
  · exact absurd ho hs
  · exact ho

theorem matchAll (hb : Traced g b) (h : MatchesAll T good j reg b b') : Traced g b' := by
  cases h with
  | intro his hs has =>
    have ha := hb.assigned has (fun _ p i ht => hb.opened p j i his (.inl ht))
      (fun i hn => by cases hn)
    exact ha.setStatus j (by simp)

theorem reopen {i start : ℕ} (hb : Traced g b) (hd : Indexed T b)
    (hde : T.matchingCompetingDueDelta ≤ 2 * T.matchingCompetingMinInterval)
    (hf : b.registrations.lookup j = some reg)
    (hs : reg.schedule.nthStartTime 0 (i + 2) = some start)
    (hu : start - T.matchingCompetingDueDelta ≤ b.time) :
    Traced g { b with executionStatus := b.executionStatus.erase (j, i) } := by
  refine ⟨hb.registered, hb.known, hb.opened, hb.strategy, hb.covered,
    fun p j' i' r start' ht hr ho hs' => ?_, hb.freshAll, hb.freshIndex⟩
  by_cases hk : (j', i') = (j, i)
  · obtain ⟨rfl, rfl⟩ := Prod.mk.inj hk
    obtain rfl := Option.mem_unique hf hr
    have hc := hb.strategy p j' i' reg ht hr
    obtain ⟨hcou, hl, -⟩ := Schedule.nthStartTime_eq_some.mp hs
    obtain ⟨-, ha, -⟩ := Schedule.nthStartTime_eq_some.mp hs'
    have hn : T.matchingCompetingMinInterval ≤ reg.schedule.interval := by
      rcases (hd.registrable j' reg hr).interval hc with hon | hn
      · omega
      · exact hn
    have hg : reg.schedule.interval * (i' + 2) =
        reg.schedule.interval * i' + 2 * reg.schedule.interval := by ring
    show start' ≤ b.time
    omega
  · refine hb.started p j' i' r start' ht hr ?_ hs'
    unfold Book.executionOpen StorageMap.getD at ho ⊢
    rwa [lookup_erase_eq, if_neg hk] at ho

end Traced

theorem Acknowledges.traced {ex : ExecutionSpecifier} (h : Acknowledges j b ex b')
    (hb : Traced g b) : Traced g b' := by
  cases h with
  | all hf ha => exact hb.setStatus j (acknowledgedStatus_ne_opened ha)
  | index ha =>
    have hs := acknowledgedStatus_ne_opened ha
    exact (hb.setExecutionStatus j _ hs).setStatus j hs

theorem Deal.traced (h : Deal T Fitting b b')
    (hde : T.matchingCompetingDueDelta ≤ 2 * T.matchingCompetingMinInterval) (hin : Indexed T b)
    (hon : (registeredIds b'.history).Nodup) (hb : Traced g b) : Traced g b' := by
  have hsa : ∀ k a', b.assignments.lookup k = some a' → a'.acknowledged = false →
      ∃ a, b.assignments.lookup k = some a ∧ a.acknowledged = false ∧ a'.execution = a.execution :=
    fun k a ha hac => ⟨a, ha, hac, rfl⟩
  cases h with
  | tick hl => exact hb.keep rfl hl (fun _ => id) (fun j r hr => ⟨r, hr, rfl, rfl, fun _ => id⟩) hsa
  | revise hf sched hext =>
    refine hb.keep rfl le_rfl (fun _ => id) (fun j' r hr => ?_) hsa
    simp only [lookup_insert_eq] at hr
    split_ifs at hr with hj
    · rw [hj, ← Option.some.inj hr]
      exact ⟨_, hf, hext, sched, fun _ => id⟩
    · exact ⟨r, hr, rfl, rfl, fun _ => id⟩
  | @register b₁ j reg hsta registrable his opened ho hins =>
    have hh : b₁.history = .registered j reg :: b.history := by
      rcases hins with rfl | ⟨-, -, hass⟩
      · rfl
      · exact hass.fixed.2.2.2.2.2.2
    have hfr : j ∉ registeredIds b.history := by
      have hid : (registeredIds b₁.history).Nodup := hon
      rw [hh, registeredIds_registered] at hid
      exact (List.nodup_cons.mp hid).1
    have hg : Traced g (b.register j reg hsta) := hb.register hfr ho
    rcases hins with rfl | hm
    · exact hg.same rfl rfl rfl rfl rfl fun k a ha hac => ⟨a, ha, hac, rfl⟩
    · exact (hg.matchAll hm).same rfl rfl rfl rfl rfl fun k a ha hac => ⟨a, ha, hac, rfl⟩
  | matchAll hf hm => exact hb.matchAll hm
  | @matchExecution _ j reg _ i start hf his hs hea hsl hass =>
    have hno : ∀ p, (p, j, i) ∉ g.acknowledged := by
      intro p htu
      exact absurd (hb.started p j i reg start htu hf his hs) (Nat.not_le.mpr hea)
    have hasg := hb.assigned hass (fun hal => by cases hal) (fun i' hidx p => by
      obtain rfl := ExecutionSpecifier.index.inj hidx
      exact hno p)
    exact (hasg.setStatus j (by simp)).setExecutionStatus j i (by simp)
  | reopen hf hc hs due => exact hb.reopen hin hde hf hs due
  | drop => exact hb.unassign _ _
  | rekey hf => exact hb.replace hf id rfl
  | acknowledge registered hf hu ht hsta hrep hn pay hp =>
    obtain ⟨hre, hst, has, -, hx, hti, -⟩ := pay.fixed
    have hac := hsta.traced (hb.replace hf (fun _ => hu) rfl)
    refine hac.same pay.registeredIds hti hst hre hx fun k a ha hun => ?_
    rw [has] at ha
    exact ⟨a, ha, hun, rfl⟩
  | @report b₁ p j a a' _ _ _ _ reps hn pay =>
    obtain ⟨hre, hst, -, -, hx, hti, -⟩ := pay.fixed
    have hco : Traced g { b with assignments := b.assignments.insert (p, j) a' } :=
      hb.replace reps.found (fun h => by rwa [reps.counted] at h) reps.execution_eq
    exact hco.same pay.registeredIds hti hst hre hx fun k a ha hac => ⟨a, ha, hac, rfl⟩
  | @reportLast b₁ p j a a' _ _ _ reps hn pay =>
    obtain ⟨hre, hst, -, -, hx, hti, -⟩ := pay.fixed
    have hco : Traced g { b with assignments := b.assignments.insert (p, j) a' } :=
      hb.replace reps.found (fun h => by rwa [reps.counted] at h) reps.execution_eq
    exact (hco.unassign p j).same pay.registeredIds hti hst hre hx
      fun k a ha hac => ⟨a, ha, hac, rfl⟩
  | @release b₁ p j _ _ fair registered pay hp =>
    obtain ⟨hre, hst, has, -, hx, hti, -⟩ := pay.fixed
    refine Traced.unassign (hb.same pay.registeredIds hti hst hre hx fun k a ha hac => ?_) p j
    rw [has] at ha
    exact ⟨a, ha, hac, rfl⟩
  | deregister hd hexe ho =>
    refine hb.keep rfl le_rfl (fun j' hop => ?_) (fun j' r hr => ?_) hsa
    · exact (of_lookup_erase hop).2
    · obtain ⟨hj, hr⟩ := of_lookup_erase hr
      refine ⟨r, hr, rfl, rfl, fun i hope => ?_⟩
      unfold Book.executionOpen StorageMap.getD at hope ⊢
      rwa [hexe (j', i) hj] at hope

end Acurast.Marketplace

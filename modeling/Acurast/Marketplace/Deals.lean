import Acurast.Marketplace.Pallet

/-! What a step of the marketplace does to the registrations, the assignments and the budgets, as a
sequence of deals. Every invariant is proved for one deal at a time. -/

namespace Acurast.Marketplace

open Base

structure Book (A : Type) where
  time : ℕ
  registrations : StorageMap (JobId A) (JobRegistration A)
  status : StorageMap (JobId A) JobStatus
  executionStatus : StorageMap (JobId A × ℕ) JobStatus
  assignments : StorageMap (A × JobId A) Assignment
  processors : StorageMap (JobId A × A) Unit
  reports : StorageMap (JobId A × A) ℕ
  budgets : StorageMap (JobId A) ℕ
  history : List (Entry A)

variable {A : Type} {T : Config A}

def State.book (s : State T) : Book A where
  time := s.time
  registrations := s.storedJobRegistration
  status := s.storedJobStatus
  executionStatus := s.storedJobExecutionStatus
  assignments := s.storedMatches
  processors := s.assignedProcessors
  reports := s.nextReportIndex
  budgets := s.jobBudgets
  history := s.history

structure Offer (A : Type) where
  source : A
  jobId : JobId A
  execution : ExecutionSpecifier
  startDelay : ℕ
  fee : ℕ

/-- What a deal depends on the good will of its parties for: a processor is hired, or is let go as its job
is deregistered. -/
inductive Deed (A : Type) where
  | hire (offer : Offer A)
  | release (processor : A) (jobId : JobId A)

def ExecutionSpecifier.covers : ExecutionSpecifier → ℕ → Bool
  | .all, _ => true
  | .index n, i => n = i

theorem updateAverageReward_book (h : updateAverageReward s fee = .ok s') : s'.book = s.book := by
  simp only [updateAverageReward, ok_iff] at h
  obtain ⟨_, -, _, -, _, -, rfl⟩ := h
  rfl

theorem length_of_lengthU8 {α : Type} {l : List α} (h : lengthU8 l = n) (hn : 0 < n) :
    l.length = n := by
  unfold lengthU8 at h
  split_ifs at h
  · exact h
  · omega

variable [DecidableEq A]

namespace Book

abbrev executionOpen (b : Book A) (j : JobId A) (i : ℕ) : Prop :=
  StorageMap.getD b.executionStatus (j, i) .opened = .opened

def budget (b : Book A) (j : JobId A) : ℕ := StorageMap.getD b.budgets j 0

def assign (b : Book A) (p : A) (j : JobId A) (a : Assignment) : Book A :=
  { b with
    assignments := b.assignments.insert (p, j) a
    processors := b.processors.insert (j, p) () }

def unassign (b : Book A) (p : A) (j : JobId A) : Book A :=
  { b with
    assignments := b.assignments.erase (p, j)
    processors := b.processors.erase (j, p) }

def register (b : Book A) (j : JobId A) (registration : JobRegistration A)
    (status : StorageMap (JobId A) JobStatus) : Book A :=
  { b with
    registrations := b.registrations.insert j registration
    status
    history := .registered j registration :: b.history }

def lock (b : Book A) (j : JobId A) (n : ℕ) : Book A :=
  { b with budgets := b.budgets.insert j (b.budget j + n) }

def pay (b : Book A) (j : JobId A) (n : ℕ) : Book A :=
  { b with
    budgets := b.budgets.insert j (b.budget j - n)
    history := .paid j n :: b.history }

def Fits (T : Config A) (b : Book A) (source : A) (execution : ExecutionSpecifier) (schedule : Schedule)
    (startDelay : ℕ) : Prop :=
  ∀ j a, b.assignments.lookup (source, j) = some a → ∀ other, b.registrations.lookup j = some other →
    a.isInvalid other.schedule b.time T.reportTolerance = false →
      fitsAssignment execution schedule startDelay other.schedule a = .ok ()

end Book

def expectedSla (registration : JobRegistration A) (execution : ExecutionSpecifier)
    (previous : Option Assignment) : Sla :=
  match execution with
  | .all => ⟨registration.schedule.executionCount, 0⟩
  | .index _ => nextSla previous

structure Assignable (T : Config A) (b : Book A) (j : JobId A) (registration : JobRegistration A)
    (execution : ExecutionSpecifier) (p : A) (a : Assignment) : Prop where
  execution_eq : a.execution = execution
  acknowledged : a.acknowledged = false
  fee : a.feePerExecution ≤ registration.extra.reward
  previous : ∀ previous, b.assignments.lookup (p, j) = some previous →
    execution ≠ .all ∧ previous.execution ≠ execution
  sla : a.sla = expectedSla registration execution (b.assignments.lookup (p, j))
  fits : b.Fits T p execution registration.schedule a.startDelay

/-- `n` sources are assigned to a job, one after the other, each by an offer that `good` accepts. -/
inductive Assigns (T : Config A) (good : Book A → Deed A → Prop) (j : JobId A)
    (registration : JobRegistration A) (execution : ExecutionSpecifier) (b : Book A) : ℕ → Book A → Prop
  | none : Assigns T good j registration execution b 0 b
  | more {n : ℕ} {b' : Book A} {p : A} {a : Assignment}
      (before : Assigns T good j registration execution b n b')
      (assignable : Assignable T b' j registration execution p a)
      (offer : good b' (.hire ⟨p, j, execution, a.startDelay, a.feePerExecution⟩)) :
      Assigns T good j registration execution b (n + 1) (b'.assign p j a)

structure Registrable (T : Config A) (registration : JobRegistration A) : Prop where
  proper : registration.schedule.Proper
  slots : 0 < registration.extra.slots
  interval : registration.extra.assignmentStrategy = .competing →
    registration.schedule.executionCount ≤ 1 ∨
      T.matchingCompetingMinInterval ≤ registration.schedule.interval

def JobRegistration.totalReward (registration : JobRegistration A) : ℕ :=
  registration.extra.reward * registration.extra.slots * registration.schedule.executionCount

inductive MatchesAll (T : Config A) (good : Book A → Deed A → Prop) (j : JobId A)
    (registration : JobRegistration A) (b : Book A) : Book A → Prop
  | intro {b' : Book A} {n : ℕ} (isOpen : b.status.lookup j = some .opened)
      (slots : 0 < registration.extra.slots → n = registration.extra.slots)
      (assigns : Assigns T good j registration .all b n b') :
      MatchesAll T good j registration b { b' with status := b'.status.insert j .matched }

def SameExcept {K V : Type} [DecidableEq K] (P : K → Prop) (m m' : StorageMap K V) : Prop :=
  ∀ k, ¬ P k → m'.lookup k = m.lookup k

inductive Acknowledges (j : JobId A) (b : Book A) : ExecutionSpecifier → Book A → Prop
  | all {status status' : JobStatus} (found : b.status.lookup j = some status)
      (acknowledged : acknowledgedStatus status = .ok status') :
      Acknowledges j b .all { b with status := b.status.insert j status' }
  | index {i : ℕ} {status' : JobStatus}
      (acknowledged : acknowledgedStatus (StorageMap.getD b.executionStatus (j, i) .opened) =
        .ok status') :
      Acknowledges j b (.index i) { b with
        executionStatus := b.executionStatus.insert (j, i) status'
        status := b.status.insert j status' }

inductive Payment (b : Book A) (j : JobId A) : ℕ → Book A → Prop
  | none : Payment b j 0 b
  | some {n : ℕ} (covered : n ≤ b.budget j) : Payment b j n (b.pay j n)

def Book.Drained (b : Book A) (j : JobId A) : Prop :=
  ∀ p, b.processors.lookup (j, p) = none

abbrev dueAt (registration : JobRegistration A) (now : ℕ) (a : Assignment) : Prop :=
  (a.execution = .all ∨
      a.execution = .index (registration.schedule.nextExecutionIndex a.startDelay now)) ∧
    a.acknowledged = true

structure Reports (b : Book A) (p : A) (j : JobId A) (registration : JobRegistration A)
    (a a' : Assignment) (expected reported : ℕ) : Prop where
  registered : b.registrations.lookup j = some registration
  found : b.assignments.lookup (p, j) = some a
  acknowledged : a.acknowledged = true
  few : a.sla.met < a.sla.total
  counted : a' = { a with sla := { a.sla with met := a.sla.met + 1 } }
  expected_eq : ∀ n, b.reports.lookup (j, p) = some n → expected = n
  expected_le : expected ≤ reported

inductive Deal (T : Config A) (good : Book A → Deed A → Prop) : Book A → Book A → Prop
  | tick {b : Book A} {time : ℕ} (later : b.time ≤ time) : Deal T good b { b with time }
  | revise {b : Book A} {j : JobId A} {registration registration' : JobRegistration A}
      (found : b.registrations.lookup j = some registration)
      (schedule : registration'.schedule = registration.schedule)
      (extra : registration'.extra = registration.extra) :
      Deal T good b { b with registrations := b.registrations.insert j registration' }
  | register {b b' : Book A} {j : JobId A} {registration : JobRegistration A}
      {status : StorageMap (JobId A) JobStatus} (registrable : Registrable T registration)
      (isOpen : ∀ st, b.status.lookup j = some st → st = .opened)
      (opened : status.lookup j = some .opened) (others : SameExcept (· = j) b.status status)
      (instant : b' = b.register j registration status ∨
        MatchesAll T good j registration (b.register j registration status) b') :
      Deal T good b (b'.lock j registration.totalReward)
  | matchAll {b b' : Book A} {j : JobId A} {registration : JobRegistration A}
      (found : b.registrations.lookup j = some registration)
      (matched : MatchesAll T good j registration b b') : Deal T good b b'
  | matchExecution {b b' : Book A} {j : JobId A} {registration : JobRegistration A} {n i start : ℕ}
      (found : b.registrations.lookup j = some registration) (isOpen : b.executionOpen j i)
      (start_eq : registration.schedule.nthStartTime 0 i = some start) (early : b.time < start)
      (slots : 0 < registration.extra.slots → n = registration.extra.slots)
      (assigns : Assigns T good j registration (.index i) b n b') :
      Deal T good b { b' with
        status := b'.status.insert j .matched
        executionStatus := b'.executionStatus.insert (j, i) .matched }
  | reopen {b : Book A} {j : JobId A} {registration : JobRegistration A} {i start : ℕ}
      (found : b.registrations.lookup j = some registration)
      (cleared : ∀ p a, b.assignments.lookup (p, j) = some a → a.execution = .index i →
        b.processors.lookup (j, p) = none)
      (start_eq : registration.schedule.nthStartTime 0 (i + 2) = some start)
      (due : start - T.matchingCompetingDueDelta ≤ b.time) :
      Deal T good b { b with executionStatus := b.executionStatus.erase (j, i) }
  | drop {b : Book A} {p : A} {j : JobId A} : Deal T good b (b.unassign p j)
  | rekey {b : Book A} {p : A} {j : JobId A} {a : Assignment} {pubKeys : List PubKey}
      (found : b.assignments.lookup (p, j) = some a) :
      Deal T good b { b with assignments := b.assignments.insert (p, j) { a with pubKeys } }
  | acknowledge {b b₁ b₂ : Book A} {p : A} {j : JobId A} {a : Assignment} {pubKeys : List PubKey}
      {registration : JobRegistration A} {reports : StorageMap (JobId A × A) ℕ} {next paid : ℕ}
      (registered : b.registrations.lookup j = some registration)
      (found : b.assignments.lookup (p, j) = some a) (unacknowledged : a.acknowledged = false)
      (timely : a.isInvalid registration.schedule b.time T.reportTolerance = false)
      (status : Acknowledges j
        { b with assignments := b.assignments.insert (p, j) { a with acknowledged := true, pubKeys } }
        a.execution b₁)
      (reports_eq : ∀ k, reports.lookup k = if k = (j, p) then some next else b.reports.lookup k)
      (next_eq : a.execution = .all → next = 0)
      (payment : Payment { b₁ with reports } j paid b₂)
      (paid_eq : paid = 0 ∨
        paid = T.matcherPercentage.mulFloor (matcherRemaining registration a a.execution)) :
      Deal T good b b₂
  | report {b b₁ : Book A} {p : A} {j : JobId A} {a a' : Assignment}
      {registration : JobRegistration A} {expected reported next : ℕ}
      (reports : Reports b p j registration a a' expected reported)
      (next_eq : nextExpectedReport a' reported = some next)
      (payment : Payment b j a.feePerExecution b₁) :
      Deal T good b { b₁ with
        assignments := b.assignments.insert (p, j) a'
        reports := b.reports.insert (j, p) next }
  | reportLast {b b₁ : Book A} {p : A} {j : JobId A} {a a' : Assignment}
      {registration : JobRegistration A} {expected reported : ℕ}
      (reports : Reports b p j registration a a' expected reported)
      (next_eq : nextExpectedReport a' reported = none)
      (payment : Payment b j a.feePerExecution b₁) :
      Deal T good b (Book.unassign { b₁ with
        assignments := b.assignments.insert (p, j) a'
        reports := b.reports.erase (j, p) } p j)
  | release {b b' : Book A} {p : A} {j : JobId A} {registration : JobRegistration A} {paid : ℕ}
      (fair : good b (.release p j))
      (registered : b.registrations.lookup j = some registration)
      (payment : Payment b j paid b')
      (paid_eq : paid = 0 ∨ ∃ a, b.assignments.lookup (p, j) = some a ∧
        dueAt registration b.time a ∧ paid = a.feePerExecution) :
      Deal T good b (b'.unassign p j)
  | deregister {b : Book A} {j : JobId A} {executionStatus : StorageMap (JobId A × ℕ) JobStatus}
      {reports : StorageMap (JobId A × A) ℕ}
      (drained : b.status.lookup j = some .opened ∨ b.Drained j)
      (executions : SameExcept (·.1 = j) b.executionStatus executionStatus)
      (others : SameExcept (·.1 = j) b.reports reports) :
      Deal T good b { b with
        registrations := b.registrations.erase j
        status := b.status.erase j
        executionStatus
        reports
        budgets := b.budgets.insert j 0 }

def Deals (T : Config A) (good : Book A → Deed A → Prop) : Book A → Book A → Prop :=
  Relation.ReflTransGen (Deal T good)

variable {good : Book A → Deed A → Prop} {b b' b₁ b₂ b₃ : Book A} {s s' s₁ s₂ : State T} {p : A}
  {j : JobId A} {registration reg : JobRegistration A}

theorem Deals.refl (b : Book A) : Deals T good b b := Relation.ReflTransGen.refl

theorem Deals.trans (h : Deals T good b₁ b₂) (h' : Deals T good b₂ b₃) : Deals T good b₁ b₃ :=
  Relation.ReflTransGen.trans h h'

theorem Deal.deals (h : Deal T good b b') : Deals T good b b' := Relation.ReflTransGen.single h

theorem Deals.of_eq (h : b' = b) : Deals T good b b' := by
  rw [h]
  exact Deals.refl b

theorem Deals.invariant {inv : Book A → Prop} (hd : ∀ b b', Deal T good b b' → inv b → inv b')
    (h : Deals T good b b') (hb : inv b) : inv b' := by
  induction h with
  | refl => exact hb
  | tail _ hl ih => exact hd _ _ hl ih

omit [DecidableEq A] in
theorem now_eq_ok {now : ℕ} (h : s.now = .ok now) : now = s.time := by
  simp only [State.now, ok_iff] at h
  obtain ⟨⟨⟩, -, rfl⟩ := h
  rfl

variable {execution ex : ExecutionSpecifier} {fee i n : ℕ} {entry : PlannedExecution A × ℕ}
  {matcher : Option A} {m : Match A}

theorem fitsSchedule_fits {sched : Schedule} {startDelay : ℕ}
    (h : fitsSchedule s p ex sched startDelay = .ok ()) :
    s.book.Fits T p ex sched startDelay := by
  simp only [fitsSchedule, bind_eq_ok] at h
  obtain ⟨now, hn, h⟩ := h
  obtain rfl := now_eq_ok hn
  have hl := forM_eq_ok.mp h
  intro j a ha other ho hv
  have hm : (j, a) ∈ iterPrefix s.storedMatches p := mem_iterPrefix.mpr ha
  have hc := hl (j, a) hm
  have hf : s.storedJobRegistration.lookup j = some other := ho
  have hfa : a.isInvalid other.schedule s.time T.reportTolerance = false := hv
  rw [hf] at hc
  simpa only [whenSome, hfa, Bool.false_eq_true, if_false] using hc

theorem checkSource_ok {verified : A → Bool} {planned : PlannedExecution A}
    (h : checkSource s verified j reg ex planned = .ok fee) :
    fee = priceFor s planned.source reg.schedule ∧ fee ≤ reg.extra.reward ∧
      s.book.Fits T planned.source ex reg.schedule planned.startDelay := by
  simp only [checkSource, ok_iff] at h
  obtain ⟨⟨⟩, -, _, -, ⟨⟩, -, ⟨⟩, -, ⟨⟩, -, ⟨⟩, -, ⟨⟩, -, ⟨⟩, -, ⟨⟩, -, ⟨⟩, hf, ⟨⟩, hfe, rfl⟩ := h
  exact ⟨rfl, hfe, fitsSchedule_fits hf⟩

theorem assignSource_book {totals totals' : ℕ × ℕ}
    (h : assignSource j reg matcher (s, totals) entry = .ok (s', totals')) :
    ∃ a, s'.book = s.book.assign entry.1.source j a ∧
      Assignable T s.book j reg .all entry.1.source a ∧
      a.startDelay = entry.1.startDelay ∧
      a.feePerExecution = priceFor s entry.1.source reg.schedule := by
  obtain ⟨planned, slot⟩ := entry
  simp only [assignSource, ok_iff, Prod.mk.injEq] at h
  obtain ⟨fee, hc, _, -, _, -, _, -, ⟨⟩, hfr, hs, -⟩ := h
  obtain ⟨hr, hf, hfi⟩ := checkSource_ok hc
  have hf' : s.book.assignments.lookup (planned.source, j) = none := hfr
  refine ⟨⟨slot % 2 ^ 8, planned.startDelay, fee, false, ⟨_, 0⟩, [], .all⟩, ?_,
    ⟨rfl, rfl, hf, fun _ hp => ?_, rfl, hfi⟩, rfl, hr⟩
  · rw [← hs]
    cases matcher with
    | none => rfl
    | some acc => rfl
  · rw [hf'] at hp
    cases hp

theorem assignExecutionSource_book {total total' : ℕ}
    (h : assignExecutionSource j reg i (s, total) entry = .ok (s', total')) :
    ∃ a, s'.book = s.book.assign entry.1.source j a ∧
      Assignable T s.book j reg (.index i) entry.1.source a ∧
      a.startDelay = entry.1.startDelay ∧
      a.feePerExecution = priceFor s entry.1.source reg.schedule := by
  obtain ⟨planned, slot⟩ := entry
  simp only [assignExecutionSource, ok_iff, Prod.mk.injEq] at h
  obtain ⟨fee, hc, _, -, ⟨⟩, ho, hs, -⟩ := h
  obtain ⟨hp, hf, hfi⟩ := checkSource_ok hc
  refine ⟨_, congrArg State.book hs.symm, ⟨rfl, rfl, hf, ?_, rfl, hfi⟩, rfl, hp⟩
  intro previous hr
  have hfo : s.storedMatches.lookup (planned.source, j) = some previous := hr
  rw [hfo] at ho
  exact ⟨by simp, by simpa using ho⟩

theorem Assigns.fixed (h : Assigns T good j reg ex b n b') :
    b'.registrations = b.registrations ∧ b'.status = b.status ∧
      b'.executionStatus = b.executionStatus ∧ b'.time = b.time ∧ b'.reports = b.reports ∧
      b'.budgets = b.budgets ∧ b'.history = b.history := by
  induction h with
  | none => exact ⟨rfl, rfl, rfl, rfl, rfl, rfl, rfl⟩
  | more _ _ _ ih => exact ih

def offerAt (s : State T) (j : JobId A) (registration : JobRegistration A)
    (execution : ExecutionSpecifier) (planned : PlannedExecution A) : Offer A :=
  ⟨planned.source, j, execution, planned.startDelay, priceFor s planned.source registration.schedule⟩

theorem foldlM_assigns {X : Type} {f : State T × X → PlannedExecution A × ℕ → Result (State T × X)}
    (hf : ∀ s x entry s' x', f (s, x) entry = .ok (s', x') →
      ∃ a, s'.book = s.book.assign entry.1.source j a ∧
        Assignable T s.book j reg ex entry.1.source a ∧
        a.startDelay = entry.1.startDelay ∧
        a.feePerExecution = priceFor s entry.1.source reg.schedule)
    {l : List (PlannedExecution A × ℕ)} : ∀ {s s' : State T} {x x' : X} {n : ℕ},
      l.foldlM f (s, x) = .ok (s', x') →
      AlongM f (fun acc entry => good acc.1.book
        (.hire (offerAt acc.1 j reg ex entry.1)))
        (s, x) l →
      Assigns T good j reg ex b n s.book →
      Assigns T good j reg ex b (n + l.length) s'.book := by
  induction l with
  | nil =>
    intro s s' x x' n h _ hb
    obtain ⟨rfl, rfl⟩ := Prod.mk.inj (pure_eq_ok.mp h)
    exact hb
  | cons entry l ih =>
    intro s s' x x' n h hg hb
    rw [List.foldlM_cons, bind_eq_ok] at h
    obtain ⟨⟨s₁, x₁⟩, hfi, hr⟩ := h
    obtain ⟨ho, hg⟩ := alongM_cons hg hfi
    obtain ⟨a, hbo, has, hd, hfe⟩ := hf s x entry s₁ x₁ hfi
    have hm : Assigns T good j reg ex b (n + 1) s₁.book := by
      rw [hbo]
      refine .more hb has ?_
      rw [hd, hfe]
      exact ho
    have ha := ih hr hg hm
    rwa [List.length_cons, Nat.add_comm l.length, ← Nat.add_assoc]

def MatchOffers (good : Book A → Deed A → Prop) (matcher : Option A) (s : State T) (m : Match A) :
    Prop :=
  s.storedJobStatus.lookup m.jobId = some .opened →
    ∀ registration ∈ s.storedJobRegistration.lookup m.jobId,
    AlongM (assignSource m.jobId registration matcher)
      (fun acc entry => good acc.1.book (.hire (offerAt acc.1 m.jobId registration .all entry.1)))
      (s, 0, 0) m.sources.zipIdx

def ExecutionOffers (good : Book A → Deed A → Prop) (s : State T) (m : ExecutionMatch A) : Prop :=
  s.executionStatus m.jobId m.executionIndex = .opened →
    ∀ registration ∈ s.storedJobRegistration.lookup m.jobId,
    AlongM (assignExecutionSource m.jobId registration m.executionIndex)
      (fun acc entry => good acc.1.book
        (.hire (offerAt acc.1 m.jobId registration (.index m.executionIndex) entry.1)))
      (cleanupPreviousExecutionMatches s m.jobId m.executionIndex, 0) m.sources.zipIdx

instance [∀ b o, Decidable (good b o)] (matcher : Option A) (s : State T) (m : Match A) :
    Decidable (MatchOffers good matcher s m) := inferInstanceAs (Decidable (_ = _ → ∀ _ ∈ _, _))

instance [∀ b o, Decidable (good b o)] (s : State T) (m : ExecutionMatch A) :
    Decidable (ExecutionOffers good s m) := inferInstanceAs (Decidable (_ = _ → ∀ _ ∈ _, _))

theorem matchJob_matches (h : matchJob matcher s m = .ok s') (hg : MatchOffers good matcher s m) :
    s'.book = s.book ∨ ∃ reg, s.book.registrations.lookup m.jobId = some reg ∧
      MatchesAll T good m.jobId reg s.book s'.book := by
  simp only [matchJob, ok_iff] at h
  obtain ⟨st, hs, h⟩ := h
  split_ifs at h with hp
  · cases h
    exact .inl rfl
  · simp only [ok_iff, Prod.exists] at h
    obtain ⟨reg, hr, now, -, ⟨⟩, -, ⟨⟩, hl, s₁, fee, total, ha, h⟩ := h
    obtain ⟨s₂, hb, rfl⟩ : ∃ s₂ : State T, s₂.book = s₁.book ∧
        s' = { s₂ with storedJobStatus := s₂.storedJobStatus.insert m.jobId .matched } := by
      split_ifs at h
      · simp only [ok_iff] at h
        obtain ⟨s₂, hv, rfl⟩ := h
        exact ⟨s₂, updateAverageReward_book hv, rfl⟩
      · exact ⟨s₁, rfl, (pure_eq_ok.mp h).symm⟩
    have ho : s.storedJobStatus.lookup m.jobId = some .opened := by
      rw [← Decidable.not_not.mp hp]
      exact hs
    have has := foldlM_assigns
      (fun s x entry s' x' hx => assignSource_book hx) ha (hg ho reg hr)
      (.none (b := s.book))
    rw [Nat.zero_add, List.length_zipIdx, ← hb] at has
    exact .inr ⟨reg, hr, .intro ho (length_of_lengthU8 hl) has⟩

theorem matchJob_deals (h : matchJob matcher s m = .ok s') (hg : MatchOffers good matcher s m) :
    Deals T good s.book s'.book := by
  rcases matchJob_matches h hg with hb | ⟨reg, hf, hm⟩
  · exact .of_eq hb
  · exact Deal.deals (.matchAll hf hm)

theorem processMatching_deals {ms : List (Match A)}
    (h : processMatching s ms matcher = .ok s')
    (hg : AlongM (matchJob matcher) (MatchOffers good matcher) s ms) :
    Deals T good s.book s'.book :=
  foldlM_relates (R := fun s s' : State T => Deals T good s.book s'.book)
    (fun _ => .refl _) Deals.trans (fun _ _ _ => matchJob_deals) h hg

section Cleanup

variable {n : ℕ} {e : StorageMap (JobId A × ℕ) JobStatus}

theorem cleanupProcessor_deals (s : State T) (p : A) :
    Deals T good { s.book with executionStatus := e }
      { (cleanupProcessor j n s p).book with executionStatus := e } := by
  unfold cleanupProcessor
  split
  · split
    · split_ifs
      · exact Deal.deals .drop
      · exact .refl _
    · exact .refl _
  · next hn =>
    have hs : s.storedMatches.erase (p, j) = s.storedMatches :=
      erase_of_lookup_eq_none hn
    have hd : Deal T good { s.book with executionStatus := e }
        (Book.unassign { s.book with executionStatus := e } p j) := .drop
    have hq : Book.unassign { s.book with executionStatus := e } p j =
        { State.book { s with assignedProcessors := s.assignedProcessors.erase (j, p) } with
          executionStatus := e } := by
      simp only [Book.unassign, State.book, hs]
    exact Deal.deals (hq ▸ hd)

theorem cleanupProcessor_fixed (s : State T) (p : A) :
    (cleanupProcessor j n s p).storedJobExecutionStatus = s.storedJobExecutionStatus ∧
      (cleanupProcessor j n s p).storedJobRegistration = s.storedJobRegistration ∧
      (cleanupProcessor j n s p).time = s.time := by
  unfold cleanupProcessor
  split
  · split
    · split_ifs <;> exact ⟨rfl, rfl, rfl⟩
    · exact ⟨rfl, rfl, rfl⟩
  · exact ⟨rfl, rfl, rfl⟩

variable {a : Assignment} {p' : A} {l : List A}

theorem cleanupProcessor_lookup
    (h : (cleanupProcessor j n s p).storedMatches.lookup (p', j) = some a) :
    s.storedMatches.lookup (p', j) = some a ∧ (p' = p → a.execution ≠ .index n) := by
  unfold cleanupProcessor at h
  split at h
  · next a₀ hf =>
    split at h
    · next i hn =>
      split_ifs at h with hle
      · have hl := h
        simp only [State.unassign, lookup_erase_eq, Prod.mk.injEq, and_true] at hl
        split_ifs at hl with hp
        exact ⟨hl, fun hq => absurd hq hp⟩
      · refine ⟨h, ?_⟩
        rintro rfl hq
        obtain rfl := Option.mem_unique hf h
        rw [hn] at hq
        exact hle (ExecutionSpecifier.index.inj hq).le
    · next ha =>
      refine ⟨h, ?_⟩
      rintro rfl hq
      obtain rfl := Option.mem_unique hf h
      rw [ha] at hq
      cases hq
  · next ho =>
    refine ⟨h, ?_⟩
    rintro rfl
    rw [ho] at h
    cases h

theorem cleanupProcessor_processors (h : s.assignedProcessors.lookup (j, p') = none) :
    (cleanupProcessor j n s p).assignedProcessors.lookup (j, p') = none := by
  have her : (s.assignedProcessors.erase (j, p)).lookup (j, p') = none := by
    rw [lookup_erase_eq, h, ite_self]
  unfold cleanupProcessor
  split
  · split
    · split_ifs
      · exact her
      · exact h
    · exact h
  · exact her

theorem cleanupProcessors_deals (l : List A) (s : State T) :
    Deals T good { s.book with executionStatus := e }
      { (l.foldl (cleanupProcessor j n) s).book with executionStatus := e } := by
  induction l generalizing s with
  | nil => exact .refl _
  | cons p l ih => exact (cleanupProcessor_deals s p).trans (ih (cleanupProcessor j n s p))

theorem cleanupProcessors_fixed (l : List A) (s : State T) :
    (l.foldl (cleanupProcessor j n) s).storedJobExecutionStatus = s.storedJobExecutionStatus ∧
      (l.foldl (cleanupProcessor j n) s).storedJobRegistration = s.storedJobRegistration ∧
      (l.foldl (cleanupProcessor j n) s).time = s.time := by
  induction l generalizing s with
  | nil => exact ⟨rfl, rfl, rfl⟩
  | cons p l ih =>
    obtain ⟨hs, hr, ht⟩ := ih (cleanupProcessor j n s p)
    obtain ⟨hs', hr', ht'⟩ := cleanupProcessor_fixed (j := j) (n := n) s p
    exact ⟨hs.trans hs', hr.trans hr', ht.trans ht'⟩

theorem cleanupProcessors_cleared
    (h : (l.foldl (cleanupProcessor j n) s).storedMatches.lookup (p, j) = some a) :
    s.storedMatches.lookup (p, j) = some a ∧ (p ∈ l → a.execution ≠ .index n) := by
  induction l generalizing s with
  | nil => exact ⟨h, fun hp => by cases hp⟩
  | cons p' l ih =>
    obtain ⟨hf, hn⟩ := ih h
    obtain ⟨hf', hn'⟩ := cleanupProcessor_lookup hf
    exact ⟨hf', fun hp => (List.mem_cons.mp hp).elim hn' hn⟩

theorem cleanupProcessors_processors (h : s.assignedProcessors.lookup (j, p) = none) :
    (l.foldl (cleanupProcessor j n) s).assignedProcessors.lookup (j, p) = none := by
  induction l generalizing s with
  | nil => exact h
  | cons p' l ih => exact ih (cleanupProcessor_processors h)

end Cleanup

theorem cleanupPrevious_deals {start : ℕ}
    (hr : s.storedJobRegistration.lookup j = some reg)
    (hs : reg.schedule.nthStartTime 0 i = some start)
    (hd : start - T.matchingCompetingDueDelta ≤ s.time) :
    Deals T good s.book (cleanupPreviousExecutionMatches s j i).book := by
  unfold cleanupPreviousExecutionMatches
  split_ifs with hi
  · exact .refl _
  · obtain ⟨n, rfl⟩ : ∃ n, i = n + 2 := ⟨i - 2, by omega⟩
    rw [Nat.add_sub_cancel]
    dsimp only
    generalize hs₁ : ({ s with
      storedJobExecutionStatus := s.storedJobExecutionStatus.erase (j, n) } : State T) = s₁
    have hp : s.assignedProcessors = s₁.assignedProcessors := by rw [← hs₁]
    generalize hl : (iterPrefix s.assignedProcessors j).map (·.1) = l
    obtain ⟨ht, hre, hti⟩ := cleanupProcessors_fixed (j := j) (n := n) l s₁
    have hdr : Deals T good s.book { (l.foldl (cleanupProcessor j n) s₁).book with
        executionStatus := s.storedJobExecutionStatus } := by
      have hb : { s₁.book with executionStatus := s.storedJobExecutionStatus } = s.book := by
        rw [← hs₁]
        rfl
      rw [← hb]
      exact cleanupProcessors_deals l s₁
    refine hdr.trans (Deal.deals ?_)
    have ho : Deal T good
        { (l.foldl (cleanupProcessor j n) s₁).book with executionStatus := s.storedJobExecutionStatus }
        { (l.foldl (cleanupProcessor j n) s₁).book with
          executionStatus := s.storedJobExecutionStatus.erase (j, n) } := by
      have hf : (l.foldl (cleanupProcessor j n) s₁).storedJobRegistration.lookup j =
          some reg := by
        rw [hre, ← hs₁]
        exact hr
      refine .reopen hf ?_ hs ?_
      · intro p a ha hn
        refine cleanupProcessors_processors ?_
        cases hlo : s₁.assignedProcessors.lookup (j, p) with
        | none => rfl
        | some u =>
          have hm : p ∈ l := by
            rw [← hl, List.mem_map]
            exact ⟨(p, u), mem_iterPrefix.mpr (hp ▸ hlo), rfl⟩
          exact absurd hn ((cleanupProcessors_cleared ha).2 hm)
      · show _ ≤ (l.foldl (cleanupProcessor j n) s₁).time
        rw [hti, ← hs₁]
        exact hd
    have haf : { (l.foldl (cleanupProcessor j n) s₁).book with
        executionStatus := s.storedJobExecutionStatus.erase (j, n) } =
        (l.foldl (cleanupProcessor j n) s₁).book := by
      have hsa : (l.foldl (cleanupProcessor j n) s₁).storedJobExecutionStatus =
          s.storedJobExecutionStatus.erase (j, n) := by
        rw [ht, ← hs₁]
      simp only [State.book, hsa]
    rwa [haf] at ho

theorem cleanupPrevious_fixed (s : State T) (j : JobId A) (i : ℕ) :
    (cleanupPreviousExecutionMatches s j i).executionStatus j i = s.executionStatus j i ∧
      (cleanupPreviousExecutionMatches s j i).storedJobRegistration = s.storedJobRegistration ∧
      (cleanupPreviousExecutionMatches s j i).time = s.time := by
  unfold cleanupPreviousExecutionMatches
  split_ifs with hi
  · exact ⟨rfl, rfl, rfl⟩
  · obtain ⟨hs, hr, ht⟩ := cleanupProcessors_fixed (j := j) (n := i - 2)
      ((iterPrefix s.assignedProcessors j).map (·.1))
      { s with storedJobExecutionStatus := s.storedJobExecutionStatus.erase (j, i - 2) }
    refine ⟨?_, hr, ht⟩
    have hn : (j, i) ≠ (j, i - 2) := by
      simp only [ne_eq, Prod.mk.injEq, true_and]
      omega
    unfold State.executionStatus StorageMap.getD
    rw [hs, lookup_erase_eq, if_neg hn]

theorem matchExecution_deals {m : ExecutionMatch A} (h : matchExecution matcher s m = .ok s')
    (hgo : ExecutionOffers good s m) : Deals T good s.book s'.book := by
  unfold matchExecution at h
  split_ifs at h with hp
  · exact .of_eq (congrArg State.book (pure_eq_ok.mp h).symm)
  · simp only [ok_iff, Prod.exists] at h
    obtain ⟨reg, hr, now, hn, start, hs, ⟨⟩, ha, ⟨⟩, hd, ⟨⟩, hl, s₁, total, hass, h⟩ := h
    obtain rfl := now_eq_ok hn
    obtain ⟨s₂, hb, hs'⟩ : ∃ s₂ : State T, s₂.book = s₁.book ∧ s'.book = { s₂.book with
        status := s₂.storedJobStatus.insert m.jobId .matched
        executionStatus := (s₂.storedJobExecutionStatus.insert (m.jobId, m.executionIndex)
          .matched) } := by
      split_ifs at h
      · simp only [ok_iff] at h
        obtain ⟨average, -, s₂, hv, rfl⟩ := h
        refine ⟨s₂, updateAverageReward_book hv, ?_⟩
        cases matcher <;> rfl
      · cases h
        refine ⟨s₁, rfl, ?_⟩
        cases matcher <;> rfl
    obtain ⟨ht, hg, hti⟩ := cleanupPrevious_fixed s m.jobId m.executionIndex
    have ho := Decidable.not_not.mp hp
    have hc : Deals T good s.book (cleanupPreviousExecutionMatches s m.jobId m.executionIndex).book :=
      cleanupPrevious_deals hr hs hd
    have hf := hgo ho reg hr
    generalize cleanupPreviousExecutionMatches s m.jobId m.executionIndex = s₀ at *
    refine hc.trans ?_
    have has := foldlM_assigns
      (fun s x entry s' x' hx => assignExecutionSource_book hx) hass hf
      (.none (b := s₀.book))
    rw [Nat.zero_add, List.length_zipIdx, ← hb] at has
    rw [← hg] at hr
    rw [← hti] at ha
    rw [hs']
    exact Deal.deals (.matchExecution hr (ht.trans ho) hs ha (length_of_lengthU8 hl) has)

theorem processExecutionMatching_deals {ms : List (ExecutionMatch A)}
    (h : processExecutionMatching s ms matcher = .ok s')
    (hg : AlongM (matchExecution matcher) (ExecutionOffers good) s ms) :
    Deals T good s.book s'.book :=
  foldlM_relates (R := fun s s' : State T => Deals T good s.book s'.book)
    (fun _ => .refl _) Deals.trans (fun _ _ _ => matchExecution_deals) h hg

end Acurast.Marketplace

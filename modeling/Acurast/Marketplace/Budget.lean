import Acurast.Marketplace.Ledger

/-! The budget of every job covers what is paid from it, as long as matches follow the strategies, fees
do not rise while reports are to be made, and nobody is paid once more as a job is deregistered. -/

namespace Acurast.Marketplace

open Base

theorem owed_report (ha : a.acknowledged = true) (hf : a.sla.met < a.sla.total) :
    owed T reg { a with sla := { a.sla with met := a.sla.met + 1 } } + a.feePerExecution =
      owed T reg a := by
  unfold owed
  rw [if_pos ha, if_pos ha, Nat.add_zero, Nat.add_zero]
  have hc : a.sla.total - a.sla.met = (a.sla.total - (a.sla.met + 1)) + 1 := by omega
  show (a.sla.total - (a.sla.met + 1)) * a.feePerExecution + a.feePerExecution =
    (a.sla.total - a.sla.met) * a.feePerExecution
  rw [hc, Nat.add_mul, Nat.one_mul]

theorem fee_le_owed (hf : a.sla.met < a.sla.total) : a.feePerExecution ≤ owed T reg a := by
  have hp : 1 ≤ a.sla.total - a.sla.met := by omega
  have hm := Nat.mul_le_mul_right a.feePerExecution hp
  unfold owed
  omega

theorem totalReward_eq (reg : JobRegistration A) :
    reg.totalReward = reg.extra.slots *
      (reg.extra.reward * reg.schedule.executionCount) := by
  unfold JobRegistration.totalReward
  ring

variable {A : Type} {T : Config A} [DecidableEq A] {good good' : Book A → Deed A → Prop}
  {b b' b₁ b₂ : Book A} {p : A} {j j' : JobId A} {reg : JobRegistration A} {a a' : Assignment}

def Affordable (b : Book A) : Deed A → Prop
  | .hire offer => Fitting b (.hire offer) ∧
    ∀ previous ∈ b.assignments.lookup (offer.source, offer.jobId),
      previous.sla.met < previous.sla.total → offer.fee ≤ previous.feePerExecution
  | .release p j => ∀ registration ∈ b.registrations.lookup j, ∀ a ∈ b.assignments.lookup (p, j),
    a.execution ≠ .all → dueAt registration b.time a → a.sla.met < a.sla.total

instance (b : Book A) : (deed : Deed A) → Decidable (Affordable b deed)
  | .hire _ => inferInstanceAs (Decidable (_ ∧ ∀ _ ∈ _, _ → _))
  | .release _ _ => inferInstanceAs (Decidable (∀ _ ∈ _, ∀ _ ∈ _, _ → _ → _))

theorem Affordable.fitting {deed : Deed A} (h : Affordable b deed) : Fitting b deed := by
  cases deed with
  | hire of => exact h.1
  | release p j => trivial

variable {n next paid reported i start : ℕ}

theorem Assigns.mono {ex : ExecutionSpecifier} (hg : ∀ b deed, good b deed → good' b deed)
    (h : Assigns T good j reg ex b n b') :
    Assigns T good' j reg ex b n b' := by
  induction h with
  | none => exact .none
  | more hb ha ho ih => exact .more ih ha (hg _ _ ho)

theorem MatchesAll.mono (hg : ∀ b deed, good b deed → good' b deed)
    (h : MatchesAll T good j reg b b') : MatchesAll T good' j reg b b' := by
  cases h with
  | intro his hs ha => exact .intro his hs (ha.mono hg)

theorem Deal.mono (hg : ∀ b deed, good b deed → good' b deed) (h : Deal T good b b') :
    Deal T good' b b' := by
  cases h with
  | tick hl => exact .tick hl
  | revise hf sched hx => exact .revise hf sched hx
  | register hre his hop ho hin =>
    exact .register hre his hop ho (hin.imp_right (·.mono hg))
  | matchAll hf hm => exact .matchAll hf (hm.mono hg)
  | matchExecution hf his hs hea hsl ha =>
    exact .matchExecution hf his hs hea hsl (ha.mono hg)
  | reopen hf hc hs due => exact .reopen hf hc hs due
  | drop => exact .drop
  | rekey hf => exact .rekey hf
  | acknowledge hr hf hu ht st hrep hn pay hp =>
    exact .acknowledge hr hf hu ht st hrep hn pay hp
  | report reps hn pay => exact .report reps hn pay
  | reportLast reps hn pay => exact .reportLast reps hn pay
  | release fair hr pay hp =>
    exact .release (hg _ _ fair) hr pay hp
  | deregister hd hex ho => exact .deregister hd hex ho

structure Solvent (T : Config A) (b : Book A) : Prop where
  orderly : Orderly T b
  covered : ∀ j registration, b.registrations.lookup j = some registration →
    Covered T b j registration
  settled : ∀ j, b.registrations.lookup j = none → paidSince b.history j ≤ promised b.history j

theorem Solvent.of_job (hb : Solvent T b) (hor : Orderly T b')
    (ho : ∀ j', j' ≠ j → SameJob b b' j')
    (hc : ∀ reg, b'.registrations.lookup j = some reg → Covered T b' j reg)
    (hse : b'.registrations.lookup j = none → paidSince b'.history j ≤ promised b'.history j) :
    Solvent T b' := by
  refine ⟨hor, fun j' r hr => ?_, fun j' hn => ?_⟩
  · by_cases hj : j' = j
    · subst hj
      exact hc r hr
    · have hs := ho j' hj
      rw [hs.registration] at hr
      exact (hb.covered j' r hr).same hs
  · by_cases hj : j' = j
    · subst hj
      exact hse hn
    · have hs := ho j' hj
      rw [hs.registration] at hn
      rw [hs.paid, hs.promised]
      exact hb.settled j' hn

section Others

theorem SameJob.refl (b : Book A) (j : JobId A) : SameJob b b j :=
  ⟨rfl, rfl, fun _ => rfl, fun _ => rfl, fun _ => rfl, rfl, rfl, rfl, le_rfl⟩

theorem SameJob.trans (h : SameJob b b₁ j) (h' : SameJob b₁ b₂ j) : SameJob b b₂ j :=
  ⟨h'.registration.trans h.registration, h'.status.trans h.status,
    fun i => (h'.executions i).trans (h.executions i),
    fun p => (h'.assignments p).trans (h.assignments p), fun p => (h'.reports p).trans (h.reports p),
    h'.budget.trans h.budget, h'.paid.trans h.paid, h'.promised.trans h.promised, h.time.trans h'.time⟩

variable (hne : j' ≠ j)
include hne

variable {V : Type} {n : ℕ} {ex : ExecutionSpecifier}

theorem lookup_insert_other (m : StorageMap (A × JobId A) V) (p p' : A) (v : V) :
    (m.insert (p, j) v).lookup (p', j') = m.lookup (p', j') :=
  AList.lookup_insert_ne fun hq => hne (congrArg Prod.snd hq)

theorem lookup_erase_other (m : StorageMap (A × JobId A) V) (p p' : A) :
    (m.erase (p, j)).lookup (p', j') = m.lookup (p', j') :=
  AList.lookup_erase_ne fun hq => hne (congrArg Prod.snd hq)

theorem SameJob.assign (b : Book A) (p : A) (a : Assignment) : SameJob b (b.assign p j a) j' :=
  ⟨rfl, rfl, fun _ => rfl, fun p' => lookup_insert_other hne b.assignments p p' a, fun _ => rfl, rfl, rfl,
    rfl, le_rfl⟩

theorem SameJob.unassign (b : Book A) (p : A) : SameJob b (b.unassign p j) j' :=
  ⟨rfl, rfl, fun _ => rfl, fun p' => lookup_erase_other hne b.assignments p p', fun _ => rfl, rfl, rfl,
    rfl, le_rfl⟩

theorem SameJob.replace (b : Book A) (p : A) (a : Assignment) :
    SameJob b { b with assignments := b.assignments.insert (p, j) a } j' :=
  ⟨rfl, rfl, fun _ => rfl, fun p' => lookup_insert_other hne b.assignments p p' a, fun _ => rfl, rfl, rfl,
    rfl, le_rfl⟩

theorem SameJob.setStatus (b : Book A) (st : JobStatus) :
    SameJob b { b with status := b.status.insert j st } j' :=
  ⟨rfl, AList.lookup_insert_ne hne, fun _ => rfl, fun _ => rfl, fun _ => rfl, rfl, rfl, rfl, le_rfl⟩

theorem SameJob.setExecution (b : Book A) (i : ℕ) (st : JobStatus) :
    SameJob b { b with executionStatus := b.executionStatus.insert (j, i) st } j' :=
  ⟨rfl, rfl, fun _ => AList.lookup_insert_ne fun hq => hne (congrArg Prod.fst hq), fun _ => rfl,
    fun _ => rfl, rfl, rfl, rfl, le_rfl⟩

theorem SameJob.setReports (b : Book A) {reports : StorageMap (JobId A × A) ℕ}
    (h : SameExcept (·.1 = j) b.reports reports) : SameJob b { b with reports } j' :=
  ⟨rfl, rfl, fun _ => rfl, fun _ => rfl, fun p => h (j', p) hne, rfl, rfl, rfl, le_rfl⟩

theorem SameJob.lock (b : Book A) (n : ℕ) : SameJob b (b.lock j n) j' := by
  refine ⟨rfl, rfl, fun _ => rfl, fun _ => rfl, fun _ => rfl, ?_, rfl, rfl, le_rfl⟩
  unfold Book.budget Book.lock
  rw [getD_insert, if_neg hne]

theorem SameJob.pay (b : Book A) (n : ℕ) : SameJob b (b.pay j n) j' := by
  refine ⟨rfl, rfl, fun _ => rfl, fun _ => rfl, fun _ => rfl, ?_, ?_, rfl, le_rfl⟩
  · unfold Book.budget Book.pay
    rw [getD_insert, if_neg hne]
  · show (if j = j' then n else 0) + paidSince b.history j' = _
    rw [if_neg hne.symm, Nat.zero_add]

theorem Payment.sameJob (h : Payment b j n b') : SameJob b b' j' := by
  cases h with
  | none => exact .refl b j'
  | some hc => exact .pay hne b n

theorem Acknowledges.sameJob (h : Acknowledges j b ex b') : SameJob b b' j' := by
  cases h with
  | all hf ha => exact .setStatus hne b _
  | @index i st ha => exact (SameJob.setStatus hne b st).trans (.setExecution hne _ i st)

theorem Assigns.sameJob (h : Assigns T good j reg ex b n b') : SameJob b b' j' := by
  induction h with
  | none => exact .refl b j'
  | more hb ha ho ih => exact ih.trans (.assign hne _ _ _)

theorem MatchesAll.sameJob (h : MatchesAll T good j reg b b') : SameJob b b' j' := by
  cases h with
  | intro his hs ha => exact (ha.sameJob hne).trans (.setStatus hne _ _)

theorem SameJob.report {reports : StorageMap (JobId A × A) ℕ} (h : Payment b j n b₁) (p : A)
    (a : Assignment) (ho : SameExcept (·.1 = j) b.reports reports) :
    SameJob b { b₁ with assignments := b.assignments.insert (p, j) a, reports } j' := by
  have hs := h.sameJob hne
  exact ⟨hs.registration, hs.status, hs.executions,
    fun p' => lookup_insert_other hne b.assignments p p' a, fun p' => ho (j', p') hne, hs.budget, hs.paid,
    hs.promised, hs.time⟩

theorem SameJob.register {st : StorageMap (JobId A) JobStatus}
    (others : SameExcept (· = j) b.status st) :
    SameJob b (b.register j reg st) j' := by
  refine ⟨AList.lookup_insert_ne hne, others j' hne, fun _ => rfl, fun _ => rfl, fun _ => rfl, rfl, ?_, ?_,
    le_rfl⟩
  · exact if_neg hne.symm
  · exact if_neg hne.symm

end Others

theorem Payment.account (h : Payment b j n b') :
    paidSince b'.history j = paidSince b.history j + n ∧ b'.budget j + n = b.budget j ∧
      promised b'.history j = promised b.history j := by
  cases h with
  | none => exact ⟨rfl, rfl, rfl⟩
  | some hc =>
    refine ⟨?_, ?_, rfl⟩
    · show (if j = j then n else 0) + paidSince b.history j = _
      rw [if_pos rfl, Nat.add_comm]
    · unfold Book.budget Book.pay at *
      rw [getD_insert, if_pos rfl]
      exact Nat.sub_add_cancel hc

theorem Covered.pay (h : Covered T b j reg)
    (ha : paidSince b'.history j = paidSince b.history j + n ∧ b'.budget j + n = b.budget j ∧
      promised b'.history j = promised b.history j)
    (hu : outstanding T reg b'.assignments j + n ≤
      outstanding T reg b.assignments j)
    (hn : unmatched b' j reg ≤ unmatched b j reg)
    (ho : ∀ p a, b'.assignments.lookup (p, j) = some a → a.execution = .all → OnTrack b' p j
      a) : Covered T b' j reg := by
  obtain ⟨hpa, hb, hp⟩ := ha
  obtain ⟨⟨hw, hp', -⟩, hba⟩ := h
  refine ⟨⟨?_, hp.trans hp', ho⟩, ?_⟩
  · omega
  · omega

theorem Covered.onTrack_erase (h : Covered T b j reg)
    (hr : ∀ p', p' ≠ p → b'.reports.lookup (j, p') = b.reports.lookup (j, p'))
    (has : ∀ p' a, b'.assignments.lookup (p', j) = some a → p' ≠ p ∧
      b.assignments.lookup (p', j) = some a)
    (p' : A) (a : Assignment) (ha : b'.assignments.lookup (p', j) = some a) (hl : a.execution = .all) :
    OnTrack b' p' j a := by
  obtain ⟨hne, ha⟩ := has p' a ha
  obtain ⟨hp, hf, hn⟩ := h.onTrack p' a ha hl
  refine ⟨hp, hf, ?_⟩
  rw [hr p' hne]
  exact hn

theorem Covered.replace (h : Covered T b j reg)
    (hf : b.assignments.lookup (p, j) = some a)
    (has : b'.assignments = b.assignments.insert (p, j) a')
    (hc : paidSince b'.history j = paidSince b.history j + n ∧ b'.budget j + n = b.budget j ∧
      promised b'.history j = promised b.history j)
    (ho : owed T reg a' + n ≤ owed T reg a)
    (hu : unmatched b' j reg ≤ unmatched b j reg)
    (hr : ∀ p', p' ≠ p → b'.reports.lookup (j, p') = b.reports.lookup (j, p'))
    (hn : a'.execution = .all → OnTrack b' p j a') : Covered T b' j reg := by
  refine h.pay hc ?_ hu fun p' a₁ ha hl => ?_
  · have hs : outstanding T reg (b.assignments.insert (p, j) a') j + owed T reg a =
        outstanding T reg b.assignments j + owed T reg a' :=
      outstanding_replace hf a'
    rw [has]
    omega
  · rw [has, lookup_insert_eq] at ha
    split_ifs at ha with hk
    · obtain ⟨rfl, -⟩ := Prod.mk.inj hk
      obtain rfl := Option.some.inj ha
      exact hn hl
    · have hne : p' ≠ p := by
        rintro rfl
        exact hk rfl
      obtain ⟨hp, hfr, hx⟩ := h.onTrack p' a₁ ha hl
      refine ⟨hp, hfr, ?_⟩
      rw [hr p' hne]
      exact hx

theorem lookup_unassign {p' : A} (h : (b.unassign p j).assignments.lookup (p', j) = some a) :
    p' ≠ p ∧ b.assignments.lookup (p', j) = some a := by
  simp only [Book.unassign, lookup_erase_eq, Prod.mk.injEq, and_true] at h
  split_ifs at h with hp
  exact ⟨hp, h⟩

theorem Covered.drop (h : Covered T b j reg) (p : A) :
    Covered T (b.unassign p j) j reg :=
  h.pay (n := 0) ⟨rfl, rfl, rfl⟩ (outstanding_erase_le b.assignments p j) le_rfl
    (h.onTrack_erase (fun _ _ => rfl) fun _ _ => lookup_unassign)

theorem Covered.rekey (h : Covered T b j reg)
    (hf : b.assignments.lookup (p, j) = some a) (pubKeys : List PubKey) :
    Covered T { b with assignments := b.assignments.insert (p, j) { a with pubKeys } } j
      reg := by
  refine h.replace (n := 0) hf rfl ⟨rfl, rfl, rfl⟩ le_rfl le_rfl (fun _ _ => rfl) fun ha => ?_
  obtain ⟨hp, hr, hn⟩ := h.onTrack p a hf ha
  exact ⟨hp, hr, hn⟩

theorem Covered.acknowledge {pubKeys : List PubKey} {reports : StorageMap (JobId A × A) ℕ}
    (h : Covered T b j reg) (hf : b.assignments.lookup (p, j) = some a)
    (hfa : a.acknowledged = false)
    (hs : Acknowledges j
      { b with assignments := b.assignments.insert (p, j) { a with acknowledged := true, pubKeys } }
      a.execution b₁)
    (hr : ∀ k, reports.lookup k = if k = (j, p) then some next else b.reports.lookup k)
    (hn : a.execution = .all → next = 0) (hpa : Payment { b₁ with reports } j paid b₂)
    (hpai : paid = 0 ∨
      paid = T.matcherPercentage.mulFloor (matcherRemaining reg a a.execution)) :
    Covered T b₂ j reg := by
  obtain ⟨-, has, ht, hu, hh⟩ := hs.fixed
  obtain ⟨-, hs', ha', -, hx, ht', hr'⟩ := hpa.fixed
  obtain ⟨ha₁, ha₂, ha₃⟩ := hpa.account
  have hb : ({ b₁ with reports } : Book A).budget j = b.budget j := by
    unfold Book.budget
    rw [hu]
  refine h.replace (n := paid) hf (ha'.trans has) ⟨?_, ?_, ?_⟩ ?_ ?_ (fun p' hne => ?_) fun ha => ?_
  · rw [ha₁, hh]
  · rw [ha₂, hb]
  · rw [ha₃, hh]
  · have hw : owed T reg a = owed T reg { a with acknowledged := true, pubKeys } +
        T.matcherPercentage.mulFloor (matcherRemaining reg a a.execution) := by
      unfold owed
      rw [if_neg (by rw [hfa]; exact Bool.false_ne_true), if_pos rfl, Nat.add_zero]
    rw [hw]
    rcases hpai with rfl | rfl
    · exact Nat.le_add_right _ _
    · exact le_rfl
  · refine unmatched_le (fun hop => ?_) (fun i _ ho => ?_) (ht'.trans ht).ge
    · rw [hs'] at hop
      exact absurd hop hs.not_opened
    · refine hs.executionOpen ?_
      unfold Book.executionOpen at ho ⊢
      rwa [hx] at ho
  · rw [hr', hr, if_neg fun hq => hne (congrArg Prod.snd hq)]
  · obtain ⟨hp, hfr, -⟩ := h.onTrack p a hf ha
    refine ⟨hp, fun hc => (by cases hc), fun _ => ⟨next, ?_, ?_, ?_⟩⟩
    · rw [hr', hr, if_pos rfl]
    · exact (hfr hfa).le.trans (Nat.zero_le _)
    · rw [hn ha]
      exact hp

theorem Covered.report {exp : ℕ} (h : Covered T b j reg)
    (hr : Reports b p j reg a a' exp reported)
    (hx : nextExpectedReport a' reported = some next)
    (hp : Payment b j a.feePerExecution b₁) :
    Covered T { b₁ with
      assignments := b.assignments.insert (p, j) a'
      reports := b.reports.insert (j, p) next } j reg := by
  obtain ⟨-, hs, -, -, hex, ht, -⟩ := hp.fixed
  obtain ⟨-, hf, ha, hw, rfl, hexp, hle⟩ := hr
  refine h.replace hf rfl hp.account (owed_report ha hw).le ?_ (fun p' hne => ?_) fun hl => ?_
  · refine unmatched_le (fun hope => ?_) (fun i _ hop => ?_) ht.ge
    · rwa [← hs]
    · unfold Book.executionOpen at hop ⊢
      rwa [← hex]
  · exact AList.lookup_insert_ne fun hq => hne (congrArg Prod.snd hq)
  · obtain ⟨ho, -, hb⟩ := h.onTrack p a hf hl
    obtain ⟨n, hn, hme, hlt⟩ := hb ha
    have hn' := hexp n hn
    refine ⟨ho, fun hc => ?_, fun _ => ⟨next, AList.lookup_insert _, ?_⟩⟩
    · rw [ha] at hc
      cases hc
    · unfold nextExpectedReport at hx
      rw [hl] at hx
      simp only [Option.ite_none_right_eq_some, Option.some.injEq] at hx
      obtain ⟨hm, rfl⟩ := hx
      refine ⟨?_, hm⟩
      show a.sla.met + 1 ≤ reported + 1
      omega

theorem Covered.reportLast {exp : ℕ} (h : Covered T b j reg)
    (hr : Reports b p j reg a a' exp reported)
    (hp : Payment b j a.feePerExecution b₁) :
    Covered T (Book.unassign { b₁ with
      assignments := b.assignments.insert (p, j) a'
      reports := b.reports.erase (j, p) } p j) j reg := by
  obtain ⟨-, hs, -, -, hx, ht, -⟩ := hp.fixed
  obtain ⟨-, ho, hc, hf, rfl, -, -⟩ := hr
  refine h.pay hp.account ?_ ?_ (h.onTrack_erase (p := p) (fun p' hne => ?_) fun p' a₁ ha => ?_)
  · have hn : outstanding T reg (b.assignments.insert (p, j)
        { a with sla := { a.sla with met := a.sla.met + 1 } }) j + owed T reg a =
        outstanding T reg b.assignments j +
          owed T reg { a with sla := { a.sla with met := a.sla.met + 1 } } :=
      outstanding_replace ho _
    have her : outstanding T reg ((b.assignments.insert (p, j)
        { a with sla := { a.sla with met := a.sla.met + 1 } }).erase (p, j)) j +
        owed T reg { a with sla := { a.sla with met := a.sla.met + 1 } } = _ :=
      outstanding_erase (AList.lookup_insert _)
    have hfe : a.feePerExecution ≤ owed T reg a := fee_le_owed hf
    show outstanding T reg ((b.assignments.insert (p, j) _).erase (p, j)) j + _ ≤ _
    omega
  · refine unmatched_le (fun hope => ?_) (fun i _ hop => ?_) ht.ge
    · rwa [← hs]
    · unfold Book.executionOpen at hop ⊢
      rwa [← hx]
  · exact AList.lookup_erase_ne fun hq => hne (congrArg Prod.snd hq)
  · obtain ⟨hne, ha⟩ := lookup_unassign ha
    refine ⟨hne, ?_⟩
    rwa [lookup_insert_eq, if_neg fun hq => hne (congrArg Prod.fst hq)] at ha

theorem Covered.met_lt (h : Covered T b j reg) (hfa : Affordable b (.release p j))
    (hr : b.registrations.lookup j = some reg)
    (hf : b.assignments.lookup (p, j) = some a) (hd : dueAt reg b.time a) :
    a.sla.met < a.sla.total := by
  by_cases ha : a.execution = .all
  · obtain ⟨n, -, hm, hl⟩ := (h.onTrack p a hf ha).next hd.2
    exact hm.trans_lt hl
  · exact hfa reg hr a hf ha hd

theorem Covered.release (h : Covered T b j reg) (hfa : Affordable b (.release p j))
    (hre : b.registrations.lookup j = some reg) (hp : Payment b j paid b')
    (hpai : paid = 0 ∨ ∃ a, b.assignments.lookup (p, j) = some a ∧ dueAt reg b.time a ∧
      paid = a.feePerExecution) : Covered T (b'.unassign p j) j reg := by
  obtain ⟨-, hs, has, -, hx, ht, hr⟩ := hp.fixed
  refine h.pay hp.account ?_ ?_ (h.onTrack_erase (p := p) (fun p' hne => ?_) fun p' a₁ ha => ?_)
  · show outstanding T reg (b'.assignments.erase (p, j)) j + _ ≤ _
    rw [has]
    rcases hpai with rfl | ⟨a, hf, hd, rfl⟩
    · exact outstanding_erase_le b.assignments p j
    · have hfe : a.feePerExecution ≤ owed T reg a :=
        fee_le_owed (h.met_lt hfa hre hf hd)
      have her : outstanding T reg (b.assignments.erase (p, j)) j + owed T reg a =
          outstanding T reg b.assignments j := outstanding_erase hf
      omega
  · refine unmatched_le (fun hope => ?_) (fun i _ ho => ?_) ht.ge
    · rwa [← hs]
    · unfold Book.executionOpen at ho ⊢
      rwa [← hx]
  · exact congrArg (AList.lookup (j, p')) hr
  · obtain ⟨hne, ha⟩ := lookup_unassign ha
    rw [has] at ha
    exact ⟨hne, ha⟩

theorem Within.matchAll (h : Within T b j reg) (hor : Orderly T b)
    (hf : b.registrations.lookup j = some reg)
    (hm : MatchesAll T Affordable j reg b b') : Within T b' j reg := by
  cases hm with
  | intro his hs hass =>
    have hr := hor.indexed.registrable j reg hf
    obtain rfl := hs hr.slots
    obtain ⟨-, -, -, -, hp, -, hh⟩ := hass.fixed
    have hal := (hass.mono fun _ _ => Affordable.fitting).allowed hr.slots hf
    obtain ⟨instantMatch, hsi⟩ : ∃ instantMatch,
        reg.extra.assignmentStrategy = .single instantMatch := by
      cases ht : reg.extra.assignmentStrategy with
      | single instantMatch => exact ⟨instantMatch, rfl⟩
      | competing =>
        rw [ht] at hal
        cases hal
    have hw := h.within
    have hb : unmatched b j reg = reg.totalReward := by
      unfold unmatched
      rw [hsi]
      exact if_pos his
    have ho := hass.outstanding_le
      (x := reg.extra.reward * reg.schedule.executionCount)
      fun _ _ _ has _ => (owed_all_le has).trans (Nat.le_add_left _ _)
    rw [← totalReward_eq] at ho
    refine ⟨?_, ?_, fun p a ha hall => ?_⟩
    · have haf : ∀ b₁ : Book A, b₁.status.lookup j = some .matched →
          unmatched b₁ j reg = 0 := by
        intro b₁ hst
        unfold unmatched
        rw [hsi]
        exact if_neg (by rw [hst]; simp)
      rw [haf _ (AList.lookup_insert _)]
      dsimp only
      rw [hh]
      omega
    · dsimp only
      rw [hh]
      exact h.promised_eq
    · rcases hass.lookup_assignments ha with hold | ⟨-, b₁, has⟩
      · obtain ⟨hpo, hfr, hne⟩ := h.onTrack p a hold hall
        rw [← hp] at hne
        exact ⟨hpo, hfr, hne⟩
      · have hl : a.sla = ⟨reg.schedule.executionCount, 0⟩ := has.sla
        refine ⟨?_, fun _ => ?_, fun hc => ?_⟩
        · rw [hl]
          exact hr.proper.executionCount_pos
        · rw [hl]
        · rw [has.acknowledged] at hc
          cases hc

theorem unmatched_closed (hc : reg.extra.assignmentStrategy = .competing)
    (hp : b.executionOpen j i) (hs : reg.schedule.nthStartTime 0 i = some start)
    (ha : b.time < start) (ht : b'.time = b.time)
    (hx : b'.executionStatus = b.executionStatus.insert (j, i) .matched) :
    unmatched b' j reg + reg.extra.reward * reg.extra.slots ≤
      unmatched b j reg := by
  obtain ⟨hi, rfl, -⟩ := Schedule.nthStartTime_eq_some.mp hs
  have hm : i ∈ upcoming b j reg :=
    Finset.mem_filter.mpr ⟨Finset.mem_range.mpr hi, hp, ha⟩
  have hsu : upcoming b' j reg ⊆ (upcoming b j reg).erase i := by
    intro i' hi'
    obtain ⟨hr, ho, he'⟩ := Finset.mem_filter.mp hi'
    unfold Book.executionOpen at ho
    rw [hx, getD_insert] at ho
    split_ifs at ho with hk
    rw [ht] at he'
    refine Finset.mem_erase.mpr ⟨?_, Finset.mem_filter.mpr ⟨hr, ho, he'⟩⟩
    rintro rfl
    exact hk rfl
  have hca := Finset.card_le_card hsu
  rw [Finset.card_erase_of_mem hm] at hca
  have hpo := Finset.card_pos.mpr ⟨i, hm⟩
  have hu := Nat.mul_le_mul_right (reg.extra.reward * reg.extra.slots)
    (show (upcoming b' j reg).card + 1 ≤ (upcoming b j reg).card by omega)
  unfold unmatched
  rw [hc]
  rwa [Nat.add_mul, Nat.one_mul] at hu

theorem MatchesAll.account (h : MatchesAll T good j reg b b') :
    b'.registrations = b.registrations ∧ b'.budgets = b.budgets ∧ b'.history = b.history := by
  cases h with
  | intro his hs ha =>
    obtain ⟨hr, -, -, -, -, hb, hh⟩ := ha.fixed
    exact ⟨hr, hb, hh⟩

theorem Covered.matchAll (h : Covered T b j reg) (ho : Orderly T b)
    (hf : b.registrations.lookup j = some reg)
    (hm : MatchesAll T Affordable j reg b b') : Covered T b' j reg := by
  obtain ⟨-, hb, hh⟩ := hm.account
  refine ⟨h.toWithin.matchAll ho hf hm, ?_⟩
  unfold Book.budget
  rw [hb, hh]
  exact h.backed

theorem Covered.matchExecution (h : Covered T b j reg) (ho : Orderly T b)
    (hf : b.registrations.lookup j = some reg) (hop : b.executionOpen j i)
    (ht : reg.schedule.nthStartTime 0 i = some start) (hea : b.time < start)
    (hsl : 0 < reg.extra.slots → n = reg.extra.slots)
    (hs : Assigns T Affordable j reg (.index i) b n b') :
    Covered T { b' with
      status := b'.status.insert j .matched
      executionStatus := b'.executionStatus.insert (j, i) .matched } j reg := by
  have hp := (ho.indexed.registrable j reg hf).slots
  obtain rfl := hsl hp
  obtain ⟨-, -, hx, hti, hr, hu, hh⟩ := hs.fixed
  have hal := (hs.mono fun _ _ => Affordable.fitting).allowed hp hf
  have hco : reg.extra.assignmentStrategy = .competing := by
    cases hst : reg.extra.assignmentStrategy with
    | single instantMatch =>
      rw [hst] at hal
      cases hal
    | competing => rfl
  have hw := h.within
  have hc := hs.outstanding_le (x := reg.extra.reward)
    fun _ _ _ has hg => owed_index_le has hg.2
  have hcl : unmatched { b' with
      status := b'.status.insert j .matched
      executionStatus := b'.executionStatus.insert (j, i) .matched } j reg +
      reg.extra.reward * reg.extra.slots ≤ unmatched b j reg :=
    unmatched_closed hco hop ht hea hti (by rw [hx])
  have hb : b'.budget j = b.budget j := by
    unfold Book.budget
    rw [hu]
  refine ⟨⟨?_, ?_, fun p a ha hl => ?_⟩, ?_⟩
  · have hpa : paidSince b'.history j = paidSince b.history j := by rw [hh]
    rw [Nat.mul_comm reg.extra.slots] at hc
    show paidSince b'.history j + outstanding T reg b'.assignments j + _ ≤ _
    omega
  · dsimp only
    rw [hh]
    exact h.promised_eq
  · rcases hs.lookup_assignments ha with hold | ⟨-, b₁, has⟩
    · obtain ⟨hp', hfr, hne⟩ := h.onTrack p a hold hl
      rw [← hr] at hne
      exact ⟨hp', hfr, hne⟩
    · rw [has.execution_eq] at hl
      cases hl
  · show _ ≤ b'.budget j + paidSince b'.history j
    rw [hb, hh]
    exact h.backed

theorem Within.register {st : StorageMap (JobId A) JobStatus} (reg : JobRegistration A)
    (hf : ∀ p, b.assignments.lookup (p, j) = none) :
    Within T (b.register j reg st) j reg := by
  refine ⟨?_, if_pos rfl, fun p a ha => ?_⟩
  · have hp : paidSince (b.register j reg st).history j = 0 := if_pos rfl
    have hz : outstanding T reg b.assignments j = 0 := outstanding_eq_zero hf
    have hl : unmatched (b.register j reg st) j reg ≤
        reg.totalReward := by
      unfold unmatched
      split
      · split_ifs
        · exact le_rfl
        · exact Nat.zero_le _
      · have hc := Finset.card_filter_le (Finset.range reg.schedule.executionCount)
          fun i => (b.register j reg st).executionOpen j i ∧
            (b.register j reg st).time <
              reg.schedule.startTime + reg.schedule.interval * i
        rw [Finset.card_range] at hc
        unfold JobRegistration.totalReward
        rw [Nat.mul_comm _ reg.schedule.executionCount]
        exact Nat.mul_le_mul_right _ hc
    rw [hp]
    show 0 + outstanding T reg b.assignments j + _ ≤ _
    omega
  · have hn : (b.register j reg st).assignments.lookup (p, j) = none := hf p
    rw [hn] at ha
    cases ha

theorem Within.lock (h : Within T b j reg) :
    Covered T (b.lock j reg.totalReward) j reg := by
  obtain ⟨hw, hr, ho⟩ := h
  refine ⟨⟨hw, hr, fun p a ha hl => ?_⟩, ?_⟩
  · obtain ⟨hp, hf, hne⟩ := ho p a ha hl
    exact ⟨hp, hf, hne⟩
  · have hb : (b.lock j reg.totalReward).budget j =
        b.budget j + reg.totalReward := by
      unfold Book.lock
      simp only [Book.budget, getD_insert, if_true]
    omega

theorem Covered.revise {reg' : JobRegistration A} (h : Covered T b j reg)
    (hs : reg'.schedule = reg.schedule)
    (hx : reg'.extra = reg.extra) :
    Covered T { b with registrations := b.registrations.insert j reg' } j reg' := by
  have ht : reg'.totalReward = reg.totalReward := by
    unfold JobRegistration.totalReward
    rw [hs, hx]
  have ho : ∀ a, owed T reg' a = owed T reg a := by
    intro a
    unfold owed matcherRemaining
    rw [hs, hx]
  have hu : outstanding T reg' b.assignments j =
      outstanding T reg b.assignments j := by
    unfold outstanding
    simp only [ho]
  have hn : unmatched { b with registrations := b.registrations.insert j reg' } j
      reg' = unmatched b j reg := by
    unfold unmatched upcoming
    rw [hs, hx, ht]
  obtain ⟨⟨hw, hr, hot⟩, hb⟩ := h
  refine ⟨⟨?_, hr.trans ht.symm, fun p a ha hl => ?_⟩, ?_⟩
  · rw [hn, ht]
    rw [hu]
    exact hw
  · obtain ⟨hp, hf, hne⟩ := hot p a ha hl
    exact ⟨hp, hf, hne⟩
  · rw [ht]
    exact hb

theorem Covered.reopen (h : Covered T b j reg)
    (hde : T.matchingCompetingDueDelta ≤ 2 * T.matchingCompetingMinInterval)
    (hr : Registrable T reg)
    (hs : reg.schedule.nthStartTime 0 (i + 2) = some start)
    (hd : start - T.matchingCompetingDueDelta ≤ b.time) :
    Covered T { b with executionStatus := b.executionStatus.erase (j, i) } j reg := by
  obtain ⟨hi, rfl, -⟩ := Schedule.nthStartTime_eq_some.mp hs
  refine h.pay (n := 0) ⟨rfl, rfl, rfl⟩ le_rfl ?_ fun p a ha hl => ?_
  · unfold unmatched
    split
    · exact le_rfl
    · next hc =>
      refine Nat.mul_le_mul_right _ (Finset.card_le_card (upcoming_subset (fun i' hea ho => ?_) le_rfl))
      have hne : (j, i') ≠ (j, i) := by
        rintro hq
        obtain ⟨-, rfl⟩ := Prod.mk.inj hq
        have hin : T.matchingCompetingMinInterval ≤ reg.schedule.interval :=
          (hr.interval hc).resolve_left (by omega)
        have hm : reg.schedule.interval * (i' + 2) =
            reg.schedule.interval * i' + 2 * reg.schedule.interval := by ring
        dsimp only at hea
        omega
      unfold Book.executionOpen StorageMap.getD at ho ⊢
      rwa [lookup_erase_eq, if_neg hne] at ho
  · obtain ⟨hp, hf, hn⟩ := h.onTrack p a ha hl
    exact ⟨hp, hf, hn⟩

theorem Solvent.of_registered (hb : Solvent T b) (ho : Orderly T b')
    (hf : b.registrations.lookup j = some reg)
    (hre : b'.registrations = b.registrations)
    (ht : ∀ j', j' ≠ j → SameJob b b' j')
    (hc : Covered T b j reg → Covered T b' j reg) : Solvent T b' := by
  refine hb.of_job ho ht (fun r hr => ?_) fun hn => ?_
  · rw [hre] at hr
    obtain rfl := Option.mem_unique hf hr
    exact hc (hb.covered j reg hf)
  · rw [hre, hf] at hn
    cases hn

theorem Solvent.register {status : StorageMap (JobId A) JobStatus} (hb : Solvent T b)
    (hor : Orderly T (b₁.lock j reg.totalReward)) (hre : Registrable T reg)
    (his : ∀ st, b.status.lookup j = some st → st = .opened) (hop : status.lookup j = some .opened)
    (ho : SameExcept (· = j) b.status status)
    (hin : b₁ = b.register j reg status ∨ MatchesAll T Affordable j reg (b.register j reg status) b₁) :
    Solvent T (b₁.lock j reg.totalReward) := by
  have hfr := hb.orderly.indexed.free his
  have hg := hb.orderly.register (hb.orderly.indexed.register hre hfr ⟨_, hop⟩ ho) hfr
  have hw : Within T (b.register j reg status) j reg := .register reg hfr
  have hfo : (b.register j reg status).registrations.lookup j = some reg := AList.lookup_insert _
  obtain ⟨hma, hf', hsa⟩ : Within T b₁ j reg ∧ b₁.registrations.lookup j = some reg ∧
      ∀ j', j' ≠ j → SameJob (b.register j reg status) b₁ j' := by
    rcases hin with rfl | hm
    · exact ⟨hw, hfo, fun j' _ => .refl _ j'⟩
    · refine ⟨hw.matchAll hg hfo hm, ?_, fun j' hne => hm.sameJob hne⟩
      rw [hm.account.1]
      exact hfo
  refine hb.of_job (j := j) hor (fun j' hne => ?_) (fun r hr => ?_) fun hno => ?_
  · exact (SameJob.register hne ho).trans ((hsa j' hne).trans (.lock hne b₁ _))
  · obtain rfl := Option.mem_unique hf' hr
    exact hma.lock
  · exact absurd (hf'.symm.trans hno) (Option.some_ne_none _)

theorem Solvent.deregister {executionStatus : StorageMap (JobId A × ℕ) JobStatus}
    {reports : StorageMap (JobId A × A) ℕ} (hb : Solvent T b)
    (hor : Orderly T { b with
      registrations := b.registrations.erase j, status := b.status.erase j, executionStatus, reports
      budgets := b.budgets.insert j 0 })
    (hex : SameExcept (·.1 = j) b.executionStatus executionStatus)
    (ho : SameExcept (·.1 = j) b.reports reports) : Solvent T { b with
      registrations := b.registrations.erase j, status := b.status.erase j, executionStatus, reports
      budgets := b.budgets.insert j 0 } := by
  refine hb.of_job (j := j) hor (fun j' hne => ?_) (fun r hr => ?_) fun _ => ?_
  · refine ⟨AList.lookup_erase_ne hne, AList.lookup_erase_ne hne, fun i => hex (j', i) hne,
      fun _ => rfl, fun p => ho (j', p) hne, ?_, rfl, rfl, le_rfl⟩
    unfold Book.budget
    rw [getD_insert, if_neg hne]
  · rw [AList.lookup_erase] at hr
    cases hr
  · show paidSince b.history j ≤ promised b.history j
    cases hfo : b.registrations.lookup j with
    | none => exact hb.settled j hfo
    | some reg =>
      obtain ⟨⟨hw, hpr, -⟩, -⟩ := hb.covered j reg hfo
      omega

theorem Deal.solvent (hde : T.matchingCompetingDueDelta ≤ 2 * T.matchingCompetingMinInterval)
    (h : Deal T Affordable b b') (hb : Solvent T b) : Solvent T b' := by
  have hor : Orderly T b' := (h.mono fun _ _ => Affordable.fitting).orderly hb.orderly
  cases h with
  | tick hl =>
    refine ⟨hor, fun j r hr => (hb.covered j r hr).same ?_, hb.settled⟩
    exact ⟨rfl, rfl, fun _ => rfl, fun _ => rfl, fun _ => rfl, rfl, rfl, rfl, hl⟩
  | @revise j reg reg' hf hsc hx =>
    refine hb.of_job (j := j) hor (fun j' hne => ?_) (fun r hr => ?_) fun hno => ?_
    · exact ⟨AList.lookup_insert_ne hne, rfl, fun _ => rfl, fun _ => rfl, fun _ => rfl, rfl, rfl, rfl,
        le_rfl⟩
    · obtain rfl := Option.some.inj ((AList.lookup_insert _).symm.trans hr)
      exact (hb.covered j reg hf).revise hsc hx
    · rw [AList.lookup_insert] at hno
      cases hno
  | @register b₁ j reg status registrable his hop ho hin =>
    exact hb.register hor registrable his hop ho hin
  | matchAll hf hm =>
    exact hb.of_registered hor hf hm.account.1 (fun j' hne => hm.sameJob hne)
      fun hco => hco.matchAll hb.orderly hf hm
  | @matchExecution b₁ j reg n i start hf his hs hea hsl ha =>
    refine hb.of_registered hor hf ha.fixed.1 (fun j' hne => ?_) fun hco =>
      hco.matchExecution hb.orderly hf his hs hea hsl ha
    exact (ha.sameJob hne).trans ((SameJob.setStatus hne b₁ .matched).trans
      (.setExecution hne _ i .matched))
  | @reopen j reg i start hf hc hs due =>
    refine hb.of_registered hor hf rfl (fun j' hne => ?_) fun hco =>
      hco.reopen hde (hb.orderly.indexed.registrable j reg hf) hs due
    exact ⟨rfl, rfl, fun _ => AList.lookup_erase_ne fun hq => hne (congrArg Prod.fst hq), fun _ => rfl,
      fun _ => rfl, rfl, rfl, rfl, le_rfl⟩
  | @drop p j =>
    exact hb.of_job hor (fun j' hne => .unassign hne b p)
      (fun r hr => (hb.covered j r hr).drop p) (hb.settled j)
  | @rekey p j a pubKeys hf =>
    obtain ⟨reg, hg⟩ := hb.orderly.indexed.registered p j a hf
    exact hb.of_registered hor hg rfl (fun j' hne => .replace hne b p _)
      fun hco => hco.rekey hf pubKeys
  | @acknowledge b₁ _ p j a pubKeys reg reports next paid registered hf unacknowledged timely
      status reports_eq hn hp hpa =>
    refine hb.of_registered hor registered (hp.fixed.1.trans status.fixed.1) (fun j' hne => ?_)
      fun hco => hco.acknowledge hf unacknowledged status reports_eq hn hp hpa
    have hrep : SameExcept (·.1 = j) b₁.reports reports := by
      intro k hk
      rw [reports_eq, if_neg fun hq => hk (congrArg Prod.fst hq), status.reports]
    exact (SameJob.replace hne b p _).trans ((status.sameJob hne).trans
      ((SameJob.setReports hne b₁ hrep).trans (hp.sameJob hne)))
  | @report b₁ p j a a' reg expected reported next reports hn hp =>
    refine hb.of_registered hor reports.registered hp.fixed.1 (fun j' hne => ?_)
      fun hco => hco.report reports hn hp
    exact SameJob.report hne hp p a' fun k hk =>
      AList.lookup_insert_ne fun hq => hk (congrArg Prod.fst hq)
  | @reportLast b₁ p j a a' reg expected reported reports hn hp =>
    refine hb.of_registered hor reports.registered hp.fixed.1 (fun j' hne => ?_)
      fun hco => hco.reportLast reports hp
    refine (SameJob.report hne hp p a' fun k hk => ?_).trans (.unassign hne _ p)
    exact AList.lookup_erase_ne fun hq => hk (congrArg Prod.fst hq)
  | @release b₁ p j reg paid fair registered hp hpa =>
    refine hb.of_registered hor registered hp.fixed.1 (fun j' hne => ?_)
      fun hco => hco.release fair registered hp hpa
    exact (hp.sameJob hne).trans (.unassign hne b₁ p)
  | deregister hd hex ho => exact hb.deregister hor hex ho

end Acurast.Marketplace

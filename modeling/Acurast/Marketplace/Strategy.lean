import Acurast.Marketplace.Indexed
import Acurast.Marketplace.Mock

/-! A `Single` job is assigned as a whole, a `Competing` one execution by execution, by no more
processors than it has slots. Neither matching call checks this, so it holds as long as the proposed
matches follow it. -/

namespace Acurast.Marketplace

open Base

variable {A : Type} {T : Config A} [DecidableEq A] {b b' : Book A} {p : A} {j : JobId A}
  {registration reg : JobRegistration A} {a a' : Assignment}

def AssignmentStrategy.allows : AssignmentStrategy A → ExecutionSpecifier → Bool
  | .single _, .all => true
  | .competing, .index _ => true
  | .single _, .index _ | .competing, .all => false

def holders (m : StorageMap (A × JobId A) Assignment) (j : JobId A) (i : ℕ) : ℕ :=
  StorageMap.sum m fun k a => if k.2 = j ∧ a.execution.covers i = true then 1 else 0

def Fitting (b : Book A) : Deed A → Prop
  | .hire offer => ∀ registration ∈ b.registrations.lookup offer.jobId,
    registration.extra.assignmentStrategy.allows offer.execution = true
  | .release _ _ => True

instance (b : Book A) : (deed : Deed A) → Decidable (Fitting b deed)
  | .hire _ => inferInstanceAs (Decidable (∀ _ ∈ _, _))
  | .release _ _ => isTrue trivial

structure Orderly (T : Config A) (b : Book A) : Prop where
  indexed : Indexed T b
  allowed : ∀ p j a registration, b.assignments.lookup (p, j) = some a →
    b.registrations.lookup j = some registration →
    registration.extra.assignmentStrategy.allows a.execution = true
  slots : ∀ j registration, b.registrations.lookup j = some registration →
    ∀ i, holders b.assignments j i ≤ registration.extra.slots
  idle : ∀ j registration, b.registrations.lookup j = some registration →
    registration.extra.assignmentStrategy = .competing →
    ∀ i, b.executionOpen j i → holders b.assignments j i = 0

section Holders

variable {m m' : StorageMap (A × JobId A) Assignment} {i : ℕ}

def Kept (m m' : StorageMap (A × JobId A) Assignment) : Prop :=
  ∀ k a', m'.lookup k = some a' → ∃ a, m.lookup k = some a ∧ a'.execution = a.execution

theorem Kept.refl (m : StorageMap (A × JobId A) Assignment) : Kept m m :=
  fun _ a' ha' => ⟨a', ha', rfl⟩

theorem Kept.erase (h : Kept m m') (k : A × JobId A) : Kept m (m'.erase k) := by
  intro k' a' ha'
  exact h k' a' (of_lookup_erase ha').2

theorem Kept.insert {k : A × JobId A} (hf : m.lookup k = some a)
    (hx : a'.execution = a.execution) : Kept m (m.insert k a') := by
  intro k' a₁ ha₁
  rw [lookup_insert_eq] at ha₁
  split_ifs at ha₁ with hk
  · rw [hk]
    obtain rfl := Option.some.inj ha₁
    exact ⟨a, hf, hx⟩
  · exact ⟨a₁, ha₁, rfl⟩

theorem Kept.holders_le (h : Kept m m') (j : JobId A) (i : ℕ) : holders m' j i ≤ holders m j i := by
  refine StorageMap.sum_le_of_lookup fun k a' ha' => ?_
  obtain ⟨a, ha, hx⟩ := h k a' ha'
  rw [ha, hx]
  exact le_rfl

theorem holders_eq_zero (h : ∀ p a, m.lookup (p, j) = some a → a.execution.covers i = false) :
    holders m j i = 0 := by
  refine StorageMap.sum_eq_zero fun k a ha => if_neg ?_
  rintro ⟨rfl, hc⟩
  rw [h k.1 a ha] at hc
  cases hc

theorem holders_insert_le (m : StorageMap (A × JobId A) Assignment) (p : A) (j j' : JobId A)
    (a : Assignment) (i : ℕ) : holders (m.insert (p, j) a) j' i ≤
      holders m j' i + if j' = j ∧ a.execution.covers i = true then 1 else 0 := by
  have hs := StorageMap.sum_insert m
    (fun k a => if k.2 = j' ∧ a.execution.covers i = true then 1 else 0) (p, j) a
  simp only [eq_comm (a := j) (b := j')] at hs
  unfold holders
  omega

end Holders

section Assigns

variable {good : Book A → Deed A → Prop} {ex : ExecutionSpecifier} {n : ℕ}

theorem Assigns.holders_le (h : Assigns T good j reg ex b n b') (j' : JobId A) (i : ℕ) :
    holders b'.assignments j' i ≤
      holders b.assignments j' i + if j' = j ∧ ex.covers i = true then n else 0 := by
  induction h with
  | none => exact Nat.le_add_right _ _
  | @more n b₁ p a hb ha _ ih =>
    have hn := holders_insert_le b₁.assignments p j j' a i
    rw [ha.execution_eq] at hn
    refine hn.trans ?_
    split_ifs at ih ⊢ <;> omega

theorem Assigns.lookup_assignments (h : Assigns T good j reg ex b n b') {p' : A}
    {j' : JobId A} (ha' : b'.assignments.lookup (p', j') = some a') :
    b.assignments.lookup (p', j') = some a' ∨
      j' = j ∧ ∃ b₁, Assignable T b₁ j reg ex p' a' := by
  induction h with
  | none => exact .inl ha'
  | more hb ha _ ih =>
    simp only [Book.assign, lookup_insert_eq, Prod.mk.injEq] at ha'
    split_ifs at ha' with hk
    · obtain rfl := Option.some.inj ha'
      exact .inr ⟨hk.2, _, hk.1 ▸ ha⟩
    · exact ih ha'

theorem Assigns.allowed (h : Assigns T Fitting j reg ex b n b') (hn : 0 < n)
    (hf : b.registrations.lookup j = some reg) :
    reg.extra.assignmentStrategy.allows ex = true := by
  cases h with
  | none => cases hn
  | more hb _ ho =>
    rw [← hb.fixed.1] at hf
    exact ho reg hf

end Assigns

theorem Orderly.keep (hb : Orderly T b) (hn : Indexed T b')
    (hre : ∀ j reg', b'.registrations.lookup j = some reg' →
      ∃ reg, b.registrations.lookup j = some reg ∧
        reg'.extra = reg.extra ∧ ∀ i, b'.executionOpen j i → b.executionOpen j i)
    (hk : Kept b.assignments b'.assignments) : Orderly T b' := by
  refine ⟨hn, fun p j a' reg' ha' hr' => ?_, fun j reg' hr' i => ?_, fun j reg' hr' ho i hp => ?_⟩
  · obtain ⟨reg, hr, hx, -⟩ := hre j reg' hr'
    obtain ⟨a, ha, hc⟩ := hk (p, j) a' ha'
    rw [hx, hc]
    exact hb.allowed p j a reg ha hr
  · obtain ⟨reg, hr, hx, -⟩ := hre j reg' hr'
    rw [hx]
    exact (hk.holders_le j i).trans (hb.slots j reg hr i)
  · obtain ⟨reg, hr, hx, hexe⟩ := hre j reg' hr'
    rw [hx] at ho
    have hz := hb.idle j reg hr ho i (hexe i hp)
    exact Nat.eq_zero_of_le_zero (hz ▸ hk.holders_le j i)

theorem Orderly.same (hb : Orderly T b) (hn : Indexed T b')
    (hre : b'.registrations = b.registrations)
    (hx : ∀ j i, b'.executionOpen j i → b.executionOpen j i)
    (hk : Kept b.assignments b'.assignments) : Orderly T b' := by
  refine hb.keep hn (fun j reg hr => ?_) hk
  rw [hre] at hr
  exact ⟨reg, hr, rfl, hx j⟩

theorem Orderly.assigned {n : ℕ} {ex : ExecutionSpecifier} {b₁ : Book A} (hb : Orderly T b)
    (hn : Indexed T b₁) (hf : b.registrations.lookup j = some reg)
    (hsl : n = reg.extra.slots)
    (hal : reg.extra.assignmentStrategy.allows ex = true)
    (hs : Assigns T Fitting j reg ex b n b')
    (hre : b₁.registrations = b.registrations)
    (has : b₁.assignments = b'.assignments)
    (ho : ∀ i, ex.covers i = true → holders b.assignments j i = 0)
    (hp : ∀ j' i, b₁.executionOpen j' i → b.executionOpen j' i ∧
      (j' = j → ex.covers i = true → reg.extra.assignmentStrategy ≠ .competing)) :
    Orderly T b₁ := by
  subst hsl
  have hl := hs.holders_le
  rw [← has] at hl
  refine ⟨hn, fun p j' a r ha hr => ?_, fun j' r hr i => ?_, fun j' r hr hc i hd => ?_⟩
  · rw [hre] at hr
    rw [has] at ha
    rcases hs.lookup_assignments ha with hbe | ⟨rfl, _, hassi⟩
    · exact hb.allowed p j' a r hbe hr
    · obtain rfl := Option.mem_unique hf hr
      rw [hassi.execution_eq]
      exact hal
  · rw [hre] at hr
    specialize hl j' i
    by_cases hk : j' = j ∧ ex.covers i = true
    · obtain ⟨rfl, hi⟩ := hk
      obtain rfl := Option.mem_unique hf hr
      rwa [if_pos ⟨rfl, hi⟩, ho i hi, Nat.zero_add] at hl
    · rw [if_neg hk] at hl
      exact hl.trans (hb.slots j' r hr i)
  · rw [hre] at hr
    obtain ⟨hbe, ht⟩ := hp j' i hd
    have hk : ¬ (j' = j ∧ ex.covers i = true) := by
      rintro ⟨rfl, hi⟩
      obtain rfl := Option.mem_unique hf hr
      exact ht rfl hi hc
    specialize hl j' i
    rw [if_neg hk, Nat.add_zero, hb.idle j' r hr hc i hbe] at hl
    exact Nat.eq_zero_of_le_zero hl

theorem Orderly.reopen {i : ℕ} (hb : Orderly T b)
    (hcl : ∀ p a, b.assignments.lookup (p, j) = some a → a.execution = .index i →
      b.processors.lookup (j, p) = none) :
    Orderly T { b with executionStatus := b.executionStatus.erase (j, i) } := by
  refine ⟨hb.indexed.congr rfl rfl rfl rfl, hb.allowed, hb.slots, fun j' reg hr hc i' hd => ?_⟩
  by_cases hk : (j', i') = (j, i)
  · obtain ⟨rfl, rfl⟩ := Prod.mk.inj hk
    refine holders_eq_zero fun p a ha => ?_
    have hl := hb.allowed p j' a reg ha hr
    rw [hc] at hl
    cases hx : a.execution with
    | all =>
      rw [hx] at hl
      cases hl
    | index n =>
      refine decide_eq_false ?_
      rintro rfl
      rw [hb.indexed.not_assigned (hcl p a ha hx)] at ha
      cases ha
  · refine hb.idle j' reg hr hc i' ?_
    unfold Book.executionOpen StorageMap.getD at hd ⊢
    rwa [lookup_erase_eq, if_neg hk] at hd

theorem Orderly.register {st : StorageMap (JobId A) JobStatus} (hb : Orderly T b)
    (hin : Indexed T (b.register j reg st))
    (hf : ∀ p, b.assignments.lookup (p, j) = none) :
    Orderly T (b.register j reg st) := by
  have hn : ∀ i, holders b.assignments j i = 0 := by
    intro i
    refine holders_eq_zero fun p a ha => ?_
    rw [hf p] at ha
    cases ha
  have ho : ∀ j' r, j' ≠ j → (b.registrations.insert j reg).lookup j' = some r →
      b.registrations.lookup j' = some r := by
    intro j' r hj hr
    rwa [lookup_insert_eq, if_neg hj] at hr
  refine ⟨hin, fun p j' a r ha hr => ?_, fun j' r hr i => ?_, fun j' r hr hc i hd => ?_⟩
  · have hj : j' ≠ j := by
      rintro rfl
      exact Option.some_ne_none a (ha.symm.trans (hf p))
    exact hb.allowed p j' a r ha (ho j' r hj hr)
  · by_cases hj : j' = j
    · subst hj
      exact (hn i).le.trans (Nat.zero_le _)
    · exact hb.slots j' r (ho j' r hj hr) i
  · by_cases hj : j' = j
    · subst hj
      exact hn i
    · exact hb.idle j' r (ho j' r hj hr) hc i hd

theorem Orderly.matchAll (hb : Orderly T b) (hf : b.registrations.lookup j = some reg)
    (h : MatchesAll T Fitting j reg b b') : Orderly T b' := by
  have hn := h.indexed hb.indexed hf
  cases h with
  | intro his hs has =>
    have hp := (hb.indexed.registrable j reg hf).slots
    obtain rfl := hs hp
    have hl := has.allowed hp hf
    obtain ⟨hr, -, hx, -⟩ := has.fixed
    refine hb.assigned hn hf rfl hl has hr rfl (fun i _ => ?_)
      (fun j' i ho => ⟨?_, fun _ _ hc => ?_⟩)
    · refine holders_eq_zero fun p a ha => ?_
      rw [hb.indexed.opened p j his] at ha
      cases ha
    · unfold Book.executionOpen at ho ⊢
      rwa [← hx]
    · rw [hc] at hl
      cases hl

theorem Reports.execution_eq {exp reported : ℕ}
    (h : Reports b p j reg a a' exp reported) : a'.execution = a.execution := by
  rw [h.counted]

theorem Deal.orderly (h : Deal T Fitting b b') (hb : Orderly T b) : Orderly T b' := by
  have hin := h.indexed hb.indexed
  cases h with
  | tick => exact hb.same hin rfl (fun _ _ => id) (.refl _)
  | revise hf sched hext =>
    refine hb.keep hin (fun j' r hr => ?_) (.refl _)
    simp only [lookup_insert_eq] at hr
    split_ifs at hr with hj
    · rw [hj, ← Option.some.inj hr]
      exact ⟨_, hf, hext, fun _ => id⟩
    · exact ⟨r, hr, rfl, fun _ => id⟩
  | register registrable his hope ho hins =>
    have hfr := hb.indexed.free his
    have hg := hb.register (hb.indexed.register registrable hfr ⟨_, hope⟩ ho) hfr
    rcases hins with rfl | hm
    · exact hg.same hin rfl (fun _ _ => id) (.refl _)
    · exact (hg.matchAll (AList.lookup_insert _) hm).same hin rfl (fun _ _ => id) (.refl _)
  | matchAll hf hm => exact hb.matchAll hf hm
  | @matchExecution _ _ reg _ i _ hf his hs hea hsl ha =>
    have hpo := (hb.indexed.registrable _ _ hf).slots
    obtain rfl := hsl hpo
    have hl := ha.allowed hpo hf
    have hco : reg.extra.assignmentStrategy = .competing := by
      cases hst : reg.extra.assignmentStrategy with
      | single instantMatch =>
        rw [hst] at hl
        cases hl
      | competing => rfl
    obtain ⟨hre, -, hx, -⟩ := ha.fixed
    refine hb.assigned hin hf rfl hl ha hre rfl (fun i' hi => ?_) (fun j' i' hop => ?_)
    · obtain rfl : i = i' := of_decide_eq_true hi
      exact hb.idle _ _ hf hco i his
    · unfold Book.executionOpen at hop ⊢
      rw [getD_insert] at hop
      split_ifs at hop with hk
      refine ⟨by rwa [← hx], fun hj hi _ => hk ?_⟩
      obtain rfl : i = i' := of_decide_eq_true hi
      rw [hj]
  | reopen hf hc hs due => exact hb.reopen hc
  | drop => exact hb.same hin rfl (fun _ _ => id) ((Kept.refl _).erase _)
  | rekey hf => exact hb.same hin rfl (fun _ _ => id) (.insert hf rfl)
  | acknowledge registered hf hu ht st hrep hn pay hp =>
    obtain ⟨hre, -, has, -, hx, -⟩ := pay.fixed
    obtain ⟨hr', ha', -⟩ := st.fixed
    refine hb.same hin (hre.trans hr') (fun j' i h => ?_) ?_
    · unfold Book.executionOpen at h
      rw [hx] at h
      exact st.executionOpen h
    · rw [has.trans ha']
      exact .insert hf rfl
  | report reps hn pay =>
    obtain ⟨hre, -, -, -, hx, -⟩ := pay.fixed
    refine hb.same hin hre (fun j' i h => ?_) (.insert reps.found reps.execution_eq)
    unfold Book.executionOpen at h ⊢
    rwa [← hx]
  | reportLast reps hn pay =>
    obtain ⟨hre, -, -, -, hx, -⟩ := pay.fixed
    refine hb.same hin hre (fun j' i h => ?_) ((Kept.insert reps.found reps.execution_eq).erase _)
    unfold Book.executionOpen at h ⊢
    rwa [← hx]
  | release fair registered pay hp =>
    obtain ⟨hre, -, has, -, hx, -⟩ := pay.fixed
    refine hb.same hin hre (fun j' i h => ?_) ?_
    · unfold Book.executionOpen at h ⊢
      rwa [← hx]
    · simp only [Book.unassign, has]
      exact (Kept.refl _).erase _
  | deregister hd hexe ho =>
    refine hb.keep hin (fun j' r hr => ?_) (.refl _)
    obtain ⟨hj, hr⟩ := of_lookup_erase hr
    refine ⟨r, hr, rfl, fun i hop => ?_⟩
    unfold Book.executionOpen StorageMap.getD at hop ⊢
    rwa [hexe (j', i) hj] at hop

theorem genesis_orderly (w : T.World) : Orderly T (State.genesis T w).book := by
  refine ⟨genesis_indexed w, ?_, ?_, ?_⟩
  · rintro p j a reg ⟨⟩
  · rintro j reg ⟨⟩
  · rintro j reg ⟨⟩

/-- In every run whose matches are allowed by the strategies of their jobs, every assignment is, and no
execution is held by more processors than the job has slots. -/
theorem assignments_follow_strategy (T : Config A) (world : T.World) (ops : List (Op T))
    (hrun : Along step (Agreed Fitting) (State.genesis T world) ops) :
    (∀ p j a, (reached world ops).storedMatches.lookup (p, j) = some a →
      ∃ registration,
        (reached world ops).storedJobRegistration.lookup j = some registration ∧
        registration.extra.assignmentStrategy.allows a.execution = true) ∧
    ∀ j registration,
      (reached world ops).storedJobRegistration.lookup j = some registration →
      ∀ i, holders (reached world ops).storedMatches j i ≤
        registration.extra.slots := by
  have ho : Orderly T (reached world ops).book :=
    run_deals (fun _ _ => Deal.orderly) hrun (genesis_orderly world)
  refine ⟨fun p j a ha => ?_, ho.slots⟩
  obtain ⟨registration, hr⟩ := ho.indexed.registered p j a ha
  exact ⟨registration, hr, ho.allowed p j a registration ha hr⟩

def bothStrategies : List (Op mock) :=
  [signed 1 (.register (plainJob atThousand (.single none) 10) none),
    signed 1 (.register (plainJob (onceAt 2000) .competing 10) none),
    advertised 2, advertised 3, proposed 1 2 0, proposedExecution 2 0 3 0]

theorem assignments_follow_strategy_of_bothStrategies :
    (after bothStrategies).storedMatches.entries.length = 2 ∧
      ∀ j registration, (after bothStrategies).storedJobRegistration.lookup j = some registration →
        ∀ i, holders (after bothStrategies).storedMatches j i ≤ registration.extra.slots :=
  ⟨by decide +kernel,
    (assignments_follow_strategy mock (1 : ℕ) bothStrategies (by decide +kernel)).2⟩

def mixedMatches : List (Op mock) :=
  [signed 1 (.register (plainJob atThousand .competing 10) none),
    advertised 2, advertised 3, proposed 1 2 0, proposedExecution 1 0 3 0]

theorem strategy_ignored_of_mixedMatches :
    ((after mixedMatches).storedJobRegistration.lookup (mockJob 1)).map
        (fun registration => (registration.extra.assignmentStrategy, registration.extra.slots)) =
      some (.competing, 1) ∧
    ((after mixedMatches).storedMatches.lookup (2, mockJob 1)).map (·.execution) = some .all ∧
    holders (after mixedMatches).storedMatches (mockJob 1) 0 = 2 := by
  decide +kernel

end Acurast.Marketplace

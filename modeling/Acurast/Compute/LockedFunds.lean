import Acurast.Compute.DelegatorTotal

/-! The balance lock of an account is what it has at stake, as a committer and as a delegator. -/

namespace Acurast.Compute

open Base

theorem stakeAmount_insert {cm : Commitment} (h : s'.commitments = s.commitments.insert c cm)
    (c' : CommitmentId) :
    stakeAmount s' c' = if c' = c then cm.stake.elim 0 (·.amount) else stakeAmount s c' := by
  unfold stakeAmount
  rw [h]
  split_ifs with hc
  · rw [hc, AList.lookup_insert, Option.bind_some]
  · rw [AList.lookup_insert_ne hc]

theorem stakeAmount_of_lookup {cm : Commitment} (h : s.commitments.lookup c = some cm) :
    stakeAmount s c = cm.stake.elim 0 (·.amount) := by
  rw [stakeAmount, h, Option.bind_some]

theorem stakeAmount_insert_of_eq {cm cm' : Commitment} (hf : s.commitments.lookup c = some cm)
    (h : s'.commitments = s.commitments.insert c cm')
    (ha : cm'.stake.elim 0 (·.amount) = cm.stake.elim 0 (·.amount)) (c' : CommitmentId) :
    stakeAmount s' c' = stakeAmount s c' := by
  rw [stakeAmount_insert h]
  split_ifs with hc
  · rw [hc, ha, stakeAmount_of_lookup hf]
  · rfl

variable {A : Type} {T : Config A} {s s' : State T} {who : A} {c : CommitmentId}

theorem stakedBy_of_owner (h : T.commitmentIdFor s.world who = some c) :
    stakedBy s who = stakeAmount s c := by
  simp only [stakedBy, h, stakeAmount]

theorem stakedBy_congr {other : A}
    (hd : T.commitmentIdFor s'.world other = T.commitmentIdFor s.world other)
    (hs : ∀ c, T.commitmentIdFor s.world other = some c → stakeAmount s' c = stakeAmount s c) :
    stakedBy s' other = stakedBy s other := by
  cases hc : T.commitmentIdFor s.world other with
  | none => simp only [stakedBy, hd, hc]
  | some c => rw [stakedBy_of_owner (hd.trans hc), stakedBy_of_owner hc, hs c hc]

theorem stakes_of_owner {cm : Commitment} (hco : s'.commitments = s.commitments.insert c cm)
    (ho : T.commitmentIdFor s.world who = some c) (c' : CommitmentId) :
    stakeAmount s' c' = stakeAmount s c' ∨ T.commitmentIdFor s.world who = some c' := by
  by_cases hc : c' = c
  · exact .inr (hc ▸ ho)
  · exact .inl (by rw [stakeAmount_insert hco, if_neg hc])

variable [DecidableEq A]

/-- The balances and the commitment ids: a lock replaces the old one, and a lock of zero is none. An
account owns at most one id, which stays with it. No balance is the largest number of its type. -/
structure LockLaws (T : Config A) : Prop where
  setLock_self : ∀ w who n, T.balanceLocked (T.setLock w who n) who = n
  setLock_of_ne : ∀ w who n other, other ≠ who →
    T.balanceLocked (T.setLock w who n) other = T.balanceLocked w other
  removeLock_self : ∀ w who, T.balanceLocked (T.removeLock w who) who = 0
  removeLock_of_ne : ∀ w who other, other ≠ who →
    T.balanceLocked (T.removeLock w who) other = T.balanceLocked w other
  setLock_ids : ∀ w who n, T.commitmentIdFor (T.setLock w who n) = T.commitmentIdFor w
  removeLock_ids : ∀ w who, T.commitmentIdFor (T.removeLock w who) = T.commitmentIdFor w
  trade : ∀ w w', Trade T w w' → LeavesLocks T w w'
  owner : ∀ w who c, T.ownerFor w c = some who ↔ T.commitmentIdFor w who = some c
  create_locks : ∀ w c who w', T.createCommitmentId w c who = some w' →
    T.balanceLocked w' = T.balanceLocked w
  create_free : ∀ w c who w' other, T.createCommitmentId w c who = some w' →
    T.commitmentIdFor w other ≠ some c
  create_ids : ∀ w c who w' other, T.createCommitmentId w c who = some w' →
    T.commitmentIdFor w' other = if other = who then some c else T.commitmentIdFor w other
  totalBalance_lt : ∀ w who, T.totalBalance w who < maxOf 128

/-- The lock of every account is what it has at stake, and a commitment that nobody owns has no
stake. -/
structure Locked (s : State T) : Prop where
  lock : ∀ who, T.balanceLocked s.world who = obligations s who
  owned : ∀ c, (∀ who, T.commitmentIdFor s.world who ≠ some c) → stakeAmount s c = 0

structure SameLocks (s s' : State T) : Prop where
  leaves : LeavesLocks T s.world s'.world
  delegatorTotal : s'.delegatorTotal = s.delegatorTotal
  stakes : ∀ c, stakeAmount s' c = stakeAmount s c

theorem Locked.of_same (hs : Locked s) (h : SameLocks s s') : Locked s' := by
  have hd := h.leaves.commitmentIdFor
  refine ⟨fun who => ?_, fun c hf => ?_⟩
  · have ht := stakedBy_congr (congrFun hd who) fun c _ => h.stakes c
    rw [h.leaves.balanceLocked, hs.lock, obligations, obligations, ht, h.delegatorTotal]
  · rw [h.stakes]
    exact hs.owned c fun who => hd ▸ hf who

structure Touches (who : A) (s s' : State T) : Prop where
  ids : T.commitmentIdFor s'.world = T.commitmentIdFor s.world
  locks : ∀ other, other ≠ who → T.balanceLocked s'.world other = T.balanceLocked s.world other
  totals : ∀ other, other ≠ who →
    StorageMap.getD s'.delegatorTotal other 0 = StorageMap.getD s.delegatorTotal other 0
  stakes : ∀ c, stakeAmount s' c = stakeAmount s c ∨ T.commitmentIdFor s.world who = some c

theorem LockLaws.unique (hl : LockLaws T) {w : T.World} {other : A}
    (h : T.commitmentIdFor w who = some c) (h' : T.commitmentIdFor w other = some c) :
    other = who := by
  rw [← hl.owner] at h h'
  exact Option.mem_unique h' h

theorem Touches.locked (h : Touches who s s') (hl : LockLaws T) (hs : Locked s)
    (hw : T.balanceLocked s'.world who = obligations s' who) : Locked s' := by
  refine ⟨fun other => ?_, fun c hf => ?_⟩
  · by_cases ho : other = who
    · rw [ho, hw]
    · have ht : stakedBy s' other = stakedBy s other := by
        refine stakedBy_congr (congrFun h.ids other) fun c hc => ?_
        exact (h.stakes c).resolve_right fun how => ho (hl.unique how hc)
      rw [h.locks other ho, hs.lock, obligations, obligations, ht, h.totals other ho]
  · have hf' : ∀ other, T.commitmentIdFor s.world other ≠ some c := h.ids ▸ hf
    rw [(h.stakes c).resolve_right (hf' who)]
    exact hs.owned c hf'

theorem LockLaws.trades (hla : LockLaws T) {w w' : T.World} (h : Trades T w w') :
    LeavesLocks T w w' := by
  induction h with
  | refl => exact ⟨rfl, rfl, rfl⟩
  | tail _ ha ih =>
    have hl := hla.trade _ _ ha
    exact ⟨hl.balanceLocked.trans ih.balanceLocked,
      hl.commitmentIdFor.trans ih.commitmentIdFor, hl.ownerFor.trans ih.ownerFor⟩

theorem Owns.commitmentIdFor (h : Owns T s.world who c) (hl : LockLaws T) :
    T.commitmentIdFor s.world who = some c := by
  obtain ⟨w₀, ht, ho⟩ := h
  rw [(hl.trades ht).commitmentIdFor]
  exact ho.elim id (hl.owner w₀ who c).mp

theorem newLockTotal_staking {amount : ℕ} (hl : LockLaws T)
    (hc : Covers s who amount .staking) :
    newLockTotal s who amount .staking = StorageMap.getD s.delegatorTotal who 0 + amount := by
  have ht := Nat.lt_of_le_of_lt hc (hl.totalBalance_lt s.world who)
  exact saturatingAdd_eq_of_lt ht

theorem newLockTotal_delegation {amount : ℕ} (hl : LockLaws T)
    (hc : Covers s who amount (.delegation c)) :
    newLockTotal s who amount (.delegation c) = StorageMap.getD s.delegatorTotal who 0 -
      (s.delegations.lookup (who, c)).elim 0 (·.stake.amount) + stakedBy s who + amount := by
  have ht := Nat.lt_of_le_of_lt hc (hl.totalBalance_lt s.world who)
  simp only [newLockTotal] at ht ⊢
  have ho := saturatingAdd_eq_of_lt ht
  rw [ho] at ht
  rw [ho, saturatingAdd_eq_of_lt (Nat.lt_of_le_of_lt (Nat.le_add_right _ _) ht)]

theorem unlockFunds_balanceLocked (hl : LockLaws T) (amount : ℕ) :
    T.balanceLocked (unlockFunds s who amount).world who = T.balanceLocked s.world who - amount := by
  simp only [unlockFunds]
  split_ifs with hz
  · rw [hl.removeLock_self, hz]
  · exact hl.setLock_self _ _ _

theorem unlockFunds_of_ne (hl : LockLaws T) (x : ℕ) {other : A} (ho : other ≠ who) :
    T.balanceLocked (unlockFunds s who x).world other = T.balanceLocked s.world other := by
  simp only [unlockFunds]
  split_ifs
  · exact hl.removeLock_of_ne _ _ _ ho
  · exact hl.setLock_of_ne _ _ _ _ ho

theorem unlockFunds_ids (hl : LockLaws T) (x : ℕ) :
    T.commitmentIdFor (unlockFunds s who x).world = T.commitmentIdFor s.world := by
  simp only [unlockFunds]
  split_ifs
  · exact hl.removeLock_ids _ _
  · exact hl.setLock_ids _ _ _

omit [DecidableEq A] in
theorem SameLocks.of_insert {cm cm' : Commitment} (hf : s.commitments.lookup c = some cm)
    (hc : s'.commitments = s.commitments.insert c cm')
    (ha : cm'.stake.elim 0 (·.amount) = cm.stake.elim 0 (·.amount))
    (hw : s'.world = s.world) (ht : s'.delegatorTotal = s.delegatorTotal) :
    SameLocks s s' :=
  ⟨by rw [hw]; exact ⟨rfl, rfl, rfl⟩, ht, stakeAmount_insert_of_eq hf hc ha⟩

theorem Touches.of_setLock {n : ℕ} (hl : LockLaws T) (hw : s'.world = T.setLock s.world who n)
    (ht : ∀ other, other ≠ who →
      StorageMap.getD s'.delegatorTotal other 0 = StorageMap.getD s.delegatorTotal other 0)
    (hs : ∀ c, stakeAmount s' c = stakeAmount s c ∨ T.commitmentIdFor s.world who = some c) :
    Touches who s s' := by
  refine ⟨?_, fun other ho => ?_, ht, hs⟩
  · rw [hw, hl.setLock_ids]
  · rw [hw, hl.setLock_of_ne _ _ _ _ ho]

theorem Touches.of_unlockFunds {n : ℕ} (hl : LockLaws T)
    (hw : s'.world = (unlockFunds s who n).world)
    (ht : ∀ other, other ≠ who →
      StorageMap.getD s'.delegatorTotal other 0 = StorageMap.getD s.delegatorTotal other 0)
    (hs : ∀ c, stakeAmount s' c = stakeAmount s c ∨ T.commitmentIdFor s.world who = some c) :
    Touches who s s' := by
  refine ⟨?_, fun other ho => ?_, ht, hs⟩
  · rw [hw, unlockFunds_ids hl]
  · rw [hw, unlockFunds_of_ne hl _ ho]

theorem Locked.setStake {cm : Commitment} {st : Stake} (hs : Locked s) (hl : LockLaws T)
    (ho : T.commitmentIdFor s.world who = some c) (ha : cm.stake = some st)
    (locks : Covers s who st.amount .staking)
    (hc : s'.commitments = s.commitments.insert c cm)
    (ht : s'.delegatorTotal = s.delegatorTotal)
    (hw : s'.world = T.setLock s.world who (newLockTotal s who st.amount .staking)) :
    Locked s' := by
  have hto : Touches who s s' := .of_setLock hl hw (fun _ _ => by rw [ht]) (stakes_of_owner hc ho)
  have hst : stakedBy s' who = st.amount := by
    rw [stakedBy_of_owner ((congrFun hto.ids who).trans ho), stakeAmount_insert hc,
      if_pos rfl, ha, Option.elim_some]
  refine hto.locked hl hs ?_
  rw [hw, hl.setLock_self, newLockTotal_staking hl locks, obligations, hst, ht, Nat.add_comm]

theorem Locked.setDelegation {cm cm' : Commitment} {d : Delegation} {total : ℕ} (hs : Locked s)
    (hl : LockLaws T) (hf : s.commitments.lookup c = some cm) (hsa : SameStake cm cm')
    (locks : Covers s who d.stake.amount (.delegation c))
    (hc : s'.commitments = s.commitments.insert c cm')
    (ht : s'.delegatorTotal = s.delegatorTotal.insert who total)
    (hw : s'.world = T.setLock s.world who (newLockTotal s who d.stake.amount (.delegation c)))
    (htotal_eq : total = StorageMap.getD s.delegatorTotal who 0 -
      (s.delegations.lookup (who, c)).elim 0 (·.stake.amount) + d.stake.amount) :
    Locked s' := by
  have hst := stakeAmount_insert_of_eq hf hc (by rw [hsa.stake])
  have ho : Touches who s s' := by
    refine .of_setLock hl hw (fun other hot => ?_) fun c' => .inl (hst c')
    rw [ht, getD_insert, if_neg hot]
  have ha := stakedBy_congr (congrFun ho.ids who) fun c' _ => hst c'
  refine ho.locked hl hs ?_
  rw [hw, hl.setLock_self, newLockTotal_delegation hl locks, obligations, ha, ht, getD_insert,
    if_pos rfl, htotal_eq]
  omega

theorem Locked.create {w : T.World} (hs : Locked s) (hl : LockLaws T)
    (hf : T.commitmentIdFor s.world who = none)
    (hc : T.createCommitmentId s.world c who = some w) (hco : s'.commitments = s.commitments)
    (hto : s'.delegatorTotal = s.delegatorTotal) (hw : s'.world = w) : Locked s' := by
  have hd : ∀ other, T.commitmentIdFor s'.world other =
      if other = who then some c else T.commitmentIdFor s.world other := fun other =>
    hw ▸ hl.create_ids _ _ _ _ other hc
  have ht : ∀ c, stakeAmount s' c = stakeAmount s c := fun c => by
    rw [stakeAmount, hco, stakeAmount]
  have hn : stakeAmount s c = 0 := hs.owned c fun other => hl.create_free _ _ _ _ other hc
  refine ⟨fun other => ?_, fun c' hno => ?_⟩
  · have ha : stakedBy s' other = stakedBy s other := by
      by_cases ho : other = who
      · subst ho
        rw [stakedBy_of_owner ((hd other).trans (if_pos rfl)), ht, hn, stakedBy, hf]
      · exact stakedBy_congr ((hd other).trans (if_neg ho)) fun c' _ => ht c'
    rw [hw, hl.create_locks _ _ _ _ hc, hs.lock, obligations, obligations, ha, hto]
  · rw [ht]
    refine hs.owned c' fun other how => hno other ?_
    have ho : other ≠ who := fun h => by simp [h ▸ how] at hf
    rw [hd, if_neg ho, how]

theorem Locked.unstake {cm cm' : Commitment} {stake : Stake} (hs : Locked s) (hl : LockLaws T)
    (ho : T.commitmentIdFor s.world who = some c) (hf : s.commitments.lookup c = some cm)
    (ha : cm.stake = some stake) (hu : cm'.stake = none)
    (hc : s'.commitments = s.commitments.insert c cm')
    (ht : s'.delegatorTotal = s.delegatorTotal)
    (hw : s'.world = (unlockFunds s who stake.amount).world) : Locked s' := by
  have hto : Touches who s s' := .of_unlockFunds hl hw (fun _ _ => by rw [ht])
    (stakes_of_owner hc ho)
  have hst : stakedBy s who = stake.amount := by
    rw [stakedBy_of_owner ho, stakeAmount_of_lookup hf, ha, Option.elim_some]
  have hs' : stakedBy s' who = 0 := by
    rw [stakedBy_of_owner ((congrFun hto.ids who).trans ho), stakeAmount_insert hc,
      if_pos rfl, hu, Option.elim_none]
  refine hto.locked hl hs ?_
  rw [hw, unlockFunds_balanceLocked hl, hs.lock, obligations, obligations, hst, hs', ht]
  omega

theorem Locked.leave {cm cm' : Commitment} {amount : ℕ} (hs : Locked s) (hl : LockLaws T)
    (hf : s.commitments.lookup c = some cm) (hsa : SameStake cm cm')
    (hle : amount ≤ StorageMap.getD s.delegatorTotal who 0)
    (hc : s'.commitments = s.commitments.insert c cm')
    (ht : s'.delegatorTotal =
      s.delegatorTotal.insert who (StorageMap.getD s.delegatorTotal who 0 - amount))
    (hw : s'.world = (unlockFunds s who amount).world) : Locked s' := by
  have hst := stakeAmount_insert_of_eq hf hc (by rw [hsa.stake])
  have ho : Touches who s s' := by
    refine .of_unlockFunds hl hw (fun other hot => ?_) fun c' => .inl (hst c')
    rw [ht, getD_insert, if_neg hot]
  have ha := stakedBy_congr (congrFun ho.ids who) fun c' _ => hst c'
  refine ho.locked hl hs ?_
  rw [hw, unlockFunds_balanceLocked hl, hs.lock, obligations, obligations, ha, ht,
    getD_insert, if_pos rfl]
  omega

theorem Posting.locked (h : Posting (· ≠ .outside) s s') (hla : LockLaws T) (hto : Totalled s)
    (hs : Locked s) : Locked s' := by
  cases h with
  | rest hled =>
    refine hs.of_same ⟨hla.trades hled.world, hled.delegatorTotal, fun c => ?_⟩
    rw [stakeAmount, hled.commitments, stakeAmount]
  | outside ha =>
    exact hs.of_same ⟨ha.resolve_right (by simp), rfl, fun _ => rfl⟩
  | create free hc => exact hs.create hla free hc rfl rfl rfl
  | idle hf hu => exact hs.of_same (.of_insert hf rfl rfl rfl rfl)
  | keep hf hk hamo hra =>
    refine hs.of_same (.of_insert hf rfl ?_ rfl rfl)
    rw [hk.staked', hk.staked, Option.elim_some, Option.elim_some, hamo]
  | restake hf hk hp owns hl =>
    exact hs.setStake hla (owns.commitmentIdFor hla) hk.staked' hl rfl rfl rfl
  | stake hsta hc htot hcoo cooldownPeriod ho owns hl =>
    rw [hla.setLock_ids] at owns
    exact hs.setStake hla owns hsta.stake_eq hl rfl rfl rfl
  | unstake hf hst hu hp started hn owns hun =>
    exact hs.unstake hla (owns.commitmentIdFor hla) hf hst hu rfl rfl rfl
  | settle hd hse => exact hs.of_same ⟨⟨rfl, rfl, rfl⟩, rfl, fun _ => rfl⟩
  | lower hf hd hr same hlo hco hl =>
    refine hs.setDelegation hla hf same hl rfl rfl rfl ?_
    have hle := hto.amount_le hd
    have ham := hr.amount
    rw [hd, Option.elim_some]
    omega
  | cool hf hd hr same hst live hfo =>
    exact hs.of_same (.of_insert hf rfl (by rw [same.stake]) rfl rfl)
  | leave hf hd same left hco => exact hs.leave hla hf same hco rfl rfl rfl
  | join hf hst hac free hc hre hset same ht hsm fits hl hj =>
    refine hs.setDelegation hla hf same hl rfl rfl rfl ?_
    rw [free, Option.elim_none, Nat.sub_zero]

theorem Postings.locked (h : Postings (· ≠ .outside) s s') (hl : LockLaws T) (ht : Totalled s)
    (hs : Locked s) : Locked s' := by
  have hk : ∀ s s' : State T, Posting (· ≠ .outside) s s' → Totalled s ∧ Locked s →
      Totalled s' ∧ Locked s' := by
    intro s s' hp hb
    exact ⟨hp.totalled hb.1, hp.locked hl hb.1 hb.2⟩
  exact (h.invariant hk ⟨ht, hs⟩).2

def LeavesLocked (s : State T) : Op T → Prop
  | .outside w => LeavesLocks T s.world w
  | _ => True

theorem step_postings_inside (s : State T) (op : Op T) (hs : Regular s) (hl : LeavesLocked s op) :
    Postings (· ≠ .outside) s (step s op) := by
  apply step_postings s op hs
  refine ⟨.inr (by simp), fun _ => .inr (by simp), .inr (by simp), fun w hw => .inl ?_,
    fun _ _ => by simp, .inr (by simp), .inr (by simp)⟩
  subst hw
  exact hl

theorem genesis_locked (w : T.World) (hw : ∀ who, T.balanceLocked w who = 0) :
    Locked (State.genesis T w) := by
  have hs : ∀ c, stakeAmount (State.genesis T w) c = 0 := fun _ => rfl
  refine ⟨fun who => ?_, fun c _ => hs c⟩
  have ht : stakedBy (State.genesis T w) who = 0 := by
    cases hc : T.commitmentIdFor w who with
    | none => simp only [stakedBy, State.genesis, hc]
    | some c => rw [stakedBy_of_owner hc, hs]
  rw [obligations, ht]
  exact hw who

/-- In every reachable state the lock of every account is its own stake and its delegations. -/
theorem balanceLocked_eq_obligations (hlaws : LockLaws T) (w : T.World)
    (hw : ∀ who, T.balanceLocked w who = 0) (ops : List (Op T))
    (houtside : Along step LeavesLocked (State.genesis T w) ops) (who : A) :
    T.balanceLocked (reached w ops).world who =
      stakedBy (reached w ops) who +
        StorageMap.getD (reached w ops).delegatorTotal who 0 := by
  have hk : ∀ (s : State T) (op : Op T), LeavesLocked s op → Regular s ∧ Totalled s ∧ Locked s →
      Regular (step s op) ∧ Totalled (step s op) ∧ Locked (step s op) := by
    rintro s op hl ⟨hr, ht, ho⟩
    have hp := step_postings_inside s op hr hl
    exact ⟨hp.regular hr, hp.totalled ht, hp.locked hlaws ht ho⟩
  have hn := run_invariant hk houtside ⟨genesis_regular T w, fun _ => rfl, genesis_locked w hw⟩
  exact hn.2.2.lock who

def locking : Config ℕ :=
  { mock with
    World := Option (ℕ × CommitmentId) × (ℕ → ℕ)
    managerIdFor := fun _ who => if who = 1 then some 1 else none
    commitmentIdFor := fun w who => w.1.bind fun owner => if owner.1 = who then some owner.2 else none
    ownerFor := fun w c => w.1.bind fun owner => if owner.2 = c then some owner.1 else none
    createCommitmentId := fun w c who => if w.1 = none then some (some (who, c), w.2) else none
    totalIssuance := fun _ => 10 ^ 21
    totalBalance := fun _ _ => 10 ^ 18
    freeBalance := fun _ _ => 10 ^ 18
    balanceLocked := fun w who => w.2 who
    setLock := fun w who n => (w.1, fun other => if other = who then n else w.2 other)
    removeLock := fun w who => (w.1, fun other => if other = who then 0 else w.2 other)
    transfer := fun w _ _ _ => some w
    withdraw := fun w _ amount => some (w, amount)
    slash := fun _ _ _ => none
    issue := fun w _ => w
    resolve := fun w _ _ => some w
    burn := fun w _ => w
    onUnbalanced := fun w _ => w
    author := fun _ => none }

theorem locking_owner (w : locking.World) (who : ℕ) (c : CommitmentId) :
    locking.commitmentIdFor w who = some c ↔ w.1 = some (who, c) := by
  simp only [locking, Option.bind_eq_some_iff, Option.ite_none_right_eq_some, Option.some.injEq]
  constructor
  · rintro ⟨⟨who', c'⟩, hw, rfl, rfl⟩
    exact hw
  · intro hw
    exact ⟨(who, c), hw, rfl, rfl⟩

theorem locking_trade {w w' : locking.World} (h : Trade locking w w') : w' = w := by
  cases h with
  | transfer h | resolve h => exact (Option.some.inj h).symm
  | withdraw h => exact (Prod.mk.inj (Option.some.inj h)).1.symm
  | slash h => cases h
  | issue | burn | onUnbalanced => rfl

theorem locking_create {w w' : locking.World} {c : CommitmentId} {who : ℕ}
    (h : locking.createCommitmentId w c who = some w') : w.1 = none ∧ w' = (some (who, c), w.2) := by
  by_cases hw : w.1 = none
  · exact ⟨hw, Option.mem_unique h (if_pos hw)⟩
  · exact absurd (h.symm.trans (if_neg hw)) (Option.some_ne_none w')

theorem locking_laws : LockLaws locking where
  setLock_self w who n := by simp [locking]
  setLock_of_ne w who n other ho := by simp [locking, ho]
  removeLock_self w who := by simp [locking]
  removeLock_of_ne w who other ho := by simp [locking, ho]
  setLock_ids w who n := rfl
  removeLock_ids w who := rfl
  trade w w' h := by
    rw [locking_trade h]
    exact ⟨rfl, rfl, rfl⟩
  owner w who c := by
    simp only [locking, Option.bind_eq_some_iff, Option.ite_none_right_eq_some, Option.some.injEq]
    exact exists_congr fun _ => and_congr_right' and_comm
  create_locks w c who w' h := by
    rw [(locking_create h).2]
    rfl
  create_free w c who w' other h := by
    rw [Ne, locking_owner, (locking_create h).1]
    exact (Option.some_ne_none _).symm
  create_ids w c who w' other h := by
    obtain ⟨hno, rfl⟩ := locking_create h
    by_cases ho : other = who
    · simp [locking, ho]
    · simp [locking, ho, hno, Ne.symm ho]
  totalBalance_lt w who := by
    show 10 ^ 18 < maxOf 128
    decide

def lockedSlash (n : ℕ) : List (Op locking) :=
  [newPool 0 100, signed 2 (.offerBacking 1), signed 1 (.acceptBackingOffer 2), .block, beat, .block,
    signed 2 stakeCall] ++ List.replicate n .block ++ [signed 5 (.slash 2)]

def slashedState (n : ℕ) : State locking :=
  run step (State.genesis locking (none, fun _ => 0)) (lockedSlash n)

theorem lockedSlash_leavesLocked (n : ℕ) :
    Along step LeavesLocked (State.genesis locking (none, fun _ => 0)) (lockedSlash n) := by
  have ho : ∀ op ∈ lockedSlash n, ∀ w, op ≠ .outside w := by
    simp [lockedSlash, newPool, signed, beat, or_imp, forall_and]
  refine (Along.of_mem ho).imp fun s op hp => ?_
  cases op with
  | outside w => exact absurd rfl (hp w)
  | dispatch | heartbeat | block => trivial

theorem balanceLocked_of_lockedSlash :
    (locking.balanceLocked (slashedState 50).world 2 = stakedBy (slashedState 50) 2 +
        StorageMap.getD (slashedState 50).delegatorTotal 2 0 ∧ 0 < stakedBy (slashedState 50) 2) ∧
      locking.balanceLocked (slashedState 100).world 2 = stakedBy (slashedState 100) 2 +
        StorageMap.getD (slashedState 100).delegatorTotal 2 0 ∧ stakedBy (slashedState 100) 2 = 0 := by
  have h : ∀ n, locking.balanceLocked (slashedState n).world 2 = stakedBy (slashedState n) 2 +
      StorageMap.getD (slashedState n).delegatorTotal 2 0 := fun n =>
    balanceLocked_eq_obligations locking_laws (none, fun _ => 0) (fun _ => rfl) (lockedSlash n)
      (lockedSlash_leavesLocked n) 2
  exact ⟨⟨h 50, by decide +kernel⟩, h 100, by decide +kernel⟩

end Acurast.Compute

import Mathlib.Logic.Relation
import Acurast.Base.Accrual
import Acurast.Compute.Types

/-! Weights and debts, the total stake, and the balances and locks the pallet acts on, each with
what a successful call leaves behind. -/

namespace Acurast.Compute

open Base

def asU128 (n : ℕ) : Result ℕ := okOr (if n < 2 ^ 128 then some n else none) .panicked

def checkedDivCeil (w n divisor : ℕ) : Option ℕ :=
  if divisor = 0 then none
  else do
    let sum ← checkedAdd w n divisor
    let adjusted ← checkedSub sum 1
    checkedDiv adjusted divisor

def floorOf (weight perWeight : ℕ) : Result ℕ := do
  let product ← okOr (checkedMul 256 weight perWeight) .calculationOverflow
  okOr (checkedDiv product perTokenDecimals) .calculationOverflow

def ceilOf (weight perWeight : ℕ) : Result ℕ := do
  let product ← okOr (checkedMul 256 weight perWeight) .calculationOverflow
  okOr (checkedDivCeil 256 product perTokenDecimals) .calculationOverflow

def rewardDebtOf (weight perWeight : ℕ) : Result ℕ := ceilOf weight perWeight >>= asU128

def slashDebtOf (weight perWeight : ℕ) : Result ℕ := floorOf weight perWeight >>= asU128

theorem perTokenDecimals_pos : 0 < perTokenDecimals := by decide

variable {n index amount amt : ℕ} {reason : LockReason}

theorem asU128_eq_ok {m : ℕ} : asU128 n = .ok m ↔ n = m ∧ n < 2 ^ 128 := by
  rw [asU128, okOr_eq_ok, Option.ite_none_right_eq_some, Option.some.injEq, and_comm]

theorem floorOf_ok {w : ℕ} (h : floorOf w index = .ok n) :
    n = w * index / perTokenDecimals := by
  simp only [floorOf, ok_iff, checkedMul_eq_some, checkedDiv_eq_some] at h
  obtain ⟨product, ⟨hp, -⟩, -, hn⟩ := h
  rw [← hn, ← hp]

theorem ceilOf_ok {w : ℕ} (h : ceilOf w index = .ok n) :
    n = Accrual.ceilDebt perTokenDecimals w index := by
  simp only [ceilOf, ok_iff, checkedMul_eq_some] at h
  obtain ⟨product, ⟨hp, -⟩, hn⟩ := h
  rw [checkedDivCeil, if_neg perTokenDecimals_pos.ne'] at hn
  simp only [Option.bind_eq_bind, Option.bind_eq_some_iff, checkedAdd_eq_some, checkedSub_eq_some,
    checkedDiv_eq_some] at hn
  obtain ⟨sum, ⟨hs, -⟩, adjusted, ⟨-, ha⟩, -, hq⟩ := hn
  rw [← hq, ← ha, ← hs, ← hp, Accrual.ceilDebt]

theorem rewardDebtOf_ok {w : ℕ} (h : rewardDebtOf w index = .ok n) :
    n = Accrual.ceilDebt perTokenDecimals w index := by
  simp only [rewardDebtOf, bind_eq_ok, asU128_eq_ok] at h
  obtain ⟨m, hm, rfl, -⟩ := h
  exact ceilOf_ok hm

theorem slashDebtOf_ok {w : ℕ} (h : slashDebtOf w index = .ok n) :
    n = w * index / perTokenDecimals := by
  simp only [slashDebtOf, bind_eq_ok, asU128_eq_ok] at h
  obtain ⟨m, hm, rfl, -⟩ := h
  exact floorOf_ok hm

variable {A : Type} {T : Config A}

def weightOf (T : Config A) (amount cooldownPeriod : ℕ) : Result ℕ := do
  let product ← okOr (checkedMul 256 amount cooldownPeriod) .calculationOverflow
  okOr (checkedDiv product T.maxCooldownPeriod) .calculationOverflow

inductive Trade (T : Config A) : T.World → T.World → Prop
  | transfer {w w' : T.World} {a b : A} {n : ℕ} (h : T.transfer w a b n = some w') : Trade T w w'
  | withdraw {w w' : T.World} {a : A} {n m : ℕ} (h : T.withdraw w a n = some (w', m)) : Trade T w w'
  | slash {w w' : T.World} {a : A} {n m : ℕ} (h : T.slash w a n = some (w', m)) : Trade T w w'
  | issue {w : T.World} {n : ℕ} : Trade T w (T.issue w n)
  | resolve {w w' : T.World} {a : A} {n : ℕ} (h : T.resolve w a n = some w') : Trade T w w'
  | burn {w : T.World} {n : ℕ} : Trade T w (T.burn w n)
  | onUnbalanced {w : T.World} {n : ℕ} : Trade T w (T.onUnbalanced w n)

abbrev Trades (T : Config A) : T.World → T.World → Prop := Relation.ReflTransGen (Trade T)

def State.log (s : State T) (e : Entry A) : State T := { s with history := e :: s.history }

def updateTotalStake (s : State T) (change : StakeChange) : Result (State T) :=
  match change with
  | .add amount => do
    let total ← okOr (checkedAdd 128 s.totalStake amount) .calculationOverflow
    pure { s with totalStake := total }
  | .sub amount => do
    let total ← okOr (checkedSub s.totalStake amount) .calculationOverflow
    pure { s with totalStake := total }

def unlockFunds (s : State T) (who : A) (amount : ℕ) : State T :=
  let newTotalStake := T.balanceLocked s.world who - amount
  { s with
    world := if newTotalStake = 0 then T.removeLock s.world who
      else T.setLock s.world who newTotalStake }

def slashFor (s : State T) (who : A) (toSlash : ℕ) : Result (State T × ℕ) :=
  if toSlash = 0 then pure (s, 0)
  else do
    let (w, credit) ← okOr (T.withdraw s.world who toSlash) .internalError
    if toSlash ≤ credit then pure ({ s with world := w }, credit)
    else do
      let remaining := toSlash - credit
      let (w, external) ← okOr (T.slash w who remaining) .internalError
      ensure (remaining ≤ external) .internalError
      pure ({ s with world := w }, credit + external)

def burnFrom (s : State T) (who : A) (amount : ℕ) : Result (State T) := do
  let (s, credit) ← slashFor s who amount
  pure { s with world := T.burn s.world credit }

def unlockAndSlash (s : State T) (who : A) (stake : Stake) : Result (State T) :=
  let s := unlockFunds s who stake.amount
  if stake.accruedSlash = 0 then pure s
  else
    let balance := T.freeBalance s.world who
    let maximumSlashable :=
      if stake.amount < stake.accruedSlash then stake.amount
      else if balance < stake.accruedSlash then balance
      else stake.accruedSlash
    burnFrom s who maximumSlashable

def transferReward (s : State T) (who : A) (reward : ℕ) : Result (State T) :=
  if reward = 0 then pure s
  else do
    let w ← okOr (T.transfer s.world T.palletAccount who reward) .internalError
    pure { s with world := w }

def payDelegator (s : State T) (who : A) (c : CommitmentId) (reward : ℕ) : Result (State T) := do
  let s ← transferReward s who reward
  pure (s.log (.paid who c reward))

variable {s s' : State T} {who : A} {c : CommitmentId}

theorem weightOf_ok {per weight : ℕ} (h : weightOf T amt per = .ok weight) :
    weight = amt * per / T.maxCooldownPeriod := by
  simp only [weightOf, ok_iff, checkedMul_eq_some, checkedDiv_eq_some] at h
  obtain ⟨product, ⟨hp, -⟩, -, hw⟩ := h
  rw [← hw, ← hp]

theorem updateTotalStake_add : updateTotalStake s (.add amt) = .ok s' ↔
    s.totalStake + amt < 2 ^ 128 ∧ s' = { s with totalStake := s.totalStake + amt } := by
  simp only [updateTotalStake, ok_iff, checkedAdd_eq_some]
  constructor
  · rintro ⟨total, ⟨rfl, hl⟩, rfl⟩
    exact ⟨hl, rfl⟩
  · rintro ⟨hl, rfl⟩
    exact ⟨_, ⟨rfl, hl⟩, rfl⟩

theorem updateTotalStake_sub : updateTotalStake s (.sub amt) = .ok s' ↔
    amt ≤ s.totalStake ∧ s' = { s with totalStake := s.totalStake - amt } := by
  simp only [updateTotalStake, ok_iff, checkedSub_eq_some]
  constructor
  · rintro ⟨total, ⟨hl, rfl⟩, rfl⟩
    exact ⟨hl, rfl⟩
  · rintro ⟨hl, rfl⟩
    exact ⟨_, ⟨hl, rfl⟩, rfl⟩

theorem slashFor_ok {toSlash credit : ℕ} (h : slashFor s who toSlash = .ok (s', credit)) :
    (∃ w, Trades T s.world w ∧ s' = { s with world := w }) ∧ toSlash ≤ credit := by
  unfold slashFor at h
  split_ifs at h with h0
  · simp only [pure_eq_ok, Prod.mk.injEq] at h
    exact ⟨⟨s.world, .refl, h.1.symm⟩, by omega⟩
  · simp only [ok_iff, Prod.exists] at h
    obtain ⟨w, taken, hw, h⟩ := h
    have hwi : Trades T s.world w := .single (.withdraw hw)
    split_ifs at h with h1
    · simp only [pure_eq_ok, Prod.mk.injEq] at h
      exact ⟨⟨w, hwi, h.1.symm⟩, by omega⟩
    · simp only [ok_iff, Prod.exists, Prod.mk.injEq] at h
      obtain ⟨w', external, hw', -, hl, rfl, rfl⟩ := h
      exact ⟨⟨w', hwi.tail (.slash hw'), rfl⟩, by omega⟩

theorem burnFrom_ok (h : burnFrom s who amt = .ok s') :
    ∃ w, Trades T s.world w ∧ s' = { s with world := w } := by
  simp only [burnFrom, ok_iff, Prod.exists] at h
  obtain ⟨s₁, credit, h₁, rfl⟩ := h
  obtain ⟨⟨w, hw, rfl⟩, -⟩ := slashFor_ok h₁
  exact ⟨_, hw.tail .burn, rfl⟩

theorem unlockAndSlash_ok {st : Stake} (h : unlockAndSlash s who st = .ok s') :
    ∃ w, Trades T (unlockFunds s who st.amount).world w ∧ s' = { s with world := w } := by
  simp only [unlockAndSlash] at h
  by_cases h0 : st.accruedSlash = 0
  · rw [if_pos h0, pure_eq_ok] at h
    exact ⟨_, .refl, h.symm⟩
  · rw [if_neg h0] at h
    obtain ⟨w, hw, rfl⟩ := burnFrom_ok h
    exact ⟨w, hw, rfl⟩

theorem transferReward_ok {r : ℕ} (h : transferReward s who r = .ok s') :
    ∃ w, Trades T s.world w ∧ s' = { s with world := w } := by
  unfold transferReward at h
  split_ifs at h
  · exact ⟨s.world, .refl, (pure_eq_ok.mp h).symm⟩
  · simp only [ok_iff] at h
    obtain ⟨w, hw, rfl⟩ := h
    exact ⟨w, .single (.transfer hw), rfl⟩

theorem payDelegator_ok {r : ℕ} (h : payDelegator s who c r = .ok s') : ∃ w,
    Trades T s.world w ∧ s' = { s with world := w, history := .paid who c r :: s.history } := by
  simp only [payDelegator, ok_iff] at h
  obtain ⟨s₁, h₁, rfl⟩ := h
  obtain ⟨w, hw, rfl⟩ := transferReward_ok h₁
  exact ⟨w, hw, rfl⟩

variable [DecidableEq A]

def stakedBy (s : State T) (who : A) : ℕ :=
  match T.commitmentIdFor s.world who with
  | some c => ((s.commitments.lookup c).bind (·.stake)).elim 0 (·.amount)
  | none => 0

def newLockTotal (s : State T) (who : A) (amount : ℕ) (reason : LockReason) : ℕ :=
  let delegatorTotal := StorageMap.getD s.delegatorTotal who 0
  match reason with
  | .staking => saturatingAdd 128 delegatorTotal amount
  | .delegation c =>
    let delegated := (s.delegations.lookup (who, c)).elim 0 (·.stake.amount)
    saturatingAdd 128 (saturatingAdd 128 (delegatorTotal - delegated) (stakedBy s who)) amount

/-- Locks the account's new total; reads the stored stakes, not the ones being changed. -/
def lockFunds (s : State T) (who : A) (amount : ℕ) (reason : LockReason) : Result (State T) := do
  let total := newLockTotal s who amount reason
  ensure (total ≤ T.totalBalance s.world who) .insufficientBalance
  pure { s with world := T.setLock s.world who total }

theorem lockFunds_ok (h : lockFunds s who amt reason = .ok s') :
    s' = { s with world := T.setLock s.world who (newLockTotal s who amt reason) } := by
  simp only [lockFunds, ok_iff] at h
  obtain ⟨-, -, rfl⟩ := h
  rfl

theorem lockFunds_covered (h : lockFunds s who amt reason = .ok s') :
    newLockTotal s who amt reason ≤ T.totalBalance s.world who := by
  simp only [lockFunds, ok_iff] at h
  obtain ⟨-, hl, -⟩ := h
  exact hl

end Acurast.Compute

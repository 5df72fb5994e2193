import Acurast.Marketplace.Types

/-! The rewards of the jobs: they are held on the pallet account, and a budget for every job says how
much of that is left for it. -/

namespace Acurast.Marketplace

open Base

variable {A : Type} [DecidableEq A] {T : Config A}

def State.budget (s : State T) (jobId : JobId A) : ℕ := StorageMap.getD s.jobBudgets jobId 0

def reserve (s : State T) (jobId : JobId A) (reward : ℕ) : Result (State T) := do
  let amount ← okOr (checkedAdd 128 (s.budget jobId) reward) .reserveFailed
  pure { s with jobBudgets := s.jobBudgets.insert jobId amount }

def unreserve (s : State T) (jobId : JobId A) (reward : ℕ) : Result (State T) := do
  ensure (reward ≤ s.budget jobId) .unreserveFailed
  pure { s with
    jobBudgets := s.jobBudgets.insert jobId (s.budget jobId - reward)
    history := .paid jobId reward :: s.history }

def unreserveRemaining (s : State T) (jobId : JobId A) : State T × ℕ :=
  ({ s with jobBudgets := s.jobBudgets.insert jobId 0 }, s.budget jobId)

def fundingAccount (T : Config A) (jobId : JobId A) : Result A :=
  match jobId.1 with
  | .acurast who => pure who
  | .tezos _ | .ethereum _ | .alephZero _ | .vara _ | .ethereum20 _ | .solana _ =>
    pure T.hyperdrivePalletAccount
  | .acurastCanary _ => throw .unexpectedMultiOrigin

def lockReward (s : State T) (jobId : JobId A) (reward : ℕ) : Result (State T) := do
  let account ← fundingAccount T jobId
  let world ← okOr (T.transfer s.world account T.palletAccount reward) .outside
  reserve { s with world } jobId reward

def handleReward (s : State T) (jobId : JobId A) (reward : ℕ) : Result (State T) := do
  let s ← unreserve s jobId reward
  let (world, imbalance) ← okOr (T.withdraw s.world T.palletAccount reward) .outside
  pure { s with world := T.onUnbalanced world imbalance }

def transferPositive (s : State T) (account : A) (amount : ℕ) : Result (State T) :=
  if 0 < amount then do
    let world ← okOr (T.transfer s.world T.palletAccount account amount) .outside
    pure { s with world }
  else pure s

def payMatcherReward (s : State T) (jobId : JobId A) (priceDifference : ℕ) (matcher : A) :
    Result (State T) := do
  let matcherFee := T.matcherPercentage.mulFloor priceDifference
  let s ← unreserve s jobId matcherFee
  let fee := T.feePercentage.mulFloor matcherFee
  let s ← transferPositive s T.feePalletAccount fee
  transferPositive s matcher (matcherFee - fee)

def refund (s : State T) (jobId : JobId A) : Result (State T × ℕ) := do
  let (s, remaining) := unreserveRemaining s jobId
  let account ← fundingAccount T jobId
  let world ← okOr (T.transfer s.world T.palletAccount account remaining) .outside
  pure ({ s with world }, remaining)

end Acurast.Marketplace

import Acurast.Base.Run
import Acurast.ProcessorManager.Pallet

/-! How a transaction is paid for. The onboarding extension checks the pairing proof and may fund the
manager, the fee is withdrawn from the manager of the signer, and what was too much is given back. -/

namespace Acurast.ProcessorManager

open Base

variable {A : Type} {T : Config A}

inductive RuntimeCall (T : Config A) where
  | processorManager (call : Call T)
  | other (call : T.OtherCall)

def pairingForCall :
    RuntimeCall T → Option (ProcessorPairing A T.Signature × Bool × Option T.AttestationChain)
  | .processorManager (.pairWithManager pairing) => some (pairing, false, none)
  | .processorManager (.multiPairWithManager pairing) => some (pairing, true, none)
  | .processorManager (.onboard pairing multi attestationChain) =>
    some (pairing, multi, some attestationChain)
  | _ => none

def isFundingCall : RuntimeCall T → Bool
  | .processorManager (.onboard _ _ _) => true
  | _ => false

def isFundableCall : RuntimeCall T → Bool
  | .processorManager (.heartbeatWithMetrics _ _)
  | .processorManager (.heartbeatWithVersion _)
  | .processorManager (.onboard _ _ _)
  | .processorManager (.multiPairWithManager _)
  | .processorManager (.pairWithManager _) => true
  | .processorManager _ => false
  | .other call => T.isFundableOther call

variable [DecidableEq A]

def feePayer (s : State T) (account : A) (call : RuntimeCall T) : A :=
  match lookupManager s account with
  | some (manager, _) => manager
  | none =>
    match pairingForCall call with
    | some (pairing, _, _) => pairing.account
    | none => account

/-! The funds for onboarding. -/

def canFundProcessorOnboarding (s : State T) (processor manager : A) : Option (A × ℕ) := do
  let settings ← s.processorOnboardingSettings
  let onHold := (s.accounts manager).onHold
  let amount := min settings.funds (settings.maxFunds - onHold)
  if settings.funds ≠ 0 ∧ s.processorToManagerIdIndex.lookup processor = none ∧
      onHold < settings.maxFunds ∧
      (s.accounts settings.fundsAccount).CanWithdraw amount .preserve then
    some (settings.fundsAccount, amount)
  else none

def fund (s : State T) (fromAccount toAccount : A) (amount : ℕ) : Result (State T) := do
  let paid ← okOr (s.accounts.transfer fromAccount toAccount amount .preserve) .outside
  let amountToHold := min amount (Account.reducible (paid toAccount) .protect)
  let held ← okOr (Ledger.change paid toAccount (Account.hold · amountToHold)) .outside
  pure { s with accounts := held }

omit [DecidableEq A] in
def canCoverFee (s : State T) (account : A) (fee : ℕ) : Bool × ℕ :=
  let available := (s.accounts account).onHold
  (decide (fee ≤ available), fee - available)

def releaseFeeFunds (s : State T) (account : A) (fee : ℕ) : State T :=
  match s.accounts.change account (Account.release · fee) with
  | some accounts => { s with accounts := accounts }
  | none => s

/-! The onboarding extension. -/

inductive Val (A : Type) where
  | fund (fromAccount toAccount : A) (amount : ℕ)
  | noFund
  deriving DecidableEq

def onboardingValidate (s : State T) (who : A) (call : RuntimeCall T) : Result (Val A) :=
  match pairingForCall call with
  | none => pure .noFund
  | some (pairing, isMulti, attestationChain) => do
    ensure ((doValidatePairing s pairing isMulti).isOk = true) .pairingValidation
    match attestationChain with
    | none => pure .noFund
    | some attestationChain => do
      ensure (T.validateAttestation s.world attestationChain who = true) .attestationValidation
      match canFundProcessorOnboarding s who pairing.account with
      | some (fromAccount, amount) => pure (.fund fromAccount pairing.account amount)
      | none => pure .noFund

def onboardingPrepare (s : State T) : Val A → Result (State T)
  | .noFund => pure s
  | .fund fromAccount toAccount amount =>
    match fund s fromAccount toAccount amount with
    | .ok s' => pure s'
    | .error _ => .error .funding

/-! The transaction charger. -/

structure LiquidityInfo (A : Type) where
  paid : ℕ
  feePayer : A
  deriving DecidableEq

def canWithdrawFee (s : State T) (who : A) (call : RuntimeCall T) (fee : ℕ) : Result Unit :=
  let payer := feePayer s who call
  if fee = 0 ∨ isFundingCall call ∧ (canFundProcessorOnboarding s who payer).isSome then pure ()
  else if payer ≠ who ∧ isFundableCall call then
    let (canCover, missing) := canCoverFee s payer fee
    if canCover then pure ()
    else ensure ((s.accounts payer).CanWithdraw missing .preserve) .payment
  else ensure ((s.accounts payer).CanWithdraw fee .preserve) .payment

def beforeFee (s : State T) (who : A) (call : RuntimeCall T) (fee : ℕ) : State T :=
  if feePayer s who call ≠ who ∧ isFundableCall call then
    releaseFeeFunds s (feePayer s who call) fee
  else s

def withdrawFee (s : State T) (who : A) (call : RuntimeCall T) (fee : ℕ) :
    Result (State T × Option (LiquidityInfo A)) :=
  if fee = 0 then pure (s, none)
  else do
    let payer := feePayer s who call
    let s := beforeFee s who call fee
    let accounts ← okOr (s.accounts.change payer (Account.withdraw · fee .preserve)) .payment
    pure ({ s with accounts := accounts }, some ⟨fee, payer⟩)

def refund (s : State T) (payer : A) (amount : ℕ) : State T × ℕ :=
  if 0 < (s.accounts payer).free + (s.accounts payer).reserved then
    match s.accounts.change payer (Account.deposit · amount) with
    | some accounts =>
      ({ s with accounts := accounts }, (accounts payer).free - (s.accounts payer).free)
    | none => (s, 0)
  else (s, 0)

def correctAndDepositFee (s : State T) (info : Option (LiquidityInfo A)) (correctedFee : ℕ) :
    State T :=
  match info with
  | none => s
  | some info =>
    let (s, refunded) := refund s info.feePayer (info.paid - correctedFee)
    s.log (.charged info.feePayer info.paid refunded)

/-! Transactions. -/

structure Transaction (T : Config A) where
  signer : A
  call : RuntimeCall T
  fee : ℕ
  /-- The fee for the weight that the call turns out to have. -/
  correctedFee : ℕ

def chargeTransaction (s : State T) (tx : Transaction T) :
    Result (State T × Option (LiquidityInfo A)) := do
  let val ← onboardingValidate s tx.signer tx.call
  canWithdrawFee s tx.signer tx.call tx.fee
  let s ← onboardingPrepare s val
  withdrawFee s tx.signer tx.call tx.fee

def dispatchCall (s : State T) (origin : Origin A) : RuntimeCall T → Result (State T)
  | .processorManager call => dispatch s origin call
  | .other call => do
    let w ← okOr (T.dispatchOther s.world s.accounts origin call) .outside
    pure (s.put w)

def runCall (s : State T) (tx : Transaction T) : State T :=
  transact s (dispatchCall s (.signed tx.signer) tx.call)

def applyTransaction (s : State T) (tx : Transaction T) : Result (State T) := do
  let (s, info) ← chargeTransaction s tx
  pure (correctAndDepositFee (runCall s tx) info tx.correctedFee)

inductive Op (T : Config A) where
  | transaction (tx : Transaction T)
  | dispatch (origin : Origin A) (call : Call T)
  | pass (milliseconds : ℕ)
  | outside (world : T.World) (accounts : Ledger A T.existentialDeposit T.maxConsumers)

def step (s : State T) : Op T → State T
  | .transaction tx => transact s (applyTransaction s tx)
  | .dispatch origin call => transact s (dispatch s origin call)
  | .pass milliseconds => { s with now := s.now + milliseconds }
  | .outside world accounts => { s with world := world, accounts := accounts }

end Acurast.ProcessorManager

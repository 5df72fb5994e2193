import Acurast.Hyperdrive.Contracts

/-! The proxy contract. Accounts register and pay for jobs; actions from Acurast assign processors and
finalize jobs, and processors fulfill them. Amounts wrap around. -/

namespace Acurast.Hyperdrive.Proxy

open Base
open Ibc (MessageNonce)

abbrev Result := Except Error

def ensureOwner (s : State) (caller : AccountId32) : Result Unit :=
  ensure (s.config.owner = caller) .notOwner

def ensureUnpaused (s : State) : Result Unit := ensure (s.config.paused = false) .contractPaused

def applyArgument (c : Config) : ConfigureArgument → Config
  | .owner address => { c with owner := address }
  | .ibcContract address => { c with ibc := address }
  | .acurastPalletAccount address => { c with acurastPalletAccount := address }
  | .paused paused => { c with paused }
  | .payloadVersion version => { c with payloadVersion := version }
  | .maxMessageBytes maxSize => { c with maxMessageBytes := maxSize }
  | .exchangeRatio ratio => { c with exchangeRatio := ratio }

def configure (s : State) (caller : AccountId32) (actions : List ConfigureArgument) : Result State := do
  ensureOwner s caller
  pure { s with config := actions.foldl applyArgument s.config }

def getJob (s : State) (jobId : U128) : Result JobInformationV1 :=
  okOr (s.jobInfo.lookup jobId) .unknownJob

def ExchangeRatio.exchangePrice (r : ExchangeRatio) (expectedAcurastAmount : U128) : Result U128 :=
  let n := r.numerator.setWidth 128 * expectedAcurastAmount
  let d := r.denominator.setWidth 128
  if d = 0 then .error (.panicked "attempt to calculate the remainder with a divisor of zero")
  else .ok (if n % d = 0 then n / d else n / d + 1)

def executionCount (schedule : Schedule) : U64 :=
  (BitVec.ofNat 64 schedule.endTime - BitVec.ofNat 64 schedule.startTime - 1) /
    BitVec.ofNat 64 schedule.interval + 1

def expectedFee (payload : RegisterJobUserInput) : U128 :=
  payload.jobRegistration.extra.slots.setWidth 128 *
    (executionCount payload.jobRegistration.schedule).setWidth 128 * payload.expectedFulfillmentFee

def maximumReward (payload : RegisterJobUserInput) : U128 :=
  payload.jobRegistration.extra.slots.setWidth 128 *
    (executionCount payload.jobRegistration.schedule).setWidth 128 * payload.jobRegistration.extra.reward

def jobInformation (caller : AccountId32) (payload : RegisterJobUserInput) : JobInformationV1 where
  schedule := payload.jobRegistration.schedule
  creator := caller
  destination := payload.destination
  processors := []
  expectedFulfillmentFee := payload.expectedFulfillmentFee
  remainingFee := expectedFee payload
  maximumReward := maximumReward payload
  status := .opened
  slots := payload.jobRegistration.extra.slots

def registerJob (s : State) (caller : AccountId32) (value : U128) (call : ℕ)
    (payload : RegisterJobUserInput) : Result State := do
  ensure (payload.jobRegistration.schedule.interval ≠ 0) (.verbose "INTERVAL_CANNNOT_BE_ZERO")
  let cost ← s.config.exchangeRatio.exchangePrice (maximumReward payload)
  ensure (¬ value < expectedFee payload + cost) (.verbose "AMOUNT_CANNOT_COVER_JOB_COSTS")
  pure { s with
    nextJobId := s.nextJobId + 1
    jobInfo := s.jobInfo.insert s.nextJobId (jobInformation caller payload)
    history := s.history ++ [.registered call value s.nextJobId (expectedFee payload) cost] }

def ensureCreator (s : State) (caller : AccountId32) (jobId : U128) : Result Unit := do
  let job ← getJob s jobId
  ensure (job.creator = caller) .notJobCreator

def ensureExpired (env : Env) (s : State) (jobId : U128) : Result Unit := do
  let job ← getJob s jobId
  ensure (job.schedule.endTime / 1000 < env.blockTimestamp) .cannotFinalizeJob

def outgoingAction (env : Env) (s : State) (caller : AccountId32) (value : U128) (call : ℕ) :
    UserAction → Result (State × OutgoingActionPayloadV1)
  | .registerJob payload => do
    let s' ← registerJob s caller value call payload
    pure (s', .registerJob s.nextJobId payload.jobRegistration)
  | .deregisterJob jobId => do
    ensureCreator s caller jobId
    pure (s, .deregisterJob jobId)
  | .finalizeJob jobIds => do
    jobIds.forM fun jobId => do
      ensureCreator s caller jobId
      ensureExpired env s jobId
    pure (s, .finalizeJob jobIds)
  | .setJobEnvironment payload => do
    ensureCreator s caller payload.jobId
    pure (s, .setJobEnvironment payload)
  | .noop => pure (s, .noop)

/-- A message that the proxy hands to the IBC contract, with the job that is registered with it. -/
structure SendRequest where
  id : U64
  nonce : MessageNonce
  recipient : ContractSubject
  payload : Bytes
  job : Option U128
  deriving DecidableEq

def UserAction.job (nextJobId : U128) : UserAction → Option U128
  | .registerJob _ => some nextJobId
  | _ => none

def messageTtl : ℕ := 100

def prepayFailed : ProxyChain → String
  | .alephZero => "COULD_NOT_TRANSFER"
  | .vara => "PREPAY_FEE_FAILED"

def refundFailed : ProxyChain → String
  | .alephZero => "COULD_NOT_TRANSFER"
  | .vara => "REFUND_FAILED"

structure Turn where
  jobInfo : StorageMap U128 JobInformationV1
  payment : Option (U128 × AccountId32 × ℕ)
  failure : String

variable (T : Setup) (chain : ProxyChain)

/-- The ink contract hashes the number as a vector, the Vara program its bytes alone. -/
def actionNonce (id : U64) : MessageNonce :=
  match chain with
  | .alephZero => T.hash (encodeByteString (encodeBits id))
  | .vara => T.hash (encodeBits id)

def prepareAction (env : Env) (s : State) (caller : AccountId32) (value : U128) (call : ℕ)
    (action : UserAction) : Result (State × SendRequest) := do
  let (s', payload) ← outgoingAction env s caller value call action
  let raw : RawOutgoingAction :=
    ⟨s.nextOutgoingActionId, caller, s.config.payloadVersion, T.encodePayload payload⟩
  ensure (raw.encode.length < s.config.maxMessageBytes.toNat) .outgoingActionTooBig
  pure (s', {
    id := raw.id
    nonce := actionNonce T chain raw.id
    recipient := .acurast (.extrinsic s.config.acurastPalletAccount)
    payload := raw.encode
    job := action.job s.nextJobId })

def advanceActionId (s : State) : State :=
  { s with nextOutgoingActionId := s.nextOutgoingActionId + 1 }

/-- The initial fee is taken without looking at what is left. -/
def assignJobProcessor (s : State) (jobId : U128) (processor : AccountId32) : Result Turn := do
  let job ← getJob s jobId
  pure {
    jobInfo := s.jobInfo.insert jobId { job with
      processors := job.processors ++ [processor]
      remainingFee := job.remainingFee - job.expectedFulfillmentFee
      status := .assigned }
    payment := some (jobId, processor, job.expectedFulfillmentFee.toNat)
    failure := prepayFailed chain }

/-- The unused reward is refunded as it comes, the remaining fee stays as it is. -/
def finalizeJob (s : State) (jobId unusedReward : U128) : Result Turn := do
  let job ← getJob s jobId
  ensure (unusedReward ≤ job.maximumReward) (.panicked "ABOVE_MAXIMUM_REWARD")
  let refund := job.remainingFee + unusedReward
  pure {
    jobInfo := s.jobInfo.insert jobId { job with status := .finalizedOrCancelled }
    payment := if 0 < refund then some (jobId, job.creator, refund.toNat) else none
    failure := refundFailed chain }

def handleAction (s : State) : IncomingActionPayloadV1 → Result Turn
  | .assignJobProcessor jobId processor => assignJobProcessor chain s jobId processor
  | .finalizeJob jobId unusedReward => finalizeJob chain s jobId unusedReward
  | .noop => pure ⟨s.jobInfo, none, ""⟩

def Turn.pay (turn : Turn) (funds : T.Funds) : Option T.Funds :=
  match turn.payment with
  | none => some funds
  | some (_, dest, amount) => T.transfer funds (T.proxy chain) dest amount

def Turn.entries (turn : Turn) : List Entry :=
  match turn.payment with
  | none => []
  | some (jobId, dest, amount) => [.paid jobId dest amount]

def applyTurn (s : State) (funds : T.Funds) (turn : Turn) : Result (State × T.Funds) := do
  let funds ← okOr (turn.pay T chain funds) (.panicked turn.failure)
  pure ({ s with jobInfo := turn.jobInfo, history := s.history ++ turn.entries }, funds)

/-- Nothing is asked of the caller. -/
def receiveAction (s : State) (funds : T.Funds) (caller : AccountId32) (payload : Bytes) :
    Result (State × T.Funds) := do
  ensureUnpaused s
  let action ← okOr (IncomingAction.decode payload) .invalidIncomingAction
  let turn ← handleAction chain s action.payload
  let (s', funds) ← applyTurn T chain s funds turn
  let entry : Received :=
    ⟨caller, s.config.ibc, payload, s.jobInfo, turn.jobInfo, turn.payment.map Prod.snd⟩
  pure ({ s' with history := s'.history ++ [.received entry] }, funds)

def refill (s : State) (caller : AccountId32) (jobId : U128) (job : JobInformationV1) : Turn :=
  if job.expectedFulfillmentFee ≤ job.remainingFee ∧ 0 < job.expectedFulfillmentFee then {
    jobInfo := s.jobInfo.insert jobId
      { job with remainingFee := job.remainingFee - job.expectedFulfillmentFee }
    payment := some (jobId, caller, job.expectedFulfillmentFee.toNat)
    failure := prepayFailed chain }
  else ⟨s.jobInfo, none, ""⟩

/-- The Vara program passes only the payload on. -/
def consume (job : JobInformationV1) (jobId : U128) (payload : Bytes) : Result Unit :=
  let id := match chain with
    | .alephZero => some (jobId.setWidth 64)
    | .vara => none
  match T.consume chain job.destination id payload with
  | .ok () => pure ()
  | .error text => .error (.consumerError text)

def fulfill (s : State) (funds : T.Funds) (caller : AccountId32) (jobId : U128) (payload : Bytes) :
    Result (State × T.Funds) := do
  ensureUnpaused s
  let job ← getJob s jobId
  ensure (caller ∈ job.processors) .notJobProcessor
  ensure (job.status = .assigned) .jobAlreadyFinished
  let (s', funds) ← applyTurn T chain s funds (refill chain s caller jobId job)
  consume T chain job jobId payload
  pure (s', funds)

section Specs

variable {T chain} {env : Env} {s s' : State} {funds funds' : T.Funds} {caller : AccountId32}

inductive AsksFor : UserAction → OutgoingActionPayloadV1 → Prop
  | registerJob (payload : RegisterJobUserInput) (jobId : U128) :
      AsksFor (.registerJob payload) (.registerJob jobId payload.jobRegistration)
  | deregisterJob (jobId : U128) : AsksFor (.deregisterJob jobId) (.deregisterJob jobId)
  | finalizeJob (jobIds : List U128) : AsksFor (.finalizeJob jobIds) (.finalizeJob jobIds)
  | setJobEnvironment (payload : SetJobEnvironmentPayloadV1) :
      AsksFor (.setJobEnvironment payload) (.setJobEnvironment payload)
  | noop : AsksFor .noop .noop

structure Registers (s s' : State) (caller : AccountId32) (value : U128) (call : ℕ)
    (payload : RegisterJobUserInput) (cost : U128) : Prop where
  priced : s.config.exchangeRatio.exchangePrice (maximumReward payload) = .ok cost
  affords : ¬ value < expectedFee payload + cost
  state : s' = { s with
    nextJobId := s.nextJobId + 1
    jobInfo := s.jobInfo.insert s.nextJobId (jobInformation caller payload)
    history := s.history ++ [.registered call value s.nextJobId (expectedFee payload) cost] }

inductive Prepares (s s' : State) (caller : AccountId32) (value : U128) (call : ℕ) : UserAction → Prop
  | register (payload : RegisterJobUserInput) (cost : U128)
      (h : Registers s s' caller value call payload cost) :
      Prepares s s' caller value call (.registerJob payload)
  | other (action : UserAction) (hjob : ∀ nextJobId, action.job nextJobId = none) (h : s' = s) :
      Prepares s s' caller value call action

variable {call : ℕ} {value : U128} {action : UserAction} {turn : Turn} {payload : Bytes}

theorem Prepares.nextOutgoingActionId (h : Prepares s s' caller value call action) :
    s'.nextOutgoingActionId = s.nextOutgoingActionId := by
  cases h with
  | register _ _ hr => rw [hr.state]
  | other _ _ hs => rw [hs]

theorem registerJob_spec {payload : RegisterJobUserInput}
    (h : registerJob s caller value call payload = .ok s') :
    ∃ cost, Registers s s' caller value call payload cost := by
  simp only [registerJob, ok_iff] at h
  obtain ⟨-, -, cost, hc, -, ha, hs⟩ := h
  exact ⟨cost, hc, ha, hs.symm⟩

theorem outgoingAction_spec {payload : OutgoingActionPayloadV1}
    (h : outgoingAction env s caller value call action = .ok (s', payload)) :
    AsksFor action payload ∧ Prepares s s' caller value call action := by
  cases action with
  | registerJob input =>
    simp only [outgoingAction, ok_iff, Prod.mk.injEq] at h
    obtain ⟨s₁, hr, rfl, rfl⟩ := h
    obtain ⟨cost, hre⟩ := registerJob_spec hr
    exact ⟨.registerJob input s.nextJobId, .register input cost hre⟩
  | deregisterJob j =>
    simp only [outgoingAction, ok_iff, Prod.mk.injEq] at h
    obtain ⟨-, -, rfl, rfl⟩ := h
    exact ⟨.deregisterJob j, .other _ (fun _ => rfl) rfl⟩
  | finalizeJob hj =>
    simp only [outgoingAction, ok_iff, Prod.mk.injEq] at h
    obtain ⟨-, -, rfl, rfl⟩ := h
    exact ⟨.finalizeJob hj, .other _ (fun _ => rfl) rfl⟩
  | setJobEnvironment input =>
    simp only [outgoingAction, ok_iff, Prod.mk.injEq] at h
    obtain ⟨-, -, rfl, rfl⟩ := h
    exact ⟨.setJobEnvironment input, .other _ (fun _ => rfl) rfl⟩
  | noop =>
    obtain ⟨rfl, rfl⟩ := h
    exact ⟨.noop, .other _ (fun _ => rfl) rfl⟩

structure Carries (T : Setup) (chain : ProxyChain) (s : State) (caller : AccountId32)
    (action : UserAction) (request : SendRequest) : Prop where
  id : request.id = s.nextOutgoingActionId
  nonce : request.nonce = actionNonce T chain s.nextOutgoingActionId
  job : request.job = action.job s.nextJobId
  payload : ∃ raw payload, request.payload = RawOutgoingAction.encode raw ∧ raw.origin = caller ∧
    raw.payload = T.encodePayload payload ∧ raw.payload.length < 2 ^ 32 ∧ AsksFor action payload

theorem prepareAction_spec {req : SendRequest}
    (h : prepareAction T chain env s caller value call action = .ok (s', req)) :
    Carries T chain s caller action req ∧ Prepares s s' caller value call action := by
  simp only [prepareAction, ok_iff, Prod.mk.injEq] at h
  obtain ⟨⟨s₁, payload⟩, ho, -, hs, rfl, rfl⟩ := h
  obtain ⟨has, hp⟩ := outgoingAction_spec ho
  refine ⟨⟨rfl, rfl, rfl, _, payload, rfl, rfl, rfl, ?_, has⟩, hp⟩
  have ha := length_le_encodeByteString (T.encodePayload payload)
  simp only [RawOutgoingAction.encode, List.length_append] at hs
  show (T.encodePayload payload).length < 2 ^ 32
  omega

theorem applyTurn_spec (h : applyTurn T chain s funds turn = .ok (s', funds')) :
    turn.pay T chain funds = some funds' ∧
      s' = { s with jobInfo := turn.jobInfo, history := s.history ++ turn.entries } := by
  simp only [applyTurn, ok_iff, Prod.mk.injEq] at h
  obtain ⟨funds₁, hp, rfl, rfl⟩ := h
  exact ⟨hp, rfl⟩

inductive Handles (chain : ProxyChain) (s : State) : IncomingActionPayloadV1 → Turn → Prop
  | assign {jobId : U128} {processor : AccountId32} {job : JobInformationV1}
      (hjob : s.jobInfo.lookup jobId = some job) :
      Handles chain s (.assignJobProcessor jobId processor) {
        jobInfo := s.jobInfo.insert jobId { job with
          processors := job.processors ++ [processor]
          remainingFee := job.remainingFee - job.expectedFulfillmentFee
          status := .assigned }
        payment := some (jobId, processor, job.expectedFulfillmentFee.toNat)
        failure := prepayFailed chain }
  | finalize {jobId unusedReward : U128} {job : JobInformationV1}
      (hjob : s.jobInfo.lookup jobId = some job) (hmax : unusedReward ≤ job.maximumReward) :
      Handles chain s (.finalizeJob jobId unusedReward) {
        jobInfo := s.jobInfo.insert jobId { job with status := .finalizedOrCancelled }
        payment := if 0 < job.remainingFee + unusedReward then
          some (jobId, job.creator, (job.remainingFee + unusedReward).toNat) else none
        failure := refundFailed chain }
  | noop : Handles chain s .noop ⟨s.jobInfo, none, ""⟩

theorem handleAction_spec {payload : IncomingActionPayloadV1}
    (h : handleAction chain s payload = .ok turn) : Handles chain s payload turn := by
  cases payload with
  | assignJobProcessor j proc =>
    simp only [handleAction, assignJobProcessor, getJob, ok_iff] at h
    obtain ⟨job, hj, rfl⟩ := h
    exact .assign hj
  | finalizeJob j unused =>
    simp only [handleAction, finalizeJob, getJob, ok_iff] at h
    obtain ⟨job, hj, -, hm, rfl⟩ := h
    exact .finalize hj hm
  | noop =>
    cases h
    exact .noop

theorem receiveAction_spec (h : receiveAction T chain s funds caller payload = .ok (s', funds')) :
    ∃ action turn, s.config.paused = false ∧ IncomingAction.decode payload = some action ∧
      handleAction chain s action.payload = .ok turn ∧ turn.pay T chain funds = some funds' ∧
      s' = { s with
        jobInfo := turn.jobInfo
        history := s.history ++ turn.entries ++ [.received ⟨caller, s.config.ibc, payload, s.jobInfo,
          turn.jobInfo, turn.payment.map Prod.snd⟩] } := by
  simp only [receiveAction, ensureUnpaused, ok_iff, Prod.mk.injEq] at h
  obtain ⟨-, ha, action, hc, turn, ht, ⟨s₁, funds₁⟩, hap, rfl, rfl⟩ := h
  obtain ⟨hp, rfl⟩ := applyTurn_spec hap
  exact ⟨action, turn, ha, hc, ht, hp, rfl⟩

theorem fulfill_spec {j : U128}
    (h : fulfill T chain s funds caller j payload = .ok (s', funds')) :
    ∃ job, s.jobInfo.lookup j = some job ∧ job.status = .assigned ∧
      (refill chain s caller j job).pay T chain funds = some funds' ∧
      s' = { s with
        jobInfo := (refill chain s caller j job).jobInfo
        history := s.history ++ (refill chain s caller j job).entries } := by
  simp only [fulfill, getJob, ok_iff, Prod.mk.injEq] at h
  obtain ⟨-, -, job, hj, -, -, -, has, ⟨s₁, funds₁⟩, ha, -, -, rfl, rfl⟩ := h
  obtain ⟨hp, rfl⟩ := applyTurn_spec ha
  exact ⟨job, hj, has, hp, rfl⟩

theorem configure_spec {acts : List ConfigureArgument} (h : configure s caller acts = .ok s') :
    s.config.owner = caller ∧ s' = { s with config := acts.foldl applyArgument s.config } := by
  simp only [configure, ensureOwner, ok_iff] at h
  obtain ⟨-, ho, rfl⟩ := h
  exact ⟨ho, rfl⟩

end Specs

end Acurast.Hyperdrive.Proxy

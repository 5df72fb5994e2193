import Acurast.Hyperdrive.Contracts
import Acurast.Marketplace.Types

/-! The pallet on the Acurast chain that takes the actions of the proxies out of their messages and
sends actions to the proxies. What the actions do to the jobs is a parameter. -/

namespace Acurast.Hyperdrive.Pallet

open Base
open Ibc (MessageNonce)
open Marketplace (JobId JobModule JobRegistration Environment PubKey scriptLength)

inductive ParsedAction where
  | registerJob (jobId : JobId AccountId32) (registration : JobRegistration AccountId32)
  | deregisterJob (jobId : JobId AccountId32)
  | finalizeJob (jobIds : List (JobId AccountId32))
  | setJobEnvironment (jobId : JobId AccountId32) (environments : List (AccountId32 × Environment))
  | noop
  deriving DecidableEq

inductive DecoderError where
  | couldNotDecodeAction | tooManyPlannedExecutions | tooManyAllowedSources | invalidJobModule
  | tooManyJobModules
  deriving DecidableEq

inductive Error where
  | badOrigin
  | substrateMessageDecoderError (error : DecoderError)
  /-- Only keys of one kind stand for an account on a proxy chain. -/
  | unexpectedPublicKey
  | invalidSender
  | notExecuted
  | notSent
  | notForPallet
  | payloadLengthExceeded
  deriving DecidableEq

abbrev Result := Except Error

inductive ProxyAction where
  | assignJob (jobId : U128) (processor : PubKey)
  | finalizeJob (jobId refund : U128)
  | noop
  deriving DecidableEq

structure Config where
  sender : AccountId32
  updateOrigin : Origin AccountId32 → Bool
  maxSlots : ℕ
  maxAllowedSources : ℕ
  maxEnvVars : ℕ
  envKeyMaxSize : ℕ
  envValueMaxSize : ℕ
  World : Type
  execute : World → ParsedAction → Option World
  /-- Sends a message to the recipient at the expense of the payer. -/
  sendMessage : World → AccountId32 → MessageNonce → ContractSubject → Bytes → Option World

structure SentAction where
  action : IncomingAction
  nonce : MessageNonce
  recipient : ContractSubject
  deriving DecidableEq

structure State (R : Config) where
  alephZeroContract : ContractCall AccountId32
  varaContract : AccountId32
  nextMessageNumber : U64
  world : R.World
  /-- The executed actions with the chains they came from, and the actions sent. No function reads
  them. -/
  executed : List (ProxyChain × OutgoingAction)
  sent : List SentAction

def maxJobModules : ℕ := 3

def pubKeysMaxLength : ℕ := 33

def jobModule (n : BitVec 16) : Option JobModule :=
  match n.toNat with
  | 0 => some .dataEncryption
  | 1 => some .llm
  | 2 => some .shell
  | _ => none

def origin (chain : ProxyChain) (account : AccountId32) : MultiOrigin AccountId32 :=
  match chain with
  | .alephZero => .alephZero account
  | .vara => .vara account

variable (R : Config)

def assignmentStrategy : AssignmentStrategyV1 →
    Except DecoderError (Marketplace.AssignmentStrategy AccountId32)
  | .single none => .ok (.single none)
  | .single (some executions) => do
    ensure (executions.length ≤ R.maxSlots) .tooManyPlannedExecutions
    pure (.single (some (executions.map fun e => ⟨e.source, e.startDelay.toNat⟩)))
  | .competing => .ok .competing

def jobRegistration (j : JobRegistrationV1) : Except DecoderError (JobRegistration AccountId32) := do
  let assignmentStrategy ← assignmentStrategy R j.extra.assignmentStrategy
  ensure (∀ sources ∈ j.allowedSources, sources.length ≤ R.maxAllowedSources) .tooManyAllowedSources
  let requiredModules ← j.requiredModules.mapM fun n => okOr (jobModule n) .invalidJobModule
  ensure (requiredModules.length ≤ maxJobModules) .tooManyJobModules
  pure {
    script := j.script.take scriptLength
    allowedSources := j.allowedSources
    allowOnlyVerifiedSources := j.allowOnlyVerifiedSources
    schedule := j.schedule
    networkRequests := j.networkRequests.toNat
    requiredModules
    extra := {
      assignmentStrategy
      slots := j.extra.slots.toNat
      reward := j.extra.reward.toNat
      minReputation := j.extra.minReputation.map BitVec.toNat
      processorVersion := none } }

def environment (payload : SetJobEnvironmentPayloadV1) (processor : SetProcessorJobEnvironmentV1) :
    AccountId32 × Environment :=
  (processor.address, {
    publicKey := payload.publicKey.take pubKeysMaxLength
    envVars := (processor.envVars.take R.maxEnvVars).map fun v =>
      (v.1.take R.envKeyMaxSize, v.2.take R.envValueMaxSize) })

def parse (chain : ProxyChain) (action : OutgoingAction) : Except DecoderError ParsedAction :=
  let origin := origin chain action.origin
  match action.payload with
  | .registerJob jobId registration => do
    let registration ← jobRegistration R registration
    pure (.registerJob (origin, jobId.toNat) registration)
  | .deregisterJob jobId => pure (.deregisterJob (origin, jobId.toNat))
  | .finalizeJob jobIds => pure (.finalizeJob (jobIds.map fun jobId => (origin, jobId.toNat)))
  | .setJobEnvironment payload =>
    pure (.setJobEnvironment (origin, payload.jobId.toNat)
      ((payload.processors.map (environment R payload)).take R.maxSlots))
  | .noop => pure .noop

variable (T : Setup) {R}

def execute (s : State R) (chain : ProxyChain) (payload : Bytes) : Result (State R) := do
  let action ← okOr (OutgoingAction.decode T.decodePayload payload)
    (.substrateMessageDecoderError .couldNotDecodeAction)
  let parsed ← (parse R chain action).mapError .substrateMessageDecoderError
  let world ← okOr (R.execute s.world parsed) .notExecuted
  pure { s with world, executed := s.executed ++ [(chain, action)] }

/-- Only the subject that sent the message is compared with the configuration. -/
def process (s : State R) (message : MessageBody AccountId32 AccountId32) : Result (State R) :=
  match message.sender with
  | .alephZero (.contract c) =>
    if c = s.alephZeroContract then execute T s .alephZero message.payload.1
    else .error .invalidSender
  | .vara (.contract c) =>
    if c = ⟨s.varaContract, none⟩ then execute T s .vara message.payload.1 else .error .invalidSender
  | _ => .error .invalidSender

def updateAlephZeroContract (s : State R) (origin : Origin AccountId32)
    (contract : ContractCall AccountId32) : Result (State R) := do
  ensure (R.updateOrigin origin = true) .badOrigin
  pure { s with alephZeroContract := contract }

def updateVaraContract (s : State R) (origin : Origin AccountId32) (contract : AccountId32) :
    Result (State R) := do
  ensure (R.updateOrigin origin = true) .badOrigin
  pure { s with varaContract := contract }

def encode (id : U64) : ProxyAction → Result IncomingAction
  | .assignJob jobId (.secp256k1 key) => pure ⟨id, .assignJobProcessor jobId (T.hash key)⟩
  | .assignJob _ _ => .error .unexpectedPublicKey
  | .finalizeJob jobId refund => pure ⟨id, .finalizeJob jobId refund⟩
  | .noop => pure ⟨id, .noop⟩

def recipient (s : State R) : ProxyChain → ContractSubject
  | .alephZero => .alephZero (.contract s.alephZeroContract)
  | .vara => .vara (.contract ⟨s.varaContract, none⟩)

def sendToProxy (s : State R) (chain : ProxyChain) (action : ProxyAction) (payer : AccountId32) :
    Result (State R) := do
  let number := s.nextMessageNumber
  let action ← encode T number action
  let nonce := T.hash (encodeBits number)
  let recipient := recipient s chain
  let world ← okOr (R.sendMessage s.world payer nonce recipient action.encode) .notSent
  pure { s with
    nextMessageNumber := number + 1
    world
    sent := s.sent ++ [⟨action, nonce, recipient⟩] }

section Specs

variable {T} {s s' : State R}

variable {chain ch : ProxyChain}

theorem execute_spec {pl : Bytes} (h : execute T s ch pl = .ok s') :
    ∃ act, OutgoingAction.decode T.decodePayload pl = some act ∧
      s'.executed = s.executed ++ [(ch, act)] ∧ s'.sent = s.sent := by
  simp only [execute, ok_iff, mapError_eq_ok] at h
  obtain ⟨act, ha, -, -, -, -, rfl⟩ := h
  exact ⟨act, ha, rfl, rfl⟩

theorem process_spec {msg : MessageBody AccountId32 AccountId32} (h : process T s msg = .ok s') :
    ∃ ch act, OutgoingAction.decode T.decodePayload msg.payload.1 = some act ∧
      ((∃ call, ch = .alephZero ∧ msg.sender = .alephZero (.contract call)) ∨
        ∃ call, ch = .vara ∧ msg.sender = .vara (.contract call)) ∧
      s'.executed = s.executed ++ [(ch, act)] ∧ s'.sent = s.sent := by
  unfold process at h
  split at h
  · rename_i call hse
    split_ifs at h with hc
    obtain ⟨act, ha, hx, hs⟩ := execute_spec h
    exact ⟨.alephZero, act, ha, .inl ⟨call, rfl, hse⟩, hx, hs⟩
  · rename_i call hse
    split_ifs at h with hc
    obtain ⟨act, ha, hx, hs⟩ := execute_spec h
    exact ⟨.vara, act, ha, .inr ⟨call, rfl, hse⟩, hx, hs⟩
  · cases h

theorem sendToProxy_spec {act : ProxyAction} {payer : AccountId32}
    (h : sendToProxy T s ch act payer = .ok s') :
    s'.executed = s.executed ∧ ∃ entry, s'.sent = s.sent ++ [entry] := by
  simp only [sendToProxy, ok_iff] at h
  obtain ⟨encoded, -, w, -, rfl⟩ := h
  exact ⟨rfl, _, rfl⟩

end Specs

end Acurast.Hyperdrive.Pallet

import Acurast.Hyperdrive.Actions
import Acurast.Ibc.Types

/-! Data of the contracts that the proxy chains run: the IBC contract and the proxy. The ink and the Vara
version of each share their definitions; where they differ, the chain is an argument. -/

namespace Acurast.Hyperdrive

open Base
open Ibc (MessageId MessageNonce Public Signature)

abbrev ContractSubject := Subject AccountId32 AccountId32

namespace IbcContract

structure Config where
  owner : AccountId32
  paused : Bool
  minDeliverySignatures : ℕ
  minReceiptSignatures : ℕ
  minTtl : ℕ
  incomingTtl : ℕ
  deriving DecidableEq

structure Message where
  id : MessageId
  sender : ContractSubject
  nonce : MessageNonce
  recipient : ContractSubject
  payload : Bytes
  deriving DecidableEq

structure OutgoingMessageWithMeta where
  message : Message
  currentBlock : ℕ
  ttlBlock : ℕ
  fee : ℕ
  payer : AccountId32
  deriving DecidableEq

structure IncomingMessageWithMeta where
  message : Message
  currentBlock : ℕ
  relayer : AccountId32
  deriving DecidableEq

inductive OracleUpdate where
  | add (oracle : Public)
  | remove (oracle : Public)
  deriving DecidableEq

/-- An update of the code ends the run of the contract that is modelled, so it is left out. -/
inductive ConfigureArgument where
  | owner (address : AccountId32)
  | paused (paused : Bool)
  | oraclePublicKeys (updates : List OracleUpdate)
  | minDeliverySignatures (minDeliverySignatures : ℕ)
  | minReceiptSignatures (minReceiptSignatures : ℕ)
  | minTtl (minTtl : ℕ)
  | incomingTtl (incomingTtl : ℕ)
  deriving DecidableEq

inductive Error where
  | contractPaused | notOwner | incorrectRecipient | messageAlreadyReceived | publicKeyUnknown
  | duplicateSignature | signatureInvalid | signatureInvalidRecoveryId
  | signatureInvalidRecoveredPubKeyLength | notEnoughSignaturesValid | messageWithSameNoncePending
  | ttlSmallerThanMinimum | messageNotFound | deliveryConfirmationOverdue
  | feeNotPaid
  deriving DecidableEq

/-- A received message, with the oracles that signed it and what was asked for at that time. -/
structure Accepted where
  message : Message
  signers : List Public
  required : ℕ
  oracles : List Public
  deriving DecidableEq

/-- What the contract did, in its order. No function reads it. -/
inductive Entry where
  | sent (message : OutgoingMessageWithMeta)
  | accepted (accepted : Accepted)
  /-- A delivery was confirmed by the relayer in the block, and the fee paid. -/
  | paid (message : OutgoingMessageWithMeta) (relayer dest : AccountId32) (block : ℕ)
  deriving DecidableEq

structure State where
  config : Config
  outgoing : StorageMap MessageId OutgoingMessageWithMeta
  outgoingIndex : List MessageId
  incoming : StorageMap MessageId IncomingMessageWithMeta
  incomingIndex : List MessageId
  messageCounter : ℕ
  oraclePublicKeys : StorageMap Public Unit
  history : List Entry

end IbcContract

namespace Proxy

inductive JobStatus where
  | opened | matched | assigned | finalizedOrCancelled
  deriving DecidableEq

structure JobInformationV1 where
  schedule : Schedule
  creator : AccountId32
  destination : AccountId32
  processors : List AccountId32
  expectedFulfillmentFee : U128
  remainingFee : U128
  maximumReward : U128
  status : JobStatus
  slots : BitVec 8
  deriving DecidableEq

structure ExchangeRatio where
  numerator : BitVec 16
  denominator : BitVec 16
  deriving DecidableEq

structure Config where
  owner : AccountId32
  ibc : AccountId32
  acurastPalletAccount : AccountId32
  paused : Bool
  payloadVersion : BitVec 16
  maxMessageBytes : BitVec 16
  exchangeRatio : ExchangeRatio
  deriving DecidableEq

inductive ConfigureArgument where
  | owner (address : AccountId32)
  | ibcContract (address : AccountId32)
  | acurastPalletAccount (address : AccountId32)
  | paused (paused : Bool)
  | payloadVersion (version : BitVec 16)
  | maxMessageBytes (maxSize : BitVec 16)
  | exchangeRatio (ratio : ExchangeRatio)
  deriving DecidableEq

structure RegisterJobUserInput where
  jobRegistration : JobRegistrationV1
  destination : AccountId32
  expectedFulfillmentFee : U128
  deriving DecidableEq

inductive UserAction where
  | registerJob (payload : RegisterJobUserInput)
  | deregisterJob (jobId : U128)
  | finalizeJob (jobIds : List U128)
  | setJobEnvironment (payload : SetJobEnvironmentPayloadV1)
  | noop
  deriving DecidableEq

inductive Error where
  | jobAlreadyFinished | notJobProcessor | unknownJob | contractPaused | notOwner | notJobCreator
  | cannotFinalizeJob | outgoingActionTooBig
  | verbose (text : String)
  | invalidIncomingAction
  | ibcError (error : IbcContract.Error)
  | ibcFailed
  | consumerError (text : String)
  /-- The contract stops with a message, or at an operation that has no result. -/
  | panicked (text : String)
  deriving DecidableEq

/-- A call of `receive_action` that succeeded: who made it, which IBC contract was configured, and
what the call changed and paid. -/
structure Received where
  caller : AccountId32
  configured : AccountId32
  payload : Bytes
  before : StorageMap U128 JobInformationV1
  after : StorageMap U128 JobInformationV1
  paid : Option (AccountId32 × ℕ)

/-- What the contract did, in its order. No function reads it. -/
inductive Entry where
  /-- A job was registered in a call of `send_actions`, at the given price. -/
  | registered (call : ℕ) (value : U128) (jobId : U128) (expectedFee cost : U128)
  | paid (jobId : U128) (dest : AccountId32) (amount : ℕ)
  | received (received : Received)

structure State where
  config : Config
  nextOutgoingActionId : U64
  nextJobId : U128
  jobInfo : StorageMap U128 JobInformationV1
  /-- The number of calls of `send_actions`, which tells their entries of the history apart. -/
  calls : ℕ
  history : List Entry

/-- A message of the proxy that the IBC contract can be made to call, besides `receive_action`. A
call of `send_actions` would enter the IBC contract again. -/
inductive OtherMessage where
  | configure (actions : List ConfigureArgument)
  | fulfill (jobId : U128) (payload : Bytes)
  deriving DecidableEq

end Proxy

/-- The accounts of the contracts, and what they take from their chains and libraries. -/
structure Setup where
  ibc : ProxyChain → AccountId32
  proxy : ProxyChain → AccountId32
  apart : ∀ chain, ibc chain ≠ proxy chain
  hash : Bytes → H256
  encodeSubject : ContractSubject → Bytes
  encodePayload : OutgoingActionPayloadV1 → Bytes
  decodePayload : Bytes → Option OutgoingActionPayloadV1
  recover : ProxyChain → Signature → H256 → Except IbcContract.Error Public
  Funds : Type
  balance : Funds → AccountId32 → ℕ
  transfer : Funds → AccountId32 → AccountId32 → ℕ → Option Funds
  le_balance : ∀ {funds funds' source dest amount}, transfer funds source dest amount = some funds' →
    amount ≤ balance funds source
  balance_transfer : ∀ {funds funds' source dest amount},
    transfer funds source dest amount = some funds' → ∀ account,
      balance funds' account + (if account = source then amount else 0) =
        balance funds account + if account = dest then amount else 0
  /-- Whether another contract than this one takes a message to be sent. -/
  elsewhere : ProxyChain → AccountId32 → Bool
  /-- What the destination of a job answers to a fulfillment. -/
  consume : ProxyChain → AccountId32 → Option U64 → Bytes → Except String Unit
  /-- What the ink proxy understands of a selector with one argument. -/
  input : BitVec 32 → Bytes → Option Proxy.OtherMessage

structure Env where
  blockNumber : ℕ
  blockTimestamp : ℕ
  deriving DecidableEq

end Acurast.Hyperdrive

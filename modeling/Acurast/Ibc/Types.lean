import Acurast.Base.Checked
import Acurast.Base.Outcome
import Acurast.Base.Storage
import Acurast.Common.Message

/-! Storage of the pallet that sends and receives messages signed by oracles. -/

namespace Acurast.Ibc

open Base

abbrev MessageId := H256

abbrev MessageNonce := H256

abbrev Public := BitVec (8 * 33)

abbrev Signature := BitVec (8 * 65)

def signaturesMaxLength : ℕ := 32

abbrev Signatures := BoundedVec (Signature × Public) signaturesMaxLength

def oracleUpdatesMaxLength : ℕ := 50

def messagesCleanupMaxLength : ℕ := 50

abbrev MessagesCleanup := BoundedVec MessageId messagesCleanupMaxLength

structure ActivityWindow where
  startBlock : ℕ
  endBlock : Option ℕ
  deriving DecidableEq

inductive OracleUpdate where
  | add (oracle : Public) (window : ActivityWindow)
  | remove (oracle : Public)
  | update (oracle : Public) (window : ActivityWindow)
  deriving DecidableEq

abbrev OracleUpdates := BoundedVec OracleUpdate oracleUpdatesMaxLength

structure Message (A : Type) where
  id : MessageId
  sender : Subject A A
  nonce : MessageNonce
  recipient : Subject A A
  payload : Payload
  deriving DecidableEq

structure OutgoingMessageWithMeta (A : Type) where
  message : Message A
  currentBlock : ℕ
  ttlBlock : ℕ
  fee : ℕ
  payer : A
  deriving DecidableEq

structure IncomingMessageWithMeta (A : Type) where
  message : Message A
  currentBlock : ℕ
  relayer : MultiOrigin A
  deriving DecidableEq

/-- A fee is put on hold, paid to the relayer that confirms the delivery, or given back to its payer. -/
inductive FeeEntry (A : Type) where
  | held (message : OutgoingMessageWithMeta A)
  | paid (message : OutgoingMessageWithMeta A) (relayer : A) (block : ℕ)
  | refunded (message : OutgoingMessageWithMeta A) (block : ℕ)
  deriving DecidableEq

def Message.body {A : Type} (m : Message A) : MessageBody A A := ⟨m.sender, m.recipient, m.payload⟩

inductive Event (A : Type) where
  | oracleUpdated (added updated : List (Public × ActivityWindow)) (removed : List Public)
  | messageReadyToSend (message : OutgoingMessageWithMeta A)
  | messageDelivered (id : MessageId)
  | messageRemoved (id : MessageId)
  | messageProcessed (message : IncomingMessageWithMeta A)
  | messageProcessedWithErrors (message : IncomingMessageWithMeta A)
  deriving DecidableEq

inductive Error where
  | ttlSmallerThanMinimum | messageWithSameNoncePending | couldNotHoldFee | couldNotReleaseHoldFee
  | messageNotFound | cannotRemovePendingMessage | deliveryConfirmationOverdue
  | notEnoughSignaturesProvided | notEnoughSignaturesValid | signatureInvalid
  | messageAlreadyReceived | incorrectRecipient | payloadLengthExceeded | feeTooLow
  | selfMessagingNotAllowed
  | badOrigin
  | processingFailed
  deriving DecidableEq

abbrev Result (α : Type) := Except Error α

inductive Precision where
  | exact | bestEffort
  deriving DecidableEq

structure SendRequest (A : Type) where
  sender : A
  payer : A
  nonce : MessageNonce
  recipient : Subject A A
  payload : Bytes
  ttl : ℕ
  fee : ℕ

/-- The runtime's constants, the encodings and signatures of its libraries, and what it does outside
the pallet: the fee currency, and the processor of received messages. -/
structure Config (A : Type) where
  minTtl : ℕ
  incomingTtl : ℕ
  minDeliveryConfirmationSignatures : ℕ
  minReceiptConfirmationSignatures : ℕ
  minFee : ℕ
  updateOrigin : Origin A → Bool
  parachainId : ℕ
  selfChain : ProxyAcurastChain
  encodeParaId : ℕ → Bytes
  encodeIndex : ℕ → Bytes
  encodeHash : H256 → Bytes
  encodeAccount : A → Bytes
  encodeSubject : Subject A A → Bytes
  encodePayload : Payload → Bytes
  messageIdHashing : Bytes → H256
  verify : Signature → Bytes → Public → Bool
  World : Type
  hold : World → A → ℕ → Option World
  release : World → A → ℕ → Precision → Option World
  transferOnHold : World → A → A → ℕ → Option World
  /-- The processor's own effect, and the messages it sends in turn. -/
  process : World → MessageBody A A → Option (World × List (SendRequest A))

structure State {A : Type} (T : Config A) where
  world : T.World
  blockNumber : ℕ
  oraclePublicKeys : StorageMap Public ActivityWindow
  messageCounter : ℕ
  outgoingMessages : StorageMap MessageId (OutgoingMessageWithMeta A)
  outgoingMessagesLookup : StorageMap (Subject A A × MessageNonce) MessageId
  incomingMessages : StorageMap MessageId (IncomingMessageWithMeta A)
  incomingMessagesLookup : StorageMap (Subject A A × MessageId) Unit
  events : List (Event A)
  /-- The ids whose record was cleaned up, kept beside the storage and read by no function. -/
  cleaned : List MessageId
  /-- What was done with the fees, in its order, read by no function. -/
  fees : List (FeeEntry A)

def State.genesis {A : Type} (T : Config A) (w : T.World) : State T where
  world := w
  blockNumber := 0
  oraclePublicKeys := ∅
  messageCounter := 0
  outgoingMessages := ∅
  outgoingMessagesLookup := ∅
  incomingMessages := ∅
  incomingMessagesLookup := ∅
  events := []
  cleaned := []
  fees := []

end Acurast.Ibc

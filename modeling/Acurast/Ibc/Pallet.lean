import Acurast.Ibc.Types

/-! The pallet's calls, and the runs they make with the other pallets that send messages. -/

namespace Acurast.Ibc

open Base

variable {A : Type} {T : Config A}

def State.deposit (s : State T) (e : Event A) : State T := { s with events := e :: s.events }

def encodeMessage (T : Config A) (m : Message A) : Bytes :=
  T.encodeHash m.id ++ T.encodeSubject m.sender ++ T.encodeHash m.nonce ++
    T.encodeSubject m.recipient ++ T.encodePayload m.payload

def fullMessage (T : Config A) (m : Message A) (relayer : Option A) : Bytes :=
  T.encodeParaId T.parachainId ++ encodeMessage T m ++ (relayer.map T.encodeAccount).getD []

abbrev ActivityWindow.contains (window : ActivityWindow) (block : ℕ) : Prop :=
  window.startBlock ≤ block ∧ ∀ endBlock ∈ window.endBlock, block < endBlock

/-- Counts one signature. One of an unknown key, of a key counted before or of a key outside its
window is skipped; an invalid one is denied. -/
def checkSignature (s : State T) (bytes : Bytes) (checked : List Public)
    (signed : Signature × Public) : Result (List Public) :=
  match s.oraclePublicKeys.lookup signed.2 with
  | none => pure checked
  | some window =>
    if signed.2 ∈ checked ∨ ¬ window.contains s.blockNumber then pure checked
    else do
      ensure (T.verify signed.1 bytes signed.2 = true) .signatureInvalid
      pure (signed.2 :: checked)

def checkSignatures (s : State T) (message : Message A) (relayer : Option A)
    (signatures : Signatures) (minSignatures : ℕ) : Result Unit := do
  ensure (minSignatures ≤ signatures.val.length) .notEnoughSignaturesProvided
  let checked ← signatures.val.foldlM (checkSignature s (fullMessage T message relayer)) []
  ensure (minSignatures ≤ checked.length) .notEnoughSignaturesValid

def messageId (T : Config A) (sender : Subject A A) (nonce : MessageNonce) : MessageId :=
  T.messageIdHashing (T.encodeSubject sender ++ T.encodeHash nonce)

def selfSubject (T : Config A) (sender : A) : Subject A A :=
  match T.selfChain with
  | .acurast => .acurast (.extrinsic sender)
  | .acurastCanary => .acurastCanary (.extrinsic sender)

def replaceMessage (s : State T) (m : OutgoingMessageWithMeta A) : Result T.World := do
  ensure (m.ttlBlock < s.blockNumber) .messageWithSameNoncePending
  okOr (T.release s.world m.payer m.fee .exact) .couldNotReleaseHoldFee

variable [DecidableEq A]

def doSendMessage (s : State T) (r : SendRequest A) :
    Result (State T × OutgoingMessageWithMeta A × Option (OutgoingMessageWithMeta A)) := do
  ensure (T.minFee ≤ r.fee) .feeTooLow
  let sender := selfSubject T r.sender
  ensure (sender.proxyChain ≠ r.recipient.proxyChain) .selfMessagingNotAllowed
  let id := messageId T sender r.nonce
  let replaced := s.outgoingMessages.lookup id
  let w ← whenSome replaced s.world (replaceMessage s)
  ensure (T.minTtl ≤ r.ttl) .ttlSmallerThanMinimum
  let payload ← okOr (Payload.tryFrom r.payload) .payloadLengthExceeded
  let message : OutgoingMessageWithMeta A :=
    { message := ⟨id, sender, r.nonce, r.recipient, payload⟩
      currentBlock := s.blockNumber
      ttlBlock := saturatingAdd 32 s.blockNumber r.ttl
      fee := r.fee
      payer := r.payer }
  let w ← okOr (T.hold w r.payer r.fee) .couldNotHoldFee
  let s := { s with
    world := w
    outgoingMessages := s.outgoingMessages.insert id message
    outgoingMessagesLookup := s.outgoingMessagesLookup.insert (sender, r.nonce) id
    fees := s.fees ++ (replaced.map (FeeEntry.refunded · s.blockNumber)).toList ++
      [FeeEntry.held message] }
  pure (s.deposit (.messageReadyToSend message), message, replaced)

def sendMessage (s : State T) (r : SendRequest A) : Result (State T) := do
  let (s, _) ← doSendMessage s r
  pure s

def sendTestMessage (s : State T) (who : A) (recipient : Subject A A) (ttl fee : ℕ) :
    Result (State T) :=
  sendMessage { s with messageCounter := s.messageCounter + 1 }
    { sender := who
      payer := who
      nonce := T.messageIdHashing (T.encodeIndex s.messageCounter)
      recipient := recipient
      payload := T.encodeAccount who
      ttl := ttl
      fee := fee }

def clearOutgoing (s : State T) (id : MessageId) (m : Message A) : State T :=
  { s with
    outgoingMessages := s.outgoingMessages.erase id
    outgoingMessagesLookup := s.outgoingMessagesLookup.erase (m.sender, m.nonce) }

def confirmMessageDelivery (s : State T) (who : A) (id : MessageId) (signatures : Signatures) :
    Result (State T) := do
  let m ← okOr (s.outgoingMessages.lookup id) .messageNotFound
  ensure (s.blockNumber ≤ m.ttlBlock) .deliveryConfirmationOverdue
  checkSignatures s m.message (some who) signatures T.minDeliveryConfirmationSignatures
  let w ← okOr (T.transferOnHold s.world m.payer who m.fee) .couldNotReleaseHoldFee
  let s := { s with world := w, fees := s.fees ++ [FeeEntry.paid m who s.blockNumber] }
  pure (clearOutgoing (s.deposit (.messageDelivered id)) id m.message)

def removeMessage (s : State T) (id : MessageId) : Result (State T) := do
  let m ← okOr (s.outgoingMessages.lookup id) .messageNotFound
  ensure (m.ttlBlock < s.blockNumber) .cannotRemovePendingMessage
  let w ← okOr (T.release s.world m.payer m.fee .bestEffort) .couldNotHoldFee
  let s := { s with world := w, fees := s.fees ++ [FeeEntry.refunded m s.blockNumber] }
  pure (clearOutgoing (s.deposit (.messageRemoved id)) id m.message)

def processMessage (s : State T) (m : Message A) : Result (State T) := do
  let (w, requests) ← okOr (T.process s.world m.body) .processingFailed
  requests.foldlM sendMessage { s with world := w }

def acceptMessage (s : State T) (m : IncomingMessageWithMeta A) : State T :=
  let s := { s with
    incomingMessages := s.incomingMessages.insert m.message.id m
    incomingMessagesLookup := s.incomingMessagesLookup.insert (m.message.recipient, m.message.id) () }
  match processMessage s m.message with
  | .ok s => s.deposit (.messageProcessed m)
  | .error _ => s.deposit (.messageProcessedWithErrors m)

def receiveMessage (s : State T) (sender : Subject A A) (nonce : MessageNonce)
    (recipient : Subject A A) (payload : Payload) (relayer : MultiOrigin A)
    (signatures : Signatures) : Result (State T) := do
  ensure (recipient.proxyChain = T.selfChain.toProxyChain) .incorrectRecipient
  let id := messageId T sender nonce
  ensure (s.incomingMessages.lookup id = none) .messageAlreadyReceived
  let message : Message A := ⟨id, sender, nonce, recipient, payload⟩
  checkSignatures s message none signatures T.minReceiptConfirmationSignatures
  pure (acceptMessage s ⟨message, s.blockNumber, relayer⟩)

def cleanOne (acc : State T × ℕ) (id : MessageId) : State T × ℕ :=
  let s := acc.1
  match s.incomingMessages.lookup id with
  | none => acc
  | some m =>
    if saturatingAdd 32 m.currentBlock T.incomingTtl < s.blockNumber then
      ({ s with
        incomingMessages := s.incomingMessages.erase id
        incomingMessagesLookup := s.incomingMessagesLookup.erase (m.message.recipient, id)
        cleaned := id :: s.cleaned }, acc.2 + 1)
    else acc

def cleanIncoming (s : State T) (ids : MessagesCleanup) : State T × Pays :=
  let acc := ids.val.foldl cleanOne (s, 0)
  (acc.1, if acc.2 = ids.val.length then .no else .yes)

omit [DecidableEq A] in
def updateOracle (s : State T) : OracleUpdate → State T
  | .add oracle window => { s with oraclePublicKeys := s.oraclePublicKeys.insert oracle window }
  | .remove oracle => { s with oraclePublicKeys := s.oraclePublicKeys.erase oracle }
  | .update oracle window => { s with oraclePublicKeys := s.oraclePublicKeys.insert oracle window }

def OracleUpdate.added : OracleUpdate → Option (Public × ActivityWindow)
  | .add oracle window => some (oracle, window)
  | _ => none

def OracleUpdate.updated : OracleUpdate → Option (Public × ActivityWindow)
  | .update oracle window => some (oracle, window)
  | _ => none

def OracleUpdate.removed : OracleUpdate → Option Public
  | .remove oracle => some oracle
  | _ => none

def updateOracles (s : State T) (updates : OracleUpdates) : State T :=
  (updates.val.foldl updateOracle s).deposit
    (.oracleUpdated (updates.val.filterMap (·.added)) (updates.val.filterMap (·.updated))
      (updates.val.filterMap (·.removed)))

inductive Call (A : Type) where
  | updateOracles (updates : OracleUpdates)
  | sendTestMessage (recipient : Subject A A) (ttl fee : ℕ)
  | confirmMessageDelivery (id : MessageId) (signatures : Signatures)
  | removeMessage (id : MessageId)
  | receiveMessage (sender : Subject A A) (nonce : MessageNonce) (recipient : Subject A A)
      (payload : Payload) (relayer : MultiOrigin A) (signatures : Signatures)
  | cleanIncoming (ids : MessagesCleanup)

def dispatchSigned (s : State T) (who : A) : Call A → Result (State T × Pays)
  | .updateOracles _ => throw .badOrigin
  | .sendTestMessage recipient ttl fee => (·, .yes) <$> sendTestMessage s who recipient ttl fee
  | .confirmMessageDelivery id signatures => (·, .yes) <$> confirmMessageDelivery s who id signatures
  | .removeMessage id => (·, .yes) <$> removeMessage s id
  | .receiveMessage sender nonce recipient payload relayer signatures =>
    (·, .yes) <$> receiveMessage s sender nonce recipient payload relayer signatures
  | .cleanIncoming ids => pure (cleanIncoming s ids)

def dispatch (s : State T) (origin : Origin A) : Call A → Result (State T × Pays)
  | .updateOracles updates => do
    ensure (T.updateOrigin origin = true) .badOrigin
    pure (updateOracles s updates, .no)
  | call => do
    let who ← okOr origin.signer .badOrigin
    dispatchSigned s who call

inductive Op (T : Config A) where
  | dispatch (origin : Origin A) (call : Call A)
  | sendMessage (request : SendRequest A)
  | block
  | outside (world : T.World)

def step (s : State T) : Op T → State T
  | .dispatch origin call => transact s (Prod.fst <$> dispatch s origin call)
  | .sendMessage request => transact s (sendMessage s request)
  | .block => { s with blockNumber := s.blockNumber + 1 }
  | .outside w => { s with world := w }

end Acurast.Ibc

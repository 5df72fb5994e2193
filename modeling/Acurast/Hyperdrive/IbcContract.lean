import Acurast.Hyperdrive.Contracts

/-! The IBC contract of a proxy chain. Accounts hand it messages for Acurast, which the oracles read
from its storage, and relayers hand it messages from Acurast with the signatures of oracles. -/

namespace Acurast.Hyperdrive.IbcContract

open Base
open Ibc (MessageId MessageNonce Public Signature)

abbrev Result := Except Error

def ensureOwner (s : State) (caller : AccountId32) : Result Unit :=
  ensure (s.config.owner = caller) .notOwner

def ensureUnpaused (s : State) : Result Unit := ensure (s.config.paused = false) .contractPaused

def updateOracle (s : State) : OracleUpdate → State
  | .add oracle => { s with oraclePublicKeys := s.oraclePublicKeys.insert oracle () }
  | .remove oracle => { s with oraclePublicKeys := s.oraclePublicKeys.erase oracle }

def updateOracles (s : State) (updates : List OracleUpdate) : State := updates.foldl updateOracle s

def applyArgument (s : State) : ConfigureArgument → State
  | .owner address => { s with config := { s.config with owner := address } }
  | .paused paused => { s with config := { s.config with paused } }
  | .oraclePublicKeys updates => updateOracles s updates
  | .minDeliverySignatures n => { s with config := { s.config with minDeliverySignatures := n } }
  | .minReceiptSignatures n => { s with config := { s.config with minReceiptSignatures := n } }
  | .minTtl minTtl => { s with config := { s.config with minTtl } }
  | .incomingTtl incomingTtl => { s with config := { s.config with incomingTtl } }

def configure (s : State) (caller : AccountId32) (actions : List ConfigureArgument) : Result State := do
  ensureOwner s caller
  pure (actions.foldl applyArgument s)

def sendMessageSelector : BitVec 32 := 0xafdc403f

def encodeH256 (hash : H256) : Bytes := bigEndian 32 hash.toNat

variable (T : Setup) (chain : ProxyChain)

/-- Whoever calls the contract, the messages it sends have the contract itself as their sender. -/
def sender : ContractSubject :=
  match chain with
  | .alephZero => .alephZero (.contract ⟨T.ibc .alephZero, some sendMessageSelector⟩)
  | .vara => .vara (.contract ⟨T.ibc .vara, none⟩)

def messageId (sender : ContractSubject) (nonce : MessageNonce) : MessageId :=
  T.hash (T.encodeSubject sender ++ encodeH256 nonce)

def encodeMessage (m : Message) : Bytes :=
  encodeH256 m.id ++ T.encodeSubject m.sender ++ encodeH256 m.nonce ++ T.encodeSubject m.recipient ++
    encodeByteString m.payload

def messageHash (m : Message) (relayer : Option AccountId32) : H256 :=
  T.hash (encodeMessage T m ++ (relayer.map encodeAccount).getD [])

def checkSignature (s : State) (hash : H256) (seen : List Public) (signature : Signature) :
    Result (List Public) := do
  let key ← T.recover chain signature hash
  let _ ← okOr (s.oraclePublicKeys.lookup key) .publicKeyUnknown
  ensure (key ∉ seen) .duplicateSignature
  pure (seen ++ [key])

def checkSignatures (s : State) (m : Message) (relayer : Option AccountId32)
    (signatures : List Signature) (minSignatures : ℕ) : Result (List Public) := do
  ensure (minSignatures ≤ signatures.length) .notEnoughSignaturesValid
  signatures.foldlM (checkSignature T chain s (messageHash T m relayer)) []

def doSendMessage (env : Env) (s : State) (sender : ContractSubject) (payer : AccountId32)
    (nonce : MessageNonce) (recipient : ContractSubject) (payload : Bytes) (ttl fee : ℕ) :
    Result State := do
  -- Only the ink contract asks this a second time.
  ensure (chain = .alephZero → s.config.paused = false) .contractPaused
  let id := messageId T sender nonce
  -- A message whose time is over is overwritten below.
  ensure (∀ m ∈ s.outgoing.lookup id, m.ttlBlock < env.blockNumber) .messageWithSameNoncePending
  ensure (s.config.minTtl ≤ ttl) .ttlSmallerThanMinimum
  let m : OutgoingMessageWithMeta :=
    ⟨⟨id, sender, nonce, recipient, payload⟩, env.blockNumber, saturatingAdd 32 env.blockNumber ttl, fee,
      payer⟩
  pure { s with
    outgoing := s.outgoing.insert id m
    outgoingIndex := s.outgoingIndex ++ [id]
    messageCounter := saturatingAdd 128 s.messageCounter 1
    history := s.history ++ [.sent m] }

def sendMessage (env : Env) (s : State) (caller : AccountId32) (value : ℕ) (nonce : MessageNonce)
    (recipient : ContractSubject) (payload : Bytes) (ttl : ℕ) : Result State := do
  ensureUnpaused s
  doSendMessage T chain env s (sender T chain) caller nonce recipient payload ttl value

def sendTestMessage (env : Env) (s : State) (caller : AccountId32) (value : ℕ)
    (recipient : ContractSubject) (ttl : ℕ) : Result State := do
  ensureUnpaused s
  doSendMessage T chain env s (sender T chain) caller (T.hash (littleEndian 16 s.messageCounter))
    recipient (encodeAccount caller) ttl value

def confirmMessageDelivery (env : Env) (s : State) (funds : T.Funds) (caller : AccountId32)
    (id : MessageId) (signatures : List Signature) : Result (State × T.Funds) := do
  ensureUnpaused s
  let m ← okOr (s.outgoing.lookup id) .messageNotFound
  ensure (env.blockNumber ≤ m.ttlBlock) .deliveryConfirmationOverdue
  let _ ← checkSignatures T chain s m.message (some caller) signatures s.config.minDeliverySignatures
  let funds ← okOr (T.transfer funds (T.ibc chain) m.payer m.fee) .feeNotPaid
  pure ({ s with
    outgoing := s.outgoing.erase id
    outgoingIndex := s.outgoingIndex.filter (· ≠ id)
    history := s.history ++ [.paid m caller m.payer env.blockNumber] }, funds)

def contractCall : ContractSubject → Option (ContractCall AccountId32)
  | .alephZero (.contract call) => if chain = .alephZero then some call else none
  | .vara (.contract call) => if chain = .vara then some call else none
  | _ => none

def acceptMessage (env : Env) (s : State) (caller : AccountId32) (sender : ContractSubject)
    (nonce : MessageNonce) (recipient : ContractSubject) (payload : Bytes)
    (signatures : List Signature) : Result (State × ContractCall AccountId32) := do
  ensureUnpaused s
  let call ← okOr (contractCall chain recipient) .incorrectRecipient
  let id := messageId T sender nonce
  ensure (s.incoming.lookup id = none) .messageAlreadyReceived
  let m : Message := ⟨id, sender, nonce, recipient, payload⟩
  let signers ← checkSignatures T chain s m none signatures s.config.minReceiptSignatures
  let entry : Accepted := ⟨m, signers, s.config.minReceiptSignatures, s.oraclePublicKeys.keys⟩
  pure ({ s with
    incoming := s.incoming.insert id ⟨m, env.blockNumber, caller⟩
    incomingIndex := s.incomingIndex ++ [id]
    history := s.history ++ [.accepted entry] }, call)

/-- Only the ink contract has this and the next one. -/
def cleanOutgoingIndex (env : Env) (s : State) : Result State := do
  ensureUnpaused s
  let retain := fun id => (s.outgoing.lookup id).any fun m => env.blockNumber < m.ttlBlock
  pure { s with outgoingIndex := s.outgoingIndex.filter retain }

def cleanIncomingIndex (env : Env) (s : State) : Result State := do
  ensureUnpaused s
  let retain := fun id => (s.incoming.lookup id).any fun m =>
    env.blockNumber - s.config.incomingTtl < m.currentBlock
  pure { s with incomingIndex := s.incomingIndex.filter retain }

section Specs

variable {T chain} {env : Env} {s s' : State}

theorem updateOracles_frame (s : State) (ups : List OracleUpdate) :
    (updateOracles s ups).outgoing = s.outgoing ∧ (updateOracles s ups).history = s.history := by
  induction ups generalizing s with
  | nil => exact ⟨rfl, rfl⟩
  | cons update ups ih =>
    cases update with
    | add oracle => exact ih _
    | remove oracle => exact ih _

variable {caller : AccountId32} {signatures : List Signature} {nonce : MessageNonce}
  {payload : Bytes} {ttl value : ℕ}

theorem configure_frame {acts : List ConfigureArgument} (h : configure s caller acts = .ok s') :
    s'.outgoing = s.outgoing ∧ s'.history = s.history := by
  simp only [configure, ok_iff] at h
  obtain ⟨-, -, rfl⟩ := h
  induction acts generalizing s with
  | nil => exact ⟨rfl, rfl⟩
  | cons act acts ih =>
    have hf : (applyArgument s act).outgoing = s.outgoing ∧
        (applyArgument s act).history = s.history := by
      cases act with
      | oraclePublicKeys ups => exact updateOracles_frame s ups
      | owner | paused | minDeliverySignatures | minReceiptSignatures | minTtl | incomingTtl =>
        exact ⟨rfl, rfl⟩
    obtain ⟨ho, hh⟩ := ih (s := applyArgument s act)
    exact ⟨ho.trans hf.1, hh.trans hf.2⟩

theorem checkSignatures_spec {m : Message} {relayer : Option AccountId32} {minSignatures : ℕ}
    {signers : List Public}
    (h : checkSignatures T chain s m relayer signatures minSignatures = .ok signers) :
    minSignatures ≤ signers.length ∧ signers.Nodup ∧ (∀ key ∈ signers, key ∈ s.oraclePublicKeys.keys) ∧
      ∀ key ∈ signers, ∃ sig ∈ signatures,
        T.recover chain sig (messageHash T m relayer) = .ok key := by
  simp only [checkSignatures, ok_iff] at h
  obtain ⟨-, hm, h⟩ := h
  -- The loop is followed with the signatures that are behind it.
  have ho : ∀ (checked rest : List Signature) (seen : List Public),
      rest.foldlM (checkSignature T chain s (messageHash T m relayer)) seen = .ok signers →
      seen.length = checked.length → seen.Nodup → (∀ key ∈ seen, key ∈ s.oraclePublicKeys.keys) →
      (∀ key ∈ seen, ∃ sig ∈ checked,
        T.recover chain sig (messageHash T m relayer) = .ok key) →
      signers.length = (checked ++ rest).length ∧ signers.Nodup ∧
        (∀ key ∈ signers, key ∈ s.oraclePublicKeys.keys) ∧
        ∀ key ∈ signers, ∃ sig ∈ checked ++ rest,
          T.recover chain sig (messageHash T m relayer) = .ok key := by
    intro checked rest
    induction rest generalizing checked with
    | nil =>
      intro seen hr hl hn hkn hs
      rw [List.foldlM_nil, pure_eq_ok] at hr
      subst hr
      rw [List.append_nil]
      exact ⟨hl, hn, hkn, hs⟩
    | cons sig rest ih =>
      intro seen hr hl hn hkn hs
      simp only [List.foldlM_cons, checkSignature, ok_iff] at hr
      obtain ⟨seen', ⟨key, hk, known, hlo, -, hf, rfl⟩, hr⟩ := hr
      have hkk : key ∈ s.oraclePublicKeys.keys := by
        rw [← AList.mem_keys, ← AList.lookup_isSome, hlo]
        rfl
      have ht := ih (checked ++ [sig]) (seen ++ [key]) hr
      rw [List.append_assoc, List.singleton_append] at ht
      apply ht
      · rw [List.length_append, List.length_append, hl]
        rfl
      · refine List.Nodup.append hn (List.nodup_singleton key) ?_
        exact List.disjoint_singleton.mpr hf
      · intro key' hk'
        rcases List.mem_append.mp hk' with hse | hw
        · exact hkn key' hse
        · rw [List.mem_singleton.mp hw]
          exact hkk
      · intro key' hk'
        rcases List.mem_append.mp hk' with hse | hw
        · obtain ⟨signature', hme, hc⟩ := hs key' hse
          exact ⟨signature', List.mem_append_left _ hme, hc⟩
        · rw [List.mem_singleton.mp hw]
          exact ⟨sig, List.mem_append_right _ (List.mem_singleton_self _), hk⟩
  obtain ⟨hl, hn, hkn, hs⟩ := ho [] signatures [] h rfl List.nodup_nil
    (fun _ hk => nomatch hk) (fun _ hk => nomatch hk)
  exact ⟨hl ▸ hm, hn, hkn, hs⟩

structure Sends (s s' : State) (m : OutgoingMessageWithMeta) (env : Env) : Prop where
  outgoing : s'.outgoing = s.outgoing.insert m.message.id m
  history : s'.history = s.history ++ [.sent m]
  config : s'.config = s.config
  replaced : ∀ old ∈ s.outgoing.lookup m.message.id, old.ttlBlock < env.blockNumber

theorem doSendMessage_spec {sender recipient : ContractSubject} {payer : AccountId32} {fee : ℕ}
    (h : doSendMessage T chain env s sender payer nonce recipient payload ttl fee = .ok s') :
    ∃ m : OutgoingMessageWithMeta, Sends s s' m env ∧
      m.message = ⟨messageId T sender nonce, sender, nonce, recipient, payload⟩ ∧ m.fee = fee ∧
      m.payer = payer := by
  simp only [doSendMessage, ok_iff] at h
  obtain ⟨-, -, -, hr, -, -, rfl⟩ := h
  exact ⟨_, ⟨rfl, rfl, rfl, hr⟩, rfl, rfl, rfl⟩

theorem sendMessage_spec {recipient : ContractSubject}
    (h : sendMessage T chain env s caller value nonce recipient payload ttl = .ok s') :
    ∃ m : OutgoingMessageWithMeta, Sends s s' m env ∧
      m.message = ⟨messageId T (sender T chain) nonce, sender T chain, nonce, recipient, payload⟩ ∧
      m.fee = value ∧ m.payer = caller := by
  simp only [sendMessage, bind_eq_ok] at h
  obtain ⟨-, -, h⟩ := h
  exact doSendMessage_spec h

theorem sendTestMessage_spec {recipient : ContractSubject}
    (h : sendTestMessage T chain env s caller value recipient ttl = .ok s') :
    ∃ m : OutgoingMessageWithMeta, Sends s s' m env ∧ m.message.sender = sender T chain ∧
      m.message.payload = encodeAccount caller ∧ m.fee = value ∧ m.payer = caller ∧
      m.message.id = messageId T (sender T chain) (T.hash (littleEndian 16 s.messageCounter)) := by
  simp only [sendTestMessage, bind_eq_ok] at h
  obtain ⟨-, -, h⟩ := h
  obtain ⟨m, hs, hm, hf, hp⟩ := doSendMessage_spec h
  exact ⟨m, hs, by rw [hm], by rw [hm], hf, hp, by rw [hm]⟩

theorem confirmMessageDelivery_spec {funds funds' : T.Funds} {id : MessageId}
    (h : confirmMessageDelivery T chain env s funds caller id signatures = .ok (s', funds')) :
    ∃ m, s.outgoing.lookup id = some m ∧ env.blockNumber ≤ m.ttlBlock ∧
      T.transfer funds (T.ibc chain) m.payer m.fee = some funds' ∧
      s'.outgoing = s.outgoing.erase id ∧
      s'.history = s.history ++ [.paid m caller m.payer env.blockNumber] ∧
      (checkSignatures T chain s m.message (some caller) signatures
        s.config.minDeliverySignatures).isOk = true := by
  simp only [confirmMessageDelivery, ok_iff, Prod.mk.injEq] at h
  obtain ⟨-, -, m, hm, -, ht, signers, hc, funds₁, hp, rfl, rfl⟩ := h
  exact ⟨m, hm, ht, hp, rfl, rfl, isOk_iff.mpr ⟨signers, hc⟩⟩

structure Accepts (T : Setup) (chain : ProxyChain) (s s' : State) (signatures : List Signature)
    (call : ContractCall AccountId32) (a : Accepted) : Prop where
  id : a.message.id = messageId T a.message.sender a.message.nonce
  signers : checkSignatures T chain s a.message none signatures s.config.minReceiptSignatures =
    .ok a.signers
  required : a.required = s.config.minReceiptSignatures
  oracles : a.oracles = s.oraclePublicKeys.keys
  call : contractCall chain a.message.recipient = some call
  outgoing : s'.outgoing = s.outgoing
  history : s'.history = s.history ++ [.accepted a]

theorem acceptMessage_spec {sender recipient : ContractSubject} {call : ContractCall AccountId32}
    (h : acceptMessage T chain env s caller sender nonce recipient payload signatures = .ok (s',
      call)) :
    ∃ a : Accepted, Accepts T chain s s' signatures call a ∧ a.message.sender = sender ∧
      a.message.nonce = nonce ∧ a.message.recipient = recipient ∧ a.message.payload = payload := by
  simp only [acceptMessage, ok_iff, Prod.mk.injEq] at h
  obtain ⟨-, -, call₁, hc, -, -, signers, hs, rfl, rfl⟩ := h
  refine ⟨⟨⟨messageId T sender nonce, sender, nonce, recipient, payload⟩, signers,
    s.config.minReceiptSignatures, s.oraclePublicKeys.keys⟩, ?_, rfl, rfl, rfl, rfl⟩
  exact ⟨rfl, hs, rfl, rfl, hc, rfl, rfl⟩

theorem cleanOutgoingIndex_frame (h : cleanOutgoingIndex env s = .ok s') :
    s'.outgoing = s.outgoing ∧ s'.history = s.history := by
  simp only [cleanOutgoingIndex, ok_iff] at h
  obtain ⟨-, -, rfl⟩ := h
  exact ⟨rfl, rfl⟩

theorem cleanIncomingIndex_frame (h : cleanIncomingIndex env s = .ok s') :
    s'.outgoing = s.outgoing ∧ s'.history = s.history := by
  simp only [cleanIncomingIndex, ok_iff] at h
  obtain ⟨-, -, rfl⟩ := h
  exact ⟨rfl, rfl⟩

end Specs

end Acurast.Hyperdrive.IbcContract

import Acurast.Base.Balances
import Acurast.HyperdriveToken.Actions
import Acurast.Ibc.Types

/-! The pallet that bridges the native token. A transfer to a proxy chain locks the amount in a vault
and sends a message; a message from the proxy pays out of the vault. -/

namespace Acurast.HyperdriveToken

open Base
open Ibc (SendRequest)

inductive Error where
  | ethereumActionDecoderError (error : ActionDecoderError)
  | ethereumMessageEncoderError (error : ActionEncoderError)
  | invalidSender | invalidRecipient | unsupportedAssetId | transferAlreadyReceived
  | transferToVaultFailed | unknownTransferRetry | invalidTransferRetry
  | missingContractConfiguration | notEnabled | unsupportedAction | transferAmountTooLow
  | outside
  | badOrigin
  deriving DecidableEq

abbrev Result (α : Type) := Except Error α

structure Config (A : Type) where
  palletAccount : A
  ethereumVault : A
  ethereumFeeVault : A
  operationalFeeAccount : A
  minTransferAmount : ℕ
  defaultOutgoingTransferTtl : ℕ
  updateOrigin : Origin A → Bool
  operatorOrigin : Origin A → Bool
  parseAccountId : Bytes → Option A
  messageIdHash : Bytes → H256
  World : Type
  balance : World → A → ℕ
  transfer : World → A → A → ℕ → Keep → Option World
  /-- Sends a message; also the fee of the message it replaced. -/
  sendMessage : World → SendRequest A → Option (World × Option ℕ)

inductive Purpose where
  | transfer (proxy : ProxyChain) (nonce : TransferNonce)
  | enable (proxy : ProxyChain) (nonce : EnableNonce)
  deriving DecidableEq

/-- A trace of what the pallet did, read by no function of it. -/
inductive Entry (A : Type) where
  | accepted (proxy : ProxyChain) (nonce : TransferNonce) (amount : ℕ)
  | sent (purpose : Purpose) (request : SendRequest A)
  | paidOut (proxy : ProxyChain) (nonce : TransferNonce) (amount : ℕ)

structure State {A : Type} (T : Config A) where
  world : T.World
  enabled : Option Bool
  ethereumContract : Option AccountId20
  solanaContract : Option AccountId32
  outgoingTransfers : StorageMap (ProxyChain × TransferNonce) (A × MultiOrigin A × ℕ)
  nextTransferNonce : StorageMap ProxyChain TransferNonce
  incomingTransferNonces : StorageMap (ProxyChain × TransferNonce) Unit
  nextEnableNonce : Option EnableNonce
  outgoingTransferTtl : StorageMap ProxyChain ℕ
  history : List (Entry A)

def State.genesis {A : Type} (T : Config A) (w : T.World) : State T where
  world := w
  enabled := none
  ethereumContract := none
  solanaContract := none
  outgoingTransfers := ∅
  nextTransferNonce := ∅
  incomingTransferNonces := ∅
  nextEnableNonce := none
  outgoingTransferTtl := ∅
  history := []

variable {A : Type} {T : Config A}

def State.log (s : State T) (e : Entry A) : State T := { s with history := e :: s.history }

def proxyParams (s : State T) : ProxyChain → Result (Subject A A × A × A)
  | .ethereum => do
    let contract ← okOr s.ethereumContract .missingContractConfiguration
    pure (.ethereum (.contract ⟨contract, none⟩), T.ethereumVault, T.ethereumFeeVault)
  | _ => throw .invalidRecipient

def ensureEnabled (s : State T) : Result Unit := ensure (s.enabled.getD false = true) .notEnabled

def outgoingTransferTtlOrDefault (s : State T) (proxy : ProxyChain) : ℕ :=
  (s.outgoingTransferTtl.lookup proxy).getD T.defaultOutgoingTransferTtl

def lock (w : T.World) (source vault : A) (amount : ℕ) : Result T.World :=
  if amount = 0 then pure w
  else okOr (T.transfer w source vault amount .preserve) .transferToVaultFailed

def encode (action : Action A) : Result Bytes :=
  match action.encode with
  | .ok bytes => pure bytes
  | .error e => throw (.ethereumMessageEncoderError e)

def send (w : T.World) (source feeVault : A) (request : SendRequest A) : Result T.World := do
  let (w, replaced) ← okOr (T.sendMessage w request) .outside
  whenSome (replaced.filter (· ≠ 0)) w fun fee =>
    okOr (T.transfer w feeVault source fee .preserve) .outside

def transferNonceBytes (proxy : ProxyChain) (nonce : TransferNonce) : Bytes :=
  proxy.encode ++ bigEndian 8 nonce

def enableNonceBytes (proxy : ProxyChain) (nonce : EnableNonce) : Bytes :=
  [101, 110, 97, 98, 108, 101] ++ proxy.encode ++ bigEndian 4 nonce

def sendRequest (s : State T) (feeVault : A) (recipient : Subject A A) (proxy : ProxyChain)
    (nonce : Bytes) (encoded : Bytes) (fee : ℕ) : SendRequest A where
  sender := T.palletAccount
  payer := feeVault
  nonce := T.messageIdHash nonce
  recipient := recipient
  payload := encoded
  ttl := outgoingTransferTtlOrDefault s proxy
  fee := fee

/-- A new transfer gets the next nonce and locks its amount; one that is sent again has a nonce
already, and locks only the fee. -/
def doTransferNative (s : State T) (source : A) (dest : MultiOrigin A) (amount fee : ℕ)
    (transferNonce : Option TransferNonce) : Result (State T × TransferNonce) := do
  ensure (T.minTransferAmount ≤ amount) .transferAmountTooLow
  let proxy := dest.proxyChain
  let (recipient, vault, feeVault) ← proxyParams s proxy
  let w ← lockNew s.world vault
  let next := s.nextTransferNonce.getD proxy 0
  let nonce := transferNonce.getD next
  let w ← lock w source feeVault fee
  let encoded ← encode (.transferToken amount none nonce dest)
  let request := sendRequest s feeVault recipient proxy (transferNonceBytes proxy nonce) encoded fee
  let w ← send w source feeVault request
  pure ({ s with
    world := w
    nextTransferNonce := if transferNonce = none then
      s.nextTransferNonce.insert proxy ((next + 1) % 2 ^ 64) else s.nextTransferNonce }.log
        (.sent (.transfer proxy nonce) request), nonce)
where
  lockNew (w : T.World) (vault : A) : Result T.World :=
    if transferNonce = none then lock w source vault amount else pure w

def transferNative (s : State T) (source : A) (dest : MultiOrigin A) (amount fee : ℕ) :
    Result (State T) := do
  let proxy := dest.proxyChain
  let (s, nonce) ← doTransferNative s source dest amount fee none
  pure ({ s with
    outgoingTransfers := s.outgoingTransfers.insert (proxy, nonce) (source, dest, amount) }.log
      (.accepted proxy nonce amount))

def doEnable (s : State T) (source : A) (proxy : ProxyChain) (enabled : Bool) (fee : ℕ) :
    Result (State T) := do
  let (recipient, _, feeVault) ← proxyParams s proxy
  let w ← lock s.world source feeVault fee
  let encoded ← encode (.setEnabled enabled : Action A)
  let nonce := s.nextEnableNonce.getD 0
  let request := sendRequest s feeVault recipient proxy (enableNonceBytes proxy nonce) encoded fee
  let w ← send w source feeVault request
  pure ({ s with
    world := w
    nextEnableNonce := some ((nonce + 1) % 2 ^ 32) }.log (.sent (.enable proxy nonce) request))

def payOut (w : T.World) (dest : A) (amount : ℕ) : Result T.World :=
  if amount = 0 then pure w
  else okOr (T.transfer w T.ethereumVault dest amount .protect) .transferToVaultFailed

def execute (s : State T) (proxy : ProxyChain) : Action A → Result (State T)
  | .transferToken amount assetId nonce dest => do
    ensure (assetId = none) .unsupportedAssetId
    ensure (s.incomingTransferNonces.lookup (proxy, nonce) = none) .transferAlreadyReceived
    let s := { s with incomingTransferNonces := s.incomingTransferNonces.insert (proxy, nonce) () }
    let dest ← acurastAccount dest
    let w ← payOut s.world dest amount
    pure ({ s with world := w }.log (.paidOut proxy nonce amount))
  | .noop => pure s
  | .setEnabled _ => throw .unsupportedAction
where
  acurastAccount : MultiOrigin A → Result A
    | .acurast account => pure account
    | _ => throw .invalidRecipient

def readMessage (s : State T) (message : MessageBody A A) : Result (ProxyChain × Action A) :=
  match message.sender with
  | .ethereum (.contract call) => do
    let contract ← okOr s.ethereumContract .missingContractConfiguration
    ensure (call.contract = contract) .invalidSender
    match Action.decode T.parseAccountId message.payload.val with
    | .ok action => pure (.ethereum, action)
    | .error e => throw (.ethereumActionDecoderError e)
  | .solana (.contract call) => do
    let contract ← okOr s.solanaContract .missingContractConfiguration
    ensure (call.contract = contract) .invalidSender
    throw .invalidSender
  | _ => throw .invalidSender

def process (s : State T) (message : MessageBody A A) : Result (State T) := do
  let (proxy, action) ← readMessage s message
  execute s proxy action

inductive Call (A : Type) where
  | transferNative (dest : MultiOrigin A) (amount fee : ℕ)
  | retryTransferNative (proxy : ProxyChain) (nonce : TransferNonce) (fee : ℕ)
  | updateEthereumContract (contract : AccountId20)
  | updateSolanaContract (contract : AccountId32)
  | setEnabled (enabled : Bool)
  | enableProxyChain (proxy : ProxyChain) (enabled : Bool) (fee : ℕ)
  | updateOutgoingTransferTtl (proxy : ProxyChain) (ttl : Option ℕ)

variable [DecidableEq A]

def retryTransferNative (s : State T) (source : A) (proxy : ProxyChain) (nonce : TransferNonce)
    (fee : ℕ) : Result (State T) := do
  let (prevSource, prevRecipient, prevAmount) ←
    okOr (s.outgoingTransfers.lookup (proxy, nonce)) .unknownTransferRetry
  ensure (prevSource = source) .invalidTransferRetry
  let (s, _) ← doTransferNative s source prevRecipient prevAmount fee (some nonce)
  pure s

def dispatch (s : State T) (origin : Origin A) : Call A → Result (State T)
  | .transferNative dest amount fee => do
    ensureEnabled s
    let source ← okOr origin.signer .badOrigin
    transferNative s source dest amount fee
  | .retryTransferNative proxy nonce fee => do
    ensureEnabled s
    let source ← okOr origin.signer .badOrigin
    retryTransferNative s source proxy nonce fee
  | .updateEthereumContract contract => do
    ensure (T.updateOrigin origin = true) .badOrigin
    pure { s with ethereumContract := some contract }
  | .updateSolanaContract contract => do
    ensure (T.updateOrigin origin = true) .badOrigin
    pure { s with solanaContract := some contract }
  | .setEnabled enabled => do
    ensure (T.operatorOrigin origin = true) .badOrigin
    pure { s with enabled := some enabled }
  | .enableProxyChain proxy enabled fee => do
    ensure (T.operatorOrigin origin = true) .badOrigin
    doEnable s T.operationalFeeAccount proxy enabled fee
  | .updateOutgoingTransferTtl proxy ttl => do
    ensure (T.updateOrigin origin = true) .badOrigin
    pure { s with
      outgoingTransferTtl := match ttl with
        | some value => s.outgoingTransferTtl.insert proxy value
        | none => s.outgoingTransferTtl.erase proxy }

inductive Op (T : Config A) where
  | dispatch (origin : Origin A) (call : Call A)
  | process (message : MessageBody A A)
  | outside (world : T.World)

def step (s : State T) : Op T → State T
  | .dispatch origin call => transact s (dispatch s origin call)
  | .process message => transact s (process s message)
  | .outside w => { s with world := w }

end Acurast.HyperdriveToken

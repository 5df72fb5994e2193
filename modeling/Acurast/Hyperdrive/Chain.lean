import Acurast.Hyperdrive.IbcContract
import Acurast.Hyperdrive.Proxy

/-! A proxy chain with both contracts. On the ink chain a call of another contract is part of the
caller's step. A Vara program queues a message: `send(..).await` is ready as soon as the message is
queued, the program goes on and drops the reply, and a call that fails queues nothing. -/

namespace Acurast.Hyperdrive

open Base
open Ibc (MessageId MessageNonce Signature)
open Proxy (SendRequest UserAction)

inductive Pending where
  | sending (ibc : AccountId32) (request : SendRequest)
  | receiving (payload : Bytes)
  deriving DecidableEq

structure Outcome where
  request : SendRequest
  error : Option Proxy.Error
  deriving DecidableEq

structure ChainState (T : Setup) where
  env : Env
  ibc : IbcContract.State
  proxy : Proxy.State
  funds : T.Funds
  pending : List Pending
  /-- The answers to the proxy, in their order. No function reads them. -/
  outcomes : List Outcome

inductive ChainError where
  | ibc (error : IbcContract.Error)
  | proxy (error : Proxy.Error)
  /-- Contracts call only what their code calls. -/
  | notExternal
  | noFunds
  | nothingPending
  /-- The contract of this chain has no such message. -/
  | unavailable
  deriving DecidableEq

abbrev ChainResult := Except ChainError

inductive ChainOp where
  | advance (blocks milliseconds : ℕ)
  | transfer (source dest : AccountId32) (amount : ℕ)
  | configureIbc (caller : AccountId32) (actions : List IbcContract.ConfigureArgument)
  | sendMessage (caller : AccountId32) (value : U128) (nonce : MessageNonce)
      (recipient : ContractSubject) (payload : Bytes) (ttl : ℕ)
  | sendTestMessage (caller : AccountId32) (value : U128) (recipient : ContractSubject) (ttl : ℕ)
  | confirmMessageDelivery (caller : AccountId32) (id : MessageId) (signatures : List Signature)
  | receiveMessage (caller : AccountId32) (sender : ContractSubject) (nonce : MessageNonce)
      (recipient : ContractSubject) (payload : Bytes) (signatures : List Signature)
  | cleanOutgoingIndex (caller : AccountId32)
  | cleanIncomingIndex (caller : AccountId32)
  | configureProxy (caller : AccountId32) (actions : List Proxy.ConfigureArgument)
  | sendActions (caller : AccountId32) (value : U128) (actions : List UserAction)
  | receiveAction (caller : AccountId32) (payload : Bytes)
  | fulfill (caller : AccountId32) (jobId : U128) (payload : Bytes)
  | process (i : ℕ)
  deriving DecidableEq

def ChainOp.caller : ChainOp → Option AccountId32
  | .advance _ _ | .process _ => none
  | .transfer caller _ _ | .configureIbc caller _ | .sendMessage caller _ _ _ _ _
  | .sendTestMessage caller _ _ _ | .confirmMessageDelivery caller _ _
  | .receiveMessage caller _ _ _ _ _ | .cleanOutgoingIndex caller | .cleanIncomingIndex caller
  | .configureProxy caller _ | .sendActions caller _ _ | .receiveAction caller _
  | .fulfill caller _ _ => some caller

variable (T : Setup) (chain : ProxyChain)

def External (op : ChainOp) : Prop :=
  ∀ caller ∈ op.caller, caller ≠ T.ibc chain ∧ caller ≠ T.proxy chain

instance (op : ChainOp) : Decidable (External T chain op) :=
  match h : op.caller with
  | none => isTrue fun _ hcaller => nomatch h.symm.trans hcaller
  | some caller =>
    decidable_of_iff (caller ≠ T.ibc chain ∧ caller ≠ T.proxy chain)
      ⟨fun hne _ hcaller => Option.mem_unique h hcaller ▸ hne,
        fun hexternal => hexternal caller h⟩

def callIbc (env : Env) (ibc : IbcContract.State) (target : AccountId32) (request : SendRequest) :
    Proxy.Result IbcContract.State :=
  if target = T.ibc chain then
    (IbcContract.sendMessage T chain env ibc (T.proxy chain) 0 request.nonce request.recipient
      request.payload Proxy.messageTtl).mapError .ibcError
  else if T.elsewhere chain target then .ok ibc
  else .error .ibcFailed

/-- The message of an action is handed to the IBC contract. The Vara program does not learn what the
IBC program makes of it. -/
def submitRequest (s : ChainState T) (target : AccountId32) (request : SendRequest) :
    ChainResult (ChainState T) :=
  match chain with
  | .alephZero => do
    let ibc ← (callIbc T chain s.env s.ibc target request).mapError .proxy
    pure { s with ibc, outcomes := s.outcomes ++ [⟨request, none⟩] }
  | .vara => pure { s with pending := s.pending ++ [.sending target request] }

def sendAction (caller : AccountId32) (value : U128) (call : ℕ) (s : ChainState T)
    (action : UserAction) : ChainResult (ChainState T) := do
  let (proxy, request) ←
    (Proxy.prepareAction T chain s.env s.proxy caller value call action).mapError .proxy
  let s ← submitRequest T chain s proxy.config.ibc request
  pure { s with proxy := Proxy.advanceActionId proxy }

def sendActions (s : ChainState T) (caller : AccountId32) (value : U128) (actions : List UserAction) :
    ChainResult (ChainState T) := do
  let funds ← okOr (T.transfer s.funds caller (T.proxy chain) value.toNat) .noFunds
  (Proxy.ensureUnpaused s.proxy).mapError .proxy
  let call := s.proxy.calls
  actions.foldlM (sendAction T chain caller value call)
    { s with funds, proxy := { s.proxy with calls := call + 1 } }

def receiveActionSelector : BitVec 32 := 0x7cd99c82

def receiveAction (s : ChainState T) (caller : AccountId32) (payload : Bytes) :
    ChainResult (ChainState T) := do
  let (proxy, funds) ← (Proxy.receiveAction T chain s.proxy s.funds caller payload).mapError .proxy
  pure { s with proxy, funds }

def fulfill (s : ChainState T) (caller : AccountId32) (jobId : U128) (payload : Bytes) :
    ChainResult (ChainState T) := do
  let (proxy, funds) ← (Proxy.fulfill T chain s.proxy s.funds caller jobId payload).mapError .proxy
  pure { s with proxy, funds }

def configureProxy (s : ChainState T) (caller : AccountId32) (actions : List Proxy.ConfigureArgument) :
    ChainResult (ChainState T) := do
  let proxy ← (Proxy.configure s.proxy caller actions).mapError .proxy
  pure { s with proxy }

def callProxy (s : ChainState T) (selector : BitVec 32) (payload : Bytes) : ChainResult (ChainState T) :=
  if selector = receiveActionSelector then receiveAction T chain s (T.ibc chain) payload
  else match T.input selector payload with
    | some (.configure actions) => configureProxy T s (T.ibc chain) actions
    | some (.fulfill jobId payload) => fulfill T chain s (T.ibc chain) jobId payload
    | none => .error .unavailable

def passOn (s : ChainState T) (call : ContractCall AccountId32) (payload : Bytes) : ChainState T :=
  if call.contract = T.proxy chain then
    match chain, call.selector with
    | .alephZero, some selector => transact s (callProxy T .alephZero s selector payload)
    | .alephZero, none => s
    | .vara, _ => { s with pending := s.pending ++ [.receiving payload] }
  else s

def receiveMessage (s : ChainState T) (caller : AccountId32) (sender : ContractSubject)
    (nonce : MessageNonce) (recipient : ContractSubject) (payload : Bytes)
    (signatures : List Signature) : ChainResult (ChainState T) := do
  let (ibc, call) ← (IbcContract.acceptMessage T chain s.env s.ibc caller sender nonce recipient
    payload signatures).mapError .ibc
  pure (passOn T chain { s with ibc } call payload)

def processPending (s : ChainState T) : Pending → ChainState T
  | .sending target request =>
    let answer := callIbc T chain s.env s.ibc target request
    { s with ibc := transact s.ibc answer, outcomes := s.outcomes ++ [⟨request, errorOf answer⟩] }
  | .receiving payload => transact s (receiveAction T chain s (T.ibc chain) payload)

def process (s : ChainState T) (i : ℕ) : ChainResult (ChainState T) := do
  let message ← okOr s.pending[i]? .nothingPending
  pure (processPending T chain { s with pending := s.pending.eraseIdx i } message)

def dispatchChain (s : ChainState T) (op : ChainOp) : ChainResult (ChainState T) := do
  ensure (External T chain op) .notExternal
  match op with
  | .advance blocks milliseconds =>
    pure { s with env := ⟨s.env.blockNumber + blocks, s.env.blockTimestamp + milliseconds⟩ }
  | .transfer source dest amount => do
    let funds ← okOr (T.transfer s.funds source dest amount) .noFunds
    pure { s with funds }
  | .configureIbc caller actions => do
    let ibc ← (IbcContract.configure s.ibc caller actions).mapError .ibc
    pure { s with ibc }
  | .sendMessage caller value nonce recipient payload ttl => do
    let funds ← okOr (T.transfer s.funds caller (T.ibc chain) value.toNat) .noFunds
    let ibc ← (IbcContract.sendMessage T chain s.env s.ibc caller value.toNat nonce recipient payload
      ttl).mapError .ibc
    pure { s with funds, ibc }
  | .sendTestMessage caller value recipient ttl => do
    let funds ← okOr (T.transfer s.funds caller (T.ibc chain) value.toNat) .noFunds
    let ibc ← (IbcContract.sendTestMessage T chain s.env s.ibc caller value.toNat recipient
      ttl).mapError .ibc
    pure { s with funds, ibc }
  | .confirmMessageDelivery caller id signatures => do
    let (ibc, funds) ← (IbcContract.confirmMessageDelivery T chain s.env s.ibc s.funds caller id
      signatures).mapError .ibc
    pure { s with ibc, funds }
  | .receiveMessage caller sender nonce recipient payload signatures =>
    receiveMessage T chain s caller sender nonce recipient payload signatures
  | .cleanOutgoingIndex _ => do
    ensure (chain = .alephZero) .unavailable
    let ibc ← (IbcContract.cleanOutgoingIndex s.env s.ibc).mapError .ibc
    pure { s with ibc }
  | .cleanIncomingIndex _ => do
    ensure (chain = .alephZero) .unavailable
    let ibc ← (IbcContract.cleanIncomingIndex s.env s.ibc).mapError .ibc
    pure { s with ibc }
  | .configureProxy caller actions => configureProxy T s caller actions
  | .sendActions caller value actions => sendActions T chain s caller value actions
  | .receiveAction caller payload => receiveAction T chain s caller payload
  | .fulfill caller jobId payload => fulfill T chain s caller jobId payload
  | .process i => process T chain s i

def stepChain (s : ChainState T) (op : ChainOp) : ChainState T := transact s (dispatchChain T chain s op)

section Specs

open IbcContract (Sends OutgoingMessageWithMeta)

variable {T chain} {s s' : ChainState T}

structure Aside (T : Setup) (chain : ProxyChain) (s s' : ChainState T) : Prop where
  outgoing : s'.ibc.outgoing = s.ibc.outgoing
  history : s'.ibc.history = s.ibc.history
  proxy : s'.proxy = s.proxy
  pending : s'.pending = s.pending
  outcomes : s'.outcomes = s.outcomes
  funds : ∀ account, account = T.ibc chain ∨ account = T.proxy chain →
    T.balance s.funds account ≤ T.balance s'.funds account

inductive PassedOn (T : Setup) (chain : ProxyChain) (s : ChainState T)
    (call : ContractCall AccountId32) (payload : Bytes) : ChainState T → Prop
  | ignored : PassedOn T chain s call payload s
  | received {proxy : Proxy.State} {funds : T.Funds} (hchain : chain = .alephZero)
      (hselector : call.selector = some receiveActionSelector)
      (h : Proxy.receiveAction T chain s.proxy s.funds (T.ibc chain) payload = .ok (proxy, funds)) :
      PassedOn T chain s call payload { s with proxy, funds }
  | configured {proxy : Proxy.State} {actions : List Proxy.ConfigureArgument}
      (h : Proxy.configure s.proxy (T.ibc chain) actions = .ok proxy) :
      PassedOn T chain s call payload { s with proxy }
  | fulfilled {proxy : Proxy.State} {funds : T.Funds} {jobId : U128} {argument : Bytes}
      (h : Proxy.fulfill T chain s.proxy s.funds (T.ibc chain) jobId argument = .ok (proxy, funds)) :
      PassedOn T chain s call payload { s with proxy, funds }
  | enqueued (h : chain = .vara) :
      PassedOn T chain s call payload { s with pending := s.pending ++ [.receiving payload] }

variable {payload : Bytes} {jobId value : U128} {actions : List Proxy.ConfigureArgument}
  {ibc ibc' : IbcContract.State} {funds' : T.Funds} {env : Env} {request : SendRequest}
  {target : AccountId32} {action : UserAction} {call : ℕ} {p p'' : Proxy.State}

theorem receiveAction_eq_ok {who : AccountId32}
    (h : receiveAction T chain s who payload = .ok s') :
    ∃ proxy funds, Proxy.receiveAction T chain s.proxy s.funds who payload = .ok (proxy, funds) ∧
      s' = { s with proxy, funds } := by
  simp only [receiveAction, ok_iff, mapError_eq_ok] at h
  obtain ⟨⟨proxy, funds⟩, hr, rfl⟩ := h
  exact ⟨proxy, funds, hr, rfl⟩

theorem fulfill_eq_ok {who : AccountId32} (h : fulfill T chain s who jobId payload = .ok s') :
    ∃ proxy funds, Proxy.fulfill T chain s.proxy s.funds who jobId payload = .ok (proxy, funds) ∧
      s' = { s with proxy, funds } := by
  simp only [fulfill, ok_iff, mapError_eq_ok] at h
  obtain ⟨⟨proxy, funds⟩, hf, rfl⟩ := h
  exact ⟨proxy, funds, hf, rfl⟩

theorem configureProxy_eq_ok {who : AccountId32} (h : configureProxy T s who actions = .ok s') :
    ∃ proxy, Proxy.configure s.proxy who actions = .ok proxy ∧ s' = { s with proxy } := by
  simp only [configureProxy, ok_iff, mapError_eq_ok] at h
  obtain ⟨proxy, hc, rfl⟩ := h
  exact ⟨proxy, hc, rfl⟩

theorem callProxy_spec {call : ContractCall AccountId32} {selector : BitVec 32}
    (hc : call.selector = some selector) (h : callProxy T .alephZero s selector payload = .ok s') :
    PassedOn T .alephZero s call payload s' := by
  unfold callProxy at h
  split_ifs at h with hs
  · obtain ⟨proxy, funds, hr, rfl⟩ := receiveAction_eq_ok h
    exact .received rfl (hs ▸ hc) hr
  · split at h
    · obtain ⟨proxy, ho, rfl⟩ := configureProxy_eq_ok h
      exact .configured ho
    · obtain ⟨proxy, funds, hf, rfl⟩ := fulfill_eq_ok h
      exact .fulfilled hf
    · cases h

theorem passOn_spec (s : ChainState T) (call : ContractCall AccountId32) (payload : Bytes) :
    passOn T chain s call payload = s ∨ call.contract = T.proxy chain ∧
      PassedOn T chain s call payload (passOn T chain s call payload) := by
  unfold passOn
  split_ifs with hc
  · refine .inr ⟨hc, ?_⟩
    cases chain with
    | alephZero =>
      cases hs : call.selector with
      | none => exact .ignored
      | some selector =>
        exact transact_induction .ignored fun s' ha => callProxy_spec hs ha
    | vara => exact .enqueued rfl
  · exact .inl rfl

/-- What a call that succeeds does, with the facts that the contracts' functions answer for. -/
inductive Did (T : Setup) (chain : ProxyChain) (s : ChainState T) : ChainOp → ChainState T → Prop
  | aside {op : ChainOp} {s' : ChainState T} (h : Aside T chain s s') : Did T chain s op s'
  | sent {caller : AccountId32} {value : U128} {nonce : MessageNonce} {recipient : ContractSubject}
      {payload : Bytes} {ttl : ℕ} {funds : T.Funds} {ibc : IbcContract.State}
      {m : OutgoingMessageWithMeta}
      (hpay : T.transfer s.funds caller (T.ibc chain) value.toNat = some funds)
      (hsends : Sends s.ibc ibc m s.env)
      (hm : m.message = ⟨IbcContract.messageId T (IbcContract.sender T chain) nonce,
        IbcContract.sender T chain, nonce, recipient, payload⟩)
      (hfee : m.fee = value.toNat) (hpayer : m.payer = caller) :
      Did T chain s (.sendMessage caller value nonce recipient payload ttl) { s with funds, ibc }
  | sentTest {caller : AccountId32} {value : U128} {recipient : ContractSubject} {ttl : ℕ}
      {funds : T.Funds} {ibc : IbcContract.State} {m : OutgoingMessageWithMeta}
      (hpay : T.transfer s.funds caller (T.ibc chain) value.toNat = some funds)
      (hsends : Sends s.ibc ibc m s.env) (hsender : m.message.sender = IbcContract.sender T chain)
      (hpayload : m.message.payload = encodeAccount caller)
      (hfee : m.fee = value.toNat) (hpayer : m.payer = caller)
      (hid : m.message.id = IbcContract.messageId T (IbcContract.sender T chain)
        (T.hash (littleEndian 16 s.ibc.messageCounter))) :
      Did T chain s (.sendTestMessage caller value recipient ttl) { s with funds, ibc }
  | confirmed {caller : AccountId32} {id : MessageId} {signatures : List Signature}
      {m : OutgoingMessageWithMeta} {funds : T.Funds} {ibc : IbcContract.State}
      (hm : s.ibc.outgoing.lookup id = some m) (httl : s.env.blockNumber ≤ m.ttlBlock)
      (hpay : T.transfer s.funds (T.ibc chain) m.payer m.fee = some funds)
      (houtgoing : ibc.outgoing = s.ibc.outgoing.erase id)
      (hhistory : ibc.history = s.ibc.history ++ [.paid m caller m.payer s.env.blockNumber])
      (hchecked : (IbcContract.checkSignatures T chain s.ibc m.message (some caller) signatures
        s.ibc.config.minDeliverySignatures).isOk = true) :
      Did T chain s (.confirmMessageDelivery caller id signatures) { s with funds, ibc }
  | accepted {caller : AccountId32} {sender recipient : ContractSubject} {nonce : MessageNonce}
      {payload : Bytes} {signatures : List Signature} {ibc : IbcContract.State}
      {call : ContractCall AccountId32}
      (haccept : IbcContract.acceptMessage T chain s.env s.ibc caller sender nonce recipient payload
        signatures = .ok (ibc, call)) :
      Did T chain s (.receiveMessage caller sender nonce recipient payload signatures)
        (passOn T chain { s with ibc } call payload)
  | configured {caller : AccountId32} {actions : List Proxy.ConfigureArgument} {proxy : Proxy.State}
      (h : Proxy.configure s.proxy caller actions = .ok proxy) :
      Did T chain s (.configureProxy caller actions) { s with proxy }
  | acted {caller : AccountId32} {value : U128} {actions : List UserAction} {s' : ChainState T}
      (h : sendActions T chain s caller value actions = .ok s') :
      Did T chain s (.sendActions caller value actions) s'
  | received {caller : AccountId32} {payload : Bytes} {proxy : Proxy.State} {funds : T.Funds}
      (h : Proxy.receiveAction T chain s.proxy s.funds caller payload = .ok (proxy, funds)) :
      Did T chain s (.receiveAction caller payload) { s with proxy, funds }
  | fulfilled {caller : AccountId32} {jobId : U128} {payload : Bytes} {proxy : Proxy.State}
      {funds : T.Funds}
      (h : Proxy.fulfill T chain s.proxy s.funds caller jobId payload = .ok (proxy, funds)) :
      Did T chain s (.fulfill caller jobId payload) { s with proxy, funds }
  | processed {i : ℕ} {message : Pending} (h : s.pending[i]? = some message) :
      Did T chain s (.process i)
        (processPending T chain { s with pending := s.pending.eraseIdx i } message)

theorem aside_of_ibc (h : ibc.outgoing = s.ibc.outgoing ∧ ibc.history = s.ibc.history) :
    Aside T chain s { s with ibc } :=
  ⟨h.1, h.2, rfl, rfl, rfl, fun _ _ => le_rfl⟩

theorem balance_le_of_transfer {src dest account : AccountId32} {x : ℕ} {funds : T.Funds}
    (hn : account ≠ src) (h : T.transfer funds src dest x = some funds') :
    T.balance funds account ≤ T.balance funds' account := by
  have hb := T.balance_transfer h account
  rw [if_neg hn] at hb
  omega

theorem dispatchChain_spec {op : ChainOp} (h : dispatchChain T chain s op = .ok s') :
    External T chain op ∧ Did T chain s op s' := by
  simp only [dispatchChain, ok_iff] at h
  obtain ⟨-, hx, h⟩ := h
  refine ⟨hx, ?_⟩
  cases op with
  | advance blocks milliseconds =>
    cases h
    exact .aside ⟨rfl, rfl, rfl, rfl, rfl, fun _ _ => le_rfl⟩
  | transfer source dest amount =>
    simp only [ok_iff] at h
    obtain ⟨funds, hp, rfl⟩ := h
    have ho := hx source rfl
    refine .aside ⟨rfl, rfl, rfl, rfl, rfl, fun account hac => ?_⟩
    apply balance_le_of_transfer _ hp
    rcases hac with rfl | rfl
    · exact ho.1.symm
    · exact ho.2.symm
  | configureIbc caller actions =>
    simp only [ok_iff, mapError_eq_ok] at h
    obtain ⟨ibc, hc, rfl⟩ := h
    exact .aside (aside_of_ibc (IbcContract.configure_frame hc))
  | sendMessage caller value nonce recipient payload ttl =>
    simp only [ok_iff, mapError_eq_ok] at h
    obtain ⟨funds, hp, ibc, hs, rfl⟩ := h
    obtain ⟨m, hse, hm, hf, ha⟩ := IbcContract.sendMessage_spec hs
    exact .sent hp hse hm hf ha
  | sendTestMessage caller value recipient ttl =>
    simp only [ok_iff, mapError_eq_ok] at h
    obtain ⟨funds, hp, ibc, hs, rfl⟩ := h
    obtain ⟨m, hse, hn, hy, hf, ha, hd⟩ := IbcContract.sendTestMessage_spec hs
    exact .sentTest hp hse hn hy hf ha hd
  | confirmMessageDelivery caller id signatures =>
    simp only [ok_iff, mapError_eq_ok] at h
    obtain ⟨⟨ibc, funds⟩, hcon, rfl⟩ := h
    obtain ⟨m, hm, ht, hp, hu, hh, hch⟩ :=
      IbcContract.confirmMessageDelivery_spec hcon
    exact .confirmed hm ht hp hu hh hch
  | receiveMessage caller sender nonce recipient payload signatures =>
    simp only [receiveMessage, ok_iff, mapError_eq_ok] at h
    obtain ⟨⟨ibc, call⟩, hacc, rfl⟩ := h
    exact .accepted hacc
  | cleanOutgoingIndex caller =>
    simp only [ok_iff, mapError_eq_ok] at h
    obtain ⟨-, -, ibc, hl, rfl⟩ := h
    exact .aside (aside_of_ibc (IbcContract.cleanOutgoingIndex_frame hl))
  | cleanIncomingIndex caller =>
    simp only [ok_iff, mapError_eq_ok] at h
    obtain ⟨-, -, ibc, hl, rfl⟩ := h
    exact .aside (aside_of_ibc (IbcContract.cleanIncomingIndex_frame hl))
  | configureProxy caller actions =>
    obtain ⟨proxy, hc, rfl⟩ := configureProxy_eq_ok h
    exact .configured hc
  | sendActions caller value actions => exact .acted h
  | receiveAction caller payload =>
    obtain ⟨proxy, funds, hr, rfl⟩ := receiveAction_eq_ok h
    exact .received hr
  | fulfill caller jobId payload =>
    obtain ⟨proxy, funds, hfu, rfl⟩ := fulfill_eq_ok h
    exact .fulfilled hfu
  | process i =>
    simp only [process, ok_iff] at h
    obtain ⟨message, hme, rfl⟩ := h
    exact .processed hme

theorem callIbc_spec (h : callIbc T chain env ibc target request = .ok ibc') :
    ibc' = ibc ∨ ∃ m : OutgoingMessageWithMeta, Sends ibc ibc' m env ∧
      m.message = ⟨IbcContract.messageId T (IbcContract.sender T chain) request.nonce,
        IbcContract.sender T chain, request.nonce, request.recipient, request.payload⟩ ∧ m.fee = 0 := by
  unfold callIbc at h
  split_ifs at h with ht hl
  · rw [mapError_eq_ok] at h
    obtain ⟨m, hs, hm, hf, -⟩ := IbcContract.sendMessage_spec h
    exact .inr ⟨m, hs, hm, hf⟩
  · cases h
    exact .inl rfl

inductive Submits (T : Setup) (chain : ProxyChain) (s : ChainState T) (target : AccountId32)
    (request : SendRequest) : ChainState T → Prop
  | called {ibc : IbcContract.State} (hchain : chain = .alephZero)
      (h : callIbc T chain s.env s.ibc target request = .ok ibc) :
      Submits T chain s target request
        { s with ibc, outcomes := s.outcomes ++ [⟨request, none⟩] }
  | queued (hchain : chain = .vara) :
      Submits T chain s target request { s with pending := s.pending ++ [.sending target request] }

theorem submitRequest_spec (h : submitRequest T chain s target request = .ok s') :
    Submits T chain s target request s' := by
  cases chain with
  | alephZero =>
    simp only [submitRequest, ok_iff, mapError_eq_ok] at h
    obtain ⟨ibc, hc, rfl⟩ := h
    exact .called rfl hc
  | vara =>
    cases h
    exact .queued rfl

theorem sendAction_spec {who : AccountId32}
    (h : sendAction T chain who value call s action = .ok s') :
    ∃ px request t, Proxy.Carries T chain s.proxy who action request ∧
      Proxy.Prepares s.proxy px who value call action ∧
      Submits T chain s px.config.ibc request t ∧
      s' = { t with proxy := Proxy.advanceActionId px } := by
  simp only [sendAction, ok_iff, mapError_eq_ok] at h
  obtain ⟨⟨px, request⟩, hp, t, ho, rfl⟩ := h
  obtain ⟨hc, hr⟩ := Proxy.prepareAction_spec hp
  exact ⟨px, request, t, hc, hr, submitRequest_spec ho, rfl⟩

def withCall (s : ChainState T) (funds : T.Funds) : ChainState T :=
  { s with funds, proxy := { s.proxy with calls := s.proxy.calls + 1 } }

theorem sendActions_spec {who : AccountId32} {actions : List UserAction}
    (h : sendActions T chain s who value actions = .ok s') :
    ∃ funds, T.transfer s.funds who (T.proxy chain) value.toNat = some funds ∧
      actions.foldlM (sendAction T chain who value s.proxy.calls) (withCall s funds) = .ok s' := by
  simp only [sendActions, ok_iff] at h
  obtain ⟨funds, hp, -, -, hl⟩ := h
  exact ⟨funds, hp, hl⟩

structure Extends (s s' : ChainState T) : Prop where
  ibc : s.ibc.history <+: s'.ibc.history
  proxy : s.proxy.history <+: s'.proxy.history

theorem Extends.refl (s : ChainState T) : Extends s s := ⟨List.prefix_rfl, List.prefix_rfl⟩

theorem Extends.trans {s₁ s₂ s₃ : ChainState T} (h : Extends s₁ s₂) (h' : Extends s₂ s₃) :
    Extends s₁ s₃ :=
  ⟨h.ibc.trans h'.ibc, h.proxy.trans h'.proxy⟩

theorem extends_of_eq (hb : s'.ibc.history = s.ibc.history)
    (hp : s'.proxy.history = s.proxy.history) : Extends s s' := by
  constructor
  · rw [hb]
  · rw [hp]

theorem prepares_history {who : AccountId32} (h : Proxy.Prepares p p' who value call action) :
    p.history <+: p'.history := by
  cases h with
  | register payload cost hr =>
    rw [hr.state]
    exact List.prefix_append _ _
  | other action hj hs => rw [hs]

theorem callIbc_history (h : callIbc T chain env ibc target request = .ok ibc') :
    ibc.history <+: ibc'.history := by
  rcases callIbc_spec h with rfl | ⟨m, hs, -, -⟩
  · exact List.prefix_rfl
  · rw [hs.history]
    exact List.prefix_append _ _

theorem submits_history (h : Submits T chain s target request s') :
    s.ibc.history <+: s'.ibc.history := by
  cases h with
  | called _ hc => exact callIbc_history hc
  | queued => exact List.prefix_rfl

theorem receiveAction_extends {funds : T.Funds} {who : AccountId32}
    (h : Proxy.receiveAction T chain p funds who payload = .ok (p', funds')) :
    p.history <+: p'.history := by
  obtain ⟨action, turn, -, -, -, -, rfl⟩ := Proxy.receiveAction_spec h
  rw [List.append_assoc]
  exact List.prefix_append _ _

theorem fulfill_extends {funds : T.Funds} {who : AccountId32}
    (h : Proxy.fulfill T chain p funds who jobId payload = .ok (p', funds')) :
    p.history <+: p'.history := by
  obtain ⟨job, -, -, -, rfl⟩ := Proxy.fulfill_spec h
  exact List.prefix_append _ _

theorem configure_history {who : AccountId32} (h : Proxy.configure p who actions = .ok p') :
    p'.history = p.history := by
  obtain ⟨-, rfl⟩ := Proxy.configure_spec h
  rfl

theorem passOn_extends (s : ChainState T) (call : ContractCall AccountId32) (payload : Bytes) :
    Extends s (passOn T chain s call payload) ∧ (passOn T chain s call payload).ibc = s.ibc := by
  rcases passOn_spec s call payload with hs | ⟨-, hp⟩
  · rw [hs]
    exact ⟨.refl s, rfl⟩
  · generalize passOn T chain s call payload = s' at hp
    cases hp with
    | ignored => exact ⟨.refl s, rfl⟩
    | received _ _ hr => exact ⟨⟨List.prefix_rfl, receiveAction_extends hr⟩, rfl⟩
    | configured hc => exact ⟨extends_of_eq rfl (configure_history hc), rfl⟩
    | fulfilled hf => exact ⟨⟨List.prefix_rfl, fulfill_extends hf⟩, rfl⟩
    | enqueued => exact ⟨extends_of_eq rfl rfl, rfl⟩

theorem processPending_extends (s : ChainState T) (msg : Pending) :
    Extends s (processPending T chain s msg) := by
  cases msg with
  | sending target request =>
    refine ⟨?_, List.prefix_rfl⟩
    exact transact_induction (P := fun ibc => s.ibc.history <+: ibc.history) List.prefix_rfl
      fun ibc hc => callIbc_history hc
  | receiving payload =>
    refine transact_induction (.refl s) fun s' hc => ?_
    obtain ⟨proxy, funds, hr, rfl⟩ := receiveAction_eq_ok hc
    exact ⟨List.prefix_rfl, receiveAction_extends hr⟩

theorem sendActions_extends {who : AccountId32} {actions : List UserAction}
    (h : sendActions T chain s who value actions = .ok s') : Extends s s' := by
  obtain ⟨funds, -, hl⟩ := sendActions_spec h
  have hs : Extends s (withCall s funds) := extends_of_eq rfl rfl
  refine foldlM_invariant (P := Extends s) (fun t user t' hu ht => ?_) hl hs
  obtain ⟨px, request, t₁, -, hr, ho, rfl⟩ := sendAction_spec hu
  have hp : t.proxy.history <+: px.history := prepares_history hr
  have hb : t.ibc.history <+: t₁.ibc.history := submits_history ho
  exact ht.trans ⟨hb, hp⟩

theorem stepChain_extends (s : ChainState T) (op : ChainOp) : Extends s (stepChain T chain s op) := by
  refine transact_induction (.refl s) fun s' hdi => ?_
  have hd := (dispatchChain_spec hdi).2
  cases hd with
  | aside has => exact extends_of_eq has.history (congrArg Proxy.State.history has.proxy)
  | sent hp hs hm hf hpa =>
    refine ⟨?_, List.prefix_rfl⟩
    rw [hs.history]
    exact List.prefix_append _ _
  | sentTest hp hs hsender hy hf hpa =>
    refine ⟨?_, List.prefix_rfl⟩
    rw [hs.history]
    exact List.prefix_append _ _
  | confirmed hm ht hp hou hh =>
    refine ⟨?_, List.prefix_rfl⟩
    rw [hh]
    exact List.prefix_append _ _
  | accepted ha =>
    rename_i ibc call
    obtain ⟨a, hc, -⟩ := IbcContract.acceptMessage_spec ha
    have hac : Extends s { s with ibc } := by
      refine ⟨?_, List.prefix_rfl⟩
      rw [hc.history]
      exact List.prefix_append _ _
    exact hac.trans (passOn_extends _ call _).1
  | configured ho => exact extends_of_eq rfl (configure_history ho)
  | acted hn => exact sendActions_extends hn
  | received hr => exact ⟨List.prefix_rfl, receiveAction_extends hr⟩
  | fulfilled hu => exact ⟨List.prefix_rfl, fulfill_extends hu⟩
  | processed hme =>
    rename_i i message
    have her : Extends s { s with pending := s.pending.eraseIdx i } := extends_of_eq rfl rfl
    exact her.trans (processPending_extends _ message)

end Specs

end Acurast.Hyperdrive

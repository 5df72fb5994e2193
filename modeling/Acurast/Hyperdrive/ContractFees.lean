import Acurast.Hyperdrive.Origins

/-! The fees of messages in the IBC contracts. A fee is attached to a message when it is sent, and
paid when a relayer confirms the delivery. It goes back to whoever paid it, and is kept when the
message is replaced. -/

namespace Acurast.Hyperdrive

open Base
open IbcContract (OutgoingMessageWithMeta Sends)
open Proxy (UserAction SendRequest Turn)

variable {T : Setup} {chain ch : ProxyChain}

def IbcContract.Entry.sent? : IbcContract.Entry → Option OutgoingMessageWithMeta
  | .sent m => some m
  | _ => none

def IbcContract.Entry.paid? : IbcContract.Entry → Option OutgoingMessageWithMeta
  | .paid m _ _ _ => some m
  | _ => none

def sentSum (weight : OutgoingMessageWithMeta → ℕ) (s : IbcContract.State) : ℕ :=
  ((s.history.filterMap IbcContract.Entry.sent?).map weight).sum

def paidSum (weight : OutgoingMessageWithMeta → ℕ) (s : IbcContract.State) : ℕ :=
  ((s.history.filterMap IbcContract.Entry.paid?).map weight).sum

def storedSum (weight : OutgoingMessageWithMeta → ℕ) (s : IbcContract.State) : ℕ :=
  s.outgoing.sum fun _ m => weight m

/-- Fees are paid at most once, to the relayer who confirmed the delivery in time; the contract has
the fees of the stored messages, and keeps none of other messages. -/
structure FeesSettled (T : Setup) (chain : ProxyChain) (s : ChainState T) : Prop where
  once : ∀ m, (s.ibc.history.filterMap IbcContract.Entry.paid?).count m ≤
    (s.ibc.history.filterMap IbcContract.Entry.sent?).count m
  relayed : ∀ m relayer dest block, .paid m relayer dest block ∈ s.ibc.history →
    block ≤ m.ttlBlock ∧ (m.fee = 0 ∨ dest = relayer)
  backed : storedSum OutgoingMessageWithMeta.fee s.ibc ≤ T.balance s.funds (T.ibc chain)
  released : sentSum OutgoingMessageWithMeta.fee s.ibc =
    paidSum OutgoingMessageWithMeta.fee s.ibc + storedSum OutgoingMessageWithMeta.fee s.ibc

def storesUnder (T : Setup) (chain : ProxyChain) (s : ChainState T) : ChainOp → List Ibc.MessageId
  | .sendMessage _ _ nonce _ _ _ => [IbcContract.messageId T (IbcContract.sender T chain) nonce]
  | .sendTestMessage _ _ _ _ => [IbcContract.messageId T (IbcContract.sender T chain)
    (T.hash (littleEndian 16 s.ibc.messageCounter))]
  | .sendActions _ _ actions =>
    if chain = .alephZero then
      (List.range actions.length).map fun k => IbcContract.messageId T (IbcContract.sender T chain)
        (Proxy.actionNonce T chain (s.proxy.nextOutgoingActionId + BitVec.ofNat 64 k))
    else []
  | .process i =>
    match s.pending[i]? with
    | some (.sending _ request) =>
      [IbcContract.messageId T (IbcContract.sender T chain) request.nonce]
    | _ => []
  | _ => []

abbrev Spares (s : ChainState T) (id : Ibc.MessageId) : Prop :=
  ∀ m ∈ s.ibc.outgoing.lookup id, m.ttlBlock < s.env.blockNumber → m.fee = 0

def ConfirmedByPayer (T : Setup) (chain : ProxyChain) (s : ChainState T) : ChainOp → Prop
  | .confirmMessageDelivery caller id signatures =>
    ∀ m ∈ s.ibc.outgoing.lookup id, s.env.blockNumber ≤ m.ttlBlock →
      (IbcContract.checkSignatures T chain s.ibc m.message (some caller) signatures
        s.ibc.config.minDeliverySignatures).isOk = true →
      m.fee = 0 ∨ m.payer = caller
  | _ => True

/-- No expired message that still has a fee is replaced, and deliveries of messages with a fee are
confirmed by whoever paid it. -/
structure KeepsFees (T : Setup) (chain : ProxyChain) (s : ChainState T) (op : ChainOp) : Prop where
  stores : ∀ id ∈ storesUnder T chain s op, Spares s id
  confirms : ConfirmedByPayer T chain s op

section Ledger

variable {s s' : ChainState T}

structure FeeLedger (T : Setup) (chain : ProxyChain) (s : ChainState T) : Prop where
  bounded : ∀ weight, paidSum weight s.ibc + storedSum weight s.ibc ≤ sentSum weight s.ibc
  relayed : ∀ m relayer dest block, .paid m relayer dest block ∈ s.ibc.history →
    block ≤ m.ttlBlock ∧ (m.fee = 0 ∨ dest = relayer)
  backed : storedSum OutgoingMessageWithMeta.fee s.ibc ≤ T.balance s.funds (T.ibc chain)
  released : sentSum OutgoingMessageWithMeta.fee s.ibc ≤
    paidSum OutgoingMessageWithMeta.fee s.ibc + storedSum OutgoingMessageWithMeta.fee s.ibc

theorem FeeLedger.feesSettled (h : FeeLedger T ch s) : FeesSettled T ch s := by
  refine ⟨fun m => ?_, h.relayed, h.backed, le_antisymm h.released (h.bounded _)⟩
  have hc : ∀ messages : List OutgoingMessageWithMeta,
      (messages.map fun m' => if m' = m then 1 else 0).sum = messages.count m := by
    intro messages
    induction messages with
    | nil => rfl
    | cons m' messages ih =>
      rw [List.map_cons, List.sum_cons, ih, List.count_cons, Nat.add_comm]
      simp only [beq_iff_eq]
  have hb := h.bounded fun m' => if m' = m then 1 else 0
  rw [paidSum, sentSum, hc, hc] at hb
  omega

theorem FeeLedger.congr (h : FeeLedger T ch s) (ho : s'.ibc.outgoing = s.ibc.outgoing)
    {es : List IbcContract.Entry} (hh : s'.ibc.history = s.ibc.history ++ es)
    (hs : ∀ e ∈ es, e.sent? = none ∧ e.paid? = none)
    (hb : T.balance s.funds (T.ibc ch) ≤ T.balance s'.funds (T.ibc ch)) :
    FeeLedger T ch s' := by
  have hse : ∀ w, sentSum w s'.ibc = sentSum w s.ibc := by
    intro w
    have hn : es.filterMap IbcContract.Entry.sent? = [] :=
      List.filterMap_eq_nil_iff.mpr fun e he => (hs e he).1
    rw [sentSum, hh, List.filterMap_append, hn, List.append_nil, sentSum]
  have hp : ∀ w, paidSum w s'.ibc = paidSum w s.ibc := by
    intro w
    have hn : es.filterMap IbcContract.Entry.paid? = [] :=
      List.filterMap_eq_nil_iff.mpr fun e he => (hs e he).2
    rw [paidSum, hh, List.filterMap_append, hn, List.append_nil, paidSum]
  have ht : ∀ w, storedSum w s'.ibc = storedSum w s.ibc := by
    intro w
    rw [storedSum, ho, storedSum]
  constructor
  · intro w
    rw [hp, ht, hse]
    exact h.bounded w
  · intro m relayer dest block hm
    rw [hh] at hm
    rcases List.mem_append.mp hm with hold | hw
    · exact h.relayed m relayer dest block hold
    · cases (hs _ hw).2
  · rw [ht]
    exact h.backed.trans hb
  · rw [hp, ht, hse]
    exact h.released

variable {m : OutgoingMessageWithMeta} {caller who target : AccountId32} {id : Ibc.MessageId}
  {ibc : IbcContract.State} {request req : SendRequest} {val : U128} {pl : Bytes}

theorem FeeLedger.send (h : FeeLedger T ch s) {env : Env} (hs : Sends s.ibc s'.ibc m env)
    (hr : ∀ old ∈ s.ibc.outgoing.lookup m.message.id, old.fee = 0)
    (hb : T.balance s.funds (T.ibc ch) + m.fee ≤ T.balance s'.funds (T.ibc ch)) :
    FeeLedger T ch s' := by
  have hsen : ∀ w, sentSum w s'.ibc = sentSum w s.ibc + w m := by
    intro w
    rw [sentSum, hs.history, List.filterMap_append, List.map_append, List.sum_append]
    rfl
  have hp : ∀ w, paidSum w s'.ibc = paidSum w s.ibc := by
    intro w
    rw [paidSum, hs.history, List.filterMap_append]
    exact congrArg (fun messages => (List.map w messages).sum) (List.append_nil _)
  have ht : ∀ w, storedSum w s'.ibc + StorageMap.at? (fun _ m' => w m')
      m.message.id (s.ibc.outgoing.lookup m.message.id) = storedSum w s.ibc + w m := by
    intro w
    rw [storedSum, hs.outgoing]
    exact StorageMap.sum_insert _ _ _ _
  constructor
  · intro w
    have hold := h.bounded w
    have hn := ht w
    rw [hp, hsen]
    omega
  · intro m' relayer dest block hm
    rw [hs.history] at hm
    rcases List.mem_append.mp hm with hold | hn
    · exact h.relayed m' relayer dest block hold
    · cases List.mem_singleton.mp hn
  · have hold := h.backed
    have hn := ht OutgoingMessageWithMeta.fee
    omega
  · have hold := h.released
    have hn := ht OutgoingMessageWithMeta.fee
    have ho : StorageMap.at? (fun _ m' => OutgoingMessageWithMeta.fee m') m.message.id
        (s.ibc.outgoing.lookup m.message.id) = 0 := by
      cases hl : s.ibc.outgoing.lookup m.message.id with
      | none => rfl
      | some old => exact hr old hl
    rw [hp, hsen]
    omega

theorem FeeLedger.confirm (h : FeeLedger T ch s) (hm : s.ibc.outgoing.lookup id = some m)
    (ht : s.env.blockNumber ≤ m.ttlBlock)
    (ha : T.transfer s.funds (T.ibc ch) m.payer m.fee = some s'.funds)
    (ho : s'.ibc.outgoing = s.ibc.outgoing.erase id)
    (hh : s'.ibc.history = s.ibc.history ++ [.paid m who m.payer s.env.blockNumber])
    (hr : m.fee = 0 ∨ m.payer = who) : FeeLedger T ch s' := by
  have hse : ∀ w, sentSum w s'.ibc = sentSum w s.ibc := by
    intro w
    rw [sentSum, hh, List.filterMap_append]
    exact congrArg (fun messages => (List.map w messages).sum) (List.append_nil _)
  have hp : ∀ w, paidSum w s'.ibc = paidSum w s.ibc + w m := by
    intro w
    rw [paidSum, hh, List.filterMap_append, List.map_append, List.sum_append]
    rfl
  have hs : ∀ w, storedSum w s'.ibc + w m = storedSum w s.ibc := by
    intro w
    rw [storedSum, ho]
    exact sum_erase_some hm _
  constructor
  · intro w
    have hold := h.bounded w
    have hn := hs w
    rw [hp, hse]
    omega
  · intro m' relayer dest block hme
    rw [hh] at hme
    rcases List.mem_append.mp hme with hold | hn
    · exact h.relayed m' relayer dest block hold
    · cases List.mem_singleton.mp hn
      exact ⟨ht, hr⟩
  · have hold := h.backed
    have hn := hs OutgoingMessageWithMeta.fee
    have hb := T.balance_transfer ha (T.ibc ch)
    rw [if_pos rfl] at hb
    omega
  · have hold := h.released
    have hn := hs OutgoingMessageWithMeta.fee
    rw [hp, hse]
    omega

theorem FeeLedger.transfer (h : FeeLedger T ch s) {source dest : AccountId32} {x : ℕ}
    {funds : T.Funds} (hn : T.ibc ch ≠ source)
    (hp : T.transfer s.funds source dest x = some funds)
    {proxy : Proxy.State} {pending : List Pending} :
    FeeLedger T ch { s with proxy, pending, funds } :=
  h.congr rfl (List.append_nil _).symm (fun _ he => nomatch he) (balance_le_of_transfer hn hp)

theorem FeeLedger.proxy (h : FeeLedger T ch s) {proxy : Proxy.State} {pending : List Pending} :
    FeeLedger T ch { s with proxy, pending } :=
  h.congr rfl (List.append_nil _).symm (fun _ he => nomatch he) le_rfl

theorem FeeLedger.pay (h : FeeLedger T ch s) {turn : Turn} {funds : T.Funds}
    (hp : turn.pay T ch s.funds = some funds) {proxy : Proxy.State} :
    FeeLedger T ch { s with proxy, funds } := by
  unfold Turn.pay at hp
  split at hp
  · cases hp
    exact h.proxy
  · exact h.transfer (T.apart ch) hp

theorem FeeLedger.callIbc (h : FeeLedger T ch s)
    (hp : Spares s (IbcContract.messageId T (IbcContract.sender T ch) req.nonce))
    (hc : Hyperdrive.callIbc T ch s.env s.ibc target req = .ok ibc) :
    FeeLedger T ch { s with ibc } := by
  rcases callIbc_spec hc with rfl | ⟨m, hs, hm, hf⟩
  · exact h
  · refine h.send hs (fun old hold => ?_) ?_
    · have hd : m.message.id = IbcContract.messageId T (IbcContract.sender T ch) req.nonce := by
        rw [hm]
      rw [hd] at hold
      exact hp old hold (hs.replaced old (hd ▸ hold))
    · rw [hf]
      exact le_rfl

theorem callIbc_spares (hc : callIbc T ch s.env s.ibc target req = .ok ibc)
    (hs : Spares s id) : Spares { s with ibc } id := by
  rcases callIbc_spec hc with rfl | ⟨m, hse, -, hf⟩
  · exact hs
  · intro m' hm' hx
    rw [hse.outgoing, Option.mem_def, lookup_insert_eq] at hm'
    split_ifs at hm'
    · cases hm'
      exact hf
    · exact hs m' hm' hx

theorem FeeLedger.inkLoop {call : ℕ} (acts : List UserAction) (h : FeeLedger T .alephZero s)
    (hs : ∀ k < acts.length, Spares s (IbcContract.messageId T (IbcContract.sender T .alephZero)
      (Proxy.actionNonce T .alephZero (s.proxy.nextOutgoingActionId + BitVec.ofNat 64 k))))
    (hl : acts.foldlM (sendAction T .alephZero who val call) s = .ok s') :
    FeeLedger T .alephZero s' := by
  induction acts generalizing s with
  | nil =>
    cases hl
    exact h
  | cons user acts ih =>
    rw [List.foldlM_cons, bind_eq_ok] at hl
    obtain ⟨t, ht, hr⟩ := hl
    obtain ⟨px, req, t₁, ha, hpr, ho, rfl⟩ := sendAction_spec ht
    cases ho with
    | queued hn => cases hn
    | @called ibc _ hc =>
      have hf := hs 0 (Nat.zero_lt_succ _)
      rw [BitVec.add_zero, ← ha.nonce] at hf
      have hd := hpr.nextOutgoingActionId
      have hn : FeeLedger T .alephZero { s with
          ibc, proxy := Proxy.advanceActionId px, outcomes := s.outcomes ++ [⟨req, none⟩] } :=
        (h.callIbc hf hc).congr rfl (List.append_nil _).symm (fun _ he => nomatch he) le_rfl
      refine ih hn (fun k hk => ?_) hr
      have hp := callIbc_spares hc (hs (k + 1) (Nat.succ_lt_succ hk))
      show Spares { s with ibc } (IbcContract.messageId T (IbcContract.sender T .alephZero)
        (Proxy.actionNonce T .alephZero (px.nextOutgoingActionId + 1 + BitVec.ofNat 64 k)))
      have hu : s.proxy.nextOutgoingActionId + 1 + BitVec.ofNat 64 k =
          s.proxy.nextOutgoingActionId + BitVec.ofNat 64 (k + 1) := by
        rw [BitVec.add_assoc, BitVec.add_comm 1, BitVec.ofNat_add]
        rfl
      rw [hd, hu]
      exact hp

theorem FeeLedger.receiveAction (h : FeeLedger T ch s) {proxy : Proxy.State} {funds : T.Funds}
    (hr : Proxy.receiveAction T ch s.proxy s.funds who pl = .ok (proxy, funds)) :
    FeeLedger T ch { s with proxy, funds } := by
  obtain ⟨act, turn, -, -, -, hp, -⟩ := Proxy.receiveAction_spec hr
  exact h.pay hp

theorem FeeLedger.fulfill (h : FeeLedger T ch s) {j : U128} {proxy : Proxy.State}
    {funds : T.Funds}
    (hf : Proxy.fulfill T ch s.proxy s.funds who j pl = .ok (proxy, funds)) :
    FeeLedger T ch { s with proxy, funds } := by
  obtain ⟨job, -, -, hp, -⟩ := Proxy.fulfill_spec hf
  exact h.pay hp

theorem passOn_feeLedger {call : ContractCall AccountId32} (h : FeeLedger T ch s) :
    FeeLedger T ch (passOn T ch s call pl) := by
  rcases passOn_spec s call pl with hs | ⟨-, hp⟩
  · rw [hs]
    exact h
  · generalize passOn T ch s call pl = s' at hp
    cases hp with
    | ignored => exact h
    | received _ _ hr => exact h.receiveAction hr
    | configured => exact h.proxy
    | fulfilled hf => exact h.fulfill hf
    | enqueued => exact h.proxy

theorem sendActions_feeLedger {acts : List UserAction}
    (hx : External T ch (.sendActions who val acts))
    (hke : KeepsFees T ch s (.sendActions who val acts))
    (hse : sendActions T ch s who val acts = .ok s') (h : FeeLedger T ch s) :
    FeeLedger T ch s' := by
  obtain ⟨funds, hp, hl⟩ := sendActions_spec hse
  have hs : FeeLedger T ch (withCall s funds) := h.transfer (hx who rfl).1.symm hp
  cases ch with
  | alephZero =>
    refine hs.inkLoop acts (fun k hk => ?_) hl
    have hd := List.mem_map_of_mem (f := fun k => IbcContract.messageId T
      (IbcContract.sender T .alephZero) (Proxy.actionNonce T .alephZero
        (s.proxy.nextOutgoingActionId + BitVec.ofNat 64 k))) (List.mem_range.mpr hk)
    exact hke.stores _ hd
  | vara =>
    refine foldlM_invariant (P := FeeLedger T .vara) (fun t user t' hu ht => ?_) hl hs
    obtain ⟨px, req, t₁, -, -, ho, rfl⟩ := sendAction_spec hu
    cases ho with
    | called hn => cases hn
    | queued => exact ht.proxy

theorem processPending_feeLedger {i : ℕ} {msg : Pending} (hm : s.pending[i]? = some msg)
    (hk : KeepsFees T ch s (.process i)) (h : FeeLedger T ch s) :
    FeeLedger T ch (processPending T ch { s with pending := s.pending.eraseIdx i } msg) := by
  have hr : FeeLedger T ch { s with pending := s.pending.eraseIdx i } := h.proxy
  cases msg with
  | sending target req =>
    have hs : Spares s (IbcContract.messageId T (IbcContract.sender T ch) req.nonce) := by
      apply hk.stores
      rw [storesUnder, hm]
      exact List.mem_singleton_self _
    have ha : FeeLedger T ch
        { s with ibc := transact s.ibc (callIbc T ch s.env s.ibc target req) } :=
      transact_induction (P := fun ibc => FeeLedger T ch { s with ibc }) h
        fun ibc hc => h.callIbc hs hc
    exact ha.congr rfl (List.append_nil _).symm (fun _ he => nomatch he) le_rfl
  | receiving pl =>
    refine transact_induction hr fun s' hc => ?_
    obtain ⟨proxy, funds, hre, rfl⟩ := receiveAction_eq_ok hc
    exact hr.receiveAction hre

theorem FeeLedger.sendPaid (h : FeeLedger T ch s) {val : ℕ} {funds : T.Funds}
    (hx : T.ibc ch ≠ who)
    (hp : T.transfer s.funds who (T.ibc ch) val = some funds) (hf : m.fee = val)
    (hs : Sends s.ibc ibc m s.env) (hsp : Spares s m.message.id) :
    FeeLedger T ch { s with funds, ibc } := by
  refine h.send hs (fun old hold => ?_) ?_
  · exact hsp old hold (hs.replaced old hold)
  · have hb := T.balance_transfer hp (T.ibc ch)
    rw [if_neg hx, if_pos rfl, Nat.add_zero] at hb
    rw [hf]
    exact hb.ge

theorem stepChain_feeLedger {op : ChainOp} (hk : KeepsFees T ch s op) (h : FeeLedger T ch s) :
    FeeLedger T ch (stepChain T ch s op) := by
  refine transact_induction h fun s' hdi => ?_
  obtain ⟨hx, hd⟩ := dispatchChain_spec hdi
  cases hd with
  | aside has =>
    have hh : s'.ibc.history = s.ibc.history ++ [] := by
      rw [has.history, List.append_nil]
    exact h.congr has.outgoing hh (fun _ he => nomatch he) (has.funds _ (.inl rfl))
  | sent hp hs hm hf hpa =>
    refine h.sendPaid (hx _ rfl).1.symm hp hf hs (hk.stores _ ?_)
    rw [hm]
    exact List.mem_singleton_self _
  | sentTest hp hs hsender hy hf hpa hid =>
    refine h.sendPaid (hx _ rfl).1.symm hp hf hs (hk.stores _ ?_)
    rw [hid]
    exact List.mem_singleton_self _
  | confirmed hm ht hp ho hh hch =>
    exact h.confirm hm ht hp ho hh (hk.confirms _ hm ht hch)
  | accepted ha =>
    rename_i ibc call
    obtain ⟨a, hc, -⟩ := IbcContract.acceptMessage_spec ha
    have hacc : FeeLedger T ch { s with ibc } := by
      refine h.congr hc.outgoing hc.history (fun e he => ?_) le_rfl
      cases List.mem_singleton.mp he
      exact ⟨rfl, rfl⟩
    exact passOn_feeLedger hacc
  | configured => exact h.proxy
  | acted hn => exact sendActions_feeLedger hx hk hn h
  | received hr => exact h.receiveAction hr
  | fulfilled hu => exact h.fulfill hu
  | processed hme => exact processPending_feeLedger hme hk h

/-- In a run of a fresh chain whose steps keep the fees, these are settled. -/
theorem fees_settled (hfresh : s.Fresh) (ops : List ChainOp)
    (hkeeps : Along (stepChain T chain) (KeepsFees T chain) s ops) :
    FeesSettled T chain (run (stepChain T chain) s ops) := by
  have hs : FeeLedger T chain s := by
    have hn : s.ibc.history = [] ∧ s.ibc.outgoing = ∅ := ⟨hfresh.ibcHistory, hfresh.outgoing⟩
    constructor
    · intro weight
      rw [paidSum, storedSum, sentSum, hn.1, hn.2]
      exact le_rfl
    · rw [hn.1]
      exact fun _ _ _ _ hm => nomatch hm
    · rw [storedSum, hn.2]
      exact Nat.zero_le _
    · rw [paidSum, storedSum, sentSum, hn.1, hn.2]
      exact le_rfl
  have hr : FeeLedger T chain (run (stepChain T chain) s ops) :=
    run_invariant (fun (t : ChainState T) (op : ChainOp) ho ht => stepChain_feeLedger ho ht)
      hkeeps hs
  exact hr.feesSettled

end Ledger

def paidMessage : ChainOp := .sendMessage 7 10 0 (.acurast (.extrinsic 300)) [] 20

def confirmation (chain : ProxyChain) (relayer : AccountId32) : ChainOp :=
  let m := mockMessage chain 0 []
  .confirmMessageDelivery relayer m.id [mockOracle ++ IbcContract.messageHash mock m (some relayer)]

def IbcContract.Entry.payment? : IbcContract.Entry → Option (ℕ × AccountId32 × AccountId32)
  | .paid m relayer dest _ => some (m.fee, relayer, dest)
  | _ => none

/-- Account 9 relays the message, and the fee goes back to account 7. A message that replaces an
expired one leaves that one's fee with the contract. -/
theorem fees_lost :
    let relayed := fun chain =>
      run (stepChain mock chain) (mockChain chain) [paidMessage, confirmation chain 9]
    let replaced := fun chain =>
      run (stepChain mock chain) (mockChain chain) [paidMessage, .advance 30 0, paidMessage]
    let lost := fun chain =>
      (relayed chain).ibc.history.filterMap IbcContract.Entry.payment? = [(10, 9, 7)] ∧
        ¬ FeesSettled mock chain (relayed chain) ∧
        sentSum OutgoingMessageWithMeta.fee (replaced chain).ibc = 20 ∧
        paidSum OutgoingMessageWithMeta.fee (replaced chain).ibc +
          storedSum OutgoingMessageWithMeta.fee (replaced chain).ibc = 10 ∧
        ¬ FeesSettled mock chain (replaced chain)
    lost .alephZero ∧ lost .vara := by
  intro relayed replaced lost
  have hlost : ∀ chain, lost chain := by
    intro chain
    have ha : (relayed chain).ibc.history.filterMap IbcContract.Entry.payment? = [(10, 9, 7)] := by
      cases chain <;> decide +kernel
    have hs : sentSum OutgoingMessageWithMeta.fee (replaced chain).ibc = 20 := by
      cases chain <;> decide +kernel
    have hk : paidSum OutgoingMessageWithMeta.fee (replaced chain).ibc +
        storedSum OutgoingMessageWithMeta.fee (replaced chain).ibc = 10 := by
      cases chain <;> decide +kernel
    refine ⟨ha, fun hse => ?_, hs, hk, fun hse => ?_⟩
    · obtain ⟨e, he, hp⟩ := List.mem_filterMap.mp (ha ▸ List.mem_singleton_self _)
      cases e with
      | paid m relayer dest block =>
        have hr := (hse.relayed m relayer dest block he).2
        obtain ⟨hf, hl, hd⟩ : m.fee = 10 ∧ relayer = 9 ∧ dest = 7 := by
          simpa only [IbcContract.Entry.payment?, Option.some.injEq, Prod.mk.injEq] using hp
        rw [hf, hl, hd] at hr
        exact absurd hr (by decide)
      | sent | accepted => cases hp
    · have hre := hse.released
      rw [hs, hk] at hre
      exact absurd hre (by decide)
  exact ⟨hlost .alephZero, hlost .vara⟩

theorem fees_settled_selfRelayed :
    let relayed := fun chain =>
      run (stepChain mock chain) (mockChain chain) [paidMessage, confirmation chain 7]
    let settled := fun chain =>
      paidSum OutgoingMessageWithMeta.fee (relayed chain).ibc = 10 ∧ FeesSettled mock chain (relayed chain)
    settled .alephZero ∧ settled .vara := by
  intro relayed settled
  have hsettled : ∀ chain, settled chain := by
    intro chain
    refine ⟨by cases chain <;> decide +kernel, fees_settled ⟨rfl, rfl, rfl, rfl, rfl, rfl⟩ _ ?_⟩
    refine ⟨⟨fun id hd => ?_, trivial⟩, ⟨fun id hd => (nomatch hd), ?_⟩, trivial⟩
    · exact fun m hm => nomatch hm
    · intro m hm _ _
      have hp : (∀ m ∈ (stepChain mock chain (mockChain chain) paidMessage).ibc.outgoing.lookup
          (mockMessage chain 0 []).id, m.payer = 7) := by
        cases chain <;> decide +kernel
      exact .inr (hp m hm)
  exact ⟨hsettled .alephZero, hsettled .vara⟩

end Acurast.Hyperdrive

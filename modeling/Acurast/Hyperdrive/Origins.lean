import Acurast.Hyperdrive.Mock

/-! Who asked for the actions that the pallet executes. The proxy writes its caller in the payload as the
origin; the IBC contract takes any payload from anybody. -/

namespace Acurast.Hyperdrive

open Base
open IbcContract (Message sentMessages)
open Proxy (UserAction SendRequest AsksFor Carries)

variable {T : Setup} {R : Pallet.Config} {chain ch : ProxyChain}

structure ChainState.Fresh (s : ChainState T) : Prop where
  outgoing : s.ibc.outgoing = ∅
  ibcHistory : s.ibc.history = []
  jobInfo : s.proxy.jobInfo = ∅
  proxyHistory : s.proxy.history = []
  pending : s.pending = []
  outcomes : s.outcomes = []

structure System.Fresh (s : System T R) : Prop where
  chains : ∀ chain, (s.chains chain).Fresh
  executed : s.acurast.executed = []
  sent : s.acurast.sent = []

theorem sentMessages_of_sends {s s' : IbcContract.State} {m : IbcContract.OutgoingMessageWithMeta}
    {env : Env} (h : IbcContract.Sends s s' m env) :
    sentMessages s' = sentMessages s ++ [m.message] := by
  rw [sentMessages, h.history, List.filterMap_append]
  rfl

section Truthful

-- The accounts that asked the proxies for actions.
variable (Asked : ProxyChain → AccountId32 → UserAction → Prop)

def Genuine (T : Setup) (chain : ProxyChain) (payload : Bytes) : Prop :=
  ∀ action, OutgoingAction.decode T.decodePayload payload = some action →
    ∃ user, Asked chain action.origin user ∧ AsksFor user action.payload

def GenuinePending (T : Setup) (chain : ProxyChain) : Pending → Prop
  | .sending _ request => Genuine Asked T chain request.payload
  | .receiving _ => True

structure Truthful (pallet : AccountId32) (chain : ProxyChain) (s : ChainState T) : Prop where
  sender : ∀ m ∈ sentMessages s.ibc, m.sender = IbcContract.sender T chain
  sent : ∀ m ∈ sentMessages s.ibc, m.recipient = .acurast (.extrinsic pallet) →
    Genuine Asked T chain m.payload
  pending : ∀ message ∈ s.pending, GenuinePending Asked T chain message

def Forges (T : Setup) (pallet : AccountId32) : ChainOp → Prop
  | .sendMessage _ _ _ recipient payload _ =>
    recipient = .acurast (.extrinsic pallet) ∧
      (OutgoingAction.decode T.decodePayload payload).isSome = true
  | _ => False

instance (pallet : AccountId32) (op : ChainOp) : Decidable (Forges T pallet op) := by
  unfold Forges
  split <;> infer_instance

def Asks (chain : ProxyChain) : ChainOp → Prop
  | .sendActions caller _ actions => ∀ user ∈ actions, Asked chain caller user
  | _ => True

variable {Asked} {pallet : AccountId32} {s s' : ChainState T}

theorem genuine_encodeAccount (a : AccountId32) :
    Genuine Asked T ch (encodeAccount a) := by
  intro act ha
  obtain ⟨raw, rest, hr, -, -⟩ := OutgoingAction.decode_eq_some ha
  have hl := RawOutgoingAction.length_of_read hr
  rw [length_encodeAccount] at hl
  omega

variable {request req : SendRequest} {env : Env} {ibc : IbcContract.State}

theorem genuine_of_carries (hcodec : ∀ p q, T.decodePayload (T.encodePayload p) = some q → q = p)
    {p : Proxy.State} {who : AccountId32} {user : UserAction}
    (h : Carries T ch p who user req) (has : Asked ch who user) :
    Genuine Asked T ch req.payload := by
  intro action hc
  obtain ⟨raw, payload, hp, ho, ha, hl, hs⟩ := h.payload
  obtain ⟨raw', rest, hr', ho', hd⟩ := OutgoingAction.decode_eq_some hc
  have hr := RawOutgoingAction.reads hl []
  rw [List.append_nil, ← hp] at hr
  have hsa : raw' = raw := (Prod.ext_iff.mp (Option.mem_unique hr' hr)).1
  subst hsa
  rw [ha] at hd
  have hw : action.payload = payload := hcodec payload action.payload hd
  rw [← ho', ho, hw]
  exact ⟨user, has, hs⟩

theorem Truthful.congr (h : Truthful Asked pallet ch s)
    (hs : sentMessages s'.ibc = sentMessages s.ibc) (hp : s'.pending = s.pending) :
    Truthful Asked pallet ch s' := by
  constructor
  · rw [hs]
    exact h.sender
  · rw [hs]
    exact h.sent
  · rw [hp]
    exact h.pending

theorem Truthful.send {m : IbcContract.OutgoingMessageWithMeta} (h : Truthful Asked pallet ch s)
    (hn : IbcContract.Sends s.ibc ibc m env)
    (hsen : m.message.sender = IbcContract.sender T ch)
    (hg : m.message.recipient = .acurast (.extrinsic pallet) →
      Genuine Asked T ch m.message.payload) (hb : s'.ibc = ibc)
    (hp : s'.pending = s.pending) : Truthful Asked pallet ch s' := by
  have hs := sentMessages_of_sends hn
  rw [← hb] at hs
  constructor
  · intro m' hm'
    rw [hs, List.mem_append, List.mem_singleton] at hm'
    rcases hm' with hm' | rfl
    · exact h.sender m' hm'
    · exact hsen
  · intro m' hm'
    rw [hs, List.mem_append, List.mem_singleton] at hm'
    rcases hm' with hm' | rfl
    · exact h.sent m' hm'
    · exact hg
  · rw [hp]
    exact h.pending

theorem Truthful.callIbc {target : AccountId32} (h : Truthful Asked pallet ch s)
    (hc : callIbc T ch env s.ibc target req = .ok ibc)
    (hg : Genuine Asked T ch req.payload) (hb : s'.ibc = ibc)
    (hp : s'.pending = s.pending) : Truthful Asked pallet ch s' := by
  rcases callIbc_spec hc with rfl | ⟨m, hs, hm, -⟩
  · exact h.congr (congrArg sentMessages hb) hp
  · exact h.send hs (by rw [hm]) (fun _ => by rw [hm]; exact hg) hb hp

theorem Truthful.enqueue (h : Truthful Asked pallet ch s) (msg : Pending)
    (hme : GenuinePending Asked T ch msg) (hb : s'.ibc = s.ibc)
    (hp : s'.pending = s.pending ++ [msg]) : Truthful Asked pallet ch s' := by
  constructor
  · rw [hb]
    exact h.sender
  · rw [hb]
    exact h.sent
  · intro message' hm
    rw [hp, List.mem_append, List.mem_singleton] at hm
    rcases hm with hm | rfl
    · exact h.pending message' hm
    · exact hme

section Codec

variable (hcodec : ∀ p q, T.decodePayload (T.encodePayload p) = some q → q = p)
include hcodec

variable {who : AccountId32} {val : U128}

theorem sendAction_truthful {call : ℕ} {user : UserAction}
    (hs : sendAction T ch who val call s user = .ok s')
    (ha : Asked ch who user) (h : Truthful Asked pallet ch s) :
    Truthful Asked pallet ch s' := by
  obtain ⟨px, req, t, hc, -, ho, rfl⟩ := sendAction_spec hs
  have hg : Genuine Asked T ch req.payload := genuine_of_carries hcodec hc ha
  cases ho with
  | called _ hca => exact h.callIbc hca hg rfl rfl
  | queued => exact h.enqueue (.sending px.config.ibc req) hg rfl rfl

theorem sendActions_truthful {acts : List UserAction}
    (hse : sendActions T ch s who val acts = .ok s')
    (has : ∀ user ∈ acts, Asked ch who user) (h : Truthful Asked pallet ch s) :
    Truthful Asked pallet ch s' := by
  obtain ⟨funds, -, hl⟩ := sendActions_spec hse
  have hs : Truthful Asked pallet ch (withCall s funds) := h.congr rfl rfl
  clear hse
  generalize withCall s funds = s₁ at hl hs
  induction acts generalizing s₁ with
  | nil =>
    rw [List.foldlM_nil, pure_eq_ok] at hl
    exact hl ▸ hs
  | cons user acts ih =>
    rw [List.foldlM_cons, bind_eq_ok] at hl
    obtain ⟨s₂, hf, hr⟩ := hl
    rw [List.forall_mem_cons] at has
    exact ih has.2 s₂ hr (sendAction_truthful hcodec hf has.1 hs)

omit hcodec in
theorem processPending_truthful {msg : Pending} (hm : GenuinePending Asked T ch msg)
    (h : Truthful Asked pallet ch s) :
    Truthful Asked pallet ch (processPending T ch s msg) := by
  cases msg with
  | sending target req =>
    cases hc : callIbc T ch s.env s.ibc target req with
    | ok ibc =>
      refine h.callIbc hc hm ?_ rfl
      simp only [processPending, hc, transact]
    | error e =>
      refine h.congr ?_ rfl
      simp only [processPending, hc, transact]
  | receiving pl =>
    refine transact_induction h fun s' hr => ?_
    obtain ⟨px, funds, -, rfl⟩ := receiveAction_eq_ok hr
    exact h.congr rfl rfl

omit hcodec in
theorem passOn_truthful (call : ContractCall AccountId32) (pl : Bytes)
    (h : Truthful Asked pallet ch s) : Truthful Asked pallet ch (passOn T ch s call pl) := by
  rcases passOn_spec s call pl with hs | ⟨-, hp⟩
  · rw [hs]
    exact h
  · generalize passOn T ch s call pl = s' at hp
    cases hp with
    | ignored => exact h
    | received | configured | fulfilled => exact h.congr rfl rfl
    | enqueued => exact h.enqueue (.receiving pl) trivial rfl rfl

theorem stepChain_truthful {op : ChainOp} (ho : ¬ Forges T pallet op) (hk : Asks Asked ch op)
    (h : Truthful Asked pallet ch s) : Truthful Asked pallet ch (stepChain T ch s op) := by
  refine transact_induction h fun s' hdi => ?_
  have hd := (dispatchChain_spec hdi).2
  cases hd with
  | aside has =>
    exact h.congr (by rw [sentMessages, has.history, sentMessages]) has.pending
  | sent hp hs hm hf ha =>
    refine h.send hs (by rw [hm]) (fun hr => ?_) rfl rfl
    rw [hm] at hr ⊢
    intro act hc
    exact absurd ⟨hr, Option.isSome_of_eq_some hc⟩ ho
  | sentTest hp hs hsen hpa hf ha =>
    refine h.send hs hsen (fun _ => ?_) rfl rfl
    rw [hpa]
    exact genuine_encodeAccount _
  | confirmed hm ht hp hu hh =>
    refine h.congr ?_ rfl
    simp only [sentMessages, hh, List.filterMap_append]
    exact List.append_nil _
  | accepted hacc =>
    obtain ⟨a, hac, -⟩ := IbcContract.acceptMessage_spec hacc
    apply passOn_truthful
    refine h.congr ?_ rfl
    simp only [sentMessages, hac.history, List.filterMap_append]
    exact List.append_nil _
  | configured hco => exact h.congr rfl rfl
  | acted hn => exact sendActions_truthful hcodec hn hk h
  | received hrec => exact h.congr rfl rfl
  | fulfilled hfu => exact h.congr rfl rfl
  | processed hme =>
    rename_i i message
    apply processPending_truthful (h.pending message (List.mem_of_getElem? hme))
    exact ⟨h.sender, h.sent, fun message' hmem => h.pending message' (List.mem_of_mem_eraseIdx hmem)⟩

end Codec

end Truthful

def SystemOp.Forges (T : Setup) (pallet : AccountId32) : SystemOp → Prop
  | .chain _ op => Hyperdrive.Forges T pallet op
  | _ => False

instance (pallet : AccountId32) (op : SystemOp) : Decidable (op.Forges T pallet) := by
  unfold SystemOp.Forges
  split <;> infer_instance

def Sourced (Asked : ProxyChain → AccountId32 → UserAction → Prop) (a : Pallet.State R) : Prop :=
  ∀ chain action, (chain, action) ∈ a.executed →
    ∃ user, Asked chain action.origin user ∧ AsksFor user action.payload

structure Faithful (Asked : ProxyChain → AccountId32 → UserAction → Prop) (s : System T R) : Prop where
  chains : ∀ chain, Truthful Asked R.sender chain (s.chains chain)
  executed : Sourced Asked s.acurast

variable {Asked : ProxyChain → AccountId32 → UserAction → Prop} {s : System T R}

theorem deliver_sourced (h : Faithful Asked s) {m : Message} {a : Pallet.State R}
    (hde : deliver s chain m = .ok a) : Sourced Asked a := by
  intro chain' act hm
  simp only [deliver, ok_iff] at hde
  obtain ⟨-, hs, pl, hp, -, hr, hpr⟩ := hde
  obtain ⟨chain₁, action₁, hd, hh, hx, -⟩ := Pallet.process_spec hpr
  rw [hx, List.mem_append, List.mem_singleton] at hm
  rcases hm with hm | hn
  · exact h.executed chain' act hm
  · obtain ⟨rfl, rfl⟩ := Prod.mk.inj hn
    have hb : pl.1 = m.payload := by
      unfold Payload.tryFrom at hp
      split_ifs at hp
      cases hp
      rfl
    -- The chain that the pallet takes the message for is the one it was stored on.
    have hse := (h.chains chain).sender m hs
    have ha : chain' = chain := by
      rcases hh with ⟨call, rfl, hc⟩ | ⟨call, rfl, hc⟩
      · cases chain with
        | alephZero => rfl
        | vara => cases hc.symm.trans hse
      · cases chain with
        | alephZero => cases hc.symm.trans hse
        | vara => rfl
    subst ha
    rw [hb] at hd
    exact (h.chains chain').sent m hs hr act hd

theorem step_faithful (hcodec : ∀ p q, T.decodePayload (T.encodePayload p) = some q → q = p)
    {op : SystemOp} (hf : ¬ op.Forges T R.sender)
    (has : ∀ chain chainOp, op = .chain chain chainOp → Asks Asked chain chainOp)
    (h : Faithful Asked s) : Faithful Asked (step s op) := by
  cases op with
  | chain chain chainOp =>
    refine ⟨fun chain' => ?_, h.executed⟩
    show Truthful Asked R.sender chain'
      (Function.update s.chains chain (stepChain T chain (s.chains chain) chainOp) chain')
    rcases eq_or_ne chain' chain with rfl | hn
    · rw [Function.update_self]
      exact stepChain_truthful hcodec hf (has _ chainOp rfl) (h.chains chain')
    · rw [Function.update_of_ne hn]
      exact h.chains chain'
  | updateAlephZeroContract o contract =>
    refine ⟨h.chains, transact_induction (P := Sourced Asked) h.executed fun a hu => ?_⟩
    simp only [Pallet.updateAlephZeroContract, ok_iff] at hu
    obtain ⟨-, -, rfl⟩ := hu
    exact h.executed
  | updateVaraContract o contract =>
    refine ⟨h.chains, transact_induction (P := Sourced Asked) h.executed fun a hu => ?_⟩
    simp only [Pallet.updateVaraContract, ok_iff] at hu
    obtain ⟨-, -, rfl⟩ := hu
    exact h.executed
  | sendToProxy chain act payer =>
    refine ⟨h.chains, transact_induction (P := Sourced Asked) h.executed fun a hs => ?_⟩
    unfold Sourced
    rw [(Pallet.sendToProxy_spec hs).1]
    exact h.executed
  | deliver chain m =>
    exact ⟨h.chains, transact_induction (P := Sourced Asked) h.executed fun a hd =>
      deliver_sourced h hd⟩

theorem System.Fresh.faithful (h : s.Fresh) (Asked : ProxyChain → AccountId32 → UserAction → Prop) :
    Faithful Asked s := by
  have hn : ∀ ch, sentMessages (s.chains ch).ibc = [] := by
    intro ch
    rw [sentMessages, (h.chains ch).ibcHistory]
    rfl
  refine ⟨fun ch => ⟨?_, ?_, ?_⟩, ?_⟩
  · rw [hn]
    intro m hm
    cases hm
  · rw [hn]
    intro m hm
    cases hm
  · rw [(h.chains ch).pending]
    intro msg hme
    cases hme
  · unfold Sourced
    rw [h.executed]
    intro ch act hmem
    cases hmem

/-- In a run in which no account hands the IBC contract an action for the pallet, every executed
action was asked for by its origin, through the proxy of the chain that it is executed for. -/
theorem executed_actions_requested
    (hcodec : ∀ p q, T.decodePayload (T.encodePayload p) = some q → q = p) {s : System T R}
    (hfresh : s.Fresh) (ops : List SystemOp) (hforge : ∀ op ∈ ops, ¬ op.Forges T R.sender)
    (chain : ProxyChain) (action : OutgoingAction)
    (hexecuted : (chain, action) ∈ (run step s ops).acurast.executed) :
    ∃ value actions user, SystemOp.chain chain (.sendActions action.origin value actions) ∈ ops ∧
      user ∈ actions ∧ AsksFor user action.payload := by
  let Asked : ProxyChain → AccountId32 → UserAction → Prop := fun chain account user =>
    ∃ value actions, SystemOp.chain chain (.sendActions account value actions) ∈ ops ∧ user ∈ actions
  have has : ∀ op ∈ ops, ¬ op.Forges T R.sender ∧
      ∀ chain chainOp, op = .chain chain chainOp → Asks Asked chain chainOp := by
    rintro op ho
    refine ⟨hforge op ho, ?_⟩
    rintro chain' chainOp rfl
    cases chainOp with
    | sendActions caller value actions => exact fun user hu => ⟨value, actions, ho, hu⟩
    | _ => trivial
  have hf : Faithful Asked (run step s ops) :=
    run_invariant (fun (t : System T R) (op : SystemOp) ho ht => step_faithful hcodec ho.1 ho.2 ht)
      (Along.of_mem has) (hfresh.faithful Asked)
  obtain ⟨user, ⟨value, actions, ho, hu⟩, hw⟩ := hf.executed chain action hexecuted
  exact ⟨value, actions, user, ho, hu, hw⟩

theorem mockSystem_fresh : mockSystem.Fresh :=
  ⟨fun _ => ⟨rfl, rfl, rfl, rfl, rfl, rfl⟩, rfl, rfl⟩

def mockMessage (chain : ProxyChain) (nonce : Ibc.MessageNonce) (payload : Bytes) : Message where
  id := IbcContract.messageId mock (IbcContract.sender mock chain) nonce
  sender := IbcContract.sender mock chain
  nonce := nonce
  recipient := .acurast (.extrinsic mockRuntime.sender)
  payload := payload

def forgedAction : RawOutgoingAction := ⟨1, 7, 1, mockEncodePayload (.deregisterJob 5)⟩

def forgery (chain : ProxyChain) : List SystemOp :=
  [.chain chain (.sendMessage 9 0 0 (.acurast (.extrinsic mockRuntime.sender)) forgedAction.encode 100),
    .deliver chain (mockMessage chain 0 forgedAction.encode)]

theorem forged_action_executed :
    let forged := fun chain =>
      (run step mockSystem (forgery chain)).acurast.executed = [(chain, ⟨1, 7, .deregisterJob 5⟩)] ∧
        ∀ value actions, SystemOp.chain chain (.sendActions 7 value actions) ∉ forgery chain
    forged .alephZero ∧ forged .vara := by
  intro forged
  have hf : ∀ chain, forged chain := by
    intro chain
    constructor
    · cases chain <;> decide +kernel
    · intro value actions hm
      rcases List.mem_cons.mp hm with hs | hm
      · cases hs
      · cases List.mem_singleton.mp hm
  exact ⟨hf .alephZero, hf .vara⟩

def honestRun : List SystemOp :=
  [.chain .vara (.sendActions 7 0 [.noop]), .chain .vara (.process 0),
    .deliver .vara (mockMessage .vara (Proxy.actionNonce mock .vara 1)
      (RawOutgoingAction.encode ⟨1, 7, 1, mockEncodePayload .noop⟩))]

theorem executed_actions_requested_honestRun : (ProxyChain.vara, (⟨1, 7, .noop⟩ : OutgoingAction)) ∈
        (run step mockSystem honestRun).acurast.executed ∧
      ∃ value actions user, SystemOp.chain .vara (.sendActions 7 value actions) ∈ honestRun ∧
        user ∈ actions ∧ AsksFor user .noop := by
  have hx : (ProxyChain.vara, (⟨1, 7, .noop⟩ : OutgoingAction)) ∈
      (run step mockSystem honestRun).acurast.executed := by
    decide +kernel
  have hf : ∀ op ∈ honestRun, ¬ op.Forges mock mockRuntime.sender := by decide +kernel
  exact ⟨hx, executed_actions_requested mock_decodePayload mockSystem_fresh honestRun hf
    .vara ⟨1, 7, .noop⟩ hx⟩

end Acurast.Hyperdrive

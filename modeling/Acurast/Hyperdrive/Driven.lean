import Acurast.Hyperdrive.Origins

/-! Who drives the proxies. `receive_action` of a proxy changes jobs and pays for them. It is meant
for messages of Acurast, which the IBC contract has checked, but takes calls of any account. -/

namespace Acurast.Hyperdrive

open Base
open IbcContract (Message Accepted)
open Proxy (Received Turn SendRequest UserAction)

variable {T : Setup} {R : Pallet.Config} {chain ch : ProxyChain}

def Proxy.Entry.received? : Proxy.Entry → Option Received
  | .received r => some r
  | _ => none

def IbcContract.Entry.accepted? : IbcContract.Entry → Option Accepted
  | .accepted a => some a
  | _ => none

def receivedCalls (p : Proxy.State) : List Received := p.history.filterMap Proxy.Entry.received?

def acceptedMessages (s : IbcContract.State) : List Accepted :=
  s.history.filterMap IbcContract.Entry.accepted?

def Acts (r : Received) : Prop :=
  (∃ jobId, r.after.lookup jobId ≠ r.before.lookup jobId) ∨ r.paid ≠ none

def Brings (T : Setup) (chain : ProxyChain) (a : Accepted) (payload : Bytes) : Prop :=
  a.message.payload = payload ∧
    ∃ call, IbcContract.contractCall chain a.message.recipient = some call ∧ call.contract = T.proxy chain

/-- Enough of the oracles signed the message, each counted once, and the action in it is one that the
pallet sent. -/
structure Endorsed (T : Setup) (R : Pallet.Config) (sent : List Pallet.SentAction) (a : Accepted) :
    Prop where
  enough : a.required ≤ a.signers.length
  distinct : a.signers.Nodup
  known : ∀ key ∈ a.signers, key ∈ a.oracles
  sent : 0 < a.required → ∃ action ∈ sent, sentMessage T R action = a.message ∧
    IncomingAction.decode a.message.payload = some action.action

/-- The call came from the configured IBC contract, with the payload of a message that it accepted. -/
def Authentic (s : System T R) (chain : ProxyChain) (r : Received) : Prop :=
  r.caller = T.ibc chain ∧ r.configured = T.ibc chain ∧
    ∃ a ∈ acceptedMessages (s.chains chain).ibc, Brings T chain a r.payload ∧
      Endorsed T R s.acurast.sent a

def DrivenByAcurast (s : System T R) : Prop :=
  ∀ chain, ∀ r ∈ receivedCalls (s.chains chain).proxy, Acts r → Authentic s chain r

section Turns

variable {p p' : Proxy.State} {funds funds' : T.Funds} {caller who : AccountId32} {payload pl : Bytes}

def Drives (T : Setup) (chain : ProxyChain) (p : Proxy.State) (funds : T.Funds) (payload : Bytes) :
    Prop :=
  p.config.paused = false ∧ match (IncomingAction.decode payload).map IncomingAction.payload with
    | some (.assignJobProcessor jobId processor) =>
      ∃ job, p.jobInfo.lookup jobId = some job ∧
        (T.transfer funds (T.proxy chain) processor job.expectedFulfillmentFee.toNat).isSome = true
    | some (.finalizeJob jobId unusedReward) =>
      ∃ job, p.jobInfo.lookup jobId = some job ∧ unusedReward ≤ job.maximumReward ∧
        if 0 < job.remainingFee + unusedReward then
          (T.transfer funds (T.proxy chain) job.creator
            (job.remainingFee + unusedReward).toNat).isSome = true
        else job.status ≠ .finalizedOrCancelled
    | some .noop | none => False

def entryOf (p : Proxy.State) (caller : AccountId32) (payload : Bytes) (turn : Turn) : Received :=
  ⟨caller, p.config.ibc, payload, p.jobInfo, turn.jobInfo, turn.payment.map Prod.snd⟩

theorem filterMap_received_entries (turn : Turn) :
    turn.entries.filterMap Proxy.Entry.received? = [] := by
  unfold Turn.entries
  split <;> rfl

theorem receiveAction_received
    (h : Proxy.receiveAction T ch p funds who pl = .ok (p', funds')) :
    ∃ r, receivedCalls p' = receivedCalls p ++ [r] ∧ r.caller = who ∧ r.configured = p.config.ibc ∧
      r.payload = pl ∧ (Acts r ↔ Drives T ch p funds pl) := by
  obtain ⟨act, turn, hpa, hd, ht, hp, rfl⟩ := Proxy.receiveAction_spec h
  refine ⟨entryOf p who pl turn, ?_, rfl, rfl, rfl, ?_⟩
  · rw [receivedCalls, List.filterMap_append, List.filterMap_append, filterMap_received_entries,
      List.append_nil]
    rfl
  obtain ⟨id, actionPayload⟩ := act
  unfold Drives
  rw [hd, Option.map_some]
  cases actionPayload with
  | assignJobProcessor j proc =>
    simp only [Proxy.handleAction, Proxy.assignJobProcessor, Proxy.getJob, ok_iff] at ht
    obtain ⟨job, hj, rfl⟩ := ht
    refine ⟨fun _ => ⟨hpa, job, hj, ?_⟩, fun _ => .inr (Option.some_ne_none _)⟩
    exact Option.isSome_of_eq_some hp
  | finalizeJob j unused =>
    simp only [Proxy.handleAction, Proxy.finalizeJob, Proxy.getJob, ok_iff] at ht
    obtain ⟨job, hj, -, hm, rfl⟩ := ht
    by_cases hr : 0 < job.remainingFee + unused
    · simp only [Turn.pay, if_pos hr] at hp
      constructor
      · intro _
        refine ⟨hpa, job, hj, hm, ?_⟩
        rw [if_pos hr]
        exact Option.isSome_of_eq_some hp
      · intro _
        refine .inr ?_
        rw [entryOf, if_pos hr]
        exact Option.some_ne_none _
    · have hc : Acts (entryOf p who pl ⟨p.jobInfo.insert j
          { job with status := .finalizedOrCancelled }, none, Proxy.refundFailed ch⟩) ↔
          job.status ≠ .finalizedOrCancelled := by
        constructor
        · rintro (⟨jobId', hn⟩ | ha)
          · intro hs
            apply hn
            show (p.jobInfo.insert j _).lookup jobId' = p.jobInfo.lookup jobId'
            rw [lookup_insert_eq]
            split_ifs with hji
            · rw [hji, hj, ← hs]
            · rfl
          · exact absurd rfl ha
        · intro hs
          refine .inl ⟨j, ?_⟩
          show (p.jobInfo.insert j _).lookup j ≠ p.jobInfo.lookup j
          rw [lookup_insert_eq, if_pos rfl, hj]
          intro hsa
          exact hs (congrArg Proxy.JobInformationV1.status (Option.some.inj hsa)).symm
      rw [if_neg hr, hc]
      constructor
      · intro hs
        refine ⟨hpa, job, hj, hm, ?_⟩
        rwa [if_neg hr]
      · rintro ⟨-, job', hj', -, hca⟩
        cases hj.symm.trans hj'
        rwa [if_neg hr] at hca
  | noop =>
    cases ht
    constructor
    · rintro (⟨j, hn⟩ | ha)
      · exact absurd rfl hn
      · exact absurd rfl ha
    · exact fun hf => hf.2.elim

theorem receiveAction_of_drives (h : Drives T ch p funds pl) (who : AccountId32) :
    ∃ p' funds', Proxy.receiveAction T ch p funds who pl = .ok (p', funds') := by
  obtain ⟨ha, h⟩ := h
  have hs : ∀ act turn, IncomingAction.decode pl = some act →
      Proxy.handleAction ch p act.payload = .ok turn → (turn.pay T ch funds).isSome = true →
      ∃ p' funds', Proxy.receiveAction T ch p funds who pl = .ok (p', funds') := by
    intro act turn hd ht hp
    obtain ⟨funds', hf'⟩ := Option.isSome_iff_exists.mp hp
    simp only [Proxy.receiveAction, Proxy.ensureUnpaused, Proxy.applyTurn, ok_iff]
    exact ⟨_, funds', (), ha, act, hd, turn, ht, _, ⟨funds', hf', rfl⟩, rfl⟩
  cases hd : IncomingAction.decode pl with
  | none =>
    rw [hd] at h
    exact h.elim
  | some act =>
    obtain ⟨id, actionPayload⟩ := act
    rw [hd, Option.map_some] at h
    cases actionPayload with
    | assignJobProcessor j proc =>
      obtain ⟨job, hj, hp⟩ := h
      have ht : Proxy.handleAction ch p (.assignJobProcessor j proc) = .ok {
          jobInfo := p.jobInfo.insert j { job with
            processors := job.processors ++ [proc]
            remainingFee := job.remainingFee - job.expectedFulfillmentFee
            status := .assigned }
          payment := some (j, proc, job.expectedFulfillmentFee.toNat)
          failure := Proxy.prepayFailed ch } := by
        simp only [Proxy.handleAction, Proxy.assignJobProcessor, Proxy.getJob, ok_iff]
        exact ⟨job, hj, rfl⟩
      exact hs _ _ hd ht hp
    | finalizeJob j unused =>
      obtain ⟨job, hj, hm, hc⟩ := h
      have ht : Proxy.handleAction ch p (.finalizeJob j unused) = .ok {
          jobInfo := p.jobInfo.insert j { job with status := .finalizedOrCancelled }
          payment := if 0 < job.remainingFee + unused then
            some (j, job.creator, (job.remainingFee + unused).toNat) else none
          failure := Proxy.refundFailed ch } := by
        simp only [Proxy.handleAction, Proxy.finalizeJob, Proxy.getJob, ok_iff]
        exact ⟨job, hj, (), hm, rfl⟩
      refine hs _ _ hd ht ?_
      by_cases hr : 0 < job.remainingFee + unused
      · rw [if_pos hr] at hc
        simp only [Turn.pay, if_pos hr]
        exact hc
      · simp only [Turn.pay, if_neg hr]
        rfl
    | noop => exact h.elim

end Turns

section Chains

variable {s s' : ChainState T}

/-- Acting calls came from the IBC contract, with payloads of messages that it accepted; so do those
under way. -/
structure DrivenChain (T : Setup) (chain : ProxyChain) (s : ChainState T) : Prop where
  received : ∀ r ∈ receivedCalls s.proxy, Acts r → r.caller = T.ibc chain ∧
    r.configured = T.ibc chain ∧ ∃ a ∈ acceptedMessages s.ibc, Brings T chain a r.payload
  pending : ∀ payload, .receiving payload ∈ s.pending →
    ∃ a ∈ acceptedMessages s.ibc, Brings T chain a payload

theorem DrivenChain.congr (h : DrivenChain T ch s)
    (hc : ∀ a ∈ acceptedMessages s.ibc, a ∈ acceptedMessages s'.ibc)
    (hre : receivedCalls s'.proxy = receivedCalls s.proxy)
    (hp : ∀ pl, .receiving pl ∈ s'.pending → .receiving pl ∈ s.pending) :
    DrivenChain T ch s' := by
  constructor
  · intro r hr ht
    rw [hre] at hr
    obtain ⟨hca, ho, a, ha, hb⟩ := h.received r hr ht
    exact ⟨hca, ho, a, hc a ha, hb⟩
  · intro pl hpa
    obtain ⟨a, ha, hb⟩ := h.pending pl (hp pl hpa)
    exact ⟨a, hc a ha, hb⟩

theorem acceptedMessages_subset {ibc ibc' : IbcContract.State} (h : ibc.history <+: ibc'.history) :
    ∀ a ∈ acceptedMessages ibc, a ∈ acceptedMessages ibc' := by
  intro a ha
  exact (h.filterMap IbcContract.Entry.accepted?).subset ha

variable {caller who : AccountId32} {payload pl : Bytes} {p p' : Proxy.State} {val : U128} {op : ChainOp}

theorem DrivenChain.receive (h : DrivenChain T ch s) {proxy : Proxy.State} {funds : T.Funds}
    (hr : Proxy.receiveAction T ch s.proxy s.funds who pl = .ok (proxy, funds))
    (hd : Drives T ch s.proxy s.funds pl → who = T.ibc ch ∧
      s.proxy.config.ibc = T.ibc ch ∧ ∃ a ∈ acceptedMessages s.ibc, Brings T ch a pl) :
    DrivenChain T ch { s with proxy, funds } := by
  obtain ⟨r, hc, ha, hco, hp, hac⟩ := receiveAction_received hr
  refine ⟨fun r' hr' ha' => ?_, h.pending⟩
  have hm : r' ∈ receivedCalls s.proxy ++ [r] := hc ▸ hr'
  rcases List.mem_append.mp hm with hold | hn
  · exact h.received r' hold ha'
  · cases List.mem_singleton.mp hn
    obtain ⟨hb, ho, hbr⟩ := hd (hac.mp ha')
    rw [ha, hco, hp]
    exact ⟨hb, ho, hbr⟩

theorem receivedCalls_of_prepares {call : ℕ} {user : UserAction}
    (h : Proxy.Prepares p p' who val call user) : receivedCalls p' = receivedCalls p := by
  cases h with
  | register pl cost hr =>
    rw [hr.state, receivedCalls, List.filterMap_append]
    exact List.append_nil _
  | other act hj hs => rw [hs]

theorem receivedCalls_of_fulfill {funds funds' : T.Funds} {j : U128}
    (h : Proxy.fulfill T ch p funds who j pl = .ok (p', funds')) :
    receivedCalls p' = receivedCalls p := by
  obtain ⟨job, -, -, -, rfl⟩ := Proxy.fulfill_spec h
  rw [receivedCalls, List.filterMap_append, filterMap_received_entries]
  exact List.append_nil _

theorem receivedCalls_of_configure {acts : List Proxy.ConfigureArgument}
    (h : Proxy.configure p who acts = .ok p') : receivedCalls p' = receivedCalls p := by
  rw [receivedCalls, configure_history h, receivedCalls]

theorem mem_receiving_append {pending : List Pending} {msg : Pending}
    (h : .receiving pl ∈ pending ++ [msg]) (hm : msg ≠ .receiving pl) :
    .receiving pl ∈ pending := by
  rcases List.mem_append.mp h with hme | hme
  · exact hme
  · exact absurd (List.mem_singleton.mp hme).symm hm

theorem sendActions_driven {acts : List UserAction}
    (hse : sendActions T ch s who val acts = .ok s') (h : DrivenChain T ch s) :
    DrivenChain T ch s' := by
  obtain ⟨funds, -, hl⟩ := sendActions_spec hse
  have hs : DrivenChain T ch (withCall s funds) := h.congr (fun _ => id) rfl fun _ => id
  refine foldlM_invariant (P := DrivenChain T ch) (fun t user t' hu ht => ?_) hl hs
  obtain ⟨px, req, t₁, -, hp, ho, rfl⟩ := sendAction_spec hu
  have hr : receivedCalls px = receivedCalls t.proxy := receivedCalls_of_prepares hp
  cases ho with
  | called _ ha => exact ht.congr (acceptedMessages_subset (callIbc_history ha)) hr fun _ => id
  | queued => exact ht.congr (fun _ => id) hr fun pl hm => mem_receiving_append hm nofun

theorem passOn_driven (h : DrivenChain T chain s) (hc : s.proxy.config.ibc = T.ibc chain)
    {call : ContractCall AccountId32} (a : Accepted) (ha : a ∈ acceptedMessages s.ibc)
    (hy : a.message.payload = payload)
    (hca : IbcContract.contractCall chain a.message.recipient = some call) :
    DrivenChain T chain (passOn T chain s call payload) := by
  rcases passOn_spec s call payload with hs | ⟨hr, hp⟩
  · rw [hs]
    exact h
  · have hb : Brings T chain a payload := ⟨hy, call, hca, hr⟩
    generalize passOn T chain s call payload = s' at hp
    cases hp with
    | ignored => exact h
    | received _ _ hre => exact h.receive hre fun _ => ⟨rfl, hc, a, ha, hb⟩
    | configured ho =>
      exact h.congr (fun _ => id) (receivedCalls_of_configure ho) fun _ => id
    | fulfilled hf =>
      exact h.congr (fun _ => id) (receivedCalls_of_fulfill hf) fun _ => id
    | enqueued =>
      refine ⟨h.received, fun payload' hm => ?_⟩
      rcases List.mem_append.mp hm with hm | hn
      · exact h.pending payload' hm
      · cases List.mem_singleton.mp hn
        exact ⟨a, ha, hb⟩

theorem processPending_driven {msg : Pending} (h : DrivenChain T ch s)
    (ho : s.proxy.config.ibc = T.ibc ch)
    (hme : ∀ pl, msg = .receiving pl → ∃ a ∈ acceptedMessages s.ibc, Brings T ch a pl) :
    DrivenChain T ch (processPending T ch s msg) := by
  cases msg with
  | sending target req =>
    have ha : ∀ a ∈ acceptedMessages s.ibc,
        a ∈ acceptedMessages (transact s.ibc (callIbc T ch s.env s.ibc target req)) :=
      transact_induction (P := fun ibc => ∀ a ∈ acceptedMessages s.ibc, a ∈ acceptedMessages ibc)
        (fun _ => id) fun ibc hc => acceptedMessages_subset (callIbc_history hc)
    exact h.congr ha rfl fun _ => id
  | receiving pl =>
    refine transact_induction h fun s' hc => ?_
    obtain ⟨proxy, funds, hr, rfl⟩ := receiveAction_eq_ok hc
    exact h.receive hr fun _ => ⟨rfl, ho, hme pl rfl⟩

theorem stepChain_driven (ho : s.proxy.config.ibc = T.ibc ch)
    (hd : ∀ who pl, op = .receiveAction who pl → External T ch op →
      ¬ Drives T ch s.proxy s.funds pl) (h : DrivenChain T ch s) :
    DrivenChain T ch (stepChain T ch s op) := by
  refine transact_induction h fun s' hdi => ?_
  obtain ⟨hx, hdid⟩ := dispatchChain_spec hdi
  cases hdid with
  | aside has =>
    refine h.congr ?_ (congrArg receivedCalls has.proxy) ?_
    · rw [acceptedMessages, acceptedMessages, has.history]
      exact fun _ => id
    · rw [has.pending]
      exact fun _ => id
  | sent hp hs hm hf hy =>
    refine h.congr (acceptedMessages_subset ?_) rfl fun _ => id
    rw [hs.history]
    exact List.prefix_append _ _
  | sentTest hp hs hsender hpa hf hy =>
    refine h.congr (acceptedMessages_subset ?_) rfl fun _ => id
    rw [hs.history]
    exact List.prefix_append _ _
  | confirmed hm ht hp hou hh =>
    refine h.congr (acceptedMessages_subset ?_) rfl fun _ => id
    rw [hh]
    exact List.prefix_append _ _
  | accepted hc =>
    rename_i ibc call
    obtain ⟨a, ha, -, -, -, hpa⟩ := IbcContract.acceptMessage_spec hc
    have hacc : DrivenChain T ch { s with ibc } := by
      refine h.congr (acceptedMessages_subset ?_) rfl fun _ => id
      rw [ha.history]
      exact List.prefix_append _ _
    have hmem : a ∈ acceptedMessages ibc := by
      rw [acceptedMessages, ha.history, List.filterMap_append]
      exact List.mem_append_right _ (List.mem_singleton_self _)
    exact passOn_driven hacc ho a hmem hpa ha.call
  | configured hn =>
    exact h.congr (fun _ => id) (receivedCalls_of_configure hn) fun _ => id
  | acted hsen => exact sendActions_driven hsen h
  | received hr =>
    exact h.receive hr fun hdr => absurd hdr (hd _ _ rfl hx)
  | fulfilled hu =>
    exact h.congr (fun _ => id) (receivedCalls_of_fulfill hu) fun _ => id
  | processed hme =>
    rename_i i message
    have hmem := List.mem_of_getElem? hme
    have her : DrivenChain T ch { s with pending := s.pending.eraseIdx i } :=
      h.congr (fun _ => id) rfl fun pl => List.mem_of_mem_eraseIdx
    refine processPending_driven her ho ?_
    rintro pl rfl
    exact h.pending pl hmem

theorem stepChain_accepted {a : Accepted} (ha : a ∈ acceptedMessages (stepChain T ch s op).ibc) :
    a ∈ acceptedMessages s.ibc ∨ ∃ who sigs ibc call,
      op = .receiveMessage who a.message.sender a.message.nonce a.message.recipient
        a.message.payload sigs ∧
      IbcContract.Accepts T ch s.ibc ibc sigs call a := by
  have hsa : ∀ {ibc : IbcContract.State} {entry : IbcContract.Entry}, entry.accepted? = none →
      ibc.history = s.ibc.history ++ [entry] → acceptedMessages ibc = acceptedMessages s.ibc := by
    intro ibc entry hen hh
    rw [acceptedMessages, hh, List.filterMap_append, List.filterMap_cons, hen]
    exact List.append_nil _
  have hl : ∀ {env : Env} {ibc ibc' : IbcContract.State} {target : AccountId32}
      {req : SendRequest}, callIbc T ch env ibc target req = .ok ibc' →
      acceptedMessages ibc' = acceptedMessages ibc := by
    intro env ibc ibc' target req hc
    rcases callIbc_spec hc with rfl | ⟨m, hs, -, -⟩
    · rfl
    · rw [acceptedMessages, hs.history, List.filterMap_append]
      exact List.append_nil _
  revert ha
  refine transact_induction (P := fun t : ChainState T => a ∈ acceptedMessages t.ibc → _) .inl
    fun s' hdi => ?_
  have hd := (dispatchChain_spec hdi).2
  cases hd with
  | aside has =>
    rw [acceptedMessages, has.history]
    exact .inl
  | sent hp hs hm hf hpa =>
    rw [hsa rfl hs.history]
    exact .inl
  | sentTest hp hs hsender hy hf hpa =>
    rw [hsa rfl hs.history]
    exact .inl
  | confirmed hm htt hp hou hh =>
    rw [hsa rfl hh]
    exact .inl
  | accepted hacc =>
    rename_i who sender recipient nonce pl sigs ibc call
    obtain ⟨a', hac, rfl, rfl, rfl, rfl⟩ := IbcContract.acceptMessage_spec hacc
    intro ha
    rw [(passOn_extends _ call _).2] at ha
    rw [acceptedMessages, hac.history, List.filterMap_append] at ha
    rcases List.mem_append.mp ha with hold | hn
    · exact .inl hold
    · cases List.mem_singleton.mp hn
      exact .inr ⟨who, sigs, ibc, call, rfl, hac⟩
  | configured | received | fulfilled => exact .inl
  | acted hsen =>
    obtain ⟨funds, -, ho⟩ := sendActions_spec hsen
    have hb : acceptedMessages s'.ibc = acceptedMessages s.ibc := by
      refine foldlM_invariant (P := fun t => acceptedMessages t.ibc = acceptedMessages s.ibc)
        (fun t user t' hu ht => ?_) ho rfl
      obtain ⟨px, req, t₁, -, -, hs, rfl⟩ := sendAction_spec hu
      cases hs with
      | called _ hc => exact (hl hc).trans ht
      | queued => exact ht
    rw [hb]
    exact .inl
  | processed hme =>
    rename_i i msg
    have hb : acceptedMessages (processPending T ch { s with pending := s.pending.eraseIdx i }
        msg).ibc = acceptedMessages s.ibc := by
      cases msg with
      | sending target req =>
        exact transact_induction (P := fun ibc => acceptedMessages ibc = acceptedMessages s.ibc) rfl
          fun ibc hc => hl hc
      | receiving pl =>
        refine transact_induction (P := fun t : ChainState T => acceptedMessages t.ibc = acceptedMessages s.ibc)
          rfl fun t hc => ?_
        obtain ⟨px, funds, -, rfl⟩ := receiveAction_eq_ok hc
        rfl
    rw [hb]
    exact .inl

end Chains

section Systems

variable {s : System T R}

def Configured (s : System T R) : Prop :=
  ∀ chain, (s.chains chain).proxy.config.ibc = T.ibc chain

def SignsOnlySent (s : System T R) : SystemOp → Prop
  | .chain chain (.receiveMessage _ sender nonce recipient payload signatures) =>
    let m : Message := ⟨IbcContract.messageId T sender nonce, sender, nonce, recipient, payload⟩
    ∀ signature ∈ signatures, WhenOk (T.recover chain signature (IbcContract.messageHash T m none))
      fun key => key ∈ (s.chains chain).ibc.oraclePublicKeys.keys →
        m ∈ s.acurast.sent.map (sentMessage T R)
  | _ => True

def DrivesDirectly (s : System T R) : SystemOp → Prop
  | .chain chain (.receiveAction caller payload) =>
    External T chain (.receiveAction caller payload) ∧
      Drives T chain (s.chains chain).proxy (s.chains chain).funds payload
  | _ => False

variable {a : Accepted} {op : SystemOp}

theorem Endorsed.mono {sent sent' : List Pallet.SentAction} (h : Endorsed T R sent a)
    (hs : ∀ act ∈ sent, act ∈ sent') : Endorsed T R sent' a := by
  refine ⟨h.enough, h.distinct, h.known, fun hp => ?_⟩
  obtain ⟨act, hme, hm, hd⟩ := h.sent hp
  exact ⟨act, hs act hme, hm, hd⟩

theorem endorsed_of_accepts {ibc : IbcContract.State} {who : AccountId32}
    {sigs : List Ibc.Signature} {call : ContractCall AccountId32}
    (h : IbcContract.Accepts T ch (s.chains ch).ibc ibc sigs call a)
    (hs : SignsOnlySent s (.chain ch (.receiveMessage who a.message.sender a.message.nonce
      a.message.recipient a.message.payload sigs))) : Endorsed T R s.acurast.sent a := by
  obtain ⟨hm, hd, hn, hg⟩ := IbcContract.checkSignatures_spec h.signers
  refine ⟨h.required ▸ hm, hd, h.oracles ▸ hn, fun hp => ?_⟩
  rw [h.required] at hp
  have hme : (⟨IbcContract.messageId T a.message.sender a.message.nonce, a.message.sender,
      a.message.nonce, a.message.recipient, a.message.payload⟩ : Message) = a.message := by
    rw [← h.id]
  obtain ⟨key, hk⟩ := List.exists_mem_of_length_pos (hp.trans_le hm)
  obtain ⟨sig, hsi, hr⟩ := hg key hk
  have ho := hs sig hsi
  rw [hme] at ho
  obtain ⟨act, ha, hse⟩ := List.mem_map.mp (ho.of_eq_ok hr (hn key hk))
  refine ⟨act, ha, hse, ?_⟩
  rw [← hse]
  exact IncomingAction.decode_encode act.action

structure Inherits (s : System T R) : Prop where
  chains : ∀ chain, DrivenChain T chain (s.chains chain)
  endorsed : ∀ chain, ∀ a ∈ acceptedMessages (s.chains chain).ibc, Endorsed T R s.acurast.sent a

theorem Inherits.drivenByAcurast (h : Inherits s) : DrivenByAcurast s := by
  intro ch r hr hac
  obtain ⟨hca, hc, a, ha, hb⟩ := (h.chains ch).received r hr hac
  exact ⟨hca, hc, a, ha, hb, h.endorsed ch a ha⟩

theorem Inherits.pallet (h : Inherits s) {acurast : Pallet.State R}
    (hs : ∀ action ∈ s.acurast.sent, action ∈ acurast.sent) :
    Inherits { s with acurast } :=
  ⟨h.chains, fun ch a ha => (h.endorsed ch a ha).mono hs⟩

theorem step_inherits (hc : Configured s) (hsi : SignsOnlySent s op)
    (hdi : ¬ DrivesDirectly s op) (h : Inherits s) : Inherits (step s op) := by
  cases op with
  | chain chain chainOp =>
    constructor
    · intro chain'
      show DrivenChain T chain'
        (Function.update s.chains chain (stepChain T chain (s.chains chain) chainOp) chain')
      rcases eq_or_ne chain' chain with rfl | hn
      · rw [Function.update_self]
        refine stepChain_driven (hc chain') ?_ (h.chains chain')
        rintro caller payload rfl hx hr
        exact hdi ⟨hx, hr⟩
      · rw [Function.update_of_ne hn]
        exact h.chains chain'
    · intro chain' a ha
      change a ∈ acceptedMessages
        (Function.update s.chains chain (stepChain T chain (s.chains chain) chainOp) chain').ibc at ha
      rcases eq_or_ne chain' chain with rfl | hn
      · rw [Function.update_self] at ha
        rcases stepChain_accepted ha with hold | ⟨caller, sigs, ibc, call, rfl, hac⟩
        · exact h.endorsed chain' a hold
        · exact endorsed_of_accepts (s := s) hac hsi
      · rw [Function.update_of_ne hn] at ha
        exact h.endorsed chain' a ha
  | updateAlephZeroContract o contract =>
    refine h.pallet (transact_induction
      (P := fun a : Pallet.State R => ∀ act ∈ s.acurast.sent, act ∈ a.sent) (fun _ => id)
      fun a hu => ?_)
    simp only [Pallet.updateAlephZeroContract, ok_iff] at hu
    obtain ⟨-, -, rfl⟩ := hu
    exact fun _ => id
  | updateVaraContract o contract =>
    refine h.pallet (transact_induction
      (P := fun a : Pallet.State R => ∀ act ∈ s.acurast.sent, act ∈ a.sent) (fun _ => id)
      fun a hu => ?_)
    simp only [Pallet.updateVaraContract, ok_iff] at hu
    obtain ⟨-, -, rfl⟩ := hu
    exact fun _ => id
  | sendToProxy chain act payer =>
    refine h.pallet (transact_induction
      (P := fun a : Pallet.State R => ∀ act ∈ s.acurast.sent, act ∈ a.sent) (fun _ => id)
      fun a hsen => ?_)
    obtain ⟨-, entry, hs⟩ := Pallet.sendToProxy_spec hsen
    rw [hs]
    exact fun _ => List.mem_append_left _
  | deliver chain m =>
    refine h.pallet (transact_induction
      (P := fun a : Pallet.State R => ∀ act ∈ s.acurast.sent, act ∈ a.sent) (fun _ => id)
      fun a hd => ?_)
    simp only [deliver, bind_eq_ok] at hd
    obtain ⟨-, -, payload, -, -, -, hp⟩ := hd
    obtain ⟨chain₁, action₁, -, -, -, hs⟩ := Pallet.process_spec hp
    rw [hs]
    exact fun _ => id

theorem run_receivedCalls (ops : List SystemOp) {r : Received}
    (h : r ∈ receivedCalls (s.chains chain).proxy) :
    r ∈ receivedCalls ((run step s ops).chains chain).proxy := by
  have hs : ∀ (t : System T R) (op : SystemOp), r ∈ receivedCalls (t.chains chain).proxy →
      r ∈ receivedCalls ((step t op).chains chain).proxy := by
    intro t op ht
    cases op with
    | chain chain' chainOp =>
      show r ∈ receivedCalls
        (Function.update t.chains chain' (stepChain T chain' (t.chains chain') chainOp) chain).proxy
      rcases eq_or_ne chain chain' with rfl | hn
      · rw [Function.update_self]
        have hg : Extends (t.chains chain) (stepChain T chain (t.chains chain) chainOp) :=
          stepChain_extends _ _
        exact (hg.proxy.filterMap Proxy.Entry.received?).subset ht
      · rw [Function.update_of_ne hn]
        exact ht
    | updateAlephZeroContract | updateVaraContract | sendToProxy | deliver => exact ht
  exact run_invariant' hs ops h

theorem drivesDirectly_received (h : DrivesDirectly s op) :
    ∃ chain, ∃ r ∈ receivedCalls ((step s op).chains chain).proxy, Acts r ∧ r.caller ≠ T.ibc chain := by
  match op, h with
  | .chain chain (.receiveAction caller payload), ⟨hx, hd⟩ =>
    obtain ⟨proxy, funds, hr⟩ := receiveAction_of_drives hd caller
    obtain ⟨r, hc, ha, -, -, hac⟩ := receiveAction_received hr
    have hs : stepChain T chain (s.chains chain) (.receiveAction caller payload) =
        { s.chains chain with proxy, funds } := by
      have hdi : dispatchChain T chain (s.chains chain) (.receiveAction caller payload) =
          .ok { s.chains chain with proxy, funds } := by
        simp only [dispatchChain, receiveAction, ok_iff, mapError_eq_ok]
        exact ⟨(), hx, (proxy, funds), hr, rfl⟩
      rw [stepChain, hdi]
      rfl
    refine ⟨chain, r, ?_, hac.mpr hd, ?_⟩
    · show r ∈ receivedCalls (Function.update s.chains chain
        (stepChain T chain (s.chains chain) (.receiveAction caller payload)) chain).proxy
      rw [Function.update_self, hs]
      rw [hc]
      exact List.mem_append_right _ (List.mem_singleton_self r)
    · rw [ha]
      exact (hx caller rfl).1

/-- In a run, what changed jobs or paid for them came from Acurast exactly if no account called
`receive_action` itself with an action that goes through. -/
theorem receive_action_driven_iff (hfresh : s.Fresh) (ops : List SystemOp)
    (hconfigured : Along step (fun t _ => Configured t) s ops)
    (hsigns : Along step SignsOnlySent s ops) :
    DrivenByAcurast (run step s ops) ↔ Along step (fun t op => ¬ DrivesDirectly t op) s ops := by
  constructor
  · intro hdr
    clear hfresh hconfigured hsigns
    induction ops generalizing s with
    | nil => trivial
    | cons op ops ih =>
      refine ⟨fun hd => ?_, ih hdr⟩
      obtain ⟨chain, r, hr, hc, hca⟩ := drivesDirectly_received hd
      exact hca (hdr chain r (run_receivedCalls ops hr) hc).1
  · intro hd
    have hs : Inherits s := by
      refine ⟨fun chain => ⟨?_, ?_⟩, fun chain => ?_⟩
      · rw [receivedCalls, (hfresh.chains chain).proxyHistory]
        intro r hr
        cases hr
      · rw [(hfresh.chains chain).pending]
        intro payload hp
        cases hp
      · rw [acceptedMessages, (hfresh.chains chain).ibcHistory]
        intro a ha
        cases ha
    have hn : Inherits (run step s ops) :=
      run_invariant (fun (t : System T R) (op : SystemOp) ho ht =>
        step_inherits ho.1.1 ho.1.2 ho.2 ht) ((hconfigured.and hsigns).and hd) hs
    exact hn.drivenByAcurast

end Systems

instance (s : System T R) : Decidable (Configured s) :=
  decidable_of_iff ((s.chains .alephZero).proxy.config.ibc = T.ibc .alephZero ∧
      (s.chains .vara).proxy.config.ibc = T.ibc .vara)
    ⟨fun h chain => by cases chain <;> simp [h], fun h => ⟨h .alephZero, h .vara⟩⟩

def usurpation (chain : ProxyChain) : List SystemOp :=
  [.chain chain (.sendActions 7 6 [.registerJob (mockJob 10 5)]),
    .chain chain (.receiveAction 9 (IncomingAction.encode ⟨0, .assignJobProcessor 1 9⟩))]

/-- The account has the fee of the job then, and nothing was accepted or sent. -/
theorem receive_action_usurped :
    let usurped := fun chain =>
      Along step (fun t _ => Configured t) mockSystem (usurpation chain) ∧
        Along step SignsOnlySent mockSystem (usurpation chain) ∧
        ((receivedCalls ((run step mockSystem (usurpation chain)).chains chain).proxy).map
          fun r => (r.caller, r.paid, (r.after.lookup 1).map (·.processors))) =
            [(9, some (9, 5), some [9])] ∧
        ¬ DrivenByAcurast (run step mockSystem (usurpation chain))
    usurped .alephZero ∧ usurped .vara := by
  intro usurped
  have hus : ∀ chain, usurped chain := by
    intro chain
    have hc : ((receivedCalls ((run step mockSystem (usurpation chain)).chains chain).proxy).map
        fun r => (r.caller, r.paid, (r.after.lookup 1).map (·.processors))) =
          [(9, some (9, 5), some [9])] := by
      cases chain <;> decide +kernel
    refine ⟨by cases chain <;> decide +kernel, ⟨trivial, trivial, trivial⟩, hc, ?_⟩
    intro hd
    obtain ⟨r, hr, hn⟩ := List.mem_map.mp (hc ▸ List.mem_singleton_self _)
    obtain ⟨ha, hp, -⟩ : r.caller = 9 ∧ r.paid = some (9, 5) ∧ _ := by
      simpa only [Prod.mk.injEq] using hn
    have hu := hd chain r hr (.inr (by rw [hp]; exact Option.some_ne_none _))
    have hb : mock.ibc chain ≠ 9 := by cases chain <;> decide
    exact hb (hu.1.symm.trans ha)
  exact ⟨hus .alephZero, hus .vara⟩

def mockAssignment (chain : ProxyChain) : Pallet.SentAction where
  action := ⟨0, .assignJobProcessor 1 8⟩
  nonce := mock.hash (encodeBits (0 : U64))
  recipient := match chain with
    | .alephZero => .alephZero (.contract ⟨mock.proxy .alephZero, some receiveActionSelector⟩)
    | .vara => .vara (.contract ⟨mock.proxy .vara, none⟩)

def assignmentRun (chain : ProxyChain) : List SystemOp :=
  let m := sentMessage mock mockRuntime (mockAssignment chain)
  [.updateAlephZeroContract .root ⟨mock.proxy .alephZero, some receiveActionSelector⟩,
    .updateVaraContract .root (mock.proxy .vara),
    .chain chain (.sendActions 7 6 [.registerJob (mockJob 10 5)]),
    .sendToProxy chain (.assignJob 1 (.secp256k1 [8])) 300,
    .chain chain (.receiveMessage 5 m.sender m.nonce m.recipient m.payload
      [mockOracle ++ IbcContract.messageHash mock m none]),
    .chain chain (.process 1)]

theorem receive_action_driven_assignmentRun :
    let driven := fun chain =>
      ((receivedCalls ((run step mockSystem (assignmentRun chain)).chains chain).proxy).map
        fun r => (r.caller, r.paid)) = [(mock.ibc chain, some (8, 5))] ∧
        DrivenByAcurast (run step mockSystem (assignmentRun chain))
    driven .alephZero ∧ driven .vara := by
  intro driven
  have hd : ∀ chain, driven chain := by
    intro chain
    refine ⟨by cases chain <;> decide +kernel, ?_⟩
    refine (receive_action_driven_iff mockSystem_fresh (assignmentRun chain) ?_ ?_).mpr ?_
    · cases chain <;> decide +kernel
    · refine ⟨trivial, trivial, trivial, trivial, ?_, trivial, trivial⟩
      intro signature hs
      cases List.mem_singleton.mp hs
      cases chain <;> decide +kernel
    · exact ⟨id, id, id, id, id, id, trivial⟩
  exact ⟨hd .alephZero, hd .vara⟩

end Acurast.Hyperdrive

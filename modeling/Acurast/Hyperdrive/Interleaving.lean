import Acurast.Hyperdrive.Escrow

/-! Messages of the Vara proxy that are under way together. Each call gives its messages ids of their
own; the proxy never learns that one was refused, and the job that was registered with it stays. -/

namespace Acurast.Hyperdrive

open Base
open Proxy (SendRequest UserAction Prepares)

variable {T : Setup}

def Pending.request? : Pending → Option SendRequest
  | .sending _ request => some request
  | .receiving _ => none

def underWay (s : ChainState T) : List SendRequest := s.pending.filterMap Pending.request?

/-- Accepted messages have ids of their own, none is refused for an id that was accepted before, and
the jobs are those whose registration was accepted or is under way. -/
structure Consistent (s : ChainState T) : Prop where
  ids : s.outcomes.Pairwise fun o o' =>
    o.error = none → o'.error = none → o.request.id ≠ o'.request.id
  nonces : s.outcomes.Pairwise fun o o' =>
    o.error = none → o'.error = some (.ibcError .messageWithSameNoncePending) →
      o.request.id ≠ o'.request.id
  jobs : ∀ jobId, jobId ∈ s.proxy.jobInfo ↔
    (∃ o ∈ s.outcomes, o.error = none ∧ o.request.job = some jobId) ∨
      ∃ request ∈ underWay s, request.job = some jobId

/-- The proxy's IBC program is not paused, asks for no longer a time to live than the proxy gives, and
stores no message of that nonce whose time is not over. -/
structure Welcome (T : Setup) (s : ChainState T) (target : AccountId32) (request : SendRequest) :
    Prop where
  target : target = T.ibc .vara
  unpaused : s.ibc.config.paused = false
  ttl : s.ibc.config.minTtl ≤ Proxy.messageTtl
  free : ∀ m ∈ s.ibc.outgoing.lookup
    (IbcContract.messageId T (IbcContract.sender T .vara) request.nonce),
    m.ttlBlock < s.env.blockNumber

def Undisturbed (T : Setup) (s : ChainState T) : ChainOp → Prop
  | .sendActions _ _ actions => s.proxy.nextOutgoingActionId.toNat + actions.length < 2 ^ 64
  | .process i =>
    match s.pending[i]? with
    | some (.sending target request) => request.job ≠ none → Welcome T s target request
    | _ => True
  | _ => True

section Sequences

variable {s s' : ChainState T}

def requests (s : ChainState T) : List SendRequest := s.outcomes.map Outcome.request ++ underWay s

structure Sequenced (s : ChainState T) : Prop where
  below : ∀ request ∈ requests s, request.id.toNat < s.proxy.nextOutgoingActionId.toNat
  apart : ((requests s).map SendRequest.id).Nodup
  jobs : ∀ jobId, jobId ∈ s.proxy.jobInfo ↔
    (∃ o ∈ s.outcomes, o.error = none ∧ o.request.job = some jobId) ∨
      ∃ request ∈ underWay s, request.job = some jobId

theorem Sequenced.consistent (h : Sequenced s) : Consistent s := by
  have ha : s.outcomes.Pairwise fun o o' => o.request.id ≠ o'.request.id := by
    have hn := h.apart
    rw [requests, List.map_append, List.map_map] at hn
    exact List.pairwise_map.mp (List.nodup_append.mp hn).1
  exact ⟨ha.imp fun hn _ _ => hn, ha.imp fun hn _ _ => hn, h.jobs⟩

theorem Sequenced.congr (h : Sequenced s)
    (hj : ∀ j, j ∈ s'.proxy.jobInfo ↔ j ∈ s.proxy.jobInfo)
    (hd : s'.proxy.nextOutgoingActionId = s.proxy.nextOutgoingActionId)
    (hw : (underWay s').Perm (underWay s)) (hu : s'.outcomes = s.outcomes) :
    Sequenced s' := by
  have hr : (requests s').Perm (requests s) := by
    rw [requests, hu]
    exact hw.append_left _
  constructor
  · intro req hm
    rw [hd]
    exact h.below req (hr.mem_iff.mp hm)
  · exact (hr.map _).nodup_iff.mpr h.apart
  · intro j
    rw [hj, h.jobs, hu]
    simp only [hw.mem_iff]

variable {ibc : IbcContract.State} {proxy : Proxy.State} {i call : ℕ} {val : U128}
  {request req : SendRequest} {target who : AccountId32} {ch : ProxyChain} {pl : Bytes}

theorem underWay_append (s : ChainState T) (msg : Pending) :
    underWay { s with pending := s.pending ++ [msg] } = underWay s ++ msg.request?.toList := by
  rw [underWay, List.filterMap_append]
  cases msg <;> rfl

theorem underWay_eraseIdx {msg : Pending} (h : s.pending[i]? = some msg) :
    (underWay s).Perm
      (msg.request?.toList ++ underWay { s with pending := s.pending.eraseIdx i }) := by
  obtain ⟨hi, hg⟩ := List.getElem?_eq_some_iff.mp h
  have hp := (List.getElem_cons_eraseIdx_perm hi).symm
  rw [hg] at hp
  have hc := hp.filterMap Pending.request?
  cases msg with
  | sending | receiving => exact hc

theorem sendAction_toNat_actionId {user : UserAction}
    (hn : s.proxy.nextOutgoingActionId.toNat + 1 < 2 ^ 64)
    (hs : sendAction T ch who val call s user = .ok s') :
    s'.proxy.nextOutgoingActionId.toNat = s.proxy.nextOutgoingActionId.toNat + 1 := by
  obtain ⟨px, req, t, -, hp, -, rfl⟩ := sendAction_spec hs
  show (px.nextOutgoingActionId + 1).toNat = _
  rw [hp.nextOutgoingActionId, BitVec.toNat_add]
  exact Nat.mod_eq_of_lt hn

theorem Sequenced.send {user : UserAction} (h : Sequenced s)
    (hn : s.proxy.nextOutgoingActionId.toNat + 1 < 2 ^ 64)
    (hs : sendAction T .vara who val call s user = .ok s') : Sequenced s' := by
  have hadv := sendAction_toNat_actionId hn hs
  obtain ⟨px, req, t, ha, hp, ho, rfl⟩ := sendAction_spec hs
  cases ho with
  | called hv => cases hv
  | queued =>
    have hw : underWay { s with
        proxy := Proxy.advanceActionId px
        pending := s.pending ++ [.sending px.config.ibc req] } = underWay s ++ [req] :=
      underWay_append s _
    have hr : requests { s with
        proxy := Proxy.advanceActionId px
        pending := s.pending ++ [.sending px.config.ibc req] } = requests s ++ [req] := by
      rw [requests, hw, ← List.append_assoc]
      rfl
    constructor
    · intro req' hm
      rw [hadv]
      rw [hr, List.mem_append, List.mem_singleton] at hm
      rcases hm with hm | rfl
      · exact Nat.lt_succ_of_lt (h.below req' hm)
      · rw [ha.id]
        exact Nat.lt_succ_self _
    · rw [hr, List.map_append, List.nodup_append]
      refine ⟨h.apart, List.nodup_singleton _, ?_⟩
      rintro a hm b hb rfl
      obtain ⟨req', hm', hq⟩ := List.mem_map.mp hm
      cases List.mem_singleton.mp hb
      have hl := h.below req' hm'
      rw [hq, ha.id] at hl
      exact Nat.lt_irrefl _ hl
    · intro j
      have hjo : j ∈ px.jobInfo ↔ j ∈ s.proxy.jobInfo ∨ req.job = some j := by
        rw [ha.job]
        cases hp with
        | register input cost hr =>
          rw [hr.state, AList.mem_insert, or_comm]
          exact or_congr_right ⟨fun hq => congrArg some hq.symm, fun hq => (Option.some.inj hq).symm⟩
        | other _ hj hs =>
          rw [hs, hj]
          exact (or_iff_left nofun).symm
      show j ∈ px.jobInfo ↔ _
      rw [hjo, h.jobs, hw, or_assoc]
      simp only [List.mem_append, List.mem_singleton, or_and_right, exists_or, exists_eq_left]

theorem sendActions_sequenced {actions : List UserAction}
    (hn : s.proxy.nextOutgoingActionId.toNat + actions.length < 2 ^ 64)
    (hse : sendActions T .vara s who val actions = .ok s') (h : Sequenced s) : Sequenced s' := by
  obtain ⟨funds, -, hl⟩ := sendActions_spec hse
  have hs : Sequenced (withCall s funds) := h.congr (fun _ => Iff.rfl) rfl .rfl rfl
  have hb : (withCall s funds).proxy.nextOutgoingActionId.toNat + actions.length < 2 ^ 64 := hn
  clear hse
  generalize withCall s funds = t at hl hs hb
  induction actions generalizing t with
  | nil =>
    cases hl
    exact hs
  | cons user actions ih =>
    rw [List.foldlM_cons, bind_eq_ok] at hl
    obtain ⟨t', ht, hr⟩ := hl
    rw [List.length_cons] at hb hn
    have hid := sendAction_toNat_actionId (by omega) ht
    exact ih (by omega) t' hr (hs.send (by omega) ht) (by omega)

theorem Welcome.accepted (h : Welcome T s target req) :
    ∃ ibc, callIbc T .vara s.env s.ibc target req = .ok ibc := by
  unfold callIbc
  rw [if_pos h.target]
  simp only [mapError_eq_ok, IbcContract.sendMessage, IbcContract.doSendMessage,
    IbcContract.ensureUnpaused, ok_iff]
  exact ⟨_, (), h.unpaused, (), by simp, (), h.free, (), h.ttl, rfl⟩

theorem Sequenced.answer (h : Sequenced s) (hm : s.pending[i]? = some (.sending target req))
    (hu : Undisturbed T s (.process i)) :
    Sequenced (processPending T .vara { s with pending := s.pending.eraseIdx i }
      (.sending target req)) := by
  have hw : req.job ≠ none → Welcome T s target req := by
    rw [Undisturbed, hm] at hu
    exact hu
  have hp := underWay_eraseIdx hm
  have hr : (requests (processPending T .vara { s with pending := s.pending.eraseIdx i }
      (.sending target req))).Perm (requests s) := by
    have hl : requests (processPending T .vara { s with pending := s.pending.eraseIdx i }
        (.sending target req)) = s.outcomes.map Outcome.request ++
          ([req] ++ underWay { s with pending := s.pending.eraseIdx i }) := by
      rw [requests, ← List.append_assoc, processPending, List.map_append]
      rfl
    rw [hl]
    exact hp.symm.append_left _
  constructor
  · intro req' hreq
    exact h.below req' (hr.mem_iff.mp hreq)
  · exact (hr.map _).nodup_iff.mpr h.apart
  · intro j
    refine (h.jobs j).trans ?_
    constructor
    · rintro (⟨o, ho, hn, hj⟩ | ⟨req', hreq, hj⟩)
      · exact .inl ⟨o, List.mem_append_left _ ho, hn, hj⟩
      · rcases List.mem_append.mp (hp.mem_iff.mp hreq) with hq | hold
        · cases List.mem_singleton.mp hq
          obtain ⟨ibc, hc⟩ := (hw (by rw [hj]; exact Option.some_ne_none j)).accepted
          refine .inl ⟨⟨req, _⟩, List.mem_append_right _ (List.mem_singleton_self _), ?_, hj⟩
          rw [hc]
          rfl
        · exact .inr ⟨req', hold, hj⟩
    · rintro (⟨o, ho, hn, hj⟩ | ⟨req', hreq, hj⟩)
      · rcases List.mem_append.mp ho with hold | hq
        · exact .inl ⟨o, hold, hn, hj⟩
        · cases List.mem_singleton.mp hq
          exact .inr ⟨req, hp.mem_iff.mpr List.mem_cons_self, hj⟩
      · exact .inr ⟨req', hp.mem_iff.mpr (List.mem_cons_of_mem _ hreq), hj⟩

theorem mem_insert_of_lookup {jobInfo : StorageMap U128 Proxy.JobInformationV1} {j : U128}
    {job job' : Proxy.JobInformationV1} (h : jobInfo.lookup j = some job) (other : U128) :
    other ∈ jobInfo.insert j job' ↔ other ∈ jobInfo := by
  rw [AList.mem_insert]
  refine ⟨fun hm => hm.elim (fun hq => ?_) id, .inr⟩
  rw [hq, ← AList.lookup_isSome, h]
  rfl

theorem Sequenced.receiveAction (h : Sequenced s) {funds : T.Funds}
    (hr : Proxy.receiveAction T ch s.proxy s.funds who pl = .ok (proxy, funds)) :
    Sequenced { s with proxy, funds } := by
  obtain ⟨⟨id, actionPayload⟩, turn, -, -, ht, -, rfl⟩ := Proxy.receiveAction_spec hr
  refine h.congr (fun j => ?_) rfl .rfl rfl
  cases Proxy.handleAction_spec ht with
  | assign hj => exact mem_insert_of_lookup hj j
  | finalize hj => exact mem_insert_of_lookup hj j
  | noop => exact Iff.rfl

theorem Sequenced.fulfill (h : Sequenced s) {fulfilled : U128} {funds : T.Funds}
    (hf : Proxy.fulfill T ch s.proxy s.funds who fulfilled pl = .ok (proxy, funds)) :
    Sequenced { s with proxy, funds } := by
  obtain ⟨job, hj, -, -, rfl⟩ := Proxy.fulfill_spec hf
  refine h.congr (fun j => ?_) rfl .rfl rfl
  unfold Proxy.refill
  split_ifs
  · exact mem_insert_of_lookup hj j
  · exact Iff.rfl

theorem Sequenced.configure (h : Sequenced s) {acts : List Proxy.ConfigureArgument}
    (hc : Proxy.configure s.proxy who acts = .ok proxy) :
    Sequenced { s with proxy } := by
  obtain ⟨-, rfl⟩ := Proxy.configure_spec hc
  exact h.congr (fun _ => Iff.rfl) rfl .rfl rfl

theorem processPending_sequenced {msg : Pending} (hm : s.pending[i]? = some msg)
    (hu : Undisturbed T s (.process i)) (h : Sequenced s) :
    Sequenced (processPending T .vara { s with pending := s.pending.eraseIdx i } msg) := by
  have hp := underWay_eraseIdx hm
  cases msg with
  | sending target req => exact h.answer hm hu
  | receiving pl =>
    have hs : Sequenced { s with pending := s.pending.eraseIdx i } :=
      h.congr (fun _ => Iff.rfl) rfl hp.symm rfl
    refine transact_induction hs fun s' hc => ?_
    obtain ⟨proxy, funds, hr, rfl⟩ := receiveAction_eq_ok hc
    exact hs.receiveAction hr

theorem passOn_sequenced {call : ContractCall AccountId32} (h : Sequenced s) :
    Sequenced (passOn T .vara s call pl) := by
  rcases passOn_spec s call pl with hs | ⟨-, hp⟩
  · rw [hs]
    exact h
  · generalize passOn T .vara s call pl = s' at hp
    cases hp with
    | ignored => exact h
    | received hc => cases hc
    | configured ho => exact h.configure ho
    | fulfilled hf => exact h.fulfill hf
    | enqueued =>
      refine h.congr (fun _ => Iff.rfl) rfl ?_ rfl
      rw [underWay_append]
      exact .of_eq (List.append_nil _)

theorem stepChain_sequenced {op : ChainOp} (hu : Undisturbed T s op) (h : Sequenced s) :
    Sequenced (stepChain T .vara s op) := by
  refine transact_induction h fun s' hdi => ?_
  have hd := (dispatchChain_spec hdi).2
  cases hd with
  | aside has =>
    refine h.congr (fun j => by rw [has.proxy]) (by rw [has.proxy]) ?_ has.outcomes
    rw [underWay, has.pending]
    exact .rfl
  | sent | sentTest | confirmed => exact h.congr (fun _ => Iff.rfl) rfl .rfl rfl
  | accepted hacc =>
    rename_i ibc call
    have ha : Sequenced { s with ibc } := h.congr (fun _ => Iff.rfl) rfl .rfl rfl
    exact passOn_sequenced ha
  | configured hc => exact h.configure hc
  | acted hs => exact sendActions_sequenced hu hs h
  | received hr => exact h.receiveAction hr
  | fulfilled hf => exact h.fulfill hf
  | processed hm => exact processPending_sequenced hm hu h

/-- In a run of a fresh chain in which the messages that register jobs are welcome and ids do not wrap
around, the calls of `send_actions` stay consistent, in whatever order messages are processed. -/
theorem send_actions_consistent (hfresh : s.Fresh) (ops : List ChainOp)
    (hundisturbed : Along (stepChain T .vara) (Undisturbed T) s ops) :
    Consistent (run (stepChain T .vara) s ops) := by
  have hw : underWay s = [] := by
    rw [underWay, hfresh.pending]
    rfl
  have hq : requests s = [] := by
    rw [requests, hw, hfresh.outcomes]
    rfl
  have hs : Sequenced s := by
    constructor
    · rw [hq]
      exact fun _ hm => absurd hm List.not_mem_nil
    · rw [hq]
      exact .nil
    · intro jobId
      rw [hw, hfresh.outcomes, hfresh.jobInfo]
      refine iff_of_false (AList.notMem_empty jobId) ?_
      rintro (⟨o, ho, -⟩ | ⟨request, hm, -⟩)
      · cases ho
      · cases hm
  have hr : Sequenced (run (stepChain T .vara) s ops) :=
    run_invariant (fun (t : ChainState T) (op : ChainOp) hk ht => stepChain_sequenced hk ht)
      hundisturbed hs
  exact hr.consistent

end Sequences

instance (s : ChainState T) (target : AccountId32) (request : SendRequest) :
    Decidable (Welcome T s target request) :=
  decidable_of_iff (target = T.ibc .vara ∧ s.ibc.config.paused = false ∧
      s.ibc.config.minTtl ≤ Proxy.messageTtl ∧ ∀ m ∈ s.ibc.outgoing.lookup
        (IbcContract.messageId T (IbcContract.sender T .vara) request.nonce),
        m.ttlBlock < s.env.blockNumber)
    ⟨fun h => ⟨h.1, h.2.1, h.2.2.1, h.2.2.2⟩, fun h => ⟨h.target, h.unpaused, h.ttl, h.free⟩⟩

instance (s : ChainState T) (op : ChainOp) : Decidable (Undisturbed T s op) := by
  unfold Undisturbed
  split <;> (try split) <;> infer_instance

theorem not_consistent_of_refused {s : ChainState T} {j : U128}
    (ho : ∀ o ∈ s.outcomes, o.error ≠ none) (hu : underWay s = [])
    (hj : j ∈ s.proxy.jobInfo) : ¬ Consistent s := by
  intro hc
  rcases (hc.jobs j).mp hj with ⟨o, hm, hn, -⟩ | ⟨request, hm, -⟩
  · exact ho o hm hn
  · rw [hu] at hm
    cases hm

/-- Account 7 registers a job while the IBC program is paused, or after account 9 used the proxy's
next nonce. The message is refused, and the job stays. -/
theorem refused_registration_stays :
    let paused := run (stepChain mock .vara) (mockChain .vara)
      [.configureIbc 1 [.paused true], .sendActions 7 6 [.registerJob (mockJob 10 5)], .process 0]
    let usurped := run (stepChain mock .vara) (mockChain .vara)
      [.sendMessage 9 0 (Proxy.actionNonce mock .vara 1) (.acurast (.extrinsic 300)) [] 20,
        .sendActions 7 6 [.registerJob (mockJob 10 5)], .process 0]
    (paused.outcomes.map (fun o => (o.request.job, o.error)) =
        [(some 1, some (.ibcError .contractPaused))] ∧
      underWay paused = [] ∧ 1 ∈ paused.proxy.jobInfo ∧ ¬ Consistent paused) ∧
    (usurped.outcomes.map (fun o => (o.request.job, o.error)) =
        [(some 1, some (.ibcError .messageWithSameNoncePending))] ∧
      underWay usurped = [] ∧ 1 ∈ usurped.proxy.jobInfo ∧ ¬ Consistent usurped) := by
  intro paused usurped
  have hp : underWay paused = [] ∧ 1 ∈ paused.proxy.jobInfo := by decide +kernel
  have hu : underWay usurped = [] ∧ 1 ∈ usurped.proxy.jobInfo := by decide +kernel
  refine ⟨⟨by decide +kernel, hp.1, hp.2, ?_⟩, by decide +kernel, hu.1, hu.2, ?_⟩
  · exact not_consistent_of_refused (by decide +kernel) hp.1 hp.2
  · exact not_consistent_of_refused (by decide +kernel) hu.1 hu.2

/-- Accounts 7 and 9 call the proxy before the IBC program processes a message, and the messages are
processed in the other order. -/
def overlapping : List ChainOp :=
  [.sendActions 7 6 [.noop, .registerJob (mockJob 10 5)], .sendActions 9 6 [.registerJob (mockJob 10 5)],
    .process 2, .process 1, .advance 200 0, .process 0]

theorem send_actions_consistent_overlapping :
    (run (stepChain mock .vara) (mockChain .vara) overlapping).outcomes.map
        (fun o => (o.request.id, o.error)) = [(3, none), (2, none), (1, none)] ∧
      Consistent (run (stepChain mock .vara) (mockChain .vara) overlapping) := by
  refine ⟨by decide +kernel, send_actions_consistent (mockChain_fresh .vara) overlapping ?_⟩
  decide +kernel

end Acurast.Hyperdrive

import Acurast.Hyperdrive.Finality

/-! What the proxy is charged for a job, and what it pays for it. A call shows its whole value to each
job it registers, an assignment takes its fee in any case, and rewards are refunded in another currency
than they were charged in. -/

namespace Acurast.Hyperdrive

open Base
open Proxy (Turn JobInformationV1 UserAction Registers Prepares Handles)

def Proxy.Entry.charge (jobId : U128) : Proxy.Entry → ℕ
  | .registered _ _ id expectedFee cost => if id = jobId then expectedFee.toNat + cost.toNat else 0
  | _ => 0

def Proxy.Entry.callCharge (call : ℕ) : Proxy.Entry → ℕ
  | .registered c _ _ expectedFee cost => if c = call then expectedFee.toNat + cost.toNat else 0
  | _ => 0

def Proxy.Entry.reprice (jobId : U128) (price : ℕ) : Proxy.Entry → ℕ
  | .registered _ _ id _ cost => if id = jobId then cost.toNat else price
  | _ => price

def charges (p : Proxy.State) (jobId : U128) : ℕ := (p.history.map (Proxy.Entry.charge jobId)).sum

def callCharges (p : Proxy.State) (call : ℕ) : ℕ := (p.history.map (Proxy.Entry.callCharge call)).sum

def rewardPrice (p : Proxy.State) (jobId : U128) : ℕ := p.history.foldl (Proxy.Entry.reprice jobId) 0

/-- No more was paid for a job than charged for it, and the value of a call covers its jobs. -/
structure Escrowed (p : Proxy.State) : Prop where
  jobs : ∀ jobId, payouts p jobId ≤ charges p jobId
  calls : ∀ call value jobId expectedFee cost,
    .registered call value jobId expectedFee cost ∈ p.history → callCharges p call ≤ value.toNat

def jobCharge (c : Proxy.Config) (payload : Proxy.RegisterJobUserInput) : ℕ :=
  (Proxy.expectedFee payload).toNat +
    ((c.exchangeRatio.exchangePrice (Proxy.maximumReward payload)).toOption.getD 0).toNat

def Proxy.UserAction.registration? : UserAction → Option Proxy.RegisterJobUserInput
  | .registerJob payload => some payload
  | _ => none

def registrations : ChainOp → List Proxy.RegisterJobUserInput
  | .sendActions _ _ actions => actions.filterMap UserAction.registration?
  | _ => []

/-- The action meets a job that is not finalized: a fee that is left, or an unused reward within what
was charged for the reward. A finalization that has nothing to refund is in order as well. -/
def Orderly (p : Proxy.State) (payload : Bytes) : Prop :=
  match (IncomingAction.decode payload).map IncomingAction.payload with
  | some (.assignJobProcessor jobId _) => ∀ job ∈ p.jobInfo.lookup jobId,
    job.status ≠ .finalizedOrCancelled ∧ job.expectedFulfillmentFee ≤ job.remainingFee
  | some (.finalizeJob jobId unusedReward) => ∀ job ∈ p.jobInfo.lookup jobId,
    (job.status ≠ .finalizedOrCancelled ∧ unusedReward.toNat ≤ rewardPrice p jobId) ∨
      job.remainingFee + unusedReward = 0
  | some .noop | none => True

section Jobs

variable {T : Setup} {chain ch : ProxyChain} {p p' : Proxy.State} {funds funds' : T.Funds}
  {caller who : AccountId32} {payload pl : Bytes}

/-- Until a job is finalized, what was charged covers what was paid, the fees that are left and the
price of the reward. -/
structure JobLedger (p : Proxy.State) : Prop where
  paid : ∀ jobId, payouts p jobId ≤ charges p jobId
  unsettled : ∀ jobId job, p.jobInfo.lookup jobId = some job → job.status ≠ .finalizedOrCancelled →
    payouts p jobId + job.remainingFee.toNat + rewardPrice p jobId ≤ charges p jobId

theorem JobLedger.congr (h : JobLedger p) (hj : p'.jobInfo = p.jobInfo)
    (hh : p'.history = p.history) : JobLedger p' := by
  constructor
  · intro jobId
    rw [payouts, charges, hh]
    exact h.paid jobId
  · intro jobId job
    rw [payouts, charges, rewardPrice, hh, hj]
    exact h.unsettled jobId job

structure PaysOnly (p p' : Proxy.State) : Prop where
  charges : ∀ jobId, charges p' jobId = charges p jobId
  rewardPrice : ∀ jobId, rewardPrice p' jobId = rewardPrice p jobId
  calls : ∀ call, callCharges p' call = callCharges p call
  entries : ∀ call value jobId expectedFee cost,
    .registered call value jobId expectedFee cost ∈ p'.history →
      .registered call value jobId expectedFee cost ∈ p.history

theorem paysOnly_append {es : List Proxy.Entry} (hh : p'.history = p.history ++ es)
    (hs : ∀ e ∈ es, ∀ call val jobId expectedFee cost,
      e ≠ .registered call val jobId expectedFee cost) : PaysOnly p p' := by
  have ho : ∀ f : Proxy.Entry → ℕ, (∀ e ∈ es, f e = 0) → (es.map f).sum = 0 := by
    intro f hf
    exact List.sum_eq_zero fun n hn => by
      obtain ⟨e, he, rfl⟩ := List.mem_map.mp hn
      exact hf e he
  refine ⟨fun jobId => ?_, fun jobId => ?_, fun call => ?_, ?_⟩
  · rw [Hyperdrive.charges, hh, List.map_append, List.sum_append, ho _ ?_]
    · rfl
    intro e he
    cases e with
    | registered => exact absurd rfl (hs _ he _ _ _ _ _)
    | paid | received => rfl
  · rw [Hyperdrive.rewardPrice, hh, List.foldl_append]
    refine List.foldlRecOn (motive := fun price => price = Hyperdrive.rewardPrice p jobId) es _ rfl
      fun price hp e he => ?_
    cases e with
    | registered => exact absurd rfl (hs _ he _ _ _ _ _)
    | paid | received => exact hp
  · rw [callCharges, hh, List.map_append, List.sum_append, ho _ ?_]
    · rfl
    intro e he
    cases e with
    | registered => exact absurd rfl (hs _ he _ _ _ _ _)
    | paid | received => rfl
  · intro call val jobId expectedFee cost hm
    rw [hh] at hm
    rcases List.mem_append.mp hm with hold | hw
    · exact hold
    · exact absurd rfl (hs _ hw _ _ _ _ _)

theorem Turn.entries_ne_registered (turn : Turn) : ∀ e ∈ turn.entries,
    ∀ call val jobId expectedFee cost, e ≠ .registered call val jobId expectedFee cost := by
  intro e he
  unfold Turn.entries at he
  split at he
  · cases he
  · cases List.mem_singleton.mp he
    exact nofun

theorem receiveAction_paysOnly
    (h : Proxy.receiveAction T ch p funds who pl = .ok (p', funds')) : PaysOnly p p' := by
  obtain ⟨act, turn, -, -, -, -, rfl⟩ := Proxy.receiveAction_spec h
  refine paysOnly_append (List.append_assoc _ _ _) fun e he => ?_
  rcases List.mem_append.mp he with ht | hr
  · exact Turn.entries_ne_registered turn e ht
  · cases List.mem_singleton.mp hr
    exact nofun

variable {jobId : U128}

theorem fulfill_paysOnly (h : Proxy.fulfill T ch p funds who jobId pl = .ok (p', funds')) :
    PaysOnly p p' := by
  obtain ⟨job, -, -, -, rfl⟩ := Proxy.fulfill_spec h
  exact paysOnly_append rfl (Turn.entries_ne_registered _)

theorem JobLedger.update (h : JobLedger p) {job : JobInformationV1} {x : ℕ}
    (hj : p'.jobInfo = p.jobInfo.insert jobId job)
    (hp : ∀ id, payouts p' id = payouts p id + if jobId = id then x else 0)
    (ho : PaysOnly p p') (ha : payouts p jobId + x ≤ charges p jobId)
    (hu : job.status ≠ .finalizedOrCancelled →
      payouts p jobId + x + job.remainingFee.toNat + rewardPrice p jobId ≤ charges p jobId) :
    JobLedger p' := by
  constructor
  · intro id
    rw [hp, ho.charges]
    split_ifs with hd
    · exact hd ▸ ha
    · exact h.paid id
  · intro id job' hj' hs
    rw [hj, lookup_insert_eq] at hj'
    rw [hp, ho.charges, ho.rewardPrice]
    split_ifs at hj' with hd
    · cases hj'
      rw [if_pos hd.symm, hd]
      exact hu hs
    · rw [if_neg (Ne.symm hd)]
      exact h.unsettled id job' hj' hs

theorem toNat_sub_add_cancel {a b : U128} (h : b ≤ a) : (a - b).toNat + b.toNat = a.toNat := by
  rw [BitVec.toNat_sub_of_le h]
  exact Nat.sub_add_cancel h

theorem JobLedger.receiveAction (h : JobLedger p) (hr : Orderly p pl)
    (hc : Proxy.receiveAction T ch p funds who pl = .ok (p', funds')) :
    JobLedger p' := by
  have ho := receiveAction_paysOnly hc
  obtain ⟨act, turn, -, hd, hh, -, hji, hp⟩ := receiveAction_turn hc
  unfold Orderly at hr
  rw [hd, Option.map_some] at hr
  obtain ⟨id, actionPayload⟩ := act
  cases hh with
  | assign hj =>
    rename_i jobId processor job
    obtain ⟨hs, hf⟩ := hr job hj
    have hl := h.unsettled jobId job hj hs
    have hlef := toNat_sub_add_cancel hf
    refine h.update hji hp ho ?_ fun _ => ?_
    · omega
    · dsimp only
      omega
  | finalize hj hm =>
    rename_i jobId unused job
    by_cases hre : 0 < job.remainingFee + unused
    · have ha : ∀ id, payouts p' id = payouts p id +
          if jobId = id then (job.remainingFee + unused).toNat else 0 := by
        intro id
        rw [hp, Turn.amountFor, Turn.entries]
        simp only [if_pos hre]
        rfl
      have hn : job.remainingFee + unused ≠ 0 := by
        intro hz
        rw [hz] at hre
        exact Nat.lt_irrefl 0 hre
      obtain ⟨hs, hun⟩ := (hr job hj).resolve_right hn
      have hl := h.unsettled jobId job hj hs
      have hu : (job.remainingFee + unused).toNat ≤ job.remainingFee.toNat + unused.toNat := by
        exact Nat.mod_le _ _
      refine h.update hji ha ho ?_ fun hop => absurd rfl hop
      omega
    · have ha : ∀ id, payouts p' id = payouts p id + if jobId = id then 0 else 0 := by
        intro id
        rw [hp, Turn.amountFor, Turn.entries, ite_self]
        simp only [if_neg hre]
        rfl
      exact h.update hji ha ho (h.paid jobId) fun hop => absurd rfl hop
  | noop =>
    constructor
    · intro jobId
      rw [hp, ho.charges]
      exact h.paid jobId
    · intro jobId job hj
      rw [hp, ho.charges, ho.rewardPrice]
      rw [hji] at hj
      exact h.unsettled jobId job hj

theorem JobLedger.fulfill (h : JobLedger p)
    (hf : Proxy.fulfill T ch p funds who jobId pl = .ok (p', funds')) :
    JobLedger p' := by
  have ho := fulfill_paysOnly hf
  obtain ⟨job, hj, has, -, rfl⟩ := Proxy.fulfill_spec hf
  unfold Proxy.refill at ho ⊢
  split_ifs at ho ⊢ with hl
  · have hs : job.status ≠ .finalizedOrCancelled := by
      rw [has]
      exact nofun
    have hd := h.unsettled jobId job hj hs
    have hr := toNat_sub_add_cancel hl.1
    refine h.update rfl (fun id => payouts_append _ _) ho ?_ fun _ => ?_
    · omega
    · dsimp only
      omega
  · exact h.congr rfl (List.append_nil _)

theorem JobLedger.prepares (h : JobLedger p) {val : U128} {call : ℕ} {user : UserAction}
    (hpr : Prepares p p' who val call user) : JobLedger p' := by
  cases hpr with
  | other _ _ hs => exact hs ▸ h
  | register input cost hr =>
    have hp : ∀ id, payouts p' id = payouts p id := by
      intro id
      rw [hr.state, payouts, List.map_append, List.sum_append]
      rfl
    have hc : ∀ id, charges p' id = charges p id +
        if p.nextJobId = id then (Proxy.expectedFee input).toNat + cost.toNat else 0 := by
      intro id
      rw [hr.state, charges, List.map_append, List.sum_append]
      rfl
    have hpri : ∀ id, rewardPrice p' id = if p.nextJobId = id then cost.toNat else rewardPrice p id := by
      intro id
      rw [hr.state, rewardPrice, List.foldl_append]
      rfl
    constructor
    · intro id
      rw [hp, hc]
      exact (h.paid id).trans (Nat.le_add_right _ _)
    · intro id job hj ht
      have hl : p'.jobInfo.lookup id =
          if id = p.nextJobId then some (Proxy.jobInformation who input) else p.jobInfo.lookup id := by
        rw [hr.state]
        exact lookup_insert_eq _ _ _ _
      rw [hl] at hj
      rw [hp, hc, hpri]
      split_ifs at hj with hd
      · cases hj
        rw [if_pos hd.symm, if_pos hd.symm, Nat.add_assoc]
        exact Nat.add_le_add_right (h.paid id) _
      · rw [if_neg (Ne.symm hd), if_neg (Ne.symm hd)]
        exact h.unsettled id job hj ht

end Jobs

section Calls

variable {T : Setup} {chain ch : ProxyChain} {s s' : ChainState T}

def handedOver (T : Setup) (chain : ProxyChain) (s : ChainState T) : ChainOp → Option Bytes
  | .receiveAction _ payload => some payload
  | .receiveMessage _ _ _ recipient payload _ =>
    if chain = .alephZero ∧
        recipient = .alephZero (.contract ⟨T.proxy chain, some receiveActionSelector⟩) then some payload
    else none
  | .process i =>
    match s.pending[i]? with
    | some (.receiving payload) => some payload
    | _ => none
  | _ => none

/-- A received action is in order; a call registers at most one job, and what the job is charged
does not wrap around. -/
structure Covered (T : Setup) (chain : ProxyChain) (s : ChainState T) (op : ChainOp) : Prop where
  orderly : ∀ payload ∈ handedOver T chain s op, Orderly s.proxy payload
  single : (registrations op).length ≤ 1
  unwrapped : ∀ payload ∈ registrations op, jobCharge s.proxy.config payload < 2 ^ 128

variable {p p' : Proxy.State} {call : ℕ} {who : AccountId32} {val : U128} {actions : List UserAction}
  {pl : Bytes}

def Unregistered (p : Proxy.State) (call : ℕ) : Prop :=
  ∀ value jobId expectedFee cost, .registered call value jobId expectedFee cost ∉ p.history

structure CallLedger (p : Proxy.State) : Prop where
  made : ∀ call, p.calls ≤ call → Unregistered p call
  covered : ∀ call value jobId expectedFee cost,
    .registered call value jobId expectedFee cost ∈ p.history → callCharges p call ≤ value.toNat

theorem CallLedger.congr (h : CallLedger p) (hh : p'.history = p.history)
    (hc : p.calls ≤ p'.calls) : CallLedger p' := by
  constructor
  · intro call hl
    rw [Unregistered, hh]
    exact h.made call (hc.trans hl)
  · intro call
    rw [callCharges, hh]
    exact h.covered call

theorem CallLedger.paysOnly (h : CallLedger p) (ho : PaysOnly p p') (hc : p'.calls = p.calls) :
    CallLedger p' := by
  constructor
  · intro call hl val jobId expectedFee cost hm
    exact h.made call (hc ▸ hl) val jobId expectedFee cost (ho.entries _ _ _ _ _ hm)
  · intro call val jobId expectedFee cost hm
    rw [ho.calls call]
    exact h.covered call val jobId expectedFee cost (ho.entries _ _ _ _ _ hm)

theorem Unregistered.callCharges_eq_zero (h : Unregistered p call) : callCharges p call = 0 := by
  refine List.sum_eq_zero fun n hn => ?_
  obtain ⟨e, he, rfl⟩ := List.mem_map.mp hn
  cases e with
  | registered c val jobId expectedFee cost =>
    refine if_neg ?_
    rintro rfl
    exact h val jobId expectedFee cost he
  | paid | received => rfl

theorem CallLedger.register {payload : Proxy.RegisterJobUserInput} {cost : U128} (h : CallLedger p)
    (hr : Registers p p' who val call payload cost) (hl : call < p.calls)
    (hu : Unregistered p call) (hw : jobCharge p.config payload < 2 ^ 128) : CallLedger p' := by
  have hj : jobCharge p.config payload = (Proxy.expectedFee payload).toNat + cost.toNat := by
    rw [jobCharge, hr.priced]
    rfl
  have hc : ∀ c, callCharges p' c = callCharges p c + if call = c then jobCharge p.config payload else 0 := by
    intro c
    rw [hj, hr.state, callCharges, List.map_append, List.sum_append]
    rfl
  -- The contract compares the value of the call with the charge of this job alone.
  have ha : jobCharge p.config payload ≤ val.toNat := by
    have hv := Nat.le_of_not_lt hr.affords
    rw [hj] at hw ⊢
    rwa [BitVec.toNat_add, Nat.mod_eq_of_lt hw] at hv
  have hm : ∀ c v jobId expectedFee cost', .registered c v jobId expectedFee cost' ∈ p'.history →
      .registered c v jobId expectedFee cost' ∈ p.history ∨ c = call ∧ v = val := by
    intro c v jobId expectedFee cost' hm
    rw [hr.state] at hm
    rcases List.mem_append.mp hm with hold | hn
    · exact .inl hold
    · cases List.mem_singleton.mp hn
      exact .inr ⟨rfl, rfl⟩
  constructor
  · intro c hle v jobId expectedFee cost' he
    rw [hr.state] at hle
    rcases hm c v jobId expectedFee cost' he with hold | ⟨rfl, -⟩
    · exact h.made c hle v jobId expectedFee cost' hold
    · exact absurd hle (Nat.not_le.mpr hl)
  · intro c v jobId expectedFee cost' he
    rw [hc]
    rcases hm c v jobId expectedFee cost' he with hold | ⟨rfl, rfl⟩
    · have hn : call ≠ c := by
        rintro rfl
        exact hu v jobId expectedFee cost' hold
      rw [if_neg hn]
      exact h.covered c v jobId expectedFee cost' hold
    · rw [if_pos rfl, hu.callCharges_eq_zero, Nat.zero_add]
      exact ha

theorem CallLedger.loop (actions : List UserAction) (h : CallLedger s.proxy)
    (hc : call < s.proxy.calls)
    (hone : (actions.filterMap UserAction.registration?).length ≤ 1)
    (hw : ∀ payload ∈ actions.filterMap UserAction.registration?,
      jobCharge s.proxy.config payload < 2 ^ 128)
    (hu : Unregistered s.proxy call ∨ actions.filterMap UserAction.registration? = [])
    (hl : actions.foldlM (sendAction T ch who val call) s = .ok s') : CallLedger s'.proxy := by
  induction actions generalizing s with
  | nil =>
    cases hl
    exact h
  | cons user actions ih =>
    rw [List.foldlM_cons, bind_eq_ok] at hl
    obtain ⟨t, ht, hre⟩ := hl
    obtain ⟨px, req, t₁, -, hp, -, rfl⟩ := sendAction_spec ht
    cases hp with
    | register payload cost hr =>
      rw [List.filterMap_cons] at hone hw hu
      dsimp only [UserAction.registration?] at hone hw hu
      have hn : actions.filterMap UserAction.registration? = [] :=
        List.eq_nil_of_length_eq_zero (by
          rw [List.length_cons] at hone
          omega)
      have hu' := hu.resolve_right (List.cons_ne_nil _ _)
      have hpx := h.register hr hc hu' (hw payload List.mem_cons_self)
      have hca : px.calls = s.proxy.calls := by rw [hr.state]
      refine ih (hpx.congr rfl le_rfl) (hca.symm ▸ hc) ?_ ?_ (.inr hn) hre
      · rw [hn]
        exact Nat.zero_le 1
      · rw [hn]
        exact fun _ hm => absurd hm List.not_mem_nil
    | other _ hj hs =>
      have hn : user.registration? = none := by
        cases user with
        | registerJob => cases hj 0
        | _ => rfl
      rw [List.filterMap_cons, hn] at hone hw hu
      rw [hs] at hre
      have hp : CallLedger (Proxy.advanceActionId s.proxy) := h.congr rfl le_rfl
      refine ih ?_ ?_ hone ?_ ?_ hre
      exacts [hp, hc, hw, hu]

theorem JobLedger.loop (h : JobLedger s.proxy)
    (hl : actions.foldlM (sendAction T ch who val call) s = .ok s') :
    JobLedger s'.proxy := by
  refine foldlM_invariant (P := fun t : ChainState T => JobLedger t.proxy)
    (fun t user t' hu ht => ?_) hl h
  obtain ⟨px, req, t₁, -, hp, -, rfl⟩ := sendAction_spec hu
  exact (ht.prepares hp).congr rfl rfl

structure Accounted (p : Proxy.State) : Prop where
  jobs : JobLedger p
  calls : CallLedger p

theorem Accounted.receiveAction (h : Accounted p) {funds funds' : T.Funds} (ho : Orderly p pl)
    (hr : Proxy.receiveAction T ch p funds who pl = .ok (p', funds')) : Accounted p' := by
  have hc : p'.calls = p.calls := by
    obtain ⟨act, turn, -, -, -, -, rfl⟩ := Proxy.receiveAction_spec hr
    rfl
  exact ⟨h.jobs.receiveAction ho hr, h.calls.paysOnly (receiveAction_paysOnly hr) hc⟩

theorem Accounted.fulfill (h : Accounted p) {jobId : U128} {funds funds' : T.Funds}
    (hf : Proxy.fulfill T ch p funds who jobId pl = .ok (p', funds')) : Accounted p' := by
  have hc : p'.calls = p.calls := by
    obtain ⟨job, -, -, -, rfl⟩ := Proxy.fulfill_spec hf
    rfl
  exact ⟨h.jobs.fulfill hf, h.calls.paysOnly (fulfill_paysOnly hf) hc⟩

theorem Accounted.configure (h : Accounted p) {arguments : List Proxy.ConfigureArgument}
    (hc : Proxy.configure p who arguments = .ok p') : Accounted p' := by
  obtain ⟨-, rfl⟩ := Proxy.configure_spec hc
  exact ⟨h.jobs.congr rfl rfl, h.calls.congr rfl le_rfl⟩

theorem sendActions_accounted (hcov : Covered T ch s (.sendActions who val actions))
    (hse : sendActions T ch s who val actions = .ok s') (h : Accounted s.proxy) :
    Accounted s'.proxy := by
  obtain ⟨funds, -, hl⟩ := sendActions_spec hse
  have hj : JobLedger (withCall s funds).proxy := h.jobs.congr rfl rfl
  have hc : CallLedger (withCall s funds).proxy := h.calls.congr rfl (Nat.le_succ _)
  have hu : Unregistered (withCall s funds).proxy s.proxy.calls := h.calls.made _ le_rfl
  exact ⟨hj.loop hl,
    hc.loop actions (Nat.lt_succ_self _) hcov.single hcov.unwrapped (.inl hu) hl⟩

theorem processPending_accounted {i : ℕ} {msg : Pending} (hm : s.pending[i]? = some msg)
    (hc : Covered T chain s (.process i)) (h : Accounted s.proxy) :
    Accounted (processPending T chain { s with pending := s.pending.eraseIdx i } msg).proxy := by
  cases msg with
  | sending target req => exact h
  | receiving payload =>
    have hor : Orderly s.proxy payload := hc.orderly payload (by
      rw [handedOver, hm]
      rfl)
    refine transact_induction (P := fun t : ChainState T => Accounted t.proxy) h fun s' hl => ?_
    obtain ⟨proxy, funds, hre, rfl⟩ := receiveAction_eq_ok hl
    exact h.receiveAction hor hre

theorem contractCall_alephZero {recipient : ContractSubject} {call : ContractCall AccountId32}
    (h : IbcContract.contractCall .alephZero recipient = some call) :
    recipient = .alephZero (.contract call) := by
  unfold IbcContract.contractCall at h
  split at h
  · rw [if_pos rfl] at h
    cases h
    rfl
  · cases h
  · cases h

theorem passOn_accounted {call : ContractCall AccountId32} (h : Accounted s.proxy)
    (ho : ch = .alephZero → call = ⟨T.proxy ch, some receiveActionSelector⟩ →
      Orderly s.proxy pl) : Accounted (passOn T ch s call pl).proxy := by
  rcases passOn_spec s call pl with hs | ⟨hc, hp⟩
  · rw [hs]
    exact h
  · generalize passOn T ch s call pl = s' at hp
    cases hp with
    | ignored => exact h
    | received hh hse hr =>
      have ha : call = ⟨T.proxy ch, some receiveActionSelector⟩ := by
        rw [← hc, ← hse]
      exact h.receiveAction (ho hh ha) hr
    | configured hco => exact h.configure hco
    | fulfilled hf => exact h.fulfill hf
    | enqueued _ => exact h

theorem stepChain_accounted {op : ChainOp} (hc : Covered T ch s op) (h : Accounted s.proxy) :
    Accounted (stepChain T ch s op).proxy := by
  refine transact_induction (P := fun t : ChainState T => Accounted t.proxy) h fun s' hdi => ?_
  have hd := (dispatchChain_spec hdi).2
  cases hd with
  | aside has => exact has.proxy ▸ h
  | sent | sentTest | confirmed => exact h
  | accepted ha =>
    obtain ⟨a, hacc, -, -, hre, -⟩ := IbcContract.acceptMessage_spec ha
    refine passOn_accounted h ?_
    rintro rfl rfl
    apply hc.orderly
    have hca := contractCall_alephZero (hre ▸ hacc.call)
    exact if_pos ⟨rfl, hca⟩
  | configured ho => exact h.configure ho
  | acted hs => exact sendActions_accounted hc hs h
  | received hr => exact h.receiveAction (hc.orderly _ rfl) hr
  | fulfilled hf => exact h.fulfill hf
  | processed hme => exact processPending_accounted hme hc h

/-- In a run of covered steps of a fresh chain no more is paid for a job than was charged for it, and
the value of each call of `send_actions` covers the jobs registered in it. -/
theorem payouts_escrowed (hfresh : s.Fresh) (ops : List ChainOp)
    (hcovered : Along (stepChain T chain) (Covered T chain) s ops) :
    Escrowed (run (stepChain T chain) s ops).proxy := by
  have hj : JobLedger s.proxy := by
    constructor
    · intro jobId
      rw [payouts, hfresh.proxyHistory]
      exact Nat.zero_le _
    · intro jobId job hj
      rw [hfresh.jobInfo] at hj
      cases hj
  have hc : CallLedger s.proxy := by
    constructor
    · intro call _
      rw [Unregistered, hfresh.proxyHistory]
      exact fun _ _ _ _ => List.not_mem_nil
    · rw [hfresh.proxyHistory]
      exact fun _ _ _ _ _ hm => absurd hm List.not_mem_nil
  have hr := run_invariant (fun (t : ChainState T) (op : ChainOp) (ho : Covered T chain t op)
    (ht : Accounted t.proxy) => stepChain_accounted ho ht) hcovered ⟨hj, hc⟩
  exact ⟨hr.jobs.paid, hr.calls.covered⟩

end Calls

instance (p : Proxy.State) (payload : Bytes) : Decidable (Orderly p payload) :=
  match h : (IncomingAction.decode payload).map IncomingAction.payload with
  | some (.assignJobProcessor jobId _) =>
    decidable_of_iff (∀ job ∈ p.jobInfo.lookup jobId,
      job.status ≠ .finalizedOrCancelled ∧ job.expectedFulfillmentFee ≤ job.remainingFee)
      (by rw [Orderly, h])
  | some (.finalizeJob jobId unusedReward) =>
    decidable_of_iff (∀ job ∈ p.jobInfo.lookup jobId,
      (job.status ≠ .finalizedOrCancelled ∧ unusedReward.toNat ≤ rewardPrice p jobId) ∨
        job.remainingFee + unusedReward = 0)
      (by rw [Orderly, h])
  | some .noop => isTrue (by rw [Orderly, h]; trivial)
  | none => isTrue (by rw [Orderly, h]; trivial)

instance (T : Setup) (chain : ProxyChain) (s : ChainState T) (op : ChainOp) :
    Decidable (Covered T chain s op) :=
  decidable_of_iff ((∀ payload ∈ handedOver T chain s op, Orderly s.proxy payload) ∧
      (registrations op).length ≤ 1 ∧
      ∀ payload ∈ registrations op, jobCharge s.proxy.config payload < 2 ^ 128)
    ⟨fun h => ⟨h.1, h.2.1, h.2.2⟩, fun h => ⟨h.orderly, h.single, h.unwrapped⟩⟩

theorem mockChain_fresh (ch : ProxyChain) : (mockChain ch).Fresh :=
  ⟨rfl, rfl, rfl, rfl, rfl, rfl⟩

def batchRun : List ChainOp :=
  [.sendActions 7 6 [.registerJob (mockJob 10 5), .registerJob (mockJob 10 5)]]

def refundRun (chain : ProxyChain) : List ChainOp :=
  [.sendActions 7 6 [.registerJob (mockJob 10 5)], .transfer 9 (mock.proxy chain) 100,
    .receiveAction 9 (IncomingAction.encode ⟨0, .finalizeJob 1 10⟩)]

def Proxy.Entry.registration? : Proxy.Entry → Option (ℕ × U128)
  | .registered call value _ _ _ => some (call, value)
  | _ => none

theorem not_escrowed_of_callCharges {p : Proxy.State} {call : ℕ} {value : U128}
    (hr : (call, value) ∈ p.history.filterMap Proxy.Entry.registration?)
    (hc : value.toNat < callCharges p call) : ¬ Escrowed p := by
  intro hs
  obtain ⟨e, he, hr⟩ := List.mem_filterMap.mp hr
  cases e with
  | registered c v jobId expectedFee cost =>
    cases hr
    exact absurd (hs.calls call value jobId expectedFee cost he) (Nat.not_le.mpr hc)
  | paid | received => cases hr

/-- A value of 6 pays for two jobs that are charged with 6 each, and 15 are paid for one of them. -/
theorem escrow_exceeded :
    let proxy := fun chain ops => (run (stepChain mock chain) (mockChain chain) ops).proxy
    (¬ Escrowed (proxy .alephZero batchRun) ∧ ¬ Escrowed (proxy .vara batchRun)) ∧
      (charges (proxy .alephZero (refundRun .alephZero)) 1 = 6 ∧
        payouts (proxy .alephZero (refundRun .alephZero)) 1 = 15) ∧
      (charges (proxy .vara (refundRun .vara)) 1 = 6 ∧ payouts (proxy .vara (refundRun .vara)) 1 = 15) := by
  have hb : ∀ chain, (0, 6) ∈ (run (stepChain mock chain) (mockChain chain)
      batchRun).proxy.history.filterMap Proxy.Entry.registration? := by
    intro chain
    cases chain <;> decide +kernel
  have hc : ∀ chain,
      callCharges (run (stepChain mock chain) (mockChain chain) batchRun).proxy 0 = 12 := by
    intro chain
    cases chain <;> decide +kernel
  refine ⟨⟨?_, ?_⟩, by decide +kernel, by decide +kernel⟩
  · exact not_escrowed_of_callCharges (hb .alephZero) (by rw [hc]; decide)
  · exact not_escrowed_of_callCharges (hb .vara) (by rw [hc]; decide)

def coveredRun : List ChainOp :=
  [.sendActions 7 6 [.noop, .registerJob (mockJob 10 5)], .sendActions 7 6 [.registerJob (mockJob 10 5)],
    .receiveAction 9 (IncomingAction.encode ⟨0, .assignJobProcessor 1 8⟩), .fulfill 8 1 [],
    .receiveAction 9 (IncomingAction.encode ⟨1, .finalizeJob 1 1⟩)]

theorem payouts_escrowed_coveredRun :
    (payouts (run (stepChain mock .alephZero) (mockChain .alephZero) coveredRun).proxy 1 = 6 ∧
      Escrowed (run (stepChain mock .alephZero) (mockChain .alephZero) coveredRun).proxy) ∧
    (payouts (run (stepChain mock .vara) (mockChain .vara) coveredRun).proxy 1 = 6 ∧
      Escrowed (run (stepChain mock .vara) (mockChain .vara) coveredRun).proxy) := by
  refine ⟨⟨by decide +kernel, ?_⟩, by decide +kernel, ?_⟩
  · exact payouts_escrowed (mockChain_fresh .alephZero) coveredRun (by decide +kernel)
  · exact payouts_escrowed (mockChain_fresh .vara) coveredRun (by decide +kernel)

end Acurast.Hyperdrive

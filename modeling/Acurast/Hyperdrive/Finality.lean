import Acurast.Hyperdrive.Driven

/-! Finalized jobs. Fulfillments are refused once a job is finalized. Actions from Acurast are not:
an assignment opens the job again and pays, and a repeated finalization pays again. -/

namespace Acurast.Hyperdrive

open Base
open Proxy (Turn JobInformationV1)

inductive ProxyCall where
  | receiveAction (caller : AccountId32) (payload : Bytes)
  | fulfill (caller : AccountId32) (jobId : U128) (payload : Bytes)
  deriving DecidableEq

def stepProxy (T : Setup) (chain : ProxyChain) (s : Proxy.State × T.Funds) :
    ProxyCall → Proxy.State × T.Funds
  | .receiveAction caller payload => transact s (Proxy.receiveAction T chain s.1 s.2 caller payload)
  | .fulfill caller jobId payload => transact s (Proxy.fulfill T chain s.1 s.2 caller jobId payload)

def Proxy.Entry.payout (jobId : U128) : Proxy.Entry → ℕ
  | .paid id _ amount => if id = jobId then amount else 0
  | _ => 0

def payouts (p : Proxy.State) (jobId : U128) : ℕ := (p.history.map (Proxy.Entry.payout jobId)).sum

def Settled (jobId : U128) (p : Proxy.State) : Prop :=
  ∃ job, p.jobInfo.lookup jobId = some job ∧ job.status = .finalizedOrCancelled

def IncomingActionPayloadV1.jobId? : IncomingActionPayloadV1 → Option U128
  | .assignJobProcessor jobId _ | .finalizeJob jobId _ => some jobId
  | .noop => none

def Reopens (T : Setup) (chain : ProxyChain) (jobId : U128) (s : Proxy.State × T.Funds) :
    ProxyCall → Prop
  | .receiveAction _ payload =>
    Drives T chain s.1 s.2 payload ∧
      (IncomingAction.decode payload).bind (fun action => action.payload.jobId?) = some jobId
  | .fulfill _ _ _ => False

def Proxy.Turn.amountFor (turn : Turn) (jobId : U128) : ℕ := (turn.entries.map (Proxy.Entry.payout jobId)).sum

section Specs

variable {T : Setup} {chain ch : ProxyChain} {p p' : Proxy.State} {funds funds' : T.Funds}
  {caller who : AccountId32} {jobId : U128} {payload pl : Bytes}

theorem payouts_append (jobInfo : StorageMap U128 JobInformationV1) (es : List Proxy.Entry) :
    payouts { p with jobInfo, history := p.history ++ es } jobId =
      payouts p jobId + (es.map (Proxy.Entry.payout jobId)).sum := by
  rw [payouts, List.map_append, List.sum_append, payouts]

theorem receiveAction_turn
    (h : Proxy.receiveAction T ch p funds who pl = .ok (p', funds')) :
    ∃ act turn, p.config.paused = false ∧ IncomingAction.decode pl = some act ∧
      Proxy.Handles ch p act.payload turn ∧ turn.pay T ch funds = some funds' ∧
      p'.jobInfo = turn.jobInfo ∧
      ∀ jobId, payouts p' jobId = payouts p jobId + turn.amountFor jobId := by
  obtain ⟨act, turn, ha, hd, ht, hp, rfl⟩ := Proxy.receiveAction_spec h
  refine ⟨act, turn, ha, hd, Proxy.handleAction_spec ht, hp, rfl, fun jobId => ?_⟩
  rw [List.append_assoc, payouts_append, List.map_append, List.sum_append]
  rfl

theorem fulfill_settled {fulfilled : U128} (hse : Settled jobId p)
    (h : Proxy.fulfill T ch p funds who fulfilled pl = .ok (p', funds')) :
    Settled jobId p' ∧ payouts p' jobId = payouts p jobId := by
  obtain ⟨job, hj, has, -, rfl⟩ := Proxy.fulfill_spec h
  obtain ⟨final, hf, hs⟩ := hse
  have hn : jobId ≠ fulfilled := by
    rintro rfl
    cases hf.symm.trans hj
    cases hs.symm.trans has
  constructor
  · refine ⟨final, ?_, hs⟩
    unfold Proxy.refill
    split_ifs
    · rw [lookup_insert_eq, if_neg hn, hf]
    · exact hf
  · rw [payouts_append]
    unfold Proxy.refill
    split_ifs
    · exact congrArg _ (if_neg hn.symm)
    · rfl

theorem handles_other {act : IncomingActionPayloadV1} {turn : Turn}
    (h : Proxy.Handles ch p act turn) (ho : act.jobId? ≠ some jobId) :
    turn.jobInfo.lookup jobId = p.jobInfo.lookup jobId ∧ turn.amountFor jobId = 0 := by
  cases h with
  | assign hj =>
    rename_i assigned processor job
    have hn : assigned ≠ jobId := fun hq => ho (congrArg some hq)
    exact ⟨AList.lookup_insert_ne hn.symm, congrArg (· + 0) (if_neg hn)⟩
  | finalize hj hm =>
    rename_i finalized unused job
    have hn : finalized ≠ jobId := fun hq => ho (congrArg some hq)
    refine ⟨AList.lookup_insert_ne hn.symm, ?_⟩
    by_cases hr : 0 < job.remainingFee + unused
    · simp only [Turn.amountFor, Turn.entries, if_pos hr]
      exact congrArg (· + 0) (if_neg hn)
    · simp only [Turn.amountFor, Turn.entries, if_neg hr]
      rfl
  | noop => exact ⟨rfl, rfl⟩

def StaysFinal (jobId : U128) (p p' : Proxy.State) : Prop :=
  Settled jobId p' ∧ payouts p' jobId = payouts p jobId

theorem receiveAction_settled (hse : Settled jobId p)
    (h : Proxy.receiveAction T ch p funds who pl = .ok (p', funds')) :
    StaysFinal jobId p p' ↔ ¬ Reopens T ch jobId (p, funds) (.receiveAction who pl) := by
  obtain ⟨act, turn, hpa, hd, hh, hp, hjo, ha⟩ := receiveAction_turn h
  obtain ⟨final, hf, hs⟩ := hse
  have hreo : Reopens T ch jobId (p, funds) (.receiveAction who pl) ↔
      Drives T ch p funds pl ∧ act.payload.jobId? = some jobId := by
    show Drives T ch p funds pl ∧ _ ↔ _
    rw [hd, Option.bind_some]
  rw [hreo, StaysFinal, Settled, hjo, ha, Nat.add_eq_left]
  by_cases hj : act.payload.jobId? = some jobId
  · obtain ⟨id, actionPayload⟩ := act
    rw [and_iff_left hj]
    unfold Drives
    rw [hd, Option.map_some]
    cases hh with
    | assign ho =>
      -- the assignment opens the job
      cases hj
      refine iff_of_false ?_ (not_not_intro ⟨hpa, _, ho, Option.isSome_of_eq_some hp⟩)
      rintro ⟨⟨job, hl, hn⟩, -⟩
      cases (AList.lookup_insert p.jobInfo).symm.trans hl
      cases hn
    | finalize ho hm =>
      rename_i unused job
      cases hj
      cases hf.symm.trans ho
      by_cases hr : 0 < final.remainingFee + unused
      · simp only [Turn.pay, if_pos hr] at hp
        simp only [Turn.amountFor, Turn.entries, if_pos hr]
        refine iff_of_false ?_ (not_not_intro ⟨hpa, final, ho, hm, ?_⟩)
        · rintro ⟨-, hz⟩
          rw [List.map_singleton, List.sum_singleton, Proxy.Entry.payout, if_pos rfl] at hz
          have hpo : 0 < (final.remainingFee + unused).toNat := hr
          exact hpo.ne' hz
        · rw [if_pos hr]
          exact Option.isSome_of_eq_some hp
      · simp only [Turn.amountFor, Turn.entries, if_neg hr]
        refine iff_of_true ⟨⟨_, AList.lookup_insert p.jobInfo, rfl⟩, rfl⟩ ?_
        rintro ⟨-, job, hj', -, hc⟩
        cases hf.symm.trans hj'
        rw [if_neg hr] at hc
        exact hc hs
    | noop => cases hj
  · obtain ⟨hl, ham⟩ := handles_other hh hj
    exact iff_of_true ⟨⟨final, hl.trans hf, hs⟩, ham⟩ fun han => hj han.2

theorem stepProxy_settled {s : Proxy.State × T.Funds} (hs : Settled jobId s.1)
    (call : ProxyCall) :
    StaysFinal jobId s.1 (stepProxy T ch s call).1 ↔ ¬ Reopens T ch jobId s call := by
  have ha : StaysFinal jobId s.1 s.1 := ⟨hs, rfl⟩
  cases call with
  | receiveAction who pl =>
    show StaysFinal jobId s.1 (transact s _).1 ↔ _
    cases hr : Proxy.receiveAction T ch s.1 s.2 who pl with
    | error e =>
      refine iff_of_true ha fun ho => ?_
      obtain ⟨p', funds', hk⟩ := receiveAction_of_drives ho.1 who
      cases hr.symm.trans hk
    | ok s' => exact receiveAction_settled hs hr
  | fulfill who fulfilled pl =>
    refine iff_of_true ?_ id
    exact transact_induction (P := fun s' : Proxy.State × T.Funds => StaysFinal jobId s.1 s'.1) ha
      fun s' hf => fulfill_settled hs hf

/-- From a state in which the job is finalized, calls leave it so and pay nothing for it if and only
if none of them opens it again. -/
theorem finalized_job_final_iff {s : Proxy.State × T.Funds} (hsettled : Settled jobId s.1)
    (calls : List ProxyCall) :
    Along (stepProxy T chain) (fun t call => StaysFinal jobId t.1 (stepProxy T chain t call).1) s calls ↔
      Along (stepProxy T chain) (fun t call => ¬ Reopens T chain jobId t call) s calls := by
  induction calls generalizing s with
  | nil => exact Iff.rfl
  | cons call calls ih =>
    have hs : StaysFinal jobId s.1 (stepProxy T chain s call).1 ↔ ¬ Reopens T chain jobId s call :=
      stepProxy_settled hsettled call
    constructor
    · rintro ⟨hf, hr⟩
      exact ⟨hs.mp hf, (ih hf.1).mp hr⟩
    · rintro ⟨hc, hr⟩
      have hf := hs.mpr hc
      exact ⟨hf, (ih hf.1).mpr hr⟩

end Specs

instance (jobId : U128) (p : Proxy.State) : Decidable (Settled jobId p) :=
  match h : p.jobInfo.lookup jobId with
  | none => isFalse fun ⟨_, hjob, _⟩ => nomatch h.symm.trans hjob
  | some job =>
    decidable_of_iff (job.status = .finalizedOrCancelled) ⟨fun hstatus => ⟨job, h, hstatus⟩,
        fun ⟨_, hjob, hstatus⟩ => Option.mem_unique h hjob ▸ hstatus⟩

def settledProxy (chain : ProxyChain) : Proxy.State × mock.Funds :=
  let s := run (stepChain mock chain) (mockChain chain)
    [.sendActions 7 100 [.registerJob (mockJob 10 5)],
      .receiveAction 9 (IncomingAction.encode ⟨0, .finalizeJob 1 0⟩)]
  (s.proxy, s.funds)

theorem settled_settledProxy (ch : ProxyChain) : Settled 1 (settledProxy ch).1 := by
  cases ch <;> decide +kernel

/-- A late assignment opens the finalized job and pays its fee, and the next finalization pays the
rest once more. -/
theorem finalized_job_reopened :
    let reopened := fun chain =>
      let assigned := stepProxy mock chain (settledProxy chain)
        (.receiveAction 9 (IncomingAction.encode ⟨1, .assignJobProcessor 1 8⟩))
      let repeated := stepProxy mock chain (settledProxy chain)
        (.receiveAction 9 (IncomingAction.encode ⟨1, .finalizeJob 1 0⟩))
      Settled 1 (settledProxy chain).1 ∧
        (assigned.1.jobInfo.lookup 1).map (·.status) = some .assigned ∧
        payouts (settledProxy chain).1 1 = 5 ∧ payouts assigned.1 1 = 10 ∧ payouts repeated.1 1 = 10
    reopened .alephZero ∧ reopened .vara := by
  decide +kernel

theorem finalized_job_final_fulfill :
    let final := fun chain => Along (stepProxy mock chain)
      (fun t call => StaysFinal 1 t.1 (stepProxy mock chain t call).1) (settledProxy chain)
      [.fulfill 8 1 [], .receiveAction 9 (IncomingAction.encode ⟨1, .noop⟩)]
    final .alephZero ∧ final .vara := by
  intro final
  have hf : ∀ chain, final chain := by
    intro chain
    refine (finalized_job_final_iff (settled_settledProxy chain) _).mpr ⟨id, fun hr => ?_, trivial⟩
    have hj := hr.2
    cases hj
  exact ⟨hf .alephZero, hf .vara⟩

end Acurast.Hyperdrive

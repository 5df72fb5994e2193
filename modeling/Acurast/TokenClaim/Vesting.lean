import Acurast.Base.Balances
import Acurast.Base.BigEndian
import Acurast.Base.Run
import Acurast.TokenClaim.Pallet

/-! What is paid for a claim. Both kinds of claims, with and without a claim type, keep a schedule
that every payment moves on; the payments add up to what the rate gives for the blocks since the
claim. -/

namespace Acurast.TokenClaim

open Base

theorem vestable_le (v : VestingInfo A) (now : ℕ) : v.vestable now ≤ v.remaining := by
  unfold VestingInfo.vestable
  dsimp only
  split_ifs
  · exact le_rfl
  · omega

variable {A : Type} [DecidableEq A] {T : Config A} {s s' : State T}

def schedule (s : State T) : Option ClaimTypeId → A → A → Option (VestingInfo A)
  | none, destination, claimer => s.vesting.lookup (destination, claimer)
  | some id, destination, claimer => s.multiVesting.lookup (id, destination, claimer)

def processed (s : State T) : Option ClaimTypeId → A → Option (ProcessedClaim A T.Signature)
  | none, claimer => s.claimed.lookup claimer
  | some id, claimer => s.multiClaimed.lookup (id, claimer)

def funderOf (s : State T) : Option ClaimTypeId → Option A
  | none => some T.funder
  | some id => (s.claimTypeConfigs.lookup id).map (·.funder)

def vestFor (s : State T) : Option ClaimTypeId → A → A → Result (State T)
  | none, destination, claimer => doVest s destination claimer
  | some id, destination, claimer => doMultiVest s id destination claimer

def AsksFor (origin : Origin A) (call : Call T) (c : Claim A) : Prop :=
  ∃ who destination claimer, origin.signer = some who ∧
    lookupOr T who destination = .ok c.destination ∧ lookupOr T who claimer = .ok c.claimer ∧
    call = match c.claimType with
      | none => .vest destination claimer
      | some id => .multiVest id destination claimer

variable {c : Claim A} {call : Call T} {paid : ℕ} {funder a d who : A} {w : T.World}
  {k : Option ClaimTypeId} {v : VestingInfo A} {destination : T.Address}
  {proof : ClaimProof T.Signature}

theorem AsksFor.dispatch_eq {o : Origin A} (h : AsksFor o call c) :
    dispatch s o call = vestFor s c.claimType c.destination c.claimer := by
  obtain ⟨who, d, a, hw, hd, ha, hc⟩ := h
  cases hk : c.claimType with
  | none =>
    rw [hk] at hc
    subst hc
    rw [dispatch, hw]
    change vest s who d a = _
    rw [vest, hd, ha]
    rfl
  | some id =>
    rw [hk] at hc
    subst hc
    rw [dispatch, hw]
    change multiVest s who id d a = _
    rw [multiVest, hd, ha]
    rfl

def claims (s : State T) : List (Claim A) :=
  s.history.filterMap fun
    | .claimed claim => some claim
    | .vested _ _ _ _ => none

def transferred (s : State T) (claimType : Option ClaimTypeId) (destination claimer : A) : ℕ :=
  (s.history.map fun
    | .vested claimType' destination' claimer' amount =>
      if claimType' = claimType ∧ destination' = destination ∧ claimer' = claimer then amount else 0
    | .claimed _ => 0).sum

namespace Claim

def rate (c : Claim A) : ℕ := c.amount / max c.duration 1

def transferred (c : Claim A) (s : State T) : ℕ :=
  TokenClaim.transferred s c.claimType c.destination c.claimer

def remaining (c : Claim A) (s : State T) : ℕ :=
  ((schedule s c.claimType c.destination c.claimer).map (·.remaining)).getD 0

end Claim

def VestingInfo.after (v : VestingInfo A) (paid now : ℕ) : Option (VestingInfo A) :=
  if v.remaining - paid = 0 then none
  else some { v with remaining := v.remaining - paid, latestVest := now }

omit [DecidableEq A] in
theorem takeVested_ok {o rest : Option (VestingInfo A)} {now : ℕ}
    (h : takeVested o now = .ok (rest, paid)) :
    ∃ v, o = some v ∧ paid = v.vestable now ∧ paid ≤ v.remaining ∧ rest = v.after paid now := by
  simp only [takeVested, ok_iff, Prod.mk.injEq] at h
  obtain ⟨v, rfl, remaining, hs, rfl, rfl⟩ := h
  unfold checkedSub at hs
  split_ifs at hs with hl
  cases hs
  exact ⟨v, rfl, rfl, hl, rfl⟩

omit [DecidableEq A] in
theorem takeVested_some (v : VestingInfo A) (now : ℕ) :
    takeVested (some v) now = .ok (v.after (v.vestable now) now, v.vestable now) := by
  have hs : checkedSub v.remaining (v.vestable now) = some (v.remaining - v.vestable now) :=
    if_pos (vestable_le v now)
  simp only [takeVested, ok_iff]
  exact ⟨v, rfl, v.remaining - v.vestable now, hs, rfl⟩

omit [DecidableEq A] in
theorem payVested_ok {w' : T.World} {destination : A} {x : ℕ} :
    payVested w funder destination x = .ok w' ↔
      T.minimumBalance ≤ x ∧ T.transfer w funder destination x = some w' := by
  simp only [payVested, ok_iff]
  exact exists_const _

theorem lookup_putBack {K V : Type} [DecidableEq K] (m : StorageMap K V) (k j : K) (o : Option V) :
    (putBack m k o).lookup j = if j = k then o else m.lookup j := by
  cases o with
  | none => exact lookup_erase_eq m k j
  | some v => exact lookup_insert_eq m k j v

abbrev Same (k k' : Option ClaimTypeId) (d d' a a' : A) : Prop := k = k' ∧ d = d' ∧ a = a'

structure Pays (s s' : State T) (k : Option ClaimTypeId) (d a : A) (v : VestingInfo A) : Prop where
  schedule : TokenClaim.schedule s k d a = some v
  enough : T.minimumBalance ≤ v.vestable s.blockNumber
  paid : ∃ funder, funderOf s k = some funder ∧
    T.transfer s.world funder d (v.vestable s.blockNumber) = some s'.world
  block : s'.blockNumber = s.blockNumber
  schedules : ∀ k' d' a', TokenClaim.schedule s' k' d' a' =
    if Same k' k d' d a' a then v.after (v.vestable s.blockNumber) s.blockNumber
    else TokenClaim.schedule s k' d' a'
  processed : ∀ k' a', TokenClaim.processed s' k' a' = TokenClaim.processed s k' a'
  history : s'.history = .vested k d a (v.vestable s.blockNumber) :: s.history

theorem vestFor_ok (h : vestFor s k d a = .ok s') : ∃ v, Pays s s' k d a v := by
  cases k with
  | none =>
    simp only [vestFor, doVest, ok_iff] at h
    obtain ⟨⟨rest, paid⟩, ht, w, hp, rfl⟩ := h
    obtain ⟨v, hv, rfl, -, rfl⟩ := takeVested_ok ht
    obtain ⟨hn, hm⟩ := payVested_ok.mp hp
    refine ⟨v, hv, hn, ⟨_, rfl, hm⟩, rfl, ?_, fun k' a' => by cases k' <;> rfl, rfl⟩
    intro k' d' a'
    cases k' with
    | none =>
      refine (lookup_putBack _ _ _ _).trans ?_
      simp only [Same, Prod.mk.injEq, true_and]
      rfl
    | some id => rfl
  | some id =>
    simp only [vestFor, doMultiVest, ok_iff] at h
    obtain ⟨config, hc, ⟨rest, paid⟩, ht, w, hp, rfl⟩ := h
    obtain ⟨v, hv, rfl, -, rfl⟩ := takeVested_ok ht
    obtain ⟨hn, hm⟩ := payVested_ok.mp hp
    have hf : funderOf s (some id) = some config.funder := congrArg (Option.map _) hc
    refine ⟨v, hv, hn, ⟨_, hf, hm⟩, rfl, ?_, fun k' a' => by cases k' <;> rfl, rfl⟩
    intro k' d' a'
    cases k' with
    | none => rfl
    | some id' =>
      refine (lookup_putBack _ _ _ _).trans ?_
      simp only [Same, Prod.mk.injEq, Option.some.injEq]
      rfl

theorem vestFor_isOk (hv : schedule s k d a = some v) (hf : funderOf s k = some funder)
    (hn : T.minimumBalance ≤ v.vestable s.blockNumber)
    (ht : T.transfer s.world funder d (v.vestable s.blockNumber) = some w) :
    ∃ s', vestFor s k d a = .ok s' := by
  have hp : payVested s.world funder d (v.vestable s.blockNumber) = .ok w :=
    payVested_ok.mpr ⟨hn, ht⟩
  rw [← isOk_iff]
  cases k with
  | none =>
    cases hf
    have hl : s.vesting.lookup (d, a) = some v := hv
    rw [vestFor, doVest, hl, takeVested_some]
    change (payVested s.world T.funder d (v.vestable s.blockNumber) >>= _).isOk = true
    rw [hp]
    rfl
  | some id =>
    obtain ⟨config, hc, rfl⟩ := Option.map_eq_some_iff.mp hf
    have hl : s.multiVesting.lookup (id, d, a) = some v := hv
    rw [vestFor, doMultiVest, hc, hl, takeVested_some]
    change (payVested s.world config.funder d (v.vestable s.blockNumber) >>= _).isOk = true
    rw [hp]
    rfl

structure Opens (s s' : State T) (c : Claim A) : Prop where
  amount_lt : c.amount < 2 ^ 128
  start : c.start = s.blockNumber
  block : s'.blockNumber = s.blockNumber
  unprocessed : TokenClaim.processed s c.claimType c.claimer = none
  schedules : ∀ k d a, TokenClaim.schedule s' k d a =
    if Same k c.claimType d c.destination a c.claimer then
      some (newSchedule c.claimer c.amount c.duration c.start)
    else TokenClaim.schedule s k d a
  processed : ∀ k a, TokenClaim.processed s' k a = none →
    TokenClaim.processed s k a = none ∧ ¬ (k = c.claimType ∧ a = c.claimer)
  history : s'.history = .claimed c :: s.history

theorem claim_opens (h : claim s who proof destination = .ok s') : ∃ c, Opens s s' c := by
  simp only [claim, ok_iff] at h
  obtain ⟨-, hw, -, -, dest, -, -, -, rfl⟩ := h
  refine ⟨⟨none, who, dest, proof.amount, T.vestingDuration, s.blockNumber⟩, proof.amount_lt, rfl,
    rfl, hw, ?_, ?_, rfl⟩
  · intro k d a
    cases k with
    | none =>
      refine (lookup_insert_eq _ _ _ _).trans ?_
      simp only [Same, Prod.mk.injEq, true_and]
      rfl
    | some id => rfl
  · intro k a hn
    cases k with
    | none =>
      change (s.claimed.insert who _).lookup a = none at hn
      rw [lookup_insert_eq] at hn
      split_ifs at hn with hh
      exact ⟨hn, fun hs => hh hs.2⟩
    | some id =>
      refine ⟨hn, fun hs => ?_⟩
      cases hs.1

theorem multiClaim_opens {id : ClaimTypeId} (h : multiClaim s who id proof destination = .ok s') :
    ∃ c, Opens s s' c := by
  simp only [multiClaim, ok_iff] at h
  obtain ⟨config, -, -, hw, -, -, dest, -, -, -, rfl⟩ := h
  refine ⟨⟨some id, who, dest, proof.amount, config.vestingDuration, s.blockNumber⟩,
    proof.amount_lt, rfl, rfl, hw, ?_, ?_, rfl⟩
  · intro k d a
    cases k with
    | none => rfl
    | some id' =>
      refine (lookup_insert_eq _ _ _ _).trans ?_
      simp only [Same, Prod.mk.injEq, Option.some.injEq]
      rfl
  · intro k a hn
    cases k with
    | none =>
      refine ⟨hn, fun hs => ?_⟩
      cases hs.1
    | some id' =>
      change (s.multiClaimed.insert (id, who) _).lookup (id', a) = none at hn
      rw [lookup_insert_eq] at hn
      split_ifs at hn with hk
      refine ⟨hn, fun hs => hk ?_⟩
      obtain ⟨hd, rfl⟩ := hs
      cases hd
      rfl

inductive Effect (s s' : State T) : Prop
  | aside (hblock : s.blockNumber ≤ s'.blockNumber)
      (hschedules : ∀ k d a, schedule s' k d a = schedule s k d a)
      (hprocessed : ∀ k a, processed s' k a = processed s k a)
      (hhistory : s'.history = s.history)
  | opens (c : Claim A) (h : Opens s s' c)
  | pays (k : Option ClaimTypeId) (d a : A) (v : VestingInfo A) (h : Pays s s' k d a v)

theorem Effect.same (hb : s.blockNumber ≤ s'.blockNumber) (hv : s'.vesting = s.vesting)
    (hm : s'.multiVesting = s.multiVesting) (hc : s'.claimed = s.claimed)
    (hmc : s'.multiClaimed = s.multiClaimed) (hh : s'.history = s.history) :
    Effect s s' := by
  refine .aside hb ?_ ?_ hh
  · intro k d a
    cases k with
    | none => simp only [schedule, hv]
    | some id => simp only [schedule, hm]
  · intro k a
    cases k with
    | none => simp only [processed, hc]
    | some id => simp only [processed, hmc]

theorem dispatch_effect {o : Origin A} (h : dispatch s o call = .ok s') :
    Effect s s' := by
  cases call with
  | claim proof destination =>
    simp only [dispatch, bind_eq_ok] at h
    obtain ⟨who, -, hl⟩ := h
    obtain ⟨c, hc⟩ := claim_opens hl
    exact .opens c hc
  | multiClaim id proof destination =>
    simp only [dispatch, bind_eq_ok] at h
    obtain ⟨who, -, hl⟩ := h
    obtain ⟨c, hc⟩ := multiClaim_opens hl
    exact .opens c hc
  | vest destination claimer =>
    simp only [dispatch, vest, bind_eq_ok] at h
    obtain ⟨who, -, d, -, a, -, hve⟩ := h
    obtain ⟨v, hv⟩ := vestFor_ok (k := none) hve
    exact .pays none d a v hv
  | multiVest id destination claimer =>
    simp only [dispatch, multiVest, bind_eq_ok] at h
    obtain ⟨who, -, d, -, a, -, hve⟩ := h
    obtain ⟨v, hv⟩ := vestFor_ok (k := some id) hve
    exact .pays (some id) d a v hv
  | createClaimType config =>
    simp only [dispatch, ok_iff] at h
    obtain ⟨-, -, rfl⟩ := h
    exact .same le_rfl rfl rfl rfl rfl rfl
  | updateClaimType id config =>
    simp only [dispatch, updateClaimType, ok_iff] at h
    obtain ⟨-, -, -, -, rfl⟩ := h
    exact .same le_rfl rfl rfl rfl rfl rfl
  | removeClaimType id =>
    simp only [dispatch, removeClaimType, ok_iff] at h
    obtain ⟨-, -, -, -, rfl⟩ := h
    exact .same le_rfl rfl rfl rfl rfl rfl

theorem step_effect (s : State T) (op : Op T) : Effect s (step s op) := by
  cases op with
  | dispatch o call =>
    have hs : Effect s s := .same le_rfl rfl rfl rfl rfl rfl
    exact transact_induction hs fun s' h => dispatch_effect h
  | block => exact .same (Nat.le_succ _) rfl rfl rfl rfl rfl
  | outside w => exact .same le_rfl rfl rfl rfl rfl rfl

/-- How far a claim is: while it has a schedule, it was paid for the blocks up to the last payment,
and once it has none, it was paid in full. -/
structure Vests (s : State T) (c : Claim A) : Prop where
  amount_lt : c.amount < 2 ^ 128
  start_le : c.start ≤ s.blockNumber
  ended : schedule s c.claimType c.destination c.claimer = none → c.transferred s = c.amount
  running : ∀ v, schedule s c.claimType c.destination c.claimer = some v →
    v.perBlock = c.rate ∧ c.start ≤ v.latestVest ∧ v.latestVest ≤ s.blockNumber ∧
      c.transferred s = c.rate * (v.latestVest - c.start) ∧ c.transferred s + v.remaining = c.amount

structure Books (s : State T) : Prop where
  nodup : ((claims s).map fun c => (c.claimType, c.claimer)).Nodup
  seen : ∀ c ∈ claims s, processed s c.claimType c.claimer ≠ none
  backed : ∀ k d a v, schedule s k d a = some v →
    ∃ c ∈ claims s, Same k c.claimType d c.destination a c.claimer
  paid : ∀ k d a, transferred s k d a ≠ 0 →
    ∃ c ∈ claims s, Same k c.claimType d c.destination a c.claimer
  vests : ∀ c ∈ claims s, Vests s c

theorem Vests.congr (h : Vests s c) (hb : s.blockNumber ≤ s'.blockNumber)
    (hs : schedule s' c.claimType c.destination c.claimer =
      schedule s c.claimType c.destination c.claimer)
    (ht : c.transferred s' = c.transferred s) : Vests s' c := by
  refine ⟨h.amount_lt, h.start_le.trans hb, ?_, ?_⟩
  · rw [hs, ht]
    exact h.ended
  · intro v hv
    rw [hs] at hv
    obtain ⟨hr, hst, hl, hp, hu⟩ := h.running v hv
    rw [ht]
    exact ⟨hr, hst, hl.trans hb, hp, hu⟩

omit [DecidableEq A] in
theorem vestable_eq (hl : v.remaining < 2 ^ 128) (now : ℕ) :
    v.vestable now = min v.remaining (v.perBlock * (now - v.latestVest)) := by
  have hm : maxOf 128 = 2 ^ 128 - 1 := rfl
  unfold VestingInfo.vestable saturatingMul
  rw [Nat.mul_comm v.perBlock]
  dsimp only
  split_ifs <;> omega

theorem Vests.transferred_add (h : Vests s c)
    (hv : schedule s c.claimType c.destination c.claimer = some v) :
    c.transferred s + v.vestable s.blockNumber =
      min c.amount (c.rate * (s.blockNumber - c.start)) := by
  obtain ⟨hr, ht, hl, hp, hu⟩ := h.running v hv
  have hlt := h.amount_lt
  have hs : s.blockNumber - c.start =
      (v.latestVest - c.start) + (s.blockNumber - v.latestVest) := by omega
  rw [vestable_eq (by omega), hs, Nat.mul_add, ← hp, hr]
  omega

section Histories

omit [DecidableEq A]

theorem claims_of_claimed {c : Claim A} (h : s'.history = .claimed c :: s.history) :
    claims s' = c :: claims s := by
  simp only [claims, h, List.filterMap_cons]

theorem claims_of_vested {k : Option ClaimTypeId} {d a : A} {paid : ℕ}
    (h : s'.history = .vested k d a paid :: s.history) : claims s' = claims s := by
  simp only [claims, h, List.filterMap_cons]

end Histories

theorem transferred_of_claimed (h : s'.history = .claimed c :: s.history) (k : Option ClaimTypeId)
    (d a : A) : transferred s' k d a = transferred s k d a := by
  simp only [transferred, h, List.map_cons, List.sum_cons, Nat.zero_add]

theorem transferred_of_vested (h : s'.history = .vested k d a paid :: s.history)
    (k' : Option ClaimTypeId) (d' a' : A) :
    transferred s' k' d' a' = transferred s k' d' a' + if Same k' k d' d a' a then paid else 0 := by
  have hs : (k = k' ∧ d = d' ∧ a = a') ↔ Same k' k d' d a' a := by
    simp only [Same, eq_comm]
  simp only [transferred, h, List.map_cons, List.sum_cons, hs]
  exact Nat.add_comm _ _

/-- A transfer between two accounts raises the balance of the second one by the amount. -/
def Credits (T : Config A) (balance : T.World → A → ℕ) : Prop :=
  ∀ w w' source dest amount, T.transfer w source dest amount = some w' → source ≠ dest →
    balance w' dest = balance w dest + amount

theorem vestFor_balance {balance : T.World → A → ℕ} (hcredits : Credits T balance)
    (h : vestFor s k d a = .ok s') (hf : funderOf s k ≠ some d) :
    balance s'.world d + transferred s k d a = balance s.world d + transferred s' k d a := by
  obtain ⟨v, hp⟩ := vestFor_ok h
  obtain ⟨funder, hk, ht⟩ := hp.paid
  rw [transferred_of_vested hp.history, if_pos ⟨rfl, rfl, rfl⟩,
    hcredits _ _ _ _ _ ht fun hd => hf (hd ▸ hk)]
  omega

theorem Pays.transferred_eq (h : Pays s s' k d a v) (hc : Vests s c)
    (hs : Same c.claimType k c.destination d c.claimer a) :
    c.transferred s' = min c.amount (c.rate * (s.blockNumber - c.start)) := by
  have hv : TokenClaim.schedule s c.claimType c.destination c.claimer = some v := by
    obtain ⟨hk, hd, ha⟩ := hs
    rw [hk, hd, ha]
    exact h.schedule
  rw [← hc.transferred_add hv, Claim.transferred, transferred_of_vested h.history, if_pos hs]
  rfl

theorem Vests.pays (hc : Vests s c) (h : Pays s s' k d a v) : Vests s' c := by
  by_cases hs : Same c.claimType k c.destination d c.claimer a
  · have hv : schedule s c.claimType c.destination c.claimer = some v := by
      obtain ⟨hk, hd, ha⟩ := hs
      rw [hk, hd, ha]
      exact h.schedule
    obtain ⟨hr, ht, hl, hp, hu⟩ := hc.running v hv
    have htr := h.transferred_eq hc hs
    have had := hc.transferred_add hv
    have hf := h.schedules c.claimType c.destination c.claimer
    unfold VestingInfo.after at hf
    refine ⟨hc.amount_lt, h.block ▸ hc.start_le, ?_, ?_⟩
    · intro hn
      rw [hf] at hn
      split_ifs at hn with hz
      omega
    · intro v' hv'
      rw [hf] at hv'
      split_ifs at hv' with hz
      cases hv'
      -- something remains, so the payment was the rate for the blocks since the last one
      refine ⟨hr, hc.start_le, h.block.ge, ?_, ?_⟩
      · dsimp only
        omega
      · dsimp only
        omega
  · refine hc.congr h.block.ge ?_ ?_
    · rw [h.schedules, if_neg hs]
    · rw [Claim.transferred, transferred_of_vested h.history, if_neg hs]
      rfl

theorem Books.pays (hs : Books s) (h : Pays s s' k d a v) : Books s' := by
  have hl := claims_of_vested h.history
  have hb : ∃ c ∈ claims s, Same k c.claimType d c.destination a c.claimer :=
    hs.backed k d a v h.schedule
  refine ⟨?_, ?_, ?_, ?_, ?_⟩
  · rw [hl]
    exact hs.nodup
  · intro c hc
    rw [h.processed]
    exact hs.seen c (hl ▸ hc)
  · intro k' d' a' v' hv'
    rw [hl]
    rw [h.schedules] at hv'
    split_ifs at hv' with ha
    · obtain ⟨rfl, rfl, rfl⟩ := ha
      exact hb
    · exact hs.backed k' d' a' v' hv'
  · intro k' d' a' hp
    rw [hl]
    rw [transferred_of_vested h.history] at hp
    split_ifs at hp with ha
    · obtain ⟨rfl, rfl, rfl⟩ := ha
      exact hb
    · exact hs.paid k' d' a' hp
  · intro c hc
    exact (hs.vests c (hl ▸ hc)).pays h

theorem Books.opens (hs : Books s) (h : Opens s s' c) : Books s' := by
  have hc := claims_of_claimed h.history
  -- a claim that was made before is another one: its claimer was processed
  have ht : ∀ c' ∈ claims s, ¬ (c.claimType = c'.claimType ∧ c.claimer = c'.claimer) := by
    rintro c' hc' ⟨hk, ha⟩
    have hse := hs.seen c' hc'
    rw [← hk, ← ha] at hse
    exact hse h.unprocessed
  have hf : transferred s c.claimType c.destination c.claimer = 0 := by
    by_contra hp
    obtain ⟨c', hc', hk, -, ha⟩ := hs.paid _ _ _ hp
    exact ht c' hc' ⟨hk, ha⟩
  have hm : c ∈ claims s' := hc ▸ List.mem_cons_self
  have hold : ∀ c' ∈ claims s, c' ∈ claims s' := fun c' hc' => hc ▸ List.mem_cons_of_mem c hc'
  have hca : ∀ c' ∈ claims s', c' = c ∨ c' ∈ claims s := by
    intro c' hc'
    rw [hc] at hc'
    exact List.mem_cons.mp hc'
  refine ⟨?_, ?_, ?_, ?_, ?_⟩
  · rw [hc, List.map_cons, List.nodup_cons]
    refine ⟨?_, hs.nodup⟩
    intro hn
    obtain ⟨c', hc', hq⟩ := List.mem_map.mp hn
    exact ht c' hc' ⟨(congrArg Prod.fst hq).symm, (congrArg Prod.snd hq).symm⟩
  · intro c' hc' ho
    obtain ⟨hb, hy⟩ := h.processed _ _ ho
    rcases hca c' hc' with rfl | hn
    · exact hy ⟨rfl, rfl⟩
    · exact hs.seen c' hn hb
  · intro k d a v hv
    rw [h.schedules] at hv
    split_ifs at hv with hsa
    · exact ⟨c, hm, hsa⟩
    · obtain ⟨c', hc', hs'⟩ := hs.backed k d a v hv
      exact ⟨c', hold c' hc', hs'⟩
  · intro k d a hp
    rw [transferred_of_claimed h.history] at hp
    obtain ⟨c', hc', hsa⟩ := hs.paid k d a hp
    exact ⟨c', hold c' hc', hsa⟩
  · intro c' hc'
    rcases hca c' hc' with rfl | hn
    · have hsa : Same c'.claimType c'.claimType c'.destination c'.destination c'.claimer
          c'.claimer := ⟨rfl, rfl, rfl⟩
      have hsc := h.schedules c'.claimType c'.destination c'.claimer
      rw [if_pos hsa] at hsc
      have hz : c'.transferred s' = 0 := (transferred_of_claimed h.history _ _ _).trans hf
      refine ⟨h.amount_lt, (h.start.trans h.block.symm).le, ?_, ?_⟩
      · intro ho
        rw [hsc] at ho
        cases ho
      · intro v hv
        rw [hsc] at hv
        cases hv
        refine ⟨rfl, le_rfl, (h.start.trans h.block.symm).le, ?_, ?_⟩
        · rw [hz, newSchedule, Nat.sub_self, Nat.mul_zero]
        · rw [hz, newSchedule, Nat.zero_add]
    · refine (hs.vests c' hn).congr h.block.ge ?_ ?_
      · rw [h.schedules, if_neg]
        rintro ⟨hk, -, ha⟩
        exact ht c' hn ⟨hk.symm, ha.symm⟩
      · exact transferred_of_claimed h.history _ _ _

theorem Books.step (hs : Books s) (op : Op T) : Books (step s op) := by
  cases step_effect s op with
  | aside hb hsc hp hh =>
    have hl : claims (TokenClaim.step s op) = claims s := by simp only [claims, hh]
    have ht : ∀ k d a, transferred (TokenClaim.step s op) k d a = transferred s k d a := by
      intro k d a
      simp only [transferred, hh]
    refine ⟨?_, ?_, ?_, ?_, ?_⟩
    · rw [hl]
      exact hs.nodup
    · intro c hc
      rw [hp]
      exact hs.seen c (hl ▸ hc)
    · intro k d a v hv
      rw [hl]
      exact hs.backed k d a v ((hsc k d a).symm.trans hv)
    · intro k d a ha
      rw [hl]
      exact hs.paid k d a ((ht k d a) ▸ ha)
    · intro c hc
      exact (hs.vests c (hl ▸ hc)).congr hb (hsc _ _ _) (ht _ _ _)
  | opens c h => exact hs.opens h
  | pays k d a v h => exact hs.pays h

theorem books_genesis (T : Config A) (w : T.World) : Books (State.genesis T w) := by
  refine ⟨List.nodup_nil, ?_, ?_, ?_, ?_⟩
  · intro c hc
    cases hc
  · intro k d a v hv
    cases k <;> cases hv
  · intro k d a hp
    exact absurd rfl hp
  · intro c hc
    cases hc

theorem run_books (w : T.World) (ops : List (Op T)) : Books (run step (State.genesis T w) ops) :=
  run_invariant' (fun (s : State T) (op : Op T) (hs : Books s) => hs.step op) ops
    (books_genesis T w)

theorem Vests.add_remaining (h : Vests s c) : c.transferred s + c.remaining s = c.amount := by
  cases hv : schedule s c.claimType c.destination c.claimer with
  | none =>
    rw [Claim.remaining, hv]
    exact h.ended hv
  | some v =>
    rw [Claim.remaining, hv]
    exact (h.running v hv).2.2.2.2

theorem Books.schedule_unique {d' : A} (hs : Books s) (h : schedule s k d a ≠ none)
    (h' : schedule s k d' a ≠ none) : d = d' := by
  obtain ⟨v, hv⟩ := Option.ne_none_iff_exists'.mp h
  obtain ⟨v', hv'⟩ := Option.ne_none_iff_exists'.mp h'
  obtain ⟨c, hc, hk, hd, ha⟩ := hs.backed k d a v hv
  obtain ⟨c', hc', hk', hd', ha'⟩ := hs.backed k d' a v' hv'
  have hq : c = c' := by
    refine List.inj_on_of_nodup_map hs.nodup hc hc' ?_
    rw [← hk, ← hk', ← ha, ← ha']
  rw [hd, hd', hq]

def mock : Config ℕ where
  Signature := Bytes × ℕ
  verify := fun signature message signer => decide (signature = (message, signer))
  encodeAccount := fun a => [UInt8.ofNat a]
  encodeBalance := fun n => bigEndian 16 n
  encodeClaimTypeId := fun id => bigEndian 4 id
  signer := 1
  funder := 1
  vestingDuration := 10
  maxClaimTypeId := 2 ^ 32 - 1
  updateOrigin := fun origin => decide (origin = .root)
  Address := ℕ
  lookup := some
  World := Purses ℕ
  minimumBalance := 1000
  transferable := fun w a => w.getD a 0
  transfer := fun w source dest amount => Purses.pay w source dest amount

def purses : Purses ℕ := (∅ : Purses ℕ).insert 1 1000000

def allowance : ClaimProof mock.Signature where
  amount := 100003
  signature := (openTag ++ mock.encodeAccount 3 ++ mock.encodeBalance 100003 ++
    mock.encodeClaimTypeId 0 ++ closeTag, 1)
  amount_lt := by decide

def afterTenBlocks : List (Op mock) :=
  [.dispatch .root (.createClaimType ⟨1, 10⟩),
    .dispatch (.signed 3) (.multiClaim 0 allowance (4 : ℕ)),
    .block, .block, .block, .block, .block, .block, .block, .block, .block, .block,
    .dispatch (.signed 5) (.multiVest 0 (some (4 : ℕ)) (some (3 : ℕ)))]

def claimOfThree : Claim ℕ := ⟨some 0, 3, 4, 100003, 10, 0⟩

def paidOnce : State mock := run step (State.genesis mock purses) afterTenBlocks

theorem mem_claims_paidOnce : claimOfThree ∈ claims paidOnce := by decide +kernel

end Acurast.TokenClaim

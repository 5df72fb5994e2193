import Acurast.Compute.Mock

/-! The total stake is the sum of the stakes, as long as no committer is slashed by more than the
stake. -/

namespace Acurast.Compute

open Base

variable {A : Type} [DecidableEq A] {T : Config A} {s s' : State T}

def stakedAmount (cm : Commitment) : ℕ := cm.stake.elim 0 (·.amount)

def stakeTotal (s : State T) : ℕ :=
  StorageMap.sum s.commitments (fun _ cm => stakedAmount cm) +
    StorageMap.sum s.delegations (fun _ d => d.stake.amount)

variable {cm : Commitment}

omit [DecidableEq A] in
theorem stakedAmount_of_map {amount created : ℕ}
    (h : cm.stake.map (fun st => (st.amount, st.created)) = some (amount, created)) :
    stakedAmount cm = amount := by
  obtain ⟨st, hs, hq⟩ := Option.map_eq_some_iff.mp h
  rw [stakedAmount, hs, Option.elim_some, (Prod.mk.inj hq).1]

omit [DecidableEq A] in
theorem stakedAmount_of_stake {st : Stake} (h : cm.stake = some st) :
    stakedAmount cm = st.amount := by
  rw [stakedAmount, h, Option.elim_some]

omit [DecidableEq A] in
theorem Adjusts.stakedAmount_eq {cm' : Commitment} (h : Adjusts cm cm') :
    stakedAmount cm' = stakedAmount cm := by
  cases hc : cm.stake with
  | none =>
    have hm := h.stake
    rw [hc, Option.map_none, Option.map_eq_none_iff] at hm
    rw [stakedAmount, stakedAmount, hc, hm]
  | some st =>
    have hm := h.stake
    rw [hc, Option.map_some] at hm
    rw [stakedAmount_of_map hm, stakedAmount_of_stake hc]

theorem Move.totalStake_eq (h : Move (· ≠ .overslash) s s') (hs : s.totalStake = stakeTotal s) :
    s'.totalStake = stakeTotal s' := by
  unfold stakeTotal at hs ⊢
  cases h with
  | rest hb hcl => rw [hb.totalStake, hb.commitments, hb.delegations, hs]
  | @adjust c cm cm' last hf had =>
    have hsu := sum_insert_some hf cm' (fun _ cm => stakedAmount cm)
    have hq := had.stakedAmount_eq
    dsimp only at hsu ⊢
    omega
  | @accrue who c d d' e reward slash hd hin hac =>
    have hsu := sum_insert_some hd d' (fun _ d => d.stake.amount)
    have hq := hac.amount
    dsimp only at hsu ⊢
    omega
  | @revise who c d d' lost hd hc hr =>
    have hsu := sum_insert_some hd d' (fun _ d => d.stake.amount)
    have hq := hr.amount
    dsimp only at hsu ⊢
    omega
  | @payout who c d paid hd =>
    have hsu := sum_insert_some hd
      { d with stake := { d.stake with accruedReward := 0, paid } } (fun _ d => d.stake.amount)
    dsimp only at hsu ⊢
    omega
  | @close who c d hd hpa hc =>
    have hsu := sum_erase_some hd (fun _ d => d.stake.amount)
    dsimp only at hsu ⊢
    omega
  | @join who c d free hj =>
    have hsu := sum_insert_none free d (fun _ d => d.stake.amount)
    dsimp only at hsu ⊢
    omega
  | @stake c cm stake hsta =>
    have hsu := StorageMap.sum_insert s.commitments (fun _ cm => stakedAmount cm) c cm
    have hn := stakedAmount_of_stake hsta.stake_eq
    have hold : StorageMap.at? (fun _ cm => stakedAmount cm) c (s.commitments.lookup c) = 0 := by
      have hfr := hsta.unstaked
      cases hcm : s.commitments.lookup c with
      | none => rfl
      | some old =>
        rw [hcm, Option.bind_some] at hfr
        rw [StorageMap.at?_some, stakedAmount, hfr, Option.elim_none]
    dsimp only at hsu ⊢
    omega
  | @raise c cm cm' stake extra hf ht hra hp hl =>
    have hsu := sum_insert_some hf cm' (fun _ cm => stakedAmount cm)
    have hold := stakedAmount_of_stake ht
    have hn := stakedAmount_of_map hra
    dsimp only at hsu ⊢
    omega
  | @unstake c cm cm' stake hf ht hu hp hl hc =>
    have hsu := sum_insert_some hf cm' (fun _ cm => stakedAmount cm)
    have hold := stakedAmount_of_stake ht
    have hn : stakedAmount cm' = 0 := by rw [stakedAmount, hu, Option.elim_none]
    dsimp only at hsu ⊢
    omega
  | @lowerStake c cm cm' stake lost hf ht ho hp hl hc ha =>
    have hsu := sum_insert_some hf cm' (fun _ cm => stakedAmount cm)
    have hold := stakedAmount_of_stake ht
    have hn := stakedAmount_of_map ho
    have hlo := ha.resolve_right (fun h => h rfl)
    dsimp only at hsu ⊢
    omega
  | repay ha => exact hs
  | reback ha => exact hs
  | noteSlash => exact hs
  | @mark c cm cm' lastEpoch increase charges hf hm ha =>
    have hsu := sum_insert_some hf cm' (fun _ cm => stakedAmount cm)
    have hq : stakedAmount cm' = stakedAmount cm := by rw [stakedAmount, hm.stake, stakedAmount]
    dsimp only at hsu ⊢
    omega
  | @credit c cm cm' stake weight reward hf hcr ha =>
    have hsu := sum_insert_some hf cm' (fun _ cm => stakedAmount cm)
    have hold := stakedAmount_of_stake hcr.staked
    have hn := stakedAmount_of_map hcr.stake_eq
    dsimp only at hsu ⊢
    omega

theorem step_totalStake (s : State T) (op : Op T) (hc : SlashCovered s op)
    (hs : s.totalStake = stakeTotal s) : (step s op).totalStake = stakeTotal (step s op) :=
  Moves.invariant (fun _ _ => Move.totalStake_eq)
    (step_moves s op { overslash := .inl hc }) hs

/-- In a run without an overslash the total stake is the sum of all the stakes. -/
theorem totalStake_eq_of_covered (w : T.World) (ops : List (Op T))
    (hrun : Along step SlashCovered (State.genesis T w) ops) :
    (reached w ops).totalStake = stakeTotal (reached w ops) :=
  run_invariant step_totalStake hrun rfl

def slashRun (missed : ℕ) : List (Op mock) :=
  opening ++ List.replicate missed .block ++ [signed 5 (.slash 2)]

theorem totalStake_eq_of_covered_slash : Along step SlashCovered (State.genesis mock []) (slashRun 5) ∧
    (after (slashRun 5)).totalStake =
      stakeTotal (after (slashRun 5)) := by
  have hr : Along step SlashCovered (State.genesis mock []) (slashRun 5) := by decide +kernel
  exact ⟨hr, totalStake_eq_of_covered _ _ hr⟩

/-- After 110 missed epochs at one percent each, a slash takes more off the total than the
committer had staked. -/
theorem totalStake_ne_after_overslash :
    (after (slashRun 110)).totalStake ≠
      stakeTotal (after (slashRun 110)) := by
  decide +kernel

end Acurast.Compute

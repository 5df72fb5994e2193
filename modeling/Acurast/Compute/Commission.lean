import Acurast.Compute.StakeBounds

/-! How far a commission can rise. Two raises are a day apart, so their number is bounded by the
time that passes, and nothing but a new stake sets a commission freely. -/

namespace Acurast.Compute

open Base

variable {A : Type} {T : Config A} {b b' : Terms A} {c : CommitmentId}

def Terms.commission (b : Terms A) (c : CommitmentId) : ℕ :=
  (b.commitments.lookup c).elim 0 (·.commission.parts)

def NotStaking (c : CommitmentId) : Clause → Prop
  | .longer _ => True
  | .stake c' => c' ≠ c

/-- Since a start, the commission was raised at most `n` times, the last time as remembered. -/
structure RaisedAtMost (T : Config A) (c : CommitmentId) (start base n : ℕ) (b : Terms A) : Prop where
  block : start ≤ b.block
  commission : b.commission c ≤ base + n * T.maxCommissionIncreasePerDay.parts
  last : n = 0 ∨ ∃ entry, b.lastCommissionIncrease.lookup c = some entry ∧ entry.1 ≤ b.block ∧
    start + (n - 1) * T.blocksPerDay ≤ entry.1

variable {base n start : ℕ}

theorem RaisedAtMost.of_le (h : RaisedAtMost T c start base n b) (hb : b.block ≤ b'.block)
    (hc : b'.commission c ≤ b.commission c)
    (hl : b'.lastCommissionIncrease.lookup c = b.lastCommissionIncrease.lookup c) :
    RaisedAtMost T c start base n b' := by
  refine ⟨h.block.trans hb, hc.trans h.commission, h.last.imp_right ?_⟩
  rintro ⟨entry, hn, hle, hs⟩
  exact ⟨entry, hl.trans hn, hle.trans hb, hs⟩

theorem RaisedAtMost.raise {old : Perbill} (h : RaisedAtMost T c start base n b)
    (hs : ∀ last ∈ b.lastCommissionIncrease.lookup c, T.blocksPerDay ≤ b.block - last.1)
    (hm : b'.commission c ≤ b.commission c + T.maxCommissionIncreasePerDay.parts)
    (hb : b'.block = b.block) (hl : b'.lastCommissionIncrease.lookup c = some (b.block, old)) :
    RaisedAtMost T c start base (n + 1) b' := by
  refine ⟨hb ▸ h.block, ?_, .inr ⟨_, hl, hb.ge, ?_⟩⟩
  · have hc := h.commission
    rw [Nat.succ_mul]
    omega
  · rw [Nat.add_sub_cancel]
    rcases h.last with rfl | ⟨entry, hn, hle, hp⟩
    · rw [Nat.zero_mul]
      exact h.block
    · have ha := hs entry hn
      cases n with
      | zero =>
        rw [Nat.zero_mul]
        exact h.block
      | succ n =>
        rw [Nat.add_sub_cancel] at hp
        rw [Nat.succ_mul]
        omega

theorem commission_of_insert {c' : CommitmentId} {cm cm' : Commitment}
    (hf : b.commitments.lookup c' = some cm)
    (hb : b'.commitments = b.commitments.insert c' cm')
    (ho : cm'.commission.parts ≤ cm.commission.parts) :
    b'.commission c ≤ b.commission c := by
  unfold Terms.commission
  rw [hb, lookup_insert_eq]
  split_ifs with hc
  · subst hc
    rw [hf]
    exact ho
  · exact le_rfl

theorem RaisedAtMost.bound (h : RaisedAtMost T c start base n b) (hd : 0 < T.blocksPerDay) :
    b.commission c ≤
      base + T.maxCommissionIncreasePerDay.parts * (1 + (b.block - start) / T.blocksPerDay) := by
  have hn : n ≤ 1 + (b.block - start) / T.blocksPerDay := by
    rcases h.last with rfl | ⟨entry, -, hl, hs⟩
    · exact Nat.zero_le _
    · have ha : n - 1 ≤ (b.block - start) / T.blocksPerDay := by
        rw [Nat.le_div_iff_mul_le hd]
        omega
      omega
  have hm := Nat.mul_le_mul_left T.maxCommissionIncreasePerDay.parts hn
  calc b.commission c ≤ base + n * T.maxCommissionIncreasePerDay.parts := h.commission
    _ = base + T.maxCommissionIncreasePerDay.parts * n := by rw [Nat.mul_comm]
    _ ≤ _ := Nat.add_le_add_left hm base

variable [DecidableEq A]

theorem Amends.raisedAtMost (h : Amends T (NotStaking c) b b')
    (hb : ∃ n, RaisedAtMost T c start base n b) : ∃ n, RaisedAtMost T c start base n b' := by
  obtain ⟨n, hb⟩ := hb
  cases h with
  | tick => exact ⟨n, hb.of_le (Nat.le_succ _) le_rfl rfl⟩
  | agree hf hg =>
    exact ⟨n, hb.of_le le_rfl (commission_of_insert hf rfl (hg.commission ▸ le_rfl)) rfl⟩
  | restate hf hs hs' hr ho =>
    exact ⟨n, hb.of_le le_rfl (commission_of_insert hf rfl (ho ▸ le_rfl)) rfl⟩
  | lowerCommission hf hl =>
    exact ⟨n, hb.of_le le_rfl (commission_of_insert hf rfl hl) rfl⟩
  | @raiseCommission c' cm ho hf hsi hm =>
    by_cases hc : c = c'
    · subst hc
      refine ⟨n + 1, hb.raise hsi ?_ rfl (AList.lookup_insert _)⟩
      simp only [Terms.commission, AList.lookup_insert, hf, Option.elim_some]
      exact hm
    · refine ⟨n, hb.of_le le_rfl ?_ (AList.lookup_insert_ne hc)⟩
      simp only [Terms.commission, AList.lookup_insert_ne hc, le_refl]
  | @stake c' cm amount period auto free hs min max hw ha =>
    have hc : c ≠ c' := fun hq => ha hq.symm
    refine ⟨n, hb.of_le le_rfl ?_ rfl⟩
    simp only [Terms.commission, AList.lookup_insert_ne hc, le_refl]
  | unstake hf hs hu ho =>
    exact ⟨n, hb.of_le le_rfl (commission_of_insert hf rfl (ho ▸ le_rfl)) rfl⟩
  | tend | leave | join => exact ⟨n, hb.of_le le_rfl le_rfl rfl⟩

theorem commission_le_of_run (hday : 0 < T.blocksPerDay) (w : T.World) (before after : List (Op T))
    (c : CommitmentId) (hafter : Along step (fun s op => recommitted s op ≠ some c)
      (reached w before) after) (cm cm' : Commitment)
    (hcm : (reached w before).commitments.lookup c = some cm)
    (hcm' : (reached w (before ++ after)).commitments.lookup c = some cm') :
    cm'.commission.parts ≤ cm.commission.parts + T.maxCommissionIncreasePerDay.parts *
      (1 + ((reached w (before ++ after)).blockNumber -
        (reached w before).blockNumber) / T.blocksPerDay) := by
  rw [reached_append] at hcm' ⊢
  generalize reached w before = s at hafter hcm hcm' ⊢
  have hk : ∀ (s₁ : State T) op, recommitted s₁ op ≠ some c →
      (∃ n, RaisedAtMost T c s.blockNumber cm.commission.parts n s₁.terms) →
      ∃ n, RaisedAtMost T c s.blockNumber cm.commission.parts n (step s₁ op).terms := by
    intro s₁ op hop hs₁
    have hpe : Permits (NotStaking c) s₁ op :=
      ⟨fun c' hc' hq => hop (hq ▸ hc'), fun p hp => trivial⟩
    exact Amendments.invariant (fun b b' h hb => h.raisedAtMost hb) (step_terms s₁ op hpe) hs₁
  have hs : RaisedAtMost T c s.blockNumber cm.commission.parts 0 s.terms := by
    refine ⟨le_rfl, ?_, .inl rfl⟩
    rw [Nat.zero_mul, Nat.add_zero, Terms.commission]
    show (s.commitments.lookup c).elim 0 (·.commission.parts) ≤ _
    rw [hcm]
    exact le_rfl
  obtain ⟨n, hn⟩ := run_invariant hk hafter ⟨0, hs⟩
  have ho := hn.bound hday
  have hc : (run step s after).terms.commission c = cm'.commission.parts := by
    show ((run step s after).commitments.lookup c).elim 0 (·.commission.parts) = _
    rw [hcm']
    rfl
  rw [hc] at ho
  exact ho

def daily : Config ℕ := { mock with blocksPerDay := 1 }

def freeOfCommission : List (Op daily) := prepared ++ [signed 2 stakeCall]

def raisedCommission : List (Op daily) :=
  [.heartbeat 3 1 1 [(1, 1, 1000)], .heartbeat 9 8 2 [(1, 10 ^ 9, 1)], .block,
    signed 2 (.stakeMore 0 none none (some (PerThing.fromParts 2500000)) none)]

theorem commission_le_of_raisedCommission : ∃ cm cm',
    (run step (State.genesis daily []) freeOfCommission).commitments.lookup 0 = some cm ∧
    (run step (State.genesis daily []) (freeOfCommission ++ raisedCommission)).commitments.lookup 0 =
      some cm' ∧
    cm.commission.parts = 0 ∧ cm'.commission.parts = 2500000 ∧
    cm'.commission.parts ≤ cm.commission.parts + daily.maxCommissionIncreasePerDay.parts *
      (1 + ((run step (State.genesis daily []) (freeOfCommission ++ raisedCommission)).blockNumber -
        (run step (State.genesis daily []) freeOfCommission).blockNumber) / daily.blocksPerDay) := by
  have hd : 0 < daily.blocksPerDay := by decide
  have ha : Along step (fun s op => recommitted s op ≠ some 0)
      (run step (State.genesis daily []) freeOfCommission) raisedCommission := by
    decide +kernel
  have hb : ((run step (State.genesis daily []) freeOfCommission).commitments.lookup 0).map
      (·.commission.parts) = some 0 := by
    decide +kernel
  have hr : ((run step (State.genesis daily [])
      (freeOfCommission ++ raisedCommission)).commitments.lookup 0).map (·.commission.parts) =
      some 2500000 := by
    decide +kernel
  obtain ⟨cm, hc, hz⟩ := Option.map_eq_some_iff.mp hb
  obtain ⟨cm', hc', hp⟩ := Option.map_eq_some_iff.mp hr
  exact ⟨cm, cm', hc, hc', hz, hp, commission_le_of_run (T := daily) hd []
    freeOfCommission raisedCommission 0 ha cm cm' hc hc'⟩

end Acurast.Compute

import Acurast.Compute.Mock

/-! A delegation that is accrued again and again while the indices of its pool rise, against one that
is accrued once at the end. -/

namespace Acurast.Compute

open Base

variable {A : Type} [DecidableEq A] {T : Config A}

def PoolReward.Below (p q : PoolReward) : Prop :=
  p.rewardPerWeight ≤ q.rewardPerWeight ∧ p.slashPerWeight ≤ q.slashPerWeight

def Rises (created : ℕ) (last : PoolReward) : PoolReward → List (Commitment × Bool) → Prop
  | p, [] => p.Below last
  | p, point :: points => ∃ e, point.1.poolRewards.latestEntry created = some e ∧ p.Below e.2 ∧
    Rises created last e.2 points

def visit (who : A) (c : CommitmentId) (s : State T) (point : Commitment × Bool) :
    Result (State T) :=
  let s := { s with commitments := s.commitments.insert c point.1 }
  if point.2 then accrueDelegator s who c else pure s

theorem Rises.below {created : ℕ} {last : PoolReward} {points : List (Commitment × Bool)} :
    ∀ {p}, Rises created last p points → p.Below last := by
  induction points with
  | nil => exact id
  | cons point points ih =>
    rintro p ⟨e, -, hp, hr⟩
    have he := ih hr
    exact ⟨hp.1.trans he.1, hp.2.trans he.2⟩

variable {s s' s₁ s₂ : State T} {who : A} {c : CommitmentId} {d : Delegation} {cm final : Commitment}
  {points : List (Commitment × Bool)} {e p : PoolReward} {created : ℕ}

def Delegation.accruedAt (d : Delegation) (e : PoolReward) : Delegation where
  stake := { d.stake with
    accruedReward := d.stake.accruedReward +
      Accrual.due perTokenDecimals d.rewardWeight e.rewardPerWeight d.rewardDebt
    accruedSlash := d.stake.accruedSlash +
      (d.slashWeight * e.slashPerWeight / perTokenDecimals - d.slashDebt) }
  rewardWeight := d.rewardWeight
  slashWeight := d.slashWeight
  rewardDebt := Accrual.ceilDebt perTokenDecimals d.rewardWeight e.rewardPerWeight
  slashDebt := d.slashWeight * e.slashPerWeight / perTokenDecimals

theorem visit_accrued (hd : s.delegations.lookup (who, c) = some d)
    (hf : d.stake.rewardableAmount ≤ d.stake.amount) {t : ℕ}
    (he : cm.poolRewards.latestEntry d.stake.created = some (t, e))
    (h : visit who c s (cm, true) = .ok s') :
    s'.delegations.lookup (who, c) = some (d.accruedAt e) := by
  simp only [visit, if_true, accrueDelegator, ok_iff, AList.lookup_insert, hd, Option.some.injEq,
    exists_eq_left', he, checkedSub_eq_some, checkedAdd_eq_some, sanitizeDelegation, if_pos hf]
    at h
  obtain ⟨x, hx, y, hy, _, ⟨-, rfl⟩, _, ⟨rfl, -⟩, _, ⟨rfl, -⟩, z, hz, v, hv, rfl⟩ := h
  cases slashDebtOf_ok hx
  cases slashDebtOf_ok hy
  cases rewardDebtOf_ok hz
  cases slashDebtOf_ok hv
  exact AList.lookup_insert _

theorem visits_accrued (hd : s.delegations.lookup (who, c) = some d)
    (hf : d.stake.rewardableAmount ≤ d.stake.amount)
    (hr : d.rewardDebt ≤ Accrual.ceilDebt perTokenDecimals d.rewardWeight p.rewardPerWeight)
    (hs : d.slashDebt ≤ d.slashWeight * p.slashPerWeight / perTokenDecimals)
    {t : ℕ} (he : final.poolRewards.latestEntry d.stake.created = some (t, e))
    (hi : Rises d.stake.created e p points)
    (h : (points ++ [(final, true)]).foldlM (visit who c) s = .ok s') :
    ∃ d', s'.delegations.lookup (who, c) = some d' ∧
      d'.stake.accruedSlash = (d.accruedAt e).stake.accruedSlash ∧
      d'.stake.accruedReward ≤ (d.accruedAt e).stake.accruedReward ∧
      (d.accruedAt e).stake.accruedReward ≤
        d'.stake.accruedReward + (points.filter Prod.snd).length := by
  induction points generalizing s d p with
  | nil =>
    rw [List.nil_append, List.foldlM_cons, bind_eq_ok] at h
    obtain ⟨s₁, hv, h⟩ := h
    cases h
    exact ⟨_, visit_accrued hd hf he hv, rfl, le_rfl, Nat.le_add_right _ _⟩
  | cons point points ih =>
    rw [List.cons_append, List.foldlM_cons, bind_eq_ok] at h
    obtain ⟨s₁, hv, h⟩ := h
    obtain ⟨⟨u, q⟩, hq, hb, hi⟩ := hi
    dsimp only at hb hi
    have hrq := hr.trans (Accrual.ceilDebt_mono hb.1)
    have hsq := hs.trans (Nat.div_le_div_right (Nat.mul_le_mul_left _ hb.2))
    obtain ⟨cm, called⟩ := point
    cases called with
    | false =>
      cases hv
      exact ih (s := { s with commitments := s.commitments.insert c cm }) hd hf hrq hsq he hi h
    | true =>
      obtain ⟨d', hd', hsl, hle, hge⟩ :=
        ih (d := d.accruedAt q) (visit_accrued hd hf hq hv) hf le_rfl le_rfl he hi h
      have hl := hi.below
      obtain ⟨hlo, hup⟩ := Accrual.due_split perTokenDecimals_pos hrq hl.1
      have hm : d.slashWeight * q.slashPerWeight / perTokenDecimals ≤
          d.slashWeight * e.slashPerWeight / perTokenDecimals :=
        Nat.div_le_div_right (Nat.mul_le_mul_left _ hl.2)
      refine ⟨d', hd', ?_, ?_, ?_⟩
      · rw [hsl]
        simp only [Delegation.accruedAt]
        omega
      · simp only [Delegation.accruedAt] at hle ⊢
        omega
      · rw [List.filter_cons_of_pos rfl, List.length_cons]
        simp only [Delegation.accruedAt] at hge ⊢
        omega

/-- Accruals on the way change nothing of the slash, and cost at most one unit of reward each. -/
theorem accrual_path_independent (hd : s.delegations.lookup (who, c) = some d)
    (hfixed : d.stake.rewardableAmount ≤ d.stake.amount)
    (hreward : d.rewardDebt =
      Accrual.ceilDebt perTokenDecimals d.rewardWeight p.rewardPerWeight)
    (hslash : d.slashDebt = d.slashWeight * p.slashPerWeight / perTokenDecimals) {t : ℕ}
    (hfinal : final.poolRewards.latestEntry d.stake.created = some (t, e))
    (hrises : Rises d.stake.created e p points)
    (hmany : (points ++ [(final, true)]).foldlM (visit who c) s = .ok s₁)
    (hone : visit who c s (final, true) = .ok s₂) :
    ∃ d₁ d₂, s₁.delegations.lookup (who, c) = some d₁ ∧ s₂.delegations.lookup (who, c) = some d₂ ∧
      d₁.stake.accruedSlash = d₂.stake.accruedSlash ∧
      d₁.stake.accruedReward ≤ d₂.stake.accruedReward ∧
      d₂.stake.accruedReward ≤ d₁.stake.accruedReward + (points.filter Prod.snd).length := by
  obtain ⟨d₁, hd₁, h⟩ := visits_accrued hd hfixed hreward.le hslash.le hfinal hrises hmany
  exact ⟨d₁, _, hd₁, visit_accrued hd hfixed hfinal hone, h⟩

def atIndex (n : ℕ) : Commitment :=
  ⟨none, PerThing.zero, 0, 0, .newWith 0 default, .newWith 0 ⟨n, n⟩, 0, 0⟩

def halves : State mock :=
  { State.genesis mock [] with delegations :=
      (∅ : StorageMap _ _).insert (4, 0) ⟨.new 10 5 36 false, 5 * 10 ^ 29, 5 * 10 ^ 29, 0, 0⟩ }

theorem accrual_path_independent_halves : ∃ s₁ s₂,
    ([(atIndex 1, true)] ++ [(atIndex 2, true)]).foldlM (visit 4 0) halves = .ok s₁ ∧
      visit 4 0 halves (atIndex 2, true) = .ok s₂ ∧
      ∃ d₁ d₂, s₁.delegations.lookup (4, 0) = some d₁ ∧ s₂.delegations.lookup (4, 0) = some d₂ ∧
        d₁.stake.accruedSlash = d₂.stake.accruedSlash ∧
        d₁.stake.accruedReward ≤ d₂.stake.accruedReward ∧
        d₂.stake.accruedReward ≤ d₁.stake.accruedReward + 1 := by
  obtain ⟨s₁, h₁⟩ := isOk_iff.mp (show (([(atIndex 1, true)] ++ [(atIndex 2, true)]).foldlM
    (visit 4 0) halves).isOk = true by decide +kernel)
  obtain ⟨s₂, h₂⟩ := isOk_iff.mp (show (visit 4 0 halves (atIndex 2, true)).isOk = true by
    decide +kernel)
  have hr : Rises 5 ⟨2, 2⟩ ⟨0, 0⟩ [(atIndex 1, true)] :=
    ⟨(0, ⟨1, 1⟩), rfl, ⟨by decide, by decide⟩, by decide, by decide⟩
  exact ⟨s₁, s₂, h₁, h₂, accrual_path_independent (p := ⟨0, 0⟩) (e := ⟨2, 2⟩)
    (AList.lookup_insert _) le_rfl (by decide +kernel) (by decide +kernel) rfl hr h₁ h₂⟩

end Acurast.Compute

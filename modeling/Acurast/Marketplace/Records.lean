import Mathlib.Tactic.Linarith
import Acurast.Marketplace.Mock
import Acurast.Marketplace.StepDeals

/-! What the pallet keeps from one call to the next about jobs and rewards: the sources a job is
restricted to, and the average of the rewards. -/

namespace Acurast.Marketplace

open Base

variable {A : Type} {T : Config A}

section Sources

variable [DecidableEq A] {s s' : State T} {who : A} {sequence : ℕ}
  {updates : List (ListUpdateOperation × A)}

theorem foldl_updateAllowedSource (h : ∀ update ∈ updates, update.1 = .remove) (sources : List A) :
    updates.foldl updateAllowedSource sources = sources.diff (updates.map Prod.snd) := by
  rw [List.diff_eq_foldl, List.foldl_map]
  refine List.foldl_ext _ _ _ fun l u hu => ?_
  rw [updateAllowedSource, h u hu]

theorem diff_eq_nil_iff {l r : List A} : l.diff r = [] ↔ ¬ ∃ a, r.count a < l.count a := by
  rw [List.eq_nil_iff_forall_not_mem, not_exists]
  refine forall_congr' fun a => ?_
  rw [← List.count_pos_iff, List.count_diff, Nat.sub_pos_iff_lt]

/-- Removing sources allows no further processor, unless it removes all of them: no sources at all
stand for everybody. -/
theorem removed_sources_allowed_iff (hremoves : ∀ update ∈ updates, update.1 = .remove)
    (hok : updateAllowedSources s who sequence updates = .ok s') (processor : A) :
    ∃ before after, s.storedJobRegistration.lookup (.acurast who, sequence) = some before ∧
      s'.storedJobRegistration.lookup (.acurast who, sequence) = some after ∧
      ((isProcessorAllowed processor after.allowedSources = true →
          isProcessorAllowed processor before.allowedSources = true) ↔
        isProcessorAllowed processor before.allowedSources = true ∨
          ∃ source, (updates.map Prod.snd).count source <
            (before.allowedSources.getD []).count source) := by
  obtain ⟨reg, sources, hr, hs, rfl⟩ := updateAllowedSources_ok hok
  rw [foldl_updateAllowedSource hremoves] at hs
  refine ⟨reg, _, hr, AList.lookup_insert _, ?_⟩
  by_cases hleft : ∃ source, (updates.map Prod.snd).count source <
      (reg.allowedSources.getD []).count source
  · have hne : sources ≠ [] := by
      rw [hs]
      exact fun hno => diff_eq_nil_iff.mp hno hleft
    refine iff_of_true (fun ha => ?_) (.inr hleft)
    simp only [if_neg hne, isProcessorAllowed, Option.map_some, Option.getD_some,
      decide_eq_true_eq] at ha
    rw [hs] at ha
    have hm := List.diff_subset _ _ ha
    cases hl : reg.allowedSources with
    | none => rfl
    | some l =>
      rw [hl] at hm
      exact decide_eq_true hm
  · have hno : sources = [] := by
      rw [hs]
      exact diff_eq_nil_iff.mpr hleft
    rw [if_pos hno, or_iff_left hleft]
    exact ⟨fun h => h rfl, fun h _ => h⟩

def restricted : State mock :=
  after [signed 1
    (.register { plainJob atThousand (.single none) 100 with allowedSources := some [2] } none)]

/-- The only allowed source is removed, and account 3 may run the job. -/
theorem removed_sources_widened :
    ((restricted.storedJobRegistration.lookup (mockJob 1)).map fun r =>
      isProcessorAllowed 3 r.allowedSources) = some false ∧
    ((updateAllowedSources restricted 1 1 [(.remove, 2)]).toOption.bind fun s' =>
      (s'.storedJobRegistration.lookup (mockJob 1)).map fun r =>
        isProcessorAllowed 3 r.allowedSources) = some true := by
  decide +kernel

theorem removed_sources_kept : ∃ s' before after,
    updateAllowedSources restricted 1 1 [(.remove, 3)] = .ok s' ∧
      restricted.storedJobRegistration.lookup (mockJob 1) = some before ∧
      s'.storedJobRegistration.lookup (mockJob 1) = some after ∧
      (isProcessorAllowed 3 after.allowedSources = true →
        isProcessorAllowed 3 before.allowedSources = true) := by
  obtain ⟨s', h⟩ := isOk_iff.mp (show
    (updateAllowedSources restricted 1 1 [(.remove, 3)]).isOk = true by decide +kernel)
  obtain ⟨before, after, hb, ha, hi⟩ := removed_sources_allowed_iff (by decide) h 3
  have hs : (restricted.storedJobRegistration.lookup (mockJob 1)).map (·.allowedSources) =
      some (some [2]) := by
    decide +kernel
  have hl : before.allowedSources = some [2] := by
    rw [show restricted.storedJobRegistration.lookup (mockJob 1) = some before from hb] at hs
    exact Option.some.inj hs
  refine ⟨s', before, after, h, hb, ha, hi.mpr (.inr ⟨2, ?_⟩)⟩
  rw [hl]
  decide

end Sources

theorem updateAverageReward_ok {s s' : State T} {n fee : ℕ} (hn : s.storedTotalAssigned.getD 0 = n)
    (hfits : n + 1 < 2 ^ 128) (h : updateAverageReward s fee = .ok s') :
    s'.storedTotalAssigned.getD 0 = n + 1 ∧
      s'.storedAverageReward.getD 0 = (s.storedAverageReward.getD 0 * n + fee) / (n + 1) := by
  simp only [updateAverageReward, ok_iff, hn, saturatingAdd_eq hfits, Nat.add_sub_cancel,
    checkedMul_eq_some, checkedAdd_eq_some, checkedDiv_eq_some] at h
  obtain ⟨_, ⟨rfl, -⟩, _, ⟨rfl, -⟩, _, ⟨-, rfl⟩, rfl⟩ := h
  exact ⟨rfl, rfl⟩

/-- The average drops less than half a unit for each reward, for each reward. -/
structure Averages (fees : List ℕ) (s : State T) : Prop where
  count : s.storedTotalAssigned.getD 0 = fees.length
  le : fees.length * s.storedAverageReward.getD 0 ≤ fees.sum
  close : 2 * fees.sum + fees.length ≤
    fees.length * (2 * s.storedAverageReward.getD 0 + fees.length)

theorem averages_append {s s' : State T} {fees : List ℕ} {fee : ℕ} (hs : Averages fees s)
    (hfits : fees.length + 1 < 2 ^ 128) (h : updateAverageReward s fee = .ok s') :
    Averages (fees ++ [fee]) s' := by
  obtain ⟨hcount, ha⟩ := updateAverageReward_ok hs.count hfits h
  have hu := Nat.mul_div_le (s.storedAverageReward.getD 0 * fees.length + fee) (fees.length + 1)
  have hl := Nat.lt_mul_div_succ (s.storedAverageReward.getD 0 * fees.length + fee)
    fees.length.succ_pos
  have hle := hs.le
  have hclose := hs.close
  constructor
  · rw [hcount, List.length_append, List.length_singleton]
  · rw [List.length_append, List.length_singleton, List.sum_append, List.sum_singleton]
    nlinarith
  · rw [List.length_append, List.length_singleton, List.sum_append, List.sum_singleton]
    nlinarith

theorem averages_of_foldlM {s s' : State T} (hcount : s.storedTotalAssigned = none) {fees : List ℕ}
    (hfits : fees.length < 2 ^ 128) (h : fees.foldlM updateAverageReward s = .ok s') :
    Averages fees s' := by
  induction fees using List.reverseRecOn generalizing s' with
  | nil =>
    cases h
    refine ⟨by rw [hcount]; rfl, ?_, ?_⟩ <;> simp
  | append_singleton fees fee ih =>
    rw [List.length_append, List.length_singleton] at hfits
    rw [List.foldlM_append, bind_eq_ok] at h
    obtain ⟨s₁, hf, h⟩ := h
    rw [List.foldlM_cons, bind_eq_ok] at h
    obtain ⟨s₂, hu, h⟩ := h
    cases h
    exact averages_append (ih (by omega) hf) hfits hu

theorem average_of_range {s : State T} (hcount : s.storedTotalAssigned = none)
    (haverage : s.storedAverageReward = none) {n : ℕ} (hn : n < 2 ^ 128) :
    ∃ s', (List.range n).foldlM updateAverageReward s = .ok s' ∧
      s'.storedTotalAssigned.getD 0 = n ∧ s'.storedAverageReward.getD 0 = 0 := by
  induction n with
  | zero => exact ⟨s, rfl, by rw [hcount]; rfl, by rw [haverage]; rfl⟩
  | succ n ih =>
    obtain ⟨s₁, hf, hc, ha⟩ := ih (by omega)
    have hu : updateAverageReward s₁ n =
        .ok { s₁ with storedTotalAssigned := some (n + 1), storedAverageReward := some 0 } := by
      simp only [updateAverageReward, hc, ha, saturatingAdd_eq hn, ok_iff, checkedMul_eq_some,
        checkedAdd_eq_some, checkedDiv_eq_some]
      refine ⟨0, ⟨by rw [Nat.zero_mul], by omega⟩, n, ⟨by rw [Nat.zero_add], by omega⟩, 0,
        ⟨by omega, ?_⟩, rfl⟩
      rw [Nat.div_eq_of_lt n.lt_succ_self]
    refine ⟨{ s₁ with storedTotalAssigned := some (n + 1), storedAverageReward := some 0 }, ?_, rfl, rfl⟩
    rw [List.range_succ, List.foldlM_append, bind_eq_ok]
    refine ⟨s₁, hf, ?_⟩
    rw [List.foldlM_cons, bind_eq_ok]
    exact ⟨_, hu, rfl⟩

theorem two_mul_sum_range (n : ℕ) : 2 * (List.range n).sum + n = n * n := by
  induction n with
  | zero => rfl
  | succ n ih =>
    rw [List.range_succ, List.sum_append, List.sum_singleton]
    linarith

/-- The stored average is within one of the average of the rewards for up to four rewards, and for no
larger number of them. -/
theorem average_reward_iff {s : State T} (hcount : s.storedTotalAssigned = none)
    (haverage : s.storedAverageReward = none) {n : ℕ} (hn : 0 < n) (hfits : n < 2 ^ 128) :
    (∀ (fees : List ℕ) s', fees.length = n → fees.foldlM updateAverageReward s = .ok s' →
      s'.storedAverageReward.getD 0 ≤ fees.sum / fees.length + 1 ∧
        fees.sum / fees.length ≤ s'.storedAverageReward.getD 0 + 1) ↔ n ≤ 4 := by
  constructor
  · intro h
    obtain ⟨s', hf, -, ha⟩ := average_of_range hcount haverage hfits
    have hl := (h _ s' List.length_range hf).2
    rw [ha, List.length_range, ← Nat.lt_succ_iff, Nat.div_lt_iff_lt_mul hn] at hl
    have hs := two_mul_sum_range n
    by_contra hfive
    nlinarith
  · rintro hfour fees s' rfl hok
    obtain ⟨-, hle, hclose⟩ := averages_of_foldlM hcount hfits hok
    constructor
    · exact Nat.le_succ_of_le ((Nat.le_div_iff_mul_le hn).mpr (by rwa [Nat.mul_comm]))
    · rw [← Nat.lt_succ_iff, Nat.div_lt_iff_lt_mul hn]
      nlinarith

/-- The average of five rewards is two, and nothing is stored. -/
theorem average_reward_dropped :
    (([0, 1, 2, 3, 4].foldlM updateAverageReward (State.genesis mock (1 : ℕ))).toOption.map
      State.storedAverageReward) = some (some 0) ∧ [0, 1, 2, 3, 4].sum / 5 = 2 := by
  decide +kernel

theorem average_reward_even : ∃ s' : State mock,
    [4, 6, 3].foldlM updateAverageReward (State.genesis mock (1 : ℕ)) = .ok s' ∧
      s'.storedAverageReward.getD 0 ≤ 5 ∧ 4 ≤ s'.storedAverageReward.getD 0 + 1 := by
  obtain ⟨s', h⟩ := isOk_iff.mp (show ([4, 6, 3].foldlM updateAverageReward
    (State.genesis mock (1 : ℕ))).isOk = true by decide +kernel)
  exact ⟨s', h, (average_reward_iff rfl rfl (by decide) (by decide)).mpr (by decide) _ s' rfl h⟩

end Acurast.Marketplace

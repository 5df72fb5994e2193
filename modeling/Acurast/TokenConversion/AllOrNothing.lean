import Acurast.TokenConversion.Currency

/-! Processing a conversion either funds the account and locks the funds, or leaves every balance as
it was and keeps the message. Where the funds cannot be held they can be taken back. -/

namespace Acurast.TokenConversion

open Base

theorem holdAmount_le (w : T.World) (transferred : ℕ) (a : A) :
    holdAmount T w transferred a ≤ transferred := by
  unfold holdAmount
  split
  · exact min_le_left _ _
  · exact Nat.sub_le _ _

theorem tryUndoFund_eq (h : undoFund T s.world m = some w) :
    tryUndoFund s m = { s with world := w }.log (.undone m.account m.amount) := by
  rw [tryUndoFund, h]

variable {A : Type} [DecidableEq A] {T : Config A} (B : OnBalances T) {s s' : State T}
  {m : ConversionMessage A}

structure Ignored (s s' : State T) (m : ConversionMessage A) : Prop where
  locked : s.lockedConversion.lookup m.account ≠ none
  same : s' = s

/-- The amount moved from the pallet account to the account of the message, some of what the account
then had was put on hold and recorded as locked, and no message of the account is kept. -/
structure Processed (s s' : State T) (m : ConversionMessage A) : Prop where
  unlocked : s.lockedConversion.lookup m.account = none
  funded : ∃ w held, (B.ledger s.world).Moved (B.ledger w) T.palletAccount m.account m.amount ∧
    (∃ x, (B.ledger w m.account).hold held = some x ∧
      B.ledger s'.world = Function.update (B.ledger w) m.account x) ∧
    s'.lockedConversion.lookup m.account = some ⟨held, s.blockNumber⟩
  unkept : s'.unprocessedConversion.lookup m.account = none

structure Postponed (s s' : State T) (m : ConversionMessage A) : Prop where
  unlocked : s.lockedConversion.lookup m.account = none
  same : (B.ledger s.world).SameBalances (B.ledger s'.world)
  kept : s'.unprocessedConversion.lookup m.account = some m
  unrecorded : s'.lockedConversion.lookup m.account = none

def Traced (s s' : State T) (account : A) (amount : ℕ) : Prop :=
  ∀ a, total (fundedTo a) s' + total (undoneTo a) s =
    total (fundedTo a) s + total (undoneTo a) s' + if account = a then amount else 0

variable {w : T.World}

theorem undoFund_same (hf : fund T s.world m = some w)
    (hh : T.hold w m.account (holdAmount T w m.amount m.account) = none) :
    ∃ w', undoFund T w m = some w' ∧ (B.ledger s.world).SameBalances (B.ledger w') := by
  have ht := B.transfer_some hf
  obtain ⟨l, hb, hs⟩ := Ledger.transfer_back ht (holdAmount_le w m.amount m.account)
    (B.hold_none hh)
  have hx : (B.ledger w).transfer m.account T.palletAccount m.amount
      Preservation.expendable.keep = some l := hb
  obtain ⟨w', hu, rfl⟩ := B.transfer_isSome hx
  exact ⟨w', hu, hs⟩

theorem processPending_outcome (hl : s.lockedConversion.lookup m.account = none)
    (hu : s.unprocessedConversion.lookup m.account = none) :
    Processed B s (processPending s m) m ∧ Traced s (processPending s m) m.account m.amount ∨
      Postponed B s (processPending s m) m ∧ Traced s (processPending s m) m.account 0 := by
  have hk (s : State T) : (postpone s m).unprocessedConversion.lookup m.account = some m :=
    AList.lookup_insert _
  rcases processPending_cases s m with ⟨-, h⟩ | ⟨w, hf, ⟨w', hh, h⟩ | ⟨hh, h⟩⟩
  · right
    rw [h]
    refine ⟨⟨hl, fun _ => ⟨rfl, rfl, rfl⟩, hk s, hl⟩, fun a => ?_⟩
    rw [ite_self]
    rfl
  · left
    rw [h]
    refine ⟨⟨hl, ⟨w, holdAmount T w m.amount m.account, ?_, ?_, ?_⟩, hu⟩, fun a => ?_⟩
    · exact Ledger.transfer_moved (B.transfer_some hf)
    · exact B.hold_some hh
    · exact AList.lookup_insert _
    · show (if m.account = a then m.amount else 0) + total (fundedTo a) s + total (undoneTo a) s =
        total (fundedTo a) s + (0 + total (undoneTo a) s) + if m.account = a then m.amount else 0
      omega
  · right
    obtain ⟨w', hw, hs⟩ := undoFund_same B hf hh
    have hu' : undoFund T ({ s with world := w }.log (.funded m.account m.amount)).world m = some w' := hw
    rw [h, tryUndoFund_eq hu']
    refine ⟨⟨hl, hs, hk _, hl⟩, fun a => ?_⟩
    show 0 + ((if m.account = a then m.amount else 0) + total (fundedTo a) s) + total (undoneTo a) s =
      total (fundedTo a) s + ((if m.account = a then m.amount else 0) + (0 + total (undoneTo a) s)) + _
    rw [ite_self]
    omega

/-- In every reachable state, whatever came before, a message for an account ends in exactly one of
three ways. -/
theorem processConversion_all_or_nothing (w : T.World) (ops : List (Op T))
    (m : ConversionMessage A) (hs : s = run step (State.genesis T w) ops)
    (hs' : s' = processConversion s m) :
    (pending s m).account = m.account ∧
      (Ignored s s' m ∨
        Processed B s s' (pending s m) ∧ Traced s s' m.account (pending s m).amount ∨
        Postponed B s s' (pending s m) ∧ Traced s s' m.account 0) ∧
      ¬ (Ignored s s' m ∧ Processed B s s' (pending s m)) ∧
      ¬ (Ignored s s' m ∧ Postponed B s s' (pending s m)) ∧
      ¬ (Processed B s s' (pending s m) ∧ Postponed B s s' (pending s m)) := by
  have hk : Kept s := by
    rw [hs]
    exact run_kept w ops
  have ha := hk.pending m
  refine ⟨ha, ?_, ?_, ?_, ?_⟩
  · rw [hs']
    unfold processConversion
    split
    · next locked hl =>
      refine Or.inl ⟨?_, rfl⟩
      rw [hl]
      exact Option.some_ne_none _
    · next hl =>
      -- The message kept for the account is taken out before the pending one is taken up.
      rw [← ha] at hl
      have hu : (s.unprocessedConversion.erase m.account).lookup (pending s m).account =
          none := by
        rw [ha]
        exact AList.lookup_erase _ _
      rcases processPending_outcome B (s := { s with
          unprocessedConversion := s.unprocessedConversion.erase m.account }) hl hu with
        ⟨h, ht⟩ | ⟨h, ht⟩
      · exact Or.inr (Or.inl ⟨⟨h.unlocked, h.funded, h.unkept⟩, ha ▸ ht⟩)
      · exact Or.inr (Or.inr ⟨⟨h.unlocked, h.same, h.kept, h.unrecorded⟩, ha ▸ ht⟩)
  · rintro ⟨hg, hp⟩
    have hn := hp.unlocked
    rw [ha] at hn
    exact hg.locked hn
  · rintro ⟨hg, ho⟩
    have hn := ho.unlocked
    rw [ha] at hn
    exact hg.locked hn
  · rintro ⟨hp, ho⟩
    have hu := hp.unkept
    rw [ho.kept] at hu
    cases hu

def fullAccount : State ledgerMock :=
  let full : Account 1 16 :=
    ⟨0, 0, 0, 0, 1, 16, fun _ _ => rfl, fun _ => Nat.succ_pos 15, fun _ => .inl Nat.one_pos⟩
  run step (State.genesis ledgerMock (Function.update ledgerFunds 5 full)) [.block]

theorem processConversion_all_or_nothing_fullAccount :
    (∃ w, fund ledgerMock fullAccount.world ⟨5, 250⟩ = some w ∧
        ledgerMock.hold w 5 (holdAmount ledgerMock w 250 5) = none) ∧
      Postponed ledgerBalances fullAccount (processConversion fullAccount ⟨5, 250⟩) ⟨5, 250⟩ ∧
      Traced fullAccount (processConversion fullAccount ⟨5, 250⟩) 5 0 := by
  have hf : (fund ledgerMock fullAccount.world ⟨5, 250⟩).map (fun w =>
      (ledgerMock.hold w 5 (holdAmount ledgerMock w 250 5)).isNone) = some true := by
    decide +kernel
  obtain ⟨w, hw, hn⟩ := Option.map_eq_some_iff.mp hf
  refine ⟨⟨w, hw, Option.isNone_iff_eq_none.mp hn⟩, ?_⟩
  obtain ⟨-, hi | ⟨hp, -⟩ | ho, -⟩ := processConversion_all_or_nothing ledgerBalances _ [.block] ⟨5, 250⟩
    (s := fullAccount) rfl rfl
  · exact absurd (by decide +kernel) hi.locked
  · exact absurd hp.unkept (by decide +kernel)
  · exact ho

end Acurast.TokenConversion

import Acurast.Base.Balances
import Acurast.TokenConversion.Received

/-! The currency as the runtimes configure it: the balances pallet, seen through a ledger of
accounts. The hold told apart in the accounts is the one placed for conversions. -/

namespace Acurast.TokenConversion

open Base

def Preservation.keep : Preservation → Keep
  | .expendable => .expendable
  | .protect => .protect
  | .preserve => .preserve

/-- The currency is the balances pallet. Nothing but `hold`, `release_all` and `slash` touches what
is on hold for conversions. -/
structure OnBalances {A : Type} [DecidableEq A] (T : Config A) where
  maxConsumers : ℕ
  ledger : T.World → Ledger A T.minimumBalance maxConsumers
  transfer : ∀ w source dest amount preservation,
    (T.transfer w source dest amount preservation).map ledger =
      (ledger w).transfer source dest amount preservation.keep
  hold : ∀ w who amount,
    (T.hold w who amount).map ledger = (ledger w).change who (Account.hold · amount)
  releaseAll : ∀ w who,
    (T.releaseAll w who).map ledger = (ledger w).change who fun x => x.release x.onHold
  withdraw : ∀ w who amount, (T.withdraw w who amount).map (fun r => (ledger r.1, r.2)) =
      ((ledger w).change who (Account.withdraw · amount .preserve)).map (·, amount)
  slashHeld : ∀ w who amount,
    (ledger w).change who (Account.slash · amount) = some (ledger (T.slashHeld w who amount).1) ∧
      (T.slashHeld w who amount).2.2 = amount - min amount (ledger w who).onHold
  burnFrom : ∀ {w w' who amount burned}, T.burnFrom w who amount = some (w', burned) →
    ∀ a, (ledger w' a).onHold = (ledger w a).onHold
  sendMessage : ∀ {w w' request replaced}, T.sendMessage w request = some (w', replaced) →
    ∀ a, (ledger w' a).onHold = (ledger w a).onHold
  onSlash : ∀ w imbalance a, (ledger (T.onSlash w imbalance) a).onHold = (ledger w a).onHold

namespace OnBalances

variable {A : Type} [DecidableEq A] {T : Config A} (B : OnBalances T) {w w' : T.World}

variable {amount amt : ℕ} {dest source who : A} {preservation : Preservation}

theorem transfer_some (h : T.transfer w source dest amt preservation = some w') :
    (B.ledger w).transfer source dest amt preservation.keep = some (B.ledger w') := by
  rw [← B.transfer, h]
  rfl

theorem transfer_isSome {l : Ledger A T.minimumBalance B.maxConsumers}
    (h : (B.ledger w).transfer source dest amt preservation.keep = some l) :
    ∃ w', T.transfer w source dest amt preservation = some w' ∧ B.ledger w' = l := by
  rw [← B.transfer] at h
  exact Option.map_eq_some_iff.mp h

theorem hold_some (h : T.hold w who amt = some w') : ∃ x, (B.ledger w who).hold amt = some x ∧
      B.ledger w' = Function.update (B.ledger w) who x := by
  have hc := B.hold w who amt
  rw [h] at hc
  exact Ledger.change_eq_some hc.symm

theorem hold_none (h : T.hold w who amt = none) : (B.ledger w who).hold amt = none := by
  have hc := B.hold w who amt
  rw [h] at hc
  exact Ledger.change_eq_none.mp hc.symm

theorem releaseAll_some (h : T.releaseAll w who = some w') :
    ∃ x, (B.ledger w who).release (B.ledger w who).onHold = some x ∧
      B.ledger w' = Function.update (B.ledger w) who x := by
  have hc := B.releaseAll w who
  rw [h] at hc
  exact Ledger.change_eq_some hc.symm

theorem withdraw_some {imbalance : ℕ} (h : T.withdraw w who amt = some (w', imbalance)) :
    imbalance = amt ∧ ∃ x, (B.ledger w who).withdraw amt .preserve = some x ∧
      B.ledger w' = Function.update (B.ledger w) who x := by
  have hc := B.withdraw w who amt
  rw [h] at hc
  obtain ⟨l, hl, hq⟩ := Option.map_eq_some_iff.mp hc.symm
  cases hq
  exact ⟨rfl, Ledger.change_eq_some hl⟩

theorem slashHeld_fst (w : T.World) (who : A) (amt : ℕ) :
    ∃ x, (B.ledger w who).slash amt = some x ∧
      B.ledger (T.slashHeld w who amt).1 = Function.update (B.ledger w) who x :=
  Ledger.change_eq_some (B.slashHeld w who amt).1

def SameHolds (w w' : T.World) : Prop := ∀ a, (B.ledger w' a).onHold = (B.ledger w a).onHold

theorem sends : Sends T B.SameHolds where
  refl _ _ := rfl
  trans h h' a := (h' a).trans (h a)
  transfer h a := (Ledger.transfer_onHold (B.transfer_some h) a).1
  burnFrom h := B.burnFrom h
  sendMessage h := B.sendMessage h

end OnBalances

section Mock

def slashOnHold (l : Ledger ℕ 1 16) (who amount : ℕ) : Ledger ℕ 1 16 :=
  (l.change who (Account.slash · amount)).getD l

def ledgerMock : Config ℕ where
  __ := mock
  World := Ledger ℕ 1 16
  minimumBalance := 1
  balance := fun l who => (l who).free
  reducibleBalance := fun l who preservation => (l who).reducible preservation.keep
  burnFrom := fun l who amount =>
    (l.change who (Account.withdraw · amount .expendable)).map (·, amount)
  transfer := fun l source dest amount preservation => l.transfer source dest amount preservation.keep
  hold := fun l who amount => l.change who (Account.hold · amount)
  releaseAll := fun l who => l.change who fun x => x.release x.onHold
  withdraw := fun l who amount => (l.change who (Account.withdraw · amount .preserve)).map (·, amount)
  onSlash := fun l _ => l
  slashHeld := fun l who amount =>
    (slashOnHold l who amount, min amount (l who).onHold, amount - min amount (l who).onHold)
  sendMessage := fun l _ => some (l, none)

theorem change_slash (l : Ledger ℕ 1 16) (who amt : ℕ) :
    l.change who (Account.slash · amt) = some (slashOnHold l who amt) := by
  obtain ⟨x, hx, -⟩ := Account.slash_eq_some (l who) amt
  have hc : l.change who (Account.slash · amt) = some (Function.update l who x) := by
    rw [Ledger.change, hx]
    rfl
  rw [slashOnHold, hc]
  rfl

def ledgerBalances : OnBalances ledgerMock where
  maxConsumers := 16
  ledger := fun l => l
  transfer _ _ _ _ _ := Option.map_id'
  hold _ _ _ := Option.map_id'
  releaseAll _ _ := Option.map_id'
  withdraw _ _ _ := Option.map_id'
  slashHeld l who amount := ⟨change_slash l who amount, rfl⟩
  burnFrom := by
    intro l l' who amount burned h
    obtain ⟨l₁, hl₁, heq⟩ := Option.map_eq_some_iff.mp h
    cases heq
    exact Ledger.change_withdraw_onHold hl₁
  sendMessage := by
    intro l l' request replaced h a
    cases h
    rfl
  onSlash _ _ _ := rfl

def ledgerFunds : ledgerMock.World := Function.update (fun _ => Account.plain 0) 0 (Account.plain 1000)

theorem ledgerFunds_onHold (a : ℕ) : (ledgerBalances.ledger ledgerFunds a).onHold = 0 := by
  change (Function.update (fun _ => Account.plain 0) 0 (Account.plain 1000) a).onHold = 0
  rcases eq_or_ne a 0 with rfl | hn
  · rfl
  · rw [Function.update_of_ne hn]
    rfl

end Mock

end Acurast.TokenConversion

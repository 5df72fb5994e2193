import Acurast.TokenClaim.Vesting

/-! When a claim is paid in full. The rate is rounded down when the claim is made and small payments
are refused, so the duration alone does not settle it. -/

namespace Acurast.TokenClaim

open Base

variable {A : Type} [DecidableEq A] {T : Config A} {s s' : State T}

def Transfers (T : Config A) : Prop :=
  ∀ w source dest amount, T.minimumBalance ≤ amount → amount ≤ T.transferable w source →
    ∃ w', T.transfer w source dest amount = some w'

def PaysRest (s : State T) (origin : Origin A) (call : Call T) (c : Claim A) : Prop :=
  ∃ s', dispatch s origin call = .ok s' ∧ c.transferred s' = c.transferred s + c.remaining s ∧
    c.remaining s' = 0

def Payable (s : State T) (c : Claim A) : Prop :=
  c.amount ≤ c.rate * (s.blockNumber - c.start) ∧ T.minimumBalance ≤ c.remaining s

variable {c : Claim A}

theorem exists_schedule (h : 0 < c.remaining s) :
    ∃ v, schedule s c.claimType c.destination c.claimer = some v ∧ c.remaining s = v.remaining := by
  cases hv : schedule s c.claimType c.destination c.claimer with
  | none =>
    rw [Claim.remaining, hv] at h
    exact absurd h (Nat.lt_irrefl 0)
  | some v => exact ⟨v, rfl, by rw [Claim.remaining, hv]; rfl⟩

theorem Vests.vestable_eq_remaining {v : VestingInfo A} (h : Vests s c)
    (hv : schedule s c.claimType c.destination c.claimer = some v) :
    v.vestable s.blockNumber = v.remaining ↔ c.amount ≤ c.rate * (s.blockNumber - c.start) := by
  have ha := h.transferred_add hv
  have hs : c.transferred s + v.remaining = c.amount := (h.running v hv).2.2.2.2
  omega

theorem Vests.remaining_eq (h : Vests s c) : c.remaining s = c.amount - c.transferred s := by
  have hs := h.add_remaining
  omega

theorem mock_transfers : Transfers mock := by
  intro w src dest x _ hl
  exact ⟨_, if_pos hl⟩

def askForThree : Call mock := .multiVest 0 (some (4 : ℕ)) (some (3 : ℕ))

theorem asksFor_three : AsksFor (.signed 5) askForThree claimOfThree :=
  ⟨5, some (4 : ℕ), some (3 : ℕ), rfl, rfl, rfl, rfl⟩

def tooLittleLeft : State mock := run step (State.genesis mock purses) (afterTenBlocks ++ [.block])

def unpaid : List (Op mock) :=
  [.dispatch .root (.createClaimType ⟨1, 10⟩),
    .dispatch (.signed 3) (.multiClaim 0 allowance (4 : ℕ)),
    .block, .block, .block, .block, .block, .block, .block, .block, .block, .block, .block]

end Acurast.TokenClaim

import Acurast.Base.FixedPoint

/-! Beta reputation with a discount: every success and every failure fades by the factor `lambda`. -/

namespace Acurast.Marketplace

open Base

def lambda : FixedU128 := 98 * 10 ^ 16

def lambdaInv : FixedU128 := FixedU128.one - lambda

def lambdaF : FixedU128 := FixedU128.one * FixedU128.div / lambdaInv

def maxReputation : FixedU128 :=
  (lambdaF + FixedU128.one) * FixedU128.div / (lambdaF + 2 * FixedU128.one)

structure BetaParameters where
  r : FixedU128
  s : FixedU128
  deriving DecidableEq, Inhabited

namespace BetaReputation

def normalize (params : BetaParameters) : Option Permill := do
  let successes ← checkedAdd 128 params.r FixedU128.one
  let total ← checkedAdd 128 params.r params.s
  let total ← checkedAdd 128 total (2 * FixedU128.one)
  let share ← FixedU128.checkedDiv successes total
  let scaled ← FixedU128.checkedDiv share maxReputation
  FixedU128.tryIntoPerThing scaled

def weight (jobReward : ℕ) (avgReward : FixedU128) : Option FixedU128 := do
  let jobReward := FixedU128.saturatingFromInteger jobReward
  let total ← checkedAdd 128 avgReward jobReward
  FixedU128.checkedDiv jobReward total

def gain (w power : FixedU128) : Option FixedU128 := do
  let lost ← checkedSub FixedU128.one power
  let sum ← FixedU128.checkedDiv lost lambdaInv
  FixedU128.checkedMul w sum

def update (params : BetaParameters) (successes failures jobReward avgReward : ℕ) :
    Option BetaParameters := do
  let w ← weight jobReward (FixedU128.saturatingFromInteger avgReward)
  let lambdaPowSuccesses := FixedU128.saturatingPow lambda successes
  let lambdaPowFailures := FixedU128.saturatingPow lambda failures
  let bonus ← gain w lambdaPowSuccesses
  let r ← FixedU128.checkedMul params.r lambdaPowSuccesses
  let r ← checkedAdd 128 r bonus
  let r ← FixedU128.checkedMul r lambdaPowFailures
  let malus ← gain w lambdaPowFailures
  let s ← FixedU128.checkedMul params.s lambdaPowSuccesses
  let s ← FixedU128.checkedMul s lambdaPowFailures
  let s ← checkedAdd 128 s malus
  pure ⟨r, s⟩

end BetaReputation
end Acurast.Marketplace

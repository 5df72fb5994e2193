import Acurast.Base.Checked
import Acurast.Base.PerThing
import Mathlib.Data.Nat.Size

/-! Arithmetic of fixed-point numbers with eighteen decimals, rounded down throughout. -/

namespace Base.FixedU128

def one : FixedU128 := div

def saturatingFromInteger (n : ℕ) : FixedU128 := Base.saturatingMul 128 n div

def checkedMul (a b : FixedU128) : Option FixedU128 :=
  if a * b / div < 2 ^ 128 then some (a * b / div) else none

def saturatingMul (a b : FixedU128) : FixedU128 := min (a * b / div) (maxOf 128)

def saturatingMulInt (a : FixedU128) (n : ℕ) : ℕ := min (a * n / div) (maxOf 128)

def powLoop : ℕ → ℕ → FixedU128 → FixedU128 → FixedU128
  | 0, _, result, _ => result
  | n + 1, exp, result, powVal =>
    powLoop n (exp / 2) (if exp % 2 = 1 then saturatingMul result powVal else result)
      (saturatingMul powVal powVal)

def saturatingPow (a : FixedU128) (exp : ℕ) : FixedU128 :=
  powLoop (Nat.size (exp % 2 ^ 32)) (exp % 2 ^ 32) one a

def tryIntoPerThing {n : ℕ} (a : FixedU128) : Option (PerThing n) :=
  if one < a then none else some (PerThing.fromRational a div)

end Base.FixedU128

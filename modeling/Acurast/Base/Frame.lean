import Mathlib.Data.List.Basic

/-! What every pallet has: origins, bounded vectors, and extrinsics that change nothing when they
fail. -/

namespace Base

inductive Origin (A : Type) where
  | root
  | signed (who : A)
  deriving DecidableEq

def Origin.signer {A : Type} : Origin A → Option A
  | .root => none
  | .signed who => some who

abbrev BoundedVec (α : Type) (n : ℕ) := { l : List α // l.length ≤ n }

def BoundedVec.singleton {α : Type} {n : ℕ} (x : α) : BoundedVec α (n + 1) := ⟨[x], Nat.le_add_left 1 n⟩

inductive Pays where
  | yes
  | no
  deriving DecidableEq

section Transact

variable {ε S : Type}

/-- A call's state changes are kept only if it succeeds. -/
def transact (s : S) : Except ε S → S
  | .ok s' => s'
  | .error _ => s

theorem transact_induction {P : S → Prop} {s : S} {r : Except ε S} (hs : P s)
    (ho : ∀ s', r = .ok s' → P s') : P (transact s r) := by
  cases r with
  | ok s' => exact ho s' rfl
  | error e => exact hs

end Transact

end Base

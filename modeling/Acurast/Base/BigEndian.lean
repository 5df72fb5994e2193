import Mathlib.Algebra.Order.Ring.Nat
import Mathlib.Data.List.Induction
import Mathlib.Tactic.Ring

/-! Numbers as a fixed count of bytes, the most significant one first or last. -/

namespace Base

def bigEndian : ℕ → ℕ → List UInt8
  | 0, _ => []
  | width + 1, n => bigEndian width (n / 256) ++ [UInt8.ofNat n]

def ofBigEndian (bytes : List UInt8) : ℕ := bytes.foldl (fun n byte => 256 * n + byte.toNat) 0

@[simp] theorem length_bigEndian (width n : ℕ) : (bigEndian width n).length = width := by
  induction width generalizing n with
  | zero => rfl
  | succ width ih => rw [bigEndian, List.length_append, ih, List.length_singleton]

theorem ofBigEndian_append_singleton (bs : List UInt8) (byte : UInt8) :
    ofBigEndian (bs ++ [byte]) = 256 * ofBigEndian bs + byte.toNat := by
  rw [ofBigEndian, List.foldl_append]
  rfl

theorem ofBigEndian_bigEndian (width n : ℕ) : ofBigEndian (bigEndian width n) = n % 256 ^ width := by
  induction width generalizing n with
  | zero => rw [pow_zero, Nat.mod_one, bigEndian, ofBigEndian, List.foldl_nil]
  | succ width ih =>
    have hb : (UInt8.ofNat n).toNat = n % 256 := UInt8.toNat_ofNat'
    rw [bigEndian, ofBigEndian_append_singleton, ih, hb, pow_succ', Nat.mod_mul]
    exact Nat.add_comm _ _

theorem bigEndian_ofBigEndian (bytes : List UInt8) :
    bigEndian bytes.length (ofBigEndian bytes) = bytes := by
  induction bytes using List.reverseRecOn with
  | nil => rfl
  | append_singleton bytes byte ih =>
    have hb : byte.toNat < 256 := byte.toNat_lt
    have hr : (256 * ofBigEndian bytes + byte.toNat) / 256 = ofBigEndian bytes := by omega
    have hl : UInt8.ofNat (256 * ofBigEndian bytes + byte.toNat) = byte := by
      apply UInt8.toNat.inj
      rw [UInt8.toNat_ofNat']
      omega
    rw [ofBigEndian_append_singleton, List.length_append, List.length_singleton, bigEndian, hr,
      hl, ih]

theorem bigEndian_inj {width n m : ℕ} (hn : n < 256 ^ width) (hm : m < 256 ^ width)
    (h : bigEndian width n = bigEndian width m) : n = m := by
  have hv := congrArg ofBigEndian h
  rwa [ofBigEndian_bigEndian, ofBigEndian_bigEndian, Nat.mod_eq_of_lt hn, Nat.mod_eq_of_lt hm] at hv

def littleEndian (width n : ℕ) : List UInt8 := (bigEndian width n).reverse

@[simp] theorem length_littleEndian (width n : ℕ) : (littleEndian width n).length = width := by
  rw [littleEndian, List.length_reverse, length_bigEndian]

def ofLittleEndian (bytes : List UInt8) : ℕ := ofBigEndian bytes.reverse

theorem ofLittleEndian_littleEndian (width n : ℕ) :
    ofLittleEndian (littleEndian width n) = n % 256 ^ width := by
  rw [ofLittleEndian, littleEndian, List.reverse_reverse, ofBigEndian_bigEndian]

end Base

import Acurast.Base.BigEndian

/-! Readers that take a value from the front of a byte string, and the SCALE encodings of numbers
and byte strings, which they read back. -/

namespace Base

abbrev Reader := StateT (List UInt8) Option

def Reads {α : Type} (reader : Reader α) (bytes : List UInt8) (a : α) : Prop :=
  ∀ rest, reader (bytes ++ rest) = some (a, rest)

namespace Reader

variable {α β : Type}

variable {b : β} {f : α → Reader β} {input rest bytes bs : List UInt8} {reader : Reader α} {a : α}
  {n : ℕ}

theorem bind_eq_some : (reader >>= f) input = some (b, rest) ↔
      ∃ a middle, reader input = some (a, middle) ∧ f a middle = some (b, rest) := by
  show (reader input).bind (fun p => f p.1 p.2) = some (b, rest) ↔ _
  rw [Option.bind_eq_some_iff]
  exact ⟨fun ⟨p, hp, hf⟩ => ⟨p.1, p.2, hp, hf⟩, fun ⟨a, middle, hp, hf⟩ => ⟨(a, middle), hp, hf⟩⟩

theorem pure_eq_some {b : α} :
    (pure a : Reader α) input = some (b, rest) ↔ a = b ∧ input = rest := by
  show some (a, input) = some (b, rest) ↔ _
  rw [Option.some.injEq, Prod.mk.injEq]

theorem reads_pure (a : α) : Reads (pure a : Reader α) [] a := fun _ => rfl

theorem reads_bind {bytes' : List UInt8} (h : Reads reader bs a) (h' : Reads (f a) bytes' b) :
    Reads (reader >>= f) (bs ++ bytes') b := by
  intro rest
  rw [bind_eq_some]
  refine ⟨a, bytes' ++ rest, ?_, h' rest⟩
  rw [List.append_assoc]
  exact h (bytes' ++ rest)

theorem reads_map (h : Reads reader bs a) (f : α → β) :
    Reads (reader >>= fun a => pure (f a)) bs (f a) := by
  rw [← List.append_nil bs]
  exact reads_bind h (reads_pure (f a))

def take (n : ℕ) : Reader (List UInt8) := fun input =>
  if n ≤ input.length then some (input.take n, input.drop n) else none

theorem reads_take (bytes : List UInt8) : Reads (take bytes.length) bytes bytes := by
  intro rest
  have hl : bytes.length ≤ (bytes ++ rest).length := by
    rw [List.length_append]
    exact Nat.le_add_right _ _
  rw [take, if_pos hl, List.take_left, List.drop_left]

theorem length_of_take (h : take n input = some (bs, rest)) :
    input.length = n + rest.length := by
  unfold take at h
  split_ifs at h with hl
  cases h
  rw [List.length_drop]
  omega

def uint (width : ℕ) : Reader ℕ := do
  let bytes ← take width
  pure (ofLittleEndian bytes)

theorem reads_uint (width n : ℕ) : Reads (uint width) (littleEndian width n) (n % 256 ^ width) := by
  have ht := reads_take (littleEndian width n)
  rw [length_littleEndian] at ht
  have hr := reads_map ht ofLittleEndian
  rwa [ofLittleEndian_littleEndian] at hr

theorem length_of_uint {width : ℕ} (h : uint width input = some (n, rest)) :
    input.length = width + rest.length := by
  obtain ⟨bs, middle, ht, hp⟩ := bind_eq_some.mp h
  rw [← (pure_eq_some.mp hp).2]
  exact length_of_take ht

def bits (w : ℕ) : Reader (BitVec w) := do
  let n ← uint (w / 8)
  pure (BitVec.ofNat w n)

def within (lower upper n : ℕ) : Reader ℕ := fun input =>
  if lower ≤ n ∧ n < upper then some (n, input) else none

theorem reads_within {lower upper : ℕ} (hl : lower ≤ n) (hu : n < upper) :
    Reads (within lower upper n) [] n := by
  intro rest
  exact if_pos ⟨hl, hu⟩

def compact : Reader ℕ := do
  let first ← uint 1
  match first % 4 with
  | 0 => within 0 (2 ^ 6) (first / 4)
  | 1 => do
    let second ← uint 1
    within (2 ^ 6) (2 ^ 14) ((first + 256 * second) / 4)
  | 2 => do
    let others ← uint 3
    within (2 ^ 14) (2 ^ 30) ((first + 256 * others) / 4)
  | _ => do
    let _ ← within 3 4 first
    let n ← uint 4
    within (2 ^ 30) (2 ^ 32) n

def byteString : Reader (List UInt8) := do
  let n ← compact
  take n

end Reader

def encodeCompact (n : ℕ) : List UInt8 :=
  if n < 2 ^ 6 then littleEndian 1 (4 * n)
  else if n < 2 ^ 14 then littleEndian 2 (4 * n + 1)
  else if n < 2 ^ 30 then littleEndian 4 (4 * n + 2)
  else littleEndian 1 3 ++ littleEndian 4 n

def encodeBits {w : ℕ} (x : BitVec w) : List UInt8 := littleEndian (w / 8) x.toNat

def encodeByteString (bytes : List UInt8) : List UInt8 := encodeCompact bytes.length ++ bytes

open Reader

theorem reads_bits {w : ℕ} (hw : 256 ^ (w / 8) = 2 ^ w) (x : BitVec w) :
    Reads (bits w) (encodeBits x) x := by
  have hr := reads_map (reads_uint (w / 8) x.toNat) (BitVec.ofNat w)
  have hv : BitVec.ofNat w (x.toNat % 256 ^ (w / 8)) = x := by
    rw [hw, Nat.mod_eq_of_lt x.isLt, BitVec.ofNat_toNat, BitVec.setWidth_eq]
  rwa [hv] at hr

theorem reads_compact {n : ℕ} (h : n < 2 ^ 32) : Reads compact (encodeCompact n) n := by
  unfold encodeCompact
  split_ifs with h6 h14 h30
  · have hf := reads_uint 1 (4 * n)
    have hm : 4 * n % 256 ^ 1 % 4 = 0 := by omega
    have hv : 4 * n % 256 ^ 1 / 4 = n := by omega
    have hr := reads_within (Nat.zero_le n) h6
    apply reads_bind hf
    simp only [hm, hv]
    exact hr
  · have hf := reads_uint 1 (4 * n + 1)
    have hs := reads_uint 1 ((4 * n + 1) / 256)
    have hm : (4 * n + 1) % 256 ^ 1 % 4 = 1 := by omega
    have hv : ((4 * n + 1) % 256 ^ 1 + 256 * ((4 * n + 1) / 256 % 256 ^ 1)) / 4 = n := by omega
    have hr := reads_within (not_lt.mp h6) h14
    apply reads_bind hf
    simp only [hm]
    apply reads_bind hs
    rw [hv]
    exact hr
  · have hf := reads_uint 1 (4 * n + 2)
    have ho := reads_uint 3 ((4 * n + 2) / 256)
    have hm : (4 * n + 2) % 256 ^ 1 % 4 = 2 := by omega
    have hv : ((4 * n + 2) % 256 ^ 1 + 256 * ((4 * n + 2) / 256 % 256 ^ 3)) / 4 = n := by omega
    have hr := reads_within (not_lt.mp h14) h30
    apply reads_bind hf
    simp only [hm]
    apply reads_bind ho
    rw [hv]
    exact hr
  · have hf := reads_uint 1 3
    have hn := reads_uint 4 n
    have hv : n % 256 ^ 4 = n := by omega
    have ha := reads_within (le_refl 3) (Nat.lt_succ_self 3)
    have hr := reads_within (not_lt.mp h30) h
    apply reads_bind hf
    apply reads_bind ha
    apply reads_bind hn
    rw [hv]
    exact hr

theorem reads_byteString {bytes : List UInt8} (h : bytes.length < 2 ^ 32) :
    Reads byteString (encodeByteString bytes) bytes :=
  reads_bind (reads_compact h) (reads_take bytes)

theorem length_le_encodeByteString (bs : List UInt8) : bs.length ≤ (encodeByteString bs).length := by
  rw [encodeByteString, List.length_append]
  exact Nat.le_add_left _ _

end Base

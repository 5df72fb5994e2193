import Mathlib.Data.List.Basic
import Mathlib.Tactic.Common

/-! Base64 with the standard and the URL-safe alphabet. The encoding of a byte string determines the
string, its length depends only on the length of the string, and it has no line break in it. -/

namespace Base.Base64

def sextets : List UInt8 → List ℕ
  | [] => []
  | [a] => [a.toNat / 4, a.toNat % 4 * 16]
  | [a, b] => [a.toNat / 4, a.toNat % 4 * 16 + b.toNat / 16, b.toNat % 16 * 4]
  | a :: b :: c :: l =>
    a.toNat / 4 :: (a.toNat % 4 * 16 + b.toNat / 16) :: (b.toNat % 16 * 4 + c.toNat / 64) ::
      c.toNat % 64 :: sextets l

def symbol (c62 c63 : UInt8) (n : ℕ) : UInt8 :=
  if n < 26 then UInt8.ofNat (65 + n)
  else if n < 52 then UInt8.ofNat (71 + n)
  else if n < 62 then UInt8.ofNat (n - 4)
  else if n = 62 then c62
  else c63

def encodeStandard (l : List UInt8) : List UInt8 :=
  (sextets l).map (symbol 43 47) ++ List.replicate ((3 - l.length % 3) % 3) 61

def encodeUrlSafeNoPad (l : List UInt8) : List UInt8 := (sextets l).map (symbol 45 95)

theorem sextets_lt (l : List UInt8) : ∀ n ∈ sextets l, n < 64 := by
  induction l using sextets.induct with
  | case1 => simp [sextets]
  | case2 a =>
    have ha := a.toNat_lt
    simp only [sextets, List.forall_mem_cons]
    exact ⟨by omega, by omega, List.forall_mem_nil _⟩
  | case3 a b =>
    have ha := a.toNat_lt
    have hb := b.toNat_lt
    simp only [sextets, List.forall_mem_cons]
    exact ⟨by omega, by omega, by omega, List.forall_mem_nil _⟩
  | case4 a b c l ih =>
    have ha := a.toNat_lt
    have hb := b.toNat_lt
    have hc := c.toNat_lt
    simp only [sextets, List.forall_mem_cons]
    exact ⟨by omega, by omega, by omega, by omega, ih⟩

theorem length_sextets (l : List UInt8) : (sextets l).length = (l.length * 4 + 2) / 3 := by
  induction l using sextets.induct with
  | case1 => rfl
  | case2 a => simp [sextets]
  | case3 a b => simp [sextets]
  | case4 a b c l ih =>
    simp only [sextets, List.length_cons, ih]
    omega

theorem sextets_injective : Function.Injective sextets := by
  intro l
  induction l using sextets.induct with
  | case1 =>
    intro l' h
    have hl := congrArg List.length h
    rw [length_sextets, length_sextets] at hl
    cases l' with
    | nil => rfl
    | cons a l' =>
      simp only [List.length_cons, List.length_nil] at hl
      omega
  | case2 a =>
    intro l' h
    match l', h with
    | [b], h =>
      simp only [sextets, List.cons.injEq, and_true] at h
      rw [show a = b from UInt8.toNat.inj (by omega)]
    | [], h | [_, _], h => simp [sextets] at h
    | _ :: _ :: _ :: _, h => simp [sextets] at h
  | case3 a b =>
    intro l' h
    match l', h with
    | [c, d], h =>
      simp only [sextets, List.cons.injEq, and_true] at h
      have hb := b.toNat_lt
      have hd := d.toNat_lt
      rw [show a = c from UInt8.toNat.inj (by omega), show b = d from UInt8.toNat.inj (by omega)]
    | [], h | [_], h => simp [sextets] at h
    | _ :: _ :: _ :: _, h => simp [sextets] at h
  | case4 a b c l ih =>
    intro l' h
    match l', h with
    | d :: e :: f :: l', h =>
      simp only [sextets, List.cons.injEq] at h
      obtain ⟨h₀, h₁, h₂, h₃, hr⟩ := h
      have hb := b.toNat_lt
      have hc := c.toNat_lt
      have he := e.toNat_lt
      have hf := f.toNat_lt
      rw [show a = d from UInt8.toNat.inj (by omega), show b = e from UInt8.toNat.inj (by omega),
        show c = f from UInt8.toNat.inj (by omega), ih hr]
    | [], h | [_], h | [_, _], h => simp [sextets] at h

theorem symbol_standard : ∀ m < 64, ∀ n < 64, symbol 43 47 m = symbol 43 47 n → m = n := by
  decide +kernel

theorem symbol_urlSafe : ∀ m < 64, ∀ n < 64, symbol 45 95 m = symbol 45 95 n → m = n := by
  decide +kernel

theorem symbol_standard_ne : ∀ n < 64, symbol 43 47 n ≠ 61 ∧ symbol 43 47 n ≠ 10 := by
  decide +kernel

theorem map_inj_on {α β : Type*} {f : α → β} {p : α → Prop}
    (hf : ∀ a, p a → ∀ b, p b → f a = f b → a = b) {l l' : List α} (hl : ∀ a ∈ l, p a)
    (hl' : ∀ a ∈ l', p a) (h : l.map f = l'.map f) : l = l' := by
  induction l generalizing l' with
  | nil => simpa using h.symm
  | cons a l ih =>
    cases l' with
    | nil => simp at h
    | cons b l' =>
      rw [List.map_cons, List.map_cons, List.cons.injEq] at h
      rw [List.forall_mem_cons] at hl hl'
      rw [hf a hl.1 b hl'.1 h.1, ih hl.2 hl'.2 h.2]

theorem encodeUrlSafeNoPad_injective : Function.Injective encodeUrlSafeNoPad := by
  intro l l' h
  exact sextets_injective (map_inj_on symbol_urlSafe (sextets_lt l) (sextets_lt l') h)

theorem length_encodeUrlSafeNoPad (l : List UInt8) :
    (encodeUrlSafeNoPad l).length = (l.length * 4 + 2) / 3 := by
  rw [encodeUrlSafeNoPad, List.length_map, length_sextets]

theorem filter_encodeStandard (l : List UInt8) :
    (encodeStandard l).filter (· ≠ 61) = (sextets l).map (symbol 43 47) := by
  rw [encodeStandard, List.filter_append, List.filter_eq_self.mpr, List.filter_eq_nil_iff.mpr,
    List.append_nil]
  · intro a ha
    simp [List.eq_of_mem_replicate ha]
  · intro a ha
    obtain ⟨n, hn, rfl⟩ := List.mem_map.mp ha
    simpa using (symbol_standard_ne n (sextets_lt l n hn)).1

theorem encodeStandard_injective : Function.Injective encodeStandard := by
  intro l l' h
  have hs := congrArg (List.filter (· ≠ 61)) h
  rw [filter_encodeStandard, filter_encodeStandard] at hs
  exact sextets_injective (map_inj_on symbol_standard (sextets_lt l) (sextets_lt l') hs)

theorem newline_notMem_encodeStandard (l : List UInt8) : (10 : UInt8) ∉ encodeStandard l := by
  rw [encodeStandard, List.mem_append, not_or]
  constructor
  · intro h
    obtain ⟨n, hn, hs⟩ := List.mem_map.mp h
    exact (symbol_standard_ne n (sextets_lt l n hn)).2 hs
  · intro h
    exact absurd (List.eq_of_mem_replicate h) (by decide)

end Base.Base64

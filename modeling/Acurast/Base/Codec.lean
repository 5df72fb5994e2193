import Mathlib.Data.List.Basic
import Mathlib.Tactic.Common

/-! Encodings that are injective and of which none is a prefix of another one. What follows one can be told
from it, so they may be written one after the other. -/

namespace Base

variable {α β γ δ : Type*}

/-- Nothing that starts with an encoding starts with another one. -/
def PrefixFree (encode : α → List β) : Prop :=
  ∀ a a' xs xs', encode a ++ xs = encode a' ++ xs' → a = a' ∧ xs = xs'

theorem PrefixFree.injective {encode : α → List β} (h : PrefixFree encode) :
    Function.Injective encode := by
  intro a a' hq
  have ha : encode a ++ [] = encode a' ++ [] := congrArg (· ++ []) hq
  exact (h a a' [] [] ha).1

theorem PrefixFree.comp {encode : α → List β} (h : PrefixFree encode) {f : γ → α}
    (hf : Function.Injective f) : PrefixFree fun c => encode (f c) := by
  intro c c' xs xs' hq
  obtain ⟨hc, hr⟩ := h (f c) (f c') xs xs' hq
  exact ⟨hf hc, hr⟩

variable {encode' : γ → List β}

theorem PrefixFree.append {encode : α → List β} (h : PrefixFree encode) (h' : PrefixFree encode') :
    PrefixFree fun p : α × γ => encode p.1 ++ encode' p.2 := by
  rintro ⟨a, c⟩ ⟨a', c'⟩ xs xs' hq
  rw [List.append_assoc, List.append_assoc] at hq
  obtain ⟨rfl, ht⟩ := h a a' _ _ hq
  obtain ⟨rfl, hr⟩ := h' c c' xs xs' ht
  exact ⟨rfl, hr⟩

theorem PrefixFree.append_option {encode : α → List β} (h : PrefixFree encode)
    (h' : Function.Injective encode') (hn : ∀ c, encode' c ≠ []) {a a' : α} {o o' : Option γ}
    (hq : encode a ++ (o.map encode').getD [] = encode a' ++ (o'.map encode').getD []) :
    a = a' ∧ o = o' := by
  obtain ⟨ha, hr⟩ := h a a' _ _ hq
  refine ⟨ha, ?_⟩
  cases o with
  | none =>
    cases o' with
    | none => rfl
    | some c' => exact absurd hr.symm (hn c')
  | some c =>
    cases o' with
    | none => exact absurd hr (hn c)
    | some c' => exact congrArg some (h' hr)

def unary [OfNat β 0] [OfNat β 1] : ℕ → List β
  | 0 => [0]
  | n + 1 => 1 :: unary n

theorem unary_prefixFree [OfNat β 0] [OfNat β 1] (hn : (0 : β) ≠ 1) :
    PrefixFree (unary : ℕ → List β) := by
  intro n
  induction n with
  | zero =>
    intro n' xs xs' hq
    cases n' with
    | zero => exact ⟨rfl, (List.cons.inj hq).2⟩
    | succ n' => exact absurd (List.cons.inj hq).1 hn
  | succ n ih =>
    intro n' xs xs' hq
    cases n' with
    | zero => exact absurd (List.cons.inj hq).1.symm hn
    | succ n' =>
      obtain ⟨rfl, hr⟩ := ih n' xs xs' (List.cons.inj hq).2
      exact ⟨rfl, hr⟩

theorem unary_ne_nil [OfNat β 0] [OfNat β 1] (n : ℕ) : (unary n : List β) ≠ [] := by
  cases n <;> nofun

theorem lengthPrefixed_prefixFree {encode : ℕ → List β} (h : PrefixFree encode) :
    PrefixFree fun l : List β => encode l.length ++ l := by
  intro l l' xs xs' hq
  rw [List.append_assoc, List.append_assoc] at hq
  obtain ⟨hl, ht⟩ := h _ _ _ _ hq
  exact List.append_inj ht hl

end Base

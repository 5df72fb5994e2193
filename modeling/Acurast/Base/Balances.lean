import Mathlib.Tactic.Common
import Mathlib.Logic.Function.Basic
import Acurast.Base.Storage

/-! Accounts with free, held and frozen funds, an existential deposit and reference counts. An account
lives while a provider refers to it, and one with consumers, such as holds, cannot lose its last
provider. -/

namespace Base

/-- What a payment must leave behind: nothing, the account if the free balance is all that keeps it
alive, or the deposit in any case. -/
inductive Keep where
  | expendable | protect | preserve
  deriving DecidableEq

/-- An account over a deposit of `ed`, with at most `cap` consumers. Of its holds one is told apart
from the others. -/
structure Account (ed cap : ℕ) where
  free : ℕ
  onHold : ℕ
  otherHolds : ℕ
  frozen : ℕ
  otherProviders : ℕ
  consumers : ℕ
  no_dust : free < ed → onHold + otherHolds = 0 → free = 0
  consumes : 0 < onHold + otherHolds + frozen → 0 < consumers
  provided : 0 < consumers → 0 < otherProviders ∨ ed ≤ free
  deriving DecidableEq

namespace Account

def plain {cap : ℕ} (free : ℕ) : Account 1 cap where
  free := free
  onHold := 0
  otherHolds := 0
  frozen := 0
  otherProviders := 0
  consumers := 0
  no_dust h _ := Nat.lt_one_iff.mp h
  consumes h := absurd h (Nat.lt_irrefl 0)
  provided h := absurd h (Nat.lt_irrefl 0)

variable {ed cap : ℕ}

def reserved (x : Account ed cap) : ℕ := x.onHold + x.otherHolds

def providers (x : Account ed cap) : ℕ := x.otherProviders + if ed ≤ x.free then 1 else 0

abbrev CanDecProvider (x : Account ed cap) : Prop := x.consumers = 0 ∨ x.providers ≠ 1

def NeedsDeposit (x : Account ed cap) : Keep → Prop
  | .preserve => True
  | .protect => x.free ≠ 0 ∧ x.providers = 1
  | .expendable => x.free ≠ 0 ∧ ¬ x.CanDecProvider

instance (x : Account ed cap) : (keep : Keep) → Decidable (x.NeedsDeposit keep)
  | .preserve => isTrue trivial
  | .protect => inferInstanceAs (Decidable (x.free ≠ 0 ∧ x.providers = 1))
  | .expendable => inferInstanceAs (Decidable (x.free ≠ 0 ∧ ¬ x.CanDecProvider))

def reducibleOver (x : Account ed cap) (keep : Keep) (frozen : ℕ) : ℕ :=
  x.free - if x.NeedsDeposit keep then max frozen ed else frozen

def reducible (x : Account ed cap) (keep : Keep) : ℕ := x.reducibleOver keep (x.frozen - x.reserved)

def reducibleByForce (x : Account ed cap) (keep : Keep) : ℕ := x.reducibleOver keep 0

def consumersWith (x : Account ed cap) (onHold : ℕ) : ℕ :=
  if 0 < x.reserved + x.frozen then
    if 0 < onHold + x.otherHolds + x.frozen then x.consumers else x.consumers - 1
  else if 0 < onHold + x.otherHolds + x.frozen then x.consumers + 1 else x.consumers

/-- Sets the free and the held balance. What is left below the deposit is swept unless something is
on hold. -/
def set (x : Account ed cap) (free onHold : ℕ) : Option (Account ed cap) :=
  if h : x.consumersWith onHold ≤ max cap x.consumers ∧
      (x.consumersWith onHold = 0 ∨ 0 < x.otherProviders ∨ ed ≤ free) then
    some {
      free := if free < ed ∧ onHold + x.otherHolds = 0 then 0 else free
      onHold := onHold
      otherHolds := x.otherHolds
      frozen := x.frozen
      otherProviders := x.otherProviders
      consumers := x.consumersWith onHold
      no_dust := by
        intro hfree hheld
        split_ifs at hfree ⊢ with hswept
        · rfl
        · exact absurd ⟨hfree, hheld⟩ hswept
      consumes := by
        intro hpos
        have hbefore := x.consumes
        unfold consumersWith reserved
        rw [if_pos hpos]
        split_ifs with hdid
        · exact hbefore hdid
        · exact Nat.succ_pos _
      provided := by
        intro hpos
        rcases h.2 with hzero | hother | hfree
        · omega
        · exact Or.inl hother
        · rw [if_neg fun hswept => absurd hswept.1 (Nat.not_lt.mpr hfree)]
          exact Or.inr hfree }
  else none

abbrev CanWithdraw (x : Account ed cap) (amount : ℕ) (keep : Keep) : Prop :=
  amount = 0 ∨ amount ≤ x.reducible .expendable ∧
    (x.free - amount < ed → keep = .expendable ∧ x.CanDecProvider) ∧
    x.frozen ≤ x.free - amount + x.reserved

abbrev CanDeposit (x : Account ed cap) (amount : ℕ) : Prop := amount = 0 ∨ ed ≤ x.free + amount

def withdraw (x : Account ed cap) (amount : ℕ) (keep : Keep) : Option (Account ed cap) :=
  if amount ≤ x.reducible keep then x.set (x.free - amount) x.onHold else none

def hold (x : Account ed cap) (amount : ℕ) : Option (Account ed cap) :=
  if 0 < x.providers ∧ amount ≤ x.reducibleByForce .protect then
    x.set (x.free - amount) (x.onHold + amount)
  else none

def release (x : Account ed cap) (amount : ℕ) : Option (Account ed cap) :=
  if x.CanDeposit amount then
    x.set (x.free + min amount x.onHold) (x.onHold - min amount x.onHold)
  else none

def deposit (x : Account ed cap) (amount : ℕ) : Option (Account ed cap) :=
  if x.free + amount < ed then some x else x.set (x.free + amount) x.onHold

def mint (x : Account ed cap) (amount : ℕ) : Option (Account ed cap) :=
  if x.free + amount < ed then none else x.set (x.free + amount) x.onHold

def slash (x : Account ed cap) (amount : ℕ) : Option (Account ed cap) :=
  x.set x.free (x.onHold - min amount x.onHold)

variable {x y : Account ed cap} {free onHold amount amt : ℕ} {keep : Keep}

theorem consumersWith_self (x : Account ed cap) : x.consumersWith x.onHold = x.consumers := by
  unfold consumersWith reserved
  split_ifs with h <;> rfl

theorem set_eq_some (h : x.set free onHold = some y) :
    y.free = (if free < ed ∧ onHold + x.otherHolds = 0 then 0 else free) ∧ y.onHold = onHold ∧
      y.otherHolds = x.otherHolds ∧ y.frozen = x.frozen ∧
      y.otherProviders = x.otherProviders ∧ y.consumers = x.consumersWith onHold := by
  unfold set at h
  split at h
  · cases h
    exact ⟨rfl, rfl, rfl, rfl, rfl, rfl⟩
  · cases h

theorem set_isSome :
    (x.set free onHold).isSome = true ↔ x.consumersWith onHold ≤ max cap x.consumers ∧
      (x.consumersWith onHold = 0 ∨ 0 < x.otherProviders ∨ ed ≤ free) := by
  unfold set
  split
  · next h => exact iff_of_true rfl h
  · next h => exact iff_of_false Bool.false_ne_true h

theorem set_free_isSome :
    (x.set free x.onHold).isSome = true ↔ x.consumers = 0 ∨ 0 < x.otherProviders ∨ ed ≤ free := by
  rw [set_isSome, consumersWith_self]
  exact and_iff_right (le_max_right _ _)

structure Paid (x y : Account ed cap) (amount : ℕ) : Prop where
  free : y.free = x.free + amount
  onHold : y.onHold = x.onHold
  otherHolds : y.otherHolds = x.otherHolds
  frozen : y.frozen = x.frozen
  otherProviders : y.otherProviders = x.otherProviders
  consumers : y.consumers = x.consumers

theorem set_add_eq_some (ha : x.CanDeposit amount) :
    ∃ y, x.set (x.free + amount) x.onHold = some y ∧ Paid x y amount := by
  have hs : (x.set (x.free + amount) x.onHold).isSome = true := by
    rw [set_free_isSome]
    rcases Nat.eq_zero_or_pos x.consumers with hz | hp
    · exact Or.inl hz
    · rcases x.provided hp with ho | hf
      · exact Or.inr (Or.inl ho)
      · exact Or.inr (Or.inr (by omega))
  obtain ⟨y, hy⟩ := Option.isSome_iff_exists.mp hs
  obtain ⟨hf, hh, ht, hr, hpr, hc⟩ := set_eq_some hy
  rw [consumersWith_self] at hc
  refine ⟨y, hy, ?_, hh, ht, hr, hpr, hc⟩
  rw [hf]
  split_ifs with hw
  · -- Nothing is swept: an account below the deposit is empty, and a payment reaches the deposit.
    have hd := x.no_dust
    rcases ha with rfl | hre <;> omega
  · rfl

theorem hold_eq_some (h : x.hold amt = some y) :
    y.free + amt = x.free ∧ y.onHold = x.onHold + amt ∧ y.otherHolds = x.otherHolds := by
  unfold hold at h
  split_ifs at h with hc
  have hl : amt ≤ x.free := by
    have hr := hc.2
    unfold reducibleByForce reducibleOver at hr
    omega
  obtain ⟨hf, hh, ho, -⟩ := set_eq_some h
  refine ⟨?_, hh, ho⟩
  rw [hf]
  split_ifs with hs
  · have hd := x.no_dust
    omega
  · omega

theorem release_all_eq_some (h : x.release x.onHold = some y) :
    y.free = x.free + x.onHold ∧ y.onHold = 0 ∧ y.otherHolds = x.otherHolds := by
  unfold release at h
  split_ifs at h with hc
  rw [min_self, Nat.sub_self] at h
  obtain ⟨hf, hh, ho, -⟩ := set_eq_some h
  refine ⟨?_, hh, ho⟩
  rw [hf]
  split_ifs with hs
  · have hd := x.no_dust
    rcases hc with hz | hr <;> omega
  · rfl

theorem withdraw_preserve_eq_some (h : x.withdraw amt .preserve = some y) :
    y.free + amt = x.free ∧ y.onHold = x.onHold ∧ y.otherHolds = x.otherHolds := by
  unfold withdraw at h
  split_ifs at h with hc
  obtain ⟨hf, hh, ho, -⟩ := set_eq_some h
  have hn : x.NeedsDeposit .preserve := trivial
  rw [reducible, reducibleOver, if_pos hn] at hc
  refine ⟨?_, hh, ho⟩
  rw [hf]
  split_ifs with hs
  · have hu := x.no_dust
    omega
  · omega

theorem withdraw_onHold (h : x.withdraw amt keep = some y) : y.onHold = x.onHold := by
  unfold withdraw at h
  split_ifs at h
  exact (set_eq_some h).2.1

theorem deposit_le_of_withdraw_preserve (h : x.withdraw amt .preserve = some y)
    (hp : 0 < amt) : ed ≤ x.free := by
  unfold withdraw at h
  split_ifs at h with hc
  have hn : x.NeedsDeposit .preserve := trivial
  rw [reducible, reducibleOver, if_pos hn] at hc
  omega

theorem deposit_eq_some (x : Account ed cap) (amt : ℕ) :
    ∃ y, x.deposit amt = some y ∧ y.onHold = x.onHold ∧
      y.free = x.free + if ed ≤ x.free + amt then amt else 0 := by
  unfold deposit
  split_ifs with hl hr
  · exact absurd hr (Nat.not_le.mpr hl)
  · exact ⟨x, rfl, rfl, rfl⟩
  · obtain ⟨y, hy, hp⟩ := set_add_eq_some (x := x) (.inr (Nat.not_lt.mp hl))
    exact ⟨y, hy, hp.onHold, hp.free⟩
  · next hn => exact absurd (Nat.not_lt.mp hl) hn

theorem mint_onHold (h : x.mint amt = some y) : y.onHold = x.onHold := by
  unfold mint at h
  split_ifs at h
  exact (set_eq_some h).2.1

theorem consumersWith_le (h : onHold ≤ x.onHold) : x.consumersWith onHold ≤ x.consumers := by
  unfold consumersWith reserved
  split_ifs <;> omega

theorem release_eq_some (hc : x.CanDeposit amt) :
    ∃ y, x.release amt = some y ∧ y.onHold = x.onHold - min amt x.onHold := by
  have hl := x.consumersWith_le (Nat.sub_le x.onHold (min amt x.onHold))
  have hs : (x.set (x.free + min amt x.onHold)
      (x.onHold - min amt x.onHold)).isSome = true := by
    rw [set_isSome]
    refine ⟨hl.trans (le_max_right _ _), ?_⟩
    rcases Nat.eq_zero_or_pos (x.consumersWith (x.onHold - min amt x.onHold)) with hz | hp
    · exact Or.inl hz
    · rcases x.provided (hp.trans_le hl) with ho | hf
      · exact Or.inr (Or.inl ho)
      · exact Or.inr (Or.inr (Nat.le_add_right_of_le hf))
  obtain ⟨y, hy⟩ := Option.isSome_iff_exists.mp hs
  exact ⟨y, (if_pos hc).trans hy, (set_eq_some hy).2.1⟩

theorem slash_eq_some (x : Account ed cap) (amt : ℕ) :
    ∃ y, x.slash amt = some y ∧ y.onHold = x.onHold - min amt x.onHold := by
  have hl := x.consumersWith_le (Nat.sub_le x.onHold (min amt x.onHold))
  have hs : (x.slash amt).isSome = true := by
    rw [slash, set_isSome]
    refine ⟨hl.trans (le_max_right _ _), ?_⟩
    rcases Nat.eq_zero_or_pos (x.consumersWith (x.onHold - min amt x.onHold)) with hz | hp
    · exact Or.inl hz
    · exact Or.inr (x.provided (hp.trans_le hl))
  obtain ⟨y, hy⟩ := Option.isSome_iff_exists.mp hs
  exact ⟨y, hy, (set_eq_some hy).2.1⟩

theorem CanWithdraw.le_free (h : x.CanWithdraw amt keep) : amt ≤ x.free := by
  rcases h with rfl | ⟨hl, -⟩
  · exact Nat.zero_le _
  · unfold reducible reducibleOver at hl
    omega

theorem CanWithdraw.expendable (h : x.CanWithdraw amt keep) :
    x.CanWithdraw amt .expendable := by
  rcases h with hz | ⟨hl, hr, hf⟩
  · exact Or.inl hz
  · exact Or.inr ⟨hl, fun ht => ⟨rfl, (hr ht).2⟩, hf⟩

theorem CanWithdraw.deposit_le (h : x.CanWithdraw amount .protect) (hp : 0 < amount) :
    ed ≤ x.free - amount := by
  rcases h with hz | ⟨-, hf, -⟩
  · omega
  · by_contra hl
    have hk := (hf (Nat.lt_of_not_le hl)).1
    cases hk

variable {k : ℕ}

theorem Paid.unburdened (h : Paid x y amt) (hd : ed ≤ y.free) (hk : k ≤ amt)
    (hn : y.hold k = none) : y.reserved = 0 ∧ y.frozen = 0 := by
  obtain ⟨hf, hh, hot, hfr, ho, -⟩ := h
  have hon : y.providers = y.otherProviders + 1 := by
    rw [providers, if_pos hd]
  by_contra hb
  have hp : 0 < x.onHold + x.otherHolds + x.frozen := by
    unfold reserved at hb
    omega
  -- A burdened account was kept alive before the payment, so the deposit need not come out of it.
  have hr := x.provided (x.consumes hp)
  have hre : k ≤ y.reducibleByForce .protect := by
    unfold reducibleByForce reducibleOver
    split_ifs with hne
    · have hl : y.providers = 1 := hne.2
      omega
    · omega
  have ha : y.consumersWith (y.onHold + k) = y.consumers := by
    unfold consumersWith
    rw [if_pos (by unfold reserved; omega), if_pos (by omega)]
  have hs : (y.set (y.free - k) (y.onHold + k)).isSome = true := by
    rw [set_isSome, ha]
    refine ⟨le_max_right _ _, ?_⟩
    rcases hr with ht | hbe
    · exact Or.inr (Or.inl (by omega))
    · exact Or.inr (Or.inr (by omega))
  rw [hold, if_pos ⟨by omega, hre⟩] at hn
  rw [hn] at hs
  cases hs

theorem Paid.canWithdraw (h : Paid x y amt) (hc : x.CanDeposit amt) (hk : k ≤ amt)
    (hn : y.hold k = none) : y.CanWithdraw amt .expendable := by
  rcases Nat.eq_zero_or_pos amt with hz | hs
  · exact Or.inl hz
  have hr := h.free
  have hco := h.consumers
  have hpro := h.otherProviders
  have hd : ed ≤ y.free := by
    rcases hc with hz | ha <;> omega
  obtain ⟨hre, hf⟩ := h.unburdened hd hk hn
  have hp := x.provided
  have hon : y.providers = y.otherProviders + 1 := by
    rw [providers, if_pos hd]
  refine Or.inr ⟨?_, fun hl => ⟨rfl, ?_⟩, ?_⟩
  · unfold reducible reducibleOver
    split_ifs with hne
    · have hde := hne.2
      omega
    · omega
  · rcases Nat.eq_zero_or_pos y.consumers with hz | hcon
    · exact Or.inl hz
    · apply Or.inr
      rcases hp (by omega) with ho | hb <;> omega
  · omega

theorem Paid.set_back (h : Paid x y amt) :
    ∃ z, y.set (y.free - amt) y.onHold = some z ∧ z.free = x.free ∧ z.onHold = x.onHold ∧
      z.otherHolds = x.otherHolds := by
  have hb : y.free - amt = x.free := by
    rw [h.free, Nat.add_sub_cancel]
  have ho : (y.set (y.free - amt) y.onHold).isSome = true := by
    rw [set_free_isSome, hb, h.consumers, h.otherProviders]
    rcases Nat.eq_zero_or_pos x.consumers with hze | hp
    · exact Or.inl hze
    · exact Or.inr (x.provided hp)
  obtain ⟨z, hz⟩ := Option.isSome_iff_exists.mp ho
  obtain ⟨hf, hh, ht, -⟩ := set_eq_some hz
  refine ⟨z, hz, ?_, hh.trans h.onHold, ht.trans h.otherHolds⟩
  rw [hf, hb]
  split_ifs with hs
  · rw [h.onHold, h.otherHolds] at hs
    exact (x.no_dust hs.1 hs.2).symm
  · rfl

end Account

abbrev Ledger (A : Type) (ed cap : ℕ) := A → Account ed cap

namespace Ledger

variable {A : Type} [DecidableEq A] {ed cap : ℕ} {l l' : Ledger A ed cap} {a b c : A}
  {amount amt : ℕ} {keep : Keep}

def transfer (l : Ledger A ed cap) (source dest : A) (amount : ℕ) (keep : Keep) :
    Option (Ledger A ed cap) :=
  if (l source).CanWithdraw amount keep ∧ (l dest).CanDeposit amount then
    if source = dest then some l
    else do
      let x ← (l source).set ((l source).free - amount) (l source).onHold
      let y ← (l dest).set ((l dest).free + amount) (l dest).onHold
      pure (Function.update (Function.update l source x) dest y)
  else none

def change (l : Ledger A ed cap) (a : A) (f : Account ed cap → Option (Account ed cap)) :
    Option (Ledger A ed cap) :=
  (f (l a)).map (Function.update l a)

variable {f : Account ed cap → Option (Account ed cap)}

theorem change_eq_some (h : l.change a f = some l') :
    ∃ x, f (l a) = some x ∧ l' = Function.update l a x := by
  obtain ⟨x, hx, rfl⟩ := Option.map_eq_some_iff.mp h
  exact ⟨x, hx, rfl⟩

theorem change_eq_none : l.change a f = none ↔ f (l a) = none := Option.map_eq_none_iff

theorem change_onHold (h : l.change a f = some l')
    (hf : ∀ x, f (l a) = some x → x.onHold = (l a).onHold) (c : A) :
    (l' c).onHold = (l c).onHold := by
  obtain ⟨x, hx, rfl⟩ := change_eq_some h
  rcases eq_or_ne c a with rfl | hn
  · rw [Function.update_self, hf x hx]
  · rw [Function.update_of_ne hn]

theorem change_withdraw_onHold (h : l.change a (Account.withdraw · amt keep) = some l') (c : A) :
    (l' c).onHold = (l c).onHold :=
  change_onHold h (fun _ hx => Account.withdraw_onHold hx) c

theorem transfer_can (h : l.transfer a b amount keep = some l') :
    (l a).CanWithdraw amount keep ∧ (l b).CanDeposit amount := by
  unfold transfer at h
  split_ifs at h with hc <;> exact hc

theorem transfer_ok (h : l.transfer a b amt keep = some l') (hn : a ≠ b) :
    ∃ x y, (l a).set ((l a).free - amt) (l a).onHold = some x ∧
      (l b).set ((l b).free + amt) (l b).onHold = some y ∧
      l' = Function.update (Function.update l a x) b y := by
  unfold transfer at h
  split_ifs at h
  simp only [bind, Option.bind_eq_some_iff, pure, Option.some.injEq] at h
  obtain ⟨x, hx, y, hy, rfl⟩ := h
  exact ⟨x, y, hx, hy, rfl⟩

theorem transfer_self (h : l.transfer a a amt keep = some l') : l' = l := by
  unfold transfer at h
  rw [if_pos rfl] at h
  split_ifs at h
  exact (Option.some.inj h).symm

theorem transfer_onHold (h : l.transfer a b amt keep = some l') (c : A) :
    (l' c).onHold = (l c).onHold ∧ (l' c).otherHolds = (l c).otherHolds := by
  by_cases hn : a = b
  · subst hn
    rw [transfer_self h]
    exact ⟨rfl, rfl⟩
  · obtain ⟨x, y, hx, hy, rfl⟩ := transfer_ok h hn
    obtain ⟨-, hh, ho, -⟩ := Account.set_eq_some hx
    obtain ⟨-, hyh, hyo, -⟩ := Account.set_eq_some hy
    rcases eq_or_ne c b with rfl | hc
    · rw [Function.update_self]
      exact ⟨hyh, hyo⟩
    · rw [Function.update_of_ne hc]
      rcases eq_or_ne c a with rfl | ha
      · rw [Function.update_self]
        exact ⟨hh, ho⟩
      · rw [Function.update_of_ne ha]
        exact ⟨rfl, rfl⟩

structure Moved (l l' : Ledger A ed cap) (source dest : A) (amount : ℕ) : Prop where
  free : ∀ c, (l' c).free + (if c = source then amount else 0) =
    (l c).free + if c = dest then amount else 0
  held : ∀ c, (l' c).onHold = (l c).onHold ∧ (l' c).otherHolds = (l c).otherHolds

def SameBalances (l l' : Ledger A ed cap) : Prop :=
  ∀ c, (l' c).free = (l c).free ∧ (l' c).onHold = (l c).onHold ∧
    (l' c).otherHolds = (l c).otherHolds

theorem transfer_moved (h : l.transfer a b amount .protect = some l') : Moved l l' a b amount := by
  refine ⟨fun c => ?_, transfer_onHold h⟩
  obtain ⟨hw, hd⟩ := transfer_can h
  have hl := hw.le_free
  by_cases hn : a = b
  · subst hn
    rw [transfer_self h]
  · obtain ⟨x, y, hx, hy, rfl⟩ := transfer_ok h hn
    obtain ⟨y', hy', hpa⟩ := Account.set_add_eq_some hd
    rw [hy] at hy'
    cases hy'
    have hyf := hpa.free
    obtain ⟨hf, -⟩ := Account.set_eq_some hx
    have hk : x.free = (l a).free - amount := by
      rw [hf]
      split_ifs with hs
      · have hu := (l a).no_dust
        rcases Nat.eq_zero_or_pos amount with hz | hp
        · subst hz
          omega
        · have := hw.deposit_le hp
          omega
      · rfl
    rcases eq_or_ne c b with rfl | hc
    · rw [Function.update_self, if_neg (Ne.symm hn), if_pos rfl]
      omega
    · rw [Function.update_of_ne hc, if_neg hc]
      rcases eq_or_ne c a with rfl | ha
      · rw [Function.update_self, if_pos rfl]
        omega
      · rw [Function.update_of_ne ha, if_neg ha]

theorem transfer_back {k : ℕ} (h : l.transfer a b amount .protect = some l') (hk : k ≤ amount)
    (ho : (l' b).hold k = none) :
    ∃ l'', l'.transfer b a amount .expendable = some l'' ∧ SameBalances l l'' := by
  obtain ⟨hw, hd⟩ := transfer_can h
  by_cases hn : a = b
  · subst hn
    rw [transfer_self h]
    refine ⟨l, ?_, fun c => ⟨rfl, rfl, rfl⟩⟩
    rw [transfer, if_pos ⟨hw.expendable, hd⟩, if_pos rfl]
  · have hm := transfer_moved h
    obtain ⟨x, y, hx, hy, hl'⟩ := transfer_ok h hn
    obtain ⟨y', hy', hpa⟩ := Account.set_add_eq_some hd
    rw [hy] at hy'
    cases hy'
    have hb : l' b = y := by rw [hl', Function.update_self]
    have ha : l' a = x := by rw [hl', Function.update_of_ne hn, Function.update_self]
    rw [hb] at ho
    have hf : x.free + amount = (l a).free := by
      have hr := hm.free a
      rwa [ha, if_pos rfl, if_neg hn, Nat.add_zero] at hr
    have hc : x.CanDeposit amount := by
      rcases Nat.eq_zero_or_pos amount with hz | hs
      · exact Or.inl hz
      · have := hw.deposit_le hs
        exact Or.inr (by omega)
    -- The way back: the account gives the payment away and the source takes it.
    obtain ⟨y₂, hy₂, hyb⟩ := hpa.set_back
    obtain ⟨x₂, hx₂, hp⟩ := Account.set_add_eq_some hc
    refine ⟨Function.update (Function.update l' b y₂) a x₂, ?_, ?_⟩
    · have hcan := hpa.canWithdraw hd hk ho
      rw [transfer, ha, hb, if_pos ⟨hcan, hc⟩, if_neg (Ne.symm hn), hy₂, hx₂]
      rfl
    · intro c
      rcases eq_or_ne c a with rfl | hca
      · obtain ⟨hh, ht⟩ := hm.held c
        rw [ha] at hh ht
        rw [Function.update_self]
        exact ⟨hp.free.trans hf, hp.onHold.trans hh, hp.otherHolds.trans ht⟩
      · rw [Function.update_of_ne hca]
        rcases eq_or_ne c b with rfl | hcb
        · rw [Function.update_self]
          exact hyb
        · rw [Function.update_of_ne hcb, hl', Function.update_of_ne hcb, Function.update_of_ne hca]
          exact ⟨rfl, rfl, rfl⟩

end Ledger

abbrev Purses (A : Type) := StorageMap A ℕ

namespace Purses

variable {A : Type} [DecidableEq A]

def pay (w : Purses A) (source dest : A) (amount : ℕ) : Option (Purses A) :=
  if amount ≤ w.getD source 0 then
    let taken : Purses A := w.insert source (w.getD source 0 - amount)
    some (taken.insert dest (taken.getD dest 0 + amount))
  else none

theorem pay_exact {w w' : Purses A} {src dest : A} {amt : ℕ}
    (h : pay w src dest amt = some w') (a : A) :
    w'.getD a 0 + (if a = src then amt else 0) =
      w.getD a 0 + if a = dest then amt else 0 := by
  unfold pay at h
  split_ifs at h with hl
  cases h
  rw [getD_insert, getD_insert, getD_insert]
  by_cases hd : a = dest
  · subst hd
    rw [if_pos rfl, if_pos rfl]
    split_ifs with hs
    · subst hs
      omega
    · omega
  · rw [if_neg hd, if_neg hd]
    split_ifs with hs
    · subst hs
      omega
    · rfl

end Purses

end Base

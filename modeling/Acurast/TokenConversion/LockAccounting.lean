import Acurast.TokenConversion.Currency

/-! The funds on hold for an account are those its record says, over every run. An unlock frees them
all and takes the part whose lock time was not served. -/

namespace Acurast.TokenConversion

open Base

variable {A : Type} [DecidableEq A] {T : Config A} (B : OnBalances T) {s s' : State T}

def lockedAmount (s : State T) (a : A) : ℕ := ((s.lockedConversion.lookup a).map (·.amount)).getD 0

variable {a who : A} {c : Conversion} {m : ConversionMessage A}

theorem lockedAmount_some (h : s.lockedConversion.lookup a = some c) :
    lockedAmount s a = c.amount := by
  rw [lockedAmount, h]
  rfl

theorem lockedAmount_none (h : s.lockedConversion.lookup a = none) : lockedAmount s a = 0 := by
  rw [lockedAmount, h]
  rfl

theorem lockedAmount_congr (h : s'.lockedConversion.lookup a = s.lockedConversion.lookup a) :
    lockedAmount s' a = lockedAmount s a := by
  rw [lockedAmount, lockedAmount, h]

structure Accounted (s : State T) : Prop where
  kept : Kept s
  held : ∀ a, (B.ledger s.world a).onHold = lockedAmount s a
  apart : ∀ a, s.lockedConversion.lookup a = none ∨ s.unprocessedConversion.lookup a = none

variable {B}

theorem Accounted.aside (hs : Accounted B s) (hl : s'.lockedConversion = s.lockedConversion)
    (hu : s'.unprocessedConversion = s.unprocessedConversion)
    (hw : B.SameHolds s.world s'.world) : Accounted B s' := by
  refine ⟨?_, ?_, ?_⟩
  · intro b m hm
    rw [hu] at hm
    exact hs.kept b m hm
  · intro a
    rw [hw a, hs.held a]
    exact (lockedAmount_congr (by rw [hl])).symm
  · intro a
    rw [hl, hu]
    exact hs.apart a

theorem Accounted.erase (hs : Accounted B s) (acc : A) :
    Accounted B { s with unprocessedConversion := s.unprocessedConversion.erase acc } := by
  refine ⟨hs.kept.erase acc, hs.held, fun a => ?_⟩
  rcases hs.apart a with h | h
  · exact Or.inl h
  · right
    rw [lookup_erase_eq, h, ite_self]

theorem Accounted.postpone (hs : Accounted B s)
    (hl : s.lockedConversion.lookup m.account = none) : Accounted B (postpone s m) := by
  refine ⟨hs.kept.postpone m, hs.held, fun a => ?_⟩
  rcases eq_or_ne a m.account with rfl | hn
  · exact Or.inl hl
  · rcases hs.apart a with h | h
    · exact Or.inl h
    · right
      change (s.unprocessedConversion.insert m.account m).lookup a = none
      rw [lookup_insert_eq, if_neg hn]
      exact h

theorem Accounted.update (hs : Accounted B s) (who : A) {x : Account T.minimumBalance B.maxConsumers}
    (hw : ∀ a, (B.ledger s'.world a).onHold = (Function.update (B.ledger s.world) who x a).onHold)
    (hu : s'.unprocessedConversion = s.unprocessedConversion)
    (hl : ∀ a, a ≠ who → s'.lockedConversion.lookup a = s.lockedConversion.lookup a)
    (hx : x.onHold = lockedAmount s' who)
    (ha : s'.lockedConversion.lookup who = none ∨ s.unprocessedConversion.lookup who = none) :
    Accounted B s' := by
  refine ⟨?_, ?_, ?_⟩
  · intro b m hm
    rw [hu] at hm
    exact hs.kept b m hm
  · intro a
    rw [hw a]
    rcases eq_or_ne a who with rfl | hn
    · rw [Function.update_self, hx]
    · rw [Function.update_of_ne hn, hs.held a]
      exact (lockedAmount_congr (hl a hn)).symm
  · intro a
    rw [hu]
    rcases eq_or_ne a who with rfl | hn
    · exact ha
    · rw [hl a hn]
      exact hs.apart a

omit [DecidableEq A] in
theorem tryUndoFund_cases (s : State T) (m : ConversionMessage A) :
    tryUndoFund s m = s ∨ ∃ w, undoFund T s.world m = some w ∧
      tryUndoFund s m = { s with world := w }.log (.undone m.account m.amount) := by
  unfold tryUndoFund
  split
  · next w h => exact Or.inr ⟨w, h, rfl⟩
  · exact Or.inl rfl

theorem Accounted.processPending (hs : Accounted B s)
    (hl : s.lockedConversion.lookup m.account = none)
    (hun : s.unprocessedConversion.lookup m.account = none) :
    Accounted B (processPending s m) := by
  rcases processPending_cases s m with ⟨-, h⟩ | ⟨w, hu, ⟨w', hh, h⟩ | ⟨-, h⟩⟩
  · rw [h]
    exact hs.postpone hl
  · rw [h]
    have hf : B.SameHolds s.world w := B.sends.transfer hu
    obtain ⟨x, hx, hle⟩ := B.hold_some hh
    obtain ⟨-, hhe, -⟩ := Account.hold_eq_some hx
    have hb : (B.ledger w m.account).onHold = 0 := by
      rw [hf, hs.held, lockedAmount_none hl]
    refine hs.update m.account (x := x) ?_ rfl ?_ ?_ (Or.inr hun)
    · intro a
      change (B.ledger w' a).onHold = _
      rw [hle]
      rcases eq_or_ne a m.account with rfl | hn
      · rw [Function.update_self, Function.update_self]
      · rw [Function.update_of_ne hn, Function.update_of_ne hn]
        exact hf a
    · intro a hn
      change (s.lockedConversion.insert m.account _).lookup a = _
      rw [lookup_insert_eq, if_neg hn]
    · rw [hhe, hb, Nat.zero_add]
      change _ = (((s.lockedConversion.insert m.account _).lookup m.account).map (·.amount)).getD 0
      rw [AList.lookup_insert]
      rfl
  · rw [h]
    have hf : B.SameHolds s.world w := B.sends.transfer hu
    have hf' : Accounted B ({ s with world := w }.log (.funded m.account m.amount)) :=
      hs.aside rfl rfl hf
    rcases tryUndoFund_cases ({ s with world := w }.log (.funded m.account m.amount)) m with
      ha | ⟨w', hd, hund⟩
    · rw [ha]
      exact hf'.postpone hl
    · rw [hund]
      have hba : B.SameHolds w w' := B.sends.transfer hd
      have haf : Accounted B ({ s with
          world := w'
          history := .undone m.account m.amount :: .funded m.account m.amount :: s.history }) :=
        hf'.aside rfl rfl hba
      exact haf.postpone hl

theorem Accounted.processConversion (hs : Accounted B s) (m : ConversionMessage A) :
    Accounted B (processConversion s m) := by
  unfold TokenConversion.processConversion
  split
  · exact hs
  · next hl =>
    have ha := hs.kept.pending m
    apply (hs.erase m.account).processPending
    · rw [ha]
      exact hl
    · rw [ha]
      exact AList.lookup_erase _ _

def servedShare (elapsed maxLockDuration : ℕ) : ℕ :=
  if maxLockDuration = 0 then 10 ^ 18 else min elapsed maxLockDuration * 10 ^ 18 / maxLockDuration

theorem fromRational_servedShare {elapsed maxLockDuration : ℕ} (h : maxLockDuration < 2 ^ 32) :
    (PerThing.fromRational (min elapsed maxLockDuration) maxLockDuration : Perquintill).parts =
      servedShare elapsed maxLockDuration := by
  rcases Nat.eq_zero_or_pos maxLockDuration with rfl | hp
  · rfl
  · rw [servedShare, if_neg hp.ne']
    exact PerThing.fromRational_parts hp (by omega) (min_le_right _ _)

def keptOnUnlock (s : State T) (c : Conversion) : ℕ :=
  c.amount * servedShare (s.blockNumber - c.lockStart) T.maxLockDuration / 10 ^ 18

def Unlocks (B : OnBalances T) (s s' : State T) (who : A) (c : Conversion) : Prop :=
  ∃ w x, B.ledger w = Function.update (B.ledger s.world) who x ∧ x.onHold = 0 ∧
    x.free = (B.ledger s.world who).free + keptOnUnlock s c ∧
    s'.world = if c.amount - keptOnUnlock s c = 0 then w
      else T.onSlash w (c.amount - keptOnUnlock s c)

omit [DecidableEq A] in
theorem mulFloor_fromRational (hm : T.maxLockDuration < 2 ^ 32) (s : State T) (c : Conversion) :
    (PerThing.fromRational (min (s.blockNumber - c.lockStart) T.maxLockDuration)
      T.maxLockDuration : Perquintill).mulFloor c.amount = keptOnUnlock s c := by
  rw [PerThing.mulFloor, fromRational_servedShare hm]
  rfl

theorem releaseConversion_unlocks (hm : T.maxLockDuration < 2 ^ 32)
    (hhe : (B.ledger s.world who).onHold = c.amount) (h : releaseConversion s who c = .ok s') :
    Unlocks B s s' who c ∧ s'.lockedConversion = s.lockedConversion.erase who ∧
      s'.unprocessedConversion = s.unprocessedConversion := by
  simp only [releaseConversion, ok_iff, mulFloor_fromRational hm] at h
  obtain ⟨-, -, w, hr, w', hs, rfl⟩ := h
  refine ⟨?_, rfl, rfl⟩
  obtain ⟨x, hx, hw⟩ := B.releaseAll_some hr
  obtain ⟨hf, ho, -⟩ := Account.release_all_eq_some hx
  have hk : keptOnUnlock s c ≤ c.amount := by
    rw [← mulFloor_fromRational hm]
    exact PerThing.mulFloor_le _ _
  unfold releaseConversion.slashUnserved at hs
  split_ifs at hs with hz
  · cases hs
    refine ⟨w, x, hw, ho, ?_, ?_⟩
    · omega
    · exact (if_pos hz).symm
  · simp only [ok_iff] at hs
    obtain ⟨-, -, ⟨w₁, imbalance⟩, hwi, rfl⟩ := hs
    obtain ⟨rfl, y, hy, hw₁⟩ := B.withdraw_some hwi
    rw [hw, Function.update_self] at hy
    obtain ⟨hyf, hh, -⟩ := Account.withdraw_preserve_eq_some hy
    refine ⟨w₁, y, ?_, hh.trans ho, ?_, ?_⟩
    · rw [hw₁, hw, Function.update_idem]
    · omega
    · exact (if_neg hz).symm

theorem unlock_some (hm : T.maxLockDuration < 2 ^ 32) (hs : Accounted B s)
    (hl : s.lockedConversion.lookup who = some c) (h : unlock s who = .ok s') :
    Unlocks B s s' who c ∧ s'.lockedConversion = s.lockedConversion.erase who ∧
      s'.unprocessedConversion = s.unprocessedConversion := by
  simp only [unlock, hl, ok_iff, whenSome_eq_ok] at h
  obtain ⟨s₁, hr, rfl⟩ := h
  rcases hr with ⟨hn, -⟩ | ⟨c', hc, hr⟩
  · cases hn
  · cases hc
    have hh : (B.ledger s.world who).onHold = c.amount := by
      rw [hs.held, lockedAmount_some hl]
    obtain ⟨hu, her, hun⟩ := releaseConversion_unlocks hm hh hr
    exact ⟨hu, her, hun⟩

theorem unlock_none (hl : s.lockedConversion.lookup who = none) (h : unlock s who = .ok s') :
    s' = s.deposit (.conversionUnlocked who) := by
  simp only [unlock, hl, ok_iff, whenSome_eq_ok] at h
  obtain ⟨s₁, hr, rfl⟩ := h
  rcases hr with ⟨-, rfl⟩ | ⟨c, hc, -⟩
  · rfl
  · cases hc

theorem Unlocks.onHold (h : Unlocks B s s' who c) : ∃ x, x.onHold = 0 ∧
      ∀ a, (B.ledger s'.world a).onHold = (Function.update (B.ledger s.world) who x a).onHold := by
  obtain ⟨w, x, hw, hx, -, ho⟩ := h
  refine ⟨x, hx, fun a => ?_⟩
  rw [ho, ← hw]
  split_ifs
  · rfl
  · exact B.onSlash _ _ _

theorem Accounted.unlock (hm : T.maxLockDuration < 2 ^ 32) (hs : Accounted B s)
    (h : unlock s who = .ok s') : Accounted B s' := by
  cases hl : s.lockedConversion.lookup who with
  | none =>
    rw [unlock_none hl h]
    exact hs.aside rfl rfl fun _ => rfl
  | some c =>
    obtain ⟨hu, hr, hun⟩ := unlock_some hm hs hl h
    obtain ⟨x, hx, hw⟩ := hu.onHold
    have hn : s'.lockedConversion.lookup who = none := by
      rw [hr]
      exact AList.lookup_erase _ _
    refine hs.update who hw hun ?_ ?_ (Or.inl hn)
    · intro a hne
      rw [hr, lookup_erase_eq, if_neg hne]
    · rw [hx, lockedAmount_none hn]

theorem Accounted.slash (hs : Accounted B s) (acc : A) (amt : ℕ) :
    Accounted B (slash s acc amt).1 := by
  unfold TokenConversion.slash
  split
  · exact hs
  · next c hl =>
    dsimp only
    -- What the record loses is what the slash took of the hold.
    obtain ⟨x, hx, hw⟩ := B.slashHeld_fst s.world acc amt
    obtain ⟨y, hy, hh⟩ := Account.slash_eq_some (B.ledger s.world acc) amt
    rw [hx] at hy
    cases hy
    have hb : (B.ledger s.world acc).onHold = c.amount := by
      rw [hs.held, lockedAmount_some hl]
    have hns := (B.slashHeld s.world acc amt).2
    have hu : s.unprocessedConversion.lookup acc = none := by
      rcases hs.apart acc with h | h
      · rw [hl] at h
        cases h
      · exact h
    rw [hns]
    split_ifs with hz
    · refine hs.update acc (x := x) ?_ rfl ?_ ?_ (Or.inr hu)
      · intro a
        exact congrArg (fun l : Ledger A _ _ => (l a).onHold) hw
      · intro a hn
        exact (lookup_erase_eq _ _ _).trans (if_neg hn)
      · rw [lockedAmount_none (AList.lookup_erase _ _)]
        omega
    · refine hs.update acc (x := x) ?_ rfl ?_ ?_ (Or.inr hu)
      · intro a
        exact congrArg (fun l : Ledger A _ _ => (l a).onHold) hw
      · intro a hn
        exact (lookup_insert_eq _ _ _ _).trans (if_neg hn)
      · rw [lockedAmount_some (AList.lookup_insert _)]
        dsimp only
        omega

theorem Received.accounted (hm : T.maxLockDuration < 2 ^ 32) (hs : Accounted B s)
    (h : Received B.SameHolds s s') : Accounted B s' := by
  cases h with
  | aside hl hu hw => exact hs.aside hl hu hw
  | processed m => exact hs.processConversion m
  | @retried ha m hk => exact (hs.erase ha).processConversion m
  | unlocked hn => exact hs.unlock hm hn
  | slashed ha x => exact hs.slash ha x

/-- In every state reached while nobody else touches the holds for conversions, the holds are those
recorded and no account has both a record and a message waiting. So a successful unlock leaves
nothing on hold, and the account keeps what the served share of the lock time gives, the rest goes
to `OnSlash`. -/
theorem conversion_lock_accounting (B : OnBalances T) (hmax : T.maxLockDuration < 2 ^ 32)
    (w : T.World) (hw : ∀ a, (B.ledger w a).onHold = 0) (ops : List (Op T))
    (hops : Along step (OutsideKeeps B.SameHolds) (State.genesis T w) ops)
    (hs : s = run step (State.genesis T w) ops) :
    (∀ a, (B.ledger s.world a).onHold = lockedAmount s a) ∧
      (∀ a, s.lockedConversion.lookup a = none ∨ s.unprocessedConversion.lookup a = none) ∧
      ∀ who s', unlock s who = .ok s' → (B.ledger s'.world who).onHold = 0 ∧
          ∀ c, s.lockedConversion.lookup who = some c → Unlocks B s s' who c := by
  have hg : Accounted B (State.genesis T w) :=
    ⟨kept_genesis w, fun a => hw a, fun _ => Or.inl rfl⟩
  have ht : ∀ s op, OutsideKeeps B.SameHolds s op → Accounted B s → Accounted B (step s op) :=
    fun s op ho hs => (step_received B.sends s op ho).accounted hmax hs
  have hr : Accounted B s := by
    rw [hs]
    exact run_invariant ht hops hg
  refine ⟨hr.held, hr.apart, fun who s' hu => ⟨?_, ?_⟩⟩
  · have ha := hr.unlock hmax hu
    rw [ha.held]
    apply lockedAmount_none
    cases hl : s.lockedConversion.lookup who with
    | none =>
      rw [unlock_none hl hu]
      exact hl
    | some c =>
      rw [(unlock_some hmax hr hl hu).2.1]
      exact AList.lookup_erase _ _
  · intro c hl
    exact (unlock_some hmax hr hl hu).1

section Mock

def lockedOps : List (Op ledgerMock) :=
  [.process conversionOfFive, .block, .block, .block]

def lockedState : State ledgerMock := run step (State.genesis ledgerMock ledgerFunds) lockedOps

theorem conversion_lock_accounting_lockedState :
    (unlock lockedState 5).isOk = true ∧ lockedAmount lockedState 5 = 249 ∧
      (ledgerBalances.ledger lockedState.world 5).onHold = lockedAmount lockedState 5 ∧
      ∀ s', unlock lockedState 5 = .ok s' → (ledgerBalances.ledger s'.world 5).onHold = 0 := by
  have hm : ledgerMock.maxLockDuration < 2 ^ 32 := by decide
  have ho : Along step (OutsideKeeps ledgerBalances.SameHolds)
      (State.genesis ledgerMock ledgerFunds) lockedOps := ⟨trivial, trivial, trivial, trivial, trivial⟩
  have h := conversion_lock_accounting (s := lockedState) ledgerBalances hm ledgerFunds
    ledgerFunds_onHold lockedOps ho rfl
  refine ⟨by decide +kernel, by decide +kernel, h.1 5, ?_⟩
  intro s' hu
  exact (h.2.2 5 s' hu).1

end Mock

end Acurast.TokenConversion

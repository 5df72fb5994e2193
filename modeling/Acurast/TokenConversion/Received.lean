import Acurast.TokenConversion.CreditOnce

/-! What a step does to the conversions a chain received. The sending side and everything outside
the pallet leave them alone; only the balances move. -/

namespace Acurast.TokenConversion

open Base

variable {A : Type} {T : Config A} {s s' : State T}

structure Sends (T : Config A) (R : T.World → T.World → Prop) : Prop where
  refl : ∀ w, R w w
  trans : ∀ {w w' w''}, R w w' → R w' w'' → R w w''
  transfer : ∀ {w w' a b n p}, T.transfer w a b n p = some w' → R w w'
  burnFrom : ∀ {w w' a n k}, T.burnFrom w a n = some (w', k) → R w w'
  sendMessage : ∀ {w w' r k}, T.sendMessage w r = some (w', k) → R w w'

theorem sendConvertMessage_sends (hR : Sends T R) {payer prevFeePayer : Option A} {x : ℕ}
    {dest : Subject A A}
    (h : sendConvertMessage s acc payer prevFeePayer x fee dest = .ok s') :
    ∃ w, s' = { s with world := w } ∧ R s.world w := by
  simp only [sendConvertMessage, ok_iff] at h
  obtain ⟨w, hp, ⟨w₁, replaced⟩, hs, w₂, hr, rfl⟩ := h
  refine ⟨w₂, rfl, ?_⟩
  have ha : R s.world w := by
    unfold payFee at hp
    split_ifs at hp
    · cases hp
      exact hR.refl _
    · rw [okOr_eq_ok] at hp
      exact hR.transfer hp
  have hf : R w₁ w₂ := by
    simp only [refundReplaced, whenSome_eq_ok, okOr_eq_ok] at hr
    rcases hr with ⟨-, rfl⟩ | ⟨fee', -, ht⟩
    · exact hR.refl _
    · exact hR.transfer ht
  exact hR.trans ha (hR.trans (hR.sendMessage hs) hf)

variable [DecidableEq A]

inductive Received (R : T.World → T.World → Prop) (s : State T) : State T → Prop
  | aside {s' : State T} (hlocked : s'.lockedConversion = s.lockedConversion)
      (hunprocessed : s'.unprocessedConversion = s.unprocessedConversion)
      (hworld : R s.world s'.world) : Received R s s'
  | processed (m : ConversionMessage A) : Received R s (processConversion s m)
  | retried {account : A} {m : ConversionMessage A}
      (hkept : s.unprocessedConversion.lookup account = some m) :
      Received R s (processConversion
        { s with unprocessedConversion := s.unprocessedConversion.erase account } m)
  | unlocked {who : A} {s' : State T} (hunlock : unlock s who = .ok s') : Received R s s'
  | slashed (account : A) (amount : ℕ) : Received R s (slash s account amount).1

variable {R : T.World → T.World → Prop}

variable {account acc who : A} {fee : ℕ} {call : Call A}

theorem convert_received (hR : Sends T R) (h : convert s who fee = .ok s') : Received R s s' := by
  simp only [convert, ok_iff] at h
  obtain ⟨-, -, dest, -, -, -, burnable, -, ⟨w, burned⟩, hb, -, -, s₁, hs, rfl⟩ := h
  obtain ⟨w', rfl, hw⟩ := sendConvertMessage_sends hR hs
  exact .aside rfl rfl (hR.trans (hR.burnFrom hb) hw)

theorem retryConvertBy_received (hR : Sends T R) {payer : Option A}
    (h : retryConvertBy s who acc payer fee = .ok s') : Received R s s' := by
  simp only [retryConvertBy, ok_iff] at h
  obtain ⟨dest, -, initiated, -, s₁, hs, rfl⟩ := h
  obtain ⟨w', rfl, hw⟩ := sendConvertMessage_sends hR hs
  exact .aside rfl rfl hw

theorem retryProcessConversionFor_received (h : retryProcessConversionFor s acc = .ok s') :
    Received R s s' := by
  simp only [retryProcessConversionFor, ok_iff] at h
  obtain ⟨-, -, m, hm, rfl⟩ := h
  exact .retried hm

theorem dispatchSigned_received (hR : Sends T R) (h : dispatchSigned s who call = .ok s') :
    Received R s s' := by
  cases call with
  | convert fee => cases h
  | unlock => exact .unlocked h
  | retryConvert fee => exact retryConvertBy_received hR h
  | retryConvertFor acc fee => exact retryConvertBy_received hR h
  | retryProcessConversion => exact retryProcessConversionFor_received h
  | retryProcessConversionFor acc => exact retryProcessConversionFor_received h
  | setEnabled enable => cases h
  | denySource acc denied => cases h

theorem dispatch_received (hR : Sends T R) {o : Origin A} (h : dispatch s o call = .ok s') :
    Received R s s' := by
  have hs (h : (okOr o.signer .badOrigin >>= fun who => dispatchSigned s who call) =
      .ok s') : Received R s s' := by
    rw [bind_eq_ok] at h
    obtain ⟨who, -, hc⟩ := h
    exact dispatchSigned_received hR hc
  cases call with
  | convert fee =>
    simp only [dispatch, bind_eq_ok] at h
    obtain ⟨-, -, who, -, ho⟩ := h
    exact convert_received hR ho
  | setEnabled enable =>
    simp only [dispatch, ok_iff] at h
    obtain ⟨-, -, rfl⟩ := h
    exact .aside rfl rfl (hR.refl _)
  | denySource acc denied =>
    simp only [dispatch, ok_iff] at h
    obtain ⟨-, -, rfl⟩ := h
    exact .aside rfl rfl (hR.refl _)
  | _ => exact hs h

def OutsideKeeps (R : T.World → T.World → Prop) (s : State T) : Op T → Prop
  | .outside w => R s.world w
  | _ => True

theorem step_received (hR : Sends T R) (s : State T) (op : Op T) (ho : OutsideKeeps R s op) :
    Received R s (step s op) := by
  cases op with
  | dispatch o call =>
    have hs : Received R s s := .aside rfl rfl (hR.refl _)
    exact transact_induction hs fun s' h => dispatch_received hR h
  | process msg =>
    have hs : Received R s s := .aside rfl rfl (hR.refl _)
    refine transact_induction hs fun s' h => ?_
    simp only [process, ok_iff] at h
    obtain ⟨sender, -, -, -, m, -, rfl⟩ := h
    exact .processed m
  | slash acc x => exact .slashed acc x
  | block => exact .aside rfl rfl (hR.refl _)
  | outside w => exact .aside rfl rfl ho

def Kept (s : State T) : Prop :=
  ∀ b m, s.unprocessedConversion.lookup b = some m → m.account = b

theorem Kept.erase (hs : Kept s) (acc : A) :
    Kept { s with unprocessedConversion := s.unprocessedConversion.erase acc } := by
  intro b m h
  rw [lookup_erase_eq] at h
  split at h
  · cases h
  · exact hs b m h

theorem Kept.postpone (hs : Kept s) (m : ConversionMessage A) : Kept (postpone s m) := by
  intro b m' h
  change (s.unprocessedConversion.insert m.account m).lookup b = some m' at h
  rw [lookup_insert_eq] at h
  split at h
  · next hb =>
    cases h
    exact hb.symm
  · exact hs b m' h

theorem Kept.pending (hs : Kept s) (m : ConversionMessage A) :
    (pending s m).account = m.account := by
  unfold TokenConversion.pending
  cases h : s.unprocessedConversion.lookup m.account with
  | none => rfl
  | some m' => exact hs m.account m' h

theorem processPending_cases (s : State T) (m : ConversionMessage A) :
    (fund T s.world m = none ∧ processPending s m = postpone s m) ∨ ∃ w, fund T s.world m = some w ∧
        ((∃ w', T.hold w m.account (holdAmount T w m.amount m.account) = some w' ∧
            processPending s m = ({ s.log (.funded m.account m.amount) with
              world := w'
              lockedConversion := s.lockedConversion.insert m.account
                ⟨holdAmount T w m.amount m.account, s.blockNumber⟩ }).deposit
              (.conversionProcessed m.account m.amount)) ∨
          T.hold w m.account (holdAmount T w m.amount m.account) = none ∧ processPending s m =
              postpone (tryUndoFund ({ s with world := w }.log (.funded m.account m.amount)) m) m) := by
  cases hf : fund T s.world m with
  | none => exact Or.inl ⟨rfl, by rw [processPending, hf]⟩
  | some w =>
    refine Or.inr ⟨w, rfl, ?_⟩
    cases hh : T.hold w m.account (holdAmount T w m.amount m.account) with
    | none =>
      refine Or.inr ⟨rfl, ?_⟩
      simp [processPending, hf, hold, State.log, hh]
    | some w' =>
      refine Or.inl ⟨w', rfl, ?_⟩
      simp [processPending, hf, hold, State.log, hh]

theorem Kept.processPending (hs : Kept s) (m : ConversionMessage A) :
    Kept (processPending s m) := by
  rcases processPending_cases s m with ⟨-, h⟩ | ⟨w, -, ⟨w', -, h⟩ | ⟨-, h⟩⟩
  · rw [h]
    exact hs.postpone m
  · rw [h]
    exact hs
  · rw [h]
    apply Kept.postpone
    unfold tryUndoFund
    split
    · exact hs
    · exact hs

theorem Kept.processConversion (hs : Kept s) (m : ConversionMessage A) :
    Kept (processConversion s m) := by
  unfold TokenConversion.processConversion
  split
  · exact hs
  · exact (hs.erase m.account).processPending _

theorem unlock_unprocessed (h : unlock s who = .ok s') :
    s'.unprocessedConversion = s.unprocessedConversion := by
  simp only [unlock, ok_iff, whenSome_eq_ok] at h
  obtain ⟨s₁, hr, rfl⟩ := h
  rcases hr with ⟨-, rfl⟩ | ⟨locked, -, hr⟩
  · rfl
  · simp only [releaseConversion, ok_iff] at hr
    obtain ⟨-, -, w, -, w', -, rfl⟩ := hr
    rfl

theorem slash_unprocessed (s : State T) (acc : A) (x : ℕ) :
    (slash s acc x).1.unprocessedConversion = s.unprocessedConversion := by
  unfold slash
  split
  · rfl
  · dsimp only
    split <;> rfl

theorem Received.kept (h : Received R s s') (hs : Kept s) : Kept s' := by
  cases h with
  | aside hl hn hw =>
    intro b m hm
    rw [hn] at hm
    exact hs b m hm
  | processed m => exact hs.processConversion m
  | @retried acc m hk => exact (hs.erase acc).processConversion m
  | unlocked hu =>
    intro b m hm
    rw [unlock_unprocessed hu] at hm
    exact hs b m hm
  | slashed acc x =>
    intro b m hm
    rw [slash_unprocessed] at hm
    exact hs b m hm

theorem kept_genesis (w : T.World) : Kept (State.genesis T w) := by
  intro b m h
  cases h

theorem run_kept (w : T.World) (ops : List (Op T)) : Kept (run step (State.genesis T w) ops) := by
  have hR : Sends T fun _ _ => True :=
    ⟨fun _ => trivial, fun _ _ => trivial, fun _ => trivial, fun _ => trivial, fun _ => trivial⟩
  refine run_invariant' (fun s op hs => ?_) ops (kept_genesis w)
  have ho : OutsideKeeps (fun _ _ => True) s op := by
    cases op <;> trivial
  exact (step_received hR s op ho).kept hs

end Acurast.TokenConversion

import Acurast.Base.Run
import Acurast.TokenConversion.Pallet

/-! What an account is credited with. The record of a locked conversion is all that keeps a message
that arrives again from being credited again. -/

namespace Acurast.TokenConversion

open Base

variable {A : Type} {T : Config A} {s s' : State T}

def total (f : Entry A → ℕ) (s : State T) : ℕ := (s.history.map f).sum

theorem sendConvertMessage_ok {payer prevFeePayer : Option A} {x : ℕ}
    {dest : Subject A A}
    (h : sendConvertMessage s acc payer prevFeePayer x fee dest = .ok s') :
    ∃ w, s' = { s with world := w } := by
  simp only [sendConvertMessage, ok_iff] at h
  obtain ⟨w, -, ⟨w₁, replaced⟩, -, w₂, -, rfl⟩ := h
  exact ⟨w₂, rfl⟩

variable [DecidableEq A]

def fundedTo (a : A) : Entry A → ℕ
  | .funded account amount => if account = a then amount else 0
  | _ => 0

def undoneTo (a : A) : Entry A → ℕ
  | .undone account amount => if account = a then amount else 0
  | _ => 0

def handled (s : State T) : Op T → Option (ConversionMessage A)
  | .process message =>
    if T.receiveFrom = some message.sender then T.decodeMessage message.payload.val else none
  | .dispatch (.signed who) .retryProcessConversion => s.unprocessedConversion.lookup who
  | .dispatch (.signed _) (.retryProcessConversionFor account) =>
    s.unprocessedConversion.lookup account
  | _ => none

def NamesAmount (a : A) (n : ℕ) : Op T → Prop
  | .process message =>
    ∀ m ∈ T.decodeMessage message.payload.val, m.account = a → m.amount = n
  | _ => True

omit [DecidableEq A] in
abbrev Refundable (T : Config A) (w : T.World) (m : ConversionMessage A) : Prop :=
  ∀ w' ∈ fund T w m, T.hold w' m.account (holdAmount T w' m.amount m.account) = none →
    (undoFund T w' m).isSome = true

/-- A message of the account that is processed without a record of a conversion is the first one:
no record was deleted before. What cannot be held of it can be taken back. -/
abbrev HandlesFirst (a : A) (s : State T) (op : Op T) : Prop :=
  ∀ m ∈ handled s op, m.account = a → s.lockedConversion.lookup a = none →
    .unlocked a ∉ s.history ∧ Refundable T s.world (pending s m)

instance (a : A) (n : ℕ) (op : Op T) : Decidable (NamesAmount a n op) := by
  unfold NamesAmount
  split <;> infer_instance

structure Credited (a : A) (n : ℕ) (s : State T) : Prop where
  kept : ∀ b m, s.unprocessedConversion.lookup b = some m → m.account = b ∧ (b = a → m.amount = n)
  le : total (fundedTo a) s ≤ n + total (undoneTo a) s
  unlocked : s.lockedConversion.lookup a = none → .unlocked a ∉ s.history →
    total (fundedTo a) s ≤ total (undoneTo a) s

variable {a : A} {n : ℕ}

theorem Credited.congr (hs : Credited a n s)
    (hu : s'.unprocessedConversion = s.unprocessedConversion)
    (hl : s'.lockedConversion = s.lockedConversion) (hh : s'.history = s.history) :
    Credited a n s' := by
  have ht : ∀ f, total f s' = total f s := by
    intro f
    rw [total, total, hh]
  refine ⟨?_, ?_, ?_⟩
  · rw [hu]
    exact hs.kept
  · rw [ht, ht]
    exact hs.le
  · rw [hl, hh, ht, ht]
    exact hs.unlocked

variable {m : ConversionMessage A} {account acc who : A} {fee : ℕ} {call : Call A}

theorem postpone_credited (hs : Credited a n s) (ha : m.account = a → m.amount = n) :
    Credited a n (postpone s m) := by
  refine ⟨?_, hs.le, hs.unlocked⟩
  intro b m' hl
  change (s.unprocessedConversion.insert m.account m).lookup b = some m' at hl
  rw [lookup_insert_eq] at hl
  split at hl
  · next h =>
    cases hl
    subst h
    exact ⟨rfl, ha⟩
  · exact hs.kept b m' hl

theorem erase_credited (hs : Credited a n s) (acc : A) :
    Credited a n { s with unprocessedConversion := s.unprocessedConversion.erase acc } := by
  refine ⟨?_, hs.le, hs.unlocked⟩
  intro b m hl
  rw [lookup_erase_eq] at hl
  split at hl
  · cases hl
  · exact hs.kept b m hl

theorem pending_spec (hs : Credited a n s) (ha : m.account = a → m.amount = n) :
    (pending s m).account = m.account ∧ (m.account = a → (pending s m).amount = n) := by
  unfold pending
  cases h : s.unprocessedConversion.lookup m.account with
  | none => exact ⟨rfl, ha⟩
  | some m' => exact hs.kept m.account m' h

theorem hold_eq_some {transferred : ℕ} (h : hold s transferred m = some s') : ∃ w, s' = { s with
      world := w
      lockedConversion :=
        s.lockedConversion.insert m.account ⟨holdAmount T s.world transferred m.account, s.blockNumber⟩ } := by
  simp only [hold, bind, Option.bind_eq_some_iff, pure, Option.some.injEq] at h
  obtain ⟨w, -, rfl⟩ := h
  exact ⟨w, rfl⟩

theorem hold_eq_none {transferred : ℕ} (h : hold s transferred m = none) :
    T.hold s.world m.account (holdAmount T s.world transferred m.account) = none := by
  rw [Option.eq_none_iff_forall_ne_some]
  simpa [hold, bind, Option.bind_eq_none_iff] using h

theorem processPending_credited (hs : Credited a n s) (ha : m.account = a → m.amount = n)
    (hf : m.account = a → s.lockedConversion.lookup a = none ∧ .unlocked a ∉ s.history ∧
      Refundable T s.world m) : Credited a n (processPending s m) := by
  unfold processPending
  split
  · exact postpone_credited hs ha
  · next w hfu =>
    dsimp only
    split
    · next s₁ hh =>
      -- The funds are held: the account's books change only if the message is its own.
      obtain ⟨w', rfl⟩ := hold_eq_some hh
      refine ⟨hs.kept, ?_, ?_⟩
      · by_cases h : m.account = a
        · obtain ⟨hl, hu, -⟩ := hf h
          have hz := hs.unlocked hl hu
          have hn := ha h
          simp only [total, State.deposit, State.log, List.map_cons, List.sum_cons, fundedTo, undoneTo,
            h, if_true] at hz ⊢
          omega
        · have hle := hs.le
          simpa [total, State.deposit, State.log, fundedTo, undoneTo, h] using hle
      · intro hl hu
        change (s.lockedConversion.insert m.account _).lookup a = none at hl
        rw [lookup_insert_eq] at hl
        split at hl
        · cases hl
        · next h =>
          have hne : m.account ≠ a := Ne.symm h
          have hz := hs.unlocked hl (by simpa [State.deposit, State.log] using hu)
          simpa [total, State.deposit, State.log, fundedTo, undoneTo, hne] using hz
    · next hh =>
      apply postpone_credited _ ha
      unfold tryUndoFund
      split
      · -- What was funded is undone, so the two totals grow alike.
        have hle := hs.le
        have hz := hs.unlocked
        refine ⟨hs.kept, ?_, ?_⟩
        · simp only [total, State.log, List.map_cons, List.sum_cons, fundedTo, undoneTo] at hle ⊢
          omega
        · intro hl hu
          have h := hz hl (by simpa [State.log] using hu)
          simp only [total, State.log, List.map_cons, List.sum_cons, fundedTo, undoneTo] at h ⊢
          omega
      · next hd =>
        by_cases h : m.account = a
        · obtain ⟨-, -, hr⟩ := hf h
          have ho := hr w hfu (hold_eq_none hh)
          change undoFund T w m = none at hd
          rw [hd] at ho
          cases ho
        · have hle := hs.le
          have hz := hs.unlocked
          refine ⟨hs.kept, ?_, ?_⟩
          · simpa [total, State.log, fundedTo, undoneTo, h] using hle
          · intro hl hu
            have h' := hz hl (by simpa [State.log] using hu)
            simpa [total, State.log, fundedTo, undoneTo, h] using h'

theorem processConversion_credited (hs : Credited a n s) (ham : m.account = a → m.amount = n)
    (hf : m.account = a → s.lockedConversion.lookup a = none →
      .unlocked a ∉ s.history ∧ Refundable T s.world (pending s m)) :
    Credited a n (processConversion s m) := by
  unfold processConversion
  split
  · exact hs
  · next hn =>
    obtain ⟨ha, hp⟩ := pending_spec hs ham
    apply processPending_credited (erase_credited hs m.account)
    · intro h
      exact hp (ha ▸ h)
    · intro h
      have hm : m.account = a := ha ▸ h
      rw [hm] at hn
      exact ⟨hn, hf hm hn⟩

theorem retryProcessConversionFor_credited (hs : Credited a n s)
    (hf : ∀ m, s.unprocessedConversion.lookup acc = some m → m.account = a →
      s.lockedConversion.lookup a = none →
      .unlocked a ∉ s.history ∧ Refundable T s.world (pending s m))
    (h : retryProcessConversionFor s acc = .ok s') : Credited a n s' := by
  simp only [retryProcessConversionFor, ok_iff] at h
  obtain ⟨-, -, m, hm, rfl⟩ := h
  obtain ⟨ha, ham⟩ := hs.kept acc m hm
  apply processConversion_credited (erase_credited hs acc)
  · intro hma
    exact ham (ha ▸ hma)
  · intro hma hl
    obtain ⟨hu, hr⟩ := hf m hm hma hl
    refine ⟨hu, ?_⟩
    -- The kept message is the one taken out, so it is also the one processed.
    have hb : pending s m = m := by
      rw [pending, ha, hm]
      rfl
    have haf : pending { s with
        unprocessedConversion := s.unprocessedConversion.erase acc } m = m := by
      rw [pending, ha, AList.lookup_erase]
      rfl
    rw [haf, ← hb]
    exact hr

theorem Credited.unlock (hs : Credited a n s) (acc : A) (w : T.World) : Credited a n ({ s with
      world := w
      lockedConversion := s.lockedConversion.erase acc }.log (.unlocked acc)) := by
  refine ⟨hs.kept, ?_, ?_⟩
  · simpa [fundedTo, undoneTo, total, State.log] using hs.le
  · intro hl hu
    simp only [State.log, List.mem_cons, not_or, Entry.unlocked.injEq] at hu
    change (s.lockedConversion.erase acc).lookup a = none at hl
    rw [lookup_erase_eq, if_neg hu.1] at hl
    have hz := hs.unlocked hl hu.2
    simpa [fundedTo, undoneTo, total, State.log] using hz

theorem unlock_credited (hs : Credited a n s) (h : unlock s who = .ok s') : Credited a n s' := by
  simp only [TokenConversion.unlock, ok_iff, whenSome_eq_ok] at h
  obtain ⟨s₁, hr, rfl⟩ := h
  rcases hr with ⟨-, rfl⟩ | ⟨locked, -, hr⟩
  · exact hs.congr rfl rfl rfl
  · simp only [releaseConversion, ok_iff] at hr
    obtain ⟨-, -, w, -, w', -, rfl⟩ := hr
    exact (hs.unlock who w').congr rfl rfl rfl

theorem slash_credited (hs : Credited a n s) (acc : A) (x : ℕ) :
    Credited a n (slash s acc x).1 := by
  unfold slash
  split
  · exact hs
  · next conversion ho =>
    dsimp only
    split
    · exact hs.unlock acc _
    · refine ⟨hs.kept, hs.le, ?_⟩
      intro hl hu
      rw [lookup_insert_eq] at hl
      split at hl
      · cases hl
      · exact hs.unlocked hl hu

theorem process_credited {msg : MessageBody A A} (hs : Credited a n s)
    (hn : NamesAmount a n (Op.process (T := T) msg))
    (hf : HandlesFirst a s (.process msg)) (h : process s msg = .ok s') :
    Credited a n s' := by
  simp only [process, ok_iff] at h
  obtain ⟨sender, hse, -, rfl, m, hm, rfl⟩ := h
  have hh : handled s (.process msg) = some m := by
    simp only [handled, hse, if_true, hm]
  exact processConversion_credited hs (hn m hm) (hf m hh)

theorem convert_credited (hs : Credited a n s) (h : convert s who fee = .ok s') :
    Credited a n s' := by
  simp only [convert, ok_iff] at h
  obtain ⟨-, -, dest, -, -, -, burnable, -, ⟨w, burned⟩, -, -, -, s₁, hse, rfl⟩ := h
  obtain ⟨w', rfl⟩ := sendConvertMessage_ok hse
  exact hs.congr rfl rfl rfl

theorem retryConvertBy_credited {payer : Option A} (hs : Credited a n s)
    (h : retryConvertBy s who acc payer fee = .ok s') : Credited a n s' := by
  simp only [retryConvertBy, ok_iff] at h
  obtain ⟨dest, -, initiated, -, s₁, hse, rfl⟩ := h
  obtain ⟨w', rfl⟩ := sendConvertMessage_ok hse
  exact hs.congr rfl rfl rfl

theorem dispatchSigned_credited (hs : Credited a n s)
    (hf : HandlesFirst a s (.dispatch (.signed who) call))
    (h : dispatchSigned s who call = .ok s') : Credited a n s' := by
  cases call with
  | convert fee => cases h
  | unlock => exact unlock_credited hs h
  | retryConvert fee => exact retryConvertBy_credited hs h
  | retryConvertFor acc fee => exact retryConvertBy_credited hs h
  | retryProcessConversion => exact retryProcessConversionFor_credited hs hf h
  | retryProcessConversionFor acc => exact retryProcessConversionFor_credited hs hf h
  | setEnabled enable => cases h
  | denySource acc denied => cases h

theorem dispatch_credited {o : Origin A} (hs : Credited a n s)
    (hf : HandlesFirst a s (.dispatch o call)) (h : dispatch s o call = .ok s') :
    Credited a n s' := by
  have hsi (h : (okOr o.signer .badOrigin >>= fun who => dispatchSigned s who call) =
      .ok s') : Credited a n s' := by
    rw [bind_eq_ok] at h
    obtain ⟨who, hw, hc⟩ := h
    cases o with
    | root => cases hw
    | signed who' =>
      cases hw
      exact dispatchSigned_credited hs hf hc
  cases call with
  | convert fee =>
    simp only [dispatch, bind_eq_ok] at h
    obtain ⟨-, -, who, -, ho⟩ := h
    exact convert_credited hs ho
  | setEnabled enable =>
    simp only [dispatch, ok_iff] at h
    obtain ⟨-, -, rfl⟩ := h
    exact hs.congr rfl rfl rfl
  | denySource acc denied =>
    simp only [dispatch, ok_iff] at h
    obtain ⟨-, -, rfl⟩ := h
    exact hs.congr rfl rfl rfl
  | _ => exact hsi h

theorem step_credited (s : State T) (op : Op T) (ho : NamesAmount a n op ∧ HandlesFirst a s op)
    (hs : Credited a n s) : Credited a n (step s op) := by
  obtain ⟨hn, hf⟩ := ho
  cases op with
  | dispatch o call => exact transact_induction hs fun s' h => dispatch_credited hs hf h
  | process msg => exact transact_induction hs fun s' h => process_credited hs hn hf h
  | slash acc x => exact slash_credited hs acc x
  | block => exact hs.congr rfl rfl rfl
  | outside w => exact hs.congr rfl rfl rfl

/-- In a run in which the messages for an account name one amount, only the first is processed
without a record, and what cannot be held can be taken back, the account gets at most that amount. -/
theorem funded_le_amount_of_handlesFirst (w : T.World) (a : A) (n : ℕ) (ops : List (Op T))
    (hrun : Along step (fun s op => NamesAmount a n op ∧ HandlesFirst a s op)
      (State.genesis T w) ops) :
    total (fundedTo a) (run step (State.genesis T w) ops) ≤
      n + total (undoneTo a) (run step (State.genesis T w) ops) := by
  have hg : Credited a n (State.genesis T w) := by
    refine ⟨?_, Nat.zero_le _, fun _ _ => le_rfl⟩
    intro b m h
    cases h
  exact (run_invariant step_credited hrun hg).le

section Mock

abbrev Balances := StorageMap ℕ (ℕ × ℕ)

def free (w : Balances) (who : ℕ) : ℕ := (w.getD who (0, 0)).1

def held (w : Balances) (who : ℕ) : ℕ := (w.getD who (0, 0)).2

def takeFree (w : Balances) (who amount : ℕ) : Option Balances := do
  let left ← checkedSub (free w who) amount
  pure (w.insert who (left, held w who))

def mock : Config ℕ where
  palletAccount := 0
  sendTo := none
  receiveFrom := some (.acurastCanary (.extrinsic 0))
  liquidity := 1
  minLockDuration := 3
  maxLockDuration := 48
  minTransferAmount := 200
  convertTtl := 15
  enableOrigin := fun origin => origin = .root
  encodeAccount := fun who => [UInt8.ofNat who]
  encodeMessage := fun m => [UInt8.ofNat m.account, UInt8.ofNat m.amount]
  decodeMessage := fun bytes => match bytes with
    | [account, amount] => some ⟨account.toNat, amount.toNat⟩
    | _ => none
  messageIdHasher := fun bytes => BitVec.ofNat 256 bytes.length
  World := Balances
  minimumBalance := 1
  balance := free
  reducibleBalance := fun w who _ => free w who - 1
  burnFrom := fun w who amount => (takeFree w who amount).map (·, amount)
  transfer := fun w source dest amount _ =>
    (takeFree w source amount).map fun w => w.insert dest (free w dest + amount, held w dest)
  hold := fun w who amount =>
    (takeFree w who amount).map fun w => w.insert who (free w who, held w who + amount)
  releaseAll := fun w who => some (w.insert who (free w who + held w who, 0))
  withdraw := fun w who amount => (takeFree w who amount).map (·, amount)
  onSlash := fun w _ => w
  slashHeld := fun w who amount =>
    (w.insert who (free w who, held w who - amount), min amount (held w who), amount - held w who)
  sendMessage := fun w _ => some (w, none)

def funds : Balances := (∅ : Balances).insert 0 (1000, 0)

def conversionOfFive : MessageBody ℕ ℕ :=
  ⟨.acurastCanary (.extrinsic 0), .acurast (.extrinsic 0), ⟨[5, 250], by decide⟩⟩

def arrives : Op mock := .process conversionOfFive

def arrivesAgain : List (Op mock) := [arrives, .block, arrives]

theorem funded_le_amount_arrivesAgain :
    total (fundedTo 5) (run step (State.genesis mock funds) arrivesAgain) ≤
      250 + total (undoneTo 5) (run step (State.genesis mock funds) arrivesAgain) := by
  have hr : Along step (fun s op => NamesAmount 5 250 op ∧ HandlesFirst 5 s op)
      (State.genesis mock funds) arrivesAgain := by decide +kernel
  exact funded_le_amount_of_handlesFirst (T := mock) funds 5 250 arrivesAgain hr

def unlockedBetween : List (Op mock) :=
  [arrives, .block, .block, .block, .dispatch (.signed 5) .unlock, arrives]

theorem funded_twice_after_unlock :
    total (fundedTo 5) (run step (State.genesis mock funds) unlockedBetween) = 500 ∧
      total (undoneTo 5) (run step (State.genesis mock funds) unlockedBetween) = 0 := by
  decide +kernel

end Mock

end Acurast.TokenConversion

import Acurast.Ibc.ProcessOnce

/-! The fees of the messages on their way. What an account has on hold is the sum of the fees it pays for, and
each fee leaves the hold once: to the relayer in time, or back to the payer after it. -/

namespace Acurast.Ibc

open Base

variable {A : Type} [DecidableEq A] {T : Config A}

/-- The currency: `held` is what an account has on hold for messages, `received` what it was given
out of these holds. With exact precision the whole amount is moved, with best effort as much of it
as there is. Nothing else uses the hold. -/
structure HoldLaws (T : Config A) (held received : T.World → A → ℕ) : Prop where
  hold : ∀ w payer n w', T.hold w payer n = some w' → ∀ p,
    held w' p = held w p + (if p = payer then n else 0) ∧ received w' p = received w p
  releaseExact : ∀ w payer n w', T.release w payer n .exact = some w' → ∀ p,
    held w' p + (if p = payer then n else 0) = held w p ∧
      received w' p = received w p + if p = payer then n else 0
  releaseBestEffort : ∀ w payer n w', T.release w payer n .bestEffort = some w' → ∀ p,
    held w' p = held w p - (if p = payer then n else 0) ∧
      received w' p = received w p + if p = payer then min n (held w payer) else 0
  transferOnHold : ∀ w payer dest n w', T.transferOnHold w payer dest n = some w' → ∀ p,
    held w' p + (if p = payer then n else 0) = held w p ∧
      received w' p = received w p + if p = dest then n else 0
  process : ∀ w body w' requests, T.process w body = some (w', requests) → ∀ p,
    held w' p = held w p ∧ received w' p = received w p

def FeeEntry.leaves (m : OutgoingMessageWithMeta A) : FeeEntry A → Bool
  | .held _ => false
  | .paid m' _ _ => m' = m
  | .refunded m' _ => m' = m

def FeeEntry.gives (p : A) : FeeEntry A → ℕ
  | .held _ => 0
  | .paid m relayer _ => if p = relayer then m.fee else 0
  | .refunded m _ => if p = m.payer then m.fee else 0

/-- A relayer is paid in time, with its own confirmation, and a payer gets its fee back afterwards. -/
def FeeEntry.Due (ops : List (Op T)) : FeeEntry A → Prop
  | .held _ => True
  | .paid m relayer block => block ≤ m.ttlBlock ∧ ∃ signatures,
    .dispatch (.signed relayer) (.confirmMessageDelivery m.message.id signatures) ∈ ops
  | .refunded m block => m.ttlBlock < block

def feeOf (p : A) (_ : MessageId) (m : OutgoingMessageWithMeta A) : ℕ := if p = m.payer then m.fee else 0

def pending (s : State T) (m : OutgoingMessageWithMeta A) : ℕ :=
  if s.outgoingMessages.lookup m.message.id = some m then 1 else 0

structure Escrowed (held received : T.World → A → ℕ) (ops : List (Op T)) (s : State T) : Prop where
  balance : ∀ p, held s.world p = StorageMap.sum s.outgoingMessages (feeOf p)
  ids : ∀ id m, s.outgoingMessages.lookup id = some m → m.message.id = id
  once : ∀ m, s.fees.count (.held m) = s.fees.countP (·.leaves m) + pending s m
  due : ∀ entry ∈ s.fees, entry.Due ops
  given : ∀ p, received s.world p = (s.fees.map (·.gives p)).sum

variable {held received : T.World → A → ℕ} {ops : List (Op T)} {s s' : State T}

theorem Escrowed.congr (h : Escrowed held received ops s)
    (hw : ∀ p, held s'.world p = held s.world p ∧ received s'.world p = received s.world p)
    (ho : s'.outgoingMessages = s.outgoingMessages) (hf : s'.fees = s.fees) :
    Escrowed held received ops s' := by
  refine ⟨fun p => ?_, fun id m hm => h.ids id m (ho ▸ hm), fun m => ?_, ?_, fun p => ?_⟩
  · rw [(hw p).1, ho]
    exact h.balance p
  · rw [hf, h.once m, pending, pending, ho]
  · rw [hf]
    exact h.due
  · rw [(hw p).2, hf]
    exact h.given p

variable {id : MessageId} {old : Option (OutgoingMessageWithMeta A)} {w : T.World}
  {m : OutgoingMessageWithMeta A} {r : SendRequest A} {who : A} {call : Call A}

theorem Escrowed.change (h : Escrowed held received ops s) {new : Option (OutgoingMessageWithMeta A)}
    {es : List (FeeEntry A)} (hfees : s'.fees = s.fees ++ es)
    (hc : StorageMap.Changes s.outgoingMessages s'.outgoingMessages id old new)
    (hn : ∀ m, new = some m → m.message.id = id)
    (hw : ∀ p, held s'.world p + StorageMap.at? (feeOf p) id old =
      held s.world p + StorageMap.at? (feeOf p) id new)
    (hg : ∀ p, received s'.world p = received s.world p + (es.map (·.gives p)).sum)
    (hp : ∀ m, es.count (.held m) = if new = some m then 1 else 0)
    (hl : ∀ m, es.countP (·.leaves m) = if old = some m then 1 else 0)
    (hu : ∀ entry ∈ es, entry.Due ops) : Escrowed held received ops s' := by
  refine ⟨fun p => ?_, fun id' m hm => ?_, fun m => ?_, ?_, fun p => ?_⟩
  · have hs := hc.sum_eq (feeOf p)
    have hba := h.balance p
    have hmo := hw p
    omega
  · rw [hc.lookup_eq] at hm
    split_ifs at hm with hd
    · exact (hn m hm).trans hd.symm
    · exact h.ids id' m hm
  · have ho := h.once m
    rw [hfees, List.count_append, List.countP_append, hp, hl, ho]
    unfold pending
    rw [hc.lookup_eq]
    by_cases hd : m.message.id = id
    · rw [if_pos hd, hd, hc.lookup]
    · -- a message under another id is neither the old nor the new one
      have hold : old ≠ some m := fun hm => hd (h.ids id m (hc.lookup.trans hm))
      have hf : new ≠ some m := fun hm => hd (hn m hm)
      rw [if_neg hd, if_neg hold, if_neg hf]
      omega
  · rw [hfees, List.forall_mem_append]
    exact ⟨h.due, hu⟩
  · rw [hg, hfees, List.map_append, List.sum_append, h.given p]

theorem replaceMessage_ok (ha : HoldLaws T held received) (id : MessageId)
    (h : whenSome old s.world (replaceMessage s) = .ok w) :
    (∀ m, old = some m → m.ttlBlock < s.blockNumber) ∧
      ∀ p, held w p + StorageMap.at? (feeOf p) id old = held s.world p ∧
        received w p = received s.world p + StorageMap.at? (feeOf p) id old := by
  rcases whenSome_eq_ok.mp h with ⟨rfl, rfl⟩ | ⟨m, rfl, hr⟩
  · exact ⟨nofun, fun p => ⟨rfl, rfl⟩⟩
  · simp only [replaceMessage, ok_iff] at hr
    obtain ⟨_, hx, hl⟩ := hr
    refine ⟨fun m' hm' => Option.some.inj hm' ▸ hx, fun p => ?_⟩
    exact ha.releaseExact _ _ _ _ hl p

theorem count_held_refunded (o : Option (OutgoingMessageWithMeta A)) (block : ℕ)
    (m : OutgoingMessageWithMeta A) :
    (o.map (FeeEntry.refunded · block)).toList.count (.held m) = 0 := by
  cases o with
  | none => rfl
  | some m' => simp

theorem countP_leaves_refunded (o : Option (OutgoingMessageWithMeta A)) (block : ℕ)
    (m : OutgoingMessageWithMeta A) :
    (o.map (FeeEntry.refunded · block)).toList.countP (·.leaves m) = if o = some m then 1 else 0 := by
  cases o with
  | none => rfl
  | some m' => simp [FeeEntry.leaves, List.countP_cons]

theorem sum_gives_refunded (o : Option (OutgoingMessageWithMeta A)) (block : ℕ) (id : MessageId) (p : A) :
    ((o.map (FeeEntry.refunded · block)).toList.map (·.gives p)).sum = StorageMap.at? (feeOf p) id o := by
  cases o with
  | none => rfl
  | some m' => simp [FeeEntry.gives, feeOf]

theorem doSendMessage_escrowed (hl : HoldLaws T held received)
    (h : doSendMessage s r = .ok (s', m, old)) (hs : Escrowed held received ops s) :
    Escrowed held received ops s' := by
  simp only [doSendMessage, ok_iff, Prod.mk.injEq] at h
  obtain ⟨_, -, _, -, w, hp, _, -, pl, -, w', hh, rfl, rfl, rfl⟩ := h
  obtain ⟨hx, hr⟩ := replaceMessage_ok hl (messageId T (selfSubject T r.sender) r.nonce) hp
  generalize hold : s.outgoingMessages.lookup (messageId T (selfSubject T r.sender) r.nonce) = old
    at hx hr
  refine hs.change (List.append_assoc _ _ _) (.insert hold _) ?_ ?_ ?_ ?_ ?_ ?_
  · intro m hm
    rw [← Option.some.inj hm]
  · intro p
    have hu := (hl.hold _ _ _ _ hh p).1
    have hb := (hr p).1
    show held w' p + _ = held s.world p + if p = r.payer then r.fee else 0
    omega
  · intro p
    rw [List.map_append, List.sum_append, sum_gives_refunded _ _
      (messageId T (selfSubject T r.sender) r.nonce)]
    exact (hl.hold _ _ _ _ hh p).2.trans (hr p).2
  · intro m
    rw [List.count_append, count_held_refunded, List.count_singleton]
    simp
  · intro m
    rw [List.countP_append, countP_leaves_refunded, List.countP_singleton]
    simp [FeeEntry.leaves]
  · intro entry hn
    rcases List.mem_append.mp hn with hf | hhe
    · obtain ⟨m, rfl, rfl⟩ : ∃ m, old = some m ∧ FeeEntry.refunded m s.blockNumber = entry := by
        simpa using hf
      exact hx m rfl
    · rw [List.mem_singleton.mp hhe]
      trivial

theorem sendMessage_escrowed (hl : HoldLaws T held received) (h : sendMessage s r = .ok s')
    (hs : Escrowed held received ops s) : Escrowed held received ops s' := by
  simp only [sendMessage, ok_iff] at h
  obtain ⟨⟨s₁, m, old⟩, hse, rfl⟩ := h
  exact doSendMessage_escrowed hl hse hs

theorem Escrowed.leave (h : Escrowed held received ops s)
    (hf : s.outgoingMessages.lookup id = some m)
    (ho : s'.outgoingMessages = s.outgoingMessages.erase id)
    {entry : FeeEntry A} (hfees : s'.fees = s.fees ++ [entry])
    (hw : ∀ p, held s'.world p + (if p = m.payer then m.fee else 0) = held s.world p)
    (hg : ∀ p, received s'.world p = received s.world p + entry.gives p)
    (hl : ∀ m', entry.leaves m' = decide (m = m')) (hd : entry.Due ops) :
    Escrowed held received ops s' := by
  have hn : ∀ m', entry ≠ .held m' := by
    rintro m' rfl
    have hs := hl m
    simp [FeeEntry.leaves] at hs
  have hc : StorageMap.Changes s.outgoingMessages s'.outgoingMessages id (some m) none :=
    ho ▸ .erase hf
  refine h.change hfees hc (fun m' hm' => ?_) hw (fun p => ?_) (fun m' => ?_) (fun m' => ?_) ?_
  · cases hm'
  · rw [List.map_singleton, List.sum_singleton]
    exact hg p
  · rw [List.count_singleton, if_neg (by simpa using hn m'), if_neg nofun]
  · rw [List.countP_singleton, hl]
    simp
  · intro entry' he'
    rwa [List.mem_singleton.mp he']

theorem confirmMessageDelivery_escrowed (hl : HoldLaws T held received) {sigs : Signatures}
    (hm : .dispatch (.signed who) (.confirmMessageDelivery id sigs) ∈ ops)
    (h : confirmMessageDelivery s who id sigs = .ok s') (hs : Escrowed held received ops s) :
    Escrowed held received ops s' := by
  simp only [confirmMessageDelivery, ok_iff] at h
  obtain ⟨m, hf, _, hn, _, -, w, ht, rfl⟩ := h
  have hw := hl.transferOnHold _ _ _ _ _ ht
  refine hs.leave hf rfl rfl (fun p => (hw p).1) (fun p => (hw p).2) (fun _ => rfl) ⟨hn, sigs, ?_⟩
  rw [hs.ids id m hf]
  exact hm

theorem removeMessage_escrowed (hl : HoldLaws T held received) (h : removeMessage s id = .ok s')
    (hs : Escrowed held received ops s) : Escrowed held received ops s' := by
  simp only [removeMessage, ok_iff] at h
  obtain ⟨m, hf, _, hx, w, hr, rfl⟩ := h
  -- the whole fee is on hold, so best effort releases all of it
  have hc : m.fee ≤ held s.world m.payer := by
    rw [hs.balance]
    exact (if_pos rfl).ge.trans (StorageMap.le_sum (f := feeOf m.payer) hf)
  refine hs.leave hf rfl rfl (fun p => ?_) (fun p => ?_) (fun _ => rfl) hx
  · have hb := (hl.releaseBestEffort _ _ _ _ hr p).1
    show held w p + _ = held s.world p
    rw [hb]
    split_ifs with hp
    · rw [hp]
      exact Nat.sub_add_cancel hc
    · rfl
  · have hb := (hl.releaseBestEffort _ _ _ _ hr p).2
    rwa [Nat.min_eq_left hc] at hb

theorem processMessage_escrowed (hl : HoldLaws T held received) {m : Message A}
    (h : processMessage s m = .ok s') (hs : Escrowed held received ops s) :
    Escrowed held received ops s' := by
  simp only [processMessage, ok_iff] at h
  obtain ⟨⟨w, requests⟩, hp, hse⟩ := h
  refine foldlM_invariant (P := Escrowed held received ops)
    (fun t req t' ht => sendMessage_escrowed hl ht) hse ?_
  exact hs.congr (hl.process _ _ _ _ hp) rfl rfl

theorem acceptMessage_escrowed (hl : HoldLaws T held received) (m : IncomingMessageWithMeta A)
    (hs : Escrowed held received ops s) : Escrowed held received ops (acceptMessage s m) := by
  unfold acceptMessage
  have ht : Escrowed held received ops { s with
      incomingMessages := s.incomingMessages.insert m.message.id m
      incomingMessagesLookup :=
        s.incomingMessagesLookup.insert (m.message.recipient, m.message.id) () } :=
    hs.congr (fun _ => ⟨rfl, rfl⟩) rfl rfl
  dsimp only
  split
  · next s₁ hp =>
    exact (processMessage_escrowed hl hp ht).congr (fun _ => ⟨rfl, rfl⟩) rfl rfl
  · exact ht.congr (fun _ => ⟨rfl, rfl⟩) rfl rfl

theorem cleanIncoming_escrowed (ids : MessagesCleanup) (hs : Escrowed held received ops s) :
    Escrowed held received ops (cleanIncoming s ids).1 := by
  have hf : Escrowed held received ops (ids.val.foldl cleanOne (s, 0)).1 := by
    refine List.foldlRecOn (motive := fun acc : State T × ℕ => Escrowed held received ops acc.1)
      ids.val cleanOne ?_ ?_
    · exact hs
    · intro acc ha id _
      unfold cleanOne
      dsimp only
      split
      · exact ha
      · split_ifs
        · exact ha.congr (fun _ => ⟨rfl, rfl⟩) rfl rfl
        · exact ha
  exact hf

theorem updateOracles_escrowed (ups : OracleUpdates) (hs : Escrowed held received ops s) :
    Escrowed held received ops (updateOracles s ups) := by
  have hf : Escrowed held received ops (ups.val.foldl updateOracle s) := by
    refine List.foldlRecOn ups.val updateOracle hs ?_
    intro s₁ hs₁ u _
    cases u with
    | add | remove | update => exact hs₁.congr (fun _ => ⟨rfl, rfl⟩) rfl rfl
  exact hf.congr (fun _ => ⟨rfl, rfl⟩) rfl rfl

theorem dispatchSigned_escrowed (hl : HoldLaws T held received) {pays : Pays}
    (hmem : .dispatch (.signed who) call ∈ ops)
    (h : dispatchSigned s who call = .ok (s', pays)) (hs : Escrowed held received ops s) :
    Escrowed held received ops s' := by
  cases call with
  | updateOracles updates => cases h
  | sendTestMessage recipient ttl fee =>
    exact sendMessage_escrowed hl (ok_of_pays h) (hs.congr (fun _ => ⟨rfl, rfl⟩) rfl rfl)
  | confirmMessageDelivery id signatures => exact confirmMessageDelivery_escrowed hl hmem (ok_of_pays h) hs
  | removeMessage id => exact removeMessage_escrowed hl (ok_of_pays h) hs
  | receiveMessage sender nonce recipient payload relayer signatures =>
    have hr := ok_of_pays h
    simp only [receiveMessage, ok_iff] at hr
    obtain ⟨_, -, _, -, _, -, rfl⟩ := hr
    exact acceptMessage_escrowed hl _ hs
  | cleanIncoming ids =>
    have hc : cleanIncoming s ids = (s', pays) := pure_eq_ok.mp h
    have ht : (cleanIncoming s ids).1 = s' := congrArg Prod.fst hc
    rw [← ht]
    exact cleanIncoming_escrowed ids hs

theorem dispatch_escrowed (hl : HoldLaws T held received) {o : Origin A} {pays : Pays}
    (hm : .dispatch o call ∈ ops) (h : dispatch s o call = .ok (s', pays))
    (hs : Escrowed held received ops s) : Escrowed held received ops s' := by
  cases call with
  | updateOracles updates =>
    simp only [dispatch, ok_iff, Prod.mk.injEq] at h
    obtain ⟨_, -, rfl, -⟩ := h
    exact updateOracles_escrowed updates hs
  | _ =>
    cases o with
    | root => cases h
    | signed who => exact dispatchSigned_escrowed hl hm h hs

def Untouched (held received : T.World → A → ℕ) (s : State T) : Op T → Prop
  | .outside w => ∀ p, held w p = held s.world p ∧ received w p = received s.world p
  | _ => True

theorem step_escrowed (hl : HoldLaws T held received) {op : Op T} (hm : op ∈ ops)
    (ho : Untouched held received s op) (hs : Escrowed held received ops s) :
    Escrowed held received ops (step s op) := by
  cases op with
  | dispatch o call =>
    refine transact_induction hs fun s' hd => ?_
    cases hc : dispatch s o call with
    | error e =>
      rw [hc] at hd
      cases hd
    | ok result =>
      rw [hc] at hd
      cases hd
      exact dispatch_escrowed hl hm hc hs
  | sendMessage req => exact transact_induction hs fun s' hse => sendMessage_escrowed hl hse hs
  | block => exact hs.congr (fun _ => ⟨rfl, rfl⟩) rfl rfl
  | outside w => exact hs.congr ho rfl rfl

theorem genesis_escrowed (hw : ∀ p, held w p = 0 ∧ received w p = 0) :
    Escrowed held received ops (State.genesis T w) := by
  refine ⟨fun p => (hw p).1, fun _ _ hm => ?_, fun _ => rfl, fun _ hn => ?_, fun p => (hw p).2⟩
  · cases hm
  · cases hn

/-- In every run an account has on hold the fees of its messages on their way. Each fee put on hold
is still there or left once, in time for the relayer who confirmed the delivery or after the last
block of the message for its payer; and these got just these fees. -/
theorem fees_held_once (T : Config A) (held received : T.World → A → ℕ)
    (hlaws : HoldLaws T held received) (w : T.World)
    (hw : ∀ p, held w p = 0 ∧ received w p = 0) (ops : List (Op T))
    (hrun : Along step (Untouched held received) (State.genesis T w) ops) :
    (∀ p, held (run step (State.genesis T w) ops).world p =
      StorageMap.sum (run step (State.genesis T w) ops).outgoingMessages
        fun _ m => if p = m.payer then m.fee else 0) ∧
    (∀ m, (run step (State.genesis T w) ops).fees.count (.held m) =
      (run step (State.genesis T w) ops).fees.countP (·.leaves m) +
        pending (run step (State.genesis T w) ops) m) ∧
    (∀ entry ∈ (run step (State.genesis T w) ops).fees, entry.Due ops) ∧
    ∀ p, received (run step (State.genesis T w) ops).world p =
      ((run step (State.genesis T w) ops).fees.map (·.gives p)).sum := by
  have hm : Along step (fun _ op => op ∈ ops) (State.genesis T w) ops := Along.of_mem fun _ => id
  have hes := run_invariant (fun (s : State T) (op : Op T)
    (ho : op ∈ ops ∧ Untouched held received s op) (hs : Escrowed held received ops s) =>
      step_escrowed hlaws ho.1 ho.2 hs) (hm.and hrun) (genesis_escrowed hw)
  exact ⟨hes.balance, hes.once, hes.due, hes.given⟩

def credit (w : ℕ → ℕ) (p n : ℕ) : ℕ → ℕ := Function.update w p (w p + n)

def debit (w : ℕ → ℕ) (p n : ℕ) : ℕ → ℕ := Function.update w p (w p - n)

abbrev Purse := (ℕ → ℕ) × (ℕ → ℕ)

def Purse.take (w : Purse) (payer dest n : ℕ) : Option Purse :=
  if n ≤ w.1 payer then some (debit w.1 payer n, credit w.2 dest n) else none

def ledger : Config ℕ :=
  { mock with
    minTtl := 1
    World := Purse
    hold := fun w p n => some (credit w.1 p n, w.2)
    release := fun w p n precision => match precision with
      | .exact => Purse.take w p p n
      | .bestEffort => some (debit w.1 p n, credit w.2 p (min n (w.1 p)))
    transferOnHold := Purse.take
    process := fun w _ => some (w, []) }

theorem credit_apply (w : ℕ → ℕ) (payer n p : ℕ) :
    credit w payer n p = w p + if p = payer then n else 0 := by
  rw [credit, Function.update_apply]
  split_ifs with hp
  · rw [hp]
  · rfl

theorem debit_apply (w : ℕ → ℕ) (payer n p : ℕ) :
    debit w payer n p = w p - if p = payer then n else 0 := by
  rw [debit, Function.update_apply]
  split_ifs with hp
  · rw [hp]
  · rfl

theorem Purse.take_some {w w' : Purse} {payer dest n : ℕ} (h : w.take payer dest n = some w')
    (p : ℕ) : w'.1 p + (if p = payer then n else 0) = w.1 p ∧
      w'.2 p = w.2 p + if p = dest then n else 0 := by
  unfold Purse.take at h
  split_ifs at h with hl
  cases h
  refine ⟨?_, credit_apply _ _ _ _⟩
  dsimp only
  rw [debit_apply]
  split_ifs with hp
  · rw [hp]
    exact Nat.sub_add_cancel hl
  · rfl

theorem ledger_laws : HoldLaws ledger Prod.fst Prod.snd where
  hold w payer n w' h p := by
    cases h
    exact ⟨credit_apply _ _ _ _, rfl⟩
  releaseExact w payer n w' h p := Purse.take_some h p
  releaseBestEffort w payer n w' h p := by
    cases h
    exact ⟨debit_apply _ _ _ _, credit_apply _ _ _ _⟩
  transferOnHold w payer dest n w' h p := Purse.take_some h p
  process w body w' requests h p := by
    cases h
    exact ⟨rfl, rfl⟩

def sent (payer fee : ℕ) (nonce : MessageNonce) : Op ledger :=
  .sendMessage ⟨4, payer, nonce, .alephZero (.extrinsic 5), [1, 2], 1, fee⟩

def sentMessage (nonce : MessageNonce) : Message ℕ where
  id := messageId ledger (.acurast (.extrinsic 4)) nonce
  sender := .acurast (.extrinsic 4)
  nonce := nonce
  recipient := .alephZero (.extrinsic 5)
  payload := ⟨[1, 2], Nat.le_add_left 2 _⟩

def confirmed (relayer : ℕ) (nonce : MessageNonce) : Op ledger :=
  let signature : Signature := BitVec.ofNat _
    ((fullMessage ledger (sentMessage nonce) (some relayer)).foldl (fun h b => h * 256 + b.toNat) 7)
  .dispatch (.signed relayer)
    (.confirmMessageDelivery (sentMessage nonce).id (BoundedVec.singleton (signature, 7)))

/-- The first message expires and is sent again for another payer; the second is removed after it
expired; account 8 confirms the delivery of the third. -/
def resent : List (Op ledger) :=
  [.dispatch .root (.updateOracles (BoundedVec.singleton (.add 7 ⟨0, none⟩))), sent 6 10 1, sent 6 20 2,
    .block, .block, sent 7 30 1, .dispatch (.signed 9) (.removeMessage (sentMessage 2).id), sent 6 40 3,
    confirmed 8 3]

def resentState : State ledger := run step (State.genesis ledger (fun _ => 0, fun _ => 0)) resent

theorem fees_held_once_of_resent :
    (resentState.world.1 7 = 30 ∧ resentState.world.2 6 = 30 ∧ resentState.world.2 8 = 40) ∧
      (∀ p, resentState.world.1 p =
        StorageMap.sum resentState.outgoingMessages fun _ m => if p = m.payer then m.fee else 0) ∧
      ∀ p, resentState.world.2 p = (resentState.fees.map (FeeEntry.gives p)).sum := by
  have hf := fees_held_once ledger Prod.fst Prod.snd ledger_laws (fun _ => 0, fun _ => 0)
    (fun _ => ⟨rfl, rfl⟩) resent
    ⟨trivial, trivial, trivial, trivial, trivial, trivial, trivial, trivial, trivial, trivial⟩
  rw [← resentState] at hf
  exact ⟨by decide +kernel, hf.1, hf.2.2.2⟩

end Acurast.Ibc

import Acurast.Base.Run
import Acurast.Ibc.Pallet

/-! How often a message is processed. The record of a received message is all that keeps it from
being processed again, so the executions of an id are counted by its record and its clean-ups. -/

namespace Acurast.Ibc

open Base

variable {A : Type} {T : Config A} {s s' : State T}

def Event.processes (id : MessageId) : Event A → Bool
  | .messageProcessed m => m.message.id = id
  | .messageProcessedWithErrors m => m.message.id = id
  | _ => false

def processed (s : State T) (id : MessageId) : ℕ := s.events.countP (·.processes id)

def stored (s : State T) (id : MessageId) : ℕ :=
  if (s.incomingMessages.lookup id).isSome then 1 else 0

def Balanced (s : State T) : Prop := ∀ id, processed s id = s.cleaned.count id + stored s id

structure Still (s s' : State T) : Prop where
  incomingMessages : s'.incomingMessages = s.incomingMessages
  cleaned : s'.cleaned = s.cleaned
  processed : processed s' = processed s

theorem Still.refl (s : State T) : Still s s := ⟨rfl, rfl, rfl⟩

theorem Still.trans {s₁ : State T} (h : Still s s₁) (h' : Still s₁ s') : Still s s' where
  incomingMessages := h'.incomingMessages.trans h.incomingMessages
  cleaned := h'.cleaned.trans h.cleaned
  processed := h'.processed.trans h.processed

theorem Still.stored_eq (h : Still s s') : stored s' = stored s := by
  funext id
  rw [stored, stored, h.incomingMessages]

theorem Still.balanced (h : Still s s') (hs : Balanced s) : Balanced s' := by
  intro id
  rw [h.processed, h.cleaned, h.stored_eq]
  exact hs id

theorem processed_deposit (s : State T) (e : Event A) (id : MessageId) :
    processed (s.deposit e) id = processed s id + if e.processes id then 1 else 0 :=
  List.countP_cons ..

theorem Still.deposit (h : Still s s') {e : Event A} (he : ∀ id, e.processes id = false) :
    Still s (s'.deposit e) := by
  refine ⟨h.incomingMessages, h.cleaned, ?_⟩
  funext id
  rw [processed_deposit, he id, h.processed]
  simp

section Calls

theorem updateOracles_still (s : State T) (ups : OracleUpdates) :
    Still s (updateOracles s ups) := by
  have hf : Still s (ups.val.foldl updateOracle s) := by
    refine List.foldlRecOn ups.val updateOracle (.refl s) ?_
    intro s₁ hs₁ u _
    refine hs₁.trans ?_
    cases u <;> exact ⟨rfl, rfl, rfl⟩
  exact hf.deposit fun _ => rfl

theorem genesis_balanced (w : T.World) : Balanced (State.genesis T w) := by
  intro id
  rfl

variable [DecidableEq A]

variable {r : SendRequest A} {id : MessageId} {signatures sigs : Signatures} {who : A}
  {m : IncomingMessageWithMeta A} {nonce : MessageNonce} {payload pl : Payload}
  {relayer : MultiOrigin A} {call : Call A} {pays : Pays} {op : Op T}

theorem doSendMessage_still {m : OutgoingMessageWithMeta A}
    {old : Option (OutgoingMessageWithMeta A)} (h : doSendMessage s r = .ok (s', m, old)) :
    Still s s' := by
  simp only [doSendMessage, ok_iff, Prod.mk.injEq] at h
  obtain ⟨-, -, -, -, w, -, -, -, pl, -, w', -, hs', -, -⟩ := h
  rw [← hs']
  apply Still.deposit
  · exact ⟨rfl, rfl, rfl⟩
  · intro id
    rfl

theorem sendMessage_still (h : sendMessage s r = .ok s') : Still s s' := by
  simp only [sendMessage, ok_iff] at h
  obtain ⟨⟨s₁, m, old⟩, hs, rfl⟩ := h
  exact doSendMessage_still hs

theorem processMessage_still {m : Message A} (h : processMessage s m = .ok s') : Still s s' := by
  simp only [processMessage, bind_eq_ok] at h
  obtain ⟨⟨w, requests⟩, -, hs⟩ := h
  refine foldlM_invariant (P := Still s) ?_ hs ⟨rfl, rfl, rfl⟩
  intro s₁ r s₂ hse hs₁
  exact hs₁.trans (sendMessage_still hse)

theorem clearOutgoing_still (s : State T) (id : MessageId) (m : Message A) :
    Still s (clearOutgoing s id m) := ⟨rfl, rfl, rfl⟩

theorem confirmMessageDelivery_still (h : confirmMessageDelivery s who id sigs = .ok s') :
    Still s s' := by
  simp only [confirmMessageDelivery, ok_iff] at h
  obtain ⟨m, -, -, -, -, -, w, -, rfl⟩ := h
  refine Still.trans ?_ (clearOutgoing_still _ id m.message)
  apply Still.deposit
  · exact ⟨rfl, rfl, rfl⟩
  · intro id'
    rfl

theorem removeMessage_still (h : removeMessage s id = .ok s') : Still s s' := by
  simp only [removeMessage, ok_iff] at h
  obtain ⟨m, -, -, -, w, -, rfl⟩ := h
  refine Still.trans ?_ (clearOutgoing_still _ id m.message)
  apply Still.deposit
  · exact ⟨rfl, rfl, rfl⟩
  · intro id'
    rfl

theorem acceptMessage_spec (s : State T) (m : IncomingMessageWithMeta A) :
    (acceptMessage s m).incomingMessages = s.incomingMessages.insert m.message.id m ∧
      (acceptMessage s m).cleaned = s.cleaned ∧
      ∀ id, processed (acceptMessage s m) id =
        processed s id + if m.message.id = id then 1 else 0 := by
  unfold acceptMessage
  dsimp only
  split
  · next s₁ h =>
    have hs := processMessage_still h
    refine ⟨hs.incomingMessages, hs.cleaned, ?_⟩
    intro id
    rw [processed_deposit, hs.processed]
    simp [Event.processes, processed]
  · refine ⟨rfl, rfl, ?_⟩
    intro id
    rw [processed_deposit]
    simp [Event.processes, processed]

theorem acceptMessage_balanced (hf : s.incomingMessages.lookup m.message.id = none)
    (hs : Balanced s) : Balanced (acceptMessage s m) := by
  obtain ⟨hn, hc, hp⟩ := acceptMessage_spec s m
  intro id
  have hd := hs id
  rw [hp, hc, stored, hn, lookup_insert_eq, hd, stored]
  by_cases h : m.message.id = id
  · subst h
    simp [hf]
  · simp [h, Ne.symm h]

structure Accepts (s : State T) (m : Message A) (signatures : Signatures) : Prop where
  recipient : m.recipient.proxyChain = T.selfChain.toProxyChain
  fresh : s.incomingMessages.lookup m.id = none
  signatures : checkSignatures s m none signatures T.minReceiptConfirmationSignatures = .ok ()

theorem receiveMessage_eq_ok {sender recipient : Subject A A} :
    receiveMessage s sender nonce recipient pl relayer sigs = .ok s' ↔
      Accepts s ⟨messageId T sender nonce, sender, nonce, recipient, pl⟩ sigs ∧
        acceptMessage s ⟨⟨messageId T sender nonce, sender, nonce, recipient, pl⟩,
          s.blockNumber, relayer⟩ = s' := by
  simp only [receiveMessage, ok_iff]
  constructor
  · rintro ⟨_, hr, _, hf, _, hs, hs'⟩
    exact ⟨⟨hr, hf, hs⟩, hs'⟩
  · rintro ⟨⟨hr, hf, hs⟩, hs'⟩
    exact ⟨(), hr, (), hf, (), hs, hs'⟩

omit [DecidableEq A] in
theorem lookup_eq_some_stored (h : s.incomingMessages.lookup id = some m) :
    stored s id = 1 := by simp [stored, h]

theorem cleanOne_spec (acc : State T × ℕ) (id : MessageId) :
    processed (cleanOne acc id).1 = processed acc.1 ∧
      (Balanced acc.1 → Balanced (cleanOne acc id).1) := by
  unfold cleanOne
  dsimp only
  split
  · exact ⟨rfl, fun h => h⟩
  · next m hm =>
    split
    · refine ⟨rfl, ?_⟩
      intro hs id'
      have hd := hs id'
      change processed acc.1 id' = _
      rw [hd, List.count_cons, stored, stored, lookup_erase_eq]
      by_cases h : id' = id
      · subst h
        simp [hm]
      · simp [h, Ne.symm h]
    · exact ⟨rfl, fun h => h⟩

theorem cleanIncoming_spec (s : State T) (ids : MessagesCleanup) :
    processed (cleanIncoming s ids).1 = processed s ∧
      (Balanced s → Balanced (cleanIncoming s ids).1) := by
  let Kept (acc : State T × ℕ) : Prop :=
    processed acc.1 = processed s ∧ (Balanced s → Balanced acc.1)
  suffices hf : Kept (ids.val.foldl cleanOne (s, 0)) from hf
  refine List.foldlRecOn (motive := Kept) ids.val cleanOne ⟨rfl, fun h => h⟩ ?_
  intro acc ha id _
  obtain ⟨hp, hb⟩ := cleanOne_spec acc id
  exact ⟨hp.trans ha.1, fun hs => hb (ha.2 hs)⟩

inductive Effect (s : State T) (op : Op T) (s' : State T) : Prop
  | still (still : Still s s')
  | cleaned (ids : MessagesCleanup) (result : (cleanIncoming s ids).1 = s')
  | accepted {who : A} {sender recipient : Subject A A} {nonce : MessageNonce} {payload : Payload}
      {relayer : MultiOrigin A} {signatures : Signatures}
      (call : op =
        .dispatch (.signed who) (.receiveMessage sender nonce recipient payload relayer signatures))
      (accepts : Accepts s ⟨messageId T sender nonce, sender, nonce, recipient, payload⟩ signatures)
      (result : acceptMessage s ⟨⟨messageId T sender nonce, sender, nonce, recipient, payload⟩,
          s.blockNumber, relayer⟩ = s')

omit [DecidableEq A] in
theorem ok_of_pays {r : Result (State T)} (h : (fun x => (x, Pays.yes)) <$> r = .ok (s', pays)) :
    r = .ok s' := by
  cases r with
  | error e => cases h
  | ok s₁ =>
    cases h
    rfl

theorem dispatchSigned_effect (h : dispatchSigned s who call = .ok (s', pays)) :
    Effect s (.dispatch (.signed who) call) s' := by
  cases call with
  | updateOracles updates => cases h
  | sendTestMessage recipient ttl fee =>
    have hs := sendMessage_still (ok_of_pays h)
    exact .still ⟨hs.incomingMessages, hs.cleaned, hs.processed⟩
  | confirmMessageDelivery id sigs => exact .still (confirmMessageDelivery_still (ok_of_pays h))
  | removeMessage id => exact .still (removeMessage_still (ok_of_pays h))
  | receiveMessage sender nonce recipient pl relayer sigs =>
    obtain ⟨ha, hr⟩ := receiveMessage_eq_ok.mp (ok_of_pays h)
    exact .accepted rfl ha hr
  | cleanIncoming ids =>
    cases h
    exact .cleaned ids rfl

theorem dispatch_effect {o : Origin A} (h : dispatch s o call = .ok (s', pays)) :
    Effect s (.dispatch o call) s' := by
  have hs (h : (okOr o.signer .badOrigin >>= fun who => dispatchSigned s who call) =
      .ok (s', pays)) : Effect s (.dispatch o call) s' := by
    rw [bind_eq_ok] at h
    obtain ⟨who, hw, hc⟩ := h
    cases o with
    | root => cases hw
    | signed who' =>
      cases hw
      exact dispatchSigned_effect hc
  cases call with
  | updateOracles ups =>
    simp only [dispatch, ok_iff, Prod.mk.injEq] at h
    obtain ⟨-, -, rfl, -⟩ := h
    exact .still (updateOracles_still s ups)
  | _ => exact hs h

theorem step_effect (s : State T) (op : Op T) : Effect s op (step s op) := by
  cases op with
  | dispatch o call =>
    refine transact_induction (P := Effect s (.dispatch o call)) (.still (.refl s)) ?_
    intro s' h
    cases hd : dispatch s o call with
    | error e =>
      rw [hd] at h
      cases h
    | ok r =>
      rw [hd] at h
      cases h
      exact dispatch_effect hd
  | sendMessage req =>
    refine transact_induction (P := Effect s (.sendMessage req)) (.still (.refl s)) ?_
    intro s' h
    exact .still (sendMessage_still h)
  | block => exact .still ⟨rfl, rfl, rfl⟩
  | outside w => exact .still ⟨rfl, rfl, rfl⟩

theorem step_balanced (s : State T) (op : Op T) (hs : Balanced s) : Balanced (step s op) := by
  cases step_effect s op with
  | still ht => exact ht.balanced hs
  | cleaned ids hr => exact hr ▸ (cleanIncoming_spec s ids).2 hs
  | accepted call ha hr => exact hr ▸ acceptMessage_balanced ha.fresh hs

theorem processed_le_step (s : State T) (op : Op T) (id : MessageId) :
    processed s id ≤ processed (step s op) id := by
  cases step_effect s op with
  | still hs => rw [hs.processed]
  | cleaned ids hr => rw [← hr, (cleanIncoming_spec s ids).1]
  | accepted call ha hr =>
    rw [← hr, (acceptMessage_spec s _).2.2]
    exact Nat.le_add_right _ _

theorem processed_le_run (s : State T) (ops : List (Op T)) (id : MessageId) :
    processed s id ≤ processed (run step s ops) id := by
  induction ops generalizing s with
  | nil => exact le_rfl
  | cons op ops ih => exact (processed_le_step s op id).trans (ih (step s op))

def Resubmits (s : State T) : Op T → Prop
  | .dispatch (.signed _) (.receiveMessage sender nonce recipient payload _ signatures) =>
    messageId T sender nonce ∈ s.cleaned ∧ recipient.proxyChain = T.selfChain.toProxyChain ∧
      checkSignatures s ⟨messageId T sender nonce, sender, nonce, recipient, payload⟩ none
        signatures T.minReceiptConfirmationSignatures = .ok ()
  | _ => False

theorem two_le_processed_receive {sender recipient : Subject A A} (hs : Balanced s) (h : Resubmits s
      (.dispatch (.signed who) (.receiveMessage sender nonce recipient pl relayer sigs))) :
    2 ≤ processed (step s (.dispatch (.signed who)
      (.receiveMessage sender nonce recipient pl relayer sigs)))
        (messageId T sender nonce) := by
  obtain ⟨hc, hr, hsi⟩ := h
  have hb := hs (messageId T sender nonce)
  have hco := List.count_pos_iff.mpr hc
  cases hl : s.incomingMessages.lookup (messageId T sender nonce) with
  | some m =>
    have hm := processed_le_step s
      (.dispatch (.signed who) (.receiveMessage sender nonce recipient pl relayer sigs))
      (messageId T sender nonce)
    rw [lookup_eq_some_stored hl] at hb
    omega
  | none =>
    have ho : receiveMessage s sender nonce recipient pl relayer sigs = .ok _ :=
      receiveMessage_eq_ok.mpr ⟨⟨hr, hl, hsi⟩, rfl⟩
    have ht : step s (.dispatch (.signed who)
        (.receiveMessage sender nonce recipient pl relayer sigs)) =
        acceptMessage s ⟨⟨messageId T sender nonce, sender, nonce, recipient, pl⟩,
          s.blockNumber, relayer⟩ := by
      simp only [step, dispatch, Origin.signer, okOr, dispatchSigned, ho]
      rfl
    rw [ht, (acceptMessage_spec s _).2.2, if_pos rfl]
    omega

theorem Resubmits.two_le_processed (h : Resubmits s op) (hs : Balanced s) :
    ∃ id, 2 ≤ processed (step s op) id := by
  cases op with
  | dispatch origin call =>
    cases origin with
    | root => exact h.elim
    | signed who =>
      cases call with
      | receiveMessage sender nonce recipient pl relayer sigs =>
        exact ⟨messageId T sender nonce, two_le_processed_receive hs h⟩
      | _ => exact h.elim
  | _ => exact h.elim

theorem step_processed_le_one (hp : ¬ Resubmits s op) (hs : Balanced s)
    (ho : ∀ id, processed s id ≤ 1) (id : MessageId) : processed (step s op) id ≤ 1 := by
  have hd := ho id
  cases step_effect s op with
  | still ht => rwa [ht.processed]
  | cleaned ids hr => rwa [← hr, (cleanIncoming_spec s ids).1]
  | @accepted who sender recipient nonce pl relayer sigs call ha hr =>
    rw [← hr, (acceptMessage_spec s _).2.2]
    split
    · next h =>
      subst h
      have hn : messageId T sender nonce ∉ s.cleaned := by
        intro hm
        apply hp
        rw [call]
        exact ⟨hm, ha.recipient, ha.signatures⟩
      have hb := hs (messageId T sender nonce)
      have hf := ha.fresh
      rw [List.count_eq_zero.mpr hn, stored, hf] at hb
      rw [hb]
      simp
    · exact hd

/-- In every run, a message was processed once for each time that its record was cleaned up, and once more if
there is a record of it. -/
theorem processed_eq_cleaned_add_stored (w : T.World) (ops : List (Op T)) (id : MessageId) :
    processed (run step (State.genesis T w) ops) id =
      (run step (State.genesis T w) ops).cleaned.count id +
        stored (run step (State.genesis T w) ops) id := by
  have hs : Balanced (run step (State.genesis T w) ops) :=
    run_invariant' step_balanced ops (genesis_balanced w)
  exact hs id

/-- Every message is processed at most once exactly in the runs in which none is submitted again
after its record was cleaned up. -/
theorem processed_le_one_iff (w : T.World) (ops : List (Op T)) :
    (∀ id, processed (run step (State.genesis T w) ops) id ≤ 1) ↔
      Along step (fun s op => ¬ Resubmits s op) (State.genesis T w) ops := by
  constructor
  · generalize State.genesis T w = s₀, genesis_balanced w = hs₀
    intro ho
    induction ops generalizing s₀ with
    | nil => trivial
    | cons op ops ih =>
      refine ⟨?_, ih (step s₀ op) (step_balanced s₀ op hs₀) ho⟩
      intro ha
      obtain ⟨id, hw⟩ := ha.two_le_processed hs₀
      have hn := ho id
      rw [run_cons] at hn
      have hm := processed_le_run (step s₀ op) ops id
      omega
  · intro hr
    have ht : ∀ (s : State T) op, ¬ Resubmits s op → (Balanced s ∧ ∀ id, processed s id ≤ 1) →
        Balanced (step s op) ∧ ∀ id, processed (step s op) id ≤ 1 := by
      rintro s op hp ⟨hs, ho⟩
      exact ⟨step_balanced s op hs, step_processed_le_one hp hs ho⟩
    exact (run_invariant ht hr ⟨genesis_balanced w, fun id => Nat.zero_le 1⟩).2

end Calls

def mock : Config ℕ where
  minTtl := 15
  incomingTtl := 50
  minDeliveryConfirmationSignatures := 1
  minReceiptConfirmationSignatures := 1
  minFee := 1
  updateOrigin := fun origin => origin = .root
  parachainId := 2000
  selfChain := .acurast
  encodeParaId := fun n => [UInt8.ofNat n, UInt8.ofNat (n / 256), 0, 0]
  encodeIndex := fun n => [UInt8.ofNat n, 0, 0, 0, 0, 0, 0, 0]
  encodeHash := fun h => [UInt8.ofNat h.toNat]
  encodeAccount := fun who => [UInt8.ofNat who]
  encodeSubject := fun subject => match subject with
    | .alephZero (.extrinsic who) => [1, 0, UInt8.ofNat who.toNat]
    | _ => [0]
  encodePayload := fun payload => UInt8.ofNat (4 * payload.val.length) :: payload.val
  messageIdHashing := fun bytes => bytes.foldl (fun h b => h * 256 + BitVec.ofNat 256 b.toNat) 1
  verify := fun signature bytes oracle =>
    signature.toNat = bytes.foldl (fun h b => h * 256 + b.toNat) oracle.toNat % 2 ^ (8 * 65)
  World := Unit
  hold := fun w _ _ => some w
  release := fun w _ _ _ => some w
  transferOnHold := fun w _ _ _ => some w
  process := fun w _ => some (w, [])

def relayedMessage : Message ℕ where
  id := messageId mock (.alephZero (.extrinsic 5)) 9
  sender := .alephZero (.extrinsic 5)
  nonce := 9
  recipient := .acurast (.extrinsic 4)
  payload := ⟨[1, 2], by decide⟩

def oracleSignature (m : Message ℕ) (oracle : Public) : Signature :=
  BitVec.ofNat _ ((fullMessage mock m none).foldl (fun h b => h * 256 + b.toNat) oracle.toNat)

def relayed : Op mock :=
  .dispatch (.signed 3) (.receiveMessage relayedMessage.sender relayedMessage.nonce
    relayedMessage.recipient relayedMessage.payload (.acurast 3)
    (BoundedVec.singleton (oracleSignature relayedMessage 7, 7)))

/-- The message is relayed, its record is cleaned up when its time is over, and it is relayed again
with the same signatures. -/
def relayedTwice : List (Op mock) :=
  [.dispatch .root (.updateOracles (BoundedVec.singleton (.add 7 ⟨0, none⟩))), relayed] ++
    List.replicate 51 .block ++
    [.dispatch (.signed 8) (.cleanIncoming (BoundedVec.singleton relayedMessage.id)), relayed]

theorem processed_twice_after_cleanIncoming :
    ¬ ∀ id, processed (run step (State.genesis mock ()) relayedTwice) id ≤ 1 := by
  intro ho
  have ht :
      ¬ processed (run step (State.genesis mock ()) relayedTwice) relayedMessage.id ≤ 1 := by
    decide +kernel
  exact ht (ho relayedMessage.id)

end Acurast.Ibc

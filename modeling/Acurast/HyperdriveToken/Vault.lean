import Mathlib.Data.Set.Function
import Acurast.Base.Run
import Acurast.HyperdriveToken.Pallet

/-! The vault holds what was transferred to the proxy less what came back. A transfer keeps its nonce
when it is sent again, and the id of its message belongs to this nonce alone. -/

namespace Acurast.HyperdriveToken

open Base
open Ibc (SendRequest)

variable {A : Type} {T : Config A} {s s' : State T}

def accepted (s : State T) : List ((ProxyChain × TransferNonce) × ℕ) :=
  s.history.filterMap fun
    | .accepted proxy nonce amount => some ((proxy, nonce), amount)
    | _ => none

def paidOut (s : State T) : List ((ProxyChain × TransferNonce) × ℕ) :=
  s.history.filterMap fun
    | .paidOut proxy nonce amount => some ((proxy, nonce), amount)
    | _ => none

def sent (s : State T) : List (Purpose × SendRequest A) :=
  s.history.filterMap fun
    | .sent purpose request => some (purpose, request)
    | _ => none

/-- Transfers are exact, and a message's fee is taken from the account that pays it. The vault is
neither the account for fees nor the one that pays for the operators. -/
structure VaultLaws (T : Config A) [DecidableEq A] : Prop where
  transfer : ∀ {w w' source dest amount keep}, T.transfer w source dest amount keep = some w' →
    ∀ a, T.balance w' a + (if a = source then amount else 0) =
      T.balance w a + if a = dest then amount else 0
  sendMessage : ∀ {w w' request replaced}, T.sendMessage w request = some (w', replaced) →
    request.payer ≠ T.ethereumVault → T.balance w' T.ethereumVault = T.balance w T.ethereumVault
  feeVault : T.ethereumFeeVault ≠ T.ethereumVault
  operational : T.operationalFeeAccount ≠ T.ethereumVault

/-- Nobody else uses the vault: it signs nothing, no incoming transfer is for it, and nothing outside
the pallet changes its balance. -/
def VaultApart (s : State T) : Op T → Prop
  | .dispatch origin _ => origin.signer ≠ some T.ethereumVault
  | .process message => ∀ amount assetId nonce,
    Action.decode T.parseAccountId message.payload.val ≠
      .ok (.transferToken amount assetId nonce (.acurast T.ethereumVault))
  | .outside w => T.balance w T.ethereumVault = T.balance s.world T.ethereumVault

def State.vault (s : State T) : ℕ := T.balance s.world T.ethereumVault

def Carries (T : Config A) (request : SendRequest A) (proxy : ProxyChain) (nonce : TransferNonce)
    (amount : ℕ) (dest : MultiOrigin A) : Prop :=
  (Action.transferToken amount none nonce dest).encode = .ok request.payload ∧
    request.nonce = T.messageIdHash (transferNonceBytes proxy nonce)

inductive Effect (s s' : State T) : Prop
  | aside (hvault : s'.vault = s.vault) (hout : s'.outgoingTransfers = s.outgoingTransfers)
      (hnext : s'.nextTransferNonce = s.nextTransferNonce)
      (hin : s'.incomingTransferNonces = s.incomingTransferNonces)
      (hhistory : s'.history = s.history)
  | transferred (source : A) (dest : MultiOrigin A) (amount nonce : ℕ) (request : SendRequest A)
      (hchain : dest.proxyChain = .ethereum) (hnonce : nonce = s.nextTransferNonce.getD .ethereum 0)
      (hcarries : Carries T request .ethereum nonce amount dest)
      (hvault : s'.vault = s.vault + amount)
      (hout : s'.outgoingTransfers =
        s.outgoingTransfers.insert (.ethereum, nonce) (source, dest, amount))
      (hnext : s'.nextTransferNonce = s.nextTransferNonce.insert .ethereum ((nonce + 1) % 2 ^ 64))
      (hin : s'.incomingTransferNonces = s.incomingTransferNonces)
      (hhistory : s'.history = .accepted .ethereum nonce amount ::
        .sent (.transfer .ethereum nonce) request :: s.history)
  | retried (proxy : ProxyChain) (nonce : TransferNonce) (source : A) (dest : MultiOrigin A)
      (amount : ℕ) (request : SendRequest A)
      (hlookup : s.outgoingTransfers.lookup (proxy, nonce) = some (source, dest, amount))
      (hcarries : Carries T request dest.proxyChain nonce amount dest) (hvault : s'.vault = s.vault)
      (hout : s'.outgoingTransfers = s.outgoingTransfers)
      (hnext : s'.nextTransferNonce = s.nextTransferNonce)
      (hin : s'.incomingTransferNonces = s.incomingTransferNonces)
      (hhistory : s'.history = .sent (.transfer dest.proxyChain nonce) request :: s.history)
  | enabled (proxy : ProxyChain) (nonce : EnableNonce) (request : SendRequest A)
      (hid : request.nonce = T.messageIdHash (enableNonceBytes proxy nonce))
      (hvault : s'.vault = s.vault) (hout : s'.outgoingTransfers = s.outgoingTransfers)
      (hnext : s'.nextTransferNonce = s.nextTransferNonce)
      (hin : s'.incomingTransferNonces = s.incomingTransferNonces)
      (hhistory : s'.history = .sent (.enable proxy nonce) request :: s.history)
  | paid (proxy : ProxyChain) (nonce : TransferNonce) (amount : ℕ)
      (hnew : s.incomingTransferNonces.lookup (proxy, nonce) = none)
      (hvault : s'.vault + amount = s.vault) (hout : s'.outgoingTransfers = s.outgoingTransfers)
      (hnext : s'.nextTransferNonce = s.nextTransferNonce)
      (hin : s'.incomingTransferNonces = s.incomingTransferNonces.insert (proxy, nonce) ())
      (hhistory : s'.history = .paidOut proxy nonce amount :: s.history)

section Balances

variable [DecidableEq A] (laws : VaultLaws T) {w w' : T.World} {source dest : A} {amount amt : ℕ}

include laws

theorem transfer_vault {keep : Keep} (h : T.transfer w source dest amt keep = some w')
    (hs : source ≠ T.ethereumVault) (hd : dest ≠ T.ethereumVault) :
    T.balance w' T.ethereumVault = T.balance w T.ethereumVault := by
  have hx := laws.transfer h T.ethereumVault
  rwa [if_neg (Ne.symm hs), if_neg (Ne.symm hd)] at hx

theorem lock_feeVault (h : lock w source T.ethereumFeeVault amt = .ok w')
    (hs : source ≠ T.ethereumVault) :
    T.balance w' T.ethereumVault = T.balance w T.ethereumVault := by
  unfold lock at h
  split_ifs at h
  · cases h
    rfl
  · exact transfer_vault laws (okOr_eq_ok.mp h) hs laws.feeVault

theorem lock_vault (h : lock w source T.ethereumVault amount = .ok w')
    (hs : source ≠ T.ethereumVault) :
    T.balance w' T.ethereumVault = T.balance w T.ethereumVault + amount := by
  unfold lock at h
  split_ifs at h with hz
  · cases h
    rw [hz, Nat.add_zero]
  · have hx := laws.transfer (okOr_eq_ok.mp h) T.ethereumVault
    rwa [if_neg (Ne.symm hs), if_pos rfl] at hx

theorem send_vault {req : SendRequest A} (hp : req.payer = T.ethereumFeeVault)
    (h : send w source T.ethereumFeeVault req = .ok w') (ho : source ≠ T.ethereumVault) :
    T.balance w' T.ethereumVault = T.balance w T.ethereumVault := by
  simp only [send, ok_iff, whenSome_eq_ok] at h
  obtain ⟨⟨w₁, replaced⟩, hn, hr⟩ := h
  have hs := laws.sendMessage hn (by rw [hp]; exact laws.feeVault)
  rcases hr with ⟨-, rfl⟩ | ⟨fee, -, ht⟩
  · exact hs
  · rw [transfer_vault laws ht laws.feeVault ho]
    exact hs

theorem payOut_vault (h : payOut w dest amt = .ok w') (hd : dest ≠ T.ethereumVault) :
    T.balance w' T.ethereumVault + amt = T.balance w T.ethereumVault := by
  unfold payOut at h
  split_ifs at h with hz
  · cases h
    rw [hz, Nat.add_zero]
  · have hx := laws.transfer (okOr_eq_ok.mp h) T.ethereumVault
    rwa [if_pos rfl, if_neg (Ne.symm hd)] at hx

end Balances

variable {proxy : ProxyChain} {action act : Action A} {w : T.World} {request req : SendRequest A}
  {nonce : TransferNonce} {purpose : Purpose}

theorem proxyParams_ok {recipient : Subject A A} {vault feeVault : A}
    (h : proxyParams s proxy = .ok (recipient, vault, feeVault)) :
    proxy = .ethereum ∧ vault = T.ethereumVault ∧ feeVault = T.ethereumFeeVault := by
  cases proxy with
  | ethereum =>
    simp only [proxyParams, ok_iff, Prod.mk.injEq] at h
    obtain ⟨contract, -, -, rfl, rfl⟩ := h
    exact ⟨rfl, rfl, rfl⟩
  | _ => cases h

theorem encode_ok {encoded : Bytes} (h : encode act = .ok encoded) :
    act.encode = .ok encoded := by
  unfold encode at h
  split at h
  · next bs hb =>
    cases h
    exact hb
  · cases h

theorem readMessage_ok {msg : MessageBody A A} (h : readMessage s msg = .ok (proxy, action)) :
    Action.decode T.parseAccountId msg.payload.val = .ok action := by
  unfold readMessage at h
  split at h
  · simp only [bind_eq_ok] at h
    obtain ⟨-, -, -, -, hd⟩ := h
    split at hd
    · next decoded hc =>
      cases hd
      exact hc
    · cases hd
  · simp only [bind_eq_ok] at h
    obtain ⟨-, -, -, -, ht⟩ := h
    cases ht
  · cases h

section Steps

variable [DecidableEq A] (laws : VaultLaws T)

include laws

variable {amount amt fee : ℕ} {dest : MultiOrigin A} {nonce : TransferNonce} {source : A}
  {proxy : ProxyChain}

theorem doTransferNative_ok {transferNonce : Option TransferNonce}
    (hs : source ≠ T.ethereumVault)
    (h : doTransferNative s source dest amt fee transferNonce = .ok (s', nonce)) :
    ∃ w req, dest.proxyChain = .ethereum ∧
      nonce = transferNonce.getD (s.nextTransferNonce.getD .ethereum 0) ∧
      Carries T req .ethereum nonce amt dest ∧
      T.balance w T.ethereumVault = s.vault + (if transferNonce = none then amt else 0) ∧
      s' = { s with
        world := w
        nextTransferNonce := if transferNonce = none then
          s.nextTransferNonce.insert .ethereum
            ((s.nextTransferNonce.getD .ethereum 0 + 1) % 2 ^ 64) else s.nextTransferNonce
        history := .sent (.transfer .ethereum nonce) req :: s.history } := by
  simp only [doTransferNative, ok_iff, Prod.mk.injEq] at h
  obtain ⟨-, -, ⟨recipient, vault, feeVault⟩, hp, w₁, hl, w₂, hf, encoded, hn, w₃,
    hse, rfl, rfl⟩ := h
  obtain ⟨hc, rfl, rfl⟩ := proxyParams_ok hp
  rw [hc] at hn hse ⊢
  refine ⟨w₃, _, rfl, rfl, ⟨encode_ok hn, rfl⟩, ?_, rfl⟩
  rw [send_vault laws rfl hse hs, lock_feeVault laws hf hs]
  unfold doTransferNative.lockNew at hl
  split_ifs at hl ⊢
  · exact lock_vault laws hl hs
  · cases hl
    rfl

theorem transferNative_effect (hs : source ≠ T.ethereumVault)
    (h : transferNative s source dest amt fee = .ok s') : Effect s s' := by
  simp only [transferNative, ok_iff] at h
  obtain ⟨⟨s₁, nonce⟩, hse, rfl⟩ := h
  obtain ⟨w, req, hc, rfl, ha, hv, rfl⟩ := doTransferNative_ok laws hs hse
  rw [hc]
  exact .transferred source dest amt _ req hc rfl ha hv rfl rfl rfl rfl

theorem retryTransferNative_effect (hs : source ≠ T.ethereumVault)
    (h : retryTransferNative s source proxy nonce fee = .ok s') : Effect s s' := by
  simp only [retryTransferNative, ok_iff] at h
  obtain ⟨⟨prevSource, dest, amt⟩, hl, -, -, ⟨s₁, nonce'⟩, hse, rfl⟩ := h
  obtain ⟨w, req, hh, rfl, hc, hv, rfl⟩ := doTransferNative_ok laws hs hse
  rw [← hh] at hc
  refine .retried proxy _ prevSource dest amt req hl hc hv rfl rfl rfl ?_
  rw [hh]

theorem doEnable_effect {enabled : Bool}
    (h : doEnable s T.operationalFeeAccount proxy enabled fee = .ok s') : Effect s s' := by
  simp only [doEnable, ok_iff] at h
  obtain ⟨⟨recipient, vault, feeVault⟩, hp, w₁, hf, encoded, -, w₂, hs, rfl⟩ := h
  obtain ⟨rfl, rfl, rfl⟩ := proxyParams_ok hp
  refine .enabled .ethereum (s.nextEnableNonce.getD 0) _ rfl ?_ rfl rfl rfl rfl
  change T.balance w₂ T.ethereumVault = T.balance s.world T.ethereumVault
  rw [send_vault laws rfl hs laws.operational, lock_feeVault laws hf laws.operational]

theorem dispatch_effect {o : Origin A} {call : Call A}
    (hsi : o.signer ≠ some T.ethereumVault) (h : dispatch s o call = .ok s') :
    Effect s s' := by
  have hs {source : A} (ho : okOr o.signer Error.badOrigin = .ok source) :
      source ≠ T.ethereumVault := by
    rintro rfl
    exact hsi (okOr_eq_ok.mp ho)
  cases call with
  | transferNative dest amt fee =>
    simp only [dispatch, bind_eq_ok] at h
    obtain ⟨-, -, source, ho, ht⟩ := h
    exact transferNative_effect laws (hs ho) ht
  | retryTransferNative proxy nonce fee =>
    simp only [dispatch, bind_eq_ok] at h
    obtain ⟨-, -, source, ho, hr⟩ := h
    exact retryTransferNative_effect laws (hs ho) hr
  | enableProxyChain proxy enabled fee =>
    simp only [dispatch, bind_eq_ok] at h
    obtain ⟨-, -, hn⟩ := h
    exact doEnable_effect laws hn
  | updateEthereumContract contract =>
    simp only [dispatch, ok_iff] at h
    obtain ⟨-, -, rfl⟩ := h
    exact .aside rfl rfl rfl rfl rfl
  | updateSolanaContract contract =>
    simp only [dispatch, ok_iff] at h
    obtain ⟨-, -, rfl⟩ := h
    exact .aside rfl rfl rfl rfl rfl
  | setEnabled enabled =>
    simp only [dispatch, ok_iff] at h
    obtain ⟨-, -, rfl⟩ := h
    exact .aside rfl rfl rfl rfl rfl
  | updateOutgoingTransferTtl proxy ttl =>
    simp only [dispatch, ok_iff] at h
    obtain ⟨-, -, rfl⟩ := h
    exact .aside rfl rfl rfl rfl rfl

theorem process_effect {message : MessageBody A A} (hp : VaultApart s (.process message))
    (h : process s message = .ok s') : Effect s s' := by
  simp only [process, bind_eq_ok] at h
  obtain ⟨⟨proxy, action⟩, hr, hx⟩ := h
  have hde := readMessage_ok hr
  cases action with
  | noop =>
    cases hx
    exact .aside rfl rfl rfl rfl rfl
  | setEnabled enabled => cases hx
  | transferToken amount assetId nonce dest =>
    simp only [execute, ok_iff] at hx
    obtain ⟨-, -, -, hn, account, ha, w, hpa, rfl⟩ := hx
    have hd : dest = .acurast account := by
      cases dest with
      | acurast account' =>
        cases ha
        rfl
      | _ => cases ha
    subst hd
    have hne : account ≠ T.ethereumVault := by
      rintro rfl
      exact hp amount assetId nonce hde
    exact .paid proxy nonce amount hn (payOut_vault laws hpa hne) rfl rfl rfl rfl

theorem step_effect (s : State T) (op : Op T) (ha : VaultApart s op) : Effect s (step s op) := by
  have hs : Effect s s := .aside rfl rfl rfl rfl rfl
  cases op with
  | dispatch o call => exact transact_induction hs fun s' h => dispatch_effect laws ha h
  | process msg => exact transact_induction hs fun s' h => process_effect laws ha h
  | outside w => exact .aside ha rfl rfl rfl rfl

end Steps

/-- What the vault holds and what was paid out is what it held at first and what was accepted; no
incoming nonce was paid out twice. -/
structure Conserved (w : T.World) (s : State T) : Prop where
  vault : s.vault + ((paidOut s).map (·.2)).sum =
    T.balance w T.ethereumVault + ((accepted s).map (·.2)).sum
  nodup : ((paidOut s).map (·.1)).Nodup
  seen : ∀ k ∈ (paidOut s).map (·.1), s.incomingTransferNonces.lookup k ≠ none

theorem Conserved.congr (hs : Conserved w s) (hv : s'.vault = s.vault)
    (hp : paidOut s' = paidOut s) (ha : accepted s' = accepted s)
    (hn : s'.incomingTransferNonces = s.incomingTransferNonces) : Conserved w s' := by
  refine ⟨?_, ?_, ?_⟩
  · rw [hv, hp, ha]
    exact hs.vault
  · rw [hp]
    exact hs.nodup
  · rw [hp, hn]
    exact hs.seen

theorem Effect.conserved (h : Effect s s') (hs : Conserved w s) : Conserved w s' := by
  have hu := hs.vault
  cases h with
  | aside hv ho hne hn hh =>
    exact hs.congr hv (by rw [paidOut, hh, paidOut]) (by rw [accepted, hh, accepted]) hn
  | transferred source dest amt nonce req hch hno hc hv ho hne hn
      hh =>
    have hp : paidOut s' = paidOut s := by simp [paidOut, hh]
    have ha : accepted s' = ((.ethereum, nonce), amt) :: accepted s := by
      simp [accepted, hh]
    refine ⟨?_, ?_, ?_⟩
    · rw [hv, hp, ha, List.map_cons, List.sum_cons]
      omega
    · rw [hp]
      exact hs.nodup
    · rw [hp, hn]
      exact hs.seen
  | retried proxy nonce source dest amt req hl hc hv ho hne hn hh =>
    exact hs.congr hv (by simp [paidOut, hh]) (by simp [accepted, hh]) hn
  | enabled proxy nonce req hd hv ho hne hn hh =>
    exact hs.congr hv (by simp [paidOut, hh]) (by simp [accepted, hh]) hn
  | paid proxy nonce amt hw hv ho hne hn hh =>
    have hp : paidOut s' = ((proxy, nonce), amt) :: paidOut s := by simp [paidOut, hh]
    have ha : accepted s' = accepted s := by simp [accepted, hh]
    refine ⟨?_, ?_, ?_⟩
    · rw [hp, ha, List.map_cons, List.sum_cons]
      omega
    · rw [hp, List.map_cons, List.nodup_cons]
      refine ⟨?_, hs.nodup⟩
      intro hm
      exact hs.seen _ hm hw
    · rw [hp, hn, List.map_cons]
      intro k hk
      rw [lookup_insert_eq]
      split_ifs with hy
      · exact Option.some_ne_none _
      · exact hs.seen k ((List.mem_cons.mp hk).resolve_left hy)

def MessageFor (s : State T) : Purpose → SendRequest A → Prop
  | .transfer proxy nonce, request => ∃ source dest amount,
    s.outgoingTransfers.lookup (proxy, nonce) = some (source, dest, amount) ∧
      Carries T request proxy nonce amount dest
  | .enable proxy nonce, request => request.nonce = T.messageIdHash (enableNonceBytes proxy nonce)

structure Numbered (s : State T) : Prop where
  next_le : s.nextTransferNonce.getD .ethereum 0 ≤ (accepted s).length
  recorded : ∀ k source dest amount, s.outgoingTransfers.lookup k = some (source, dest, amount) →
    k.1 = .ethereum ∧ dest.proxyChain = .ethereum ∧ k.2 < s.nextTransferNonce.getD .ethereum 0 ∧
      (k, amount) ∈ accepted s
  lookup_ne : ∀ k ∈ (accepted s).map (·.1), s.outgoingTransfers.lookup k ≠ none
  nodup : ((accepted s).map (·.1)).Nodup
  messages : ∀ x ∈ sent s, MessageFor s x.1 x.2

theorem accepted_length_le (h : Effect s s') : (accepted s).length ≤ (accepted s').length := by
  cases h <;> simp [accepted, *]

theorem Numbered.congr (hs : Numbered s) (ho : s'.outgoingTransfers = s.outgoingTransfers)
    (hn : s'.nextTransferNonce = s.nextTransferNonce) (ha : accepted s' = accepted s)
    (hse : ∀ x ∈ sent s', x ∈ sent s ∨ MessageFor s x.1 x.2) : Numbered s' := by
  have hme : ∀ purpose request, MessageFor s purpose request → MessageFor s' purpose request := by
    intro purpose request h
    cases purpose with
    | transfer proxy nonce =>
      change ∃ source dest amount, s'.outgoingTransfers.lookup _ = _ ∧ _
      rw [ho]
      exact h
    | enable proxy nonce => exact h
  refine ⟨?_, ?_, ?_, ?_, ?_⟩
  · rw [hn, ha]
    exact hs.next_le
  · rw [ho, hn, ha]
    exact hs.recorded
  · rw [ho, ha]
    exact hs.lookup_ne
  · rw [ha]
    exact hs.nodup
  · intro x hx
    apply hme
    rcases hse x hx with hm | hr
    · exact hs.messages x hm
    · exact hr

theorem Numbered.transferred (hs : Numbered s) {source : A} {dest : MultiOrigin A}
    {amt nonce : ℕ} (ht : (accepted s').length < 2 ^ 64) (hc : dest.proxyChain = .ethereum)
    (hn : nonce = s.nextTransferNonce.getD .ethereum 0)
    (hca : Carries T req .ethereum nonce amt dest)
    (ho : s'.outgoingTransfers = s.outgoingTransfers.insert (.ethereum, nonce) (source, dest, amt))
    (hne : s'.nextTransferNonce = s.nextTransferNonce.insert .ethereum ((nonce + 1) % 2 ^ 64))
    (hh : s'.history = .accepted .ethereum nonce amt ::
      .sent (.transfer .ethereum nonce) req :: s.history) : Numbered s' := by
  have ha : accepted s' = ((.ethereum, nonce), amt) :: accepted s := by
    simp [accepted, hh]
  have hsen : sent s' = (.transfer .ethereum nonce, req) :: sent s := by
    simp [sent, hh]
  have hle : nonce ≤ (accepted s).length := by
    rw [hn]
    exact hs.next_le
  -- The counter does not run over.
  have hn' : s'.nextTransferNonce.getD .ethereum 0 = nonce + 1 := by
    rw [ha, List.length_cons] at ht
    rw [hne, getD_insert, if_pos rfl, Nat.mod_eq_of_lt (by omega)]
  have hr : s.outgoingTransfers.lookup (.ethereum, nonce) = none := by
    cases h : s.outgoingTransfers.lookup (.ethereum, nonce) with
    | none => rfl
    | some recorded =>
      obtain ⟨-, -, hb, -⟩ := hs.recorded _ recorded.1 recorded.2.1 recorded.2.2 h
      rw [← hn] at hb
      exact absurd hb (Nat.lt_irrefl _)
  have hke : ∀ k, s.outgoingTransfers.lookup k ≠ none →
      s'.outgoingTransfers.lookup k = s.outgoingTransfers.lookup k := by
    intro k hk
    rw [ho, lookup_insert_eq, if_neg]
    rintro rfl
    exact hk hr
  have hse : s'.outgoingTransfers.lookup (.ethereum, nonce) = some (source, dest, amt) := by
    rw [ho]
    exact AList.lookup_insert _
  refine ⟨?_, ?_, ?_, ?_, ?_⟩
  · rw [hn', ha]
    exact Nat.succ_le_succ hle
  · intro k source' dest' amount' h
    rw [hn', ha]
    rw [ho, lookup_insert_eq] at h
    split_ifs at h with hy
    · cases h
      subst hy
      exact ⟨rfl, hc, Nat.lt_succ_self _, List.mem_cons_self ..⟩
    · obtain ⟨hp, hc', hb, hm⟩ := hs.recorded k source' dest' amount' h
      rw [← hn] at hb
      exact ⟨hp, hc', Nat.lt_succ_of_lt hb, List.mem_cons_of_mem _ hm⟩
  · rw [ha, List.map_cons]
    intro k hk
    rcases List.mem_cons.mp hk with rfl | hm
    · rw [hse]
      exact Option.some_ne_none _
    · rw [hke k (hs.lookup_ne k hm)]
      exact hs.lookup_ne k hm
  · rw [ha, List.map_cons, List.nodup_cons]
    refine ⟨?_, hs.nodup⟩
    intro hm
    exact hs.lookup_ne _ hm hr
  · rw [hsen]
    intro x hx
    rcases List.mem_cons.mp hx with rfl | hm
    · exact ⟨source, dest, amt, hse, hca⟩
    · have hf := hs.messages x hm
      obtain ⟨purpose, request'⟩ := x
      cases purpose with
      | enable proxy nonce' => exact hf
      | transfer proxy nonce' =>
        obtain ⟨source', dest', amount', hl, ha'⟩ := hf
        refine ⟨source', dest', amount', ?_, ha'⟩
        rw [hke _ (by rw [hl]; exact Option.some_ne_none _)]
        exact hl

theorem Effect.numbered (h : Effect s s') (ht : (accepted s').length < 2 ^ 64) (hs : Numbered s) :
    Numbered s' := by
  cases h with
  | aside hv ho hn hin hh =>
    refine hs.congr ho hn (by rw [accepted, hh, accepted]) fun x hx => Or.inl ?_
    rwa [sent, hh] at hx
  | transferred source dest amt nonce req hc hno ha hv ho hn hin
      hh =>
    exact hs.transferred ht hc hno ha ho hn hh
  | retried proxy nonce source dest amt req hl ha hv ho hn hin hh =>
    have hse : sent s' = (.transfer dest.proxyChain nonce, req) :: sent s := by
      simp [sent, hh]
    refine hs.congr ho hn (by simp [accepted, hh]) fun x hx => ?_
    rw [hse] at hx
    rcases List.mem_cons.mp hx with rfl | hm
    · obtain ⟨hp, hc, -⟩ := hs.recorded _ source dest amt hl
      refine Or.inr ⟨source, dest, amt, ?_, ha⟩
      rw [hc, ← hp]
      exact hl
    · exact Or.inl hm
  | enabled proxy nonce req hd hv ho hn hin hh =>
    have hse : sent s' = (.enable proxy nonce, req) :: sent s := by simp [sent, hh]
    refine hs.congr ho hn (by simp [accepted, hh]) fun x hx => ?_
    rw [hse] at hx
    rcases List.mem_cons.mp hx with rfl | hm
    · exact Or.inr hd
    · exact Or.inl hm
  | paid proxy nonce amt hw hv ho hn hin hh =>
    refine hs.congr ho hn (by simp [accepted, hh]) fun x hx => Or.inl ?_
    simpa [sent, hh] using hx

def nonceBytes : Purpose → Bytes
  | .transfer proxy nonce => transferNonceBytes proxy nonce
  | .enable proxy nonce => enableNonceBytes proxy nonce

theorem length_encode (proxy : ProxyChain) : proxy.encode.length = 1 := by
  cases proxy <;> rfl

theorem encode_injective {proxy' : ProxyChain} (h : proxy.encode = proxy'.encode) :
    proxy = proxy' := by
  revert h
  cases proxy <;> cases proxy' <;> decide

theorem nonceBytes_transfer (hl : nonce < 2 ^ 64)
    (hl' : ∀ proxy' nonce', purpose = .transfer proxy' nonce' → nonce' < 2 ^ 64)
    (h : transferNonceBytes proxy nonce = nonceBytes purpose) :
    purpose = .transfer proxy nonce := by
  cases purpose with
  | enable proxy' nonce' =>
    have hle := congrArg List.length h
    simp [nonceBytes, transferNonceBytes, enableNonceBytes, length_encode] at hle
  | transfer proxy' nonce' =>
    have ha := List.append_inj h (by rw [length_encode, length_encode])
    have hr := encode_injective ha.1
    have hp : (256 : ℕ) ^ 8 = 2 ^ 64 := by norm_num
    have hn : nonce = nonce' := by
      apply bigEndian_inj _ _ ha.2
      · rw [hp]
        exact hl
      · rw [hp]
        exact hl' proxy' nonce' rfl
    rw [hr, hn]

theorem MessageFor.id (h : MessageFor s purpose req) :
    req.nonce = T.messageIdHash (nonceBytes purpose) := by
  cases purpose with
  | enable proxy nonce => exact h
  | transfer proxy nonce =>
    obtain ⟨source, dest, amt, -, hc⟩ := h
    exact hc.2

theorem Numbered.nonce_lt (hs : Numbered s) (ht : (accepted s).length < 2 ^ 64)
    (h : (.transfer proxy nonce, req) ∈ sent s) : nonce < 2 ^ 64 := by
  obtain ⟨source, dest, amt, hl, -⟩ := hs.messages _ h
  obtain ⟨-, -, hb, -⟩ := hs.recorded _ source dest amt hl
  have hle := hs.next_le
  exact hb.trans_le (hle.trans ht.le)

variable [DecidableEq A]

/-- Over every run in which nobody else uses the vault, it holds what it held at first and the
accepted amounts less those paid out, no incoming nonce twice. Until the counter of 64 bits runs
over, transfers have different nonces, all messages for a nonce carry its amount and destination,
and no other message has their id. -/
theorem vault_conservation (laws : VaultLaws T)
    (hhash : Set.InjOn T.messageIdHash (Set.range nonceBytes)) (w : T.World) (ops : List (Op T))
    (hops : Along step VaultApart (State.genesis T w) ops)
    (hs : s = run step (State.genesis T w) ops) :
    s.vault + ((paidOut s).map (·.2)).sum =
        T.balance w T.ethereumVault + ((accepted s).map (·.2)).sum ∧
      ((paidOut s).map (·.1)).Nodup ∧
      ((accepted s).length < 2 ^ 64 → ((accepted s).map (·.1)).Nodup ∧
        (∀ proxy nonce, ∃ (amount : ℕ) (dest : MultiOrigin A), ∀ request,
          (.transfer proxy nonce, request) ∈ sent s → ((proxy, nonce), amount) ∈ accepted s ∧
            (Action.transferToken amount none nonce dest).encode = .ok request.payload) ∧
        ∀ proxy nonce request purpose request', (.transfer proxy nonce, request) ∈ sent s →
          (purpose, request') ∈ sent s → request.nonce = request'.nonce →
          purpose = .transfer proxy nonce) := by
  have hc : Conserved w s := by
    have hg : Conserved w (State.genesis T w) := by
      refine ⟨rfl, List.nodup_nil, ?_⟩
      intro k hk
      cases hk
    have ht : ∀ (s : State T) (op : Op T), VaultApart s op → Conserved w s →
        Conserved w (step s op) :=
      fun s op hp hs => (step_effect laws s op hp).conserved hs
    rw [hs]
    exact run_invariant ht hops hg
  refine ⟨hc.vault, hc.nodup, fun hl => ?_⟩
  have hn : Numbered s := by
    have hg : (accepted (State.genesis T w)).length < 2 ^ 64 →
        Numbered (State.genesis T w) := by
      intro _
      refine ⟨le_rfl, ?_, ?_, List.nodup_nil, ?_⟩
      · intro k source dest amount h
        cases h
      · intro k hk
        cases hk
      · intro x hx
        cases hx
    -- The list of accepted transfers only grows, so a counter that is in range was so before.
    have ht : ∀ (s : State T) (op : Op T), VaultApart s op →
        ((accepted s).length < 2 ^ 64 → Numbered s) → (accepted (step s op)).length < 2 ^ 64 → Numbered (step s op) := by
      intro s op hp ih hl'
      have hf := step_effect laws s op hp
      exact hf.numbered hl' (ih ((accepted_length_le hf).trans_lt hl'))
    rw [hs] at hl ⊢
    exact run_invariant ht hops hg hl
  refine ⟨hn.nodup, fun proxy nonce => ?_, ?_⟩
  · cases hlo : s.outgoingTransfers.lookup (proxy, nonce) with
    | none =>
      refine ⟨0, .ethereum20 0, fun request hm => ?_⟩
      obtain ⟨source, dest, amount, ho, -⟩ := hn.messages _ hm
      rw [hlo] at ho
      cases ho
    | some recorded =>
      refine ⟨recorded.2.2, recorded.2.1, fun request hm => ?_⟩
      obtain ⟨source, dest, amount, ho, ha⟩ := hn.messages _ hm
      have hr := hn.recorded _ source dest amount ho
      rw [hlo] at ho
      cases ho
      exact ⟨hr.2.2.2, ha.1⟩
  · intro proxy nonce request purpose request' hm hm' hd
    rw [(hn.messages _ hm).id, (hn.messages _ hm').id] at hd
    have hb := hhash (Set.mem_range_self _) (Set.mem_range_self _) hd
    refine nonceBytes_transfer (hn.nonce_lt hl hm) ?_ hb
    rintro proxy' nonce' rfl
    exact hn.nonce_lt hl hm'

section Mock

def mock : Config ℕ where
  palletAccount := 0
  ethereumVault := 1
  ethereumFeeVault := 2
  operationalFeeAccount := 3
  minTransferAmount := 10
  defaultOutgoingTransferTtl := 15
  updateOrigin := fun origin => origin = .root
  operatorOrigin := fun origin => origin = .root
  parseAccountId := fun bytes => some (ofBigEndian bytes)
  messageIdHash := fun bytes => BitVec.ofNat 256 (16 * ofBigEndian bytes + bytes.length)
  World := Purses ℕ
  balance := fun w who => w.getD who 0
  transfer := fun w source dest amount _ => Purses.pay w source dest amount
  sendMessage := fun w _ => some (w, none)

theorem mock_laws : VaultLaws mock where
  transfer h := Purses.pay_exact h
  sendMessage := by
    intro w w' req replaced h _
    cases h
    rfl
  feeVault := by decide
  operational := by decide

theorem length_nonceBytes_lt (purpose : Purpose) : (nonceBytes purpose).length < 16 := by
  cases purpose <;> simp [nonceBytes, transferNonceBytes, enableNonceBytes, length_encode]

theorem ofBigEndian_lt (bs : Bytes) : ofBigEndian bs < 256 ^ bs.length := by
  have h := ofBigEndian_bigEndian bs.length (ofBigEndian bs)
  rw [bigEndian_ofBigEndian] at h
  rw [h]
  exact Nat.mod_lt _ (Nat.pow_pos (by decide))

theorem mock_messageIdHash_injOn : Set.InjOn mock.messageIdHash (Set.range nonceBytes) := by
  have hf (purpose : Purpose) :
      16 * ofBigEndian (nonceBytes purpose) + (nonceBytes purpose).length < 2 ^ 256 := by
    have hl := length_nonceBytes_lt purpose
    have hp : 256 ^ (nonceBytes purpose).length ≤ 256 ^ 16 :=
      Nat.pow_le_pow_right (by decide) hl.le
    have ha := (ofBigEndian_lt (nonceBytes purpose)).trans_le hp
    omega
  rintro _ ⟨purpose, rfl⟩ _ ⟨purpose', rfl⟩ h
  have hv := congrArg BitVec.toNat h
  change (BitVec.ofNat 256 _).toNat = (BitVec.ofNat 256 _).toNat at hv
  rw [BitVec.toNat_ofNat, BitVec.toNat_ofNat, Nat.mod_eq_of_lt (hf purpose),
    Nat.mod_eq_of_lt (hf purpose')] at hv
  have hl := length_nonceBytes_lt purpose
  have hl' := length_nonceBytes_lt purpose'
  rw [← bigEndian_ofBigEndian (nonceBytes purpose), ← bigEndian_ofBigEndian (nonceBytes purpose')]
  congr 1 <;> omega

def tenForSix : MessageBody ℕ ℕ where
  sender := .ethereum (.contract ⟨9, none⟩)
  recipient := .acurast (.extrinsic 0)
  payload := ⟨bigEndian 4 0 ++ bigEndian 16 10 ++ bigEndian 4 0 ++ bigEndian 8 7 ++ bigEndian 32 6,
    by simp [payloadMaxLength]⟩

/-- Account `5` transfers `40` units and sends the transfer again; the message from the proxy arrives
twice. -/
def thereAndBack : List (Op mock) :=
  [.dispatch .root (.setEnabled true), .dispatch .root (.updateEthereumContract 9),
    .dispatch (.signed 5) (.transferNative (.ethereum20 8) 40 1),
    .dispatch (.signed 5) (.retryTransferNative .ethereum 0 2),
    .dispatch .root (.enableProxyChain .ethereum true 0), .process tenForSix, .process tenForSix]

def purses : Purses ℕ := (((∅ : Purses ℕ).insert 1 100).insert 5 100)

theorem thereAndBack_apart : Along step VaultApart (State.genesis mock purses) thereAndBack := by
  have hd : Action.decode mock.parseAccountId tenForSix.payload.val =
      .ok (.transferToken 10 none 7 (.acurast 6)) := by decide +kernel
  have ha (s : State mock) : VaultApart s (.process tenForSix) := by
    intro amt assetId nonce h
    rw [hd] at h
    injection h with h
    injection h with _ _ _ h
    injection h with h
    revert h
    decide
  have hr (s : State mock) (call : Call ℕ) : VaultApart s (.dispatch .root call) := by
    intro h
    cases h
  have hf (s : State mock) (call : Call ℕ) : VaultApart s (.dispatch (.signed 5) call) := by
    intro h
    injection h with h
    revert h
    decide
  exact ⟨hr _ _, hr _ _, hf _ _, hf _ _, hr _ _, ha _, ha _, trivial⟩

def bridged : State mock := run step (State.genesis mock purses) thereAndBack

theorem vault_conservation_thereAndBack : bridged.vault + ((paidOut bridged).map (·.2)).sum =
        100 + ((accepted bridged).map (·.2)).sum ∧
      ((paidOut bridged).map (·.1)).Nodup ∧ ((accepted bridged).map (·.1)).Nodup := by
  have h := vault_conservation (s := bridged) mock_laws mock_messageIdHash_injOn purses thereAndBack
    thereAndBack_apart rfl
  have hl : (accepted bridged).length < 2 ^ 64 := by decide +kernel
  exact ⟨h.1, h.2.1, (h.2.2 hl).1⟩

example : bridged.vault = 130 ∧ accepted bridged = [((.ethereum, 0), 40)] ∧
    paidOut bridged = [((.ethereum, 7), 10)] := by decide +kernel

end Mock

end Acurast.HyperdriveToken

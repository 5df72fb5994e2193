import Mathlib.Data.Nat.Pairing
import Acurast.Base.Codec
import Acurast.Ibc.ProcessOnce

/-! What it takes to pass the check of the signatures: enough oracles signed exactly these bytes, and no other
message, receipt or relayer has the same ones. -/

namespace Acurast.Ibc

open Base

variable {A : Type} {T : Config A}

structure Encodings (T : Config A) : Prop where
  hash : PrefixFree T.encodeHash
  subject : PrefixFree T.encodeSubject
  payload : PrefixFree T.encodePayload
  account : PrefixFree T.encodeAccount
  account_ne : ∀ who, T.encodeAccount who ≠ []

theorem encodeMessage_prefixFree (h : Encodings T) : PrefixFree (encodeMessage T) := by
  have hf := (((h.hash.append h.subject).append h.hash).append h.subject).append h.payload
  refine hf.comp (f := fun m : Message A => ((((m.id, m.sender), m.nonce), m.recipient), m.payload)) ?_
  rintro ⟨id, sender, nonce, recipient, payload⟩ ⟨id', sender', nonce', recipient', payload'⟩ hq
  obtain ⟨⟨⟨⟨rfl, rfl⟩, rfl⟩, rfl⟩, rfl⟩ := hq
  rfl

theorem fullMessage_injective (h : Encodings T) {m m' : Message A} {relayer relayer' : Option A}
    (hq : fullMessage T m relayer = fullMessage T m' relayer') : m = m' ∧ relayer = relayer' := by
  unfold fullMessage at hq
  rw [List.append_assoc, List.append_assoc] at hq
  exact (encodeMessage_prefixFree h).append_option h.account.injective h.account_ne
    (List.append_cancel_left hq)

def Signed (s : State T) (bytes : Bytes) (signatures : List (Signature × Public)) (oracle : Public) : Prop :=
  (∃ window, s.oraclePublicKeys.lookup oracle = some window ∧ window.contains s.blockNumber) ∧
    ∃ signature, (signature, oracle) ∈ signatures ∧ T.verify signature bytes oracle = true

variable {s : State T} {bytes bs : Bytes}

variable {signatures sigs : List (Signature × Public)} {checked checked' : List Public}

theorem Signed.cons {oracle : Public} (h : Signed s bs sigs oracle)
    (entry : Signature × Public) : Signed s bs (entry :: sigs) oracle := by
  obtain ⟨ha, sig, hm, hv⟩ := h
  exact ⟨ha, sig, List.mem_cons_of_mem _ hm, hv⟩

theorem checkSignature_ok {entry : Signature × Public}
    (h : checkSignature s bs checked entry = .ok checked') :
    checked' = checked ∨
      checked' = entry.2 :: checked ∧ entry.2 ∉ checked ∧ Signed s bs [entry] entry.2 := by
  unfold checkSignature at h
  split at h
  · exact .inl (pure_eq_ok.mp h).symm
  · next window hw =>
    split_ifs at h with hs
    · exact .inl (pure_eq_ok.mp h).symm
    · simp only [ok_iff] at h
      obtain ⟨_, hv, rfl⟩ := h
      obtain ⟨hn, ha⟩ := not_or.mp hs
      refine .inr ⟨rfl, hn, ⟨window, hw, not_not.mp ha⟩, entry.1, ?_, hv⟩
      exact List.mem_singleton.mpr rfl

theorem foldlM_checkSignature
    (h : sigs.foldlM (checkSignature s bs) checked = .ok checked')
    (hc : checked.Nodup) :
    checked'.Nodup ∧ ∀ oracle ∈ checked', oracle ∈ checked ∨ Signed s bs sigs oracle := by
  induction sigs generalizing checked with
  | nil =>
    rw [List.foldlM_nil, pure_eq_ok] at h
    exact h ▸ ⟨hc, fun _ => .inl⟩
  | cons entry sigs ih =>
    rw [List.foldlM_cons, bind_eq_ok] at h
    obtain ⟨checked₁, hf, hr⟩ := h
    rcases checkSignature_ok hf with rfl | ⟨rfl, hw, hs⟩
    · obtain ⟨hn, ha⟩ := ih hr hc
      exact ⟨hn, fun oracle ho => (ha oracle ho).imp_right (·.cons entry)⟩
    · obtain ⟨hn, ha⟩ := ih hr (List.nodup_cons.mpr ⟨hw, hc⟩)
      refine ⟨hn, fun oracle ho => ?_⟩
      rcases ha oracle ho with hm | hl
      · rcases List.mem_cons.mp hm with rfl | hb
        · obtain ⟨hac, sig, hm, hv⟩ := hs
          refine .inr ⟨hac, sig, ?_, hv⟩
          rw [List.mem_singleton.mp hm]
          exact List.mem_cons_self ..
        · exact .inl hb
      · exact .inr (hl.cons entry)

/-- Whoever passes the check has signatures of enough different oracles, over bytes that stand for nothing
else. -/
theorem oracles_signed_of_checkSignatures (T : Config A) (hencodings : Encodings T) (s : State T)
    (message : Message A) (relayer : Option A) (signatures : Signatures) (minSignatures : ℕ)
    (h : checkSignatures s message relayer signatures minSignatures = .ok ()) :
    (∃ oracles : List Public, oracles.Nodup ∧ minSignatures ≤ oracles.length ∧
      ∀ oracle ∈ oracles, Signed s (fullMessage T message relayer) signatures.val oracle) ∧
    ∀ message' relayer', fullMessage T message' relayer' = fullMessage T message relayer →
      message' = message ∧ relayer' = relayer := by
  refine ⟨?_, fun message' relayer' hq => fullMessage_injective hencodings hq⟩
  simp only [checkSignatures, ok_iff] at h
  obtain ⟨_, -, checked, hf, hc⟩ := h
  obtain ⟨hn, ha⟩ := foldlM_checkSignature hf List.nodup_nil
  refine ⟨checked, hn, hc, fun oracle ho => ?_⟩
  exact (ha oracle ho).resolve_left List.not_mem_nil

def selectorNumber : Option (BitVec 32) → ℕ
  | none => 0
  | some selector => selector.toNat + 1

theorem selectorNumber_injective : Function.Injective selectorNumber := by
  intro o o' hq
  cases o with
  | none =>
    cases o' with
    | none => rfl
    | some selector' => cases hq
  | some selector =>
    cases o' with
    | none => cases hq
    | some selector' => exact congrArg some (BitVec.eq_of_toNat_eq (Nat.succ.inj hq))

def layerNumber {A C : Type} (f : A → ℕ) (g : C → ℕ) : Layer A C → ℕ
  | .extrinsic account => 2 * f account
  | .contract call => 2 * Nat.pair (g call.contract) (selectorNumber call.selector) + 1

theorem layerNumber_injective {C : Type} {f : A → ℕ} {g : C → ℕ} (hf : Function.Injective f)
    (hg : Function.Injective g) : Function.Injective (layerNumber f g) := by
  intro layer layer' hq
  cases layer with
  | extrinsic a =>
    cases layer' with
    | extrinsic a' =>
      have hn : f a = f a' := Nat.eq_of_mul_eq_mul_left Nat.two_pos hq
      rw [hf hn]
    | contract call' =>
      simp only [layerNumber] at hq
      omega
  | contract call =>
    cases layer' with
    | extrinsic a' =>
      simp only [layerNumber] at hq
      omega
    | contract call' =>
      have hp := Nat.eq_of_mul_eq_mul_left Nat.two_pos (Nat.succ.inj hq)
      obtain ⟨hc, hs⟩ := Nat.pair_eq_pair.mp hp
      have ha : call = call' := by
        obtain ⟨contract, selector⟩ := call
        obtain ⟨contract', selector'⟩ := call'
        obtain rfl : contract = contract' := hg hc
        obtain rfl : selector = selector' := selectorNumber_injective hs
        rfl
      rw [ha]

def subjectNumber : Subject ℕ ℕ → ℕ
  | .acurast layer => 6 * layerNumber id id layer
  | .alephZero layer => 6 * layerNumber BitVec.toNat id layer + 1
  | .vara layer => 6 * layerNumber BitVec.toNat id layer + 2
  | .ethereum layer => 6 * layerNumber BitVec.toNat BitVec.toNat layer + 3
  | .solana layer => 6 * layerNumber BitVec.toNat BitVec.toNat layer + 4
  | .acurastCanary layer => 6 * layerNumber id id layer + 5

theorem subjectNumber_injective : Function.Injective subjectNumber := by
  have hn : Function.Injective (id : ℕ → ℕ) := Function.injective_id
  have hb : ∀ n, Function.Injective (BitVec.toNat : BitVec n → ℕ) := fun _ _ _ => BitVec.eq_of_toNat_eq
  intro subject subject' hq
  -- subjects of two chains leave different rests
  cases subject <;> cases subject' <;> simp only [subjectNumber] at hq <;> try omega
  · exact congrArg Subject.acurast (layerNumber_injective hn hn (by omega))
  · exact congrArg Subject.alephZero (layerNumber_injective (hb _) hn (by omega))
  · exact congrArg Subject.vara (layerNumber_injective (hb _) hn (by omega))
  · exact congrArg Subject.ethereum (layerNumber_injective (hb _) (hb _) (by omega))
  · exact congrArg Subject.solana (layerNumber_injective (hb _) (hb _) (by omega))
  · exact congrArg Subject.acurastCanary (layerNumber_injective hn hn (by omega))

def coded : Config ℕ :=
  { mock with
    encodeHash := fun hash => unary hash.toNat
    encodeSubject := fun subject => unary (subjectNumber subject)
    encodePayload := fun payload => unary payload.val.length ++ payload.val
    encodeAccount := unary }

theorem coded_encodings : Encodings coded := by
  have hu : PrefixFree (unary : ℕ → Bytes) := unary_prefixFree (by decide)
  refine ⟨hu.comp fun _ _ => BitVec.eq_of_toNat_eq, hu.comp subjectNumber_injective, ?_, hu,
    unary_ne_nil⟩
  exact (lengthPrefixed_prefixFree hu).comp Subtype.val_injective

def shortMessage : Message ℕ :=
  { relayedMessage with id := 3 }

def confirmation (oracle : Public) : Signature × Public :=
  (BitVec.ofNat _ ((fullMessage coded shortMessage (some 3)).foldl (fun h b => h * 256 + b.toNat)
    oracle.toNat), oracle)

def oracled : State coded :=
  { State.genesis coded () with
    oraclePublicKeys := ((AList.insert 7 ⟨0, none⟩ ∅).insert 8 ⟨0, some 10⟩).insert 9 ⟨5, none⟩ }

theorem oracles_signed_of_confirmation : ∃ oracles : List Public, oracles.Nodup ∧ 2 ≤ oracles.length ∧
    ∀ oracle ∈ oracles, Signed oracled (fullMessage coded shortMessage (some 3))
      [confirmation 7, confirmation 9, confirmation 7, confirmation 8] oracle :=
  (oracles_signed_of_checkSignatures coded coded_encodings oracled shortMessage (some 3)
    ⟨[confirmation 7, confirmation 9, confirmation 7, confirmation 8], by decide⟩ 2
    (by decide +kernel)).1

end Acurast.Ibc

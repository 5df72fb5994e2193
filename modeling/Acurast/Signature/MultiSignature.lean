import Acurast.Base.Base64
import Acurast.Common.Message

/-! Signatures of transactions, and the byte strings they are over. Some kinds let the submitter
attach bytes that are put around the message before it is verified. -/

namespace Acurast.Signature

open Base

abbrev AuthenticatorData := BoundedVec UInt8 37

abbrev ClientDataContext := BoundedVec UInt8 500 × BoundedVec UInt8 500

abbrev MessagePrefix := BoundedVec UInt8 100

def acurastSignaturePrefix : Bytes :=
  [65, 67, 85, 82, 65, 83, 84, 32, 84, 82, 65, 78, 83, 65, 67, 84, 73, 79, 78, 58, 10]

abbrev RawSignature := Bytes

inductive MultiSignature where
  | ed25519 (sig : RawSignature)
  | sr25519 (sig : RawSignature)
  | ecdsa (sig : RawSignature)
  | p256 (sig : RawSignature)
  | p256WithAuthData (sig : RawSignature) (authData : AuthenticatorData)
      (clientContext : Option ClientDataContext)
  | ed25519WithPrefix (sig : RawSignature) (attached : MessagePrefix)
  | k256WithPrefix (sig : RawSignature) (attached : MessagePrefix)
  | ed25519WithBase64 (sig : RawSignature) (attached : MessagePrefix)

abbrev Hash32 := { h : Bytes // h.length = 32 }

inductive HashFunction where
  | sha2256 | blake2256 | keccak256
  deriving DecidableEq

structure Primitives where
  hash : HashFunction → Bytes → Hash32
  verifyEd25519 : RawSignature → Bytes → Bytes → Bool
  verifySr25519 : RawSignature → Bytes → Bytes → Bool
  verifyEcdsa : RawSignature → Bytes → Bytes → Bool
  /-- The compressed key that made a signature of the message. -/
  recoverP256 : RawSignature → Bytes → Option Bytes
  recoverK256 : RawSignature → Bytes → Option Bytes

variable (P : Primitives)

def messageHash (message : Bytes) : Bytes :=
  if message.length ≠ 32 then (P.hash .sha2256 message).val else message

def clientData (context : ClientDataContext) (message : Bytes) : Bytes :=
  context.1.val ++ Base64.encodeUrlSafeNoPad (messageHash P message) ++ context.2.val

def constructFullMessage (message : Bytes) (authData : AuthenticatorData) :
    Option ClientDataContext → Bytes
  | some context => authData.val ++ (P.hash .sha2256 (clientData P context message)).val
  | none => (P.hash .sha2256 (authData.val ++ messageHash P message)).val

def attach (attached : MessagePrefix) (message : Bytes) : Bytes :=
  attached.val ++ acurastSignaturePrefix ++ message

def signedMessage : MultiSignature → Bytes → Bytes
  | .ed25519 _, message => message
  | .sr25519 _, message => message
  | .ecdsa _, message => message
  | .p256 _, message => message
  | .p256WithAuthData _ authData clientContext, message =>
    constructFullMessage P message authData clientContext
  | .ed25519WithPrefix _ attached, message => (P.hash .blake2256 (attach attached message)).val
  | .k256WithPrefix _ attached, message => (P.hash .keccak256 (attach attached message)).val
  | .ed25519WithBase64 _ attached, message => attach attached (Base64.encodeStandard message)

def recoversTo (key : Option Bytes) (signer : Bytes) : Bool :=
  key.any fun key => (P.hash .blake2256 key).val = signer

def verify (signature : MultiSignature) (message signer : Bytes) : Bool :=
  match signature with
  | .ed25519 sig => P.verifyEd25519 sig (signedMessage P signature message) signer
  | .sr25519 sig => P.verifySr25519 sig (signedMessage P signature message) signer
  | .ecdsa sig => P.verifyEcdsa sig (signedMessage P signature message) signer
  | .p256 sig => recoversTo P (P.recoverP256 sig (signedMessage P signature message)) signer
  | .p256WithAuthData sig _ _ =>
    recoversTo P (P.recoverP256 sig (signedMessage P signature message)) signer
  | .ed25519WithPrefix sig _ => P.verifyEd25519 sig (signedMessage P signature message) signer
  | .k256WithPrefix sig _ =>
    recoversTo P (P.recoverK256 sig (signedMessage P signature message)) signer
  | .ed25519WithBase64 sig _ => P.verifyEd25519 sig (signedMessage P signature message) signer

omit P in
def hashedMessage (message : Bytes) : List (HashFunction × Bytes) :=
  if message.length ≠ 32 then [(.sha2256, message)] else []

def hashed : MultiSignature → Bytes → List (HashFunction × Bytes)
  | .p256WithAuthData _ _ (some context), message =>
    (.sha2256, clientData P context message) :: hashedMessage message
  | .p256WithAuthData _ authData none, message =>
    (.sha2256, authData.val ++ messageHash P message) :: hashedMessage message
  | .ed25519WithPrefix _ attached, message => [(.blake2256, attach attached message)]
  | .k256WithPrefix _ attached, message => [(.keccak256, attach attached message)]
  | _, _ => []

abbrev CollisionFree (xs ys : List (HashFunction × Bytes)) : Prop :=
  ∀ x ∈ xs, ∀ y ∈ ys, x.1 = y.1 → P.hash x.1 x.2 = P.hash y.1 y.2 → x.2 = y.2

/-- The attached bytes of the second reach over the marker of the first, whose message has the marker
in it once more. -/
def Marked (p p' : MessagePrefix) (m m' : Bytes) : Prop :=
  ∃ between, p'.val = p.val ++ acurastSignaturePrefix ++ between ∧
    m = between ++ acurastSignaturePrefix ++ m'

def SameDigest (m m' : Bytes) : Prop :=
  m = m' ∨ (m.length ≠ 32 ∧ m' = (P.hash .sha2256 m).val) ∨
    (m'.length ≠ 32 ∧ m = (P.hash .sha2256 m').val)

omit P in
/-- The first parts of two client contexts differ in length: all or part of the first encoded digest
is read as context of the second, the rest as the beginning of the other digest. -/
inductive Shifted (c c' : ClientDataContext) (e e' : Bytes) : Prop
  | apart (between : Bytes) (first : c'.1.val = c.1.val ++ e ++ between)
      (second : c.2.val = between ++ e' ++ c'.2.val)
  | overlapping (x shared y : Bytes) (nonempty : x ≠ []) (first : c'.1.val = c.1.val ++ x)
      (left : e = x ++ shared) (right : e' = shared ++ y) (second : c.2.val = y ++ c'.2.val)

def encodedDigest (m : Bytes) : Bytes := Base64.encodeUrlSafeNoPad (messageHash P m)

def SameKind : MultiSignature → MultiSignature → Prop
  | .p256WithAuthData _ _ none, .p256WithAuthData _ _ none => True
  | .p256WithAuthData _ _ (some _), .p256WithAuthData _ _ (some _) => True
  | .ed25519WithPrefix _ _, .ed25519WithPrefix _ _ => True
  | .k256WithPrefix _ _, .k256WithPrefix _ _ => True
  | .ed25519WithBase64 _ _, .ed25519WithBase64 _ _ => True
  | _, _ => False

/-- The ways in which two messages are read from one string: they are the same message with the same
attached bytes, or the marker, the digest or the encoded digest is found at another place. -/
def ReadAlike : MultiSignature → MultiSignature → Bytes → Bytes → Prop
  | .p256WithAuthData _ a none, .p256WithAuthData _ a' none, m, m' => a = a' ∧ SameDigest P m m'
  | .p256WithAuthData _ a (some c), .p256WithAuthData _ a' (some c'), m, m' => a = a' ∧
    ((c = c' ∧ SameDigest P m m') ∨ Shifted c c' (encodedDigest P m) (encodedDigest P m') ∨
      Shifted c' c (encodedDigest P m') (encodedDigest P m))
  | .ed25519WithPrefix _ p, .ed25519WithPrefix _ p', m, m' =>
    (p = p' ∧ m = m') ∨ Marked p p' m m' ∨ Marked p' p m' m
  | .k256WithPrefix _ p, .k256WithPrefix _ p', m, m' =>
    (p = p' ∧ m = m') ∨ Marked p p' m m' ∨ Marked p' p m' m
  | .ed25519WithBase64 _ p, .ed25519WithBase64 _ p', m, m' => p = p' ∧ m = m'
  | _, _, _, _ => False

variable {m m' : Bytes} {p p' : MessagePrefix}

omit P in
theorem append_eq_append_cases {a b c d : Bytes} (h : a ++ b = c ++ d) :
    (a = c ∧ b = d) ∨ (∃ t ≠ [], c = a ++ t ∧ b = t ++ d) ∨ ∃ t ≠ [], a = c ++ t ∧ d = t ++ b := by
  rcases List.append_eq_append_iff.mp h with ⟨t, hc, hb⟩ | ⟨t, ha, hd⟩
  · rcases eq_or_ne t [] with rfl | ht
    · exact .inl ⟨(hc.trans (List.append_nil a)).symm, hb⟩
    · exact .inr (.inl ⟨t, ht, hc, hb⟩)
  · rcases eq_or_ne t [] with rfl | ht
    · exact .inl ⟨ha.trans (List.append_nil c), hd.symm⟩
    · exact .inr (.inr ⟨t, ht, ha, hd⟩)

omit P in
theorem exists_of_append_marker {a a' t : Bytes} (ht : t ≠ [])
    (h : a' ++ acurastSignaturePrefix = (a ++ acurastSignaturePrefix) ++ t) :
    ∃ between, t = between ++ acurastSignaturePrefix ∧
      a' = a ++ acurastSignaturePrefix ++ between := by
  rcases List.append_eq_append_iff.mp h with ⟨v, hv, hm⟩ | ⟨between, ha, ht'⟩
  · rcases List.eq_nil_or_concat v with rfl | ⟨v', z, rfl⟩
    · rw [List.append_nil] at hv
      exact ⟨[], hm.symm, hv.symm.trans (List.append_nil _).symm⟩
    · -- the last byte of `v` is the one of the marker, but the marker goes on with `t`
      have hz : z = 10 := by
        have hl := congrArg List.getLast? hv
        simpa [acurastSignaturePrefix] using hl.symm
      have hd := congrArg List.dropLast hm
      rw [List.dropLast_append_of_ne_nil ht] at hd
      have hn : (10 : UInt8) ∉ acurastSignaturePrefix.dropLast := by decide
      rw [hd, hz] at hn
      simp at hn
  · exact ⟨between, ht', ha⟩

omit P in
theorem attach_eq_iff : attach p m = attach p' m' ↔
    (p = p' ∧ m = m') ∨ Marked p p' m m' ∨ Marked p' p m' m := by
  constructor
  · intro h
    rcases append_eq_append_cases h with ⟨hp, hm⟩ | ⟨t, ht, hp, hm⟩ | ⟨t, ht, hp, hm⟩
    · exact .inl ⟨Subtype.ext (List.append_cancel_right hp), hm⟩
    · obtain ⟨between, rfl, ha⟩ := exists_of_append_marker ht hp
      exact .inr (.inl ⟨between, ha, hm⟩)
    · obtain ⟨between, rfl, ha⟩ := exists_of_append_marker ht hp
      exact .inr (.inr ⟨between, ha, hm⟩)
  · rintro (⟨rfl, rfl⟩ | ⟨between, hp, hm⟩ | ⟨between, hp, hm⟩)
    · rfl
    · rw [attach, attach, hp, hm]
      simp only [List.append_assoc]
    · rw [attach, attach, hp, hm]
      simp only [List.append_assoc]

theorem eq_of_append_newline {a a' : Bytes} (hm : (10 : UInt8) ∉ m) (hm' : (10 : UInt8) ∉ m')
    (h : a ++ 10 :: m = a' ++ 10 :: m') : m = m' := by
  have hr := congrArg (fun l => l.reverse.takeWhile (· ≠ 10)) h
  have ht : ∀ b n : Bytes, (10 : UInt8) ∉ n →
      (b ++ 10 :: n).reverse.takeWhile (· ≠ 10) = n.reverse := by
    intro b n hn
    rw [List.reverse_append, List.reverse_cons, List.append_assoc, List.takeWhile_append_of_pos]
    · simp
    · intro x hx
      have hne : x ≠ 10 := by
        rintro rfl
        exact hn (List.mem_reverse.mp hx)
      simpa using hne
  rw [ht a m hm, ht a' m' hm'] at hr
  exact List.reverse_injective hr

omit P in
theorem attach_encodeStandard_inj
    (h : attach p (Base64.encodeStandard m) = attach p' (Base64.encodeStandard m')) : m = m' := by
  have hs : ∀ (p : MessagePrefix) (n : Bytes),
      attach p n = (p.val ++ acurastSignaturePrefix.dropLast) ++ 10 :: n := by
    intro p n
    simp [attach, acurastSignaturePrefix]
  rw [hs, hs] at h
  apply Base64.encodeStandard_injective
  exact eq_of_append_newline (Base64.newline_notMem_encodeStandard m)
    (Base64.newline_notMem_encodeStandard m') h

theorem length_messageHash (m : Bytes) : (messageHash P m).length = 32 := by
  unfold messageHash
  split_ifs with h
  · exact (P.hash .sha2256 m).property
  · exact not_not.mp h

variable {P}

theorem CollisionFree.mono {xs ys xs' ys' : List (HashFunction × Bytes)}
    (h : CollisionFree P xs ys) (hs : xs' ⊆ xs) (hys : ys' ⊆ ys) : CollisionFree P xs' ys' := by
  intro x hx y hy
  exact h x (hs hx) y (hys hy)

theorem messageHash_eq_iff (hf : CollisionFree P (hashedMessage m) (hashedMessage m')) :
    messageHash P m = messageHash P m' ↔ SameDigest P m m' := by
  constructor
  · intro h
    unfold messageHash at h
    split_ifs at h with hm hm' hm'
    · exact .inl (hf (.sha2256, m) (by simp [hashedMessage, hm]) (.sha2256, m')
        (by simp [hashedMessage, hm']) rfl (Subtype.ext h))
    · exact .inr (.inl ⟨hm, h.symm⟩)
    · exact .inr (.inr ⟨hm', h⟩)
    · exact .inl h
  · have hd : ∀ {n n' : Bytes}, n.length ≠ 32 → n' = (P.hash .sha2256 n).val →
        messageHash P n = messageHash P n' := by
      rintro n _ hn rfl
      rw [messageHash, messageHash, if_pos hn, if_neg (not_not_intro (P.hash .sha2256 n).property)]
    rintro (rfl | ⟨hm, hh⟩ | ⟨hm, hh⟩)
    · rfl
    · exact hd hm hh
    · exact (hd hm hh).symm

theorem length_encodedDigest (m m' : Bytes) :
    (encodedDigest P m).length = (encodedDigest P m').length := by
  rw [encodedDigest, encodedDigest, Base64.length_encodeUrlSafeNoPad,
    Base64.length_encodeUrlSafeNoPad, length_messageHash, length_messageHash]

theorem shifted_of_append {c c' : ClientDataContext} {e e' x : Bytes} (hl : e.length = e'.length)
    (hx : x ≠ []) (hc : c'.1.val = c.1.val ++ x) (h : e ++ c.2.val = x ++ (e' ++ c'.2.val)) :
    Shifted c c' e e' := by
  rcases List.append_eq_append_iff.mp h with ⟨between, rfl, hs⟩ | ⟨shared, he, hs⟩
  · exact .apart between (by rw [hc, List.append_assoc]) (by rw [hs, List.append_assoc])
  · rcases List.append_eq_append_iff.mp hs with ⟨v, hv, -⟩ | ⟨y, he', hc'⟩
    · -- what is left of the first digest is too short for the second
      have hn := congrArg List.length hv
      have hn' := congrArg List.length he
      rw [List.length_append] at hn hn'
      have hp := List.length_pos_of_ne_nil hx
      omega
    · exact .overlapping x shared y hx hc he he' hc'

theorem Shifted.append_eq {c c' : ClientDataContext} {e e' : Bytes} (h : Shifted c c' e e') :
    c.1.val ++ e ++ c.2.val = c'.1.val ++ e' ++ c'.2.val := by
  cases h with
  | apart between hf hs =>
    rw [hf, hs]
    simp only [List.append_assoc]
  | overlapping x shared y _ hf hl hr hs =>
    rw [hf, hl, hr, hs]
    simp only [List.append_assoc]

theorem clientData_eq_iff {c c' : ClientDataContext}
    (hf : CollisionFree P (hashedMessage m) (hashedMessage m')) :
    clientData P c m = clientData P c' m' ↔ (c = c' ∧ SameDigest P m m') ∨
      Shifted c c' (encodedDigest P m) (encodedDigest P m') ∨
      Shifted c' c (encodedDigest P m') (encodedDigest P m) := by
  have hl := length_encodedDigest (P := P) m m'
  constructor
  · intro h
    unfold clientData at h
    rw [List.append_assoc, List.append_assoc] at h
    rcases append_eq_append_cases h with ⟨hc, hs⟩ | ⟨x, hx, hc, hs⟩ | ⟨x, hx, hc, hs⟩
    · -- with first parts of one length all three pieces are equal
      obtain ⟨he, hc'⟩ := List.append_inj hs hl
      refine .inl ⟨Prod.ext (Subtype.ext hc) (Subtype.ext hc'), (messageHash_eq_iff hf).mp ?_⟩
      exact Base64.encodeUrlSafeNoPad_injective he
    · exact .inr (.inl (shifted_of_append hl hx hc hs))
    · exact .inr (.inr (shifted_of_append hl.symm hx hc hs))
  · rintro (⟨rfl, hd⟩ | hs | hs)
    · rw [clientData, clientData, (messageHash_eq_iff hf).mpr hd]
    · exact hs.append_eq
    · exact hs.append_eq.symm

theorem hash_eq_iff {f : HashFunction} {x y : Bytes} {xs ys : List (HashFunction × Bytes)}
    (hf : CollisionFree P xs ys) (hx : (f, x) ∈ xs) (hy : (f, y) ∈ ys) :
    (P.hash f x).val = (P.hash f y).val ↔ x = y := by
  constructor
  · exact fun h => hf (f, x) hx (f, y) hy rfl (Subtype.ext h)
  · rintro rfl
    rfl

/-- Two signatures of one kind are over the same bytes exactly if these are read alike. -/
theorem signedMessage_eq_iff {σ σ' : MultiSignature} {m m' : Bytes} (hkind : SameKind σ σ')
    (hfree : CollisionFree P (hashed P σ m) (hashed P σ' m')) :
    signedMessage P σ m = signedMessage P σ' m' ↔ ReadAlike P σ σ' m m' := by
  match σ, σ', hkind with
  | .p256WithAuthData _ a none, .p256WithAuthData _ a' none, _ =>
    have hm := messageHash_eq_iff (hfree.mono (List.subset_cons_self ..) (List.subset_cons_self ..))
    refine (hash_eq_iff hfree List.mem_cons_self List.mem_cons_self).trans ?_
    constructor
    · intro h
      obtain ⟨ha, hd⟩ := List.append_inj' h (by rw [length_messageHash, length_messageHash])
      exact ⟨Subtype.ext ha, hm.mp hd⟩
    · rintro ⟨rfl, hd⟩
      rw [hm.mpr hd]
  | .p256WithAuthData _ a (some c), .p256WithAuthData _ a' (some c'), _ =>
    have hc : clientData P c m = clientData P c' m' ↔ _ :=
      clientData_eq_iff (hfree.mono (List.subset_cons_self ..) (List.subset_cons_self ..))
    have hh := hash_eq_iff hfree List.mem_cons_self List.mem_cons_self
    constructor
    · intro h
      obtain ⟨ha, hd⟩ := List.append_inj' h (by rw [(P.hash _ _).property, (P.hash _ _).property])
      exact ⟨Subtype.ext ha, hc.mp (hh.mp hd)⟩
    · rintro ⟨rfl, hd⟩
      show a.val ++ _ = a.val ++ _
      rw [hh.mpr (hc.mpr hd)]
  | .ed25519WithPrefix _ p, .ed25519WithPrefix _ p', _ =>
    exact (hash_eq_iff hfree List.mem_cons_self List.mem_cons_self).trans attach_eq_iff
  | .k256WithPrefix _ p, .k256WithPrefix _ p', _ =>
    exact (hash_eq_iff hfree List.mem_cons_self List.mem_cons_self).trans attach_eq_iff
  | .ed25519WithBase64 _ p, .ed25519WithBase64 _ p', _ =>
    constructor
    · intro h
      have hm := attach_encodeStandard_inj h
      rw [hm] at h
      exact ⟨Subtype.ext (List.append_cancel_right (List.append_cancel_right h)), hm⟩
    · rintro ⟨rfl, rfl⟩
      rfl

section Sample

def sample : Primitives where
  hash := fun _ bytes => ⟨(bytes ++ List.replicate 32 0).take 32, by simp⟩
  verifyEd25519 := fun sig bytes signer => sig = signer ++ bytes
  verifySr25519 := fun sig bytes signer => sig = signer ++ bytes
  verifyEcdsa := fun sig bytes signer => sig = signer ++ bytes
  recoverP256 := fun sig bytes => if bytes.isSuffixOf sig then some (sig.take 1) else none
  recoverK256 := fun sig bytes => if bytes.isSuffixOf sig then some (sig.take 1) else none

def noPrefix : MessagePrefix := ⟨[], by decide⟩

def markPrefix : MessagePrefix := ⟨acurastSignaturePrefix, by decide⟩

def sampleAuthData : AuthenticatorData := ⟨[9], by decide⟩

theorem signedMessage_eq_iff_sample :
    signedMessage sample (.ed25519WithPrefix [] noPrefix) [7] ≠
        signedMessage sample (.ed25519WithPrefix [] markPrefix) [8] ∧
      signedMessage sample (.p256WithAuthData [] sampleAuthData none) [1] ≠
        signedMessage sample (.p256WithAuthData [] sampleAuthData none) (List.replicate 32 2) := by
  have hk : SameKind (.ed25519WithPrefix [] noPrefix) (.ed25519WithPrefix [] markPrefix) := trivial
  have ha : SameKind (.p256WithAuthData [] sampleAuthData none)
      (.p256WithAuthData [] sampleAuthData none) := trivial
  constructor
  · intro h
    have hr := (signedMessage_eq_iff hk (by decide)).mp h
    rcases hr with ⟨-, hm⟩ | ⟨between, -, hm⟩ | ⟨between, -, hm⟩
    · exact absurd hm (by decide)
    · simpa [acurastSignaturePrefix] using congrArg List.length hm
    · simpa [acurastSignaturePrefix] using congrArg List.length hm
  · intro h
    have hr := (signedMessage_eq_iff ha (by decide)).mp h
    exact absurd hr.2 (by unfold SameDigest; decide)

abbrev Confuses (σ σ' : MultiSignature) (m m' : Bytes) : Prop :=
  m ≠ m' ∧ CollisionFree sample (hashed sample σ m) (hashed sample σ' m') ∧
    signedMessage sample σ m = signedMessage sample σ' m'

/-- A marker in the message can be read as part of the prefix, a hash can be submitted in place of
the message, and the encoded hash can be read one symbol further on. -/
theorem messages_confused :
    Confuses (.ed25519WithPrefix [] noPrefix) (.ed25519WithPrefix [] markPrefix)
        (acurastSignaturePrefix ++ [7]) [7] ∧
      Confuses (.k256WithPrefix [] noPrefix) (.k256WithPrefix [] markPrefix)
        (acurastSignaturePrefix ++ [7]) [7] ∧
      Confuses (.p256WithAuthData [] sampleAuthData none) (.p256WithAuthData [] sampleAuthData none)
        [1] (sample.hash .sha2256 [1]).val ∧
      Confuses (.p256WithAuthData [] sampleAuthData (some (⟨[], by decide⟩, ⟨[69], by decide⟩)))
        (.p256WithAuthData [] sampleAuthData (some (⟨[65], by decide⟩, ⟨[], by decide⟩)))
        (List.replicate 32 0) (List.replicate 31 0 ++ [1]) := by
  decide +kernel

end Sample

end Acurast.Signature

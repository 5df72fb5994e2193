import Acurast.Base.Scale
import Acurast.Common.Message
import Acurast.Common.Schedule

/-! The actions that the proxies on other chains and the Acurast chain send each other. -/

namespace Acurast.Hyperdrive

open Base Reader

abbrev U64 := BitVec 64

abbrev U128 := BitVec 128

inductive ProxyChain where
  | alephZero | vara
  deriving DecidableEq

def readAccount : Reader AccountId32 := do
  let bytes ← take 32
  pure (BitVec.ofNat 256 (ofBigEndian bytes))

def encodeAccount (account : AccountId32) : Bytes := bigEndian 32 account.toNat

theorem length_encodeAccount (a : AccountId32) : (encodeAccount a).length = 32 :=
  length_bigEndian 32 a.toNat

theorem reads_account (account : AccountId32) : Reads readAccount (encodeAccount account) account := by
  have hr := reads_take (encodeAccount account)
  rw [length_encodeAccount] at hr
  have hv : BitVec.ofNat 256 (ofBigEndian (encodeAccount account)) = account := by
    have hl : account.toNat < 256 ^ 32 := account.isLt
    rw [encodeAccount, ofBigEndian_bigEndian, Nat.mod_eq_of_lt hl, BitVec.ofNat_toNat,
      BitVec.setWidth_eq]
  have hm := reads_map hr fun bytes => BitVec.ofNat 256 (ofBigEndian bytes)
  rwa [hv] at hm

section Outgoing

structure PlannedExecutionV1 where
  source : AccountId32
  startDelay : U64
  deriving DecidableEq

inductive AssignmentStrategyV1 where
  | single (executions : Option (List PlannedExecutionV1))
  | competing
  deriving DecidableEq

structure JobRequirementsV1 where
  assignmentStrategy : AssignmentStrategyV1
  slots : BitVec 8
  reward : U128
  minReputation : Option U128
  deriving DecidableEq

structure JobRegistrationV1 where
  script : Bytes
  allowedSources : Option (List AccountId32)
  allowOnlyVerifiedSources : Bool
  schedule : Schedule
  networkRequests : BitVec 32
  requiredModules : List (BitVec 16)
  extra : JobRequirementsV1
  deriving DecidableEq

structure SetProcessorJobEnvironmentV1 where
  address : AccountId32
  envVars : List (Bytes × Bytes)
  deriving DecidableEq

structure SetJobEnvironmentPayloadV1 where
  jobId : U128
  publicKey : Bytes
  processors : List SetProcessorJobEnvironmentV1
  deriving DecidableEq

inductive OutgoingActionPayloadV1 where
  | registerJob (jobId : U128) (jobRegistration : JobRegistrationV1)
  | deregisterJob (jobId : U128)
  | finalizeJob (jobIds : List U128)
  | setJobEnvironment (payload : SetJobEnvironmentPayloadV1)
  | noop
  deriving DecidableEq

structure RawOutgoingAction where
  id : U64
  origin : AccountId32
  payloadVersion : BitVec 16
  payload : Bytes
  deriving DecidableEq

def RawOutgoingAction.encode (action : RawOutgoingAction) : Bytes :=
  encodeBits action.id ++ (encodeAccount action.origin ++
    (encodeBits action.payloadVersion ++ encodeByteString action.payload))

def RawOutgoingAction.read : Reader RawOutgoingAction := do
  let id ← bits 64
  let origin ← readAccount
  let payloadVersion ← bits 16
  let payload ← byteString
  pure ⟨id, origin, payloadVersion, payload⟩

variable {action act : RawOutgoingAction} {input : Bytes}

theorem RawOutgoingAction.reads (h : action.payload.length < 2 ^ 32) :
    Reads RawOutgoingAction.read action.encode action := by
  apply reads_bind (reads_bits (by decide) action.id)
  apply reads_bind (reads_account action.origin)
  apply reads_bind (reads_bits (by decide) action.payloadVersion)
  exact reads_map (reads_byteString h) _

theorem RawOutgoingAction.length_of_read {rest : Bytes}
    (h : RawOutgoingAction.read input = some (act, rest)) : 40 ≤ input.length := by
  obtain ⟨id, behindId, hd, h⟩ := bind_eq_some.mp h
  obtain ⟨o, behindOrigin, ho, -⟩ := bind_eq_some.mp h
  obtain ⟨n, behindN, hu, hp⟩ := bind_eq_some.mp hd
  obtain ⟨bs, behindBytes, ht, -⟩ := bind_eq_some.mp ho
  have hl := length_of_uint hu
  have hol := length_of_take ht
  rw [(pure_eq_some.mp hp).2] at hl
  omega

structure OutgoingAction where
  id : U64
  origin : AccountId32
  payload : OutgoingActionPayloadV1
  deriving DecidableEq

def versionV1 : BitVec 16 := 1

def OutgoingAction.decode (decodePayload : Bytes → Option OutgoingActionPayloadV1) (input : Bytes) :
    Option OutgoingAction := do
  let (action, _) ← RawOutgoingAction.read input
  if action.payloadVersion = versionV1 then
    let payload ← decodePayload action.payload
    pure ⟨action.id, action.origin, payload⟩
  else none

theorem OutgoingAction.decode_eq_some {decodePayload : Bytes → Option OutgoingActionPayloadV1}
    {act : OutgoingAction} (h : OutgoingAction.decode decodePayload input = some act) :
    ∃ raw rest, RawOutgoingAction.read input = some (raw, rest) ∧ raw.origin = act.origin ∧
      decodePayload raw.payload = some act.payload := by
  obtain ⟨⟨raw, rest⟩, hr, h⟩ := Option.bind_eq_some_iff.mp h
  dsimp only at h
  split_ifs at h
  obtain ⟨pl, hp, h⟩ := Option.bind_eq_some_iff.mp h
  cases h
  exact ⟨raw, rest, hr, rfl, hp⟩

end Outgoing

section Incoming

inductive IncomingActionPayloadV1 where
  | assignJobProcessor (jobId : U128) (processor : AccountId32)
  | finalizeJob (jobId unusedReward : U128)
  | noop
  deriving DecidableEq

structure IncomingAction where
  id : U64
  payload : IncomingActionPayloadV1
  deriving DecidableEq

def IncomingActionPayloadV1.encode : IncomingActionPayloadV1 → Bytes
  | .assignJobProcessor jobId processor => littleEndian 1 0 ++ (encodeBits jobId ++ encodeAccount processor)
  | .finalizeJob jobId unusedReward => littleEndian 1 1 ++ (encodeBits jobId ++ encodeBits unusedReward)
  | .noop => littleEndian 1 2

def IncomingActionPayloadV1.read : Reader IncomingActionPayloadV1 := do
  let variant ← uint 1
  match variant with
  | 0 => do
    let jobId ← bits 128
    let processor ← readAccount
    pure (.assignJobProcessor jobId processor)
  | 1 => do
    let jobId ← bits 128
    let unusedReward ← bits 128
    pure (.finalizeJob jobId unusedReward)
  | 2 => pure .noop
  | _ => failure

def IncomingAction.encode (action : IncomingAction) : Bytes :=
  encodeBits action.id ++ (littleEndian 1 0 ++ action.payload.encode)

def IncomingAction.read : Reader IncomingAction := do
  let id ← bits 64
  let version ← uint 1
  let _ ← within 0 1 version
  let payload ← IncomingActionPayloadV1.read
  pure ⟨id, payload⟩

def IncomingAction.decode (input : Bytes) : Option IncomingAction :=
  (IncomingAction.read input).map Prod.fst

theorem IncomingActionPayloadV1.reads (payload : IncomingActionPayloadV1) :
    Reads IncomingActionPayloadV1.read payload.encode payload := by
  cases payload with
  | assignJobProcessor jobId processor =>
    apply reads_bind (reads_uint 1 0)
    apply reads_bind (reads_bits (by decide) jobId)
    exact reads_map (reads_account processor) _
  | finalizeJob jobId unusedReward =>
    apply reads_bind (reads_uint 1 1)
    apply reads_bind (reads_bits (by decide) jobId)
    exact reads_map (reads_bits (by decide) unusedReward) _
  | noop =>
    show Reads _ (littleEndian 1 2) _
    exact reads_bind (reads_uint 1 2) (reads_pure _)

theorem IncomingAction.decode_encode (action : IncomingAction) :
    IncomingAction.decode action.encode = some action := by
  have hr : Reads IncomingAction.read action.encode action := by
    apply reads_bind (reads_bits (by decide) action.id)
    apply reads_bind (reads_uint 1 0)
    apply reads_bind (reads_within (Nat.zero_le _) (by decide))
    exact reads_map action.payload.reads _
  have hw := hr []
  rw [List.append_nil] at hw
  rw [IncomingAction.decode, hw]
  rfl

example : IncomingAction.decode [0, 0, 0, 0, 0, 0, 0, 0, 0, 2] = some ⟨0, .noop⟩ := by decide

end Incoming

end Acurast.Hyperdrive

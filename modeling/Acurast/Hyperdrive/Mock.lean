import Acurast.Base.Balances
import Acurast.Hyperdrive.System

/-! A small setup of the system: both chains have an IBC contract and a proxy that is configured for
it, one oracle, and accounts with some funds. -/

namespace Acurast.Hyperdrive

open Base Reader
open Ibc (Public Signature)

def mockEncodePayload : OutgoingActionPayloadV1 → Bytes
  | .deregisterJob jobId => littleEndian 1 1 ++ encodeBits jobId
  | .noop => littleEndian 1 4
  | .registerJob _ _ | .finalizeJob _ | .setJobEnvironment _ => []

def mockReadPayload : Reader OutgoingActionPayloadV1 := do
  let variant ← uint 1
  match variant with
  | 1 => do
    let jobId ← bits 128
    pure (.deregisterJob jobId)
  | 4 => pure .noop
  | _ => failure

def mockRecover (signature : Signature) (hash : H256) : Except IbcContract.Error Public :=
  if signature.extractLsb' 0 256 = hash then .ok (signature.extractLsb' 256 264)
  else .error .signatureInvalid

def mock : Setup where
  ibc
    | .alephZero => 101
    | .vara => 102
  proxy
    | .alephZero => 201
    | .vara => 202
  apart chain := by cases chain <;> decide
  hash bytes := BitVec.ofNat 256 (ofBigEndian bytes)
  encodeSubject _ := []
  encodePayload := mockEncodePayload
  decodePayload bytes := (mockReadPayload bytes).map Prod.fst
  recover _ := mockRecover
  Funds := Purses AccountId32
  balance funds account := funds.getD account 0
  transfer := Purses.pay
  le_balance h := by
    unfold Purses.pay at h
    split_ifs at h with hle
    exact hle
  balance_transfer h := Purses.pay_exact h
  elsewhere _ _ := false
  consume _ _ _ _ := .ok ()
  input _ _ := none

theorem mock_decodePayload (p q : OutgoingActionPayloadV1)
    (h : mock.decodePayload (mock.encodePayload p) = some q) : q = p := by
  have ha : ∀ {bs : Bytes} {p : OutgoingActionPayloadV1}, Reads mockReadPayload bs p →
      mock.decodePayload bs = some p := by
    intro bs p hr
    have hw := hr []
    rw [List.append_nil] at hw
    show (mockReadPayload bs).map Prod.fst = some p
    rw [hw]
    rfl
  cases p with
  | deregisterJob j =>
    have hr : Reads mockReadPayload (littleEndian 1 1 ++ encodeBits j) (.deregisterJob j) :=
      reads_bind (reads_uint 1 1) (reads_map (reads_bits (by decide) j) _)
    exact Option.mem_unique h (ha hr)
  | noop =>
    have hr : Reads mockReadPayload (littleEndian 1 4) .noop := by
      exact reads_bind (reads_uint 1 4) (reads_pure _)
    exact Option.mem_unique h (ha hr)
  | registerJob | finalizeJob | setJobEnvironment => cases h

def mockRuntime : Pallet.Config where
  sender := 300
  updateOrigin origin := origin = .root
  maxSlots := 64
  maxAllowedSources := 10
  maxEnvVars := 10
  envKeyMaxSize := 32
  envValueMaxSize := 1024
  World := Unit
  execute _ _ := some ()
  sendMessage _ _ _ _ _ := some ()

def mockOracle : Public := 77

def mockIbc : IbcContract.State where
  config := ⟨1, false, 1, 1, 20, 30⟩
  outgoing := ∅
  outgoingIndex := []
  incoming := ∅
  incomingIndex := []
  messageCounter := 0
  oraclePublicKeys := (∅ : StorageMap Public Unit).insert mockOracle ()
  history := []

def mockProxy (chain : ProxyChain) : Proxy.State where
  config := ⟨1, mock.ibc chain, 300, false, 1, 2048, ⟨1, 10⟩⟩
  nextOutgoingActionId := 1
  nextJobId := 1
  jobInfo := ∅
  calls := 0
  history := []

def mockFunds : Purses AccountId32 := ((∅ : Purses AccountId32).insert 7 1000).insert 9 1000

def mockChain (chain : ProxyChain) : ChainState mock where
  env := ⟨0, 0⟩
  ibc := mockIbc
  proxy := mockProxy chain
  funds := mockFunds
  pending := []
  outcomes := []

def mockSystem : System mock mockRuntime where
  chains := mockChain
  acurast := {
    alephZeroContract := ⟨101, some IbcContract.sendMessageSelector⟩
    varaContract := 102
    nextMessageNumber := 0
    world := ()
    executed := []
    sent := [] }

def mockJob (reward fee : U128) : Proxy.RegisterJobUserInput where
  jobRegistration := {
    script := []
    allowedSources := none
    allowOnlyVerifiedSources := false
    schedule := { duration := 10, startTime := 0, endTime := 100, interval := 100, maxStartDelay := 0 }
    networkRequests := 0
    requiredModules := []
    extra := ⟨.competing, 1, reward, none⟩ }
  destination := 8
  expectedFulfillmentFee := fee

end Acurast.Hyperdrive

import Acurast.Base.Balances
import Acurast.Base.BigEndian
import Acurast.Base.Checked
import Acurast.Base.Outcome
import Acurast.Common.Message

/-! The processor manager. Managers pair with processors, each with a proof that the other side
signed; a paired processor sends heartbeats and its manager answers for it. -/

namespace Acurast.ProcessorManager

open Base

abbrev ManagerId := ℕ

abbrev Counter := ℕ

structure Version where
  platform : ℕ
  buildNumber : ℕ
  deriving DecidableEq

structure UpdateInfo where
  version : Version
  binaryLocation : Bytes
  deriving DecidableEq

structure Proof (S : Type) where
  timestamp : ℕ
  signature : S
  deriving DecidableEq

structure ProcessorPairing (A S : Type) where
  account : A
  proof : Option (Proof S)
  deriving DecidableEq

inductive ListUpdateOperation where
  | add | remove
  deriving DecidableEq

structure ProcessorPairingUpdate (A S : Type) where
  operation : ListUpdateOperation
  item : ProcessorPairing A S
  deriving DecidableEq

structure OnboardingSettings (A : Type) where
  funds : ℕ
  maxFunds : ℕ
  fundsAccount : A
  deriving DecidableEq

inductive Error where
  | failedToCreateManagerId | processorAlreadyPaired | processorPairedWithAnotherManager
  | invalidPairingProof | processorHasNoManager | counterOverflow | pairingProofExpired
  | unknownProcessorVersion
  | managerIdExists | ownerNotFound
  | pairingValidation | attestationValidation | funding | payment
  | cannotLookup
  | outside
  | badOrigin
  deriving DecidableEq

abbrev Result (α : Type) := Except Error α

/-- The runtime's constants, its signatures, and the other pallets. Their storage is the world;
where they move funds they change the accounts too. -/
structure Config (A : Type) where
  Signature : Type
  verify : Signature → Bytes → A → Bool
  encodeAccount : A → Bytes
  pairingProofExpirationTime : ℕ
  updateOrigin : Origin A → Bool
  Address : Type
  lookup : Address → Option A
  existentialDeposit : ℕ
  maxConsumers : ℕ
  World : Type
  AttestationChain : Type
  validateAttestation : World → AttestationChain → A → Bool
  storeAttestation : World → AttestationChain → A → World
  ensureAttested : World → A → Bool
  Metrics : Type
  noMetrics : Metrics
  commit : World → Ledger A existentialDeposit maxConsumers → A → A × ManagerId → Metrics →
    World × Ledger A existentialDeposit maxConsumers
  Advertisement : Type
  advertise : World → Ledger A existentialDeposit maxConsumers → A → Advertisement →
    Option (World × Ledger A existentialDeposit maxConsumers)
  OtherCall : Type
  isFundableOther : OtherCall → Bool
  dispatchOther : World → Ledger A existentialDeposit maxConsumers → Origin A → OtherCall →
    Option (World × Ledger A existentialDeposit maxConsumers)

inductive PairedBy where
  | manager | processor
  deriving DecidableEq

/-- A pairing with the proof that was accepted for it, and the counter in it if it has one. -/
structure Accepted {A : Type} (T : Config A) where
  pairedBy : PairedBy
  manager : A
  processor : A
  pairing : ProcessorPairing A T.Signature
  counter : Option Counter
  time : ℕ

/-- A trace of what happened, read by no function. -/
inductive Entry {A : Type} (T : Config A) where
  | paired (accepted : Accepted T)
  | unpaired (manager processor : A)
  | charged (payer : A) (paid refund : ℕ)

structure State {A : Type} (T : Config A) where
  world : T.World
  accounts : Ledger A T.existentialDeposit T.maxConsumers
  now : ℕ
  /-- Who owns the item that stands for a manager id. -/
  owners : StorageMap ManagerId A
  lastManagerId : Option ManagerId
  managedProcessors : StorageMap (ManagerId × A) Unit
  processorToManagerIdIndex : StorageMap A ManagerId
  managerCounter : StorageMap A Counter
  processorHeartbeat : StorageMap A ℕ
  processorVersion : StorageMap A Version
  knownBinaryHash : StorageMap Version H256
  processorUpdateInfo : StorageMap A UpdateInfo
  processorMinVersionForReward : StorageMap ℕ ℕ
  managementEndpoint : StorageMap ManagerId Bytes
  processorOnboardingSettings : Option (OnboardingSettings A)
  history : List (Entry T)

variable {A : Type} {T : Config A}

def State.genesis (T : Config A) (world : T.World)
    (accounts : Ledger A T.existentialDeposit T.maxConsumers) : State T where
  world := world
  accounts := accounts
  now := 0
  owners := ∅
  lastManagerId := none
  managedProcessors := ∅
  processorToManagerIdIndex := ∅
  managerCounter := ∅
  processorHeartbeat := ∅
  processorVersion := ∅
  knownBinaryHash := ∅
  processorUpdateInfo := ∅
  processorMinVersionForReward := ∅
  managementEndpoint := ∅
  processorOnboardingSettings := none
  history := []

def State.log (s : State T) (e : Entry T) : State T := { s with history := e :: s.history }

def State.put (s : State T) (w : T.World × Ledger A T.existentialDeposit T.maxConsumers) : State T :=
  { s with world := w.1, accounts := w.2 }

/-! Pairing proofs. -/

/-- The bytes that are signed for one use only: the account, the timestamp in 16 bytes and the
counter in 8. -/
def message (T : Config A) (accountId : A) (timestamp : ℕ) (counter : Counter) : Bytes :=
  openTag ++ T.encodeAccount accountId ++ littleEndian 16 timestamp ++ littleEndian 8 counter ++
    closeTag

def multiMessage (T : Config A) (accountId : A) (timestamp : ℕ) : Bytes :=
  openTag ++ T.encodeAccount accountId ++ littleEndian 16 timestamp ++ closeTag

def validateTimestamp (s : State T) (pairing : ProcessorPairing A T.Signature) : Bool :=
  match pairing.proof with
  | some proof =>
    match checkedSub s.now proof.timestamp with
    | some diff => decide (proof.timestamp ≤ s.now ∧ diff < T.pairingProofExpirationTime)
    | none => false
  | none => false

def validateSignature (T : Config A) (pairing : ProcessorPairing A T.Signature) (accountId : A)
    (counter : Counter) : Bool :=
  match pairing.proof with
  | some proof =>
    T.verify proof.signature (message T accountId proof.timestamp counter) pairing.account
  | none => false

def multiValidateSignature (T : Config A) (pairing : ProcessorPairing A T.Signature)
    (accountId : A) : Bool :=
  match pairing.proof with
  | some proof => T.verify proof.signature (multiMessage T accountId proof.timestamp) pairing.account
  | none => false

def ownerFor (s : State T) (managerId : ManagerId) : Option A := s.owners.lookup managerId

def createManagerId (s : State T) (id : ManagerId) (owner : A) : Result (State T) := do
  ensure (s.owners.lookup id = none) .managerIdExists
  pure { s with owners := s.owners.insert id owner }

def updateBinaryHash (s : State T) (version : Version) : Option H256 → State T
  | some hash => { s with knownBinaryHash := s.knownBinaryHash.insert version hash }
  | none => { s with knownBinaryHash := s.knownBinaryHash.erase version }

def updateMinProcessorVersionForReward (s : State T) (version : Version) : State T :=
  { s with
    processorMinVersionForReward :=
      s.processorMinVersionForReward.insert version.platform version.buildNumber }

variable [DecidableEq A]

/-! Manager ids. -/

def managerIdFor (s : State T) (owner : A) : Option ManagerId :=
  (s.owners.entries.find? fun e => e.2 = owner).map (·.1)

def doGetOrCreateManagerId (s : State T) (manager : A) : Result (State T × ManagerId) :=
  match managerIdFor s manager with
  | some id => pure (s, id)
  | none => do
    let id ← okOr (checkedAdd 128 (s.lastManagerId.getD 0) 1) .failedToCreateManagerId
    let s ← createManagerId s id manager
    pure ({ s with lastManagerId := some id }, id)

/-! Pairings. -/

def doAddProcessorManagerPairing (s : State T) (processor : A) (managerId : ManagerId) :
    Result (State T) :=
  match s.processorToManagerIdIndex.lookup processor with
  | some id =>
    .error (if id = managerId then .processorAlreadyPaired else .processorPairedWithAnotherManager)
  | none =>
    pure { s with
      managedProcessors := s.managedProcessors.insert (managerId, processor) ()
      processorToManagerIdIndex := s.processorToManagerIdIndex.insert processor managerId }

def ensureManaged (s : State T) (manager processor : A) : Result ManagerId := do
  let id ← okOr (s.processorToManagerIdIndex.lookup processor) .processorHasNoManager
  let owner ← okOr (ownerFor s id) .ownerNotFound
  ensure (manager = owner) .processorPairedWithAnotherManager
  pure id

def doRemoveProcessorManagerPairing (s : State T) (processor manager : A) : Result (State T) := do
  let id ← ensureManaged s manager processor
  pure ({ s with
    managedProcessors := s.managedProcessors.erase (id, processor)
    processorToManagerIdIndex := s.processorToManagerIdIndex.erase processor }.log
      (.unpaired manager processor))

def nextCounter (s : State T) (manager : A) : Result Counter :=
  okOr (checkedAdd 64 (s.managerCounter.getD manager 0) 1) .counterOverflow

def doValidatePairing (s : State T) (pairing : ProcessorPairing A T.Signature) (isMulti : Bool) :
    Result (Option Counter) := do
  ensure (validateTimestamp s pairing = true) .pairingProofExpired
  if isMulti then do
    ensure (multiValidateSignature T pairing pairing.account = true) .invalidPairingProof
    pure none
  else do
    let counter ← nextCounter s pairing.account
    ensure (validateSignature T pairing pairing.account counter = true) .invalidPairingProof
    pure (some counter)

def insertCounter (m : StorageMap A Counter) (manager : A) : Option Counter → StorageMap A Counter
  | some counter => m.insert manager counter
  | none => m

def addProcessor (s : State T) (who : A) (managerId : ManagerId)
    (item : ProcessorPairing A T.Signature) : Result (State T) := do
  ensure (validateTimestamp s item = true) .pairingProofExpired
  let counter ← nextCounter s who
  ensure (validateSignature T item who counter = true) .invalidPairingProof
  let s ← doAddProcessorManagerPairing s item.account managerId
  pure ({ s with managerCounter := s.managerCounter.insert who counter }.log
    (.paired ⟨.manager, who, item.account, item, some counter, s.now⟩))

def updatePairing (who : A) (managerId : ManagerId) (s : State T)
    (update : ProcessorPairingUpdate A T.Signature) : Result (State T) :=
  match update.operation with
  | .add => addProcessor s who managerId update.item
  | .remove => doRemoveProcessorManagerPairing s update.item.account who

def updateProcessorPairings (s : State T) (who : A)
    (pairingUpdates : List (ProcessorPairingUpdate A T.Signature)) : Result (State T) := do
  let (s, managerId) ← doGetOrCreateManagerId s who
  pairingUpdates.foldlM (updatePairing who managerId) s

def pairWith (s : State T) (who : A) (pairing : ProcessorPairing A T.Signature) (isMulti : Bool) :
    Result (State T) := do
  let counter ← doValidatePairing s pairing isMulti
  let (s, managerId) ← doGetOrCreateManagerId
    { s with managerCounter := insertCounter s.managerCounter pairing.account counter }
    pairing.account
  let s ← doAddProcessorManagerPairing s who managerId
  pure (s.log (.paired ⟨.processor, pairing.account, who, pairing, counter, s.now⟩))

def pairWithManager (s : State T) (who : A) (pairing : ProcessorPairing A T.Signature) :
    Result (State T) :=
  pairWith s who pairing false

def multiPairWithManager (s : State T) (who : A) (pairing : ProcessorPairing A T.Signature) :
    Result (State T) :=
  pairWith s who pairing true

def onboard (s : State T) (who : A) (pairing : ProcessorPairing A T.Signature) (multi : Bool)
    (attestationChain : T.AttestationChain) : Result (State T) := do
  ensure (T.validateAttestation s.world attestationChain who = true) .outside
  pairWith { s with world := T.storeAttestation s.world attestationChain who } who pairing multi

/-! The other calls. -/

def lookupManager (s : State T) (processor : A) : Option (A × ManagerId) := do
  let managerId ← s.processorToManagerIdIndex.lookup processor
  let owner ← ownerFor s managerId
  pure (owner, managerId)

def isEligible (s : State T) (processor : A) : Bool :=
  T.ensureAttested s.world processor && match s.processorVersion.lookup processor with
    | some version =>
      match s.processorMinVersionForReward.lookup version.platform with
      | some buildNumber => decide (buildNumber ≤ version.buildNumber)
      | none => true
    | none => false

def recoverAssets (s : State T) (processor destination : A) : Result (State T) :=
  let usable := (s.accounts processor).reducible .preserve
  if 0 < usable then do
    let burned ← okOr (s.accounts.change processor (Account.withdraw · usable .preserve)) .outside
    let minted ← okOr (Ledger.change burned destination (Account.mint · usable)) .outside
    pure { s with accounts := minted }
  else pure s

def recoverFunds (s : State T) (who : A) (processor destination : T.Address) : Result (State T) := do
  let processor ← okOr (T.lookup processor) .cannotLookup
  let _ ← ensureManaged s who processor
  let destination ← okOr (T.lookup destination) .cannotLookup
  recoverAssets s processor destination

def heartbeat (s : State T) (who : A) : Result (State T) := do
  ensure (s.processorToManagerIdIndex.lookup who ≠ none) .processorHasNoManager
  pure { s with processorHeartbeat := s.processorHeartbeat.insert who s.now }

def advertiseFor (s : State T) (who : A) (processor : T.Address) (advertisement : T.Advertisement) :
    Result (State T) := do
  let processor ← okOr (T.lookup processor) .cannotLookup
  let _ ← ensureManaged s who processor
  let w ← okOr (T.advertise s.world s.accounts processor advertisement) .outside
  pure (s.put w)

def commitFor (s : State T) (who : A) (metrics : T.Metrics) : State T :=
  if isEligible s who then
    match lookupManager s who with
    | some manager => s.put (T.commit s.world s.accounts who manager metrics)
    | none => s
  else s

def heartbeatWithMetrics (s : State T) (who : A) (version : Version) (metrics : T.Metrics) :
    Result (State T) := do
  ensure (s.processorToManagerIdIndex.lookup who ≠ none) .processorHasNoManager
  pure (commitFor { s with
    processorHeartbeat := s.processorHeartbeat.insert who s.now
    processorVersion := s.processorVersion.insert who version } who metrics)

def heartbeatWithVersion (s : State T) (who : A) (version : Version) : Result (State T) :=
  heartbeatWithMetrics s who version T.noMetrics

def setUpdateInfoOf (who : A) (updateInfo : UpdateInfo) (s : State T) (processor : A) :
    Result (State T) := do
  let _ ← ensureManaged s who processor
  pure { s with processorUpdateInfo := s.processorUpdateInfo.insert processor updateInfo }

def setProcessorUpdateInfo (s : State T) (who : A) (updateInfo : UpdateInfo)
    (processors : List A) : Result (State T) := do
  ensure (s.knownBinaryHash.lookup updateInfo.version ≠ none) .unknownProcessorVersion
  processors.foldlM (setUpdateInfoOf who updateInfo) s

def setManagementEndpoint (s : State T) (who : A) (endpoint : Option Bytes) : Result (State T) := do
  let (s, managerId) ← doGetOrCreateManagerId s who
  pure (setEndpoint s managerId endpoint)
where
  setEndpoint (s : State T) (managerId : ManagerId) : Option Bytes → State T
    | some endpoint =>
      { s with managementEndpoint := s.managementEndpoint.insert managerId endpoint }
    | none => { s with managementEndpoint := s.managementEndpoint.erase managerId }

inductive Call (T : Config A) where
  | updateProcessorPairings (pairingUpdates : List (ProcessorPairingUpdate A T.Signature))
  | pairWithManager (pairing : ProcessorPairing A T.Signature)
  | multiPairWithManager (pairing : ProcessorPairing A T.Signature)
  | recoverFunds (processor destination : T.Address)
  | heartbeat
  | advertiseFor (processor : T.Address) (advertisement : T.Advertisement)
  | heartbeatWithVersion (version : Version)
  | updateBinaryHash (version : Version) (hash : Option H256)
  | setProcessorUpdateInfo (updateInfo : UpdateInfo) (processors : List A)
  | updateMinProcessorVersionForReward (version : Version)
  | heartbeatWithMetrics (version : Version) (metrics : T.Metrics)
  | setManagementEndpoint (endpoint : Option Bytes)
  | onboard (pairing : ProcessorPairing A T.Signature) (multi : Bool)
    (attestationChain : T.AttestationChain)
  | updateOnboardingSettings (newSettings : Option (OnboardingSettings A))

def dispatchSigned (s : State T) (who : A) : Call T → Result (State T)
  | .updateProcessorPairings pairingUpdates => updateProcessorPairings s who pairingUpdates
  | .pairWithManager pairing => pairWithManager s who pairing
  | .multiPairWithManager pairing => multiPairWithManager s who pairing
  | .recoverFunds processor destination => recoverFunds s who processor destination
  | .heartbeat => heartbeat s who
  | .advertiseFor processor advertisement => advertiseFor s who processor advertisement
  | .heartbeatWithVersion version => heartbeatWithVersion s who version
  | .setProcessorUpdateInfo updateInfo processors =>
    setProcessorUpdateInfo s who updateInfo processors
  | .heartbeatWithMetrics version metrics => heartbeatWithMetrics s who version metrics
  | .setManagementEndpoint endpoint => setManagementEndpoint s who endpoint
  | .onboard pairing multi attestationChain => onboard s who pairing multi attestationChain
  | .updateBinaryHash _ _ | .updateMinProcessorVersionForReward _ | .updateOnboardingSettings _ =>
    .error .badOrigin

def dispatch (s : State T) (origin : Origin A) : Call T → Result (State T)
  | .updateBinaryHash version hash => do
    ensure (T.updateOrigin origin = true) .badOrigin
    pure (updateBinaryHash s version hash)
  | .updateMinProcessorVersionForReward version => do
    ensure (T.updateOrigin origin = true) .badOrigin
    pure (updateMinProcessorVersionForReward s version)
  | .updateOnboardingSettings newSettings => do
    ensure (T.updateOrigin origin = true) .badOrigin
    pure { s with processorOnboardingSettings := newSettings }
  | call => do
    let who ← okOr origin.signer .badOrigin
    dispatchSigned s who call

end Acurast.ProcessorManager

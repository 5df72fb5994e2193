import Acurast.Base.Checked
import Acurast.Base.Outcome
import Acurast.Base.Storage
import Acurast.Common.Message

/-! The pallet for token claims. A proof signed off chain entitles an account to an amount, which a
funder pays block by block to a destination that the claimer names. -/

namespace Acurast.TokenClaim

open Base

abbrev ClaimTypeId := ℕ

structure ClaimProof (S : Type) where
  amount : ℕ
  signature : S
  amount_lt : amount < 2 ^ 128
  deriving DecidableEq

structure ProcessedClaim (A S : Type) where
  proof : ClaimProof S
  destination : A
  deriving DecidableEq

structure ClaimTypeConfig (A : Type) where
  funder : A
  vestingDuration : ℕ
  deriving DecidableEq

structure VestingInfo (A : Type) where
  claimer : A
  perBlock : ℕ
  startingBlock : ℕ
  latestVest : ℕ
  remaining : ℕ
  deriving DecidableEq

inductive Error where
  | alreadyClaimed | invalidClaim | notVesting | vestAmountTooLow | vestingAlreadyExists
  | internalError | claimTypeNotFound
  | cannotLookup
  | outside
  | badOrigin
  deriving DecidableEq

abbrev Result (α : Type) := Except Error α

/-- The runtime's constants, the encodings and signatures it takes from its libraries, and the
currency. -/
structure Config (A : Type) where
  Signature : Type
  verify : Signature → Bytes → A → Bool
  encodeAccount : A → Bytes
  encodeBalance : ℕ → Bytes
  encodeClaimTypeId : ClaimTypeId → Bytes
  signer : A
  funder : A
  vestingDuration : ℕ
  maxClaimTypeId : ClaimTypeId
  updateOrigin : Origin A → Bool
  Address : Type
  lookup : Address → Option A
  World : Type
  minimumBalance : ℕ
  /-- What an account can transfer, if need be all it has. -/
  transferable : World → A → ℕ
  /-- Moves exactly the amount from the first account to the second, or fails. -/
  transfer : World → A → A → ℕ → Option World

structure Claim (A : Type) where
  claimType : Option ClaimTypeId
  claimer : A
  destination : A
  amount : ℕ
  duration : ℕ
  start : ℕ
  deriving DecidableEq

/-- A trace of what the pallet did, read by no function of it. -/
inductive Entry (A : Type) where
  | claimed (claim : Claim A)
  | vested (claimType : Option ClaimTypeId) (destination claimer : A) (amount : ℕ)
  deriving DecidableEq

structure State {A : Type} (T : Config A) where
  world : T.World
  blockNumber : ℕ
  claimed : StorageMap A (ProcessedClaim A T.Signature)
  vesting : StorageMap (A × A) (VestingInfo A)
  nextClaimTypeId : ClaimTypeId
  claimTypeConfigs : StorageMap ClaimTypeId (ClaimTypeConfig A)
  multiClaimed : StorageMap (ClaimTypeId × A) (ProcessedClaim A T.Signature)
  multiVesting : StorageMap (ClaimTypeId × A × A) (VestingInfo A)
  history : List (Entry A)

def State.genesis {A : Type} (T : Config A) (w : T.World) : State T where
  world := w
  blockNumber := 0
  claimed := ∅
  vesting := ∅
  nextClaimTypeId := 0
  claimTypeConfigs := ∅
  multiClaimed := ∅
  multiVesting := ∅
  history := []

variable {A : Type} {T : Config A}

def State.log (s : State T) (e : Entry A) : State T := { s with history := e :: s.history }

def ClaimProof.validate (T : Config A) (proof : ClaimProof T.Signature) (account signer : A) : Bool :=
  T.verify proof.signature
    (openTag ++ T.encodeAccount account ++ T.encodeBalance proof.amount ++ closeTag) signer

def ClaimProof.validateWithClaimType (T : Config A) (proof : ClaimProof T.Signature)
    (account signer : A) (claimTypeId : ClaimTypeId) : Bool :=
  T.verify proof.signature (openTag ++ T.encodeAccount account ++ T.encodeBalance proof.amount ++
      T.encodeClaimTypeId claimTypeId ++ closeTag) signer

def VestingInfo.vestable (v : VestingInfo A) (blockNumber : ℕ) : ℕ :=
  let vested := saturatingMul 128 (blockNumber - v.latestVest) v.perBlock
  if v.remaining < vested then v.remaining else vested

def newSchedule (claimer : A) (amount duration now : ℕ) : VestingInfo A where
  claimer := claimer
  perBlock := amount / max duration 1
  startingBlock := now
  latestVest := now
  remaining := amount

def takeVested (schedule : Option (VestingInfo A)) (now : ℕ) :
    Result (Option (VestingInfo A) × ℕ) := do
  let schedule ← okOr schedule .notVesting
  let toTransfer := schedule.vestable now
  let remaining ← okOr (checkedSub schedule.remaining toTransfer) .internalError
  pure (if remaining = 0 then none
    else some { schedule with remaining := remaining, latestVest := now }, toTransfer)

def payVested (w : T.World) (funder destination : A) (toTransfer : ℕ) : Result T.World := do
  ensure (T.minimumBalance ≤ toTransfer) .vestAmountTooLow
  okOr (T.transfer w funder destination toTransfer) .outside

def putBack {K V : Type} [DecidableEq K] (m : StorageMap K V) (k : K) : Option V → StorageMap K V
  | some v => m.insert k v
  | none => m.erase k

def lookupOr (T : Config A) (who : A) : Option T.Address → Result A
  | some address => okOr (T.lookup address) .cannotLookup
  | none => pure who

def createClaimType (s : State T) (config : ClaimTypeConfig A) : State T :=
  { s with
    nextClaimTypeId := min (s.nextClaimTypeId + 1) T.maxClaimTypeId
    claimTypeConfigs := s.claimTypeConfigs.insert s.nextClaimTypeId config }

def updateClaimType (s : State T) (id : ClaimTypeId) (config : ClaimTypeConfig A) :
    Result (State T) := do
  ensure (s.claimTypeConfigs.lookup id ≠ none) .claimTypeNotFound
  pure { s with claimTypeConfigs := s.claimTypeConfigs.insert id config }

def removeClaimType (s : State T) (id : ClaimTypeId) : Result (State T) := do
  ensure (s.claimTypeConfigs.lookup id ≠ none) .claimTypeNotFound
  pure { s with claimTypeConfigs := s.claimTypeConfigs.erase id }

variable [DecidableEq A]

def claim (s : State T) (who : A) (proof : ClaimProof T.Signature) (destination : T.Address) :
    Result (State T) := do
  ensure (s.claimed.lookup who = none) .alreadyClaimed
  ensure (proof.validate T who T.signer = true) .invalidClaim
  let destination ← okOr (T.lookup destination) .cannotLookup
  ensure (s.vesting.lookup (destination, who) = none) .vestingAlreadyExists
  pure ({ s with
    vesting := s.vesting.insert (destination, who)
      (newSchedule who proof.amount T.vestingDuration s.blockNumber)
    claimed := s.claimed.insert who ⟨proof, destination⟩ }.log
      (.claimed ⟨none, who, destination, proof.amount, T.vestingDuration, s.blockNumber⟩))

def multiClaim (s : State T) (who : A) (claimTypeId : ClaimTypeId)
    (proof : ClaimProof T.Signature) (destination : T.Address) : Result (State T) := do
  let config ← okOr (s.claimTypeConfigs.lookup claimTypeId) .claimTypeNotFound
  ensure (s.multiClaimed.lookup (claimTypeId, who) = none) .alreadyClaimed
  ensure (proof.validateWithClaimType T who config.funder claimTypeId = true) .invalidClaim
  let destination ← okOr (T.lookup destination) .cannotLookup
  ensure (s.multiVesting.lookup (claimTypeId, destination, who) = none) .vestingAlreadyExists
  pure ({ s with
    multiVesting := s.multiVesting.insert (claimTypeId, destination, who)
      (newSchedule who proof.amount config.vestingDuration s.blockNumber)
    multiClaimed := s.multiClaimed.insert (claimTypeId, who) ⟨proof, destination⟩ }.log
      (.claimed ⟨some claimTypeId, who, destination, proof.amount, config.vestingDuration,
        s.blockNumber⟩))

def doVest (s : State T) (destination claimer : A) : Result (State T) := do
  let (schedule, toTransfer) ← takeVested (s.vesting.lookup (destination, claimer)) s.blockNumber
  let w ← payVested s.world T.funder destination toTransfer
  pure ({ s with
    world := w
    vesting := putBack s.vesting (destination, claimer) schedule }.log
      (.vested none destination claimer toTransfer))

def doMultiVest (s : State T) (claimTypeId : ClaimTypeId) (destination claimer : A) :
    Result (State T) := do
  let config ← okOr (s.claimTypeConfigs.lookup claimTypeId) .claimTypeNotFound
  let (schedule, toTransfer) ←
    takeVested (s.multiVesting.lookup (claimTypeId, destination, claimer)) s.blockNumber
  let w ← payVested s.world config.funder destination toTransfer
  pure ({ s with
    world := w
    multiVesting := putBack s.multiVesting (claimTypeId, destination, claimer) schedule }.log
      (.vested (some claimTypeId) destination claimer toTransfer))

def vest (s : State T) (who : A) (destination claimer : Option T.Address) : Result (State T) := do
  let destination ← lookupOr T who destination
  let claimer ← lookupOr T who claimer
  doVest s destination claimer

def multiVest (s : State T) (who : A) (claimTypeId : ClaimTypeId)
    (destination claimer : Option T.Address) : Result (State T) := do
  let destination ← lookupOr T who destination
  let claimer ← lookupOr T who claimer
  doMultiVest s claimTypeId destination claimer

inductive Call (T : Config A) where
  | claim (proof : ClaimProof T.Signature) (destination : T.Address)
  | vest (destination claimer : Option T.Address)
  | createClaimType (config : ClaimTypeConfig A)
  | updateClaimType (id : ClaimTypeId) (config : ClaimTypeConfig A)
  | removeClaimType (id : ClaimTypeId)
  | multiClaim (claimTypeId : ClaimTypeId) (proof : ClaimProof T.Signature)
    (destination : T.Address)
  | multiVest (claimTypeId : ClaimTypeId) (destination claimer : Option T.Address)

def dispatch (s : State T) (origin : Origin A) : Call T → Result (State T)
  | .claim proof destination => do
    let who ← okOr origin.signer .badOrigin
    claim s who proof destination
  | .vest destination claimer => do
    let who ← okOr origin.signer .badOrigin
    vest s who destination claimer
  | .createClaimType config => do
    ensure (T.updateOrigin origin = true) .badOrigin
    pure (createClaimType s config)
  | .updateClaimType id config => do
    ensure (T.updateOrigin origin = true) .badOrigin
    updateClaimType s id config
  | .removeClaimType id => do
    ensure (T.updateOrigin origin = true) .badOrigin
    removeClaimType s id
  | .multiClaim claimTypeId proof destination => do
    let who ← okOr origin.signer .badOrigin
    multiClaim s who claimTypeId proof destination
  | .multiVest claimTypeId destination claimer => do
    let who ← okOr origin.signer .badOrigin
    multiVest s who claimTypeId destination claimer

inductive Op (T : Config A) where
  | dispatch (origin : Origin A) (call : Call T)
  | block
  | outside (world : T.World)

def step (s : State T) : Op T → State T
  | .dispatch origin call => transact s (dispatch s origin call)
  | .block => { s with blockNumber := s.blockNumber + 1 }
  | .outside w => { s with world := w }

end Acurast.TokenClaim

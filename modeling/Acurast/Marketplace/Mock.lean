import Acurast.Marketplace.Pallet

/-! A runtime with the constants of the pallet's test runtime. Accounts never run dry, and the outside
world is the price of a millisecond. -/

namespace Acurast.Marketplace

open Base

/-- Account `0` is the pallet account; `1` registers jobs and proposes matches, and any other account is
a processor. -/
def mock : Config ℕ where
  World := ℕ
  maxAllowedSources := 4
  maxSlots := 64
  maxAllowedConsumers := 4
  matchingCompetingMinInterval := 300000
  matchingCompetingDueDelta := 120000
  reportTolerance := 70000
  palletAccount := 0
  hyperdrivePalletAccount := 0
  feePalletAccount := 0
  feePercentage := PerThing.fromParts 30
  matcherPercentage := PerThing.fromParts 10
  defaultMinPrice := 1
  defaultPriceMultiplier := FixedU128.one
  updateOrigin := fun origin => match origin with | .root => true | .signed _ => false
  operatorOrigin := fun origin => match origin with | .root => true | .signed _ => false
  fromBase58 := fun _ => some (cidv0Prefix ++ List.replicate 32 0)
  deploymentHash := fun _ _ => 0
  keyIdHash := fun _ => 0
  sourceVerified := fun _ _ => true
  sourceVerifiedCore := fun _ _ => true
  processorVersion := fun _ _ => none
  lastProcessorMetric := fun _ _ _ => none
  pricePerMillisecondFor := fun price _ => some price
  transfer := fun price _ _ _ => some price
  withdraw := fun price _ amount => some (price, amount)
  onUnbalanced := fun price _ => price
  assignJob := fun price _ _ => some price
  finalizeJob := fun price _ _ => some price

def scriptOf (n : UInt8) : Script := scriptPrefix ++ cidv0StrPrefix ++ List.replicate 43 0x31 ++ [0x31 + n]

def plainJob (schedule : Schedule) (assignmentStrategy : AssignmentStrategy ℕ) (reward : ℕ) :
    JobRegistration ℕ where
  script := scriptOf 0
  allowedSources := none
  allowOnlyVerifiedSources := false
  schedule := schedule
  networkRequests := 0
  requiredModules := []
  extra := ⟨assignmentStrategy, 1, reward, none, none⟩

def onceAt (startTime : ℕ) (h : startTime < 2 ^ 63 := by decide) : Schedule :=
  ⟨5, startTime, startTime + 1, 10, 0, by simp; omega⟩

def atThousand : Schedule := onceAt 1000

def mockJob (n : ℕ) : JobId ℕ := (.acurast 1, n)

def signed (who : ℕ) (call : Call ℕ) : Op mock := .dispatch (.signed who) call

def advertised (who : ℕ) : Op mock := signed who (.advertise ⟨0, none, []⟩)

def proposed (n processor startDelay : ℕ) : Op mock :=
  signed 1 (.proposeMatching [⟨mockJob n, [⟨processor, startDelay⟩]⟩])

def proposedExecution (n i processor startDelay : ℕ) : Op mock :=
  signed 1 (.proposeExecutionMatching [⟨mockJob n, i, [⟨processor, startDelay⟩]⟩])

def after (ops : List (Op mock)) : State mock := run step (State.genesis mock (1 : ℕ)) ops

end Acurast.Marketplace

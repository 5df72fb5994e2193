import Acurast.Base.PerThing
import Acurast.Ibc.Types

/-! The pallet that converts tokens of one chain into locked tokens of another. The source chain
burns and sends a message; the receiving chain funds the account and holds the funds. -/

namespace Acurast.TokenConversion

open Base
open Ibc (SendRequest)

structure InitiatedConversionMessage (A : Type) where
  burned : ℕ
  feePayer : A
  startedAt : ℕ
  deriving DecidableEq

structure Conversion where
  amount : ℕ
  lockStart : ℕ
  deriving DecidableEq

structure ConversionMessage (A : Type) where
  account : A
  amount : ℕ
  deriving DecidableEq

inductive Event (A : Type) where
  | conversionInitiated (account : A) (amount : ℕ)
  | conversionProcessed (account : A) (amount : ℕ)
  | conversionNotProcessed (account : A) (amount : ℕ)
  | conversionUnlocked (account : A)
  | conversionRetried (account : A)
  deriving DecidableEq

inductive Error where
  | cannotPayFee | balanceTooLow | alreadyConverted | convertToNotEnabled | convertFromNotEnabled
  | invalidSender | decodingFailure | conversionLockNotFound | cannotUnlock | notEnabled
  | lockedBalance | cannotUnlockYet | conversionDenied
  | outside
  | badOrigin | panicked
  deriving DecidableEq

abbrev Result (α : Type) := Except Error α

inductive Preservation where
  | expendable | protect | preserve
  deriving DecidableEq

/-- The runtime's constants, the currency, the message sender and the encodings. A call of the
currency that fails is assumed to change nothing. -/
structure Config (A : Type) where
  palletAccount : A
  sendTo : Option (Subject A A)
  receiveFrom : Option (Subject A A)
  liquidity : ℕ
  minLockDuration : ℕ
  maxLockDuration : ℕ
  minTransferAmount : ℕ
  convertTtl : ℕ
  enableOrigin : Origin A → Bool
  encodeAccount : A → Bytes
  encodeMessage : ConversionMessage A → Bytes
  decodeMessage : Bytes → Option (ConversionMessage A)
  messageIdHasher : Bytes → H256
  World : Type
  minimumBalance : ℕ
  balance : World → A → ℕ
  reducibleBalance : World → A → Preservation → ℕ
  burnFrom : World → A → ℕ → Option (World × ℕ)
  /-- Moves exactly the amount from the first account to the second, or fails. -/
  transfer : World → A → A → ℕ → Preservation → Option World
  hold : World → A → ℕ → Option World
  releaseAll : World → A → Option World
  withdraw : World → A → ℕ → Option (World × ℕ)
  onSlash : World → ℕ → World
  /-- Slashes held funds; also the credit and what was not slashed. -/
  slashHeld : World → A → ℕ → World × ℕ × ℕ
  /-- Sends a message; also the fee of the message it replaced. -/
  sendMessage : World → SendRequest A → Option (World × Option ℕ)

/-- A trace of what the pallet did with conversions, read by no function of it. -/
inductive Entry (A : Type) where
  | funded (account : A) (amount : ℕ)
  | undone (account : A) (amount : ℕ)
  | unlocked (account : A)
  deriving DecidableEq

structure State {A : Type} (T : Config A) where
  world : T.World
  blockNumber : ℕ
  initiatedConversion : StorageMap A (InitiatedConversionMessage A)
  lockedConversion : StorageMap A Conversion
  unprocessedConversion : StorageMap A (ConversionMessage A)
  enabled : Bool
  deniedSource : StorageMap A Bool
  events : List (Event A)
  history : List (Entry A)

def State.genesis {A : Type} (T : Config A) (w : T.World) : State T where
  world := w
  blockNumber := 0
  initiatedConversion := ∅
  lockedConversion := ∅
  unprocessedConversion := ∅
  enabled := false
  deniedSource := ∅
  events := []
  history := []

variable {A : Type} {T : Config A}

def State.deposit (s : State T) (e : Event A) : State T := { s with events := e :: s.events }

def State.log (s : State T) (e : Entry A) : State T := { s with history := e :: s.history }

def refundReplaced (w : T.World) (prevPayer : A) (fee : Option ℕ) : Result T.World :=
  whenSome (fee.filter (· ≠ 0)) w fun fee =>
    okOr (T.transfer w T.palletAccount prevPayer fee .preserve) .outside

def payFee (w : T.World) (payer : A) (fee : ℕ) : Result T.World :=
  if fee = 0 then pure w else okOr (T.transfer w payer T.palletAccount fee .preserve) .outside

def sendConvertMessage (s : State T) (account : A) (feePayer prevFeePayer : Option A)
    (amount fee : ℕ) (destination : Subject A A) : Result (State T) := do
  let w ← payFee s.world (feePayer.getD account) fee
  let (w, replaced) ← okOr (T.sendMessage w
    { sender := T.palletAccount
      payer := T.palletAccount
      nonce := T.messageIdHasher (T.encodeAccount T.palletAccount ++ T.encodeAccount account)
      recipient := destination
      payload := T.encodeMessage ⟨account, amount⟩
      ttl := T.convertTtl
      fee := fee }) .outside
  let w ← refundReplaced w (prevFeePayer.getD account) replaced
  pure { s with world := w }

def burnableBalance (T : Config A) (w : T.World) (who : A) (fee : ℕ) : Result ℕ := do
  let reducible := T.reducibleBalance w who .preserve
  ensure (T.balance w who - saturatingAdd 128 reducible T.minimumBalance = 0) .lockedBalance
  ensure (fee ≤ reducible) .cannotPayFee
  ensure (T.minTransferAmount ≤ reducible - fee) .balanceTooLow
  ensure (T.liquidity ≤ reducible - fee) .panicked
  pure (reducible - fee - T.liquidity)

def fund (T : Config A) (w : T.World) (m : ConversionMessage A) : Option T.World :=
  T.transfer w T.palletAccount m.account m.amount .protect

def undoFund (T : Config A) (w : T.World) (m : ConversionMessage A) : Option T.World :=
  T.transfer w m.account T.palletAccount m.amount .expendable

def holdAmount (T : Config A) (w : T.World) (transferred : ℕ) (account : A) : ℕ :=
  if transferred - T.liquidity = 0 then min transferred (T.reducibleBalance w account .protect)
  else transferred - T.liquidity

variable [DecidableEq A]

def convert (s : State T) (who : A) (fee : ℕ) : Result (State T) := do
  ensure ((s.deniedSource.lookup who).getD false = false) .conversionDenied
  let destination ← okOr T.sendTo .convertToNotEnabled
  ensure (s.initiatedConversion.lookup who = none) .alreadyConverted
  let burnable ← burnableBalance T s.world who fee
  let (w, burned) ← okOr (T.burnFrom s.world who burnable) .outside
  ensure (burnable = burned) .balanceTooLow
  let s := { s with
    world := w
    initiatedConversion := s.initiatedConversion.insert who ⟨burned, who, s.blockNumber⟩ }
  let s ← sendConvertMessage s who none none burned fee destination
  pure (s.deposit (.conversionInitiated who burned))

def releaseConversion (s : State T) (who : A) (locked : Conversion) : Result (State T) := do
  let lockProgress := min (s.blockNumber - locked.lockStart) T.maxLockDuration
  ensure (T.minLockDuration ≤ lockProgress) .cannotUnlockYet
  let amountFactor : Perquintill := PerThing.fromRational lockProgress T.maxLockDuration
  let slash := locked.amount - amountFactor.mulFloor locked.amount
  let w ← okOr (T.releaseAll s.world who) .outside
  let w ← slashUnserved w slash
  pure ({ s with world := w, lockedConversion := s.lockedConversion.erase who }.log (.unlocked who))
where
  slashUnserved (w : T.World) (slash : ℕ) : Result T.World :=
    if slash = 0 then pure w
    else do
      ensure (slash ≤ T.reducibleBalance w who .preserve) .cannotUnlock
      let (w, imbalance) ← okOr (T.withdraw w who slash) .outside
      pure (T.onSlash w imbalance)

def unlock (s : State T) (who : A) : Result (State T) := do
  let s ← whenSome (s.lockedConversion.lookup who) s (releaseConversion s who)
  pure (s.deposit (.conversionUnlocked who))

def retryConvertBy (s : State T) (who account : A) (feePayer : Option A) (fee : ℕ) :
    Result (State T) := do
  let destination ← okOr T.sendTo .convertToNotEnabled
  let initiated ← okOr (s.initiatedConversion.lookup account) .conversionLockNotFound
  let s := { s with
    initiatedConversion :=
      s.initiatedConversion.insert account { initiated with feePayer := who } }
  let s ← sendConvertMessage s account feePayer (some initiated.feePayer) initiated.burned fee
    destination
  pure (s.deposit (.conversionRetried account))

def retryConvert (s : State T) (who : A) (fee : ℕ) : Result (State T) :=
  retryConvertBy s who who none fee

def retryConvertFor (s : State T) (who account : A) (fee : ℕ) : Result (State T) :=
  retryConvertBy s who account (some who) fee

def hold (s : State T) (transferred : ℕ) (m : ConversionMessage A) : Option (State T) := do
  let amount := holdAmount T s.world transferred m.account
  let w ← T.hold s.world m.account amount
  pure { s with
    world := w
    lockedConversion := s.lockedConversion.insert m.account ⟨amount, s.blockNumber⟩ }

def postpone (s : State T) (m : ConversionMessage A) : State T :=
  { s with
    unprocessedConversion := s.unprocessedConversion.insert m.account m }.deposit
      (.conversionNotProcessed m.account m.amount)

def tryUndoFund (s : State T) (m : ConversionMessage A) : State T :=
  match undoFund T s.world m with
  | some w => { s with world := w }.log (.undone m.account m.amount)
  | none => s

def processPending (s : State T) (m : ConversionMessage A) : State T :=
  match fund T s.world m with
  | none => postpone s m
  | some w =>
    let s := { s with world := w }.log (.funded m.account m.amount)
    match hold s m.amount m with
    | some s => s.deposit (.conversionProcessed m.account m.amount)
    | none => postpone (tryUndoFund s m) m

def pending (s : State T) (m : ConversionMessage A) : ConversionMessage A :=
  (s.unprocessedConversion.lookup m.account).getD m

def processConversion (s : State T) (m : ConversionMessage A) : State T :=
  match s.lockedConversion.lookup m.account with
  | some _ => s
  | none =>
    processPending { s with unprocessedConversion := s.unprocessedConversion.erase m.account }
      (pending s m)

def retryProcessConversionFor (s : State T) (account : A) : Result (State T) := do
  let _ ← okOr T.receiveFrom .convertFromNotEnabled
  let m ← okOr (s.unprocessedConversion.lookup account) .conversionLockNotFound
  pure (processConversion
    { s with unprocessedConversion := s.unprocessedConversion.erase account } m)

def retryProcessConversion (s : State T) (who : A) : Result (State T) :=
  retryProcessConversionFor s who

def process (s : State T) (message : MessageBody A A) : Result (State T) := do
  let expectedSender ← okOr T.receiveFrom .convertFromNotEnabled
  ensure (expectedSender = message.sender) .invalidSender
  let m ← okOr (T.decodeMessage message.payload.val) .decodingFailure
  pure (processConversion s m)

def slash (s : State T) (account : A) (amount : ℕ) : State T × Option ℕ :=
  match s.lockedConversion.lookup account with
  | none => (s, none)
  | some conversion =>
    let (w, credit, notSlashed) := T.slashHeld s.world account amount
    let newAmount := conversion.amount - (amount - notSlashed)
    if newAmount = 0 then
      ({ s with world := w, lockedConversion := s.lockedConversion.erase account }.log
        (.unlocked account), some credit)
    else
      ({ s with
        world := w
        lockedConversion := s.lockedConversion.insert account { conversion with amount := newAmount } },
        some credit)

inductive Call (A : Type) where
  | convert (fee : ℕ)
  | unlock
  | retryConvert (fee : ℕ)
  | retryConvertFor (account : A) (fee : ℕ)
  | retryProcessConversion
  | retryProcessConversionFor (account : A)
  | setEnabled (enable : Bool)
  | denySource (account : A) (denied : Bool)

def dispatchSigned (s : State T) (who : A) : Call A → Result (State T)
  | .unlock => unlock s who
  | .retryConvert fee => retryConvert s who fee
  | .retryConvertFor account fee => retryConvertFor s who account fee
  | .retryProcessConversion => retryProcessConversion s who
  | .retryProcessConversionFor account => retryProcessConversionFor s account
  | .convert _ | .setEnabled _ | .denySource _ _ => throw .badOrigin

def dispatch (s : State T) (origin : Origin A) : Call A → Result (State T)
  | .convert fee => do
    ensure (s.enabled = true) .notEnabled
    let who ← okOr origin.signer .badOrigin
    convert s who fee
  | .setEnabled enable => do
    ensure (T.enableOrigin origin = true) .badOrigin
    pure { s with enabled := enable }
  | .denySource account denied => do
    ensure (T.enableOrigin origin = true) .badOrigin
    pure { s with deniedSource := s.deniedSource.insert account denied }
  | call => do
    let who ← okOr origin.signer .badOrigin
    dispatchSigned s who call

/-- A call, a message from the source chain, a slash by another pallet, the next block, or anything
outside the pallet. -/
inductive Op (T : Config A) where
  | dispatch (origin : Origin A) (call : Call A)
  | process (message : MessageBody A A)
  | slash (account : A) (amount : ℕ)
  | block
  | outside (world : T.World)

def step (s : State T) : Op T → State T
  | .dispatch origin call => transact s (dispatch s origin call)
  | .process message => transact s (process s message)
  | .slash account amount => (slash s account amount).1
  | .block => { s with blockNumber := s.blockNumber + 1 }
  | .outside w => { s with world := w }

end Acurast.TokenConversion

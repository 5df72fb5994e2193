import Acurast.Base.BigEndian
import Acurast.Base.Outcome
import Acurast.Common.Message

/-! The actions that the token pallet and the token contract of a proxy chain exchange, and their
encoding for Ethereum. -/

namespace Acurast.HyperdriveToken

open Base

abbrev TransferNonce := ℕ

abbrev EnableNonce := ℕ

inductive Action (A : Type) where
  /-- An amount of an asset (the native token if there is none) for a destination. -/
  | transferToken (amount : ℕ) (assetId : Option ℕ) (transferNonce : TransferNonce)
    (dest : MultiOrigin A)
  | noop
  | setEnabled (enabled : Bool)
  deriving DecidableEq

inductive RawAction where
  | transferToken | setEnabled | noop
  deriving DecidableEq

def RawAction.index : RawAction → ℕ
  | .transferToken => 0
  | .setEnabled => 1
  | .noop => 255

def RawAction.tryFrom (index : ℕ) : Option RawAction :=
  if index = RawAction.transferToken.index then some .transferToken else none

inductive ActionDecoderError where
  | invalidAction | unsupportedAction | invalidActionPayload | couldNotConvertAccountId
  deriving DecidableEq

inductive ActionEncoderError where
  | unsupportedProxy
  deriving DecidableEq

variable {A : Type}

def Action.raw : Action A → RawAction
  | .transferToken _ _ _ _ => .transferToken
  | .noop => .noop
  | .setEnabled _ => .setEnabled

def Action.encode (action : Action A) : Except ActionEncoderError Bytes :=
  match action with
  | .transferToken amount assetId transferNonce (.ethereum20 account) =>
    pure (bigEndian 4 action.raw.index ++ bigEndian 16 amount ++ bigEndian 4 (assetId.getD 0) ++
      bigEndian 8 transferNonce ++ bigEndian 20 account.toNat)
  | .transferToken _ _ _ _ => throw .unsupportedProxy
  | .noop => pure []
  | .setEnabled enabled => pure (bigEndian 4 action.raw.index ++ [if enabled then 1 else 0])

def slice (bytes : Bytes) (start stop : ℕ) : Bytes := (bytes.drop start).take (stop - start)

/-- Reads an action that a contract on Ethereum sent. Its destination is an account of this chain,
which `parse` makes of 32 bytes. -/
def Action.decode (parse : Bytes → Option A) (encoded : Bytes) :
    Except ActionDecoderError (Action A) := do
  ensure (4 ≤ encoded.length) .invalidAction
  let raw ← okOr (RawAction.tryFrom (ofBigEndian (slice encoded 0 4))) .unsupportedAction
  decodeAs raw
where
  decodeAs : RawAction → Except ActionDecoderError (Action A)
    | .transferToken => do
      ensure (encoded.length = 64) .invalidActionPayload
      let assetId := ofBigEndian (slice encoded 20 24)
      let dest ← okOr (parse (slice encoded 32 64)) .couldNotConvertAccountId
      pure (.transferToken (ofBigEndian (slice encoded 4 20)) (if assetId ≠ 0 then some assetId else none)
        (ofBigEndian (slice encoded 24 32)) (.acurast dest))
    | .noop => pure .noop
    | .setEnabled => do
      ensure (encoded.length = 5) .invalidActionPayload
      pure (.setEnabled (encoded.getD 4 0 ≠ 0))

end Acurast.HyperdriveToken

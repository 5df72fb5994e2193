import Acurast.Base.Run
import Acurast.Hyperdrive.Chain
import Acurast.Hyperdrive.Pallet

/-! The proxy chains and the Acurast chain together. The oracles sign what they read in the storage
of the IBC contracts, so a message that was stored there may reach the pallet at any later time. -/

namespace Acurast.Hyperdrive

open Base
open IbcContract (Message)

structure System (T : Setup) (R : Pallet.Config) where
  chains : ProxyChain → ChainState T
  acurast : Pallet.State R

inductive SystemOp where
  | chain (chain : ProxyChain) (op : ChainOp)
  | updateAlephZeroContract (origin : Origin AccountId32) (contract : ContractCall AccountId32)
  | updateVaraContract (origin : Origin AccountId32) (contract : AccountId32)
  | sendToProxy (chain : ProxyChain) (action : Pallet.ProxyAction) (payer : AccountId32)
  | deliver (chain : ProxyChain) (message : Message)
  deriving DecidableEq

variable {T : Setup} {R : Pallet.Config}

def IbcContract.sentMessages (s : IbcContract.State) : List Message :=
  s.history.filterMap fun
    | .sent m => some m.message
    | _ => none

/-- The message processor of the runtime, with the check of the oracles' signatures before it: they
are there for messages that were stored. -/
def deliver (s : System T R) (chain : ProxyChain) (m : Message) : Pallet.Result (Pallet.State R) := do
  ensure (m ∈ IbcContract.sentMessages (s.chains chain).ibc) .notForPallet
  let payload ← okOr (Payload.tryFrom m.payload) .payloadLengthExceeded
  ensure (m.recipient = .acurast (.extrinsic R.sender)) .notForPallet
  Pallet.process T s.acurast ⟨m.sender, m.recipient, payload⟩

def sentMessage (T : Setup) (R : Pallet.Config) (a : Pallet.SentAction) : Message where
  id := IbcContract.messageId T (.acurast (.extrinsic R.sender)) a.nonce
  sender := .acurast (.extrinsic R.sender)
  nonce := a.nonce
  recipient := a.recipient
  payload := a.action.encode

def step (s : System T R) : SystemOp → System T R
  | .chain chain op =>
    { s with chains := Function.update s.chains chain (stepChain T chain (s.chains chain) op) }
  | .updateAlephZeroContract origin contract =>
    { s with acurast := transact s.acurast (Pallet.updateAlephZeroContract s.acurast origin contract) }
  | .updateVaraContract origin contract =>
    { s with acurast := transact s.acurast (Pallet.updateVaraContract s.acurast origin contract) }
  | .sendToProxy chain action payer =>
    { s with acurast := transact s.acurast (Pallet.sendToProxy T s.acurast chain action payer) }
  | .deliver chain m => { s with acurast := transact s.acurast (deliver s chain m) }

end Acurast.Hyperdrive

import Acurast.Base.Frame

/-! The subjects that exchange messages over Hyperdrive, and what a recipient gets of a message. -/

namespace Acurast

open Base

abbrev Bytes := List UInt8

/-- What wallets put around bytes they sign: the letters of "<Bytes>" and "</Bytes>". -/
def openTag : Bytes := [60, 66, 121, 116, 101, 115, 62]

def closeTag : Bytes := [60, 47, 66, 121, 116, 101, 115, 62]

abbrev H256 := BitVec 256

abbrev AccountId32 := BitVec 256

instance decidableMemBitVec {n : ℕ} (a : BitVec n) (l : List (BitVec n)) : Decidable (a ∈ l) :=
  inferInstance

abbrev AccountId20 := BitVec 160

structure ContractCall (C : Type) where
  contract : C
  selector : Option (BitVec 32)
  deriving DecidableEq

inductive Layer (A C : Type) where
  | extrinsic (account : A)
  | contract (call : ContractCall C)
  deriving DecidableEq

inductive Subject (A C : Type) where
  | acurast (layer : Layer A C)
  | alephZero (layer : Layer AccountId32 C)
  | vara (layer : Layer AccountId32 C)
  | ethereum (layer : Layer AccountId20 AccountId20)
  | solana (layer : Layer AccountId32 AccountId32)
  | acurastCanary (layer : Layer A C)
  deriving DecidableEq

inductive MultiOrigin (A : Type) where
  | acurast (account : A)
  | tezos (address : BoundedVec UInt8 36)
  | ethereum (address : BoundedVec UInt8 20)
  | alephZero (account : A)
  | vara (account : A)
  | ethereum20 (account : AccountId20)
  | solana (account : AccountId32)
  | acurastCanary (account : A)
  deriving DecidableEq

inductive ProxyChain where
  | acurast | tezos | alephZero | vara | ethereum | solana | acurastCanary
  deriving DecidableEq

inductive ProxyAcurastChain where
  | acurast | acurastCanary
  deriving DecidableEq

def ProxyAcurastChain.toProxyChain : ProxyAcurastChain → ProxyChain
  | .acurast => .acurast
  | .acurastCanary => .acurastCanary

variable {A C : Type}

def Subject.proxyChain : Subject A C → ProxyChain
  | .acurast _ => .acurast
  | .alephZero _ => .alephZero
  | .vara _ => .vara
  | .ethereum _ => .ethereum
  | .solana _ => .solana
  | .acurastCanary _ => .acurastCanary

def MultiOrigin.proxyChain : MultiOrigin A → ProxyChain
  | .acurast _ => .acurast
  | .tezos _ => .tezos
  | .alephZero _ => .alephZero
  | .vara _ => .vara
  | .ethereum _ | .ethereum20 _ => .ethereum
  | .solana _ => .solana
  | .acurastCanary _ => .acurastCanary

def ProxyChain.encode : ProxyChain → Bytes
  | .acurast => [0]
  | .tezos => [1]
  | .alephZero => [2]
  | .vara => [3]
  | .ethereum => [4]
  | .solana => [5]
  | .acurastCanary => [6]

def payloadMaxLength : ℕ := 1024

abbrev Payload := BoundedVec UInt8 payloadMaxLength

def Payload.tryFrom (bytes : Bytes) : Option Payload :=
  if h : bytes.length ≤ payloadMaxLength then some ⟨bytes, h⟩ else none

structure MessageBody (A C : Type) where
  sender : Subject A C
  recipient : Subject A C
  payload : Payload
  deriving DecidableEq

end Acurast

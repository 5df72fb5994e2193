import Acurast.Compute.BufferHistories
import Acurast.Compute.AccrualPaths
import Acurast.Compute.TotalStake
import Acurast.Compute.RewardOnce
import Acurast.Compute.Solvency
import Acurast.Compute.SlashBound
import Acurast.Compute.SlashSpread
import Acurast.Compute.Generations
import Acurast.Compute.Commission
import Acurast.Compute.CooldownOrder
import Acurast.Compute.Redelegation
import Acurast.Compute.Backing
import Acurast.Compute.ScoreOrder
import Acurast.Compute.UnknownPools
import Acurast.Compute.MetricRewards
import Acurast.Compute.StakedRewards
import Acurast.Common.ScheduleViews
import Acurast.Ibc.Oracles
import Acurast.Ibc.Fees
import Acurast.TokenConversion.AllOrNothing
import Acurast.TokenConversion.LockAccounting
import Acurast.TokenClaim.Completion
import Acurast.ProcessorManager.PairingProofs
import Acurast.ProcessorManager.Sponsored
import Acurast.HyperdriveToken.Vault
import Acurast.KeyAttestation.Revocation
import Acurast.KeyAttestation.Panics
import Acurast.Signature.MultiSignature
import Acurast.Marketplace.Booking
import Acurast.Marketplace.Sufficiency
import Acurast.Marketplace.StartDelay
import Acurast.Marketplace.Escrow
import Acurast.Marketplace.Keys
import Acurast.Marketplace.PaidOnce
import Acurast.Marketplace.Records
import Acurast.Hyperdrive.ContractFees
import Acurast.Hyperdrive.Interleaving
import Acurast.Hyperdrive.Validator

import HyperExchange.UndoDatabase
import HyperExchange.ForkHead
import HyperExchange.DepositCredits
import HyperExchange.BallotAtomicity
import HyperExchange.NameHistories
import HyperExchange.TransactionExpiry
import HyperExchange.ReplicaAgreement
import HyperExchange.RefundReceivers
import HyperExchange.ColdhotLifecycle
import HyperExchange.ExternalValidation
import HyperExchange.SenatorQuorum
import HyperExchange.WithdrawalAmounts
import HyperExchange.WithdrawalSettlement
import HyperExchange.ForkFile
import HyperExchange.BlockGas
import HyperExchange.ResultDigest
import HyperExchange.ReferendumPeriods
import HyperExchange.ExpirySweep
import HyperExchange.SenatorReplacement
import HyperExchange.ActiveMiners
import HyperExchange.MinerDrawing
import HyperExchange.SlotTimes
import HyperExchange.BonusPool
import HyperExchange.CommitteeAuthority
import HyperExchange.MinerCredits
import HyperExchange.OrderExhaustion
import HyperExchange.ContractBalances
import HyperExchange.ForkPoint
import HyperExchange.ResultValidation
import HyperExchange.BlockLookup
import HyperExchange.AccountNames
import HyperExchange.ContractQueries

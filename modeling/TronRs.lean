import TronRs.L2Vm.Interp
import TronRs.L2Vm.Memory
import TronRs.L2Vm.Jumps
import TronRs.L2Vm.Operands
import TronRs.L3Actuators.Election
import TronRs.L3Actuators.VmFlush
import TronRs.L3Actuators.Market.Exact
import TronRs.L3Actuators.Proposals
import TronRs.L3Actuators.CallValue
import TronRs.L3Actuators.Completeness
import TronRs.L3Actuators.Market.Priority
import TronRs.L3Actuators.TokenSupply
import TronRs.L3Actuators.ExchangePools
import TronRs.L3Actuators.Trx.Locks
import TronRs.L3Actuators.Trx.Weights
import TronRs.L3Actuators.Redeploy
import TronRs.L4Consensus.OwnerScan
import TronRs.L4Consensus.Reward
import TronRs.L4Consensus.Fork
import TronRs.L4Consensus.Tapos
import TronRs.L4P2p.Buckets
import TronRs.L4P2p.Discovery
import TronRs.L4P2p.Session
import TronRs.L5Node.Interleaving
import TronRs.L5Node.Schedule
import TronRs.L5Node.Produced
import TronRs.L5Node.Equivocation
import TronRs.L5Node.BlockPaths
import TronRs.L5Node.CommitCache
import TronRs.L5Node.Paging

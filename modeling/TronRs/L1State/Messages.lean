import TronRs.Core.Column
import TronRs.L1State.Types

/-!
# Protocol messages

The protobuf messages of `crates/proto/protos`, with the fields the node reads or writes.
A field that a message does not carry on the wire has the protobuf default, so every
structure has defaults and `{}` is the empty message. Text is kept as its UTF-8 bytes; an
enumeration field is the raw 32-bit number the wire carries.
-/
namespace TronRs

open TronRs.Core

/-! ## Accounts -/

structure Frozen where
  frozenBalance : Int64 := 0
  expireTime : Int64 := 0
  deriving DecidableEq

structure FreezeV2 where
  type : Int32 := 0
  amount : Int64 := 0
  deriving DecidableEq

structure UnFreezeV2 where
  type : Int32 := 0
  unfreezeAmount : Int64 := 0
  unfreezeExpireTime : Int64 := 0
  deriving DecidableEq

structure Vote where
  voteAddress : Bytes := []
  voteCount : Int64 := 0
  deriving DecidableEq

structure Key where
  address : Bytes := []
  weight : Int64 := 0
  deriving DecidableEq

structure Permission where
  type : Int32 := 0
  id : Int32 := 0
  permissionName : Bytes := []
  threshold : Int64 := 0
  parentId : Int32 := 0
  operations : Bytes := []
  keys : List Key := []
  deriving DecidableEq

structure AccountResource where
  frozenBalanceForEnergy : Option Frozen := none
  delegatedFrozenV2BalanceForEnergy : Int64 := 0
  acquiredDelegatedFrozenV2BalanceForEnergy : Int64 := 0
  deriving DecidableEq

/-- `AccountType` numbers of Tron.proto. -/
def accountTypeNormal : Int32 := 0
def accountTypeContract : Int32 := 2

/-- `protocol.Account`. -/
structure Account where
  accountName : Bytes := []
  type : Int32 := 0
  address : Bytes := []
  balance : Int64 := 0
  votes : List Vote := []
  assetV2 : Column Bytes Int64 := ∅
  frozen : List Frozen := []
  tronPower : Option Frozen := none
  createTime : Int64 := 0
  allowance : Int64 := 0
  latestWithdrawTime : Int64 := 0
  isWitness : Bool := false
  frozenSupply : List Frozen := []
  assetIssuedName : Bytes := []
  assetIssuedId : Bytes := []
  accountId : Bytes := []
  accountResource : Option AccountResource := none
  ownerPermission : Option Permission := none
  witnessPermission : Option Permission := none
  activePermission : List Permission := []
  frozenV2 : List FreezeV2 := []
  unfrozenV2 : List UnFreezeV2 := []
  delegatedFrozenV2BalanceForBandwidth : Int64 := 0
  acquiredDelegatedFrozenV2BalanceForBandwidth : Int64 := 0

/-! ## Other stored records -/

structure Witness where
  address : Bytes := []
  voteCount : Int64 := 0
  url : Bytes := []
  isJobs : Bool := false
  deriving DecidableEq

structure DelegatedResource where
  src : Bytes := []
  dst : Bytes := []
  frozenBalanceForBandwidth : Int64 := 0
  frozenBalanceForEnergy : Int64 := 0
  expireTimeForBandwidth : Int64 := 0
  expireTimeForEnergy : Int64 := 0
  deriving DecidableEq

/-- `Proposal.State` numbers. -/
def proposalPending : Int32 := 0
def proposalCanceled : Int32 := 3

/-- The parameters are the entries of a map, in the order the map is iterated. -/
structure Proposal where
  proposalId : Int64 := 0
  proposerAddress : Bytes := []
  parameters : List (Int64 × Int64) := []
  expirationTime : Int64 := 0
  createTime : Int64 := 0
  approvals : List Bytes := []
  state : Int32 := 0
  deriving DecidableEq

structure Exchange where
  exchangeId : Int64 := 0
  creatorAddress : Bytes := []
  createTime : Int64 := 0
  firstTokenId : Bytes := []
  firstTokenBalance : Int64 := 0
  secondTokenId : Bytes := []
  secondTokenBalance : Int64 := 0
  deriving DecidableEq

/-- `MarketOrder.State` numbers. -/
def orderActive : Int32 := 0
def orderInactive : Int32 := 1
def orderCanceled : Int32 := 2

structure MarketOrder where
  orderId : Bytes := []
  ownerAddress : Bytes := []
  createTime : Int64 := 0
  sellTokenId : Bytes := []
  sellTokenQuantity : Int64 := 0
  buyTokenId : Bytes := []
  buyTokenQuantity : Int64 := 0
  sellTokenQuantityRemain : Int64 := 0
  sellTokenQuantityReturn : Int64 := 0
  state : Int32 := 0
  deriving DecidableEq

/-- The contract record; the ABI is only ever copied or cleared, so its encoding stands for it. -/
structure SmartContract where
  originAddress : Bytes := []
  contractAddress : Bytes := []
  abi : Option Bytes := none
  bytecode : Bytes := []
  callValue : Int64 := 0
  consumeUserResourcePercent : Int64 := 0
  name : Bytes := []
  originEnergyLimit : Int64 := 0
  codeHash : Bytes := []
  trxHash : Bytes := []
  version : Int32 := 0
  deriving DecidableEq

structure FrozenSupply where
  frozenAmount : Int64 := 0
  frozenDays : Int64 := 0
  deriving DecidableEq

/-- Both the contract that issues a token and the stored record of the token. -/
structure AssetIssueContract where
  id : Bytes := []
  ownerAddress : Bytes := []
  name : Bytes := []
  abbr : Bytes := []
  totalSupply : Int64 := 0
  frozenSupply : List FrozenSupply := []
  trxNum : Int32 := 0
  precision : Int32 := 0
  num : Int32 := 0
  startTime : Int64 := 0
  endTime : Int64 := 0
  order : Int64 := 0
  voteScore : Int32 := 0
  description : Bytes := []
  url : Bytes := []
  freeAssetNetLimit : Int64 := 0
  publicFreeAssetNetLimit : Int64 := 0
  publicFreeAssetNetUsage : Int64 := 0
  publicLatestFreeNetTime : Int64 := 0
  deriving DecidableEq

/-! ## Contract messages -/

structure AccountCreateContract where
  ownerAddress : Bytes := []
  accountAddress : Bytes := []
  type : Int32 := 0

structure AccountUpdateContract where
  accountName : Bytes := []
  ownerAddress : Bytes := []

structure SetAccountIdContract where
  accountId : Bytes := []
  ownerAddress : Bytes := []

structure AccountPermissionUpdateContract where
  ownerAddress : Bytes := []
  owner : Option Permission := none
  witness : Option Permission := none
  actives : List Permission := []

structure TransferContract where
  ownerAddress : Bytes := []
  toAddress : Bytes := []
  amount : Int64 := 0

structure TransferAssetContract where
  assetName : Bytes := []
  ownerAddress : Bytes := []
  toAddress : Bytes := []
  amount : Int64 := 0

structure ParticipateAssetIssueContract where
  ownerAddress : Bytes := []
  toAddress : Bytes := []
  assetName : Bytes := []
  amount : Int64 := 0

structure UpdateAssetContract where
  ownerAddress : Bytes := []
  description : Bytes := []
  url : Bytes := []
  newLimit : Int64 := 0
  newPublicLimit : Int64 := 0

/-- A message that carries its owner and nothing else the node reads. -/
structure OwnerOnly where
  ownerAddress : Bytes := []

structure FreezeBalanceContract where
  ownerAddress : Bytes := []
  frozenBalance : Int64 := 0
  frozenDuration : Int64 := 0
  resource : Int32 := 0
  receiverAddress : Bytes := []

structure UnfreezeBalanceContract where
  ownerAddress : Bytes := []
  resource : Int32 := 0
  receiverAddress : Bytes := []

structure FreezeBalanceV2Contract where
  ownerAddress : Bytes := []
  frozenBalance : Int64 := 0
  resource : Int32 := 0

structure UnfreezeBalanceV2Contract where
  ownerAddress : Bytes := []
  unfreezeBalance : Int64 := 0
  resource : Int32 := 0

structure DelegateResourceContract where
  ownerAddress : Bytes := []
  resource : Int32 := 0
  balance : Int64 := 0
  receiverAddress : Bytes := []
  lock : Bool := false
  lockPeriod : Int64 := 0

structure UnDelegateResourceContract where
  ownerAddress : Bytes := []
  resource : Int32 := 0
  balance : Int64 := 0
  receiverAddress : Bytes := []

structure WitnessCreateContract where
  ownerAddress : Bytes := []
  url : Bytes := []

structure WitnessUpdateContract where
  ownerAddress : Bytes := []
  updateUrl : Bytes := []

structure VoteWitnessContract where
  ownerAddress : Bytes := []
  votes : List Vote := []

structure UpdateBrokerageContract where
  ownerAddress : Bytes := []
  brokerage : Int32 := 0

structure ProposalCreateContract where
  ownerAddress : Bytes := []
  parameters : List (Int64 × Int64) := []

structure ProposalApproveContract where
  ownerAddress : Bytes := []
  proposalId : Int64 := 0
  isAddApproval : Bool := false

structure ProposalDeleteContract where
  ownerAddress : Bytes := []
  proposalId : Int64 := 0

structure ExchangeCreateContract where
  ownerAddress : Bytes := []
  firstTokenId : Bytes := []
  firstTokenBalance : Int64 := 0
  secondTokenId : Bytes := []
  secondTokenBalance : Int64 := 0

/-- `ExchangeInjectContract` and `ExchangeWithdrawContract`, which have the same fields. -/
structure ExchangeQuantContract where
  ownerAddress : Bytes := []
  exchangeId : Int64 := 0
  tokenId : Bytes := []
  quant : Int64 := 0

structure ExchangeTransactionContract where
  ownerAddress : Bytes := []
  exchangeId : Int64 := 0
  tokenId : Bytes := []
  quant : Int64 := 0
  expected : Int64 := 0

structure CreateSmartContract where
  ownerAddress : Bytes := []
  newContract : Option SmartContract := none

structure TriggerSmartContract where
  ownerAddress : Bytes := []
  contractAddress : Bytes := []
  callValue : Int64 := 0
  data : Bytes := []

structure ClearAbiContract where
  ownerAddress : Bytes := []
  contractAddress : Bytes := []

structure UpdateSettingContract where
  ownerAddress : Bytes := []
  contractAddress : Bytes := []
  consumeUserResourcePercent : Int64 := 0

structure UpdateEnergyLimitContract where
  ownerAddress : Bytes := []
  contractAddress : Bytes := []
  originEnergyLimit : Int64 := 0

structure MarketSellAssetContract where
  ownerAddress : Bytes := []
  sellTokenId : Bytes := []
  sellTokenQuantity : Int64 := 0
  buyTokenId : Bytes := []
  buyTokenQuantity : Int64 := 0

structure MarketCancelOrderContract where
  ownerAddress : Bytes := []
  orderId : Bytes := []

/-! ## Contract types -/

/-- `Transaction.Contract.ContractType`. -/
inductive ContractType where
  | accountCreate | transfer | transferAsset | voteAsset | voteWitness | witnessCreate | assetIssue
  | witnessUpdate | participateAssetIssue | accountUpdate | freezeBalance | unfreezeBalance
  | withdrawBalance | unfreezeAsset | updateAsset | proposalCreate | proposalApprove
  | proposalDelete | setAccountId | custom | createSmartContract | triggerSmartContract
  | getContract | updateSetting | exchangeCreate | exchangeInject | exchangeWithdraw
  | exchangeTransaction | updateEnergyLimit | accountPermissionUpdate | clearAbi
  | updateBrokerage | shieldedTransfer | marketSellAsset | marketCancelOrder | freezeBalanceV2
  | unfreezeBalanceV2 | withdrawExpireUnfreeze | delegateResource | unDelegateResource
  | cancelAllUnfreezeV2
  deriving DecidableEq

namespace ContractType

/-- The contract type a wire number names; an unknown number reads as the default variant. -/
def ofI32 (n : Int32) : ContractType :=
  match n.toInt with
  | 1 => transfer
  | 2 => transferAsset
  | 3 => voteAsset
  | 4 => voteWitness
  | 5 => witnessCreate
  | 6 => assetIssue
  | 8 => witnessUpdate
  | 9 => participateAssetIssue
  | 10 => accountUpdate
  | 11 => freezeBalance
  | 12 => unfreezeBalance
  | 13 => withdrawBalance
  | 14 => unfreezeAsset
  | 15 => updateAsset
  | 16 => proposalCreate
  | 17 => proposalApprove
  | 18 => proposalDelete
  | 19 => setAccountId
  | 20 => custom
  | 30 => createSmartContract
  | 31 => triggerSmartContract
  | 32 => getContract
  | 33 => updateSetting
  | 41 => exchangeCreate
  | 42 => exchangeInject
  | 43 => exchangeWithdraw
  | 44 => exchangeTransaction
  | 45 => updateEnergyLimit
  | 46 => accountPermissionUpdate
  | 48 => clearAbi
  | 49 => updateBrokerage
  | 51 => shieldedTransfer
  | 52 => marketSellAsset
  | 53 => marketCancelOrder
  | 54 => freezeBalanceV2
  | 55 => unfreezeBalanceV2
  | 56 => withdrawExpireUnfreeze
  | 57 => delegateResource
  | 58 => unDelegateResource
  | 59 => cancelAllUnfreezeV2
  | _ => accountCreate

end ContractType

/-- The message a contract type carries; the types no actuator handles carry nothing here. -/
def Message : ContractType → Type
  | .accountCreate => AccountCreateContract
  | .transfer => TransferContract
  | .transferAsset => TransferAssetContract
  | .voteWitness => VoteWitnessContract
  | .witnessCreate => WitnessCreateContract
  | .assetIssue => AssetIssueContract
  | .witnessUpdate => WitnessUpdateContract
  | .participateAssetIssue => ParticipateAssetIssueContract
  | .accountUpdate => AccountUpdateContract
  | .freezeBalance => FreezeBalanceContract
  | .unfreezeBalance => UnfreezeBalanceContract
  | .updateAsset => UpdateAssetContract
  | .proposalCreate => ProposalCreateContract
  | .proposalApprove => ProposalApproveContract
  | .proposalDelete => ProposalDeleteContract
  | .setAccountId => SetAccountIdContract
  | .createSmartContract => CreateSmartContract
  | .triggerSmartContract => TriggerSmartContract
  | .updateSetting => UpdateSettingContract
  | .exchangeCreate => ExchangeCreateContract
  | .exchangeInject | .exchangeWithdraw => ExchangeQuantContract
  | .exchangeTransaction => ExchangeTransactionContract
  | .updateEnergyLimit => UpdateEnergyLimitContract
  | .accountPermissionUpdate => AccountPermissionUpdateContract
  | .clearAbi => ClearAbiContract
  | .updateBrokerage => UpdateBrokerageContract
  | .marketSellAsset => MarketSellAssetContract
  | .marketCancelOrder => MarketCancelOrderContract
  | .freezeBalanceV2 => FreezeBalanceV2Contract
  | .unfreezeBalanceV2 => UnfreezeBalanceV2Contract
  | .withdrawBalance | .unfreezeAsset | .withdrawExpireUnfreeze | .cancelAllUnfreezeV2 => OwnerOnly
  | .delegateResource => DelegateResourceContract
  | .unDelegateResource => UnDelegateResourceContract
  | .voteAsset | .custom | .getContract | .shieldedTransfer => Unit

/-! ## Transactions and blocks -/

/-- `google.protobuf.Any`. -/
structure PackedAny where
  typeUrl : Bytes := []
  value : Bytes := []
  deriving DecidableEq

structure Contract where
  type : Int32 := 0
  parameter : Option PackedAny := none
  provider : Bytes := []
  contractName : Bytes := []
  permissionId : Int32 := 0
  deriving DecidableEq

structure TxRaw where
  refBlockBytes : Bytes := []
  refBlockNum : Int64 := 0
  refBlockHash : Bytes := []
  expiration : Int64 := 0
  data : Bytes := []
  contract : List Contract := []
  scripts : Bytes := []
  timestamp : Int64 := 0
  feeLimit : Int64 := 0
  deriving DecidableEq

structure Transaction where
  rawData : Option TxRaw := none
  signature : List Bytes := []
  deriving DecidableEq

structure HeaderRaw where
  timestamp : Int64 := 0
  txTrieRoot : Bytes := []
  parentHash : Bytes := []
  number : Int64 := 0
  witnessId : Int64 := 0
  witnessAddress : Bytes := []
  version : Int32 := 0
  accountStateRoot : Bytes := []
  deriving DecidableEq

structure BlockHeader where
  rawData : Option HeaderRaw := none
  witnessSignature : Bytes := []
  deriving DecidableEq

structure Block where
  transactions : List Transaction := []
  blockHeader : Option BlockHeader := none
  deriving DecidableEq

namespace Block

/-- `block.block_header?.raw_data?`. -/
def raw? (b : Block) : Option HeaderRaw := b.blockHeader.bind BlockHeader.rawData

/-- The header number, zero when there is no header. -/
def number (b : Block) : Int64 := (b.raw?.map HeaderRaw.number).getD 0

end Block
end TronRs

import TronRs.L1State.Chain

/-!
# World state

`crates/state/src/lib.rs`, `blocks.rs` and `features.rs`: one typed column per column
family. A column holds what its writers encode, so reading a value back never fails, and a
key the code builds injectively from typed parts is kept as those parts.

The accessors carry the source's names. `putBlock` is the only writer of the head
properties; its effect on them is `getProp_putBlock_head`.
-/
namespace TronRs

open TronRs.Core

/-- The dynamic properties the node reads. -/
inductive Property where
  | createNewAccountFeeInSystemContract | burnTrxAmount | latestBlockHeaderTimestamp
  | totalNetWeight | totalEnergyWeight | totalTronPowerWeight | tokenIdNum
  | latestSolidifiedBlock | allowPbft | latestBlockNumber | allowTvmConstantinople
  | allowMarketTransaction | allowCancelAllUnfreezeV2 | changeDelegation | allowNewResourceModel
  | createAccountFee | allowUpdateAccountName | assetIssueFee | oneDayNetLimit
  | accountUpgradeCost | latestProposalNum | latestExchangeNum | exchangeCreateFee
  | exchangeBalanceLimit | unfreezeDelayDays | minFrozenTime | maxFrozenTime | marketOrderNum
  | marketSellFee | marketCancelFee | marketQuantityLimit | energyFee
  deriving DecidableEq

/-- The 32-byte id of a market order. -/
abbrev OrderId := H256

/-- Mirrors state/lib.rs:100, one field per column family in use. -/
structure WorldState where
  account : Column Address Account := ∅
  contract : Column Address SmartContract := ∅
  contractCode : Column Address Bytes := ∅
  contractStorage : Column (Address × BitVec 256) (BitVec 256) := ∅
  witness : Column Bytes Witness := ∅
  asset : Column Int64 AssetIssueContract := ∅
  proposal : Column Int64 Proposal := ∅
  exchange : Column Int64 Exchange := ∅
  block : Column Int64 Block := ∅
  transaction : Column Bytes Transaction := ∅
  blockIndex : Column Bytes Int64 := ∅
  brokerage : Column Address Int64 := ∅
  delegation : Column (Address × Address × Bool) DelegatedResource := ∅
  marketOrder : Column OrderId MarketOrder := ∅
  marketPairPrice : Column (Bytes × Int64 × Int64) (List OrderId) := ∅
  marketPair : Column Bytes (List (Int64 × Int64)) := ∅
  marketAccountOrder : Column Bytes (List OrderId) := ∅
  marketPairs : Option Bytes := none
  properties : Column Property Int64 := ∅
  activeWitnesses : List Address := []

namespace WorldState

/-! ## Accounts -/

def getAccount (s : WorldState) (addr : Address) : Option Account := s.account.get addr

def putAccount (s : WorldState) (addr : Address) (a : Account) : WorldState :=
  { s with account := s.account.put addr a }

def accountExists (s : WorldState) (addr : Address) : Bool := (s.getAccount addr).isSome

/-! ## Dynamic properties -/

/-- Mirrors state/lib.rs:252: an unset property reads as zero. -/
def getProp (s : WorldState) (key : Property) : Int64 := (s.properties.get key).getD 0

def putProp (s : WorldState) (key : Property) (value : Int64) : WorldState :=
  { s with properties := s.properties.put key value }

/-- Mirrors state/lib.rs:269. -/
def addProp (s : WorldState) (key : Property) (delta : Int64) : WorldState :=
  s.putProp key ((s.getProp key).saturatingAdd delta)

/-- Mirrors state/lib.rs:276. -/
def burnTrx (s : WorldState) (amount : Int64) : WorldState := s.addProp .burnTrxAmount amount

/-- All the TRX that has been burned. -/
def burned (s : WorldState) : Int := (s.getProp .burnTrxAmount).toInt

/-- Mirrors state/features.rs:36. -/
def featureEnabled (s : WorldState) (key : Property) : Bool := s.getProp key = 1

/-- The account `create_account` stores: zero balance, created now. -/
def freshAccount (s : WorldState) (addr : Address) : Account :=
  { address := addr.asBytes
    type := accountTypeNormal
    createTime := s.getProp .latestBlockHeaderTimestamp }

/-- Mirrors state/lib.rs:134. -/
def createAccount (s : WorldState) (addr : Address) : WorldState :=
  s.putAccount addr (s.freshAccount addr)

/-! ## Contracts, assets, witnesses -/

def getCode (s : WorldState) (addr : Address) : Bytes := (s.contractCode.get addr).getD []

def putCode (s : WorldState) (addr : Address) (code : Bytes) : WorldState :=
  { s with contractCode := s.contractCode.put addr code }

def getContract (s : WorldState) (addr : Address) : Option SmartContract := s.contract.get addr

def putContract (s : WorldState) (addr : Address) (c : SmartContract) : WorldState :=
  { s with contract := s.contract.put addr c }

def getAssetIssue (s : WorldState) (id : Int64) : Option AssetIssueContract := s.asset.get id

def putAssetIssue (s : WorldState) (id : Int64) (asset : AssetIssueContract) : WorldState :=
  { s with asset := s.asset.put id asset }

def tokenIdBase : Int64 := 1000000

/-- Mirrors state/lib.rs:231. -/
def getTokenIdNum (s : WorldState) : Int64 :=
  if s.getProp .tokenIdNum = 0 then tokenIdBase else s.getProp .tokenIdNum

def witnessExists (s : WorldState) (addr : Address) : Bool := (s.witness.get addr.asBytes).isSome

def getWitness (s : WorldState) (addr : Address) : Option Witness := s.witness.get addr.asBytes

/-- A witness is stored under the address it carries. -/
def putWitness (s : WorldState) (w : Witness) : WorldState :=
  { s with witness := s.witness.put w.address w }

def putBrokerage (s : WorldState) (addr : Address) (pct : Int64) : WorldState :=
  { s with brokerage := s.brokerage.put addr pct }

/-- Mirrors state/lib.rs:288. -/
def getActiveWitnesses (s : WorldState) : List Bytes := s.activeWitnesses.map Address.asBytes

def getSolidifiedBlock (s : WorldState) : Int64 := s.getProp .latestSolidifiedBlock

def putSolidifiedBlock (s : WorldState) (number : Int64) : WorldState :=
  s.putProp .latestSolidifiedBlock number

/-! ## Blocks and transactions -/

variable (pf : Platform)

/-- The head properties after a block, when it is at least as new as the head. -/
def advanceHead (s : WorldState) (b : Block) : WorldState :=
  if s.getProp .latestBlockNumber ≤ b.number then
    let s := s.putProp .latestBlockNumber b.number
    match b.raw? with
    | some raw => s.putProp .latestBlockHeaderTimestamp raw.timestamp
    | none => s
  else s

/-- Mirrors state/blocks.rs:20. -/
def putBlock (s : WorldState) (b : Block) : WorldState :=
  let s := { s with block := s.block.put b.number b }
  let s := match blockIdOf pf b with
    | some id => { s with blockIndex := s.blockIndex.put id.bytes b.number }
    | none => s
  s.advanceHead b

def getBlockByNum (s : WorldState) (number : Int64) : Option Block := s.block.get number

def putTransaction (s : WorldState) (id : Bytes) (tx : Transaction) : WorldState :=
  { s with transaction := s.transaction.put id tx }

def getTransaction (s : WorldState) (id : Bytes) : Option Transaction := s.transaction.get id

/-- Mirrors state/blocks.rs:62. -/
def indexBlockTransactions (s : WorldState) (b : Block) : WorldState :=
  b.transactions.foldl (fun s tx => s.putTransaction (txId pf tx).bytes tx) s

end WorldState

/-! ## Reading back a write -/

namespace WorldState
variable (s : WorldState) {k : Property} {a : Address}

@[simp] theorem getAccount_putAccount_self (a : Address) (x : Account) :
    (s.putAccount a x).getAccount a = some x := get_put_self ..

theorem getAccount_putAccount_of_ne {b : Address} (x : Account) (h : b ≠ a) :
    (s.putAccount a x).getAccount b = s.getAccount b := get_put_of_ne h

@[simp] theorem getProp_putProp_self (k : Property) (v : Int64) : (s.putProp k v).getProp k = v := by
  simp [getProp, putProp]

theorem getProp_putProp_of_ne {k' : Property} (v : Int64) (h : k' ≠ k) : (s.putProp k v).getProp k' = s.getProp k' := by
  simp only [getProp, putProp, get_put_of_ne h]

@[simp] theorem getAccount_burnTrx (x : Int64) (a : Address) : (s.burnTrx x).getAccount a = s.getAccount a := rfl

theorem accountExists_eq_true : s.accountExists a = true ↔ ∃ x, s.getAccount a = some x := by
  rw [accountExists, Option.isSome_iff_exists]

theorem accountExists_eq_false : s.accountExists a = false ↔ s.getAccount a = none := by
  rw [accountExists, Option.isSome_eq_false_iff, Option.isNone_iff_eq_none]

/-! ## What storing a block changes -/

variable (pf : Platform) (b : Block)

theorem block_advanceHead : (s.advanceHead b).block = s.block := by
  unfold advanceHead
  split
  · cases b.raw? <;> rfl
  · rfl

@[simp] theorem block_putBlock : (s.putBlock pf b).block = s.block.put b.number b := by
  unfold putBlock
  rw [block_advanceHead]
  cases blockIdOf pf b <;> rfl

theorem getBlockByNum_putBlock_self : (s.putBlock pf b).getBlockByNum b.number = some b := by
  rw [getBlockByNum, block_putBlock, get_put_self]

theorem getBlockByNum_putBlock_of_ne {b : Block} {n : Int64} (h : n ≠ b.number) :
    (s.putBlock pf b).getBlockByNum n = s.getBlockByNum n := by
  rw [getBlockByNum, block_putBlock, get_put_of_ne h, getBlockByNum]

theorem getBlockByNum_putBlock (n : Int64) :
    (s.putBlock pf b).getBlockByNum n = if n = b.number then some b else s.getBlockByNum n := by
  rw [getBlockByNum, block_putBlock, get_put]
  rfl

theorem getProp_advanceHead_of_ne (h1 : k ≠ .latestBlockNumber)
    (h2 : k ≠ .latestBlockHeaderTimestamp) : (s.advanceHead b).getProp k = s.getProp k := by
  unfold advanceHead
  split
  · cases b.raw? with
    | none => exact getProp_putProp_of_ne _ _ h1
    | some => exact (getProp_putProp_of_ne _ _ h2).trans (getProp_putProp_of_ne _ _ h1)
  · rfl

/-- Only the head number and timestamp change among the properties. -/
theorem getProp_putBlock_of_ne (h1 : k ≠ .latestBlockNumber)
    (h2 : k ≠ .latestBlockHeaderTimestamp) : (s.putBlock pf b).getProp k = s.getProp k := by
  unfold putBlock
  rw [getProp_advanceHead_of_ne _ _ h1 h2]
  cases blockIdOf pf b <;> rfl

theorem getProp_advanceHead_head : (s.advanceHead b).getProp .latestBlockNumber =
      if s.getProp .latestBlockNumber ≤ b.number then b.number else s.getProp .latestBlockNumber := by
  unfold advanceHead
  split
  · cases b.raw? with
    | none => exact getProp_putProp_self ..
    | some =>
      exact (getProp_putProp_of_ne _ _ (by decide)).trans (getProp_putProp_self ..)
  · rfl

/-- The head moves to the block's number unless the block is older. -/
theorem getProp_putBlock_head : (s.putBlock pf b).getProp .latestBlockNumber =
      if s.getProp .latestBlockNumber ≤ b.number then b.number else s.getProp .latestBlockNumber := by
  unfold putBlock
  rw [getProp_advanceHead_head]
  cases blockIdOf pf b <;> rfl

theorem transaction_putBlock : (s.putBlock pf b).transaction = s.transaction := by
  unfold putBlock advanceHead
  cases blockIdOf pf b <;> cases b.raw? <;> dsimp only <;> split <;> rfl

theorem activeWitnesses_putBlock : (s.putBlock pf b).activeWitnesses = s.activeWitnesses := by
  unfold putBlock advanceHead
  cases blockIdOf pf b <;> cases b.raw? <;> dsimp only <;> split <;> rfl

end WorldState

export WorldState (getAccount_putAccount_self getAccount_putAccount_of_ne getProp_putProp_self getProp_putProp_of_ne
  getProp_putBlock_head)

end TronRs

import TronRs.L3Actuators.Transfer
import TronRs.L3Actuators.Delegate
import TronRs.L3Actuators.Governance
import TronRs.L3Actuators.ContractSettings
import TronRs.L3Actuators.Exchange
import TronRs.L3Actuators.SmartContract
import TronRs.L3Actuators.Market.Fill
import TronRs.L3Actuators.Market.Cancel

/-!
# Executing transactions and blocks

`crates/actuators/src/executor.rs`. `route` is the table of `apply_transaction`: every
contract type with an actuator, and the four without one. `applyTransaction` unpacks the
first contract of a transaction, validates it and executes it; `processBlock` does so for
every transaction of a block and then stores and indexes the block.
-/
namespace TronRs

open TronRs.Core

variable (pf : Platform)

/-- The actuator of a contract type. Mirrors the match of actuators/src/executor.rs:42. -/
def route : (ty : ContractType) → Option (Actuator (Message ty))
  | .transfer => some transferActuator
  | .transferAsset => some transferAssetActuator
  | .freezeBalanceV2 => some freezeBalanceV2Actuator
  | .unfreezeBalanceV2 => some unfreezeBalanceV2Actuator
  | .voteWitness => some voteWitnessActuator
  | .withdrawBalance => some withdrawBalanceActuator
  | .updateBrokerage => some updateBrokerageActuator
  | .withdrawExpireUnfreeze => some withdrawExpireUnfreezeActuator
  | .cancelAllUnfreezeV2 => some cancelAllUnfreezeV2Actuator
  | .proposalCreate => some proposalCreateActuator
  | .proposalApprove => some proposalApproveActuator
  | .proposalDelete => some proposalDeleteActuator
  | .accountCreate => some createAccountActuator
  | .accountUpdate => some updateAccountActuator
  | .setAccountId => some setAccountIdActuator
  | .accountPermissionUpdate => some accountPermissionUpdateActuator
  | .witnessCreate => some witnessCreateActuator
  | .witnessUpdate => some witnessUpdateActuator
  | .exchangeCreate => some exchangeCreateActuator
  | .exchangeInject => some exchangeInjectActuator
  | .exchangeWithdraw => some (exchangeWithdrawActuator pf.floats)
  | .exchangeTransaction => some (exchangeTransactionActuator pf.floats)
  | .delegateResource => some delegateResourceActuator
  | .unDelegateResource => some unDelegateResourceActuator
  | .triggerSmartContract => some (triggerSmartContractActuator pf.crypto triggerEnergyLimit)
  | .createSmartContract => some (createSmartContractActuator pf.crypto)
  | .clearAbi => some clearAbiActuator
  | .updateSetting => some updateSettingActuator
  | .updateEnergyLimit => some updateEnergyLimitActuator
  | .updateAsset => some updateAssetActuator
  | .unfreezeAsset => some unfreezeAssetActuator
  | .assetIssue => some assetIssueActuator
  | .participateAssetIssue => some participateAssetIssueActuator
  | .freezeBalance => some freezeBalanceActuator
  | .unfreezeBalance => some unfreezeBalanceActuator
  | .marketSellAsset => some marketSellAssetActuator
  | .marketCancelOrder => some marketCancelOrderActuator
  | .voteAsset | .custom | .getContract | .shieldedTransfer => none

/-- The name of a contract type without an actuator. -/
def unroutedName : ContractType → String
  | .voteAsset => "VoteAssetContract"
  | .custom => "CustomContract"
  | .getContract => "GetContract"
  | .shieldedTransfer => "ShieldedTransferContract"
  | _ => ""

/-- Mirrors actuators/executor.rs:18. -/
def unpack (contract : Contract) (ty : ContractType) : Check (Message ty) := do
  let any ← orThrow contract.parameter (invalid "contract parameter missing")
  match pf.codec.decode ty any.value with
  | .ok c => pure c
  | .error e => throw (invalid s!"cannot unpack contract: {e}")

/-- One arm of the match: unpack, validate, execute. -/
def applyContract (contract : Contract) (ty : ContractType) : Act ExecutionResult :=
  match route pf ty with
  | some actuator => do
    let c ← lift (unpack pf contract ty)
    actuator.run c
  | none =>
    let name := unroutedName ty
    throw (invalid s!"unsupported contract type: {name}")

/-- Mirrors actuators/executor.rs:30. -/
def applyTransaction (tx : Transaction) : Act ExecutionResult := do
  let raw ← orThrow tx.rawData (invalid "transaction has no raw_data")
  let contract ← orThrow raw.contract.head? (invalid "transaction has no contract")
  applyContract pf contract (.ofI32 contract.type)

/-- Mirrors actuators/executor.rs:276. -/
def applyBlock (b : Block) : Act (List ExecutionResult) := b.transactions.mapM (applyTransaction pf)

/-- Mirrors actuators/executor.rs:291. -/
def processBlock (b : Block) : Act (List ExecutionResult) := do
  let results ← applyBlock pf b
  modify (·.putBlock pf b)
  modify (·.indexBlockTransactions pf b)
  pure results

variable {pf} in
/-- What a transaction that succeeds has run. -/
lemma applyTransaction_ok {tx : Transaction} {s t : WorldState} {res : ExecutionResult}
    (h : applyTransaction pf tx s = .ok res t) : ∃ raw contract a c, tx.rawData = some raw ∧
      raw.contract.head? = some contract ∧ route pf (.ofI32 contract.type) = some a ∧
      unpack pf contract (.ofI32 contract.type) = .ok c ∧ a.run c s = .ok res t := by
  unfold applyTransaction at h; rw [← outcome_eq_ok, outcome_orThrow_bind, bind_eq_ok] at h
  obtain ⟨raw, hraw, h⟩ := h; rw [outcome_orThrow_bind, bind_eq_ok] at h
  obtain ⟨contract, hcontract, h⟩ := h; rw [orThrow_eq_ok] at hraw hcontract; unfold applyContract at h
  cases ha : route pf (.ofI32 contract.type) with
  | none => rw [ha] at h; cases h
  | some a =>
    rw [ha] at h; dsimp only at h; rw [outcome_lift_bind, bind_eq_ok] at h
    obtain ⟨c, hc, h⟩ := h; exact ⟨raw, contract, a, c, hraw, hcontract, ha, hc, outcome_eq_ok.mp h⟩

end TronRs

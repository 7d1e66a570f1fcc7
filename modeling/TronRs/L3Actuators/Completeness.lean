import TronRs.L3Actuators.Executor
import TronRs.L3Actuators.Market.Conservation

/-!
# Which validated contracts execute

`validate` and `execute` of an actuator are written separately, and some of what `execute`
can trip over is not looked at by `validate`: sums that only the execution forms, records it
finds missing, the limit on the fills of a market order. `ExecutesWhen` lists for every
contract type what has to hold besides.

* `executes_contract_iff`: a validated contract executes, with the fee `validate` announced,
  exactly when the condition of its type holds; fourteen of the types have none.
* `validated_executes`: the direction a caller relies on.
* `crowded_price_fails`: a market order that is valid and meets one resting order too many.
-/
namespace TronRs

open TronRs.Core

variable (pf : Platform)

/-- What a validated contract needs to be executed, for the types that need anything. -/
def ExecutesWhen (s : WorldState) : (ty : ContractType) → Message ty → Prop
  | .accountCreate, c => CreateAccountActuator.FeeFits c s
  | .transfer, c => TransferActuator.Fits c s
  | .transferAsset, c => TransferAssetActuator.FeeCovered c s
  | .assetIssue, c => AssetIssueActuator.ExpiryFits c
  | .participateAssetIssue, c => ParticipateAssetIssueActuator.CreditsFit c s
  | .unfreezeAsset, c => UnfreezeAssetActuator.ReleaseFits c s
  | .freezeBalance, c => FreezeBalanceActuator.StakeFits c s
  | .unfreezeBalance, c => UnfreezeBalanceActuator.PayoutFits c s
  | .freezeBalanceV2, c => FreezeBalanceV2Actuator.StakeFits c s
  | .unfreezeBalanceV2, _ => UnfreezeBalanceV2Actuator.DelayFits s
  | .withdrawExpireUnfreeze, c => WithdrawExpireUnfreezeActuator.PayoutFits c s
  | .cancelAllUnfreezeV2, c => CancelAllUnfreezeV2Actuator.PayoutFits c s
  | .unDelegateResource, c => UnDelegateResourceActuator.LockDated c s
  | .withdrawBalance, c => WithdrawBalanceActuator.AllowanceFits c s
  | .proposalCreate, _ => ProposalCreateActuator.ExpiryFits s
  | .exchangeCreate, c => ExchangeCreateActuator.FeeAdds c s
  | .exchangeInject, c => ExchangeInjectActuator.BothCovered c s
  | .exchangeWithdraw, c => ExchangeWithdrawActuator.PayoutFits c s
  | .exchangeTransaction, c => ExchangeTransactionActuator.PayoutFits pf.floats c s
  | .marketSellAsset, c => MarketSellAssetActuator.Completes c s
  | .marketCancelOrder, c => MarketCancelOrderActuator.ReturnFits c s
  | _, _ => True

variable {pf} {s : WorldState} {ty : ContractType}

/-- **One contract type at a time.** Contract calls and deployments apart, every actuator of the table, on a contract
it has validated. -/
theorem executes_contract_iff {a : Actuator (Message ty)} (hr : route pf ty = some a)
    (hcall : ty ≠ .triggerSmartContract) (hdeploy : ty ≠ .createSmartContract) {c : Message ty} {fee : Int64}
    (hv : a.validate c s = .ok fee) : (∃ t, a.execute c s = .ok ⟨fee⟩ t) ↔ ExecutesWhen pf s ty c := by
  cases ty <;> cases hr
  case triggerSmartContract => exact absurd rfl hcall
  case createSmartContract => exact absurd rfl hdeploy
  case accountCreate => exact CreateAccountActuator.executes_iff hv
  case transfer => exact TransferActuator.executes_iff hv
  case transferAsset => exact TransferAssetActuator.executes_iff hv
  case assetIssue => exact AssetIssueActuator.executes_iff hv
  case participateAssetIssue => exact ParticipateAssetIssueActuator.executes_iff hv
  case unfreezeAsset => exact UnfreezeAssetActuator.executes_iff hv
  case freezeBalance => exact FreezeBalanceActuator.executes_iff hv
  case unfreezeBalance => exact UnfreezeBalanceActuator.executes_iff hv
  case freezeBalanceV2 => exact FreezeBalanceV2Actuator.executes_iff hv
  case unfreezeBalanceV2 => exact UnfreezeBalanceV2Actuator.executes_iff hv
  case withdrawExpireUnfreeze => exact WithdrawExpireUnfreezeActuator.executes_iff hv
  case cancelAllUnfreezeV2 => exact CancelAllUnfreezeV2Actuator.executes_iff hv
  case unDelegateResource => exact UnDelegateResourceActuator.executes_iff hv
  case withdrawBalance => exact WithdrawBalanceActuator.executes_iff hv
  case proposalCreate => exact ProposalCreateActuator.executes_iff hv
  case exchangeCreate => exact ExchangeCreateActuator.executes_iff hv
  case exchangeInject => exact ExchangeInjectActuator.executes_iff hv
  case exchangeWithdraw => exact ExchangeWithdrawActuator.executes_iff hv
  case exchangeTransaction => exact ExchangeTransactionActuator.executes_iff hv
  case marketSellAsset => exact MarketSellAssetActuator.executes_iff hv
  case marketCancelOrder => exact MarketCancelOrderActuator.executes_iff hv
  case accountUpdate => exact iff_of_true (UpdateAccountActuator.executes hv) trivial
  case setAccountId => exact iff_of_true (SetAccountIdActuator.executes hv) trivial
  case accountPermissionUpdate => exact iff_of_true (AccountPermissionUpdateActuator.executes hv) trivial
  case updateAsset => exact iff_of_true (UpdateAssetActuator.executes hv) trivial
  case delegateResource => exact iff_of_true (DelegateResourceActuator.executes hv) trivial
  case witnessCreate => exact iff_of_true (WitnessCreateActuator.executes hv) trivial
  case witnessUpdate => exact iff_of_true (WitnessUpdateActuator.executes hv) trivial
  case voteWitness => exact iff_of_true (VoteWitnessActuator.executes hv) trivial
  case updateBrokerage => exact iff_of_true (UpdateBrokerageActuator.executes hv) trivial
  case proposalApprove => exact iff_of_true (ProposalApproveActuator.executes hv) trivial
  case proposalDelete => exact iff_of_true (ProposalDeleteActuator.executes hv) trivial
  case updateSetting => exact iff_of_true (UpdateSettingActuator.executes hv) trivial
  case updateEnergyLimit => exact iff_of_true (UpdateEnergyLimitActuator.executes hv) trivial
  case clearAbi => exact iff_of_true (ClearAbiActuator.executes hv) trivial

/-- **Validation is complete** up to what only the execution looks at: a contract that has been validated is executed,
at the fee that was announced. -/
theorem validated_executes (pf : Platform) (s : WorldState) (ty : ContractType) {a : Actuator (Message ty)}
    (hr : route pf ty = some a) (hcall : ty ≠ .triggerSmartContract) (hdeploy : ty ≠ .createSmartContract)
    (c : Message ty) {fee : Int64} (hv : a.validate c s = .ok fee) (hw : ExecutesWhen pf s ty c) :
    ∃ t, a.execute c s = .ok ⟨fee⟩ t :=
  (executes_contract_iff hr hcall hdeploy hv).mpr hw

/-- Five TRX between two accounts whose balances are far from the limit. -/
theorem validated_executes_transfer : ∃ c : TransferContract, ∃ t,
    TransferActuator.validate c traders = .ok 0 ∧ transferActuator.execute c traders = .ok ⟨0⟩ t := by
  have hv : TransferActuator.validate ⟨(Address.ofNat 0xaa).asBytes, (Address.ofNat 0xbb).asBytes, 5⟩ traders =
      .ok 0 := by decide +kernel
  obtain ⟨x, hx⟩ := Option.isSome_iff_exists.mp
    (show (traders.getAccount (Address.ofNat 0xaa)).isSome = true by decide +kernel)
  obtain ⟨y, hy, hb⟩ := Option.map_eq_some_iff.mp
    (show (traders.getAccount (Address.ofNat 0xbb)).map (·.balance) = some 10000 by decide +kernel)
  have hw : TransferActuator.Fits ⟨(Address.ofNat 0xaa).asBytes, (Address.ofNat 0xbb).asBytes, 5⟩ traders := by
    rw [TransferActuator.fits_iff (Address.ofBytes_asBytes _) (Address.ofBytes_asBytes _) hx, hy]
    simp only [hb]; decide
  obtain ⟨t, ht⟩ := validated_executes Platform.blank traders .transfer rfl (by decide) (by decide) _ hv hw
  exact ⟨_, t, hv, ht⟩

/-! ## A valid order that is not executed -/

/-- Twenty-one TRX for twenty-one of token 1. -/
def largeOffer : MarketSellAssetContract := ⟨(Address.ofNat 0xbb).asBytes, trxSymbol, 21, token1, 21⟩

/-- Twenty-one orders of one token each rest at one price. An offer that meets all of them is
valid, and is given up at the twenty-first. -/
theorem crowded_price_fails : ∃ ops s, market.Run traders ops s ∧ ∃ a, route Platform.blank .marketSellAsset = some a ∧
    a.validate largeOffer s = .ok 0 ∧ ∀ res t, a.execute largeOffer s ≠ .ok res t := by
  have h : (Lts.exec (fun s op => MarketOp.next s op) traders
      (List.replicate 21 (sellToken1 (Address.ofNat 0xaa) 1 1))).map (fun s =>
        (MarketSellAssetActuator.validate largeOffer s, returns (marketSellAssetActuator.execute largeOffer) s)) =
      some (.ok 0, false) := by decide +kernel
  obtain ⟨s, hrun, hs⟩ := Lts.Run.exists_of_exec (M := market) (fun s op t => MarketOp.step_of_next) h
  obtain ⟨hv, hx⟩ := Prod.mk.inj hs; refine ⟨_, s, hrun, _, rfl, hv, fun res t ht => ?_⟩
  rw [returns, ht] at hx; cases hx

end TronRs

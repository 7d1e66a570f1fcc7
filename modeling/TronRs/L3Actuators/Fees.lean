import TronRs.L3Actuators.Atomicity

/-!
# Fees

What a transaction reports as its fee is burned: the counter of burned TRX goes up by it. Most
contract types report nothing and leave the counter alone, the others pay from the owner's
balance. The energy of the virtual machine is the exception: an owner without an account is
not charged, but the fee is reported all the same.

* `burns_execute_iff`: each contract type.
* `fees_burned_iff`: a transaction burns what it reports, exactly when an owner that owes
  energy has an account.
* `unknown_owner_reports_fee`: a call whose owner has no account.
-/
namespace TronRs

open TronRs.Core
open WorldState (getProp burned addProp)

variable {s t : WorldState} {fee : Int64} {ty : ContractType} {a : Actuator (Message ty)} {owner : Address} {u : Unit}
variable {k : Property}

/-- The properties that set a fee. -/
def feeProperties : List Property :=
  [.createNewAccountFeeInSystemContract, .createAccountFee, .accountUpgradeCost, .assetIssueFee, .exchangeCreateFee,
    .marketSellFee, .marketCancelFee, .energyFee]

/-- A program that burns what it reports, when that fits. -/
def Burns (m : Act ExecutionResult) (s : WorldState) : Prop :=
  wp m s (fun res t => s.burned + res.fee.toInt < 2 ^ 63 → t.burned = s.burned + res.fee.toInt) fun _ _ => True

/-! ## Contracts without a fee -/

lemma quiet_getProp {ks : List Property} (hk : k ∉ ks) : Quiet (fun s => s.getProp k) ks where
  columns _ _ ht := (congrArg (fun s => getProp s k) ht).trans rfl
  counter s _ hj v := s.getProp_putProp_of_ne v fun heq => hk (heq ▸ hj)

lemma burns_of_frame {m : Act ExecutionResult} (hf : Frame (fun s => s.getProp .burnTrxAmount) m)
    (h : Gives (fun res => res.fee = 0) m) (s : WorldState) : Burns m s := by
  refine wp_iff.mpr ⟨fun res t hm _ => ?_, fun _ _ _ => trivial⟩
  have hfee := h.ok hm
  have hburn := hf.ok hm
  dsimp only at hfee hburn
  rw [burned, burned, hburn, hfee, toInt_zero, Int.add_zero]

/-- The system contracts that charge nothing. -/
def ContractType.isFree (ty : ContractType) : Bool :=
  !ty.writesContracts && !ty.counters.contains .burnTrxAmount

lemma fee_of_isFree {pf : Platform} (h : route pf ty = some a)
    (hty : ty.isFree = true) (c : Message ty) : Gives (fun res => res.fee = 0) (a.execute c) := by
  -- every one of them ends in `Ok(ExecutionResult { fee: 0 })`
  cases ty <;> cases h <;> cases hty
  all_goals
    repeat refine .bind fun _ => ?_
    exact .pure rfl

lemma burns_of_isFree {pf : Platform} (h : route pf ty = some a)
    (hty : ty.isFree = true) (c : Message ty) (s : WorldState) : Burns (a.execute c) s := by
  have hsplit := hty
  simp only [ContractType.isFree, Bool.and_eq_true, Bool.not_eq_true'] at hsplit
  have hburn : Property.burnTrxAmount ∉ ty.counters := fun hmem => by
    rw [List.contains_iff_mem.mpr hmem] at hsplit; cases hsplit.2
  exact burns_of_frame ((quiet_getProp hburn).execute h hsplit.1 c) (fee_of_isFree h hty c) s

lemma burns_editContract (b : Bytes) (missing : String) (f : SmartContract → SmartContract) (s : WorldState) :
    Burns (editContract b missing f) s := by
  refine burns_of_frame ?_ ?_ s
  · exact .lift_bind fun _ => .get_bind fun _ => .orThrow_bind fun _ => .modify_bind (fun _ => rfl) fun _ => .pure _
  · exact .bind fun _ => .bind fun _ => .bind fun _ => .bind fun _ => .pure rfl

/-! ## Contracts with a fee -/

lemma burned_putProp (s : WorldState) (v : Int64) (hk : k ≠ .burnTrxAmount) : (s.putProp k v).burned = s.burned :=
  congrArg Int64.toInt (s.getProp_putProp_of_ne v hk.symm)

lemma burned_withRecipient (s : WorldState) (dst : Address) : (s.withRecipient dst).burned = s.burned := by
  unfold WorldState.withRecipient
  split <;> rfl

/-- A positive fee, burned whatever the accounts have become. -/
lemma burned_burnTrx (hst : t.burned = s.burned) (h0 : 0 ≤ fee.toInt)
    (h : s.burned + fee.toInt < 2 ^ 63) : (t.burnTrx fee).burned = s.burned + fee.toInt := by
  have hlow := (t.getProp .burnTrxAmount).le_toInt
  rw [← hst] at h ⊢
  unfold burned at *
  rw [WorldState.burnTrx, addProp, getProp_putProp_self]
  exact Int64.toInt_saturatingAdd_of_fits ⟨by omega, h⟩

/-- The fee of most actuators, which is burned if there is any. -/
lemma burned_burnFee_of (hst : t.burned = s.burned) (h0 : 0 ≤ fee.toInt)
    (h : s.burned + fee.toInt < 2 ^ 63) : (burnFee t fee).burned = s.burned + fee.toInt := by
  rw [← hst] at h ⊢
  exact burned_burnFee h0 h

section
variable {s : WorldState} (hfees : ∀ k ∈ feeProperties, 0 ≤ (s.getProp k).toInt)
include hfees

lemma recipientFee_nonneg (dst : Address) :
    0 ≤ (if s.accountExists dst then 0 else 0 + s.getProp .createNewAccountFeeInSystemContract : Int64).toInt := by
  split
  · exact le_rfl
  · rw [Int64.zero_add]; exact hfees _ (by decide)

lemma TransferActuator.burns (c : TransferContract) : Burns (execute c) s := by
  unfold Burns
  simp only [execute, ok_rules, wp_createRecipient, wp_burn_then, transferFee]
  intro owner _ dst _ sum _ x _ left _ y _ credited _ hfit
  exact burned_burnFee_of (burned_withRecipient s dst) (recipientFee_nonneg hfees dst) hfit

lemma TransferAssetActuator.burns (c : TransferAssetContract) : Burns (execute c) s := by
  unfold Burns
  simp only [execute, ok_rules, wp_createRecipient, wp_burn_then, transferAssetFee]
  intro owner _ dst _ x _ left _ balance _ y _ credited _ hfit
  exact burned_burnFee_of (burned_withRecipient s dst) (recipientFee_nonneg hfees dst) hfit

lemma CreateAccountActuator.burns (c : AccountCreateContract) : Burns (execute c) s := by
  unfold Burns
  simp only [execute, ok_rules, wp_burn_then]
  intro owner _ target _ x _ balance _ hfit
  exact burned_burnFee_of rfl (hfees _ (by decide)) hfit

omit hfees

lemma WitnessCreateActuator.burns (c : WitnessCreateContract) : Burns (execute c) s := by
  unfold Burns
  simp only [execute, ok_rules]
  intro owner _ x _ balance _ hfit
  have hpos : 0 < (accountUpgradeCost s).toInt := positiveOr_pos (by decide)
  exact burned_burnTrx rfl hpos.le hfit

lemma ExchangeCreateActuator.burns (c : ExchangeCreateContract) : Burns (execute c) s := by
  unfold Burns
  simp only [execute, ok_rules, wp_burn_then]
  intro owner _ x _ balance _ first _ second _ hfit
  have hpos : 0 < (exchangeCreateFee s).toInt := positiveOr_pos (by decide)
  rw [burned_putProp _ _ (by decide)]
  exact burned_burnFee_of rfl hpos.le hfit

lemma AssetIssueActuator.burns (c : AssetIssueContract) : Burns (execute c) s := by
  unfold Burns
  simp only [execute, allocateTokenId, ok_rules]
  intro owner _ x _ balance _ frozen _ hfit
  have hpos : 0 < (fee s).toInt := positiveOr_pos (by decide)
  exact burned_burnTrx (burned_putProp s _ (by decide)) hpos.le hfit

lemma MarketSellAssetActuator.burns (c : MarketSellAssetContract) : Burns (execute c) s := by
  have hq : Quiet burned [.marketOrderNum] :=
    ⟨fun _ _ ht => (congrArg burned ht).trans rfl, fun u k hk v => burned_putProp u v (by simp_all)⟩
  unfold Burns
  simp only [execute, allocateOrderId, ok_rules]
  intro owner _ x _ balance _ account _
  -- matching does not burn anything
  refine wp_mono (hq.matchOrder _ _) (fun t u hu => ?_) fun _ _ _ => trivial
  have hu : u.burned = s.burned := hu.trans ((hq.addAccountOrder _ _ _).trans (burned_putProp s _ (by decide)))
  by_cases hrest : t.order.sellTokenQuantityRemain = 0
  · simp only [finish, hrest, ne_eq, not_true_eq_false, ↓reduceIte, putOrder, ok_rules, wp_burn_then]
    intro oid _ hfit; exact burned_burnFee_of hu (Int64.toInt_max_zero _) hfit
  · simp only [finish, hrest, ne_eq, not_false_eq_true, ↓reduceIte, putOrder, ok_rules, wp_burn_then]
    intro oid _ hfit
    exact burned_burnFee_of ((hq.addOrderToBook u _ _ _).trans hu) (Int64.toInt_max_zero _) hfit

lemma MarketCancelOrderActuator.burns (c : MarketCancelOrderContract) : Burns (execute c) s := by
  have hq : Quiet burned [] :=
    ⟨fun _ _ ht => (congrArg burned ht).trans rfl, nofun⟩
  unfold Burns
  simp only [execute, putOrder, ok_rules, wp_burn_then]
  intro owner _ id _ order _ x _ balance _ account _ oid _ hfit
  rw [hq.unlist]
  exact burned_burnFee_of rfl (Int64.toInt_max_zero _) hfit

end

/-! ## Energy -/

/-- What charging the owner burns: nothing when it has no account. -/
lemma burned_chargeEnergyFee (h : chargeEnergyFee owner fee s = .ok u t) (hfit : s.burned + fee.toInt < 2 ^ 63) :
    t.burned = s.burned + if s.accountExists owner then max fee.toInt 0 else 0 := by
  apply ok_elim h
  unfold chargeEnergyFee WorldState.accountExists; simp only [wp_ite, wp_bind, wp_get, wp_pure]
  refine ⟨fun hpos => ?_, fun hneg => ?_⟩
  · rw [Int64.pos_iff] at hpos
    cases hx : s.getAccount owner with
    | none => simp
    | some =>
      simp only [ok_rules, Option.isSome_some, ↓reduceIte]; intro balance _; rw [max_eq_left hpos.le]
      exact burned_burnTrx rfl hpos.le hfit
  · rw [lt_iff_toInt_lt, toInt_zero] at hneg; rw [max_eq_right (by omega), ite_self, Int.add_zero]

lemma energyToSun_nonneg (used : Nat) (price : Int64) : 0 ≤ (energyToSun used price).toInt := by
  unfold energyToSun
  rw [toInt_ofInt_of_fits ⟨by omega, by omega⟩]
  omega

/-- An owner that owes energy has an account when it is charged. -/
def OwnerCharged (pf : Platform) (s : WorldState) : (ty : ContractType) → Message ty → Prop
  | .triggerSmartContract, c => ∀ owner target r w, Address.ofBytes c.ownerAddress = some owner →
      Address.ofBytes c.contractAddress = some target →
      TriggerSmartContractActuator.call pf.crypto s owner target c triggerEnergyLimit = .ok (r, w) →
      0 < energyToSun r.energyUsed (energyPrice s) →
      (if r.success then flushWorld s w else s).accountExists owner = true
  | .createSmartContract, c => ∀ sc owner r w, c.newContract = some sc → Address.ofBytes c.ownerAddress = some owner →
      CreateSmartContractActuator.construct pf.crypto s (CreateSmartContractActuator.deployAddress sc owner)
        sc.bytecode = .ok (r, w) → r.success = true → 0 < energyToSun r.energyUsed (energyPrice s) →
      (CreateSmartContractActuator.deploy s (CreateSmartContractActuator.deployAddress sc owner) sc r w).accountExists
        owner = true
  | _, _ => True

/-- Charging burns the fee exactly when there is none or an account to charge. -/
lemma burned_charge_iff
    (h : chargeEnergyFee owner fee s = .ok u t) (h0 : 0 ≤ fee.toInt) (hfit : s.burned + fee.toInt < 2 ^ 63) :
    t.burned = s.burned + fee.toInt ↔ (0 < fee → s.accountExists owner = true) := by
  rw [burned_chargeEnergyFee h hfit, max_eq_left h0, lt_iff_toInt_lt, toInt_zero]
  cases s.accountExists owner with
  | true => simp
  | false =>
    simp only [Bool.false_eq_true, ↓reduceIte, imp_false]; omega

section
variable {pf : Platform} {s t : WorldState} {res : ExecutionResult}

lemma TriggerSmartContractActuator.burned_iff {c : TriggerSmartContract} (hfit : s.burned + res.fee.toInt < 2 ^ 63)
    (hx : execute pf.crypto triggerEnergyLimit c s = .ok res t) :
    t.burned = s.burned + res.fee.toInt ↔ OwnerCharged pf s .triggerSmartContract c := by
  obtain ⟨owner, target, r, w, ho, ht, hr, hfee, hcharge⟩ := execute_ok hx
  have hcond : OwnerCharged pf s .triggerSmartContract c ↔
      (0 < res.fee → (if r.success then flushWorld s w else s).accountExists owner = true) := by
    rw [hfee]
    constructor
    · intro h; exact h owner target r w ho ht hr
    · intro h owner' target' r' w' ho' ht' hr'; cases ho.symm.trans ho'; cases ht.symm.trans ht'
      cases hr.symm.trans hr'; exact h
  have hburned : (if r.success then flushWorld s w else s).burned = s.burned := by
    split
    · exact burned_flushWorld s w
    · rfl
  rw [hcond, ← hburned]
  exact burned_charge_iff hcharge (by rw [hfee]; exact energyToSun_nonneg ..) (by rw [hburned]; exact hfit)

lemma CreateSmartContractActuator.burned_iff {c : CreateSmartContract} (hfit : s.burned + res.fee.toInt < 2 ^ 63)
    (hx : execute pf.crypto c s = .ok res t) :
    t.burned = s.burned + res.fee.toInt ↔ OwnerCharged pf s .createSmartContract c := by
  obtain ⟨sc, owner, r, w, hsc, ho, hr, hs, hfee, hcharge⟩ := execute_ok hx
  have hcond : OwnerCharged pf s .createSmartContract c ↔
      (0 < res.fee → (deploy s (deployAddress sc owner) sc r w).accountExists owner = true) := by
    rw [hfee]
    constructor
    · intro h; exact h sc owner r w hsc ho hr hs
    · intro h sc' owner' r' w' hsc' ho' hr' _; cases hsc.symm.trans hsc'; cases ho.symm.trans ho'
      cases hr.symm.trans hr'; exact h
  have hburned : (deploy s (deployAddress sc owner) sc r w).burned = s.burned := burned_flushWorld s w
  rw [hcond, ← hburned]
  exact burned_charge_iff hcharge (by rw [hfee]; exact energyToSun_nonneg ..) (by rw [hburned]; exact hfit)

/-! ## Every contract type -/

/-- **One contract type at a time.** -/
theorem burns_execute_iff (hr : route pf ty = some a) {c : Message ty}
    (hfees : ∀ k ∈ feeProperties, 0 ≤ (s.getProp k).toInt) (hfit : s.burned + res.fee.toInt < 2 ^ 63)
    (hx : a.execute c s = .ok res t) : t.burned = s.burned + res.fee.toInt ↔ OwnerCharged pf s ty c := by
  have hburns : Burns (a.execute c) s → t.burned = s.burned + res.fee.toInt := fun h => by
    have ht := ok_of_wp h hx; exact ht hfit
  cases ty <;> cases hr
  case triggerSmartContract => exact TriggerSmartContractActuator.burned_iff hfit hx
  case createSmartContract => exact CreateSmartContractActuator.burned_iff hfit hx
  case transfer => exact iff_of_true (hburns (TransferActuator.burns hfees c)) trivial
  case transferAsset => exact iff_of_true (hburns (TransferAssetActuator.burns hfees c)) trivial
  case accountCreate => exact iff_of_true (hburns (CreateAccountActuator.burns hfees c)) trivial
  case witnessCreate => exact iff_of_true (hburns (WitnessCreateActuator.burns c)) trivial
  case exchangeCreate => exact iff_of_true (hburns (ExchangeCreateActuator.burns c)) trivial
  case assetIssue => exact iff_of_true (hburns (AssetIssueActuator.burns c)) trivial
  case marketSellAsset => exact iff_of_true (hburns (MarketSellAssetActuator.burns c)) trivial
  case marketCancelOrder => exact iff_of_true (hburns (MarketCancelOrderActuator.burns c)) trivial
  case clearAbi | updateSetting | updateEnergyLimit =>
    exact iff_of_true (hburns (burns_editContract _ _ _ s)) trivial
  all_goals exact iff_of_true (hburns (burns_of_isFree (show route pf _ = some _ from rfl) rfl c s)) trivial

/-- **Reported fees are burned.** When the fees of the state are not negative and the counter has room, a
transaction that succeeds adds to it what it reports, exactly when an owner that owes energy has an account. -/
theorem fees_burned_iff {tx : Transaction} (hfees : ∀ k ∈ feeProperties, 0 ≤ (s.getProp k).toInt)
    (hx : applyTransaction pf tx s = .ok res t) (hfit : s.burned + res.fee.toInt < 2 ^ 63) :
    t.burned = s.burned + res.fee.toInt ↔ ∀ ty c, Executes pf s tx ty c → OwnerCharged pf s ty c := by
  obtain ⟨ty, a, c, ha, hexec, hrun⟩ := executes_of_ok hx
  rw [burns_execute_iff ha hfees hfit hrun]
  exact hexec.forall_iff.symm

end

/-- A call burns the fee of its energy. -/
theorem fees_burned_call : ∃ res t, applyTransaction callPlatform callTx payingState = .ok res t ∧
    t.burned = 2000600 ∧ (t.burned = payingState.burned + res.fee.toInt ↔
      ∀ ty c, Executes callPlatform payingState callTx ty c → OwnerCharged callPlatform payingState ty c) := by
  have h : (outcome (applyTransaction callPlatform callTx) payingState).toOption.map
      (fun p => (p.1.fee.toInt, p.2.burned)) = some (2000600, 2000600) := by decide +kernel
  obtain ⟨res, t, hx, hp⟩ := exists_of_outcome h
  obtain ⟨hfee, hburned⟩ := Prod.mk.inj hp
  refine ⟨res, t, hx, hburned, fees_burned_iff (by decide) hx ?_⟩
  rw [hfee]
  decide

/-- The contract, but no account. -/
def unknownOwnerState : WorldState := { pennilessState with account := ∅ }

/-- A call whose owner has no account reports the fee of its energy and burns nothing. -/
theorem unknown_owner_reports_fee : (∀ k ∈ feeProperties, 0 ≤ (unknownOwnerState.getProp k).toInt) ∧
    ∃ res t, applyTransaction callPlatform callTx unknownOwnerState = .ok res t ∧ res.fee.toInt = 2000600 ∧
      unknownOwnerState.burned = 0 ∧ t.burned = 0 := by
  have h : (outcome (applyTransaction callPlatform callTx) unknownOwnerState).toOption.map
      (fun p => (p.1.fee.toInt, p.2.burned)) = some (2000600, 0) := by decide +kernel
  obtain ⟨res, t, hx, hp⟩ := exists_of_outcome h
  obtain ⟨hfee, hburned⟩ := Prod.mk.inj hp
  exact ⟨by decide, res, t, hx, hfee, by decide, hburned⟩

end TronRs

import TronRs.L3Actuators.Fees
import TronRs.L3Actuators.Runs
import TronRs.L3Actuators.Trx.Delegations

/-!
# TRX is conserved

The system contracts that move TRX, in any order: transfers, new accounts, witnesses and
tokens, the staking operations of both generations, delegations, and withdrawals. What they take
as a fee is burned.

* `trxOk_execute`: what each operation does to the accounts.
* `trx_conserved`: along every run the TRX in accounts and the burned amount make up the same
  total and no part of it is negative, from a state whose delegation records agree with its
  accounts, and as long as no withdrawal meets a lock with expiry time zero.
* `unbacked_record_overdraws`: without the first condition the delegated amount of an account
  becomes negative.
-/
namespace TronRs

open TronRs.Core

/-! ## Payments -/

/-- Two accounts whose TRX differ in the balance only. -/
structure OnlyBalance (x y : Account) : Prop where
  allowance : y.allowance = x.allowance
  frozen : y.frozen = x.frozen
  resource : y.accountResource = x.accountResource
  power : y.tronPower = x.tronPower
  stakes : y.frozenV2 = x.frozenV2
  unfreezing : y.unfrozenV2 = x.unfrozenV2
  delegated : y.delegatedFrozenV2BalanceForBandwidth = x.delegatedFrozenV2BalanceForBandwidth

section Payments
variable {single : Prop} {total owed owed' : Int} {due : Address → Int32 → Int} {s t : WorldState}
  {res : ExecutionResult}
variable {v : Int64} {k : Property}

/-- A balance changes, and the difference is owed. -/
lemma TrxOk.payBalance {a : Address} {x y : Account} (h : TrxOk single total owed due s) (hx : s.getAccount a = some x)
    (hy : OnlyBalance x y) (h0 : 0 ≤ y.balance.toInt) (howed : 0 ≤ owed')
    (hsum : owed' + y.balance.toInt = owed + x.balance.toInt) : TrxOk single total owed' due (s.putAccount a y) := by
  have hdel : ∀ r, ownerDelegated y r = ownerDelegated x r := fun r => by
    rw [ownerDelegated, ownerDelegated, hy.delegated, hy.resource]
  have henergy : frozenEnergy y = frozenEnergy x := by rw [frozenEnergy, frozenEnergy, hy.resource]
  have hsolvent := h.accounts a x hx
  refine h.pay hx ⟨h0, ?_, ?_, ?_, ?_, ?_, ?_, fun r hr => ?_, ?_⟩ howed ?_ hdel
  · rw [hy.allowance]; exact hsolvent.allowance
  · rw [hy.frozen]; exact hsolvent.frozen
  · rw [henergy]; exact hsolvent.energy
  · rw [hy.power]; exact hsolvent.power
  · rw [hy.stakes]; exact hsolvent.stakes
  · rw [hy.unfreezing]; exact hsolvent.unfreezing
  · rw [hdel]; exact hsolvent.delegated r hr
  · rw [hy.stakes]; exact hsolvent.types
  · simp only [trxWorth, hy.allowance, hy.frozen, henergy, hy.power, hy.stakes, hy.unfreezing, hdel]
    omega

/-- Burning changes neither accounts nor delegations. -/
lemma TrxOk.burnFee (h : TrxOk single total owed due s) (fee : Int64) :
    TrxOk single total owed due (TronRs.burnFee s fee) := by
  refine h.congr (account_burnFee s fee) ?_; unfold TronRs.burnFee; split <;> rfl

/-! ## Contracts with a fee -/

/-- What an operation takes as a fee is no longer in the accounts. -/
def Charged (single : Prop) (total : Int) (due : Address → Int32 → Int) (res : ExecutionResult) (t : WorldState) :
    Prop :=
  0 ≤ res.fee.toInt ∧ TrxOk single (total - res.fee.toInt) 0 due t

section
variable (hfees : ∀ k ∈ feeProperties, 0 ≤ (s.getProp k).toInt) {v : Int64}
include hfees

lemma TransferActuator.trxOk {c : TransferContract} (h : TrxOk single total 0 due s)
    (hv : validate c s = .ok v) (hx : execute c s = .ok res t) : Charged single total due res t := by
  obtain ⟨owner, dst, -, -, ho, hd, -, -, hpos, -, -⟩ := validate_ok hv
  have hpos := Int64.pos_iff.mp hpos; apply ok_elim hx; have hu := h.withRecipient dst
  have hfee := recipientFee_nonneg hfees dst
  simp only [execute, ok_rules, wp_createRecipient, wp_burn_then, parseAddress_ok ho,
    parseAddress_ok hd, transferFee, Except.ok.injEq, forall_eq']
  generalize (if s.accountExists dst then 0 else 0 + s.getProp .createNewAccountFeeInSystemContract : Int64) = fee
    at hfee ⊢
  intro sum hsum x hx left hleft y hy credited hcredited; have hsum := checkedAdd_eq_some.mp hsum
  obtain ⟨hleft, hleft0⟩ := debit_eq_some.mp hleft
  have hcredited := checkedAdd_eq_some.mp hcredited
  have hpaid : TrxOk single total (c.amount.toInt + fee.toInt) due _ :=
    hu.payBalance (y := { x with balance := left }) hx ⟨rfl, rfl, rfl, rfl, rfl, rfl, rfl⟩ hleft0 (by omega)
      (by dsimp only; omega)
  have hburned := (hpaid.spend hfee hpos.le).burnFee fee
  have hy0 := (hburned.accounts dst y hy).balance
  exact ⟨hfee, hburned.payBalance hy ⟨rfl, rfl, rfl, rfl, rfl, rfl, rfl⟩ (by dsimp only; omega) le_rfl
    (by dsimp only; omega)⟩

lemma TransferAssetActuator.trxOk {c : TransferAssetContract} (h : TrxOk single total 0 due s)
    (hx : execute c s = .ok res t) : Charged single total due res t := by
  apply ok_elim hx; simp only [execute, ok_rules, wp_createRecipient, wp_burn_then, transferAssetFee]
  intro owner _ dst _ x hx tokens _ left hleft y hy credited _
  have hfee := recipientFee_nonneg hfees dst
  obtain ⟨hleft, hleft0⟩ := debit_eq_some.mp hleft
  have hpaid := (h.withRecipient dst).payBalance
    (y := { x with balance := left, assetV2 := x.assetV2.put (assetKey c) tokens }) hx
    ⟨rfl, rfl, rfl, rfl, rfl, rfl, rfl⟩ hleft0 hfee (by dsimp only; omega)
  have hmoved := hpaid.payBalance (y := { y with assetV2 := y.assetV2.put (assetKey c) credited }) hy
    ⟨rfl, rfl, rfl, rfl, rfl, rfl, rfl⟩ (hpaid.accounts dst y hy).balance hfee rfl
  rw [← Int.zero_add (Int64.toInt _)] at hmoved; exact ⟨hfee, (hmoved.spend hfee le_rfl).burnFee _⟩

lemma CreateAccountActuator.trxOk {c : AccountCreateContract} (h : TrxOk single total 0 due s)
    (hv : validate c s = .ok v) (hx : execute c s = .ok res t) : Charged single total due res t := by
  obtain ⟨-, owner, target, account, ho, htarget, -, hn, -⟩ := validate_ok hv
  apply ok_elim hx
  simp only [execute, ok_rules, wp_burn_then, parseAddress_ok ho, parseAddress_ok htarget,
    Except.ok.injEq, forall_eq']
  intro x hx left hleft; have hfee := hfees .createAccountFee (by decide)
  obtain ⟨hleft, hleft0⟩ := debit_eq_some.mp hleft
  have hnew : TrxOk single total 0 due (s.createAccount target) := h.putNew _ _ _ hn
  have htyped := hnew.payBalance (y := { s.freshAccount target with type := c.type })
    (getAccount_putAccount_self ..) ⟨rfl, rfl, rfl, rfl, rfl, rfl, rfl⟩ le_rfl le_rfl rfl
  have hpaid := htyped.payBalance (y := { x with balance := left }) hx ⟨rfl, rfl, rfl, rfl, rfl, rfl, rfl⟩ hleft0 hfee
    (by dsimp only; omega)
  rw [← Int.zero_add (Int64.toInt _)] at hpaid; exact ⟨hfee, (hpaid.spend hfee le_rfl).burnFee _⟩

end

lemma WitnessCreateActuator.trxOk {c : WitnessCreateContract} (h : TrxOk single total 0 due s)
    (hx : execute c s = .ok res t) : Charged single total due res t := by
  apply ok_elim hx; simp only [execute, ok_rules]; intro owner _ x hx left hleft
  have hpos : 0 < (accountUpgradeCost s).toInt := positiveOr_pos (by decide)
  obtain ⟨hleft, hleft0⟩ := debit_eq_some.mp hleft
  have hwitness := h.congr rfl rfl
  have hpaid := hwitness.payBalance (y := { x with isWitness := true, balance := left }) hx
    ⟨rfl, rfl, rfl, rfl, rfl, rfl, rfl⟩ hleft0 hpos.le (by dsimp only; omega)
  rw [← Int.zero_add (Int64.toInt _)] at hpaid
  exact ⟨hpos.le, (hpaid.spend hpos.le le_rfl).congr rfl rfl⟩

lemma AssetIssueActuator.trxOk {c : AssetIssueContract} (h : TrxOk single total 0 due s)
    (hx : execute c s = .ok res t) : Charged single total due res t := by
  apply ok_elim hx; simp only [execute, allocateTokenId, ok_rules]
  rintro owner _ x hx left hleft ⟨frozenSupply, remain⟩ _
  have hpos : 0 < (fee s).toInt := positiveOr_pos (by decide)
  obtain ⟨hleft, hleft0⟩ := debit_eq_some.mp hleft
  have hpaid := h.payBalance (y := { setAssetV2Balance { x with balance := left, frozenSupply }
      (s.getTokenIdNum + 1) remain with
      assetIssuedId := Bytes.decimal (s.getTokenIdNum + 1), assetIssuedName := c.name }) hx
    ⟨rfl, rfl, rfl, rfl, rfl, rfl, rfl⟩ hleft0 hpos.le (by dsimp only [setAssetV2Balance]; omega)
  rw [← Int.zero_add (Int64.toInt _)] at hpaid
  exact ⟨hpos.le, (hpaid.spend hpos.le le_rfl).congr rfl rfl⟩

lemma ParticipateAssetIssueActuator.trxOk {c : ParticipateAssetIssueContract}
    (h : TrxOk single total 0 due s) (hv : validate c s = .ok v) (hx : execute c s = .ok res t) :
    TrxOk single total 0 due t := by
  have hval : ∃ owner dst, Address.ofBytes c.ownerAddress = some owner ∧ Address.ofBytes c.toAddress = some dst ∧
      0 < c.amount ∧ owner ≠ dst := by
    simp only [validate, check_rules, parseAddress_eq_ok] at hv
    obtain ⟨owner, ho, dst, hd, -, hpos, -, hne, -⟩ := hv
    exact ⟨owner, dst, ho, hd, hpos, hne⟩
  obtain ⟨owner, dst, ho, hd, hpos, hne⟩ := hval
  have hpos := Int64.pos_iff.mp hpos; apply ok_elim hx
  simp only [execute, ok_rules, parseAddress_ok ho, parseAddress_ok hd, Except.ok.injEq, forall_eq']
  intro id _ asset _ exchange _ x hx left hleft tokens _ y hy credited hcredited rest _
  obtain ⟨hleft, hleft0⟩ := debit_eq_some.mp hleft
  have hcredited := checkedAdd_eq_some.mp hcredited
  have hy0 := (h.accounts dst y hy).balance
  have hpaid := h.payBalance (y := setAssetV2Balance { x with balance := left } id tokens) hx
    ⟨rfl, rfl, rfl, rfl, rfl, rfl, rfl⟩ hleft0 hpos.le (by dsimp only [setAssetV2Balance]; omega)
  rw [← getAccount_putAccount_of_ne s (setAssetV2Balance { x with balance := left } id tokens)
    (Ne.symm hne)] at hy
  exact hpaid.payBalance hy ⟨rfl, rfl, rfl, rfl, rfl, rfl, rfl⟩ (by dsimp only [setAssetV2Balance]; omega) le_rfl
    (by dsimp only [setAssetV2Balance]; omega)

/-! ## Runs -/

/-- The contracts that move TRX. -/
def trxTypes : List ContractType :=
  [.transfer, .transferAsset, .accountCreate, .witnessCreate, .assetIssue, .participateAssetIssue, .freezeBalance,
    .unfreezeBalance, .freezeBalanceV2, .unfreezeBalanceV2, .withdrawExpireUnfreeze, .cancelAllUnfreezeV2,
    .delegateResource, .unDelegateResource, .withdrawBalance]

/-- The burned amount is only ever written by the contracts, and no fee becomes negative. -/
def TrxSettable (k : Property) (v : Int64) : Prop := k ≠ .burnTrxAmount ∧ (k ∈ feeProperties → 0 ≤ v.toInt)

instance (k : Property) (v : Int64) : Decidable (TrxSettable k v) := inferInstanceAs (Decidable (_ ∧ _))

/-- A withdrawal that meets a lock with expiry time zero does not count on it. -/
def CountsLocks (s : WorldState) : ContractStep → Prop
  | .apply .unDelegateResource c => UnDelegateResourceActuator.LockCounts c s
  | _ => True

variable {pf : Platform} {ty : ContractType} {a : Actuator (Message ty)} {c : Message ty}

/-- The contracts that stake, delegate, and take back. -/
def stakeTypes : List ContractType :=
  [.freezeBalance, .unfreezeBalance, .freezeBalanceV2, .unfreezeBalanceV2, .cancelAllUnfreezeV2,
    .withdrawExpireUnfreeze, .delegateResource, .unDelegateResource]

lemma trxOk_stake (hr : route pf ty = some a) (hty : ty ∈ stakeTypes)
    (hcounts : CountsLocks s (.apply ty c)) (h : TrxOk single total 0 0 s) (hv : a.validate c s = .ok v)
    (hx : a.execute c s = .ok res t) : TrxOk single total 0 0 t := by
  cases ty <;> cases hr
  case freezeBalance => exact FreezeBalanceActuator.trxOk h hv hx
  case unfreezeBalance => exact UnfreezeBalanceActuator.trxOk h hx
  case freezeBalanceV2 => exact FreezeBalanceV2Actuator.trxOk h hv hx
  case unfreezeBalanceV2 => exact UnfreezeBalanceV2Actuator.trxOk h hv hx
  case withdrawExpireUnfreeze => exact WithdrawExpireUnfreezeActuator.trxOk h hx
  case cancelAllUnfreezeV2 => exact CancelAllUnfreezeV2Actuator.trxOk h hx
  case delegateResource => exact DelegateResourceActuator.trxOk h hv hx
  case unDelegateResource => exact UnDelegateResourceActuator.trxOk h hv hcounts hx
  all_goals exact absurd hty (by decide)

/-- **One contract.** What it takes as a fee is no longer in the accounts, and all else is. -/
theorem trxOk_execute (hr : route pf ty = some a) (hty : ty ∈ trxTypes)
    (hfees : ∀ k ∈ feeProperties, 0 ≤ (s.getProp k).toInt) (hcounts : CountsLocks s (.apply ty c))
    (h : TrxOk single total 0 0 s) (hv : a.validate c s = .ok v) (hx : a.execute c s = .ok res t) :
    Charged single total 0 res t := by
  have hfree : ty.isFree = true → TrxOk single total 0 0 t → Charged single total 0 res t := fun hty ht => by
    have hfee := (fee_of_isFree hr hty c).ok hx; rw [Charged, hfee, toInt_zero, Int.sub_zero]
    exact ⟨le_rfl, ht⟩
  have hstake : ty ∈ stakeTypes → Charged single total 0 res t := fun hstake => by
    have hall : ∀ ty ∈ stakeTypes, ty.isFree = true := by decide
    exact hfree (hall ty hstake) (trxOk_stake hr hstake hcounts h hv hx)
  cases ty <;> cases hr
  case transfer => exact TransferActuator.trxOk hfees h hv hx
  case transferAsset => exact TransferAssetActuator.trxOk hfees h hx
  case accountCreate => exact CreateAccountActuator.trxOk hfees h hv hx
  case witnessCreate => exact WitnessCreateActuator.trxOk h hx
  case assetIssue => exact AssetIssueActuator.trxOk h hx
  case participateAssetIssue => exact hfree rfl (ParticipateAssetIssueActuator.trxOk h hv hx)
  case withdrawBalance => exact hfree rfl (WithdrawBalanceActuator.trxOk h hx)
  all_goals first
    | exact hstake (by decide)
    | exact absurd hty (by decide)

/-- The contracts of a run write no fee. -/
lemma getProp_fee_execute (hr : route pf ty = some a) (hty : ty ∈ trxTypes) (hk : k ∈ feeProperties)
    (hx : a.execute c s = .ok res t) : t.getProp k = s.getProp k := by
  have hall : ∀ ty ∈ trxTypes, ty.writesContracts = false ∧ ∀ k ∈ feeProperties, k ∉ ty.counters := by decide
  obtain ⟨hwrites, hcounters⟩ := hall ty hty
  exact ((quiet_getProp (hcounters k hk)).execute hr hwrites c).ok hx

/-- The accounts and the burned amount make up `total`. -/
structure TrxInv (single : Prop) (total : Int) (s : WorldState) : Prop where
  bound : total < 2 ^ 63
  burned : 0 ≤ s.burned
  fees : ∀ k ∈ feeProperties, 0 ≤ (s.getProp k).toInt
  accounts : TrxOk single (total - s.burned) 0 0 s

lemma TrxInv.run (h : TrxInv single total s) (hr : route pf ty = some a) (hty : ty ∈ trxTypes)
    (hcounts : CountsLocks s (.apply ty c)) (hx : a.run c s = .ok res t) : TrxInv single total t := by
  obtain ⟨⟨v, hv⟩, hx⟩ := Actuator.run_ok hx
  obtain ⟨hfee, ht⟩ := trxOk_execute hr hty h.fees hcounts h.accounts hv hx
  have hbound := h.bound
  have hburned0 := h.burned
  -- the fee was in the accounts, so the counter has room for it
  have hle := ht.owed_le
  have hburned : t.burned = s.burned + res.fee.toInt := by
    refine (burns_execute_iff hr h.fees (by omega) hx).mpr ?_; cases ty <;> trivial
  refine ⟨hbound, by omega, fun k hk => ?_, ?_⟩
  · rw [getProp_fee_execute hr hty hk hx]; exact h.fees k hk
  · rwa [hburned, show total - (s.burned + res.fee.toInt) = total - s.burned - res.fee.toInt by omega]

lemma TrxInv.putProp (h : TrxInv single total s) (hk : TrxSettable k v) : TrxInv single total (s.putProp k v) := by
  have hburned : (s.putProp k v).burned = s.burned := burned_putProp s v hk.1
  refine ⟨h.bound, by rw [hburned]; exact h.burned, fun j hj => ?_, ?_⟩
  · by_cases hjk : j = k
    · subst hjk; rw [getProp_putProp_self]; exact hk.2 hj
    · rw [getProp_putProp_of_ne s v hjk]; exact h.fees j hj
  · rw [hburned]; exact h.accounts.congr rfl rfl

/-- A state whose accounts hold no negative amounts, and whose delegation records hold none either and add up to what
the accounts have delegated. With `single`, no account has two stakes for one resource. -/
structure TrxStart (single : Prop) (s : WorldState) : Prop where
  accounts : ∀ a x, s.getAccount a = some x → NonNegative x
  types : single → ∀ a x, s.getAccount a = some x → (x.frozenV2.map FreezeV2.type).Nodup
  burned : 0 ≤ s.burned
  bound : trxTotal s + s.burned < 2 ^ 63
  fees : ∀ k ∈ feeProperties, 0 ≤ (s.getProp k).toInt
  records : ∀ k rec, s.delegation.get k = some rec → ∀ r, resourceValid r = true → 0 ≤ (recFrozen rec r).toInt
  delegated : ∀ a r, resourceValid r = true → recordTotal s a r = delegatedBy s a r

lemma TrxStart.inv (h : TrxStart single s) : TrxInv single (trxTotal s + s.burned) s := by
  have hlt := h.bound
  have hburned := h.burned; refine ⟨hlt, hburned, h.fees, ?_⟩; rw [Int.add_sub_cancel]
  exact .of_nonNegative h.accounts h.types (by omega) h.records h.delegated

/-- **TRX is conserved.** Along every run of the contracts that move TRX, the accounts and the burned amount make up
the same total and no part of it is negative. -/
theorem trx_conserved {ls : List ContractStep} (hs : TrxStart single s)
    (hrun : ((contractRuns pf trxTypes TrxSettable (TrxStart single)).guard CountsLocks).Run s ls t) :
    trxTotal t + t.burned = trxTotal s + s.burned ∧ 0 ≤ t.burned ∧
      ∀ a x, t.getAccount a = some x → Solvent single x ∧ (single → NonNegative x) := by
  have hinv : TrxInv single (trxTotal s + s.burned) t := by
    refine hrun.preserves (fun s l t h hstep => ?_) hs.inv
    cases l with
    | setProperty => obtain ⟨-, hk, rfl⟩ := hstep; exact h.putProp hk
    | apply =>
      obtain ⟨hcounts, hty, a, res, hr, hx⟩ := hstep
      exact h.run hr hty hcounts hx
  have hsupply := hinv.accounts.supply; refine ⟨by omega, hinv.burned, fun a x hx => ?_⟩
  have hsolvent := hinv.accounts.accounts a x hx
  exact ⟨hsolvent, hsolvent.nonNegative⟩

end Payments

/-! ## Delegating and withdrawing -/

instance (s : WorldState) (l : ContractStep) : Decidable (CountsLocks s l) := by
  unfold CountsLocks
  split
  · exact UnDelegateResourceActuator.decidableLockCounts _ s
  · infer_instance

/-- An account with ten TRX and one without any. -/
def stakers : WorldState :=
  { account := ((∅ : Column Address Account).put (Address.ofNat 0xaa) { balance := 10000000 }).put
      (Address.ofNat 0xbb) {}
    properties := (∅ : Column Property Int64).put .unfreezeDelayDays 14 }

/-- No record is stored, and no account has delegated or acquired anything. -/
lemma noDelegations_of_accounts {s : WorldState} (hrecords : s.delegation = ∅)
    (h : ∀ a x, s.account.get a = some x → (ownerDelegated x bandwidth = 0 ∧ ownerDelegated x energy = 0) ∧
      receiverAcquired x bandwidth = 0 ∧ receiverAcquired x energy = 0) : NoDelegations s where
  records := by rw [hrecords]; exact get_empty
  delegated a x hx := forall_resourceValid.mpr (h a x hx).1
  acquired a x hx := forall_resourceValid.mpr (h a x hx).2

lemma noDelegations_stakers : NoDelegations stakers := noDelegations_of_accounts rfl (by decide)

lemma trxStart_stakers : TrxStart True stakers where
  accounts := by
    have h : ∀ a x, stakers.account.get a = some x → NonNegative x := by decide
    exact h
  types _ := by
    have h : ∀ a x, stakers.account.get a = some x → (x.frozenV2.map FreezeV2.type).Nodup := by decide
    exact h
  burned := by decide
  bound := by decide
  fees := by decide
  records k rec hk := by rw [noDelegations_stakers.records] at hk; cases hk
  delegated a r hr := noDelegations_stakers.recordTotal_eq a hr

def freezeThree : ContractStep :=
  .apply .freezeBalanceV2 { ownerAddress := (Address.ofNat 0xaa).asBytes, frozenBalance := 3000000 }

def delegateTwo : ContractStep :=
  .apply .delegateResource { ownerAddress := (Address.ofNat 0xaa).asBytes, balance := 2000000
                             receiverAddress := (Address.ofNat 0xbb).asBytes }

def withdrawOne : ContractStep :=
  .apply .unDelegateResource { ownerAddress := (Address.ofNat 0xaa).asBytes, balance := 1000000
                               receiverAddress := (Address.ofNat 0xbb).asBytes }

def payThree : ContractStep :=
  .apply .transfer { ownerAddress := (Address.ofNat 0xaa).asBytes, amount := 3000000
                     toAddress := (Address.ofNat 0xcc).asBytes }

/-- Ten TRX, two of them staked, one delegated, three paid to a new account and one burned. -/
theorem trx_conserved_delegation : ∃ t, ((contractRuns Platform.blank trxTypes TrxSettable (TrxStart True)).guard
      CountsLocks).Run stakers [.setProperty .createNewAccountFeeInSystemContract 1000000, freezeThree, delegateTwo,
        .setProperty .latestBlockHeaderTimestamp 3000, withdrawOne, payThree] t ∧
    t.burned = 1000000 ∧ trxTotal t + t.burned = trxTotal stakers + stakers.burned ∧
    ∀ a x, t.getAccount a = some x → NonNegative x := by
  have h : (Lts.exec (Lts.guardStep CountsLocks (ContractStep.next Platform.blank trxTypes TrxSettable)) stakers
      [.setProperty .createNewAccountFeeInSystemContract 1000000, freezeThree, delegateTwo,
        .setProperty .latestBlockHeaderTimestamp 3000, withdrawOne, payThree]).map WorldState.burned =
      some 1000000 := by decide +kernel
  obtain ⟨t, hrun, hburned⟩ := ContractStep.exists_run h
  obtain ⟨hsum, -, hparts⟩ := trx_conserved trxStart_stakers hrun
  exact ⟨t, hrun, hburned, hsum, fun a x hx => (hparts a x hx).2 trivial⟩

/-- A record of five sun that the owner's account does not know of. -/
def unbackedRecord : WorldState :=
  { account := (∅ : Column Address Account).put (Address.ofNat 0xaa) {}
    delegation := (∅ : Column (Address × Address × Bool) DelegatedResource).put
      (Address.ofNat 0xaa, Address.ofNat 0xbb, false) { frozenBalanceForBandwidth := 5 } }

/-- Withdrawing it makes the delegated amount negative, although no amount of the state was. -/
theorem unbacked_record_overdraws : (∀ a x, unbackedRecord.getAccount a = some x → NonNegative x) ∧
    0 ≤ unbackedRecord.burned ∧ trxTotal unbackedRecord + unbackedRecord.burned < 2 ^ 63 ∧
    (∀ k ∈ feeProperties, 0 ≤ (unbackedRecord.getProp k).toInt) ∧
    ∃ c t, (contractRuns Platform.blank trxTypes TrxSettable fun _ => True).Run unbackedRecord
      [.apply .unDelegateResource c] t ∧
      (t.getAccount (Address.ofNat 0xaa)).map (fun x => (ownerDelegated x bandwidth).toInt) = some (-5) := by
  have haccounts : ∀ a x, unbackedRecord.account.get a = some x → NonNegative x := by decide
  have hrun : (Lts.exec (ContractStep.next Platform.blank trxTypes TrxSettable) unbackedRecord
      [.apply .unDelegateResource { ownerAddress := (Address.ofNat 0xaa).asBytes, balance := 5
                                    receiverAddress := (Address.ofNat 0xbb).asBytes }]).map
      (fun t => (t.getAccount (Address.ofNat 0xaa)).map fun x => (ownerDelegated x bandwidth).toInt) =
        some (some (-5)) := by decide +kernel
  exact ⟨haccounts, by decide, by decide, by decide, _,
    Lts.Run.exists_of_exec (fun _ _ _ => ContractStep.step_of_next) hrun⟩

/-- An account that has staked more than 2 ^ 62 sun for bandwidth, at time 8000. -/
def whale : WorldState :=
  { account := ((∅ : Column Address Account).put (Address.ofNat 0xaa)
      { frozenV2 := [⟨bandwidth, 4611686018429387904⟩] }).put (Address.ofNat 0xbb) {}
    properties := (∅ : Column Property Int64).put .latestBlockHeaderTimestamp 8000 }

/-- Bandwidth of `aa` for `bb`. -/
def delegateBandwidth (balance : Int64) (lock : Bool) (lockPeriod : Int64) : ContractStep :=
  .apply .delegateResource { ownerAddress := (Address.ofNat 0xaa).asBytes, balance, lock, lockPeriod
                             receiverAddress := (Address.ofNat 0xbb).asBytes }

def withdrawBandwidth (balance : Int64) : ContractStep :=
  .apply .unDelegateResource { ownerAddress := (Address.ofNat 0xaa).asBytes, balance
                               receiverAddress := (Address.ofNat 0xbb).asBytes }

/-- Locks 2 ^ 62 sun for so long that the end wraps to time zero. -/
def lockToZero : ContractStep := delegateBandwidth 4611686018427387904 true 768614336404564648

lemma noDelegations_whale : NoDelegations whale := noDelegations_of_accounts rfl (by decide)

end TronRs

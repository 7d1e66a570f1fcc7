import TronRs.L3Actuators.ChainStore

/-!
# Which transactions are atomic

There is no rollback layer under `apply_transaction`: an actuator that returns an error
after a write leaves the write in the state. `AtomicWhen` lists the contract types for
which that can happen, each with the condition that excludes it.

* `atomic_applyTransaction_iff`: a transaction is atomic exactly when the condition of its
  contract type holds, if it gets as far as being executed.
* `applyBlock_stops`: a block that fails keeps what its transactions have written.
* `unpaid_call_keeps_write`: a contract call that fails for lack of the energy fee, after the
  contract's writes have been stored.
-/
namespace TronRs

open TronRs.Core

variable (pf : Platform)

/-- The condition under which executing a validated contract is atomic. -/
def AtomicWhen (s : WorldState) : (ty : ContractType) → Message ty → Prop
  | .accountCreate, c => CreateAccountActuator.FeeFits c s
  | .transfer, c => TransferActuator.Fits c s
  | .transferAsset, c => TransferAssetActuator.FeeFits c s
  | .assetIssue, c => AssetIssueActuator.ExpiryFits c
  | .unDelegateResource, c => UnDelegateResourceActuator.LockMerges c s
  | .triggerSmartContract, c =>
    TriggerSmartContractActuator.FeeCovered pf.crypto triggerEnergyLimit c s
  | .createSmartContract, c => CreateSmartContractActuator.FeeCovered pf.crypto c s
  | .marketSellAsset, c => MarketSellAssetActuator.Settles c s
  | _, _ => True

variable {pf} {s : WorldState} {ty : ContractType} {tx : Transaction} {contract : Contract} {c : Message ty}

/-- **One contract type at a time.** Every actuator of the table, on a contract it has
validated. -/
theorem atomic_execute_iff {a : Actuator (Message ty)} (hr : route pf ty = some a)
    {v : Int64} (hv : a.validate c s = .ok v) : Atomic (a.execute c) s ↔ AtomicWhen pf s ty c := by
  cases ty <;> cases hr
  case accountCreate => exact CreateAccountActuator.atomic_iff hv
  case transfer => exact TransferActuator.atomic_iff hv
  case transferAsset => exact TransferAssetActuator.atomic_iff hv
  case assetIssue => exact AssetIssueActuator.atomic_iff hv
  case unDelegateResource => exact UnDelegateResourceActuator.atomic_iff hv
  case triggerSmartContract => exact TriggerSmartContractActuator.atomic_iff hv
  case createSmartContract => exact CreateSmartContractActuator.atomic_iff hv
  case marketSellAsset =>
    exact (MarketSellAssetActuator.atomic_iff c s).trans (MarketSellAssetActuator.matchSucceeds_iff c s)
  case accountUpdate => exact iff_of_true (UpdateAccountActuator.atomic c s) trivial
  case setAccountId => exact iff_of_true (SetAccountIdActuator.atomic c s) trivial
  case accountPermissionUpdate => exact iff_of_true (AccountPermissionUpdateActuator.atomic c s) trivial
  case participateAssetIssue => exact iff_of_true (ParticipateAssetIssueActuator.atomic c s) trivial
  case updateAsset => exact iff_of_true (UpdateAssetActuator.atomic c s) trivial
  case unfreezeAsset => exact iff_of_true (UnfreezeAssetActuator.atomic c s) trivial
  case freezeBalance => exact iff_of_true (FreezeBalanceActuator.atomic c s) trivial
  case unfreezeBalance => exact iff_of_true (UnfreezeBalanceActuator.atomic c s) trivial
  case freezeBalanceV2 => exact iff_of_true (FreezeBalanceV2Actuator.atomic c s) trivial
  case unfreezeBalanceV2 => exact iff_of_true (UnfreezeBalanceV2Actuator.atomic c s) trivial
  case withdrawExpireUnfreeze => exact iff_of_true (WithdrawExpireUnfreezeActuator.atomic c s) trivial
  case cancelAllUnfreezeV2 => exact iff_of_true (CancelAllUnfreezeV2Actuator.atomic c s) trivial
  case delegateResource => exact iff_of_true (DelegateResourceActuator.atomic hv) trivial
  case witnessCreate => exact iff_of_true (WitnessCreateActuator.atomic hv) trivial
  case witnessUpdate => exact iff_of_true (WitnessUpdateActuator.atomic c s) trivial
  case voteWitness => exact iff_of_true (VoteWitnessActuator.atomic c s) trivial
  case withdrawBalance => exact iff_of_true (WithdrawBalanceActuator.atomic c s) trivial
  case updateBrokerage => exact iff_of_true (UpdateBrokerageActuator.atomic c s) trivial
  case proposalCreate => exact iff_of_true (ProposalCreateActuator.atomic c s) trivial
  case proposalApprove => exact iff_of_true (ProposalApproveActuator.atomic c s) trivial
  case proposalDelete => exact iff_of_true (ProposalDeleteActuator.atomic c s) trivial
  case updateSetting => exact iff_of_true (atomic_editContract _ _ _ s) trivial
  case updateEnergyLimit => exact iff_of_true (atomic_editContract _ _ _ s) trivial
  case clearAbi => exact iff_of_true (atomic_editContract _ _ _ s) trivial
  case exchangeCreate => exact iff_of_true (ExchangeCreateActuator.atomic c s) trivial
  case exchangeInject => exact iff_of_true (ExchangeInjectActuator.atomic c s) trivial
  case exchangeWithdraw => exact iff_of_true (ExchangeWithdrawActuator.atomic c s) trivial
  case exchangeTransaction => exact iff_of_true (ExchangeTransactionActuator.atomic _ c s) trivial
  case marketCancelOrder => exact iff_of_true (MarketCancelOrderActuator.atomic c s) trivial

/-- The transaction gets as far as being executed: its first contract has type `ty` and an
actuator, and its parameter unpacks to `c` and validates. -/
def Executes (pf : Platform) (s : WorldState) (tx : Transaction) (ty : ContractType) (c : Message ty) : Prop :=
  ∃ raw contract a v, tx.rawData = some raw ∧ raw.contract.head? = some contract ∧
    ContractType.ofI32 contract.type = ty ∧ route pf ty = some a ∧ unpack pf contract ty = .ok c ∧
    a.validate c s = .ok v

lemma Executes.forall_iff {P : (ty : ContractType) → Message ty → Prop} (h : Executes pf s tx ty c) :
    (∀ ty' c', Executes pf s tx ty' c' → P ty' c') ↔ P ty c := by
  refine ⟨fun hall => hall ty c h, ?_⟩
  rintro hP ty' c' ⟨raw', contract', a', v', hraw', hc', rfl, hr', hu', hv'⟩
  obtain ⟨raw, contract, a, v, hraw, hc, rfl, hr, hu, hv⟩ := h
  cases hraw.symm.trans hraw'; cases hc.symm.trans hc'; obtain rfl := Except.ok.inj (hu.symm.trans hu')
  exact hP

lemma executes_of_ok {t : WorldState} {res : ExecutionResult} (h : applyTransaction pf tx s = .ok res t) :
    ∃ ty a, ∃ c : Message ty, route pf ty = some a ∧ Executes pf s tx ty c ∧ a.execute c s = .ok res t := by
  obtain ⟨raw, contract, a, c, hraw, hcontract, ha, hc, hrun⟩ := applyTransaction_ok h
  obtain ⟨⟨v, hv⟩, hx⟩ := Actuator.run_ok hrun
  exact ⟨_, a, c, ha, ⟨raw, contract, a, v, hraw, hcontract, rfl, ha, hc, hv⟩, hx⟩

lemma atomic_throw {α : Type} (e : Fault) (s : WorldState) : Atomic (throw e : Act α) s :=
  atomic_of_wp (by simp)

lemma atomic_lift_bind {α β : Type} {x : Check α} {f : α → Act β} {s : WorldState} :
    Atomic (lift x >>= f) s ↔ ∀ a, x = .ok a → Atomic (f a) s := by
  cases x with
  | error => refine iff_of_true (atomic_of_wp ?_) nofun; simp
  | ok a => show Atomic (f a) s ↔ _; simp

lemma atomic_applyContract_iff : Atomic (applyContract pf contract ty) s ↔
    ∀ a c v, route pf ty = some a → unpack pf contract ty = .ok c → a.validate c s = .ok v → AtomicWhen pf s ty c := by
  unfold applyContract
  cases hr : route pf ty with
  | none => exact iff_of_true (atomic_throw _ s) nofun
  | some a =>
    rw [atomic_lift_bind]
    constructor
    · intro h a' c v ha hc hv; cases ha
      exact (atomic_execute_iff hr hv).mp (Actuator.atomic_run_iff.mp (h c hc) ⟨v, hv⟩)
    · intro h c hc; refine Actuator.atomic_run_iff.mpr ?_; rintro ⟨v, hv⟩
      exact (atomic_execute_iff hr hv).mpr (h a c v rfl hc hv)

lemma applyTransaction_of_contract {raw : TxRaw} (hraw : tx.rawData = some raw)
    (hc : raw.contract.head? = some contract) :
    applyTransaction pf tx = applyContract pf contract (.ofI32 contract.type) := by
  unfold applyTransaction; rw [hraw]
  show (orThrow raw.contract.head? _ >>= fun contract => applyContract pf contract _) = _; rw [hc]; rfl

/-- **Atomicity of a transaction.** An error leaves every column of the state as it was,
exactly when the condition of the contract type holds for a transaction that is executed. -/
theorem atomic_applyTransaction_iff (pf : Platform) (s : WorldState) (tx : Transaction) :
    Atomic (applyTransaction pf tx) s ↔ ∀ ty c, Executes pf s tx ty c → AtomicWhen pf s ty c := by
  cases hraw : tx.rawData with
  | none =>
    refine iff_of_true (atomic_of_wp (by simp [applyTransaction, hraw])) ?_
    rintro ty c ⟨raw, contract, a, v, hraw', -⟩; rw [hraw] at hraw'; cases hraw'
  | some raw =>
    cases hc : raw.contract.head? with
    | none =>
      refine iff_of_true (atomic_of_wp (by simp [applyTransaction, hraw, hc])) ?_
      rintro ty c ⟨raw', contract, a, v, hraw', hc', -⟩; rw [hraw] at hraw'; cases hraw'
      rw [hc] at hc'; cases hc'
    | some contract =>
      rw [applyTransaction_of_contract hraw hc, atomic_applyContract_iff]
      constructor
      · rintro h ty c ⟨raw', contract', a, v, hraw', hc', rfl, hr, hu, hv⟩; rw [hraw] at hraw'
        cases hraw'; rw [hc] at hc'; cases hc'
        exact h a c v hr hu hv
      · intro h a c v hr hu hv; exact h _ c ⟨raw, contract, a, v, hraw, hc, rfl, hr, hu, hv⟩

/-! ## A call that cannot be paid for -/

/-- What `f` reads in the state an error leaves behind. -/
def leftByError {α β : Type} (m : Act α) (s : WorldState) (f : WorldState → β) : Option β :=
  match m s with
  | .error (.err _) t => some (f t)
  | _ => none

lemma exists_of_leftByError {α β : Type} {m : Act α} {s : WorldState} {f : WorldState → β} {b : β}
    (h : leftByError m s f = some b) : ∃ e t, m s = .error (.err e) t ∧ f t = b := by
  unfold leftByError at h
  split at h
  · rename_i e t heq; exact ⟨e, t, heq, Option.some.inj h⟩
  · cases h

/-- The encoding of a call by `0xaa` of the contract `0xcc`. -/
def callBytes : Bytes :=
  0x0a :: 21 :: (Address.ofNat 0xaa).asBytes ++ 0x12 :: 21 :: (Address.ofNat 0xcc).asBytes

/-- A platform whose decoder reads that encoding. -/
def callPlatform : Platform where
  crypto := Platform.blank.crypto
  floats := Platform.blank.floats
  codec := { Platform.blank.codec with
    decode := fun ty b => match ty with
      | .triggerSmartContract =>
        if b = callBytes then
          .ok { ownerAddress := (Address.ofNat 0xaa).asBytes, contractAddress := (Address.ofNat 0xcc).asBytes }
        else .error "not decoded"
      | _ => .error "not decoded" }

def callTx : Transaction :=
  { rawData := some { contract := [{ type := 31, parameter := some { value := callBytes } }] } }

/-- An owner with nothing on its account, and a contract that writes 9 to its slot 1. -/
def pennilessState : WorldState :=
  { account := (∅ : Column Address Account).put (Address.ofNat 0xaa) {}
    contractCode := (∅ : Column Address Bytes).put (Address.ofNat 0xcc) [0x60, 9, 0x60, 1, 0x55, 0x00] }

/-- The contract `cc` of `pennilessState`, and an owner that can pay. -/
def payingState : WorldState :=
  { pennilessState with account := (∅ : Column Address Account).put (Address.ofNat 0xaa) { balance := 3000000 } }

/-- The call returns an error because the energy cannot be paid for, and what the contract
wrote stays in the state. -/
theorem unpaid_call_keeps_write : ∃ e t, applyTransaction callPlatform callTx pennilessState = .error (.err e) t ∧
      t.contractStorage.get (Address.ofNat 0xcc, 1) = some 9 ∧
      pennilessState.contractStorage.get (Address.ofNat 0xcc, 1) = none := by
  have h : leftByError (applyTransaction callPlatform callTx) pennilessState
      (·.contractStorage.get (Address.ofNat 0xcc, 1)) = some (some 9) := by decide +kernel
  obtain ⟨e, t, hrun, ht⟩ := exists_of_leftByError h
  exact ⟨e, t, hrun, ht, by decide +kernel⟩

/-! ## Blocks -/

/-- **A block that fails** stops at its first failing transaction, and nothing is undone: the state is what the
transactions before it and the failing one itself have left. Only the chain is as it was. -/
theorem applyBlock_stops (pf : Platform) (s : WorldState) (b : Block) :
    (∀ e t, processBlock pf b s = .error (.err e) t ↔ applyBlock pf b s = .error (.err e) t) ∧
      ∀ e t, applyBlock pf b s = .error (.err e) t →
        t.chain = s.chain ∧ ∃ done tx rest results u, b.transactions = done ++ tx :: rest ∧
          applyBlock pf { b with transactions := done } s = .ok results u ∧
            applyTransaction pf tx u = .error (.err e) t := by
  refine ⟨fun e t => ?_, fun e t h => ⟨(Frame.mapM (frame_applyTransaction pf) b.transactions).error h, ?_⟩⟩
  · -- storing and indexing the block cannot fail
    unfold processBlock; rw [seq_eq_error]; refine or_iff_left ?_
    rintro ⟨results, u, -, h⟩; cases h
  · exact exists_of_mapM_error h

/-- A call that succeeds, and a transaction without contents. -/
def halfGoodBlock : Block := { transactions := [callTx, {}] }

theorem applyBlock_stops_half : ∃ e t, applyBlock callPlatform halfGoodBlock payingState = .error (.err e) t ∧
    t.chain = payingState.chain ∧ ∃ done tx rest results u, halfGoodBlock.transactions = done ++ tx :: rest ∧
      applyBlock callPlatform { halfGoodBlock with transactions := done } payingState = .ok results u ∧
        applyTransaction callPlatform tx u = .error (.err e) t := by
  have h : leftByError (applyBlock callPlatform halfGoodBlock) payingState (fun _ => ()) = some () := by
    decide +kernel
  obtain ⟨e, t, hrun, -⟩ := exists_of_leftByError h
  exact ⟨e, t, hrun, (applyBlock_stops ..).2 e t hrun⟩

/-- The block is an error, and the call has been executed. -/
theorem failed_block_keeps_call : ∃ e t, processBlock callPlatform halfGoodBlock payingState = .error (.err e) t ∧
      applyBlock callPlatform halfGoodBlock payingState = .error (.err e) t ∧
      t.contractStorage.get (Address.ofNat 0xcc, 1) = some 9 ∧
      payingState.contractStorage.get (Address.ofNat 0xcc, 1) = none := by
  have h : leftByError (applyBlock callPlatform halfGoodBlock) payingState
      (·.contractStorage.get (Address.ofNat 0xcc, 1)) = some (some 9) := by decide +kernel
  obtain ⟨e, t, hrun, ht⟩ := exists_of_leftByError h
  exact ⟨e, t, seq_eq_error.mpr (.inl hrun), hrun, ht, by decide +kernel⟩

end TronRs

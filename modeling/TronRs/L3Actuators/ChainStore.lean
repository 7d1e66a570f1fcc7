import TronRs.L3Actuators.Executor

/-!
# What executing a transaction leaves alone

System contracts write accounts, tokens, votes, orders and counters, but neither the contracts of
the virtual machine nor the chain itself: the stored blocks, the two indices, the active
witnesses and the properties of the head and of finality (`Quiet.execute`, `frame_system`). The contract types that
do write contracts leave the chain alone (`frame_execute`), so a transaction leaves it as it was
whatever its outcome (`frame_applyTransaction`).
-/
namespace TronRs

open TronRs.Core

variable {pf : Platform} {ty : ContractType} {a : Actuator (Message ty)} {k : Property} (owner : Address)

/-- The properties that block processing and finality own. -/
def Property.ofChain : Property → Bool
  | latestBlockNumber | latestBlockHeaderTimestamp | latestSolidifiedBlock | allowPbft => true
  | _ => false

/-- The part of the state that no system contract writes. -/
structure Outside where
  contract : Column Address SmartContract
  contractCode : Column Address Bytes
  contractStorage : Column (Address × BitVec 256) (BitVec 256)
  block : Column Int64 Block
  blockIndex : Column Bytes Int64
  transaction : Column Bytes Transaction
  activeWitnesses : List Address
  property : Property → Option Int64

/-- Without the contracts. -/
def Outside.chain (o : Outside) : Outside := { o with contract := ∅, contractCode := ∅, contractStorage := ∅ }

namespace WorldState
variable (s : WorldState)

def outside : Outside where
  contract := s.contract
  contractCode := s.contractCode
  contractStorage := s.contractStorage
  block := s.block
  blockIndex := s.blockIndex
  transaction := s.transaction
  activeWitnesses := s.activeWitnesses
  property k := if k.ofChain then s.properties.get k else none

/-- The part of the state that belongs to the chain. -/
def chain : Outside := s.outside.chain

lemma outside_putProp (v : Int64) (hk : k.ofChain = false) : (s.putProp k v).outside = s.outside := by
  have hprop : (fun j : Property => if j.ofChain then (s.properties.put k v).get j else none) =
      fun j => if j.ofChain then s.properties.get j else none := by
    funext j
    by_cases hj : j = k
    · rw [hj, hk]; rfl
    · rw [get_put_of_ne hj]
  exact congrArg (fun property => { s.outside with property }) hprop

end WorldState

open WorldState

/-! ## Observations -/

/-- An observation of the state that shows neither the columns of the system contracts nor the counters `ks`. -/
structure Quiet {γ : Type} (f : WorldState → γ) (ks : List Property) : Prop where
  columns : ∀ s t : WorldState, t = { s with
    account := t.account, witness := t.witness, asset := t.asset, proposal := t.proposal, exchange := t.exchange
    brokerage := t.brokerage, delegation := t.delegation, marketOrder := t.marketOrder
    marketPairPrice := t.marketPairPrice, marketPair := t.marketPair, marketAccountOrder := t.marketAccountOrder
    marketPairs := t.marketPairs } → f t = f s
  counter : ∀ (s : WorldState), ∀ k ∈ ks, ∀ v, f (s.putProp k v) = f s

/-- The global weights of the staked resources. -/
def weightCounters : List Property := [.totalNetWeight, .totalEnergyWeight, .totalTronPowerWeight]

lemma totalWeightKey_mem {r : Int32} (h : totalWeightKey r = some k) : k ∈ weightCounters := by
  unfold totalWeightKey at h
  repeat' split at h
  all_goals simp_all [weightCounters]

lemma weightKey_mem (r : Int32) : weightKey r ∈ weightCounters := by
  unfold weightKey
  repeat' split
  all_goals simp [weightCounters]

lemma quiet_outside {ks : List Property} (h : ∀ k ∈ ks, k.ofChain = false) : Quiet WorldState.outside ks :=
  ⟨fun _ _ ht => (congrArg WorldState.outside ht).trans rfl, fun s k hk v => s.outside_putProp v (h k hk)⟩

/-! ## Parts of the programs -/

lemma chain_flushWorld (s : WorldState) (w : Vm.World) : (flushWorld s w).chain = s.chain := by
  rw [flushWorld_eq]; rfl

lemma frame_chargeEnergyFee (fee : Int64) : Frame WorldState.outside (chargeEnergyFee owner fee) := by
  unfold chargeEnergyFee; refine .ite (.bind .get fun s => ?_) (.pure _)
  cases s.getAccount owner with
  | none => exact .pure _
  | some =>
    exact .bind (.orThrow _ _) fun _ => .bind (.modify fun _ => rfl) fun _ => .modify fun s => s.outside_putProp _ rfl

lemma frame_editContract (b : Bytes) (missing : String) (f : SmartContract → SmartContract) :
    Frame WorldState.chain (editContract b missing f) :=
  .lift_bind fun _ => .get_bind fun _ => .orThrow_bind fun _ => .modify_bind (fun _ => rfl) fun _ => .pure _

namespace Quiet
variable {γ : Type} {f : WorldState → γ} {ks : List Property} (hq : Quiet f ks) (s : WorldState)
variable (order : MarketOrder) (pair : Bytes) (price : Price) (id : OrderId) (receiver : Address) (resource : Int32)
include hq

lemma addWeight (hks : ks = weightCounters) (resource : Int32) (delta : Int64) :
    Frame f (addWeight resource delta) := by
  unfold TronRs.addWeight
  split
  · rename_i key hkey
    exact .modify fun s => hq.counter s key (hks ▸ totalWeightKey_mem hkey) _
  · exact .pure _

lemma addRefrozen {key : Property} (hk : key ∈ ks) (amount : Int64) :
    Frame f (CancelAllUnfreezeV2Actuator.addRefrozen key amount) :=
  .ite (.pure _) (.modify fun s => hq.counter s key hk _)

lemma mergeExpiredLock (now : Int64) :
    f (UnDelegateResourceActuator.mergeExpiredLock s owner receiver resource now) = f s := by
  refine hq.columns _ _ ?_
  unfold UnDelegateResourceActuator.mergeExpiredLock WorldState.storeDelegation
  split
  · rfl
  dsimp only
  split
  · rfl
  · split <;> rfl

lemma releaseReceiver (balance : Int64) :
    f (UnDelegateResourceActuator.releaseReceiver s receiver resource balance) = f s := by
  refine hq.columns _ _ ?_; unfold UnDelegateResourceActuator.releaseReceiver; split <;> rfl

lemma storeDelegation (lock : Bool) (d : DelegatedResource) : f (s.storeDelegation owner receiver lock d) = f s := by
  refine hq.columns _ _ ?_; unfold WorldState.storeDelegation; split <;> rfl

lemma removePrice : f (s.removePrice pair price) = f s := by
  obtain ⟨_, _, h⟩ := s.removePrice_eq pair price
  rw [h]; exact hq.columns _ _ rfl

lemma addOrderToBook : f (s.addOrderToBook pair price id) = f s := by
  obtain ⟨_, _, h⟩ := s.addOrderToBook_eq pair price id
  rw [h]; exact hq.columns _ _ rfl

lemma addAccountOrder (owner : Bytes) (id : OrderId) : f (s.addAccountOrder owner id) = f s := by
  refine hq.columns _ _ ?_; unfold WorldState.addAccountOrder; dsimp only
  split <;> rfl

lemma putOrder : Frame f (putOrder order) :=
  MarketSellAssetActuator.frame_putOrder (fun _ _ => hq.columns _ _ rfl) order

lemma matchOrder (t : Taking) : Frame f (MarketSellAssetActuator.matchOrder t) :=
  MarketSellAssetActuator.frame_matchOrder (fun _ _ _ => hq.columns _ _ rfl) (fun _ _ => hq.columns _ _ rfl)
    (fun _ _ => hq.columns _ _ rfl) (fun _ _ _ _ => hq.columns _ _ rfl) hq.removePrice t

lemma unlist : f (MarketCancelOrderActuator.unlist s order id) = f s := by
  unfold MarketCancelOrderActuator.unlist; dsimp only
  split
  · refine (hq.columns _ _ rfl : f (WorldState.removeAccountOrder _ _ _) = _).trans ?_
    refine (hq.removePrice _ _ _).trans ?_; exact hq.columns _ _ rfl
  · exact hq.columns _ _ rfl

lemma createRecipient (dst : Address) (fee : Int64) : Frame f (createRecipient dst fee) :=
  .get_bind fun _ => .ite (.pure _) (.modify_bind (fun _ => hq.columns _ _ rfl) fun _ => .pure _)

lemma finish (hks : .burnTrxAmount ∈ ks) (c : MarketSellAssetContract) (owner : Address) (id : OrderId) (fee : Int64)
    (t : Taking) : Frame f (MarketSellAssetActuator.finish c owner id fee t) := by
  refine .ite (.modify_bind (fun _ => hq.addOrderToBook _ _ _ _) fun _ => ?_)
    (.modify_bind (fun _ => hq.columns _ _ rfl) fun _ => ?_) <;>
  exact .bind (hq.putOrder _) fun _ => .modify_bind (fun _ => hq.columns _ _ rfl) fun _ =>
    .ite (.modify_bind (fun s => hq.counter s _ hks _) fun _ => .pure _) (.pure _)

end Quiet

/-! ## Every contract type -/

/-- The types that write contracts: the virtual machine and the edits of a contract's record. -/
def ContractType.writesContracts : ContractType → Bool
  | triggerSmartContract | createSmartContract | clearAbi | updateSetting | updateEnergyLimit => true
  | _ => false

/-- The counters that executing a system contract adds to. -/
def ContractType.counters : ContractType → List Property
  | transfer | transferAsset | accountCreate | witnessCreate | marketCancelOrder => [.burnTrxAmount]
  | freezeBalance | unfreezeBalance | freezeBalanceV2 | unfreezeBalanceV2 | cancelAllUnfreezeV2 => weightCounters
  | proposalCreate => [.latestProposalNum]
  | exchangeCreate => [.burnTrxAmount, .latestExchangeNum]
  | assetIssue => [.burnTrxAmount, .tokenIdNum]
  | marketSellAsset => [.burnTrxAmount, .marketOrderNum]
  | _ => []

/-- **A system contract writes its columns and its counters.** -/
theorem Quiet.execute {γ : Type} {f : WorldState → γ}
    (hq : Quiet f ty.counters) (h : route pf ty = some a) (hty : ty.writesContracts = false) (c : Message ty) :
    Frame f (a.execute c) := by
  cases ty <;> cases h <;> cases hty
  all_goals change Frame f (_ >>= _)
  -- down the statements of the program; its writes and the programs it calls are left
  all_goals repeat' first
      | with_reducible exact Frame.pure _
      | with_reducible refine Frame.lift_bind fun _ => ?_
      | with_reducible refine Frame.get_bind fun _ => ?_
      | with_reducible refine Frame.orThrow_bind fun _ => ?_
      | with_reducible refine Frame.modify_bind (fun s => ?_) fun _ => ?_
      | with_reducible refine Frame.ite ?_ ?_
      | with_reducible refine Frame.bind ?_ fun _ => ?_
  all_goals first
    | exact hq.columns _ _ rfl
    | exact hq.counter _ _ (by decide) _
    | exact hq.counter _ _ (weightKey_mem _) _
    | exact hq.createRecipient _ _
    | exact hq.addWeight rfl _ _
    | exact hq.addRefrozen (by decide) _
    | exact hq.mergeExpiredLock _ _ _ _ _
    | exact hq.releaseReceiver _ _ _ _
    | exact hq.storeDelegation _ _ _ _ _
    | exact hq.addAccountOrder _ _ _
    | exact hq.putOrder _
    | exact hq.matchOrder _
    | exact hq.unlist _ _ _
    | exact hq.finish (by decide) _ _ _ _ _
    | exact Frame.get_bind fun _ => Frame.modify_bind (fun _ => hq.counter _ _ (by decide) _) fun _ => .pure _

variable (h : route pf ty = some a)
include h

/-- **No system contract writes contracts or the chain.** -/
theorem frame_system (hty : ty.writesContracts = false) (c : Message ty) : Frame WorldState.outside (a.execute c) :=
  (quiet_outside (by cases ty <;> decide)).execute h hty c

lemma frame_contracts (hty : ty.writesContracts = true) (c : Message ty) : Frame WorldState.chain (a.execute c) := by
  have hfee : ∀ owner fee, Frame WorldState.chain (chargeEnergyFee owner fee) := fun owner fee =>
    (frame_chargeEnergyFee owner fee).comp Outside.chain
  cases ty <;> cases h <;> cases hty
  case triggerSmartContract =>
    refine .lift_bind fun _ => .lift_bind fun _ => .get_bind fun _ => .lift_bind fun _ =>
      .ite (.modify_bind (fun _ => chain_flushWorld _ _) fun _ => ?_) ?_ <;>
    exact .bind (hfee _ _) fun _ => .pure _
  case createSmartContract =>
    exact .orThrow_bind fun _ => .lift_bind fun _ => .get_bind fun _ => .lift_bind fun _ =>
      .ite (.modify_bind (fun _ => chain_flushWorld _ _) fun _ => .bind (hfee _ _) fun _ => .pure _)
        (.bind (hfee _ _) fun _ => .throw _)
  case clearAbi | updateSetting | updateEnergyLimit => exact frame_editContract _ _ _

/-- **No actuator writes the chain.** -/
theorem frame_execute (c : Message ty) : Frame WorldState.chain (a.execute c) := by
  cases hty : ty.writesContracts with
  | false => exact (frame_system h hty c).comp Outside.chain
  | true => exact frame_contracts h hty c

lemma frame_run (c : Message ty) : Frame WorldState.chain (a.run c) :=
  .get_bind fun _ => .lift_bind fun _ => frame_execute h c

omit h

/-- Whatever becomes of a transaction, the chain stays as it was. -/
lemma frame_applyTransaction (pf : Platform) (tx : Transaction) : Frame WorldState.chain (applyTransaction pf tx) := by
  refine .orThrow_bind fun _ => .orThrow_bind fun contract => ?_
  unfold applyContract
  split
  · rename_i a ha
    exact .lift_bind fun c => frame_run ha c
  · exact .throw _

end TronRs

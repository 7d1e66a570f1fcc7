import TronRs.L3Actuators.Market.OrderBook

/-!
# Cancelling a market order

`crates/actuators/src/market/cancel.rs`. The owner pays a fee and gets back what the order
has not sold; the order leaves the book. Nothing can fail once the account is stored.
-/
namespace TronRs

open TronRs.Core

namespace MarketCancelOrderActuator

/-- Mirrors actuators/market/cancel.rs:45. -/
def fee (s : WorldState) : Int64 := max (s.getProp .marketCancelFee) 0

/-- Mirrors actuators/market/cancel.rs:30. -/
def orderId (b : Bytes) : Check OrderId := orThrow (H256.ofSlice b) (invalid "orderId not exists")

/-- Mirrors actuators/market/cancel.rs:49. -/
def validate (c : MarketCancelOrderContract) (s : WorldState) : Check Int64 := do
  requireFeature s .allowMarketTransaction
    "Not support Market Transaction, need to be opened by the committee"
  let owner ← parseAddress c.ownerAddress "Invalid address"
  let account ← orThrow (s.getAccount owner) (invalid "Account does not exist!")
  let id ← orderId c.orderId
  let order ← orThrow (s.getOrder id) (invalid "orderId not exists")
  ensure (order.state = orderActive) (invalid "Order is not active!")
  ensure (order.ownerAddress = owner.asBytes) (invalid "Order does not belong to the account!")
  let fee := fee s
  ensure (fee ≤ account.balance) (invalid "No enough balance !")
  pure fee

/-- The order after it has been cancelled: everything unsold is returned. -/
def cancelled (order : MarketOrder) : MarketOrder :=
  { order with
    sellTokenQuantityReturn := order.sellTokenQuantityReturn + order.sellTokenQuantityRemain
    sellTokenQuantityRemain := 0
    state := orderCanceled }

/-- Takes an order out of the book and out of its owner's list. -/
def unlist (s : WorldState) (order : MarketOrder) (id : OrderId) : WorldState :=
  let pair := pairKey order.sellTokenId order.buyTokenId
  let price : Price := (order.sellTokenQuantity, order.buyTokenQuantity)
  let ids := (s.getOrderIds pair price).filter (· ≠ id)
  let s := s.putOrderIds pair price ids
  let s := if ids = [] then s.removePrice pair price else s
  s.removeAccountOrder order.ownerAddress id

/-- Mirrors actuators/market/cancel.rs:81. -/
def execute (c : MarketCancelOrderContract) : Act ExecutionResult := do
  let owner ← lift (parseAddress c.ownerAddress "Invalid address")
  let fee := fee (← get)
  let id ← lift (orderId c.orderId)
  let order ← orThrow ((← get).getOrder id) (failed "orderId not exists")
  let account ← orThrow ((← get).getAccount owner) (failed "owner account missing")
  let balance ← orThrow (debit account.balance fee) (failed "balance is not sufficient")
  let account ← lift (creditToken { account with balance } order.sellTokenId order.sellTokenQuantityRemain)
  modify (·.putAccount owner account)
  putOrder (cancelled order)
  if 0 < fee then modify (·.burnTrx fee)
  modify (unlist · order id)
  pure ⟨fee⟩

lemma atomic (c : MarketCancelOrderContract) (s : WorldState) : Atomic (execute c) s := by
  apply atomic_of_wp; simp [execute, putOrder, wp_ite]

/-- The owner has room for what is returned, once the fee is paid, and the order carries an id. -/
def ReturnFits (c : MarketCancelOrderContract) (s : WorldState) : Prop :=
  AtAccount s c.ownerAddress fun x => ∀ id, H256.ofSlice c.orderId = some id →
    ∀ order, s.getOrder id = some order → order.orderId.length = 32 ∧
      Int64.Fits (holding x (.ofId order.sellTokenId) - (if isTrx order.sellTokenId then (fee s).toInt else 0) +
        order.sellTokenQuantityRemain.toInt)

lemma executes_iff {c : MarketCancelOrderContract} {s : WorldState} {v : Int64} (hv : validate c s = .ok v) :
    (∃ t, execute c s = .ok ⟨v⟩ t) ↔ ReturnFits c s := by
  simp only [validate, check_rules, parseAddress_eq_ok, orderId] at hv
  obtain ⟨-, -, owner, ho, x, hx, id, hid, order, horder, -, -, -, -, -, hle, rfl⟩ := hv
  obtain ⟨balance, hb⟩ := exists_debit_of_le (a := fee s) (Int64.toInt_max_zero _)
    (le_iff_toInt_le.mp hle)
  have hhold : holding { x with balance } (.ofId order.sellTokenId) =
      holding x (.ofId order.sellTokenId) - if isTrx order.sellTokenId then (fee s).toInt else 0 := by
    rw [holding_withBalance, Asset.ofId]
    split
    · rw [if_pos rfl, (debit_eq_some.mp hb).1]; rfl
    · rw [if_neg (by simp), Int.sub_zero]
  rw [exists_ok_iff, ReturnFits, atAccount_iff ho hx]
  simp [execute, parseAddress_ok ho, orderId, hid, horder, hx, hb, returns_putOrder, cancelled, ← hhold,
    ← exists_creditToken, H256.exists_ofSlice, and_comm]

end MarketCancelOrderActuator

def marketCancelOrderActuator : Actuator MarketCancelOrderContract :=
  ⟨MarketCancelOrderActuator.validate, MarketCancelOrderActuator.execute⟩

end TronRs

import TronRs.L3Actuators.Market.Index

/-!
# The book stays uncrossed

Two active orders cross when each sells what the other buys and their prices match. Matching
leaves no such pair as long as every open order can be found through the price list
(`Indexed`): what is left of a new order matches no listed price.

* `apart_sell`, `apart_cancel`: what one accepted operation keeps.
* `book_stays_uncrossed`: no run from an empty book leads to two orders that cross, as long as no
  operation meets a second price of its ratio.
* `hidden_order_is_crossed`: an order whose price is not listed is passed over.
-/
namespace TronRs

open TronRs.Core

variable {s t : WorldState} {op : MarketOp} {res : ExecutionResult}

/-- The order is active and still offers something. -/
def MarketOrder.Live (o : MarketOrder) : Prop := o.state = orderActive ∧ 0 < o.sellTokenQuantityRemain

instance (o : MarketOrder) : Decidable o.Live := inferInstanceAs (Decidable (_ ∧ _))

lemma MarketOrder.Live.open {o : MarketOrder} (h : o.Live) : o.Open := by
  intro hzero; have hpos := h.2; rw [hzero] at hpos
  exact absurd hpos (by decide)

/-- Two active orders of opposite pairs whose prices match. -/
@[mk_iff] structure Crossing (o₁ o₂ : MarketOrder) : Prop where
  live₁ : o₁.Live
  live₂ : o₂.Live
  sellToken : o₂.sellTokenId = o₁.buyTokenId
  buyToken : o₂.buyTokenId = o₁.sellTokenId
  prices : priceMatch o₁.sellTokenQuantity o₁.buyTokenQuantity o₂.sellTokenQuantity o₂.buyTokenQuantity = true

instance (o₁ o₂ : MarketOrder) : Decidable (Crossing o₁ o₂) := decidable_of_iff _ (crossing_iff o₁ o₂).symm

/-- No two stored orders cross. -/
def Uncrossed (s : WorldState) : Prop :=
  ∀ id₁ o₁ id₂ o₂, s.getOrder id₁ = some o₁ → s.getOrder id₂ = some o₂ → ¬ Crossing o₁ o₂

/-- No price listed for a pair of tokens matches one listed for the opposite pair. -/
def Apart (s : WorldState) : Prop :=
  ∀ sell buy, validToken sell = true → validToken buy = true →
    ∀ p ∈ s.getPrices (pairKey sell buy), ∀ q ∈ s.getPrices (pairKey buy sell), priceMatch p.1 p.2 q.1 q.2 = false

lemma Apart.mono (h : Apart s) (hsub : ∀ pair p, p ∈ t.getPrices pair → p ∈ s.getPrices pair) : Apart t :=
  fun sell buy hsell hbuy p hp q hq => h sell buy hsell hbuy p (hsub _ p hp) q (hsub _ q hq)

/-- Every open order is behind a listed price, so prices that are apart are enough. -/
lemma Apart.uncrossed (h : Apart s) (hs : Indexed none none s.book) : Uncrossed s := by
  intro id₁ o₁ id₂ o₂ ho₁ ho₂ hx; have htrade := hs.orders id₁ o₁ ho₁
  have hp₁ := hs.price_mem ho₁ hx.live₁.open
  have hp₂ := hs.price_mem ho₂ hx.live₂.open; rw [MarketOrder.pair, hx.sellToken, hx.buyToken] at hp₂
  have hfalse := h _ _ htrade.sellToken htrade.buyToken o₁.price hp₁ o₂.price hp₂
  exact Bool.false_ne_true (hfalse.symm.trans hx.prices)

/-- A price is listed that matches nothing on the other side. -/
lemma Apart.insert {sell buy : Bytes} (price : Price) (h : Apart s)
    (hsell : validToken sell = true) (hbuy : validToken buy = true) (hne : sell ≠ buy)
    (hmem : ∀ pair p, p ∈ t.getPrices pair → p ∈ s.getPrices pair ∨ pair = pairKey sell buy ∧ p = price)
    (hmatch : ∀ q ∈ s.getPrices (pairKey buy sell), priceMatch price.1 price.2 q.1 q.2 = false) : Apart t := by
  have hz : ∀ {x}, validToken x = true → (0 : UInt8) ∉ x := zero_not_mem_of_validToken
  intro x y hx hy p hp q hq
  rcases hmem _ p hp with hp | ⟨hpair, rfl⟩
  · rcases hmem _ q hq with hq | ⟨hpair, rfl⟩
    · exact h x y hx hy p hp q hq
    · obtain ⟨rfl, rfl⟩ := pairKey_injective (hz hy) (hz hsell) hpair
      exact priceMatch_comm (hmatch p hp)
  · obtain ⟨rfl, rfl⟩ := pairKey_injective (hz hx) (hz hsell) hpair
    rcases hmem _ q hq with hq | ⟨hpair', -⟩
    · exact hmatch q hq
    · exact absurd (pairKey_injective (hz hy) (hz hsell) hpair').1.symm hne

/-! ## One operation -/

namespace MarketSellAssetActuator

variable {c : MarketSellAssetContract} {s t : WorldState}

lemma getPrices_finished (c : MarketSellAssetContract) (owner : Address) (id : OrderId) (fee : Int64) (tk : Taking)
    (u : WorldState) (pair : Bytes) : (finished c owner id fee tk u).getPrices pair =
      if tk.order.Open ∧ pair = pairKey c.sellTokenId c.buyTokenId then
        listPrice (u.getPrices pair) (c.sellTokenQuantity, c.buyTokenQuantity) else u.getPrices pair := by
  have hbook := congrArg (fun b => Book.prices b pair) (book_finished c owner id fee tk u)
  refine hbook.trans ?_
  by_cases hopen : tk.order.sellTokenQuantityRemain ≠ 0
  · rw [if_pos hopen]; show Function.update u.getPrices _ _ pair = _; rw [Function.update_apply]
    by_cases hpair : pair = pairKey c.sellTokenId c.buyTokenId
    · rw [if_pos hpair, if_pos ⟨hopen, hpair⟩, hpair]; rfl
    · rw [if_neg hpair, if_neg fun h => hpair h.2]
  · rw [if_neg hopen, if_neg fun h => hopen h.1]; rfl

/-- **A sell crosses nothing.** -/
theorem apart_sell {v : Int64} (hs : Indexed none none s.book) (ha : Apart s)
    (hv : validate c s = .ok v) (hx : execute c s = .ok res t) (hl : Listable c s) : Apart t := by
  obtain ⟨owner, now, order, account, book, accounts, -, hm, rfl⟩ := sold hs hv hx hl.fresh
  obtain ⟨hsell, hbuy, hne, -, -⟩ := validate_ok hv
  have hsub : ∀ pair p, p ∈ book.getPrices pair → p ∈ s.getPrices pair := fun pair p hp => by
    rw [← getPrices_listed s owner]; exact hm.prices pair p hp
  have hbook : Apart (book.withAccounts accounts) := ha.mono hsub
  have hfin := getPrices_finished c owner (orderIdOf (s.getProp .marketOrderNum + 1)) (fee s) ⟨order, account⟩
    (book.withAccounts accounts)
  by_cases hopen : order.Open
  · refine hbook.insert (c.sellTokenQuantity, c.buyTokenQuantity) hsell hbuy hne (fun pair p hp => ?_)
      (hm.uncrossed hopen)
    rw [hfin] at hp
    split at hp
    · rename_i hcond; rw [hcond.2] at hp ⊢
      rcases (mem_listPrice (fun q hq => hl.ratio q (hsub _ q hq)) p).mp hp with hp | hp
      · exact .inl hp
      · exact .inr ⟨rfl, hp⟩
    · exact .inl hp
  · refine hbook.mono fun pair p hp => ?_
    rw [hfin, if_neg fun hcond => hopen hcond.1] at hp; exact hp

end MarketSellAssetActuator

namespace MarketCancelOrderActuator

variable {c : MarketCancelOrderContract} {s t : WorldState}

lemma mem_getPrices_closed {owner : Address} {account : Account} {id key : OrderId} {order : MarketOrder}
    {pair : Bytes} {p : Price} (hp : p ∈ (closed s owner account id key order).getPrices pair) :
    p ∈ s.getPrices pair := by
  have hmem : p ∈ (closed s owner account id key order).book.prices pair := hp
  rw [closed, book_unlist, WorldState.book_burnFee] at hmem; exact Book.mem_prices_prune _ hmem

/-- **A cancellation crosses nothing**: it lists no price. -/
theorem apart_cancel (ha : Apart s) (hx : execute c s = .ok res t) : Apart t := by
  refine ok_elim hx (wp_execute ?_); intro owner id key order account balance account' _ _ _ _ _ _
  exact ha.mono fun pair p hp => mem_getPrices_closed hp

end MarketCancelOrderActuator

/-! ## Runs -/

/-- No order is stored and no record leads to one. -/
structure NoOrders (s : WorldState) : Prop where
  orders : s.marketOrder = ∅
  queues : s.marketPairPrice = ∅
  prices : s.marketPair = ∅
  owned : s.marketAccountOrder = ∅
  pairs : s.marketPairs = none

/-- Accepted operations, one after the other, from a book without orders. -/
def orderBook : Lts WorldState MarketOp := ⟨NoOrders, market.step⟩

/-- The condition on one operation, in the state before it: the price list has no other price of
the ratio of the order that is sold or cancelled, and a new order gets a new number. -/
def MarketOp.Listable (s : WorldState) : MarketOp → Prop
  | .sell c => MarketSellAssetActuator.Listable c s
  | .cancel c => MarketCancelOrderActuator.Listable c s

lemma NoOrders.indexed (h : NoOrders s) : Indexed none none s.book := by
  have horder : ∀ id, s.book.order id = none := fun id => by
    show s.marketOrder.get id = none; rw [h.orders, get_empty]
  have hqueue : ∀ pair price, s.book.queue pair price = [] := fun pair price => by
    show (s.marketPairPrice.get _).getD [] = []; rw [h.queues, get_empty]; rfl
  have hprices : ∀ pair, s.book.prices pair = [] := fun pair => by
    show (s.marketPair.get _).getD [] = []; rw [h.prices, get_empty]; rfl
  have howned : ∀ owner, s.book.owned owner = [] := fun owner => by
    show (s.marketAccountOrder.get _).getD [] = []; rw [h.owned, get_empty]; rfl
  refine ⟨?_, ?_, ?_, ?_, ?_, ?_, ?_, nofun⟩ <;> simp [horder, hqueue, hprices, howned]

lemma NoOrders.apart (h : NoOrders s) : Apart s := by
  intro sell buy _ _ p hp; rw [WorldState.getPrices, h.prices, get_empty] at hp; cases hp

lemma indexed_step (hs : Indexed none none s.book)
    (h : (orderBook.guard MarketOp.Listable).step s op t) : Indexed none none t.book := by
  obtain ⟨hl, res, hrun⟩ := h
  cases op with
  | sell =>
    obtain ⟨⟨v, hv⟩, hx⟩ := Actuator.run_ok hrun; exact MarketSellAssetActuator.indexed_sell hs hv hx hl
  | cancel => exact MarketCancelOrderActuator.indexed_cancel hs (Actuator.run_ok hrun).2 hl

lemma apart_step (hs : Indexed none none s.book) (ha : Apart s)
    (h : (orderBook.guard MarketOp.Listable).step s op t) : Apart t := by
  obtain ⟨hl, res, hrun⟩ := h
  cases op with
  | sell =>
    obtain ⟨⟨v, hv⟩, hx⟩ := Actuator.run_ok hrun
    exact MarketSellAssetActuator.apart_sell hs ha hv hx hl
  | cancel => exact MarketCancelOrderActuator.apart_cancel ha (Actuator.run_ok hrun).2

/-- **The book stays uncrossed.** After every run of accepted operations from a book without
orders in which no order that is sold or cancelled meets another price of its ratio in the
list of its pair, no two active orders cross. -/
theorem book_stays_uncrossed {s t : WorldState} {ops : List MarketOp} (h0 : orderBook.init s)
    (hrun : (orderBook.guard MarketOp.Listable).Run s ops t) : Uncrossed t := by
  have hstep : ∀ u op v, Indexed none none u.book ∧ Apart u → (orderBook.guard MarketOp.Listable).step u op v →
      Indexed none none v.book ∧ Apart v :=
    fun u op v hu hv => ⟨indexed_step hu.1 hv, apart_step hu.1 hu.2 hv⟩
  obtain ⟨hindexed, hapart⟩ := hrun.preserves hstep ⟨NoOrders.indexed h0, NoOrders.apart h0⟩
  exact hapart.uncrossed hindexed

/-! ## Runs on fixed inputs -/

instance (c : MarketCancelOrderContract) (s : WorldState) : Decidable (MarketCancelOrderActuator.Listable c s) :=
  match hid : MarketCancelOrderActuator.orderId c.orderId with
  | .error _ => isTrue fun id o h => by rw [hid] at h; cases h
  | .ok id => decidable_of_iff (∀ o ∈ s.getOrder id, ∀ p ∈ s.getPrices o.pair, cmpMakerPrice p o.price = .eq →
      p = o.price)
      ⟨fun hall id' o h ho => by cases hid.symm.trans h; exact hall o ho, fun hall o ho => hall id o hid ho⟩

instance (s : WorldState) (op : MarketOp) : Decidable (op.Listable s) :=
  match op with
  | .sell c => inferInstanceAs (Decidable (MarketSellAssetActuator.Listable c s))
  | .cancel c => inferInstanceAs (Decidable (MarketCancelOrderActuator.Listable c s))

def MarketOp.nextListable (s : WorldState) (op : MarketOp) : Option WorldState :=
  if op.Listable s then op.next s else none

lemma MarketOp.step_of_nextListable (h : op.nextListable s = some t) :
    (orderBook.guard MarketOp.Listable).step s op t := by
  unfold MarketOp.nextListable at h
  split at h
  · rename_i hs; exact ⟨hs, MarketOp.step_of_next h⟩
  · cases h

/-- The `n`-th order is cancelled. -/
def cancelOrder (owner : Address) (n : Int64) : MarketOp :=
  .cancel ⟨owner.asBytes, (MarketSellAssetActuator.orderIdOf n).bytes⟩

lemma noOrders_traders : NoOrders traders := ⟨rfl, rfl, rfl, rfl, rfl⟩

/-- A sale at one TRX for each token and an offer of half a TRX rest side by side. -/
theorem book_stays_uncrossed_two_sides : ∃ ops t, (orderBook.guard MarketOp.Listable).Run traders ops t ∧
    (t.getOrder (MarketSellAssetActuator.orderIdOf 3)).isSome ∧ Uncrossed t := by
  have h : (Lts.exec (fun s op => MarketOp.nextListable s op) traders
      [sellToken1 (Address.ofNat 0xaa) 10 10, sellToken1 (Address.ofNat 0xaa) 10 20,
        buyToken1 (Address.ofNat 0xbb) 10 20, cancelOrder (Address.ofNat 0xaa) 1]).map
          (fun t => (t.getOrder (MarketSellAssetActuator.orderIdOf 3)).isSome) = some true := by decide +kernel
  obtain ⟨t, hrun, ht⟩ := Lts.Run.exists_of_exec (fun s op t => MarketOp.step_of_nextListable) h
  exact ⟨_, t, hrun, ht, book_stays_uncrossed noOrders_traders hrun⟩

/-- Two sales of token 1 at two TRX each, one of a single token and one of two. Cancelling the
first takes the price of both off the list, and an offer at the same price finds no order. -/
theorem hidden_order_is_crossed : ∃ s ops t, orderBook.init s ∧ orderBook.Run s ops t ∧ ¬ Uncrossed t := by
  have h : (Lts.exec (fun s op => MarketOp.next s op) traders
      [sellToken1 (Address.ofNat 0xaa) 1 2, sellToken1 (Address.ofNat 0xaa) 2 4,
        cancelOrder (Address.ofNat 0xaa) 1, buyToken1 (Address.ofNat 0xbb) 4 2]).map
          (fun t => (t.getOrder (MarketSellAssetActuator.orderIdOf 2)).bind fun o₁ =>
            (t.getOrder (MarketSellAssetActuator.orderIdOf 3)).map fun o₂ => decide (Crossing o₁ o₂)) =
      some (some true) := by decide +kernel
  obtain ⟨t, hrun, ht⟩ := Lts.Run.exists_of_exec (M := orderBook) (fun s op t => MarketOp.step_of_next) h
  refine ⟨traders, _, t, noOrders_traders, hrun, fun hun => ?_⟩
  obtain ⟨o₁, ho₁, ht⟩ := Option.bind_eq_some_iff.mp ht
  obtain ⟨o₂, ho₂, hx⟩ := Option.map_eq_some_iff.mp ht
  exact hun _ o₁ _ o₂ ho₁ ho₂ (of_decide_eq_true hx)

end TronRs

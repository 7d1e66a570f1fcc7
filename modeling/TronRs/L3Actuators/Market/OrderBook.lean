import TronRs.L3Actuators.Token

/-!
# Prices and the order book

`crates/actuators/src/market/price.rs` and `order_book.rs`. For every pair (sold token,
bought token) the book keeps a sorted list of prices and, for every price, the ids of the
resting orders in the order they came. Two secondary indices list the orders of an account
and the pairs that have a book; no account balance is touched here.
-/
namespace TronRs

open TronRs.Core

/-! ## Prices -/

/-- A maker's price: its sell and its buy quantity. -/
abbrev Price := Int64 × Int64

/-- Mirrors actuators/market/price.rs:12: the cross product in 128 bits. -/
def comparePrice (p1Sell p1Buy p2Sell p2Buy : Int64) : Ordering :=
  compare (p1Buy.toInt * p2Sell.toInt) (p2Buy.toInt * p1Sell.toInt)

/-- Mirrors actuators/market/price.rs:18. -/
def cmpMakerPrice (a b : Price) : Ordering := comparePrice a.1 a.2 b.1 b.2

/-- Mirrors actuators/market/price.rs:25. -/
def priceMatch (takerSell takerBuy makerSell makerBuy : Int64) : Bool :=
  comparePrice takerBuy takerSell makerSell makerBuy ≠ .lt

/-- `((a as i128 * b as i128) / c as i128) as i64`; a zero divisor panics. Mirrors
actuators/src/market/price.rs:30. -/
def multiplyAndDivide (a b c : Int64) : Check Int64 := do
  ensure (c ≠ 0) Fault.panic
  pure (Int64.ofInt ((a.toInt * b.toInt).tdiv c.toInt))

lemma cmpMakerPrice_self (p : Price) : cmpMakerPrice p p = .eq := by
  simp [cmpMakerPrice, comparePrice]

/-! ## The book -/

/-- Mirrors actuators/market/order_book.rs:38. -/
def pairKey (sell buy : Bytes) : Bytes := sell ++ [0] ++ buy

namespace WorldState
variable (s : WorldState) (pair : Bytes) (price : Price) (pair' : Bytes) (id : OrderId)

def getOrder (id : OrderId) : Option MarketOrder := s.marketOrder.get id

def getPrices (pair : Bytes) : List Price := (s.marketPair.get pair).getD []

/-- An empty list is not stored. -/
def putPrices (pair : Bytes) (prices : List Price) : WorldState :=
  { s with marketPair := if prices = [] then s.marketPair.delete pair else s.marketPair.put pair prices }

/-- Mirrors actuators/market/order_book.rs:113; the list is sorted, so the binary search
finds the end of the better prices. -/
def insertPrice (pair : Bytes) (price : Price) : WorldState :=
  let prices := s.getPrices pair
  if prices.any fun p => cmpMakerPrice p price = .eq then s
  else
    let better := fun p => cmpMakerPrice p price = Ordering.lt
    s.putPrices pair (prices.takeWhile better ++ price :: prices.dropWhile better)

def bestPrice (pair : Bytes) : Option Price := (s.getPrices pair).head?

def getOrderIds (pair : Bytes) (price : Price) : List OrderId :=
  (s.marketPairPrice.get (pair, price.1, price.2)).getD []

def putOrderIds (pair : Bytes) (price : Price) (ids : List OrderId) : WorldState :=
  { s with marketPairPrice :=
      if ids = [] then s.marketPairPrice.delete (pair, price.1, price.2)
      else s.marketPairPrice.put (pair, price.1, price.2) ids }

/-! ### The index of an account's orders -/

def getAccountOrders (owner : Bytes) : List OrderId := (s.marketAccountOrder.get owner).getD []

def putAccountOrders (owner : Bytes) (ids : List OrderId) : WorldState :=
  { s with marketAccountOrder :=
      if ids = [] then s.marketAccountOrder.delete owner else s.marketAccountOrder.put owner ids }

/-- Mirrors actuators/market/order_book.rs:234. -/
def addAccountOrder (owner : Bytes) (id : OrderId) : WorldState :=
  let ids := s.getAccountOrders owner
  if id ∈ ids then s else s.putAccountOrders owner (ids ++ [id])

/-- Mirrors actuators/market/order_book.rs:248. -/
def removeAccountOrder (owner : Bytes) (id : OrderId) : WorldState :=
  s.putAccountOrders owner ((s.getAccountOrders owner).filter (· ≠ id))

/-! ### The index of pairs -/

/-- The loop of `get_pairs`: each pair after its 16-bit length, until the bytes run out. -/
def readPairs : Nat → Bytes → List Bytes
  | 0, _ => []
  | fuel + 1, b =>
    match b with
    | hi :: lo :: rest =>
      let len := hi.toNat * 256 + lo.toNat
      if rest.length < len then [] else rest.take len :: readPairs fuel (rest.drop len)
    | _ => []

/-- Mirrors actuators/market/order_book.rs:264. -/
def getPairs : List Bytes :=
  let bytes := s.marketPairs.getD []
  readPairs bytes.length bytes

/-- Mirrors actuators/market/order_book.rs:280; the length is cut to 16 bits. -/
def putPairs (pairs : List Bytes) : WorldState :=
  { s with marketPairs :=
      if pairs = [] then none else some (pairs.flatMap fun p => Bytes.be 2 p.length ++ p) }

/-- Mirrors actuators/market/order_book.rs:293. -/
def addPair (pair : Bytes) : WorldState :=
  if pair ∈ s.getPairs then s else s.putPairs (s.getPairs ++ [pair])

/-- Mirrors actuators/market/order_book.rs:303. -/
def removePair (pair : Bytes) : WorldState := s.putPairs (s.getPairs.filter (· ≠ pair))

/-! ### Resting orders -/

/-- Mirrors actuators/market/order_book.rs:129. -/
def removePrice (pair : Bytes) (price : Price) : WorldState :=
  let prices := (s.getPrices pair).filter fun p => cmpMakerPrice p price ≠ .eq
  let s := s.putPrices pair prices
  if prices = [] then s.removePair pair else s

/-- Mirrors actuators/market/order_book.rs:188. -/
def addOrderToBook (pair : Bytes) (price : Price) (id : OrderId) : WorldState :=
  ((s.putOrderIds pair price (s.getOrderIds pair price ++ [id])).insertPrice pair price).addPair pair

lemma getOrderIds_putOrderIds (price price' : Price) (ids : List OrderId) :
    (s.putOrderIds pair price ids).getOrderIds pair' price' =
      if pair' = pair ∧ price' = price then ids else s.getOrderIds pair' price' := by
  have hkey : (pair', price'.1, price'.2) = (pair, price.1, price.2) ↔ pair' = pair ∧ price' = price := by
    simp only [Prod.ext_iff]
  unfold getOrderIds putOrderIds; dsimp only
  split
  · rename_i hids; rw [get_delete, hids]; simp only [hkey]
    split <;> rfl
  · rw [get_put]; simp only [hkey]; split <;> rfl

lemma getPrices_putPrices (prices : List Price) :
    (s.putPrices pair prices).getPrices pair' = if pair' = pair then prices else s.getPrices pair' := by
  unfold getPrices putPrices; dsimp only
  split
  · rename_i hnil; rw [get_delete, hnil]; split <;> rfl
  · rw [get_put]; split <;> rfl

lemma getPrices_removePrice (price : Price) : (s.removePrice pair price).getPrices pair' =
      if pair' = pair then (s.getPrices pair).filter fun p => cmpMakerPrice p price ≠ .eq else s.getPrices pair' := by
  have hpair : (s.removePrice pair price).getPrices pair' =
      (s.putPrices pair ((s.getPrices pair).filter fun p => cmpMakerPrice p price ≠ .eq)).getPrices pair' := by
    unfold removePrice; dsimp only; split <;> rfl
  rw [hpair, getPrices_putPrices]

variable {s} in
lemma mem_getPrices_removePrice {pair pair' : Bytes} {price price' : Price}
    (h : price' ∈ (s.removePrice pair price).getPrices pair') : price' ∈ s.getPrices pair' := by
  rw [getPrices_removePrice] at h
  split at h
  · rename_i heq; rw [heq]; exact List.mem_of_mem_filter h
  · exact h

/-- Only the prices and the index of pairs change. -/
lemma removePrice_eq : ∃ prices pairs,
    s.removePrice pair price = { s with marketPair := prices, marketPairs := pairs } := by
  unfold removePrice; dsimp only; split <;> exact ⟨_, _, rfl⟩

lemma properties_removePrice : (s.removePrice pair price).properties = s.properties := by
  obtain ⟨_, _, h⟩ := s.removePrice_eq pair price
  rw [h]

lemma marketOrder_removePrice : (s.removePrice pair price).marketOrder = s.marketOrder := by
  obtain ⟨_, _, h⟩ := s.removePrice_eq pair price
  rw [h]

lemma marketPairPrice_removePrice : (s.removePrice pair price).marketPairPrice = s.marketPairPrice := by
  obtain ⟨_, _, h⟩ := s.removePrice_eq pair price
  rw [h]

/-- A resting order goes to the end of its queue; the other indices are beside it. -/
lemma addOrderToBook_eq : ∃ prices pairs,
    s.addOrderToBook pair price id = { s.putOrderIds pair price (s.getOrderIds pair price ++ [id]) with
      marketPair := prices, marketPairs := pairs } := by
  unfold addOrderToBook addPair insertPrice; dsimp only; split <;> split <;> exact ⟨_, _, rfl⟩

lemma account_addOrderToBook : (s.addOrderToBook pair price id).account = s.account := by
  obtain ⟨_, _, h⟩ := s.addOrderToBook_eq pair price id
  rw [h]; rfl

lemma marketOrder_addOrderToBook : (s.addOrderToBook pair price id).marketOrder = s.marketOrder := by
  obtain ⟨_, _, h⟩ := s.addOrderToBook_eq pair price id
  rw [h]; rfl

lemma properties_addOrderToBook : (s.addOrderToBook pair price id).properties = s.properties := by
  obtain ⟨_, _, h⟩ := s.addOrderToBook_eq pair price id
  rw [h]; rfl

lemma getOrderIds_addOrderToBook (price price' : Price) (id : OrderId) :
    (s.addOrderToBook pair price id).getOrderIds pair' price' =
      if pair' = pair ∧ price' = price then s.getOrderIds pair price ++ [id] else s.getOrderIds pair' price' := by
  obtain ⟨_, _, h⟩ := s.addOrderToBook_eq pair price id
  rw [h]; exact s.getOrderIds_putOrderIds ..

end WorldState

/-- Mirrors actuators/market/order_book.rs:74: an order whose id is not 32 bytes panics. -/
def putOrder (order : MarketOrder) : Act Unit := do
  let id ← orThrow (H256.ofSlice order.orderId) Fault.panic
  modify fun s => { s with marketOrder := s.marketOrder.put id order }

lemma returns_putOrder {order : MarketOrder} {s : WorldState} {ok : Unit → WorldState → Prop} :
    Returns (putOrder order) s ok ↔ ∃ id, H256.ofSlice order.orderId = some id ∧
      ok () { s with marketOrder := s.marketOrder.put id order } := by
  simp [putOrder]

end TronRs

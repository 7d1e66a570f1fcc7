import TronRs.L3Actuators.Market.OrderBook

/-!
# Selling on the market

`crates/actuators/src/market/sell.rs`. A new order (the taker) is matched against the resting
orders of the opposite pair, best price first, oldest order first; what is left of it rests
in the book. The taker's account stays in memory while the makers' accounts are read from
and written to the store.

The fill loop counts down the fills that are still allowed, so it is structurally recursive.
The price loop runs on fuel: every round that goes on removes the best price, so the number
of prices is enough (`matchPrices_fuel`).
-/
namespace TronRs

open TronRs.Core

def defaultMarketQuantityLimit : Int64 := 1000000000000000
def maxMatchNum : Nat := 20

/-- The taker order and the taker's account while the order is matched. -/
structure Taking where
  order : MarketOrder
  account : Account

namespace MarketSellAssetActuator
variable {s : WorldState} {c : MarketSellAssetContract} {owner : Address} {t : Taking}

/-- Mirrors actuators/market/sell.rs:54. -/
def fee (s : WorldState) : Int64 := max (s.getProp .marketSellFee) 0

/-- Mirrors actuators/market/sell.rs:58. -/
def quantityLimit (s : WorldState) : Int64 :=
  if 0 < s.getProp .marketQuantityLimit then s.getProp .marketQuantityLimit
  else defaultMarketQuantityLimit

/-- The owner can pay for the order and the fee. -/
def checkFunds (c : MarketSellAssetContract) (account : Account) (fee : Int64) : Check Unit :=
  if isTrx c.sellTokenId then
    ensure (c.sellTokenQuantity + fee ≤ account.balance) (invalid "No enough balance !")
  else do
    ensure (fee ≤ account.balance) (invalid "No enough balance !")
    ensure (c.sellTokenQuantity ≤ tokenBalance account c.sellTokenId)
      (invalid "SellToken balance is not enough !")

/-- Mirrors actuators/market/sell.rs:63. -/
def validate (c : MarketSellAssetContract) (s : WorldState) : Check Int64 := do
  requireFeature s .allowMarketTransaction
    "Not support Market Transaction, need to be opened by the committee"
  let owner ← parseAddress c.ownerAddress "Invalid address"
  let account ← orThrow (s.getAccount owner) (invalid "Account does not exist!")
  ensure (validToken c.sellTokenId) (invalid "sellTokenId is not a valid number")
  ensure (validToken c.buyTokenId) (invalid "buyTokenId is not a valid number")
  ensure (c.sellTokenId ≠ c.buyTokenId) (invalid "cannot exchange same tokens")
  ensure (0 < c.sellTokenQuantity ∧ 0 < c.buyTokenQuantity)
    (invalid "token quantity must greater than zero")
  let limit := quantityLimit s
  ensure (c.sellTokenQuantity ≤ limit ∧ c.buyTokenQuantity ≤ limit)
    (invalid s!"token quantity must less than {limit}")
  let fee := fee s
  checkFunds c account fee
  pure fee

/-- The id of the `n`-th order: 24 zero bytes and the number. -/
def orderIdOf (n : Int64) : OrderId :=
  ⟨List.replicate 24 0 ++ numberBytes n, by
    rw [List.length_append, List.length_replicate, numberBytes, Bytes.length_be]⟩

/-- Mirrors actuators/market/sell.rs:173. -/
def allocateOrderId : Act OrderId := do
  let n := (← get).getProp .marketOrderNum + 1
  modify (·.putProp .marketOrderNum n)
  pure (orderIdOf n)

/-- Credits the owner of a resting order in the store. -/
def creditMaker (maker : MarketOrder) (token : Bytes) (amount : Int64) : Act Unit := do
  let owner ← lift (parseAddress maker.ownerAddress "Invalid address")
  let ma ← orThrow ((← get).getAccount owner) (failed "maker account missing")
  let ma ← lift (creditToken ma token amount)
  modify (·.putAccount owner ma)

/-- One fill; the flag says that the taker was closed with its remainder returned. Mirrors
actuators/src/market/sell.rs:243. -/
def matchSingle (t : Taking) (maker : MarketOrder) : Act (Bool × Taking × MarketOrder) := do
  let takerSellRemain := t.order.sellTokenQuantityRemain
  let makerSellRemain := maker.sellTokenQuantityRemain
  let takerBuyRemain ← lift
    (multiplyAndDivide takerSellRemain maker.sellTokenQuantity maker.buyTokenQuantity)
  if takerBuyRemain = 0 then
    let account ← lift (creditToken t.account t.order.sellTokenId takerSellRemain)
    pure (true, ⟨{ t.order with
      sellTokenQuantityReturn := takerSellRemain
      sellTokenQuantityRemain := 0
      state := orderInactive }, account⟩, maker)
  else if takerBuyRemain < makerSellRemain then
    -- the taker is filled completely
    let account ← lift (creditToken t.account t.order.buyTokenId takerBuyRemain)
    creditMaker maker maker.buyTokenId takerSellRemain
    pure (false, ⟨{ t.order with sellTokenQuantityRemain := 0 }, account⟩,
      { maker with sellTokenQuantityRemain := makerSellRemain - takerBuyRemain })
  else
    -- the maker is filled completely
    let makerBuyReceive ← lift
      (multiplyAndDivide makerSellRemain maker.buyTokenQuantity maker.sellTokenQuantity)
    if takerBuyRemain ≠ makerSellRemain ∧ makerBuyReceive = 0 then
      creditMaker maker maker.sellTokenId makerSellRemain
      pure (false, t, { maker with
        sellTokenQuantityReturn := makerSellRemain
        sellTokenQuantityRemain := 0
        state := orderInactive })
    else
      let account ← lift (creditToken t.account t.order.buyTokenId makerSellRemain)
      creditMaker maker maker.buyTokenId makerBuyReceive
      pure (false,
        ⟨{ t.order with sellTokenQuantityRemain := takerSellRemain - makerBuyReceive }, account⟩,
        { maker with sellTokenQuantityRemain := 0 })

/-- Stores a maker after a fill and says which ids are left at its price. -/
def settleMaker (id : OrderId) (rest : List OrderId) (maker : MarketOrder) : Act (List OrderId) := do
  if maker.sellTokenQuantityRemain = 0 then
    putOrder { maker with state := orderInactive }
    modify (·.removeAccountOrder maker.ownerAddress id)
    pure rest
  else
    putOrder maker
    pure (id :: rest)

/-- The fills at one price: the loop over `ids`, with `left` fills still allowed after the
next one. Returns whether the taker was closed, and what is left. -/
def matchIds : Nat → Taking → List OrderId → Act (Bool × Nat × Taking × List OrderId)
  | left, t, [] => pure (false, left, t, [])
  | left, t, id :: rest =>
    if t.order.sellTokenQuantityRemain = 0 then pure (false, left, t, id :: rest)
    else do
      let maker ← orThrow ((← get).getOrder id) (failed "maker order missing")
      let (stop, t, maker) ← matchSingle t maker
      let ids ← settleMaker id rest maker
      match left with
      | 0 => throw (invalid s!"Too many matches. MAX_MATCH_NUM = {maxMatchNum}")
      | left + 1 => if stop then pure (true, left, t, ids) else matchIds left t ids

/-- The loop over the prices of the opposite pair. -/
def matchPrices (makerPair : Bytes) : Nat → Nat → Taking → Act Taking
  | 0, _, t => pure t
  | fuel + 1, left, t =>
    if t.order.sellTokenQuantityRemain = 0 then pure t
    else do
      match (← get).bestPrice makerPair with
      | none => pure t
      | some best =>
        if priceMatch t.order.sellTokenQuantity t.order.buyTokenQuantity best.1 best.2 = false then pure t
        else
          let (stop, left, t, ids) ← matchIds left t ((← get).getOrderIds makerPair best)
          modify (·.putOrderIds makerPair best ids)
          if stop then pure t
          else if ids = [] then
            modify (·.removePrice makerPair best)
            matchPrices makerPair fuel left t
          else pure t

/-- Mirrors actuators/market/sell.rs:182. -/
def matchOrder (t : Taking) : Act Taking := do
  let makerPair := pairKey t.order.buyTokenId t.order.sellTokenId
  let s ← get
  matchPrices makerPair (s.getPrices makerPair).length maxMatchNum t

/-- The new order, before it is matched. -/
def newOrder (c : MarketSellAssetContract) (owner : Address) (id : OrderId) (now : Int64) : MarketOrder where
  orderId := id.bytes
  ownerAddress := owner.asBytes
  createTime := now
  sellTokenId := c.sellTokenId
  sellTokenQuantity := c.sellTokenQuantity
  buyTokenId := c.buyTokenId
  buyTokenQuantity := c.buyTokenQuantity
  sellTokenQuantityRemain := c.sellTokenQuantity
  sellTokenQuantityReturn := 0
  state := orderActive

/-- The end of `execute`: what is left of the order rests in the book, and the order, the
account and the fee are stored. -/
def finish (c : MarketSellAssetContract) (owner : Address) (id : OrderId) (fee : Int64) (t : Taking) :
    Act ExecutionResult := do
  if t.order.sellTokenQuantityRemain ≠ 0 then
    modify (·.addOrderToBook (pairKey c.sellTokenId c.buyTokenId)
      (c.sellTokenQuantity, c.buyTokenQuantity) id)
  else
    modify (·.removeAccountOrder owner.asBytes id)
  putOrder t.order
  modify (·.putAccount owner t.account)
  if 0 < fee then modify (·.burnTrx fee)
  pure ⟨fee⟩

/-- Mirrors actuators/market/sell.rs:112. -/
def execute (c : MarketSellAssetContract) : Act ExecutionResult := do
  let owner ← lift (parseAddress c.ownerAddress "Invalid address")
  let fee := fee (← get)
  let now := (← get).getProp .latestBlockHeaderTimestamp
  let account ← orThrow ((← get).getAccount owner) (failed "owner account missing")
  let balance ← orThrow (debit account.balance fee) (failed "balance is not sufficient")
  let account ← lift (debitToken { account with balance } c.sellTokenId c.sellTokenQuantity)
  let id ← allocateOrderId
  modify (·.addAccountOrder owner.asBytes id)
  let t ← matchOrder ⟨newOrder c owner id now, account⟩
  finish c owner id fee t

/-! ## What matching leaves alone -/

section Frames
variable {γ : Type} {f : WorldState → γ} (hacc : ∀ s a x, f (s.putAccount a x) = f s)
include hacc

lemma frame_creditMaker (maker : MarketOrder) (token : Bytes) (amount : Int64) :
    Frame f (creditMaker maker token amount) :=
  .bind (.lift _) fun _ => .bind .get fun _ => .bind (.orThrow _ _) fun _ =>
    .bind (.lift _) fun _ => .modify fun _ => hacc _ _ _

lemma frame_matchSingle (t : Taking) (maker : MarketOrder) : Frame f (matchSingle t maker) := by
  refine .bind (.lift _) fun buy => .ite (.bind (.lift _) fun _ => .pure _) (.ite ?_ ?_)
  · exact .bind (.lift _) fun _ => .bind (frame_creditMaker hacc _ _ _) fun _ => .pure _
  · refine .bind (.lift _) fun _ => .ite ?_ ?_
    · exact .bind (frame_creditMaker hacc _ _ _) fun _ => .pure _
    · exact .bind (.lift _) fun _ => .bind (frame_creditMaker hacc _ _ _) fun _ => .pure _

variable (hord : ∀ (s : WorldState) o, f { s with marketOrder := o } = f s)
variable (hidx : ∀ (s : WorldState) o, f { s with marketAccountOrder := o } = f s)
include hord hidx

omit hacc hidx in
lemma frame_putOrder (order : MarketOrder) : Frame f (putOrder order) :=
  .bind (.orThrow _ _) fun _ => .modify fun _ => hord _ _

omit hacc in
lemma frame_settleMaker (id : OrderId) (rest : List OrderId) (maker : MarketOrder) :
    Frame f (settleMaker id rest maker) := by
  refine .ite (.bind (frame_putOrder hord _) fun _ => .bind (.modify fun _ => ?_) fun _ => .pure _)
    (.bind (frame_putOrder hord _) fun _ => .pure _)
  exact hidx _ _

lemma frame_matchIds (left : Nat) : ∀ (t : Taking) (ids : List OrderId), Frame f (matchIds left t ids) := by
  induction left with
  | zero =>
    intro t ids
    cases ids with
    | nil => exact .pure _
    | cons =>
      refine .ite (.pure _) (.bind .get fun _ => .bind (.orThrow _ _) fun _ => ?_)
      refine .bind (frame_matchSingle hacc _ _) fun _ => .bind (frame_settleMaker hord hidx _ _ _) fun _ => ?_
      exact .throw _
  | succ left ih =>
    intro t ids
    cases ids with
    | nil => exact .pure _
    | cons =>
      refine .ite (.pure _) (.bind .get fun _ => .bind (.orThrow _ _) fun _ => ?_)
      refine .bind (frame_matchSingle hacc _ _) fun _ => .bind (frame_settleMaker hord hidx _ _ _) fun _ => ?_
      exact .ite (.pure _) (ih _ _)

variable (hqueue : ∀ (s : WorldState) pair price ids, f (s.putOrderIds pair price ids) = f s)
variable (hprice : ∀ (s : WorldState) pair price, f (s.removePrice pair price) = f s)
include hqueue hprice

lemma frame_matchPrices (makerPair : Bytes) (fuel : Nat) : ∀ (left : Nat) (t : Taking),
    Frame f (matchPrices makerPair fuel left t) := by
  induction fuel with
  | zero => intro left t; exact .pure _
  | succ fuel ih =>
    intro left t; refine .ite (.pure _) (.bind .get fun s => ?_)
    cases s.bestPrice makerPair with
    | none => exact .pure _
    | some =>
      refine .ite (.pure _) (.bind .get fun _ => .bind (frame_matchIds hacc hord hidx _ _ _) fun r => ?_)
      refine .bind (.modify fun _ => hqueue _ _ _ _) fun _ => .ite (.pure _) (.ite ?_ (.pure _))
      exact .bind (.modify fun _ => hprice _ _ _) fun _ => ih _ _

lemma frame_matchOrder (t : Taking) : Frame f (matchOrder t) :=
  .bind .get fun _ => frame_matchPrices hacc hord hidx hqueue hprice _ _ _ _

end Frames

/-- A round that goes on leaves fewer prices. -/
lemma length_getPrices_removePrice {pair : Bytes} {best : Price} (h : s.bestPrice pair = some best) :
    ((s.removePrice pair best).getPrices pair).length < (s.getPrices pair).length := by
  rw [WorldState.getPrices_removePrice, if_pos rfl]; unfold WorldState.bestPrice at h
  refine List.length_filter_lt_length_iff_exists.mpr ⟨best, List.mem_of_mem_head? h, ?_⟩
  simp [cmpMakerPrice_self]

/-- The number of prices is fuel enough: more of it changes nothing. -/
theorem matchPrices_fuel (makerPair : Bytes) (n : Nat) : ∀ (m left : Nat) (t : Taking) (s : WorldState),
    (s.getPrices makerPair).length ≤ n → n ≤ m →
    matchPrices makerPair m left t s = matchPrices makerPair n left t s := by
  induction n with
  | zero =>
    intro m left t s hlen _
    have hnone : s.bestPrice makerPair = none := by
      rw [WorldState.bestPrice, List.eq_nil_of_length_eq_zero (Nat.le_zero.mp hlen)]; rfl
    cases m with
    | zero => rfl
    | succ =>
      unfold matchPrices
      split
      · rfl
      · refine Eq.trans (bind_congr_at (g := fun _ => pure t) fun s0 s1 hs => ?_) rfl; cases hs
        rw [hnone]
  | succ n ih =>
    intro m left t s hlen hm
    obtain ⟨m, rfl⟩ : ∃ k, m = k + 1 := ⟨m - 1, by omega⟩
    unfold matchPrices
    split
    · rfl
    refine bind_congr_at fun s0 s1 hs => ?_
    cases hs
    cases hb : s.bestPrice makerPair with
    | none => rfl
    | some best =>
      dsimp only
      split
      · rfl
      refine bind_congr_at fun s0 s1 hs => ?_
      cases hs
      refine bind_congr_at fun r s1 hr => ?_
      have hpair : s1.marketPair = s.marketPair :=
        (frame_matchIds (fun _ _ _ => rfl) (fun _ _ => rfl)
          (fun _ _ => rfl) _ _ _).ok hr
      refine bind_congr_at fun _ s2 hs2 => ?_
      cases hs2
      split
      · rfl
      split
      · refine bind_congr_at fun _ s3 hs3 => ?_
        cases hs3; refine ih m _ _ _ ?_ (by omega)
        have hprices : ∀ pair, (s1.putOrderIds makerPair best r.2.2.2).getPrices pair =
            s.getPrices pair := fun pair => by
          unfold WorldState.getPrices; rw [← hpair]; rfl
        have hbest : (s1.putOrderIds makerPair best r.2.2.2).bestPrice makerPair = some best := by
          rw [WorldState.bestPrice, hprices, ← WorldState.bestPrice, hb]
        have hlt := length_getPrices_removePrice hbest
        rw [hprices] at hlt; exact Nat.le_of_lt_succ (Nat.lt_of_lt_of_le hlt hlen)
      · rfl

/-- A maker of TRX for token 1, with a part of it left. -/
def trxMaker (sell buy remain : Int64) : MarketOrder where
  ownerAddress := (Address.ofNat 0xbb).asBytes
  sellTokenId := trxSymbol
  sellTokenQuantity := sell
  buyTokenId := [0x31]
  buyTokenQuantity := buy
  sellTokenQuantityRemain := remain

/-- A taker that wants one unit of TRX. -/
def trxTaker (sell : Int64) : Taking where
  account := {}
  order :=
    { sellTokenId := [0x31], sellTokenQuantity := sell, buyTokenId := trxSymbol, buyTokenQuantity := 1,
      sellTokenQuantityRemain := sell }

/-- The maker's account. -/
def makerState : WorldState where
  account := Column.put ∅ (Address.ofNat 0xbb) {}

/-- Fifty units of TRX are left of a maker's hundred, at the only price of the pair. -/
def restingBook : WorldState :=
  let pair := pairKey trxSymbol [0x31]
  let order := { trxMaker 100 30 50 with orderId := (orderIdOf 1).bytes }
  ({ makerState with marketOrder := Column.put ∅ (orderIdOf 1) order }.putPrices pair [(100, 30)]).putOrderIds pair
    (100, 30) [orderIdOf 1]

/-- Fifteen of token 1 take the fifty units and the price with them: one round is enough for the one price. -/
theorem matchPrices_fuel_one : matchPrices (pairKey trxSymbol [0x31]) 5 maxMatchNum (trxTaker 15) restingBook =
      matchPrices (pairKey trxSymbol [0x31]) 1 maxMatchNum (trxTaker 15) restingBook ∧
    ∃ t u, matchPrices (pairKey trxSymbol [0x31]) 1 maxMatchNum (trxTaker 15) restingBook = .ok t u ∧
      t.order.sellTokenQuantityRemain = 0 ∧ t.account.balance = 50 ∧ u.getPrices (pairKey trxSymbol [0x31]) = [] := by
  refine ⟨matchPrices_fuel _ 1 5 maxMatchNum _ _ (by decide +kernel) (by decide), ?_⟩
  have hrun : (outcome (matchPrices (pairKey trxSymbol [0x31]) 1 maxMatchNum (trxTaker 15)) restingBook).toOption.map
      (fun r => (r.1.order.sellTokenQuantityRemain, r.1.account.balance, r.2.getPrices (pairKey trxSymbol [0x31]))) =
        some (0, 50, []) := by decide +kernel
  obtain ⟨t, u, hok, hres⟩ := exists_of_outcome hrun
  obtain ⟨hremain, hres⟩ := Prod.mk.inj hres
  exact ⟨t, u, hok, hremain, Prod.mk.inj hres⟩

/-- No dynamic property changes while an order is matched. -/
lemma properties_matchOrder (t : Taking) : Frame WorldState.properties (matchOrder t) :=
  frame_matchOrder (fun _ _ _ => rfl) (fun _ _ => rfl) (fun _ _ => rfl) (fun _ _ _ _ => rfl)
    (fun s pair price => s.properties_removePrice pair price) t

/-! ## Atomicity -/

/-- The state an order is matched in: its id is allocated and listed under its owner. -/
def listed (s : WorldState) (owner : Address) : WorldState :=
  (s.putProp .marketOrderNum (s.getProp .marketOrderNum + 1)).addAccountOrder owner.asBytes
    (orderIdOf (s.getProp .marketOrderNum + 1))

/-- The order and the account that are matched, once the fee and the sold tokens are taken. -/
def starts (c : MarketSellAssetContract) (s : WorldState) (owner : Address) (t : Taking) : Prop :=
  Address.ofBytes c.ownerAddress = some owner ∧
    ∃ account balance, s.getAccount owner = some account ∧ debit account.balance (fee s) = some balance ∧
      debitToken { account with balance } c.sellTokenId c.sellTokenQuantity = .ok t.account ∧
      t.order = newOrder c owner (orderIdOf (s.getProp .marketOrderNum + 1))
        (s.getProp .latestBlockHeaderTimestamp)

/-- Matching the order against the book reports no error. -/
def MatchSucceeds (c : MarketSellAssetContract) (s : WorldState) : Prop :=
  ∀ owner t, starts c s owner t → ∀ e u, matchOrder t (listed s owner) ≠ .error (.err e) u

lemma properties_addAccountOrder (s : WorldState) (owner : Bytes) (id : OrderId) :
    (s.addAccountOrder owner id).properties = s.properties := by
  unfold WorldState.addAccountOrder; dsimp only; split <;> rfl

lemma wp_finish {id : OrderId} {fee : Int64} : wp (finish c owner id fee t) s (fun _ _ => True)
      (fun e _ => e = .panic) := by
  by_cases hr : t.order.sellTokenQuantityRemain = 0 <;> by_cases hf : 0 < fee <;>
    simp [finish, putOrder, hr, hf]

/-- `execute` from a state in which the order starts: match it, then finish. -/
lemma wp_execute {ok : ExecutionResult → WorldState → Prop} {err : Fault → WorldState → Prop} (h : starts c s owner t) :
    wp (execute c) s ok err ↔ wp (matchOrder t) (listed s owner)
      (fun t' u => wp (finish c owner (orderIdOf (s.getProp .marketOrderNum + 1)) (fee s) t') u ok err) err := by
  obtain ⟨ho, account, balance, ha, hb, hd, ht⟩ := h
  obtain ⟨order, tacc⟩ := t; subst ht
  simp only [execute, allocateOrderId, wp_bind, wp_lift, wp_get, wp_orThrow, wp_modify, wp_pure,
    parseAddress_ok ho, ha, hb, hd, Except.ok.injEq, Option.some.injEq, forall_eq', reduceCtorEq,
    false_implies, implies_true, and_true, listed]

lemma starts_unique {owner' : Address}
    {t' : Taking} (h : starts c s owner t) (h' : starts c s owner' t') : owner' = owner ∧ t' = t := by
  obtain ⟨ho, a, b, ha, hb, hd, ht⟩ := h
  obtain ⟨ho', a', b', ha', hb', hd', ht'⟩ := h'
  cases ho.symm.trans ho'; cases ha.symm.trans ha'; cases hb.symm.trans hb'
  obtain ⟨order, acc⟩ := t
  obtain ⟨order', acc'⟩ := t'; dsimp only at hd ht hd' ht'; rw [hd] at hd'
  cases hd'; rw [ht, ht']; exact ⟨rfl, rfl⟩

/-- An order that is executed has started. -/
lemma exists_starts {t : WorldState} {res : ExecutionResult}
    (h : execute c s = .ok res t) : ∃ owner tk, starts c s owner tk := by
  by_contra hst
  apply ok_elim h
  simp only [execute, ok_rules, parseAddress_eq_ok]; intro owner ho account ha balance hb acc hd
  exact absurd ⟨owner, ⟨_, acc⟩, ho, account, balance, ha, hb, hd, rfl⟩ hst

lemma atomic_iff (c : MarketSellAssetContract) (s : WorldState) : Atomic (execute c) s ↔ MatchSucceeds c s := by
  by_cases hst : ∃ owner t, starts c s owner t
  · obtain ⟨owner, t, h⟩ := hst
    cases hm : matchOrder t (listed s owner) with
    | ok t' =>
      refine iff_of_true (atomic_of_wp ?_) fun o' t' hs e v => ?_
      · rw [wp_execute h]
        exact wp_of_ok hm (wp_mono wp_finish (fun _ _ _ => trivial) fun e _ he hne => absurd he hne)
      · obtain ⟨rfl, rfl⟩ := starts_unique h hs; rw [hm]; nofun
    | error e u =>
      cases e with
      | panic =>
        refine iff_of_true (atomic_of_wp ?_) fun o' t' hs e v => ?_
        · rw [wp_execute h]
          exact wp_of_error hm fun hne => absurd rfl hne
        · obtain ⟨rfl, rfl⟩ := starts_unique h hs; rw [hm]; nofun
      | err e =>
        -- the counter of order ids has moved, and matching does not touch it
        refine iff_of_false (not_atomic_of_wp ?_) fun hok => hok owner t h e u hm
        rw [wp_execute h]; refine wp_of_error hm ⟨Fault.err_ne_panic, fun hu => ?_⟩
        have hprop : u.properties = (listed s owner).properties := (properties_matchOrder t).error hm
        have hnum : u.getProp .marketOrderNum = s.getProp .marketOrderNum + 1 := by
          rw [WorldState.getProp, hprop, listed, properties_addAccountOrder]
          exact getProp_putProp_self ..
        rw [hu] at hnum; exact Int64.add_one_ne _ hnum.symm
  · -- nothing is written before the order starts
    refine iff_of_true (atomic_of_wp ?_) fun o t hs => absurd ⟨o, t, hs⟩ hst
    simp only [execute, wp_bind, wp_lift, wp_get, wp_orThrow, parseAddress_eq_ok]
    refine ⟨fun owner ho => ⟨fun account ha => ⟨fun balance hb => ⟨fun acc hd => ?_, ?_⟩, ?_⟩, ?_⟩, ?_⟩
    · exact absurd ⟨owner, ⟨_, acc⟩, ho, account, balance, ha, hb, hd, rfl⟩ hst
    · exact fun _ _ _ => trivial
    · exact fun _ _ => trivial
    · exact fun _ _ => trivial
    · exact fun _ _ _ => trivial

end MarketSellAssetActuator

def marketSellAssetActuator : Actuator MarketSellAssetContract :=
  ⟨MarketSellAssetActuator.validate, MarketSellAssetActuator.execute⟩

end TronRs

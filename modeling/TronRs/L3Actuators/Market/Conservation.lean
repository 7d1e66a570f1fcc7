import TronRs.Core.Lts
import TronRs.L3Actuators.Market.Cancel
import TronRs.L3Actuators.Market.Ledger

/-!
# Token conservation on the market

The market as a transition system: a step is an accepted order or cancellation. `supply a s`
is everything there is of a token: what accounts hold, what active orders offer and, for
TRX, what was burned.

* `sell_step`, `cancel_step`: what one accepted operation keeps.
* `market_conserves`: in every run whose steps are `Sound`, from an empty book, the supply of
  every token stays the same and nothing becomes negative.
* `self_trade_loses_trx`: an owner that trades against its own order loses the proceeds.
-/
namespace TronRs

open TronRs.Core
open WorldState (getAccount getProp getOrderIds getOrder)

variable {a : Asset} {s t : WorldState} {op : MarketOp} {acc : Account}

/-- What an order holds in escrow. -/
def escrow (a : Asset) (o : MarketOrder) : Int := if o.state = orderActive then offered a o else 0

/-- All there is of a token. -/
def supply (a : Asset) (s : WorldState) : Int :=
  Column.total (held a) s.account + Column.total (fun _ o => escrow a o) s.marketOrder +
    if a = .trx then (s.getProp .burnTrxAmount).toInt else 0

/-- The invariant of the book. -/
structure BookOk (s : WorldState) : Prop where
  orders : OrdersOk s
  queues : QueuesOk s

lemma escrow_eq_offered {o : MarketOrder} (h : Offers o) : escrow a o = offered a o := by
  unfold escrow
  split
  · rfl
  · rename_i hs; rw [offered, h.active hs, toInt_zero, ite_self]

lemma total_escrow (h : OrdersOk s) : Column.total (fun _ o => escrow a o) s.marketOrder = offeredTotal a s :=
  Column.total_congr fun id o ho => escrow_eq_offered (h id o ho).offers

/-- What an accepted operation keeps. -/
structure Conserves (s t : WorldState) : Prop where
  book : BookOk t
  supply : ∀ a, supply a t = supply a s
  holdings : ∀ a x, 0 ≤ Column.share (held a) s.account x → 0 ≤ Column.share (held a) t.account x

/-! ## Fees -/

lemma marketOrder_burnFee (s : WorldState) (fee : Int64) : (burnFee s fee).marketOrder = s.marketOrder := by
  unfold burnFee; split <;> rfl

lemma marketPairPrice_burnFee (s : WorldState) (fee : Int64) : (burnFee s fee).marketPairPrice = s.marketPairPrice := by
  unfold burnFee; split <;> rfl

lemma holding_withFee {fee balance : Int64} (h : debit acc.balance fee = some balance) (a : Asset) :
    holding { acc with balance } a = holding acc a - if a = .trx then fee.toInt else 0 := by
  have hd := (debit_eq_some.mp h).1
  cases a with
  | trx => exact hd
  | trc10 => exact (Int.sub_zero _).symm

lemma holding_withFee_nonneg {fee balance : Int64} (h : debit acc.balance fee = some balance)
    (hnn : 0 ≤ holding acc a) : 0 ≤ holding { acc with balance } a := by
  cases a with
  | trx => exact (debit_eq_some.mp h).2
  | trc10 => exact hnn

namespace MarketSellAssetActuator

variable {c : MarketSellAssetContract} {s t : WorldState} {owner : Address}
variable {v : Int64} {tk : Taking} {id : OrderId} {u : WorldState} {res : ExecutionResult}

lemma validate_ok (h : validate c s = .ok v) :
    validToken c.sellTokenId = true ∧ validToken c.buyTokenId = true ∧ c.sellTokenId ≠ c.buyTokenId ∧
      0 < c.sellTokenQuantity.toInt ∧ 0 < c.buyTokenQuantity.toInt := by
  simp only [validate, check_rules] at h
  obtain ⟨-, -, -, -, -, -, -, hs, -, hb, -, hne, -, ⟨hq1, hq2⟩, -⟩ := h
  rw [Int64.pos_iff] at hq1 hq2; exact ⟨hs, hb, hne, hq1, hq2⟩

lemma holding_starts (h : starts c s owner tk) (a : Asset) :
    holding tk.account a = Column.share (held a) s.account owner - (if a = .trx then (fee s).toInt else 0) -
      if a = .ofId c.sellTokenId then c.sellTokenQuantity.toInt else 0 := by
  obtain ⟨-, account, balance, ha, hb, hd, -⟩ := h
  have hshare : Column.share (held a) s.account owner = holding account a := by
    rw [getAccount] at ha; rw [Column.share, ha]; rfl
  rw [(debitToken_eq_ok hd).1 a, holding_withFee hb, hshare]

lemma holding_starts_nonneg (h : starts c s owner tk) {a : Asset}
    (hnn : 0 ≤ Column.share (held a) s.account owner) : 0 ≤ holding tk.account a := by
  obtain ⟨-, account, balance, ha, hb, hd, -⟩ := h
  rw [getAccount] at ha; rw [Column.share, ha] at hnn
  obtain ⟨heq, hsold⟩ := debitToken_eq_ok hd
  by_cases hx : a = .ofId c.sellTokenId
  · rw [hx]; exact hsold
  · rw [heq, if_neg hx, Int.sub_zero]; exact holding_withFee_nonneg hb hnn

/-! ## The end of a sell -/

/-- The state `finish` leaves. -/
def finished (c : MarketSellAssetContract) (owner : Address) (id : OrderId) (fee : Int64) (t : Taking)
    (s : WorldState) : WorldState :=
  let s := if t.order.sellTokenQuantityRemain ≠ 0 then
      s.addOrderToBook (pairKey c.sellTokenId c.buyTokenId) (c.sellTokenQuantity, c.buyTokenQuantity) id
    else s.removeAccountOrder owner.asBytes id
  let s := { s with marketOrder := s.marketOrder.put id t.order }
  burnFee (s.putAccount owner t.account) fee

lemma finish_ok {fee : Int64} (hid : tk.order.orderId = id.bytes) (h : finish c owner id fee tk u = .ok res t) :
    t = finished c owner id fee tk u := by
  have hslice : H256.ofSlice tk.order.orderId = some id := by rw [hid, H256.ofSlice_bytes]
  apply ok_elim h
  by_cases hr : tk.order.sellTokenQuantityRemain = 0 <;> by_cases hf : 0 < fee <;>
    simp [finish, putOrder, hr, hf, hslice, finished, burnFee]

section Finished
variable (c s owner) (id : OrderId) (fee : Int64) (tk : Taking)

lemma account_finished : (finished c owner id fee tk s).account = s.account.put owner tk.account := by
  unfold finished; rw [account_burnFee]
  split
  · rw [WorldState.putAccount, WorldState.account_addOrderToBook]
  · rfl

lemma marketOrder_finished : (finished c owner id fee tk s).marketOrder = s.marketOrder.put id tk.order := by
  unfold finished; rw [marketOrder_burnFee]
  split
  · exact congrArg (Column.put · id tk.order) (WorldState.marketOrder_addOrderToBook ..)
  · rfl

lemma burned_finished {fee : Int64} (h0 : 0 ≤ fee.toInt) (h : (s.getProp .burnTrxAmount).toInt + fee.toInt < 2 ^ 63) :
    ((finished c owner id fee tk s).getProp .burnTrxAmount).toInt = (s.getProp .burnTrxAmount).toInt + fee.toInt := by
  unfold finished
  split
  · have hprop : ∀ o, ((({ s.addOrderToBook (pairKey c.sellTokenId c.buyTokenId)
        (c.sellTokenQuantity, c.buyTokenQuantity) id with marketOrder := o } : WorldState).putAccount owner
          tk.account).getProp .burnTrxAmount) = s.getProp .burnTrxAmount := fun o => by
      unfold getProp
      exact congrArg (fun p => (p.get Property.burnTrxAmount).getD 0) (WorldState.properties_addOrderToBook ..)
    rw [burned_burnFee h0 (by rw [hprop]; exact h), hprop]
  · exact burned_burnFee h0 h

lemma mem_getOrderIds_finished {pair : Bytes} {price : Price} {x : OrderId}
    (h : x ∈ (finished c owner id fee tk s).getOrderIds pair price) :
    x ∈ s.getOrderIds pair price ∨ x = id ∧ pair = pairKey c.sellTokenId c.buyTokenId := by
  rw [getOrderIds, finished, marketPairPrice_burnFee] at h
  dsimp only [WorldState.putAccount] at h
  split at h
  · rw [← getOrderIds, WorldState.getOrderIds_addOrderToBook] at h
    split at h
    · rename_i heq
      rcases List.mem_append.mp h with h | h
      · rw [heq.1, heq.2]; exact .inl h
      · exact .inr ⟨List.mem_singleton.mp h, heq.1⟩
    · exact .inl h
  · exact .inl h

end Finished

lemma bookOk_finished {fee : Int64} (hu : OrdersOk u)
    (hq : QueuesOk u) (hfresh : u.getOrder id = none) (horder : OrderOk id tk.order)
    (hsell : tk.order.sellTokenId = c.sellTokenId) (hbuy : tk.order.buyTokenId = c.buyTokenId) :
    BookOk (finished c owner id fee tk u) := by
  have hget : ∀ x, (finished c owner id fee tk u).getOrder x = if x = id then some tk.order else u.getOrder x := by
    intro x; rw [getOrder, marketOrder_finished, get_put]; rfl
  refine ⟨fun x o ho => ?_, fun pair price x hx => ?_⟩
  · rw [hget] at ho
    split at ho
    · rename_i heq; cases ho; rw [heq]
      exact horder
    · exact hu x o ho
  · rw [hget]
    rcases mem_getOrderIds_finished _ _ _ _ _ _ hx with hold | ⟨rfl, rfl⟩
    · obtain ⟨o, ho, hpair⟩ := hq pair price x hold
      rw [if_neg]
      · exact ⟨o, ho, hpair⟩
      · rintro rfl; rw [hfresh] at ho; cases ho
    · rw [if_pos rfl]; exact ⟨tk.order, rfl, by rw [hsell, hbuy]⟩

/-! ## A sell -/

/-- A sell takes the fee and the tokens, matches the order and stores what is left. -/
lemma execute_ok (h : execute c s = .ok res t) : ∃ owner tk order account book accounts, starts c s owner tk ∧
      settle tk.account s.account (walk (listed s owner) tk.order).1 = .ok (account, accounts) ∧
      (walk (listed s owner) tk.order).2 = .ok (order, book) ∧ book.properties = (listed s owner).properties ∧
      finish c owner (orderIdOf (s.getProp .marketOrderNum + 1)) (fee s) ⟨order, account⟩
        (book.withAccounts accounts) = .ok res t := by
  obtain ⟨owner, tk, hst⟩ := exists_starts h
  have hw : wp (execute c) s (fun r v => r = res ∧ v = t) fun _ _ => False := wp_of_ok h ⟨rfl, rfl⟩
  rw [wp_execute hst] at hw
  cases hm : matchOrder tk (listed s owner) with
  | error => exact (error_of_wp hw hm).elim
  | ok tk' u =>
    have hfin := ok_of_wp hw hm
    have hprop : u.properties = (listed s owner).properties := (properties_matchOrder tk).ok hm
    have hout := outcome_eq_ok.mpr hm; rw [outcome_matchOrder, bind_eq_ok] at hout
    obtain ⟨⟨account, accounts⟩, hsettle, hout⟩ := hout
    obtain ⟨⟨order, book⟩, hwalk, hout⟩ := bind_eq_ok.mp hout
    cases hout; rw [account_listed] at hsettle
    refine ⟨owner, tk, order, account, book, accounts, hst, hsettle, hwalk, hprop, ?_⟩
    cases hf : finish c owner (orderIdOf (s.getProp .marketOrderNum + 1)) (fee s) ⟨order, account⟩
        (book.withAccounts accounts) with
    | error e v => exact (error_of_wp hfin hf).elim
    | ok r v =>
      obtain ⟨rfl, rfl⟩ := ok_of_wp hfin hf; rfl

lemma listed_eq (s : WorldState) (owner : Address) : ∃ orders, listed s owner =
    { s.putProp .marketOrderNum (s.getProp .marketOrderNum + 1) with marketAccountOrder := orders } := by
  unfold listed WorldState.addAccountOrder; dsimp only; split <;> exact ⟨_, rfl⟩

lemma orderOk_newOrder {now : Int64} (h : validate c s = .ok v) : OrderOk id (newOrder c owner id now) := by
  obtain ⟨hs, hb, -, hq1, hq2⟩ := validate_ok h
  exact ⟨⟨rfl, hs, hb, hq1, hq2⟩, hq1.le, le_rfl, fun hne => absurd rfl hne⟩

/-- When a sell conserves tokens: the burned total does not overflow, the number of the order
is new, and every resting order it can meet belongs to somebody else and has a price that
fits. -/
@[mk_iff] structure Sound (c : MarketSellAssetContract) (s : WorldState) : Prop where
  burn : (s.getProp .burnTrxAmount).toInt + (fee s).toInt < 2 ^ 63
  fresh : s.getOrder (orderIdOf (s.getProp .marketOrderNum + 1)) = none
  others : ∀ o, Meets s c.sellTokenId c.buyTokenId c.sellTokenQuantity c.buyTokenQuantity o →
    o.ownerAddress ≠ c.ownerAddress ∧ PriceFits c.sellTokenQuantity o

instance (c : MarketSellAssetContract) (s : WorldState) : Decidable (Sound c s) :=
    decidable_of_iff _ (sound_iff c s).symm

lemma fee_nonneg (s : WorldState) : 0 ≤ (fee s).toInt := Int64.toInt_max_zero _

/-- Matching the new order walks along a good book. -/
lemma walks_listed (owners : Bytes → Prop) {order : MarketOrder} {book : WorldState}
    (hs : BookOk s) (hv : validate c s = .ok v) (hst : starts c s owner tk)
    (hmeets : ∀ o, Meets s c.sellTokenId c.buyTokenId c.sellTokenQuantity c.buyTokenQuantity o →
      owners o.ownerAddress ∧ PriceFits c.sellTokenQuantity o)
    (hw : (walk (listed s owner) tk.order).2 = .ok (order, book)) :
    Walks owners s tk.order (walk (listed s owner) tk.order).1 book order ∧ QueuesOk book := by
  obtain ⟨orders, hl⟩ := listed_eq s owner
  obtain ⟨-, account, balance, -, -, -, horder⟩ := hst
  have hok : OrderOk (orderIdOf (s.getProp .marketOrderNum + 1)) tk.order := by rw [horder]; exact orderOk_newOrder hv
  have hclear : Clear owners (listed s owner) tk.order := by
    rintro o ⟨price, id, hp, hmatch, hid, ho⟩; rw [hl] at hp hid ho; rw [horder] at hp hmatch hid ⊢
    exact hmeets o ⟨price, id, hp, hmatch, hid, ho⟩
  have hbook : OrdersOk (listed s owner) ∧ QueuesOk (listed s owner) := by rw [hl]; exact ⟨hs.orders, hs.queues⟩
  obtain ⟨hwalks, hq⟩ := walkPrices_ok _ _ _ (listed s owner) tk.order order book hw rfl hbook.1 hbook.2 hok.offers
    hok.toOrderTerms hclear
  refine ⟨⟨fun id o ho => hwalks.stored id o ?_, fun id ho => hwalks.fresh id ?_, hwalks.orders, hwalks.terms,
    hwalks.offers, hwalks.credits, fun a => ?_⟩, hq⟩
  · rw [hl]; exact ho
  · rw [hl]; exact ho
  have hcons := hwalks.conserves a
  have htot : offeredTotal a (listed s owner) = offeredTotal a s := by rw [hl]; rfl
  rw [htot] at hcons; exact hcons

lemma bookOk_sell (hs : BookOk s) (hv : validate c s = .ok v)
    (hx : execute c s = .ok res t) (hfresh : s.getOrder (orderIdOf (s.getProp .marketOrderNum + 1)) = none)
    (hfits : ∀ o, Meets s c.sellTokenId c.buyTokenId c.sellTokenQuantity c.buyTokenQuantity o →
      PriceFits c.sellTokenQuantity o) : BookOk t := by
  obtain ⟨owner, tk, order, account, book, accounts, hst, -, hwalk, -, hfin⟩ := execute_ok hx
  obtain ⟨hw, hq⟩ := walks_listed (fun _ => True) hs hv hst (fun o ho => ⟨trivial, hfits o ho⟩) hwalk
  obtain ⟨-, -, -, -, -, -, horder⟩ := hst
  have hok : OrderOk (orderIdOf (s.getProp .marketOrderNum + 1)) tk.order := by rw [horder]; exact orderOk_newOrder hv
  have hok' := hok.of_sameTerms hw.terms hw.offers
  obtain rfl := finish_ok hok'.key hfin
  exact bookOk_finished hw.orders hq (hw.fresh _ hfresh) hok' (by rw [hw.terms.sellToken, horder]; rfl)
    (by rw [hw.terms.buyToken, horder]; rfl)

/-- **A sell keeps the tokens.** -/
theorem sell_step (hs : BookOk s) (hv : validate c s = .ok v)
    (hx : execute c s = .ok res t) (hsound : Sound c s) : Conserves s t := by
  have hbook : BookOk t := bookOk_sell hs hv hx hsound.fresh fun o ho => (hsound.others o ho).2
  obtain ⟨owner, tk, order, account, book, accounts, hst, hsettle, hwalk, hprop, hfin⟩ := execute_ok hx
  obtain ⟨hw, -⟩ := walks_listed (· ≠ c.ownerAddress) hs hv hst hsound.others hwalk
  obtain ⟨hown, -, -, -, -, -, horder⟩ := id hst
  have hok : OrderOk (orderIdOf (s.getProp .marketOrderNum + 1)) tk.order := by rw [horder]; exact orderOk_newOrder hv
  have hok' := hok.of_sameTerms hw.terms hw.offers
  have hfresh := hw.fresh _ hsound.fresh
  obtain rfl := finish_ok hok'.key hfin
  have hothers : ∀ p ∈ (walk (listed s owner) tk.order).1, p.1.ownerAddress ≠ owner.asBytes := by
    intro p hp; rw [Address.asBytes_of_ofBytes hown]; exact (hw.credits p hp).2.2
  have hburn : (book.withAccounts accounts).getProp .burnTrxAmount = s.getProp .burnTrxAmount := by
    obtain ⟨orders, hl⟩ := listed_eq s owner; show (book.properties.get .burnTrxAmount).getD 0 = _
    rw [hprop, hl]; exact getProp_putProp_of_ne _ _ (by decide)
  refine ⟨hbook, fun a => ?_, fun a x hnn => ?_⟩
  · obtain ⟨hhold, htot, hkeep, -⟩ := settle_ok hsettle a
    have hstart := holding_starts hst a
    have hcons := hw.conserves a
    have hoffer : offered a tk.order = if a = .ofId c.sellTokenId then c.sellTokenQuantity.toInt else 0 := by
      rw [horder]; simp only [offered, newOrder, eq_comm]
    rw [← hoffer] at hstart
    have hshare : Column.share (fun _ o => offered a o) book.marketOrder
        (orderIdOf (s.getProp .marketOrderNum + 1)) = 0 := by
      rw [getOrder] at hfresh; rw [Column.share, hfresh]; rfl
    rw [supply, supply, total_escrow hbook.orders, total_escrow hs.orders, account_finished, offeredTotal,
      marketOrder_finished, total_put, total_put,
      burned_finished _ _ _ _ _ (fee_nonneg s) (by rw [hburn]; exact hsound.burn), hburn]
    show Column.total (held a) accounts - Column.share (held a) accounts owner + holding account a +
      (offeredTotal a book - Column.share (fun _ o => offered a o) book.marketOrder _ + offered a order) + _ = _
    rw [hkeep owner hothers, hshare]
    by_cases ha : a = .trx
    · rw [if_pos ha] at hstart ⊢; rw [if_pos ha]; omega
    · rw [if_neg ha] at hstart ⊢; rw [if_neg ha]; omega
  · obtain ⟨hhold, -, -, hpos⟩ := settle_ok hsettle a
    rw [account_finished]
    by_cases hxo : x = owner
    · rw [hxo, Column.share, get_put_self]; show 0 ≤ holding account a
      have hstart := holding_starts_nonneg hst (hxo ▸ hnn)
      have hcred := takerCredits_nonneg (a := a) fun p hp => (hw.credits p hp).1
      omega
    · rw [Column.share_eq_of_get (get_put_of_ne hxo)]
      exact hpos (fun p hp => (hw.credits p hp).2.1) x hnn

end MarketSellAssetActuator

/-! ## A cancellation -/

namespace MarketCancelOrderActuator

variable {c : MarketCancelOrderContract} {s t : WorldState} {price : Price} {pair : Bytes} {x : OrderId}
variable {order : MarketOrder} {id : OrderId} {res : ExecutionResult}

lemma unlist_eq (s : WorldState) (order : MarketOrder) (id : OrderId) : ∃ queues prices pairs orders,
    unlist s order id = { s with
      marketPairPrice := queues, marketPair := prices, marketPairs := pairs, marketAccountOrder := orders } := by
  unfold unlist WorldState.removePrice; dsimp only
  split
  · split <;> exact ⟨_, _, _, _, rfl⟩
  · exact ⟨_, _, _, _, rfl⟩

lemma mem_getOrderIds_unlist (h : x ∈ (unlist s order id).getOrderIds pair price) : x ∈ s.getOrderIds pair price := by
  have hqueues : (unlist s order id).getOrderIds pair price =
      (s.putOrderIds (pairKey order.sellTokenId order.buyTokenId) (order.sellTokenQuantity, order.buyTokenQuantity)
        ((s.getOrderIds (pairKey order.sellTokenId order.buyTokenId)
          (order.sellTokenQuantity, order.buyTokenQuantity)).filter (· ≠ id))).getOrderIds pair price := by
    unfold unlist; dsimp only
    split
    · exact congrArg (fun q => (q.get (pair, price.1, price.2)).getD []) (WorldState.marketPairPrice_removePrice ..)
    · rfl
  rw [hqueues, WorldState.getOrderIds_putOrderIds] at h
  split at h
  · rename_i heq; rw [heq.1, heq.2]; exact List.mem_of_mem_filter h
  · exact h

/-- The state that a cancellation leaves. -/
def closed (s : WorldState) (owner : Address) (account : Account) (id key : OrderId) (order : MarketOrder) :
    WorldState :=
  unlist (burnFee { s with
    account := s.account.put owner account
    marketOrder := s.marketOrder.put key (cancelled order) } (fee s)) order id

/-- A cancellation returns what the order still offers and takes the fee. -/
lemma wp_execute {P : WorldState → Prop} (h : ∀ owner id key order account balance account',
      orderId c.orderId = .ok id → s.getOrder id = some order → s.getAccount owner = some account →
      debit account.balance (fee s) = some balance →
      creditToken { account with balance } order.sellTokenId order.sellTokenQuantityRemain = .ok account' →
      H256.ofSlice order.orderId = some key → P (closed s owner account' id key order)) :
    wp (execute c) s (fun _ t => P t) fun _ _ => True := by
  simp only [execute, putOrder, ok_rules]
  intro owner _ id hid order ho account ha balance hb account' hc key hk
  have hP := h owner id key order account balance account' hid ho ha hb hc hk
  unfold closed burnFee at hP; rw [wp_ite]
  refine ⟨fun hf => ?_, fun hf => ?_⟩
  · rw [if_pos hf] at hP; exact hP
  · rw [if_neg hf] at hP; exact hP

section Closed
variable (s) (owner : Address) (account : Account) (id key : OrderId) (order : MarketOrder)

lemma closed_eq : ∃ queues prices pairs orders, closed s owner account id key order = { burnFee { s with
      account := s.account.put owner account
      marketOrder := s.marketOrder.put key (cancelled order) } (fee s) with
    marketPairPrice := queues, marketPair := prices, marketPairs := pairs, marketAccountOrder := orders } :=
    unlist_eq ..

lemma account_closed : (closed s owner account id key order).account = s.account.put owner account := by
  obtain ⟨_, _, _, _, h⟩ := closed_eq s owner account id key order
  rw [h]; exact account_burnFee ..

lemma marketOrder_closed :
    (closed s owner account id key order).marketOrder = s.marketOrder.put key (cancelled order) := by
  obtain ⟨_, _, _, _, h⟩ := closed_eq s owner account id key order
  rw [h]; exact marketOrder_burnFee ..

lemma burned_closed (h : (s.getProp .burnTrxAmount).toInt + (fee s).toInt < 2 ^ 63) :
    ((closed s owner account id key order).getProp .burnTrxAmount).toInt =
      (s.getProp .burnTrxAmount).toInt + (fee s).toInt := by
  obtain ⟨_, _, _, _, hu⟩ := closed_eq s owner account id key order
  rw [hu]; exact burned_burnFee (Int64.toInt_max_zero _) h

lemma mem_getOrderIds_closed
    (h : x ∈ (closed s owner account id key order).getOrderIds pair price) : x ∈ s.getOrderIds pair price := by
  have hx := mem_getOrderIds_unlist h; rwa [getOrderIds, marketPairPrice_burnFee] at hx

end Closed

lemma bookOk_closed {owner : Address} {account : Account} (hs : BookOk s)
    (ho : s.getOrder id = some order) : BookOk (closed s owner account id id order) := by
  have hok := hs.orders id order ho
  have hget : ∀ x, (closed s owner account id id order).getOrder x =
      if x = id then some (cancelled order) else s.getOrder x := by
    intro x; rw [getOrder, marketOrder_closed, get_put]; rfl
  refine ⟨fun x o hx => ?_, fun pair price x hx => ?_⟩
  · rw [hget] at hx
    split at hx
    · rename_i heq; cases hx; rw [heq]
      exact hok.of_sameTerms ⟨rfl, rfl, rfl, rfl, rfl, rfl⟩ (offers_zero rfl hok.sellQuantity.le)
    · exact hs.orders x o hx
  · obtain ⟨o, hxo, hpair⟩ := hs.queues pair price x (mem_getOrderIds_closed _ _ _ _ _ _ hx)
    rw [hget]
    split
    · rename_i heq; rw [heq, ho] at hxo; cases hxo
      exact ⟨cancelled order, rfl, hpair⟩
    · exact ⟨o, hxo, hpair⟩

lemma bookOk_cancel (hs : BookOk s) (hx : execute c s = .ok res t) : BookOk t := by
  refine ok_elim hx (wp_execute ?_); intro owner id key order account balance account' _ ho _ _ _ hk
  obtain rfl := (hs.orders id order ho).eq_of_key hk
  exact bookOk_closed hs ho

/-- **A cancellation keeps the tokens.** -/
theorem cancel_step (hs : BookOk s) (hx : execute c s = .ok res t)
    (hburn : (s.getProp .burnTrxAmount).toInt + (fee s).toInt < 2 ^ 63) : Conserves s t := by
  refine ok_elim (P := fun _ t => Conserves s t) hx (wp_execute ?_)
  intro owner id key order account balance account' _ ho ha hb hc hk
  have hok := hs.orders id order ho
  obtain rfl := hok.eq_of_key hk
  have hshare : ∀ a, Column.share (held a) s.account owner = holding account a := fun a => by
    rw [getAccount] at ha; rw [Column.share, ha]; rfl
  have hhold : ∀ a, holding account' a = holding account a - (if a = .trx then (fee s).toInt else 0) +
    offered a order :=
    fun a => by rw [creditToken_eq_ok hc a, holding_withFee hb, offered]; simp only [eq_comm]
  refine ⟨bookOk_closed hs ho, fun a => ?_, fun a x hnn => ?_⟩
  · have horder : Column.share (fun _ o => offered a o) s.marketOrder key = offered a order := by
      rw [getOrder] at ho; rw [Column.share, ho]; rfl
    have hzero : offered a (cancelled order) = 0 := by
      show (if _ then (0 : Int64).toInt else 0) = 0; rw [toInt_zero, ite_self]
    have ha' := hhold a
    rw [supply, supply, total_escrow (bookOk_closed hs ho).orders, total_escrow hs.orders, account_closed, offeredTotal,
      marketOrder_closed, total_put, total_put, burned_closed _ _ _ _ _ _ hburn, hshare, horder, hzero]
    show Column.total (held a) s.account - holding account a + holding account' a +
      (offeredTotal a s - offered a order + 0) + _ = _
    by_cases htrx : a = .trx
    · rw [if_pos htrx] at ha' ⊢; rw [if_pos htrx]; omega
    · rw [if_neg htrx] at ha' ⊢; rw [if_neg htrx]; omega
  · rw [account_closed]
    by_cases hxo : x = owner
    · rw [hxo, Column.share, get_put_self]; show 0 ≤ holding account' a; rw [hxo, hshare] at hnn
      have hfee := holding_withFee_nonneg hb hnn
      have hoff : 0 ≤ offered a order := by
        unfold offered
        split
        · exact hok.offers.nonneg
        · exact le_rfl
      rw [hhold, ← holding_withFee hb]; omega
    · rw [Column.share_eq_of_get (get_put_of_ne hxo)]; exact hnn

end MarketCancelOrderActuator

/-! ## Runs of the market -/

inductive MarketOp where
  | sell (c : MarketSellAssetContract)
  | cancel (c : MarketCancelOrderContract)

/-- An operation, validated and then executed. -/
def MarketOp.apply : MarketOp → Act ExecutionResult
  | .sell c => marketSellAssetActuator.run c
  | .cancel c => marketCancelOrderActuator.run c

/-- No order is stored and no queue lists one. -/
def EmptyBook (s : WorldState) : Prop := s.marketOrder = ∅ ∧ s.marketPairPrice = ∅

/-- Accepted operations, one after the other, from an empty book. -/
def market : Lts WorldState MarketOp := ⟨EmptyBook, fun s op t => ∃ res, op.apply s = .ok res t⟩

/-- The condition on one operation, in the state before it. -/
def MarketOp.Sound (s : WorldState) : MarketOp → Prop
  | .sell c => MarketSellAssetActuator.Sound c s
  | .cancel _ => (s.getProp .burnTrxAmount).toInt + (MarketCancelOrderActuator.fee s).toInt < 2 ^ 63

lemma conserves_step (hs : BookOk s) (h : (market.guard MarketOp.Sound).step s op t) : Conserves s t := by
  obtain ⟨hsound, res, hrun⟩ := h
  cases op with
  | sell =>
    obtain ⟨⟨v, hv⟩, hx⟩ := Actuator.run_ok hrun
    exact MarketSellAssetActuator.sell_step hs hv hx hsound
  | cancel => exact MarketCancelOrderActuator.cancel_step hs (Actuator.run_ok hrun).2 hsound

lemma bookOk_of_emptyBook (h : EmptyBook s) : BookOk s := by
  refine ⟨fun id o ho => ?_, fun pair price id hid => ?_⟩
  · rw [getOrder, h.1, get_empty] at ho; cases ho
  · rw [getOrderIds, h.2, get_empty] at hid; cases hid

/-- **The market conserves tokens.** In every run of accepted operations from an empty book in
which each sell meets only orders of other owners at prices that fit, takes a new number and
overflows no burned total, the supply of every token stays the same, no holding becomes
negative and no order offers a negative amount. -/
theorem market_conserves {s t : WorldState} {ops : List MarketOp} (h0 : market.init s)
    (hrun : (market.guard MarketOp.Sound).Run s ops t) : (∀ a, supply a t = supply a s) ∧
      (∀ a x, 0 ≤ Column.share (held a) s.account x → 0 ≤ Column.share (held a) t.account x) ∧
      ∀ id o, t.getOrder id = some o → 0 ≤ o.sellTokenQuantityRemain.toInt := by
  have hinv : Conserves s t := by
    refine hrun.preserves (fun u op v hu hstep => ?_) ⟨bookOk_of_emptyBook h0, fun _ => rfl, fun _ _ h => h⟩
    have hv := conserves_step hu.book hstep
    exact ⟨hv.book, fun a => (hv.supply a).trans (hu.supply a), fun a x h => hv.holdings a x (hu.holdings a x h)⟩
  exact ⟨hinv.supply, hinv.holdings, fun id o ho => (hinv.book.orders id o ho).offers.nonneg⟩

/-! ## Runs on fixed inputs -/

/-- One accepted operation, computed. -/
def MarketOp.next (s : WorldState) (op : MarketOp) : Option WorldState :=
  match op.apply s with
  | .ok _ t => some t
  | .error _ _ => none

lemma MarketOp.step_of_next (h : op.next s = some t) : market.step s op t := by
  unfold MarketOp.next at h
  split at h
  · rename_i res u hu; cases h; exact ⟨res, hu⟩
  · cases h

instance (s : WorldState) (op : MarketOp) : Decidable (op.Sound s) :=
  match op with
  | .sell c => inferInstanceAs (Decidable (MarketSellAssetActuator.Sound c s))
  | .cancel _ => inferInstanceAs (Decidable (_ < _))

def MarketOp.nextSound (s : WorldState) (op : MarketOp) : Option WorldState :=
  if op.Sound s then op.next s else none

lemma MarketOp.step_of_nextSound (h : op.nextSound s = some t) : (market.guard MarketOp.Sound).step s op t := by
  unfold MarketOp.nextSound at h
  split at h
  · rename_i hs; exact ⟨hs, MarketOp.step_of_next h⟩
  · cases h

def token1 : Bytes := [0x31]

/-- Two accounts with TRX and token 1, an empty book and an open market. -/
def traders : WorldState :=
  let trader : Account := { balance := 10000, assetV2 := (∅ : Column Bytes Int64).put token1 1000000000000000 }
  { account := ((∅ : Column Address Account).put (Address.ofNat 0xaa) trader).put (Address.ofNat 0xbb) trader
    properties := (∅ : Column Property Int64).put .allowMarketTransaction 1 }

/-- `sellQuantity` of token 1 for `buyQuantity` TRX. -/
def sellToken1 (owner : Address) (sellQuantity buyQuantity : Int64) : MarketOp :=
  .sell ⟨owner.asBytes, token1, sellQuantity, trxSymbol, buyQuantity⟩

/-- `sellQuantity` TRX for `buyQuantity` of token 1. -/
def buyToken1 (owner : Address) (sellQuantity buyQuantity : Int64) : MarketOp :=
  .sell ⟨owner.asBytes, trxSymbol, sellQuantity, token1, buyQuantity⟩

/-- One owner sells ten of token 1 for TRX and another one buys them: the run meets the
condition, and nothing is lost. -/
theorem market_conserves_trade : ∃ ops t, (market.guard MarketOp.Sound).Run traders ops t ∧
    (t.getOrder (MarketSellAssetActuator.orderIdOf 2)).isSome ∧ ∀ a, supply a t = supply a traders := by
  have h : (Lts.exec (fun s op => MarketOp.nextSound s op) traders
      [sellToken1 (Address.ofNat 0xaa) 10 10, buyToken1 (Address.ofNat 0xbb) 10 10]).map
        (fun t => (t.getOrder (MarketSellAssetActuator.orderIdOf 2)).isSome) = some true := by decide +kernel
  obtain ⟨t, hrun, ht⟩ := Lts.Run.exists_of_exec (fun s op t => MarketOp.step_of_nextSound) h
  exact ⟨_, t, hrun, ht, (market_conserves ⟨rfl, rfl⟩ hrun).1⟩

/-- An owner sells ten of token 1 for TRX and then buys them back: the TRX that its first order
earns is credited in the store and overwritten by the account in memory. -/
theorem self_trade_loses_trx : ∃ s ops t, market.init s ∧ market.Run s ops t ∧
    supply .trx s = 20000 ∧ supply .trx t = 19990 := by
  have h : (Lts.exec (fun s op => MarketOp.next s op) traders
      [sellToken1 (Address.ofNat 0xaa) 10 10, buyToken1 (Address.ofNat 0xaa) 10 10]).map
        (supply .trx) = some 19990 := by decide +kernel
  obtain ⟨t, hrun, ht⟩ := Lts.Run.exists_of_exec (fun s op t => MarketOp.step_of_next) h
  exact ⟨traders, _, t, ⟨rfl, rfl⟩, hrun, by decide +kernel, ht⟩

end TronRs

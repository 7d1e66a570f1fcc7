import TronRs.L3Actuators.Market.PriceList
import TronRs.L3Actuators.Market.Representation

/-!
# Price-time priority

In which order a new order fills the resting ones. `moments` lists the fills of a walk with the
book as it is before each of them (`moments_fills`: they are the fills of `walk`).

* `Walking.prior`: the order that is filled next is the best and, at its ratio, the oldest that
  offers something.
* `Aged`: queues are in the order of the ids; accepted operations keep it (`aged_step`).
* `price_time_priority`: every fill after every run from an empty book has this priority, as long
  as no operation meets a second price of its ratio and the counter of ids does not wrap.
* `older_order_is_passed_over`: an order whose price is not listed is not filled in its turn.
-/
namespace TronRs

open TronRs.Core

/-! ## The fills, one by one -/

/-- A fill, and the book when it is made. -/
structure Moment where
  book : WorldState
  id : OrderId
  maker : MarketOrder
  fill : Fill

variable (makerPair : Bytes) (left : Nat)

section Moments
open MarketSellAssetActuator

/-- The fills of `walkIds`, each with the book before it. -/
def momentsIds : Nat → WorldState → MarketOrder → List OrderId → List Moment
  | _, _, _, [] => []
  | left, book, taker, id :: rest =>
    if taker.sellTokenQuantityRemain = 0 then []
    else match book.getOrder id with
      | none => []
      | some maker => match fill taker maker with
        | .error _ => []
        | .ok f => ⟨book, id, maker, f⟩ :: match outcome (settleMaker id rest f.maker) book with
          | .error _ => []
          | .ok (ids, book) => match left with
            | 0 => []
            | left + 1 => if f.stop then [] else momentsIds left book f.taker ids

/-- The fills of `walkPrices`, each with the book before it. -/
def momentsPrices (makerPair : Bytes) : Nat → Nat → WorldState → MarketOrder → List Moment
  | 0, _, _, _ => []
  | fuel + 1, left, book, taker =>
    if taker.sellTokenQuantityRemain = 0 then []
    else match book.bestPrice makerPair with
      | none => []
      | some best =>
        if priceMatch taker.sellTokenQuantity taker.buyTokenQuantity best.1 best.2 = false then []
        else
          let ids := book.getOrderIds makerPair best
          momentsIds left book taker ids ++ match (walkIds left book taker ids).2 with
            | .error _ => []
            | .ok r =>
              if r.stop ∨ r.ids ≠ [] then []
              else momentsPrices makerPair fuel r.left
                ((r.book.putOrderIds makerPair best r.ids).removePrice makerPair best) r.taker

/-- The fills of a new order. -/
def moments (book : WorldState) (taker : MarketOrder) : List Moment :=
  let makerPair := pairKey taker.buyTokenId taker.sellTokenId
  momentsPrices makerPair (book.getPrices makerPair).length maxMatchNum book taker

/-- A moment without its book. -/
def Moment.filled (m : Moment) : MarketOrder × Fill := (m.maker, m.fill)

variable (book : WorldState) (taker : MarketOrder)

lemma momentsIds_fills (ids : List OrderId) :
    (momentsIds left book taker ids).map Moment.filled = (walkIds left book taker ids).1 := by
  fun_induction walkIds left book taker ids with
  | case1 => simp [momentsIds]
  | case2 left book taker id rest h0 => simp [momentsIds, h0]
  | case3 left book taker id rest h0 hnone => simp [momentsIds, h0, hnone]
  | case4 left book taker id rest h0 maker hm e he => simp [momentsIds, h0, hm, he]
  | case5 left book taker id rest h0 maker hm f hf e he => simp [momentsIds, h0, hm, hf, he, Moment.filled]
  | case6 book taker id rest h0 maker hm f hf ids book' hs => simp [momentsIds, h0, hm, hf, hs, Moment.filled]
  | case7 book taker id rest h0 maker hm f hf ids book' hs left hstop =>
    simp [momentsIds, h0, hm, hf, hs, hstop, Moment.filled]
  | case8 book taker id rest h0 maker hm f hf ids book' hs left hstop w ih =>
    simp [momentsIds, h0, hm, hf, hs, hstop, Moment.filled, w, ← ih]

lemma momentsPrices_fills (fuel left : Nat) (book : WorldState) (taker : MarketOrder) :
    (momentsPrices makerPair fuel left book taker).map Moment.filled =
      (walkPrices makerPair fuel left book taker).1 := by
  fun_induction walkPrices makerPair fuel left book taker with
  | case1 => simp [momentsPrices]
  | case2 fuel left book taker h0 => simp [momentsPrices, h0]
  | case3 fuel left book taker h0 hnone => simp [momentsPrices, h0, hnone]
  | case4 fuel left book taker h0 best hb hp => simp [momentsPrices, h0, hb, hp]
  | case5 fuel left book taker h0 best hb hp w e he =>
    simp [momentsPrices, h0, hb, hp, momentsIds_fills, w, show (walkIds _ _ _ _).2 = _ from he]
  | case6 fuel left book taker h0 best hb hp w r hr book' hstop =>
    simp [momentsPrices, h0, hb, hp, momentsIds_fills, w, show (walkIds _ _ _ _).2 = _ from hr, hstop]
  | case7 fuel left book taker h0 best hb hp w r hr book' hstop hids v ih =>
    simp [momentsPrices, h0, hb, hp, momentsIds_fills, w, show (walkIds _ _ _ _).2 = _ from hr, hstop, hids]
    rw [← hids]; exact ih
  | case8 fuel left book taker h0 best hb hp w r hr book' hstop hids =>
    simp [momentsPrices, h0, hb, hp, momentsIds_fills, w, show (walkIds _ _ _ _).2 = _ from hr, hstop, hids]

/-- **The moments are the fills** of the walk along the book. -/
theorem moments_fills : (moments book taker).map Moment.filled = (walk book taker).1 := momentsPrices_fills ..

end Moments

/-! ## Who comes first -/

/-- What an order asks for each unit it sells. -/
def MarketOrder.ratio (o : MarketOrder) : ℚ := priceRatio o.price

/-- The number of an order id: its bytes, most significant first. -/
def orderNumber (id : OrderId) : Nat := Bytes.ofBe id.bytes

def Older (x y : OrderId) : Prop := orderNumber x < orderNumber y

instance (x y : OrderId) : Decidable (Older x y) := inferInstanceAs (Decidable (_ < _))

/-- Every active order of the maker's pair that is cheaper, or as cheap and older, is used up. -/
def Moment.Prior (m : Moment) : Prop :=
  ∀ id o, m.book.getOrder id = some o → o.state = orderActive → o.sellTokenId = m.maker.sellTokenId →
    o.buyTokenId = m.maker.buyTokenId →
    o.ratio < m.maker.ratio ∨ o.ratio = m.maker.ratio ∧ Older id m.id → o.sellTokenQuantityRemain = 0

section Ratio
variable {id id' : OrderId} {o o' : MarketOrder} (h : Tradable id o) (h' : Tradable id' o')
include h h'

lemma better_iff_ratio_lt : Better o.price o'.price ↔ o.ratio < o'.ratio :=
  better_iff_priceRatio h.sellQuantity h'.sellQuantity

lemma cmpMakerPrice_eq_iff_ratio_eq : cmpMakerPrice o.price o'.price = .eq ↔ o.ratio = o'.ratio :=
  cmpMakerPrice_eq_iff_priceRatio h.sellQuantity h'.sellQuantity

end Ratio

/-! ## Queues in the order of the ids -/

/-- The stored orders have numbers up to `n`, and older orders are first in every queue. -/
structure Aged (n : Nat) (b : Book) : Prop where
  known : ∀ id o, b.order id = some o → orderNumber id ≤ n
  queues : ∀ pair price, (b.queue pair price).Pairwise Older

namespace Aged
variable {n : Nat} {b b' : Book} {pair : Bytes} {price : Price} {id : OrderId} {ids : List OrderId}

variable (h : Aged n b)
include h

lemma congr (horder : b'.order = b.order) (hqueue : b'.queue = b.queue) : Aged n b' := by
  refine ⟨fun id o ho => ?_, fun pair price => ?_⟩
  · rw [horder] at ho; exact h.known id o ho
  · rw [hqueue]; exact h.queues pair price

lemma mono {m : Nat} (hle : n ≤ m) : Aged m b :=
  ⟨fun id o ho => (h.known id o ho).trans hle, h.queues⟩

lemma setOrder (hid : orderNumber id ≤ n) (o : MarketOrder) : Aged n (b.setOrder id o) := by
  refine ⟨fun x y hy => ?_, h.queues⟩
  by_cases hx : x = id
  · rw [hx]; exact hid
  · rw [Book.order_setOrder_of_ne b o hx] at hy; exact h.known x y hy

lemma setQueue (pair : Bytes) (price : Price) (hids : ids.Pairwise Older) : Aged n (b.setQueue pair price ids) := by
  refine ⟨h.known, fun pair' price' => ?_⟩
  show (if pair' = pair ∧ price' = price then ids else b.queue pair' price').Pairwise Older
  split
  · exact hids
  · exact h.queues pair' price'

lemma prune (pair : Bytes) (price : Price) : Aged n (b.prune pair price) := by
  unfold Book.prune
  split
  · exact h.congr rfl rfl
  · exact h

end Aged

/-! ## Matching -/

section Matching
open MarketSellAssetActuator

/-- Between the fills at the best price: `ids` is what is left of its queue. -/
structure Walking (n : Nat) (pending : Option (OrderId × Bytes)) (pair : Bytes) (best : Price) (book : WorldState)
    (ids : List OrderId) : Prop where
  indexed : Indexed (some (pair, best)) pending (book.book.setQueue pair best ids)
  aged : Aged n (book.book.setQueue pair best ids)
  best : ∀ p ∈ book.getPrices pair, ¬ Better p best

variable {n : Nat} {pending : Option (OrderId × Bytes)} {pair : Bytes} {best : Price}
variable {book book' : WorldState} {taker maker : MarketOrder} {id : OrderId} {rest ids : List OrderId} {f : Fill}

lemma Walking.of_best (h : Indexed none pending book.book) (ha : Aged n book.book)
    (hb : book.bestPrice pair = some best) : Walking n pending pair best book (book.getOrderIds pair best) :=
  ⟨h.of_best hb, ha.setQueue pair best (ha.queues pair best), fun _ hp => not_better_best (h.sorted pair) hb hp⟩

/-- **The next order to be filled** is the best and, at its ratio, the oldest that offers something. -/
theorem Walking.prior (h : Walking n pending pair best book (id :: rest)) (hm : book.getOrder id = some maker) :
    (⟨book, id, maker, f⟩ : Moment).Prior := by
  intro x o ho _ hsell hbuy hfirst; by_contra hopen
  obtain ⟨rfl, rfl, hmopen⟩ := h.indexed.eq_of_queued hm (by rw [Book.queue_setQueue_self]; exact List.mem_cons_self ..)
  have hpair : o.pair = maker.pair := by
    dsimp only at hsell hbuy; rw [MarketOrder.pair, hsell, hbuy, MarketOrder.pair]
  have hto := h.indexed.orders x o ho
  have htm := h.indexed.orders id maker hm
  have hmem := h.indexed.price_mem ho hopen; rw [hpair] at hmem
  rcases hfirst with hlt | ⟨heq, hold⟩
  · exact h.best o.price hmem ((better_iff_ratio_lt hto htm).mpr hlt)
  -- at one ratio there is one price, so the older order would be in the same queue
  have hprice := eq_of_cmpMakerPrice_eq (h.indexed.sorted maker.pair) hmem (h.indexed.price_mem hm hmopen)
    ((cmpMakerPrice_eq_iff_ratio_eq hto htm).mpr heq)
  have hqueued := (h.indexed.queued maker.pair maker.price x).mpr ⟨o, ho, hpair, hprice, hopen⟩
  have hsorted := h.aged.queues maker.pair maker.price
  rw [Book.queue_setQueue_self] at hqueued hsorted
  rcases List.mem_cons.mp hqueued with rfl | hrest
  · exact lt_irrefl _ hold
  · exact lt_asymm hold ((List.pairwise_cons.mp hsorted).1 x hrest)

lemma Walking.fill (h : Walking n pending pair best book (id :: rest)) (hm : book.getOrder id = some maker)
    (hf : TronRs.fill taker maker = .ok f) (hs : outcome (settleMaker id rest f.maker) book = .ok (ids, book')) :
    Walking n pending pair best book' ids := by
  obtain ⟨hindexed, hpair, -⟩ := h.indexed.fill hm hf hs
  obtain ⟨-, hterms, -, -⟩ := fill_closes hf
  have hsorted := h.aged.queues pair best; rw [Book.queue_setQueue_self] at hsorted
  have hknown := h.aged.known id maker hm
  have hstored : ∀ xs o, xs.Pairwise Older → Aged n ((book.book.setQueue pair best xs).setOrder id o) := by
    intro xs o hxs; have hqueue := h.aged.setQueue pair best hxs; rw [Book.setQueue_setQueue] at hqueue
    exact hqueue.setOrder hknown o
  refine ⟨hindexed, ?_, fun p hp => h.best p ?_⟩
  · rw [outcome_settleMaker (hterms.orderId.trans (h.indexed.orders id maker hm).key)] at hs
    split at hs
    · cases hs; rw [WorldState.book_removeAccountOrder, WorldState.book_putOrder]
      exact (hstored _ _ (List.pairwise_cons.mp hsorted).2).congr rfl rfl
    · cases hs; rw [WorldState.book_putOrder]; exact hstored _ f.maker hsorted
  · rw [WorldState.getPrices] at hp ⊢; rwa [hpair] at hp

lemma walkIds_walking (book : WorldState) (taker : MarketOrder) (ids : List OrderId) :
    Walking n pending pair best book ids → (∀ m ∈ momentsIds left book taker ids, m.Prior) ∧
      ∀ r, (walkIds left book taker ids).2 = .ok r → Walking n pending pair best r.book r.ids := by
  fun_induction walkIds left book taker ids with
  | case1 =>
    intro h; refine ⟨by simp [momentsIds], fun r hr => ?_⟩; cases hr
    exact h
  | case2 left book taker id rest h0 =>
    intro h; refine ⟨by simp [momentsIds, h0], fun r hr => ?_⟩; cases hr
    exact h
  | case3 left book taker id rest h0 hnone =>
    intro h; exact ⟨by simp [momentsIds, h0, hnone], fun r hr => by cases hr⟩
  | case4 left book taker id rest h0 maker hm e he =>
    intro h; exact ⟨by simp [momentsIds, h0, hm, he], fun r hr => by cases hr⟩
  | case5 left book taker id rest h0 maker hm f hf e he =>
    intro h; exact ⟨by simpa [momentsIds, h0, hm, hf, he] using h.prior hm, fun r hr => by cases hr⟩
  | case6 book taker id rest h0 maker hm f hf ids book' hs =>
    intro h; exact ⟨by simpa [momentsIds, h0, hm, hf, hs] using h.prior hm, fun r hr => by cases hr⟩
  | case7 book taker id rest h0 maker hm f hf ids book' hs left hstop =>
    intro h; refine ⟨by simpa [momentsIds, h0, hm, hf, hs, hstop] using h.prior hm, fun r hr => ?_⟩
    cases hr; exact h.fill hm hf hs
  | case8 book taker id rest h0 maker hm f hf ids book' hs left hstop w ih =>
    intro h; obtain ⟨hprior, hwalking⟩ := ih (h.fill hm hf hs)
    exact ⟨by simpa [momentsIds, h0, hm, hf, hs, hstop] using ⟨h.prior hm, hprior⟩, hwalking⟩

/-- **Matching** fills the orders in their turn, and keeps the queues in order. -/
theorem walkPrices_aged (fuel left : Nat) (book : WorldState) (taker : MarketOrder) :
    Indexed none pending book.book → Aged n book.book → (∀ m ∈ momentsPrices makerPair fuel left book taker, m.Prior) ∧
      ∀ r, (walkPrices makerPair fuel left book taker).2 = .ok r → Aged n r.2.book := by
  fun_induction walkPrices makerPair fuel left book taker with
  | case1 =>
    intro _ ha; refine ⟨by simp [momentsPrices], fun r hr => ?_⟩; cases hr
    exact ha
  | case2 fuel left book taker h0 =>
    intro _ ha; refine ⟨by simp [momentsPrices, h0], fun r hr => ?_⟩; cases hr
    exact ha
  | case3 fuel left book taker h0 hnone =>
    intro _ ha; refine ⟨by simp [momentsPrices, h0, hnone], fun r hr => ?_⟩; cases hr
    exact ha
  | case4 fuel left book taker h0 best hb hp =>
    intro _ ha; refine ⟨by simp [momentsPrices, h0, hb, hp], fun r hr => ?_⟩; cases hr
    exact ha
  | case5 fuel left book taker h0 best hb hp w e he =>
    intro h ha; obtain ⟨hprior, -⟩ := walkIds_walking left book taker _ (.of_best h ha hb)
    have he : (walkIds left book taker (book.getOrderIds makerPair best)).2 = _ := he
    exact ⟨by simpa [momentsPrices, h0, hb, hp, he] using hprior, fun r hr => by cases hr⟩
  | case6 fuel left book taker h0 best hb hp w r hr book1 hstop =>
    intro h ha; obtain ⟨hprior, hwalking⟩ := walkIds_walking left book taker _ (.of_best h ha hb)
    have hr : (walkIds left book taker (book.getOrderIds makerPair best)).2 = _ := hr
    refine ⟨by simpa [momentsPrices, h0, hb, hp, hr, hstop] using hprior, fun r' hr' => ?_⟩; cases hr'
    show Aged n book1.book; rw [WorldState.book_putOrderIds]; exact (hwalking r hr).aged
  | case7 fuel left book taker h0 best hb hp w r hr book1 hstop hids v ih =>
    intro h ha; obtain ⟨hprior, hwalking⟩ := walkIds_walking left book taker _ (.of_best h ha hb)
    have hr : (walkIds left book taker (book.getOrderIds makerPair best)).2 = _ := hr
    have haged : Aged n (book1.removePrice makerPair best).book := by
      rw [WorldState.book_removePrice, WorldState.book_putOrderIds]
      exact (hwalking r hr).aged.congr rfl rfl
    obtain ⟨hprior', haged'⟩ := ih ((hwalking r hr).indexed.next_price hids) haged
    refine ⟨fun m hm => ?_, haged'⟩
    simp only [momentsPrices, h0, hb, hp, hr, hstop, hids, ↓reduceIte, Bool.false_eq_true, ne_eq, not_true_eq_false,
      or_self] at hm
    rcases List.mem_append.mp hm with hm | hm
    · exact hprior m hm
    · rw [← hids] at hm; exact hprior' m hm
  | case8 fuel left book taker h0 best hb hp w r hr book1 hstop hids =>
    intro h ha; obtain ⟨hprior, hwalking⟩ := walkIds_walking left book taker _ (.of_best h ha hb)
    have hr : (walkIds left book taker (book.getOrderIds makerPair best)).2 = _ := hr
    refine ⟨by simpa [momentsPrices, h0, hb, hp, hr, hstop, hids] using hprior, fun r' hr' => ?_⟩
    cases hr'; show Aged n book1.book; rw [WorldState.book_putOrderIds]
    exact (hwalking r hr).aged

end Matching

/-! ## Accepted operations -/

/-- The number of the last order. -/
def WorldState.orderCount (s : WorldState) : Nat := (s.getProp .marketOrderNum).toUInt64.toNat

/-- Older orders are first in every queue of the state. -/
def AgedState (s : WorldState) : Prop := Aged s.orderCount s.book

/-- Leading zeros do not count. -/
lemma ofBe_replicate_append (n : Nat) (b : Bytes) : Bytes.ofBe (List.replicate n 0 ++ b) = Bytes.ofBe b := by
  induction n with
  | zero => rfl
  | succ n ih => exact ih

namespace MarketSellAssetActuator
variable {c : MarketSellAssetContract} {s t : WorldState} {res : ExecutionResult}

lemma orderNumber_orderIdOf (n : Int64) : orderNumber (orderIdOf n) = n.toUInt64.toNat := by
  rw [orderNumber, orderIdOf, ofBe_replicate_append, numberBytes, Bytes.ofBe_be n.toUInt64.toNat_lt]

/-- The fills of a sell. -/
def sellMoments (c : MarketSellAssetContract) (s : WorldState) : List Moment :=
  match Address.ofBytes c.ownerAddress with
  | none => []
  | some owner => moments (listed s owner) (newOrder c owner (orderIdOf (s.getProp .marketOrderNum + 1))
      (s.getProp .latestBlockHeaderTimestamp))

/-- They are the fills that `match_order` makes when the sell is executed. -/
theorem sellMoments_fills {owner : Address} {tk : Taking} (h : starts c s owner tk) :
    (sellMoments c s).map Moment.filled = (walk (listed s owner) tk.order).1 := by
  obtain ⟨ho, -, -, -, -, -, horder⟩ := h; rw [sellMoments, ho, horder]; exact moments_fills ..

lemma fresh_of_aged (ha : AgedState s) (hnum : s.getProp .marketOrderNum ≠ -1) :
    s.getOrder (orderIdOf (s.getProp .marketOrderNum + 1)) = none := by
  cases ho : s.getOrder (orderIdOf (s.getProp .marketOrderNum + 1)) with
  | none => rfl
  | some o =>
    have hle := ha.known _ o ho
    rw [orderNumber_orderIdOf, Int64.toNat_toUInt64_add_one hnum, WorldState.orderCount] at hle; omega

lemma aged_listed (ha : AgedState s) (owner : Address) : Aged s.orderCount (listed s owner).book := by
  obtain ⟨orders, hl⟩ := listed_eq s owner; rw [hl]; exact ha.congr rfl rfl

lemma sellMoments_prior (hs : Indexed none none s.book) (ha : AgedState s)
    (hnum : s.getProp .marketOrderNum ≠ -1) : ∀ m ∈ sellMoments c s, m.Prior := by
  unfold sellMoments
  cases Address.ofBytes c.ownerAddress with
  | none => simp
  | some owner =>
    exact (walkPrices_aged _ _ _ _ _ (indexed_listed hs (fresh_of_aged ha hnum) owner) (aged_listed ha owner)).1

lemma orderCount_sell (hx : execute c s = .ok res t) : t.getProp .marketOrderNum = s.getProp .marketOrderNum + 1 := by
  obtain ⟨owner, tk, order, account, book, accounts, ⟨-, -, -, -, -, -, horder⟩, -, hwalk, hprop, hfin⟩ := execute_ok hx
  have hid : order.orderId = (orderIdOf (s.getProp .marketOrderNum + 1)).bytes := by
    rw [orderId_walkPrices _ _ _ _ _ _ hwalk, horder]; rfl
  have hnum : (listed s owner).getProp .marketOrderNum = s.getProp .marketOrderNum + 1 := by
    obtain ⟨orders, hl⟩ := listed_eq s owner; rw [hl]; exact getProp_putProp_self ..
  rw [finish_ok hid hfin, finished, getProp_burnFee_of_ne _ _ (by decide), ← hnum]
  split
  · rw [WorldState.getProp, WorldState.getProp, ← hprop]
    exact congrArg (fun ps : Column Property Int64 => (ps.get .marketOrderNum).getD 0)
      (WorldState.properties_addOrderToBook _ _ _ _)
  · rw [WorldState.getProp, WorldState.getProp, ← hprop]; rfl

/-- **A sell keeps the queues in order.** -/
theorem aged_sell {v : Int64} (hs : Indexed none none s.book) (ha : AgedState s)
    (hv : validate c s = .ok v) (hx : execute c s = .ok res t) (hnum : s.getProp .marketOrderNum ≠ -1) :
    AgedState t := by
  have hfresh := fresh_of_aged ha hnum
  have hcount := orderCount_sell hx
  obtain ⟨owner, now, order, account, book, accounts, hwalk, hm, rfl⟩ := sold hs hv hx hfresh
  have hnumber := orderNumber_orderIdOf (s.getProp .marketOrderNum + 1)
  rw [Int64.toNat_toUInt64_add_one hnum] at hnumber
  have haged := (walkPrices_aged _ _ _ _ _ (indexed_listed hs hfresh owner) (aged_listed ha owner)).2 _ hwalk
  have hbound := haged.mono (Nat.le_succ s.orderCount)
  rw [AgedState, WorldState.orderCount, hcount, Int64.toNat_toUInt64_add_one hnum, book_finished]
  split
  · have hqueue : (book.getOrderIds (pairKey c.sellTokenId c.buyTokenId) (c.sellTokenQuantity, c.buyTokenQuantity) ++
        [orderIdOf (s.getProp .marketOrderNum + 1)]).Pairwise Older := by
      refine List.pairwise_append.mpr ⟨haged.queues _ _, List.pairwise_singleton .., fun x hx y hy => ?_⟩
      obtain rfl := List.mem_singleton.mp hy
      obtain ⟨o, ho, -⟩ := (hm.indexed.queued _ _ x).mp hx
      rw [Older, hnumber]; exact Nat.lt_succ_of_le (haged.known x o ho)
    exact ((hbound.setQueue _ _ hqueue).setOrder hnumber.le order).congr rfl rfl
  · exact (hbound.setOrder hnumber.le _).congr rfl rfl

end MarketSellAssetActuator

namespace MarketCancelOrderActuator
variable {c : MarketCancelOrderContract} {s t : WorldState}

/-- **A cancellation keeps the queues in order.** -/
theorem aged_cancel {res : ExecutionResult} (hs : Indexed none none s.book) (ha : AgedState s)
    (hx : execute c s = .ok res t) : AgedState t := by
  refine ok_elim (P := fun _ t => AgedState t) hx (wp_execute ?_)
  intro owner id key order account balance account' hid ho _ _ _ hk
  obtain rfl := (hs.orders id order ho).eq_of_key hk
  have hcount : (closed s owner account' key key order).orderCount = s.orderCount := by
    obtain ⟨_, _, _, _, hu⟩ := closed_eq s owner account' key key order
    rw [hu, WorldState.orderCount]
    exact congrArg (fun k : Int64 => k.toUInt64.toNat) (getProp_burnFee_of_ne _ _ (by decide))
  rw [AgedState, hcount, book_closed]
  have haged := (ha.setOrder (ha.known key order ho) (cancelled order)).setQueue order.pair order.price
    ((ha.queues order.pair order.price).filter (· ≠ key))
  exact (haged.prune order.pair order.price).congr rfl rfl

end MarketCancelOrderActuator

/-! ## Runs -/

/-- The condition on one operation, in the state before it: the price list has no other price of
the ratio of the order that is sold or cancelled, and the counter of ids does not wrap. -/
def MarketOp.InTurn (s : WorldState) : MarketOp → Prop
  | .sell c => (∀ p ∈ s.getPrices (pairKey c.sellTokenId c.buyTokenId),
      cmpMakerPrice p (c.sellTokenQuantity, c.buyTokenQuantity) = .eq → p = (c.sellTokenQuantity, c.buyTokenQuantity)) ∧
      s.getProp .marketOrderNum ≠ -1
  | .cancel c => MarketCancelOrderActuator.Listable c s

lemma NoOrders.aged {s : WorldState} (h : NoOrders s) : AgedState s := by
  refine ⟨fun id o ho => ?_, fun pair price => ?_⟩
  · change s.marketOrder.get id = some o at ho; rw [h.orders, get_empty] at ho; cases ho
  · show ((s.marketPairPrice.get _).getD []).Pairwise Older; rw [h.queues, get_empty]; exact .nil

lemma aged_step {s t : WorldState} {op : MarketOp} (hs : Indexed none none s.book) (ha : AgedState s)
    (h : (orderBook.guard MarketOp.InTurn).step s op t) : Indexed none none t.book ∧ AgedState t := by
  obtain ⟨hturn, res, hrun⟩ := h
  cases op with
  | sell =>
    obtain ⟨⟨v, hv⟩, hx⟩ := Actuator.run_ok hrun
    have hfresh := MarketSellAssetActuator.fresh_of_aged ha hturn.2
    exact ⟨MarketSellAssetActuator.indexed_sell hs hv hx ⟨hfresh, hturn.1⟩,
      MarketSellAssetActuator.aged_sell hs ha hv hx hturn.2⟩
  | cancel =>
    have hx := (Actuator.run_ok hrun).2
    exact ⟨MarketCancelOrderActuator.indexed_cancel hs hx hturn, MarketCancelOrderActuator.aged_cancel hs ha hx⟩

/-- **Price-time priority.** In every book that accepted operations lead to from an empty one, as long as no order that
is sold or cancelled meets another price of its ratio in the list of its pair and the counter of ids does not wrap,
whenever an accepted sell fills a resting order, every active order of its pair that is cheaper, or as cheap and older,
is used up. -/
theorem price_time_priority {s t u : WorldState} {ops : List MarketOp} {c : MarketSellAssetContract}
    (h0 : orderBook.init s) (hrun : (orderBook.guard MarketOp.InTurn).Run s ops t)
    (hsell : (orderBook.guard MarketOp.InTurn).step t (.sell c) u) :
    ∀ m ∈ MarketSellAssetActuator.sellMoments c t, m.Prior := by
  have hstep : ∀ u op v, Indexed none none u.book ∧ AgedState u → (orderBook.guard MarketOp.InTurn).step u op v →
      Indexed none none v.book ∧ AgedState v := fun u op v hu hv => aged_step hu.1 hu.2 hv
  obtain ⟨hindexed, haged⟩ := hrun.preserves hstep ⟨NoOrders.indexed h0, NoOrders.aged h0⟩
  exact MarketSellAssetActuator.sellMoments_prior hindexed haged hsell.1.2

instance (s : WorldState) (op : MarketOp) : Decidable (op.InTurn s) :=
  match op with
  | .sell _ => inferInstanceAs (Decidable (_ ∧ _))
  | .cancel c => inferInstanceAs (Decidable (MarketCancelOrderActuator.Listable c s))

section Trades
open MarketSellAssetActuator

/-- Three sales of token 1, the first at two TRX each and the others at one: an offer takes the second, the third and
then a part of the first. -/
theorem price_time_priority_three : ∃ t u, (orderBook.guard MarketOp.InTurn).Run traders
      [sellToken1 (Address.ofNat 0xaa) 10 20, sellToken1 (Address.ofNat 0xaa) 10 10,
        sellToken1 (Address.ofNat 0xaa) 10 10] t ∧
    (orderBook.guard MarketOp.InTurn).step t (.sell ⟨(Address.ofNat 0xbb).asBytes, trxSymbol, 25, token1, 5⟩) u ∧
    (sellMoments ⟨(Address.ofNat 0xbb).asBytes, trxSymbol, 25, token1, 5⟩ t).map Moment.id =
      [orderIdOf 2, orderIdOf 3, orderIdOf 1] ∧
    ∀ m ∈ sellMoments ⟨(Address.ofNat 0xbb).asBytes, trxSymbol, 25, token1, 5⟩ t, m.Prior := by
  have h : (Lts.exec (Lts.guardStep (fun s op => op.InTurn s) MarketOp.next) traders
      [sellToken1 (Address.ofNat 0xaa) 10 20, sellToken1 (Address.ofNat 0xaa) 10 10,
        sellToken1 (Address.ofNat 0xaa) 10 10]).map
      (fun t => ((sellMoments ⟨(Address.ofNat 0xbb).asBytes, trxSymbol, 25, token1, 5⟩ t).map Moment.id,
        (Lts.guardStep (fun s op => op.InTurn s) MarketOp.next t
          (.sell ⟨(Address.ofNat 0xbb).asBytes, trxSymbol, 25, token1, 5⟩)).isSome)) =
      some ([orderIdOf 2, orderIdOf 3, orderIdOf 1], true) := by decide +kernel
  have hstep : ∀ s op t, Lts.guardStep (fun s op => op.InTurn s) MarketOp.next s op = some t →
      (orderBook.guard MarketOp.InTurn).step s op t :=
    fun _ _ _ => Lts.step_of_guardStep fun _ _ _ => MarketOp.step_of_next
  obtain ⟨t, hrun, hobs⟩ := Lts.Run.exists_of_exec hstep h
  obtain ⟨hids, hsome⟩ := Prod.mk.inj hobs
  obtain ⟨u, hu⟩ := Option.isSome_iff_exists.mp hsome
  exact ⟨t, u, hrun, hstep _ _ _ hu, hids, price_time_priority noOrders_traders hrun (hstep _ _ _ hu)⟩

/-- Three sales of token 1 at two TRX each, the second one of two tokens: its price is not listed, and an offer that
takes two tokens takes the first and the third order. -/
theorem older_order_is_passed_over : ∃ s ops t c u, orderBook.init s ∧ orderBook.Run s ops t ∧
    orderBook.step t (.sell c) u ∧ ¬ ∀ m ∈ sellMoments c t, m.Prior := by
  have h : (Lts.exec MarketOp.next traders [sellToken1 (Address.ofNat 0xaa) 1 2, sellToken1 (Address.ofNat 0xaa) 2 4,
        sellToken1 (Address.ofNat 0xaa) 1 2]).map
      (fun t => ((sellMoments ⟨(Address.ofNat 0xbb).asBytes, trxSymbol, 4, token1, 2⟩ t).any fun m =>
          (m.book.getOrder (orderIdOf 2)).any fun o => decide (o.state = orderActive ∧
            o.sellTokenId = m.maker.sellTokenId ∧ o.buyTokenId = m.maker.buyTokenId ∧ o.ratio = m.maker.ratio ∧
            Older (orderIdOf 2) m.id ∧ o.sellTokenQuantityRemain ≠ 0),
        (MarketOp.next t (.sell ⟨(Address.ofNat 0xbb).asBytes, trxSymbol, 4, token1, 2⟩)).isSome)) =
      some (true, true) := by decide +kernel
  obtain ⟨t, hrun, hobs⟩ := Lts.Run.exists_of_exec (M := orderBook) (fun _ _ _ => MarketOp.step_of_next) h
  obtain ⟨hany, hsome⟩ := Prod.mk.inj hobs
  obtain ⟨u, hu⟩ := Option.isSome_iff_exists.mp hsome
  refine ⟨traders, _, t, _, u, noOrders_traders, hrun, MarketOp.step_of_next hu, fun hall => ?_⟩
  obtain ⟨m, hm, hany⟩ := List.any_eq_true.mp hany
  obtain ⟨o, ho, hany⟩ := (Option.any_eq_true ..).mp hany
  obtain ⟨hactive, hsell, hbuy, hratio, hold, hopen⟩ := of_decide_eq_true hany
  exact hopen (hall m hm _ o ho hactive hsell hbuy (.inr ⟨hratio, hold⟩))

end Trades

end TronRs

import TronRs.L3Actuators.Market.Conservation

/-!
# The indices of the order book

A resting order is found through its pair's price list, through the queue of its pair and
price, and through its owner's list. `Book` is what these records say, with the stored orders;
the operations of the order book are updates of it.

`Indexed` says that the records agree: exactly the orders that still offer something are in
the queues and in the owners' lists, exactly the prices with a queue are listed, and every
list is sorted. Inside a step it holds with a gap, a listed price whose queue may be empty,
and with a pending order, one that its owner's list names before it is stored.

* `Indexed.setOrder`, `Indexed.close`, `Indexed.prune`, `Indexed.rest`, `Indexed.drop`: what
  each update keeps.
* `walkIds_indexed`, `walkPrices_indexed`: what matching keeps, and that an order is left over
  only when no listed price matches it.
* `sold`, `MarketCancelOrderActuator.indexed_cancel`: what an accepted operation keeps.

The price list has one entry for each ratio, while the queues are found by the quantities. So
two prices of one ratio share an entry, and the records agree only as long as no pair has two.
-/
namespace TronRs

open TronRs.Core

variable {p q : Price} {ts tb : Int64} {prices : List Price} {f : Fill}

/-! ## The order of prices -/

lemma cmpMakerPrice_eq_lt : cmpMakerPrice p q = .lt ↔ p.2.toInt * q.1.toInt < q.2.toInt * p.1.toInt := by
  rw [cmpMakerPrice, comparePrice, compare_lt_iff_lt]

lemma cmpMakerPrice_eq_eq : cmpMakerPrice p q = .eq ↔ p.2.toInt * q.1.toInt = q.2.toInt * p.1.toInt := by
  rw [cmpMakerPrice, comparePrice, compare_eq_iff_eq]

lemma priceMatch_eq_false {ms mb : Int64} :
    priceMatch ts tb ms mb = false ↔ ts.toInt * ms.toInt < mb.toInt * tb.toInt := by
  rw [priceMatch, comparePrice, decide_eq_false_iff_not, not_not, compare_lt_iff_lt]

/-- Whether two prices match does not depend on which of them is the taker's. -/
lemma priceMatch_comm {ms mb : Int64} (h : priceMatch ts tb ms mb = false) : priceMatch ms mb ts tb = false := by
  rw [priceMatch_eq_false] at h ⊢; rwa [mul_comm ms.toInt, mul_comm tb.toInt]

/-- The better price: a lower ratio of what is asked to what is offered. -/
def Better (p q : Price) : Prop := cmpMakerPrice p q = .lt

lemma Better.trans {r : Price} (hp : 0 < p.1.toInt) (hq : 0 < q.1.toInt) (hr : 0 < r.1.toInt)
    (hpq : Better p q) (hqr : Better q r) : Better p r := by
  rw [Better, cmpMakerPrice_eq_lt] at *
  refine lt_of_mul_lt_mul_right ?_ hq.le
  calc p.2.toInt * r.1.toInt * q.1.toInt = p.2.toInt * q.1.toInt * r.1.toInt := by ring
    _ < q.2.toInt * p.1.toInt * r.1.toInt := mul_lt_mul_of_pos_right hpq hr
    _ = q.2.toInt * r.1.toInt * p.1.toInt := by ring
    _ < r.2.toInt * q.1.toInt * p.1.toInt := mul_lt_mul_of_pos_right hqr hp
    _ = r.2.toInt * p.1.toInt * q.1.toInt := by ring

/-- A price that matches nothing better matches nothing worse. -/
lemma priceMatch_worse (htb : 0 < tb.toInt) (hp : 0 < p.1.toInt)
    (hq : 0 < q.1.toInt) (hpq : Better p q) (h : priceMatch ts tb p.1 p.2 = false) :
    priceMatch ts tb q.1 q.2 = false := by
  rw [Better, cmpMakerPrice_eq_lt] at hpq; rw [priceMatch_eq_false] at h ⊢
  refine lt_of_mul_lt_mul_right ?_ hp.le
  calc ts.toInt * q.1.toInt * p.1.toInt = ts.toInt * p.1.toInt * q.1.toInt := by ring
    _ < p.2.toInt * tb.toInt * q.1.toInt := mul_lt_mul_of_pos_right h hq
    _ = p.2.toInt * q.1.toInt * tb.toInt := by ring
    _ < q.2.toInt * p.1.toInt * tb.toInt := mul_lt_mul_of_pos_right hpq htb
    _ = q.2.toInt * tb.toInt * p.1.toInt := by ring

/-- A sorted list has one entry for each ratio. -/
lemma eq_of_cmpMakerPrice_eq (hs : prices.Pairwise Better) (hp : p ∈ prices)
    (hq : q ∈ prices) (h : cmpMakerPrice p q = .eq) : p = q := by
  by_contra hne
  have hpair : prices.Pairwise fun p q => ¬ cmpMakerPrice p q = .eq :=
    hs.imp fun {p q} hlt heq => by rw [Better, heq] at hlt; cases hlt
  have hsymm : Std.Symm fun p q : Price => ¬ cmpMakerPrice p q = .eq := ⟨fun p q hpq heq => hpq (by
    rw [cmpMakerPrice_eq_eq] at heq ⊢
    exact heq.symm)⟩
  exact hpair.forall hp hq hne h

/-- The price list after a price is inserted. -/
def listPrice (prices : List Price) (price : Price) : List Price :=
  if prices.any fun p => cmpMakerPrice p price = .eq then prices
  else
    let better := fun p => cmpMakerPrice p price = Ordering.lt
    prices.takeWhile better ++ price :: prices.dropWhile better

/-- The list stays as it is when it has the ratio, and gains the price otherwise. -/
lemma listPrice_cases (prices : List Price) (price : Price) :
    (∃ p ∈ prices, cmpMakerPrice p price = .eq) ∧ listPrice prices price = prices ∨
      (listPrice prices price).Perm (price :: prices) := by
  unfold listPrice
  split
  · rename_i hany; obtain ⟨p, hp, heq⟩ := List.any_eq_true.mp hany
    exact .inl ⟨⟨p, hp, of_decide_eq_true heq⟩, rfl⟩
  · refine .inr (List.perm_middle.trans ?_); rw [List.takeWhile_append_dropWhile]

lemma mem_listPrice {price : Price} (h : ∀ p ∈ prices, cmpMakerPrice p price = .eq → p = price) (q : Price) :
    q ∈ listPrice prices price ↔ q ∈ prices ∨ q = price := by
  rcases listPrice_cases prices price with ⟨⟨p, hp, heq⟩, hlist⟩ | hperm
  · obtain rfl := h p hp heq; rw [hlist, or_iff_left_of_imp]; rintro rfl
    exact hp
  · rw [hperm.mem_iff, List.mem_cons, or_comm]

lemma listPrice_ne_nil (prices : List Price) (price : Price) : listPrice prices price ≠ [] := by
  intro hnil
  rcases listPrice_cases prices price with ⟨⟨p, hp, -⟩, hlist⟩ | hperm
  · rw [← hlist, hnil] at hp; cases hp
  · rw [hnil] at hperm; cases hperm.symm.eq_nil

lemma sorted_listPrice {price : Price} (hs : prices.Pairwise Better)
    (hpos : ∀ p ∈ prices, 0 < p.1.toInt) (hprice : 0 < price.1.toInt) : (listPrice prices price).Pairwise Better := by
  unfold listPrice
  split
  · exact hs
  rename_i hany
  have hne : ∀ p ∈ prices, ¬ cmpMakerPrice p price = .eq := fun p hp heq =>
    hany (List.any_eq_true.mpr ⟨p, hp, decide_eq_true heq⟩)
  clear hany
  induction prices with
  | nil => exact List.pairwise_singleton _ _
  | cons p prices ih =>
    rw [List.pairwise_cons] at hs; rw [List.forall_mem_cons] at hpos hne
    by_cases hlt : cmpMakerPrice p price = .lt
    · simp only [List.takeWhile_cons, List.dropWhile_cons, hlt, decide_true, ↓reduceIte, List.cons_append,
        List.pairwise_cons]
      refine ⟨fun q hq => ?_, ih hs.2 hpos.2 hne.2⟩
      rcases List.mem_append.mp hq with hq | hq
      · exact hs.1 q (List.takeWhile_sublist _ |>.subset hq)
      · rcases List.mem_cons.mp hq with rfl | hq
        · exact hlt
        · exact hs.1 q (List.dropWhile_sublist _ |>.subset hq)
    · -- the new price comes first: it is better than `p`, and so than all the others
      have hbetter : Better price p := by
        rw [cmpMakerPrice_eq_lt] at hlt; have hneq := hne.1; rw [cmpMakerPrice_eq_eq] at hneq
        rw [Better, cmpMakerPrice_eq_lt]; omega
      simp only [List.takeWhile_cons, List.dropWhile_cons, hlt, decide_false, Bool.false_eq_true, ↓reduceIte,
        List.nil_append, List.pairwise_cons, List.forall_mem_cons]
      exact ⟨⟨hbetter, fun q hq => hbetter.trans hprice hpos.1 (hpos.2 q hq) (hs.1 q hq)⟩, hs.1, hs.2⟩

/-! ## The book -/

/-- The pair an order trades. -/
def MarketOrder.pair (o : MarketOrder) : Bytes := pairKey o.sellTokenId o.buyTokenId

/-- The price an order asks. -/
def MarketOrder.price (o : MarketOrder) : Price := (o.sellTokenQuantity, o.buyTokenQuantity)

/-- The order still offers something. -/
def MarketOrder.Open (o : MarketOrder) : Prop := o.sellTokenQuantityRemain ≠ 0

instance (o : MarketOrder) : Decidable o.Open := inferInstanceAs (Decidable (_ ≠ _))

namespace SameTerms
variable {o o' : MarketOrder}

lemma pair (h : SameTerms o o') : o'.pair = o.pair := by
  rw [MarketOrder.pair, h.sellToken, h.buyToken, MarketOrder.pair]

lemma price (h : SameTerms o o') : o'.price = o.price := by
  rw [MarketOrder.price, h.sellQuantity, h.buyQuantity, MarketOrder.price]

end SameTerms

/-- The terms that an accepted order has. -/
structure Tradable (id : OrderId) (o : MarketOrder) : Prop extends OrderTerms id o where
  distinct : o.sellTokenId ≠ o.buyTokenId

lemma Tradable.of_sameTerms {id : OrderId} {o o' : MarketOrder} (h : Tradable id o) (ht : SameTerms o o') :
    Tradable id o' :=
  ⟨h.toOrderTerms.of_sameTerms ht, by rw [ht.sellToken, ht.buyToken]; exact h.distinct⟩

/-- The orders and the records that lead to them. -/
@[ext]
structure Book where
  order : OrderId → Option MarketOrder
  queue : Bytes → Price → List OrderId
  prices : Bytes → List Price
  owned : Bytes → List OrderId

namespace Book
variable {id : OrderId} {pair : Bytes} {price : Price} {ids : List OrderId}

def setOrder (b : Book) (id : OrderId) (o : MarketOrder) : Book :=
  { b with order := Function.update b.order id (some o) }

def setQueue (b : Book) (pair : Bytes) (price : Price) (ids : List OrderId) : Book :=
  { b with queue := fun pair' price' => if pair' = pair ∧ price' = price then ids else b.queue pair' price' }

def setPrices (b : Book) (pair : Bytes) (prices : List Price) : Book :=
  { b with prices := Function.update b.prices pair prices }

def setOwned (b : Book) (owner : Bytes) (ids : List OrderId) : Book :=
  { b with owned := Function.update b.owned owner ids }

/-- No queue and no list names the order. -/
def unlisted (b : Book) (id : OrderId) : Book :=
  { b with
    queue := fun pair price => (b.queue pair price).filter (· ≠ id)
    owned := fun owner => (b.owned owner).filter (· ≠ id) }

/-- A price with an empty queue leaves the price list, and so do all prices of its ratio. -/
def prune (b : Book) (pair : Bytes) (price : Price) : Book :=
  if b.queue pair price = [] then
    b.setPrices pair ((b.prices pair).filter fun p => cmpMakerPrice p price ≠ .eq)
  else b

variable (b : Book)

@[simp] lemma order_setOrder_self (id : OrderId) (o : MarketOrder) : (b.setOrder id o).order id = some o :=
  Function.update_self ..

lemma order_setOrder_of_ne {x : OrderId} (o : MarketOrder) (h : x ≠ id) : (b.setOrder id o).order x = b.order x :=
  Function.update_of_ne h ..

@[simp] lemma queue_setQueue_self (pair : Bytes) (price : Price) (ids : List OrderId) :
    (b.setQueue pair price ids).queue pair price = ids :=
  if_pos ⟨rfl, rfl⟩

lemma setQueue_setQueue (pair : Bytes) (price : Price) (ids ids' : List OrderId) :
    (b.setQueue pair price ids).setQueue pair price ids' = b.setQueue pair price ids' := by
  unfold setQueue; congr 1; funext pair' price'
  dsimp only; split <;> rfl

lemma setQueue_eq_self (h : b.queue pair price = ids) : b.setQueue pair price ids = b := by
  refine Book.ext rfl ?_ rfl rfl; funext pair' price'; show (if _ then _ else _) = _
  split
  · rename_i heq; rw [heq.1, heq.2, h]
  · rfl

lemma setOwned_eq_self {owner : Bytes} (h : b.owned owner = ids) : b.setOwned owner ids = b := by
  rw [setOwned, ← h, Function.update_eq_self]

lemma prune_eq_self (h : ∀ p ∈ b.prices pair, ¬ cmpMakerPrice p price = .eq) : b.prune pair price = b := by
  unfold prune
  split
  · rw [List.filter_eq_self.mpr fun p hp => decide_eq_true (h p hp), setPrices, Function.update_eq_self]
  · rfl

lemma mem_prices_prune {pair' : Bytes} {p : Price} (h : p ∈ (b.prune pair price).prices pair') :
    p ∈ b.prices pair' := by
  unfold prune at h
  split at h
  · change p ∈ Function.update b.prices pair _ pair' at h; rw [Function.update_apply] at h
    split at h
    · rename_i heq; rw [heq]; exact List.mem_of_mem_filter h
    · exact h
  · exact h

lemma prune_setOwned (pair : Bytes) (price : Price) (owner : Bytes) (ids : List OrderId) :
    (b.setOwned owner ids).prune pair price = (b.prune pair price).setOwned owner ids := by
  unfold prune; show (if b.queue pair price = [] then _ else _) = _; split <;> rfl

lemma unlisted_setOrder (id : OrderId) (o : MarketOrder) :
    (b.setOrder id o).unlisted id = (b.unlisted id).setOrder id o := rfl

/-- Replacing an order by one that looks the same to `P`. -/
lemma exists_setOrder {b : Book} {o o' : MarketOrder} {P : MarketOrder → Prop}
    (ho : b.order id = some o) (hP : P o' ↔ P o) (x : OrderId) :
    (∃ y, (b.setOrder id o').order x = some y ∧ P y) ↔ ∃ y, b.order x = some y ∧ P y := by
  by_cases hx : x = id
  · rw [hx, order_setOrder_self, ho]; simp [hP]
  · rw [order_setOrder_of_ne b o' hx]

end Book

/-! ### The operations of the order book, as updates of it -/

namespace WorldState
variable (s : WorldState)

def book : Book := ⟨s.getOrder, s.getOrderIds, s.getPrices, s.getAccountOrders⟩

lemma book_putOrder (id : OrderId) (o : MarketOrder) :
    ({ s with marketOrder := s.marketOrder.put id o } : WorldState).book = s.book.setOrder id o := by
  refine Book.ext (funext fun x => ?_) rfl rfl rfl
  by_cases hx : x = id
  · rw [hx, Book.order_setOrder_self]; exact get_put_self ..
  · rw [Book.order_setOrder_of_ne _ o hx]; exact get_put_of_ne hx

lemma book_putOrderIds (pair : Bytes) (price : Price) (ids : List OrderId) :
    (s.putOrderIds pair price ids).book = s.book.setQueue pair price ids :=
  Book.ext rfl (funext fun pair' => funext fun price' => s.getOrderIds_putOrderIds pair pair' price price' ids) rfl rfl

lemma book_putPrices (pair : Bytes) (prices : List Price) :
    (s.putPrices pair prices).book = s.book.setPrices pair prices := by
  refine Book.ext rfl rfl (funext fun pair' => ?_) rfl
  show (s.putPrices pair prices).getPrices pair' = Function.update s.getPrices pair prices pair'
  rw [getPrices_putPrices, Function.update_apply]

lemma book_putAccountOrders (owner : Bytes) (ids : List OrderId) :
    (s.putAccountOrders owner ids).book = s.book.setOwned owner ids := by
  refine Book.ext rfl rfl rfl (funext fun owner' => ?_)
  show (s.putAccountOrders owner ids).getAccountOrders owner' = Function.update s.getAccountOrders owner ids owner'
  rw [Function.update_apply, getAccountOrders, putAccountOrders]
  split
  · rename_i hnil; rw [get_delete, hnil]; split <;> rfl
  · rw [get_put]; split <;> rfl

lemma book_removeAccountOrder (owner : Bytes) (id : OrderId) :
    (s.removeAccountOrder owner id).book = s.book.setOwned owner ((s.book.owned owner).filter (· ≠ id)) :=
  s.book_putAccountOrders owner _

lemma book_removePrice (pair : Bytes) (price : Price) : (s.removePrice pair price).book =
    s.book.setPrices pair ((s.book.prices pair).filter fun p => cmpMakerPrice p price ≠ .eq) := by
  refine Eq.trans ?_ (s.book_putPrices pair _); unfold removePrice; dsimp only
  split <;> rfl

lemma book_insertPrice (pair : Bytes) (price : Price) :
    (s.insertPrice pair price).book = s.book.setPrices pair (listPrice (s.book.prices pair) price) := by
  have hprices : s.book.prices pair = s.getPrices pair := rfl
  rw [hprices]; unfold insertPrice listPrice; dsimp only
  split
  · rw [Book.setPrices, ← hprices, Function.update_eq_self]
  · exact s.book_putPrices pair _

lemma book_addOrderToBook (pair : Bytes) (price : Price) (id : OrderId) : (s.addOrderToBook pair price id).book =
    (s.book.setQueue pair price (s.book.queue pair price ++ [id])).setPrices pair
      (listPrice (s.book.prices pair) price) := by
  have hpair : ∀ u : WorldState, (u.addPair pair).book = u.book := fun u => by unfold addPair; split <;> rfl
  rw [addOrderToBook, hpair, book_insertPrice, book_putOrderIds]; rfl

lemma book_burnFee (fee : Int64) : (burnFee s fee).book = s.book := by
  unfold burnFee; split <;> rfl

end WorldState

/-! ## The records agree -/

/-- Exactly the open orders are queued, exactly the prices with a queue are listed, in order,
and exactly the open orders are in their owners' lists. The price `gap` is listed whether it
has a queue or not, and its owner's list names the order `pending`, which is not stored. -/
structure Indexed (gap : Option (Bytes × Price)) (pending : Option (OrderId × Bytes)) (b : Book) : Prop where
  orders : ∀ id o, b.order id = some o → Tradable id o
  queued : ∀ pair price id, id ∈ b.queue pair price ↔
    ∃ o, b.order id = some o ∧ o.pair = pair ∧ o.price = price ∧ o.Open
  queuedOnce : ∀ pair price, (b.queue pair price).Nodup
  listed : ∀ pair price, price ∈ b.prices pair ↔ b.queue pair price ≠ [] ∨ gap = some (pair, price)
  sorted : ∀ pair, (b.prices pair).Pairwise Better
  owned : ∀ owner id, id ∈ b.owned owner ↔
    (∃ o, b.order id = some o ∧ o.ownerAddress = owner ∧ o.Open) ∨ pending = some (id, owner)
  ownedOnce : ∀ owner, (b.owned owner).Nodup
  unstored : ∀ id owner, pending = some (id, owner) → b.order id = none

lemma filter_ne_eq_self {ids : List OrderId} {id : OrderId} (h : id ∉ ids) : ids.filter (· ≠ id) = ids :=
  List.filter_eq_self.mpr fun _ hx => decide_eq_true fun heq => h (heq ▸ hx)

namespace Indexed

variable {gap : Option (Bytes × Price)} {pending : Option (OrderId × Bytes)} {b : Book}
variable {id : OrderId} {o o' : MarketOrder} {pair : Bytes} {price : Price}

variable (h : Indexed gap pending b)
include h

lemma eq_of_queued (ho : b.order id = some o)
    (hid : id ∈ b.queue pair price) : o.pair = pair ∧ o.price = price ∧ o.Open := by
  obtain ⟨o', ho', hq⟩ := (h.queued pair price id).mp hid
  rw [ho] at ho'; cases ho'; exact hq

lemma eq_of_owned (ho : b.order id = some o) {owner : Bytes}
    (hid : id ∈ b.owned owner) : o.ownerAddress = owner ∧ o.Open := by
  rcases (h.owned owner id).mp hid with ⟨o', ho', hq⟩ | hpend
  · rw [ho] at ho'; cases ho'; exact hq
  · rw [h.unstored id owner hpend] at ho; cases ho

/-- The price of an open order is listed. -/
lemma price_mem (ho : b.order id = some o) (hopen : o.Open) : o.price ∈ b.prices o.pair :=
  (h.listed _ _).mpr (.inl (List.ne_nil_of_mem ((h.queued _ _ _).mpr ⟨o, ho, rfl, rfl, hopen⟩)))

omit h in
/-- Without a gap, an open order waits at every listed price. -/
lemma exists_of_price (h : Indexed none pending b) (hp : price ∈ b.prices pair) :
    ∃ id o, b.order id = some o ∧ o.pair = pair ∧ o.price = price ∧ o.Open := by
  rcases (h.listed _ _).mp hp with hne | hgap
  · obtain ⟨id, hid⟩ := List.exists_mem_of_ne_nil _ hne
    obtain ⟨o, ho⟩ := (h.queued _ _ _).mp hid; exact ⟨id, o, ho⟩
  · cases hgap

omit h in
lemma price_pos (h : Indexed none pending b) (hp : price ∈ b.prices pair) : 0 < price.1.toInt := by
  obtain ⟨id, o, ho, -, rfl, -⟩ := h.exists_of_price hp
  exact (h.orders id o ho).sellQuantity

/-- An order changes, but it offers something as long as it did before. -/
lemma setOrder (ho : b.order id = some o) (ht : SameTerms o o')
    (hopen : o'.Open ↔ o.Open) : Indexed gap pending (b.setOrder id o') where
  orders := fun x y hy => by
    by_cases hx : x = id
    · rw [hx, Book.order_setOrder_self] at hy; cases hy; rw [hx]
      exact (h.orders id o ho).of_sameTerms ht
    · rw [Book.order_setOrder_of_ne b o' hx] at hy; exact h.orders x y hy
  queued := fun pair price x => by
    rw [Book.exists_setOrder ho (by rw [ht.pair, ht.price, hopen])]; exact h.queued pair price x
  queuedOnce := h.queuedOnce
  listed := h.listed
  sorted := h.sorted
  owned := fun owner x => by rw [Book.exists_setOrder ho (by rw [ht.owner, hopen])]; exact h.owned owner x
  ownedOnce := h.ownedOnce
  unstored := fun x owner hp => by
    have hx := h.unstored x owner hp
    rw [Book.order_setOrder_of_ne b o']
    · exact hx
    · rintro rfl; rw [ho] at hx; cases hx

/-- An open order is closed and leaves the lists; its price may be left without a queue. -/
lemma close (ho : b.order id = some o) (ht : SameTerms o o') (hopen : o.Open)
    (hclosed : ¬ o'.Open) (hgap : gap = none ∨ gap = some (o.pair, o.price)) :
    Indexed (some (o.pair, o.price)) pending ((b.setOrder id o').unlisted id) where
  orders := fun x y hy => by
    by_cases hx : x = id
    · rw [hx] at hy ⊢; cases (Book.order_setOrder_self b id o').symm.trans hy
      exact (h.orders id o ho).of_sameTerms ht
    · exact h.orders x y ((Book.order_setOrder_of_ne b o' hx).symm.trans hy)
  queued := fun pair price x => by
    show x ∈ (b.queue pair price).filter (· ≠ id) ↔ ∃ y, (b.setOrder id o').order x = some y ∧ _
    rw [List.mem_filter, decide_eq_true_eq, h.queued]
    by_cases hx : x = id
    · rw [hx, Book.order_setOrder_self]; refine iff_of_false (fun hne => hne.2 rfl) ?_
      rintro ⟨y, hy, -, -, hyo⟩; cases hy; exact hclosed hyo
    · rw [Book.order_setOrder_of_ne b o' hx]; exact and_iff_left hx
  queuedOnce := fun pair price => (h.queuedOnce pair price).filter _
  listed := fun pair price => by
    show price ∈ b.prices pair ↔ (b.queue pair price).filter (· ≠ id) ≠ [] ∨ _; rw [h.listed]
    constructor
    · rintro (hne | hg)
      · by_cases hid : id ∈ b.queue pair price
        · obtain ⟨hpair, hprice, -⟩ := h.eq_of_queued ho hid
          exact .inr (by rw [hpair, hprice])
        · rw [filter_ne_eq_self hid]; exact .inl hne
      · rcases hgap with hgap | hgap
        · rw [hgap] at hg; cases hg
        · exact .inr (hgap.symm.trans hg)
    · rintro (hne | hg)
      · refine .inl fun hnil => hne ?_
        rw [hnil]; rfl
      · cases hg; exact .inl (List.ne_nil_of_mem ((h.queued _ _ _).mpr ⟨o, ho, rfl, rfl, hopen⟩))
  sorted := h.sorted
  owned := fun owner x => by
    show x ∈ (b.owned owner).filter (· ≠ id) ↔ (∃ y, (b.setOrder id o').order x = some y ∧ _) ∨ _
    rw [List.mem_filter, decide_eq_true_eq, h.owned]
    by_cases hx : x = id
    · rw [hx, Book.order_setOrder_self]; refine iff_of_false (fun hne => hne.2 rfl) ?_
      rintro (⟨y, hy, -, hyo⟩ | hpend)
      · cases hy; exact hclosed hyo
      · rw [h.unstored id owner hpend] at ho; cases ho
    · rw [Book.order_setOrder_of_ne b o' hx]; exact and_iff_left hx
  ownedOnce := fun owner => (h.ownedOnce owner).filter _
  unstored := fun x owner hp => by
    have hx := h.unstored x owner hp; refine (Book.order_setOrder_of_ne b o' ?_).trans hx; rintro rfl
    rw [ho] at hx; cases hx

/-- An order is in one queue and in one list, so taking it out of these takes it out of all. -/
lemma unlisted_eq (ho : b.order id = some o) :
    b.unlisted id = (b.setQueue o.pair o.price ((b.queue o.pair o.price).filter (· ≠ id))).setOwned o.ownerAddress
      ((b.owned o.ownerAddress).filter (· ≠ id)) := by
  refine Book.ext rfl (funext fun pair => funext fun price => ?_) rfl (funext fun owner => ?_)
  · show (b.queue pair price).filter (· ≠ id) = if pair = o.pair ∧ price = o.price then _ else b.queue pair price
    split
    · rename_i heq; rw [heq.1, heq.2]
    rename_i hne
    refine filter_ne_eq_self fun hid => hne ?_
    obtain ⟨hpair, hprice, -⟩ := h.eq_of_queued ho hid
    exact ⟨hpair.symm, hprice.symm⟩
  · show (b.owned owner).filter (· ≠ id) = Function.update b.owned o.ownerAddress _ owner
    rw [Function.update_apply]
    split
    · rename_i heq; rw [heq]
    · rename_i hne
      exact filter_ne_eq_self fun hid => hne (h.eq_of_owned ho hid).1.symm

omit h

/-- The gap is closed: its price stays listed only if it has a queue. -/
lemma prune (h : Indexed (some (pair, price)) pending b) : Indexed none pending (b.prune pair price) := by
  unfold Book.prune
  split
  · rename_i hnil
    -- the price is the only entry of its ratio
    have hmem : price ∈ b.prices pair := (h.listed _ _).mpr (.inr rfl)
    have hkeep : ∀ p, p ∈ (b.prices pair).filter (fun p => cmpMakerPrice p price ≠ .eq) ↔
        p ∈ b.prices pair ∧ p ≠ price := by
      intro p; rw [List.mem_filter, decide_eq_true_eq]
      refine and_congr_right fun hp => not_congr ⟨fun heq => ?_, fun heq => ?_⟩
      · exact eq_of_cmpMakerPrice_eq (h.sorted pair) hp hmem heq
      · rw [heq]; exact cmpMakerPrice_self price
    refine { h with listed := fun pair' price' => ?_, sorted := fun pair' => ?_ }
    · show price' ∈ Function.update b.prices pair _ pair' ↔ b.queue pair' price' ≠ [] ∨ _
      by_cases hpair : pair' = pair
      · rw [hpair, Function.update_self, hkeep, h.listed]
        constructor
        · rintro ⟨hne | hg, hp⟩
          · exact .inl hne
          · cases hg; exact absurd rfl hp
        · rintro (hne | hg)
          · refine ⟨.inl hne, ?_⟩; rintro rfl; exact hne hnil
          · cases hg
      · rw [Function.update_of_ne hpair, h.listed]; refine or_congr_right ⟨fun hg => ?_, nofun⟩
        cases hg; exact absurd rfl hpair
    · show (Function.update b.prices pair _ pair').Pairwise Better
      by_cases hpair : pair' = pair
      · rw [hpair, Function.update_self]; exact (h.sorted pair).filter _
      · rw [Function.update_of_ne hpair]; exact h.sorted pair'
  · rename_i hne
    refine { h with listed := fun pair' price' => ?_ }
    rw [h.listed]
    constructor
    · rintro (hq | hg)
      · exact .inl hq
      · cases hg; exact .inl hne
    · rintro (hq | hg)
      · exact .inl hq
      · cases hg

/-- A listed price may become the gap. -/
lemma open_gap (h : Indexed none pending b) (hp : price ∈ b.prices pair) : Indexed (some (pair, price)) pending b := by
  refine { h with listed := fun pair' price' => ?_ }
  rw [h.listed]
  constructor
  · rintro (hq | hg)
    · exact .inl hq
    · cases hg
  · rintro (hq | hg)
    · exact .inl hq
    · cases hg; exact (h.listed _ _).mp hp

/-- A new order is put on its owner's list before it is stored. -/
lemma pend (h : Indexed none none b) (hid : b.order id = none) (owner : Bytes) :
    id ∉ b.owned owner ∧ Indexed none (some (id, owner)) (b.setOwned owner (b.owned owner ++ [id])) := by
  have hnot : ∀ owner', id ∉ b.owned owner' := fun owner' hmem => by
    rcases (h.owned owner' id).mp hmem with ⟨o, ho, -⟩ | hp
    · rw [hid] at ho; cases ho
    · cases hp
  refine ⟨hnot owner, { h with owned := fun owner' x => ?_, ownedOnce := fun owner' => ?_, unstored := ?_ }⟩
  · have hold := h.owned owner' x; simp only [reduceCtorEq, or_false] at hold
    show x ∈ Function.update b.owned owner _ owner' ↔ (∃ o, b.order x = some o ∧ _) ∨ _; rw [← hold]
    by_cases howner : owner' = owner
    · rw [howner, Function.update_self, List.mem_append, List.mem_singleton]
      exact or_congr_right ⟨fun hx => by rw [hx], fun hx => by cases hx; rfl⟩
    · rw [Function.update_of_ne howner]; refine ⟨.inl, fun hx => hx.resolve_right fun heq => howner ?_⟩
      cases heq; rfl
  · show (Function.update b.owned owner _ owner').Nodup
    by_cases howner : owner' = owner
    · rw [howner, Function.update_self]
      exact (h.ownedOnce owner).append (List.nodup_singleton id) (by simpa using hnot owner)
    · rw [Function.update_of_ne howner]; exact h.ownedOnce owner'
  · rintro _ _ ⟨⟩; exact hid

/-- The pending order is stored and offers nothing more. -/
lemma drop (h : Indexed none (some (id, o.ownerAddress)) b) (ho : Tradable id o) (hclosed : ¬ o.Open) :
    Indexed none none ((b.setOrder id o).setOwned o.ownerAddress ((b.owned o.ownerAddress).filter (· ≠ id))) := by
  have hid : b.order id = none := h.unstored id _ rfl
  -- to the indices it is as if it had not been stored
  have hold : ∀ P : MarketOrder → Prop, ¬ P o → ∀ x,
      (∃ y, (b.setOrder id o).order x = some y ∧ P y) ↔ ∃ y, b.order x = some y ∧ P y := by
    intro P hP x
    by_cases hx : x = id
    · rw [hx, Book.order_setOrder_self, hid]; refine iff_of_false ?_ nofun; rintro ⟨y, hy, hPy⟩
      cases hy; exact hP hPy
    · rw [Book.order_setOrder_of_ne b o hx]
  refine ⟨fun x y hy => ?_, fun pair price x => ?_, h.queuedOnce, h.listed, h.sorted, fun owner x => ?_,
    fun owner => ?_, nofun⟩
  · by_cases hx : x = id
    · rw [hx] at hy ⊢; cases (Book.order_setOrder_self b id o).symm.trans hy; exact ho
    · exact h.orders x y ((Book.order_setOrder_of_ne b o hx).symm.trans hy)
  · exact (h.queued pair price x).trans (hold _ (fun hP => hclosed hP.2.2) x).symm
  · have hown := h.owned owner x; rw [← hold _ fun hP => hclosed hP.2] at hown
    show x ∈ Function.update b.owned o.ownerAddress _ owner ↔ _ ∨ none = some (x, owner)
    simp only [reduceCtorEq, or_false]
    by_cases howner : owner = o.ownerAddress
    · rw [howner] at hown ⊢; rw [Function.update_self, List.mem_filter, decide_eq_true_eq, hown]
      constructor
      · rintro ⟨hlive | hp, hne⟩
        · exact hlive
        · cases hp; exact absurd rfl hne
      · rintro ⟨y, hy, hlive⟩; refine ⟨.inl ⟨y, hy, hlive⟩, ?_⟩; rintro rfl
        cases (Book.order_setOrder_self b x o).symm.trans hy; exact hclosed hlive.2
    · rw [Function.update_of_ne howner, hown]
      refine or_iff_left fun hp => howner ?_
      cases hp; rfl
  · show (Function.update b.owned o.ownerAddress _ owner).Nodup
    by_cases howner : owner = o.ownerAddress
    · rw [howner, Function.update_self]; exact (h.ownedOnce _).filter _
    · rw [Function.update_of_ne howner]; exact h.ownedOnce owner

/-- The pending order is stored and rests in the book. The price list shows it only if no other
price of its ratio is listed. -/
lemma rest (h : Indexed none (some (id, o.ownerAddress)) b) (ho : Tradable id o) (hopen : o.Open)
    (hratio : ∀ p ∈ b.prices o.pair, cmpMakerPrice p o.price = .eq → p = o.price) :
    Indexed none none (((b.setQueue o.pair o.price (b.queue o.pair o.price ++ [id])).setPrices o.pair
      (listPrice (b.prices o.pair) o.price)).setOrder id o) := by
  have hid : b.order id = none := h.unstored id _ rfl
  have hnot : ∀ pair price, id ∉ b.queue pair price := fun pair price hmem => by
    obtain ⟨y, hy, -⟩ := (h.queued pair price id).mp hmem
    rw [hid] at hy; cases hy
  have hnew : ∀ (P : MarketOrder → Prop) (x : OrderId),
      (∃ y, (b.setOrder id o).order x = some y ∧ P y) ↔ (∃ y, b.order x = some y ∧ P y) ∨ x = id ∧ P o := by
    intro P x
    by_cases hx : x = id
    · rw [hx, Book.order_setOrder_self, hid]; simp
    · rw [Book.order_setOrder_of_ne b o hx]; simp [hx]
  refine ⟨fun x y hy => ?_, fun pair price x => ?_, fun pair price => ?_, fun pair price => ?_, fun pair => ?_,
    fun owner x => ?_, h.ownedOnce, nofun⟩
  · by_cases hx : x = id
    · rw [hx] at hy ⊢; cases (Book.order_setOrder_self b id o).symm.trans hy; exact ho
    · exact h.orders x y ((Book.order_setOrder_of_ne b o hx).symm.trans hy)
  · show x ∈ (if pair = o.pair ∧ price = o.price then b.queue o.pair o.price ++ [id] else b.queue pair price) ↔
      ∃ y, (b.setOrder id o).order x = some y ∧ _
    rw [hnew, ← h.queued]
    split
    · rename_i heq; rw [heq.1, heq.2, List.mem_append, List.mem_singleton]
      exact or_congr_right ⟨fun hx => ⟨hx, rfl, rfl, hopen⟩, fun hx => hx.1⟩
    · rename_i hne; exact (or_iff_left fun hx => hne ⟨hx.2.1.symm, hx.2.2.1.symm⟩).symm
  · show (if pair = o.pair ∧ price = o.price then b.queue o.pair o.price ++ [id] else b.queue pair price).Nodup
    split
    · exact (h.queuedOnce _ _).append (List.nodup_singleton id) (by simpa using hnot _ _)
    · exact h.queuedOnce _ _
  · show price ∈ Function.update b.prices o.pair _ pair ↔
      (if pair = o.pair ∧ price = o.price then b.queue o.pair o.price ++ [id] else b.queue pair price) ≠ [] ∨ _
    have hold := h.listed pair price; simp only [reduceCtorEq, or_false] at hold ⊢
    by_cases hpair : pair = o.pair
    · rw [hpair] at hold ⊢; rw [Function.update_self, mem_listPrice hratio, hold]
      by_cases hprice : price = o.price
      · rw [if_pos ⟨rfl, hprice⟩]; exact iff_of_true (.inr hprice) (by simp)
      · rw [if_neg fun heq => hprice heq.2]; exact or_iff_left hprice
    · rwa [Function.update_of_ne hpair, if_neg fun heq => hpair heq.1]
  · show (Function.update b.prices o.pair _ pair).Pairwise Better
    by_cases hpair : pair = o.pair
    · rw [hpair, Function.update_self]
      exact sorted_listPrice (h.sorted _) (fun p hp => h.price_pos hp) ho.sellQuantity
    · rw [Function.update_of_ne hpair]; exact h.sorted pair
  · show x ∈ b.owned owner ↔ (∃ y, (b.setOrder id o).order x = some y ∧ _) ∨ none = some (x, owner)
    simp only [reduceCtorEq, or_false]; rw [hnew, h.owned]
    refine or_congr_right ⟨fun hp => ?_, fun hx => ?_⟩
    · cases hp; exact ⟨rfl, rfl, hopen⟩
    · rw [hx.1, hx.2.1]

end Indexed

/-! ## Matching -/

/-- A fill leaves the taker open only when it goes on; one that stops leaves the maker as it was. -/
lemma fill_closes {taker maker : MarketOrder} (h : fill taker maker = .ok f) :
    SameTerms taker f.taker ∧ SameTerms maker f.maker ∧ (f.taker.Open → f.stop = false) ∧
      (f.stop = true → f.maker = maker) := by
  simp only [fill, bind_eq_ok] at h; obtain ⟨buy, -, h⟩ := h
  split at h
  · cases h
    exact ⟨⟨rfl, rfl, rfl, rfl, rfl, rfl⟩, .refl _, fun hopen => absurd rfl hopen, fun _ => rfl⟩
  split at h
  · cases h
    exact ⟨⟨rfl, rfl, rfl, rfl, rfl, rfl⟩, ⟨rfl, rfl, rfl, rfl, rfl, rfl⟩, fun _ => rfl, by simp⟩
  simp only [bind_eq_ok] at h; obtain ⟨price, -, h⟩ := h
  split at h
  · cases h; exact ⟨.refl _, ⟨rfl, rfl, rfl, rfl, rfl, rfl⟩, fun _ => rfl, by simp⟩
  · cases h
    exact ⟨⟨rfl, rfl, rfl, rfl, rfl, rfl⟩, ⟨rfl, rfl, rfl, rfl, rfl, rfl⟩, fun _ => rfl, by simp⟩

section Matching
open MarketSellAssetActuator

variable {pending : Option (OrderId × Bytes)} {pair : Bytes} {price : Price}
variable {book book' : WorldState} {taker taker' maker : MarketOrder} {id : OrderId} {rest ids : List OrderId}
variable {best : Price} {r : Walked}

/-- One round: the queue in hand is the one at `price`, and the maker leaves it when it is
closed. -/
lemma Indexed.fill (h : Indexed (some (pair, price)) pending (book.book.setQueue pair price (id :: rest)))
    (hm : book.getOrder id = some maker) (hf : TronRs.fill taker maker = .ok f)
    (hs : outcome (settleMaker id rest f.maker) book = .ok (ids, book')) :
    Indexed (some (pair, price)) pending (book'.book.setQueue pair price ids) ∧
      book'.marketPair = book.marketPair ∧ (f.stop = true → ids ≠ []) := by
  obtain ⟨-, hterms, -, hstop⟩ := fill_closes hf
  obtain ⟨rfl, rfl, hopen⟩ := h.eq_of_queued hm (by rw [Book.queue_setQueue_self]; exact List.mem_cons_self ..)
  have hrest : (id :: rest).filter (· ≠ id) = rest := by
    have hnodup := h.queuedOnce maker.pair maker.price
    rw [Book.queue_setQueue_self, List.nodup_cons] at hnodup
    rw [List.filter_cons_of_neg (by simp), filter_ne_eq_self hnodup.1]
  rw [outcome_settleMaker (hterms.orderId.trans (h.orders id maker hm).key)] at hs
  by_cases hz : f.maker.sellTokenQuantityRemain = 0
  · rw [if_pos hz] at hs; cases hs; refine ⟨?_, rfl, fun hs => ?_⟩
    swap
    · rw [hstop hs] at hz; exact absurd hz hopen
    have hterms' : SameTerms maker { f.maker with state := orderInactive } :=
      hterms.trans ⟨rfl, rfl, rfl, rfl, rfl, rfl⟩
    have hclose := h.close hm hterms' hopen (fun hne => hne hz) (.inr rfl)
    have hun := h.unlisted_eq hm; rw [Book.queue_setQueue_self, hrest, Book.setQueue_setQueue] at hun
    rw [Book.unlisted_setOrder, hun, ← hterms.owner] at hclose
    rwa [WorldState.book_removeAccountOrder, WorldState.book_putOrder]
  · rw [if_neg hz] at hs; cases hs; refine ⟨?_, rfl, fun _ => List.cons_ne_nil _ _⟩
    rw [WorldState.book_putOrder]; exact h.setOrder hm hterms (iff_of_true hz hopen)

/-- **The fills at one price** keep the records in step, and leave the taker open only when no
order is left. -/
theorem walkIds_indexed (left : Nat) (book : WorldState) (taker : MarketOrder) (ids : List OrderId) :
    ∀ r, (walkIds left book taker ids).2 = .ok r →
      Indexed (some (pair, price)) pending (book.book.setQueue pair price ids) →
      Indexed (some (pair, price)) pending (r.book.book.setQueue pair price r.ids) ∧ SameTerms taker r.taker ∧
        r.book.marketPair = book.marketPair ∧ (r.taker.Open → r.stop = false ∧ r.ids = []) ∧
        (r.stop = true → r.ids ≠ []) := by
  fun_induction walkIds left book taker ids with
  | case1 left book taker =>
    intro r hr h; cases hr; exact ⟨h, .refl taker, rfl, fun _ => ⟨rfl, rfl⟩, by simp⟩
  | case2 left book taker id rest h0 =>
    intro r hr h; cases hr; exact ⟨h, .refl taker, rfl, fun hopen => absurd h0 hopen, by simp⟩
  | case3 | case4 | case5 | case6 => intro r hr; cases hr
  | case7 book taker id rest h0 maker hm f hf ids book' hs left hstop =>
    intro r hr h; cases hr; obtain ⟨h', hpair, hids⟩ := h.fill hm hf hs
    obtain ⟨hterms, -, hopen, -⟩ := fill_closes hf
    refine ⟨h', hterms, hpair, fun ho => ?_, fun _ => hids hstop⟩; rw [hopen ho] at hstop; cases hstop
  | case8 book taker id rest h0 maker hm f hf ids book' hs left hstop w ih =>
    intro r hr h; obtain ⟨h', hpair, -⟩ := h.fill hm hf hs
    obtain ⟨hr', hterms, hpair', hopen⟩ := ih r hr h'
    exact ⟨hr', (fill_closes hf).1.trans hterms, hpair'.trans hpair, hopen⟩

lemma Indexed.of_best (h : Indexed none pending book.book) (hb : book.bestPrice pair = some best) :
    Indexed (some (pair, best)) pending (book.book.setQueue pair best (book.getOrderIds pair best)) := by
  have hq : book.book.setQueue pair best (book.getOrderIds pair best) = book.book := Book.setQueue_eq_self _ rfl
  rw [hq]; exact h.open_gap (List.mem_of_mem_head? hb)

/-- When the best price does not match, none does. -/
lemma Indexed.no_match {ts tb : Int64} (h : Indexed none pending book.book) (htb : 0 < tb.toInt)
    (hb : book.bestPrice pair = some best) (hm : priceMatch ts tb best.1 best.2 = false) (p : Price)
    (hp : p ∈ book.getPrices pair) : priceMatch ts tb p.1 p.2 = false := by
  have hs := h.sorted pair
  have hpos : ∀ p ∈ book.getPrices pair, 0 < p.1.toInt := fun p hp => h.price_pos hp
  change (book.getPrices pair).Pairwise Better at hs; unfold WorldState.bestPrice at hb
  cases hl : book.getPrices pair with
  | nil =>
    rw [hl] at hp; cases hp
  | cons =>
    rw [hl] at hb hp hs hpos; cases hb
    rcases List.mem_cons.mp hp with rfl | hp
    · exact hm
    · exact priceMatch_worse htb (hpos best (List.mem_cons_self ..)) (hpos p (List.mem_cons_of_mem _ hp))
        ((List.pairwise_cons.mp hs).1 p hp) hm

/-- What matching leaves of the book and of the taker. -/
structure Matched (pending : Option (OrderId × Bytes)) (makerPair : Bytes) (book : WorldState) (taker : MarketOrder)
    (book' : WorldState) (taker' : MarketOrder) : Prop where
  indexed : Indexed none pending book'.book
  terms : SameTerms taker taker'
  prices : ∀ pair p, p ∈ book'.getPrices pair → p ∈ book.getPrices pair
  uncrossed : taker'.Open → ∀ p ∈ book'.getPrices makerPair,
    priceMatch taker.sellTokenQuantity taker.buyTokenQuantity p.1 p.2 = false

variable (hr : Indexed (some (pair, best)) pending (r.book.book.setQueue pair best r.ids))
include hr

/-- A walk along one price that ends the matching. -/
lemma Matched.of_walked (hterms : SameTerms taker r.taker)
    (hpair : r.book.marketPair = book.marketPair) (hids : r.ids ≠ []) (hclosed : ¬ r.taker.Open) :
    Matched pending pair book taker (r.book.putOrderIds pair best r.ids) r.taker := by
  refine ⟨?_, hterms, fun pair' p hp => ?_, fun hopen => absurd hopen hclosed⟩
  · have hpruned := hr.prune
    rw [Book.prune, if_neg (by rw [Book.queue_setQueue_self]; exact hids)] at hpruned
    rwa [WorldState.book_putOrderIds]
  · rw [WorldState.getPrices] at hp ⊢; rwa [← hpair]

/-- A walk along one price that leaves no order there: the price goes off the list. -/
lemma Indexed.next_price (hids : r.ids = []) :
    Indexed none pending ((r.book.putOrderIds pair best r.ids).removePrice pair best).book := by
  have hpruned := hr.prune
  rw [Book.prune, if_pos (by rw [Book.queue_setQueue_self]; exact hids), ← WorldState.book_putOrderIds] at hpruned
  rwa [WorldState.book_removePrice]

omit hr

/-- **Matching** keeps the records in step. What is left of the taker matches no listed price:
the loop ends at a price that does not match, or when no price is left. -/
theorem walkPrices_indexed (makerPair : Bytes) (fuel left : Nat) (book : WorldState) (taker : MarketOrder) :
    ∀ taker' book', (walkPrices makerPair fuel left book taker).2 = .ok (taker', book') →
      Indexed none pending book.book → (book.getPrices makerPair).length ≤ fuel → 0 < taker.buyTokenQuantity.toInt →
      Matched pending makerPair book taker book' taker' := by
  fun_induction walkPrices makerPair fuel left book taker with
  | case1 left book taker =>
    intro t' b' hr h hlen _; cases hr; refine ⟨h, .refl taker, fun _ _ hp => hp, fun _ p hp => ?_⟩
    rw [List.eq_nil_of_length_eq_zero (Nat.le_zero.mp hlen)] at hp; cases hp
  | case2 fuel left book taker h0 =>
    intro t' b' hr h _ _; cases hr
    exact ⟨h, .refl taker, fun _ _ hp => hp, fun hopen => absurd h0 hopen⟩
  | case3 fuel left book taker h0 hnone =>
    intro t' b' hr h _ _; cases hr; refine ⟨h, .refl taker, fun _ _ hp => hp, fun _ p hp => ?_⟩
    rw [WorldState.bestPrice, List.head?_eq_none_iff] at hnone; rw [hnone] at hp; cases hp
  | case4 fuel left book taker h0 best hb hp =>
    intro t' b' hr h _ htb; cases hr
    exact ⟨h, .refl taker, fun _ _ hp => hp, fun _ => h.no_match htb hb hp⟩
  | case5 => intro t' b' hr; cases hr
  | case6 fuel left book taker h0 best hb hp w r hr book1 hstop =>
    intro t' b' hres h _ _; cases hres
    obtain ⟨hr', hterms, hpair, hopen, hids⟩ := walkIds_indexed left book taker _ r hr (h.of_best hb)
    refine .of_walked hr' hterms hpair (hids hstop) fun ho => ?_
    rw [(hopen ho).1] at hstop; cases hstop
  | case7 fuel left book taker h0 best hb hp w r hr book1 hstop hids v ih =>
    intro t' b' hres h hlen htb
    obtain ⟨hr', hterms, hpair, -, -⟩ := walkIds_indexed left book taker _ r hr (h.of_best hb)
    have hprices : ∀ pair, book1.getPrices pair = book.getPrices pair := fun pair => by
      unfold WorldState.getPrices; rw [← hpair]; rfl
    have hbest : book1.bestPrice makerPair = some best := by rwa [WorldState.bestPrice, hprices]
    have h1 : Indexed none pending (book1.removePrice makerPair best).book := hr'.next_price hids
    have hlen1 : ((book1.removePrice makerPair best).getPrices makerPair).length ≤ fuel := by
      have hlt := length_getPrices_removePrice hbest
      rw [hprices] at hlt; omega
    have hm := ih t' b' hres h1 hlen1 (by rwa [hterms.buyQuantity])
    refine ⟨hm.indexed, hterms.trans hm.terms, fun pair p hp => ?_, fun hopen p hp => ?_⟩
    · rw [← hprices]; exact WorldState.mem_getPrices_removePrice (hm.prices pair p hp)
    · have hun := hm.uncrossed hopen p hp; rwa [hterms.sellQuantity, hterms.buyQuantity] at hun
  | case8 fuel left book taker h0 best hb hp w r hr book1 hstop hids =>
    intro t' b' hres h _ _; cases hres
    obtain ⟨hr', hterms, hpair, hopen, -⟩ := walkIds_indexed left book taker _ r hr (h.of_best hb)
    exact .of_walked hr' hterms hpair hids fun ho => hids (hopen ho).2

end Matching

/-! ## A sell -/

namespace MarketSellAssetActuator

variable {c : MarketSellAssetContract} {s t : WorldState} {owner : Address} {v : Int64} {res : ExecutionResult}

/-- When a sell can be found again: its number is new, and its pair lists no other price of its
ratio. -/
@[mk_iff] structure Listable (c : MarketSellAssetContract) (s : WorldState) : Prop where
  fresh : s.getOrder (orderIdOf (s.getProp .marketOrderNum + 1)) = none
  ratio : ∀ p ∈ s.getPrices (pairKey c.sellTokenId c.buyTokenId),
    cmpMakerPrice p (c.sellTokenQuantity, c.buyTokenQuantity) = .eq → p = (c.sellTokenQuantity, c.buyTokenQuantity)

instance (c : MarketSellAssetContract) (s : WorldState) : Decidable (Listable c s) :=
    decidable_of_iff _ (listable_iff c s).symm

lemma tradable_newOrder (owner : Address) (id : OrderId) (now : Int64) (h : validate c s = .ok v) :
    Tradable id (newOrder c owner id now) := by
  obtain ⟨hs, hb, hne, hq1, hq2⟩ := validate_ok h
  exact ⟨⟨rfl, hs, hb, hq1, hq2⟩, hne⟩

/-- The id of the new order is on its owner's list before it is matched. -/
lemma indexed_listed (hs : Indexed none none s.book)
    (hfresh : s.getOrder (orderIdOf (s.getProp .marketOrderNum + 1)) = none) (owner : Address) :
    Indexed none (some (orderIdOf (s.getProp .marketOrderNum + 1), owner.asBytes)) (listed s owner).book := by
  obtain ⟨hnot, hpend⟩ := hs.pend hfresh owner.asBytes
  have hbook : (listed s owner).book = s.book.setOwned owner.asBytes
      (s.book.owned owner.asBytes ++ [orderIdOf (s.getProp .marketOrderNum + 1)]) := by
    unfold listed WorldState.addAccountOrder; refine (congrArg WorldState.book (if_neg hnot)).trans ?_
    rw [WorldState.book_putAccountOrders]; rfl
  rwa [hbook]

lemma getPrices_listed (s : WorldState) (owner : Address) (pair : Bytes) :
    (listed s owner).getPrices pair = s.getPrices pair := by
  obtain ⟨orders, hl⟩ := listed_eq s owner; rw [hl]; rfl

/-- **An accepted sell**: the order is matched against the book, and what is left is stored. -/
theorem sold (hs : Indexed none none s.book) (hv : validate c s = .ok v)
    (hx : execute c s = .ok res t) (hfresh : s.getOrder (orderIdOf (s.getProp .marketOrderNum + 1)) = none) :
    ∃ owner now order account book accounts,
      (walk (listed s owner) (newOrder c owner (orderIdOf (s.getProp .marketOrderNum + 1)) now)).2 = .ok (order, book) ∧
      Matched (some (orderIdOf (s.getProp .marketOrderNum + 1), owner.asBytes)) (pairKey c.buyTokenId c.sellTokenId)
        (listed s owner) (newOrder c owner (orderIdOf (s.getProp .marketOrderNum + 1)) now) book order ∧
      t = finished c owner (orderIdOf (s.getProp .marketOrderNum + 1)) (fee s) ⟨order, account⟩
        (book.withAccounts accounts) := by
  obtain ⟨owner, tk, order, account, book, accounts, hst, -, hwalk, -, hfin⟩ := execute_ok hx
  obtain ⟨-, -, -, -, -, -, horder⟩ := hst; rw [horder] at hwalk
  have hnew := tradable_newOrder owner (orderIdOf (s.getProp .marketOrderNum + 1))
    (s.getProp .latestBlockHeaderTimestamp) hv
  have hmatched := walkPrices_indexed _ _ _ _ _ order book hwalk (indexed_listed hs hfresh owner) le_rfl
    hnew.buyQuantity
  exact ⟨owner, _, order, account, book, accounts, hwalk, hmatched,
    finish_ok (hmatched.terms.orderId.trans hnew.key) hfin⟩

lemma book_finished (c : MarketSellAssetContract) (owner : Address) (id : OrderId) (fee : Int64) (tk : Taking)
    (s : WorldState) : (finished c owner id fee tk s).book = if tk.order.sellTokenQuantityRemain ≠ 0 then
        ((s.book.setQueue (pairKey c.sellTokenId c.buyTokenId) (c.sellTokenQuantity, c.buyTokenQuantity)
          (s.book.queue (pairKey c.sellTokenId c.buyTokenId) (c.sellTokenQuantity, c.buyTokenQuantity) ++
            [id])).setPrices
            (pairKey c.sellTokenId c.buyTokenId) (listPrice (s.book.prices (pairKey c.sellTokenId c.buyTokenId))
              (c.sellTokenQuantity, c.buyTokenQuantity))).setOrder id tk.order
      else (s.book.setOrder id tk.order).setOwned owner.asBytes ((s.book.owned owner.asBytes).filter (· ≠ id)) := by
  unfold finished; rw [WorldState.book_burnFee]
  refine (WorldState.book_putOrder _ id tk.order).trans ?_
  split
  · rw [WorldState.book_addOrderToBook]
  · rw [WorldState.book_removeAccountOrder]; rfl

/-- **A sell keeps the records in step.** -/
theorem indexed_sell (hs : Indexed none none s.book) (hv : validate c s = .ok v)
    (hx : execute c s = .ok res t) (hl : Listable c s) : Indexed none none t.book := by
  obtain ⟨owner, now, order, account, book, accounts, -, hm, rfl⟩ := sold hs hv hx hl.fresh
  have hterms := hm.terms
  have htrade := (tradable_newOrder owner _ now hv).of_sameTerms hterms
  have hpair : pairKey c.sellTokenId c.buyTokenId = order.pair := hterms.pair.symm
  have hprice : (c.sellTokenQuantity, c.buyTokenQuantity) = order.price := hterms.price.symm
  have howner : owner.asBytes = order.ownerAddress := hterms.owner.symm
  have hbook := hm.indexed; rw [book_finished]; rw [howner] at hbook ⊢
  split
  · rename_i hopen; rw [hpair, hprice]
    refine hbook.rest htrade hopen fun p hp heq => ?_
    rw [← hpair] at hp; rw [← hprice] at heq ⊢; have hps := hm.prices _ p hp
    rw [getPrices_listed] at hps; exact hl.ratio p hps heq
  · rename_i hclosed; exact hbook.drop htrade hclosed

end MarketSellAssetActuator

/-! ## A cancellation -/

namespace MarketCancelOrderActuator

variable {c : MarketCancelOrderContract} {s t : WorldState}

/-- When a cancellation hides no other order: the pair of the order lists no other price of its
ratio. -/
def Listable (c : MarketCancelOrderContract) (s : WorldState) : Prop :=
  ∀ id o, orderId c.orderId = .ok id → s.getOrder id = some o →
    ∀ p ∈ s.getPrices o.pair, cmpMakerPrice p o.price = .eq → p = o.price

lemma book_unlist (s : WorldState) (order : MarketOrder) (id : OrderId) : (unlist s order id).book =
    ((s.book.setQueue order.pair order.price ((s.book.queue order.pair order.price).filter (· ≠ id))).prune order.pair
      order.price).setOwned order.ownerAddress ((s.book.owned order.ownerAddress).filter (· ≠ id)) := by
  have hput := s.book_putOrderIds order.pair order.price ((s.book.queue order.pair order.price).filter (· ≠ id))
  rw [Book.prune, Book.queue_setQueue_self]
  by_cases hnil : (s.book.queue order.pair order.price).filter (· ≠ id) = []
  · have hun : unlist s order id = ((s.putOrderIds order.pair order.price
        ((s.book.queue order.pair order.price).filter (· ≠ id))).removePrice order.pair order.price).removeAccountOrder
          order.ownerAddress id :=
      congrArg (WorldState.removeAccountOrder · order.ownerAddress id) (if_pos hnil)
    rw [hun, WorldState.book_removeAccountOrder, WorldState.book_removePrice, hput, if_pos hnil]; rfl
  · have hun : unlist s order id = (s.putOrderIds order.pair order.price
        ((s.book.queue order.pair order.price).filter (· ≠ id))).removeAccountOrder order.ownerAddress id :=
      congrArg (WorldState.removeAccountOrder · order.ownerAddress id) (if_neg hnil)
    rw [hun, WorldState.book_removeAccountOrder, hput, if_neg hnil]; rfl

lemma book_closed (owner : Address) (account : Account) (id : OrderId) (order : MarketOrder) :
    (closed s owner account id id order).book = (((s.book.setOrder id (cancelled order)).setQueue order.pair
      order.price ((s.book.queue order.pair order.price).filter (· ≠ id))).prune order.pair order.price).setOwned
        order.ownerAddress ((s.book.owned order.ownerAddress).filter (· ≠ id)) := by
  rw [closed, book_unlist, WorldState.book_burnFee]
  have hput := WorldState.book_putOrder { s with account := s.account.put owner account } id (cancelled order)
  rw [hput]; rfl

/-- The order leaves the book: as an open order it leaves its queue, and its price the list; as
a closed one it was in none, and its price is taken off the list only if no order waits there. -/
lemma indexed_closed {owner : Address} {account : Account} {id : OrderId} {order : MarketOrder}
    (hs : Indexed none none s.book) (ho : s.getOrder id = some order)
    (hratio : ∀ p ∈ s.getPrices order.pair, cmpMakerPrice p order.price = .eq → p = order.price) :
    Indexed none none (closed s owner account id id order).book := by
  have hterms : SameTerms order (cancelled order) := ⟨rfl, rfl, rfl, rfl, rfl, rfl⟩
  have hclosed : ¬ (cancelled order).Open := fun hne => hne rfl
  rw [book_closed]
  by_cases hopen : order.Open
  · have hclose := (hs.close ho hterms hopen hclosed (.inl rfl)).prune
    rw [Book.unlisted_setOrder, hs.unlisted_eq ho] at hclose; rwa [← Book.prune_setOwned]
  have hq : id ∉ s.book.queue order.pair order.price := fun hid => hopen (hs.eq_of_queued ho hid).2.2
  have hown : id ∉ s.book.owned order.ownerAddress := fun hid => hopen (hs.eq_of_owned ho hid).2
  have hset := hs.setOrder ho hterms (iff_of_false hclosed hopen)
  have hqueue : (s.book.setOrder id (cancelled order)).setQueue order.pair order.price
      (s.book.queue order.pair order.price) = s.book.setOrder id (cancelled order) := Book.setQueue_eq_self _ rfl
  have hprune : (s.book.setOrder id (cancelled order)).prune order.pair order.price =
      s.book.setOrder id (cancelled order) := by
    by_cases hnil : s.book.queue order.pair order.price = []
    · refine Book.prune_eq_self _ fun p hp heq => ?_
      obtain rfl := hratio p hp heq
      rcases (hs.listed _ _).mp hp with hne | hg
      · exact hne hnil
      · cases hg
    · exact if_neg hnil
  rw [filter_ne_eq_self hq, filter_ne_eq_self hown, hqueue, hprune, Book.setOwned_eq_self]
  · exact hset
  · rfl

/-- **A cancellation keeps the records in step.** -/
theorem indexed_cancel {res : ExecutionResult} (hs : Indexed none none s.book) (hx : execute c s = .ok res t)
    (hl : Listable c s) : Indexed none none t.book := by
  refine ok_elim (P := fun _ t => Indexed none none t.book) hx (wp_execute ?_)
  intro owner id key order account balance account' hid ho _ _ _ hk
  obtain rfl := (hs.orders id order ho).eq_of_key hk
  exact indexed_closed hs ho (hl key order hid ho)

end MarketCancelOrderActuator

end TronRs

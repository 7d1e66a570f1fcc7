import TronRs.L3Actuators.Market.Fill

/-!
# The tokens of a match

Where the tokens go when an order is matched: every fill turns what two orders offer into
credits (`fill_ok`), settling pays exactly the credits (`settle_ok`), and walking along the
book does nothing but fills (`walkPrices_ok`). The only fill that breaks this is one whose
product is cut to 64 bits and comes out negative; its taker is credited a negative amount.
-/
namespace TronRs

open TronRs.Core

variable {maker : MarketOrder} {c : Option Credit} {id : OrderId} {rest : List OrderId} {f : Fill}

/-! ## One fill -/

/-- What an order still offers of a token. -/
def offered (a : Asset) (o : MarketOrder) : Int :=
  if Asset.ofId o.sellTokenId = a then o.sellTokenQuantityRemain.toInt else 0

/-- What a credit gives of a token. -/
def credited (a : Asset) : Option Credit → Int
  | none => 0
  | some (token, amount) => if Asset.ofId token = a then amount.toInt else 0

/-- The amount of a credit, whatever the token. -/
def creditAmount : Option Credit → Int
  | none => 0
  | some (_, amount) => amount.toInt

/-- What a taker can buy from an order with all it sells: the product fits in 64 bits. -/
def PriceFits (sell : Int64) (maker : MarketOrder) : Prop :=
  sell.toInt * maker.sellTokenQuantity.toInt / maker.buyTokenQuantity.toInt < 2 ^ 63

instance (sell : Int64) (maker : MarketOrder) : Decidable (PriceFits sell maker) :=
  inferInstanceAs (Decidable (_ < _))

/-- The parts of an order that matching never changes. -/
structure SameTerms (o o' : MarketOrder) : Prop where
  orderId : o'.orderId = o.orderId
  owner : o'.ownerAddress = o.ownerAddress
  sellToken : o'.sellTokenId = o.sellTokenId
  buyToken : o'.buyTokenId = o.buyTokenId
  sellQuantity : o'.sellTokenQuantity = o.sellTokenQuantity
  buyQuantity : o'.buyTokenQuantity = o.buyTokenQuantity

/-- An order that offers something is active, and it offers a part of what it sells. -/
structure Offers (o : MarketOrder) : Prop where
  nonneg : 0 ≤ o.sellTokenQuantityRemain.toInt
  le : o.sellTokenQuantityRemain.toInt ≤ o.sellTokenQuantity.toInt
  active : o.state ≠ orderActive → o.sellTokenQuantityRemain = 0

lemma multiplyAndDivide_eq_ok {a b c r : Int64} : multiplyAndDivide a b c = .ok r ↔
    c ≠ 0 ∧ Int64.ofInt ((a.toInt * b.toInt).tdiv c.toInt) = r := by
  simp only [multiplyAndDivide, check_rules]
  constructor
  · intro h; obtain ⟨-, hc, hr⟩ := h; exact ⟨hc, hr⟩
  · intro h; exact ⟨(), h⟩

/-- When the taker can buy the whole offer, the price of the offer is within what it sells;
a product that was cut to 64 bits is no exception, since it was larger than any offer. -/
lemma price_le {sell offer ms mb : Int64} (hsell : 0 ≤ sell.toInt) (hoffer : 0 ≤ offer.toInt)
    (hms : 0 < ms.toInt) (hmb : 0 < mb.toInt)
    (hle : offer.toInt ≤ (Int64.ofInt ((sell.toInt * ms.toInt).tdiv mb.toInt)).toInt) :
    0 ≤ (Int64.ofInt ((offer.toInt * mb.toInt).tdiv ms.toInt)).toInt ∧
      (Int64.ofInt ((offer.toInt * mb.toInt).tdiv ms.toInt)).toInt ≤ sell.toInt := by
  have hprod : 0 ≤ sell.toInt * ms.toInt := mul_nonneg hsell hms.le
  have hprod' : 0 ≤ offer.toInt * mb.toInt := mul_nonneg hoffer hmb.le
  rw [Int.tdiv_eq_ediv_of_nonneg hprod] at hle; rw [Int.tdiv_eq_ediv_of_nonneg hprod']
  have hq0 : 0 ≤ sell.toInt * ms.toInt / mb.toInt := Int.ediv_nonneg hprod hmb.le
  have hq : offer.toInt ≤ sell.toInt * ms.toInt / mb.toInt := by
    by_cases hfit : sell.toInt * ms.toInt / mb.toInt < 2 ^ 63
    · rwa [toInt_ofInt_of_fits ⟨by omega, hfit⟩] at hle
    · have := offer.toInt_lt; omega
  have hcross : offer.toInt * mb.toInt ≤ sell.toInt * ms.toInt :=
    (mul_le_mul_of_nonneg_right hq hmb.le).trans (Int.ediv_mul_le _ hmb.ne')
  have hp0 : 0 ≤ offer.toInt * mb.toInt / ms.toInt := Int.ediv_nonneg hprod' hms.le
  have hp : offer.toInt * mb.toInt / ms.toInt ≤ sell.toInt := by
    have h := Int.ediv_le_ediv hms hcross; rwa [Int.mul_ediv_cancel _ hms.ne'] at h
  have hlt := sell.toInt_lt; rw [toInt_ofInt_of_fits ⟨by omega, by omega⟩]; exact ⟨hp0, hp⟩

/-- What a fill does: both orders keep their terms and still offer something non-negative,
and every token goes from an offer to a credit. -/
structure FillOk (taker maker : MarketOrder) (f : Fill) : Prop where
  takerTerms : SameTerms taker f.taker
  makerTerms : SameTerms maker f.maker
  takerOffers : Offers f.taker
  makerOffers : Offers f.maker
  takerCredit : 0 ≤ creditAmount f.takerCredit
  makerCredit : 0 ≤ creditAmount f.makerCredit
  conserves : ∀ a, credited a f.takerCredit + credited a f.makerCredit + offered a f.taker + offered a f.maker =
    offered a taker + offered a maker

lemma offers_zero {o : MarketOrder} (h : o.sellTokenQuantityRemain = 0)
    (hq : 0 ≤ o.sellTokenQuantity.toInt) : Offers o where
  nonneg := by rw [h, toInt_zero]
  le := by rwa [h, toInt_zero]
  active := fun _ => h

/-- An order of which `d` is taken. -/
lemma Offers.take {o : MarketOrder} (h : Offers o) {d : Int64} (h0 : 0 ≤ d.toInt)
    (hd : d.toInt ≤ o.sellTokenQuantityRemain.toInt) :
    (o.sellTokenQuantityRemain - d).toInt = o.sellTokenQuantityRemain.toInt - d.toInt ∧
      Offers { o with sellTokenQuantityRemain := o.sellTokenQuantityRemain - d } := by
  have hlt := o.sellTokenQuantityRemain.toInt_lt
  have hle := h.le
  have hsub := toInt_sub_of_fits (a := o.sellTokenQuantityRemain) (b := d) ⟨by omega, by omega⟩
  refine ⟨hsub, ⟨by simp only [hsub]; omega, by simp only [hsub]; omega, fun hstate => toInt_inj.mp ?_⟩⟩
  rw [h.active hstate, toInt_zero] at hd hsub; simp only [h.active hstate, hsub, toInt_zero]; omega

/-- What the taker can buy is not negative when the product fits. -/
lemma bought_nonneg {remain sell : Int64} (hr : 0 ≤ remain.toInt)
    (hle : remain.toInt ≤ sell.toInt) (hms : 0 < maker.sellTokenQuantity.toInt)
    (hmb : 0 < maker.buyTokenQuantity.toInt) (hfit : PriceFits sell maker) :
    0 ≤ (Int64.ofInt ((remain.toInt * maker.sellTokenQuantity.toInt).tdiv maker.buyTokenQuantity.toInt)).toInt := by
  have hprod : 0 ≤ remain.toInt * maker.sellTokenQuantity.toInt := mul_nonneg hr hms.le
  rw [Int.tdiv_eq_ediv_of_nonneg hprod]
  have hq0 : 0 ≤ remain.toInt * maker.sellTokenQuantity.toInt / maker.buyTokenQuantity.toInt :=
    Int.ediv_nonneg hprod hmb.le
  have hq : remain.toInt * maker.sellTokenQuantity.toInt / maker.buyTokenQuantity.toInt < 2 ^ 63 :=
    (Int.ediv_le_ediv hmb (mul_le_mul_of_nonneg_right hle hms.le)).trans_lt hfit
  rwa [toInt_ofInt_of_fits ⟨by omega, hq⟩]

/-- **A fill conserves tokens** when the product of the prices fits. -/
theorem fill_ok {taker : MarketOrder} (h : fill taker maker = .ok f)
    (hsell : maker.sellTokenId = taker.buyTokenId) (hbuy : maker.buyTokenId = taker.sellTokenId)
    (hms : 0 < maker.sellTokenQuantity.toInt) (hmb : 0 < maker.buyTokenQuantity.toInt)
    (ht : Offers taker) (hm : Offers maker) (hfit : PriceFits taker.sellTokenQuantity maker) :
    FillOk taker maker f := by
  have hts := ht.nonneg
  have htq : 0 ≤ taker.sellTokenQuantity.toInt := hts.trans ht.le
  have hmo := hm.nonneg
  have hmle := hm.le; simp only [fill, bind_eq_ok, multiplyAndDivide_eq_ok] at h
  obtain ⟨buy, ⟨-, hb⟩, h⟩ := h
  have hbuy0 : 0 ≤ buy.toInt := by rw [← hb]; exact bought_nonneg hts ht.le hms hmb hfit
  split at h
  · -- the rest is too small: the taker gets it back
    cases h
    refine ⟨⟨rfl, rfl, rfl, rfl, rfl, rfl⟩, ⟨rfl, rfl, rfl, rfl, rfl, rfl⟩, offers_zero rfl htq, hm, hts, le_rfl,
      fun a => ?_⟩
    simp only [credited, offered, toInt_zero, ite_self]; omega
  · split at h
    · -- the taker is filled completely
      rename_i hne hlt; cases h; have hlt' := lt_iff_toInt_lt.mp hlt
      obtain ⟨hsub, hoffers⟩ := hm.take hbuy0 hlt'.le
      refine ⟨⟨rfl, rfl, rfl, rfl, rfl, rfl⟩, ⟨rfl, rfl, rfl, rfl, rfl, rfl⟩, offers_zero rfl htq, hoffers, hbuy0, hts,
        fun a => ?_⟩
      simp only [credited, offered, hsell, hbuy, toInt_zero, ite_self, hsub]
      split <;> split <;> omega
    · -- the maker is filled completely
      rename_i hne hge; simp only [bind_eq_ok, multiplyAndDivide_eq_ok] at h
      obtain ⟨price, ⟨-, hp⟩, h⟩ := h
      have hle : maker.sellTokenQuantityRemain.toInt ≤ buy.toInt := by rw [lt_iff_toInt_lt] at hge; omega
      rw [← hb] at hle; have hprice := price_le hts hmo hms hmb hle; rw [hp] at hprice
      split at h
      · cases h
        refine ⟨⟨rfl, rfl, rfl, rfl, rfl, rfl⟩, ⟨rfl, rfl, rfl, rfl, rfl, rfl⟩, ht, offers_zero rfl hms.le, le_rfl,
          hmo, fun a => ?_⟩
        simp only [credited, offered, toInt_zero, ite_self]; omega
      · cases h; obtain ⟨hsub, hoffers⟩ := ht.take hprice.1 hprice.2
        refine ⟨⟨rfl, rfl, rfl, rfl, rfl, rfl⟩, ⟨rfl, rfl, rfl, rfl, rfl, rfl⟩, hoffers, offers_zero rfl hms.le, hmo,
          hprice.1, fun a => ?_⟩
        simp only [credited, offered, hsell, hbuy, toInt_zero, ite_self, hsub]
        split <;> split <;> omega

/-! ## Paying for the fills -/

def held (a : Asset) : Address → Account → Int := fun _ acc => holding acc a

def takerCredits (a : Asset) (fills : List (MarketOrder × Fill)) : Int :=
  (fills.map fun p => credited a p.2.takerCredit).sum

def makerCredits (a : Asset) (fills : List (MarketOrder × Fill)) : Int :=
  (fills.map fun p => credited a p.2.makerCredit).sum

lemma credited_nonneg {a : Asset} (h : 0 ≤ creditAmount c) : 0 ≤ credited a c := by
  cases c with
  | none => exact le_rfl
  | some c =>
    obtain ⟨token, amount⟩ := c
    show 0 ≤ if Asset.ofId token = a then amount.toInt else 0
    split
    · exact h
    · exact le_rfl

lemma takerCredits_nonneg {a : Asset} {fills : List (MarketOrder × Fill)}
    (h : ∀ p ∈ fills, 0 ≤ creditAmount p.2.takerCredit) : 0 ≤ takerCredits a fills :=
  List.sum_nonneg fun x hx => by obtain ⟨p, hp, rfl⟩ := List.mem_map.mp hx; exact credited_nonneg (h p hp)

lemma creditTo_ok {acc acc' : Account} (h : creditTo acc c = .ok acc') (a : Asset) :
    holding acc' a = holding acc a + credited a c := by
  cases c with
  | none =>
    cases h; exact (Int.add_zero _).symm
  | some =>
    have hc := creditToken_eq_ok h a; rw [hc, credited]; simp only [eq_comm]

/-- The owner of the order gets the credit, and nobody else. -/
lemma payMaker_ok {accounts accounts' : Column Address Account}
    (h : payMaker accounts maker c = .ok accounts') (a : Asset) :
    Column.total (held a) accounts' = Column.total (held a) accounts + credited a c ∧
      ∀ x, Column.share (held a) accounts' x = Column.share (held a) accounts x +
        if x.asBytes = maker.ownerAddress then credited a c else 0 := by
  cases c with
  | none =>
    cases h; simp [credited]
  | some c =>
    simp only [payMaker, check_rules, parseAddress_eq_ok] at h
    obtain ⟨owner, ho, ma, hma, ma', hc, rfl⟩ := h
    have hown : owner.asBytes = maker.ownerAddress := Address.asBytes_of_ofBytes ho
    have hhold := creditTo_ok (c := some c) hc a
    have hshare : Column.share (held a) accounts owner = holding ma a := by rw [Column.share, hma]; rfl
    refine ⟨?_, fun x => ?_⟩
    · rw [total_put, hshare]; show _ - _ + holding ma' a = _; omega
    by_cases hx : x = owner
    · rw [hx, if_pos hown, hshare, ← hhold, Column.share, get_put_self]; rfl
    · rw [if_neg fun heq => hx (Address.asBytes_injective (heq.trans hown.symm)), Int.add_zero]
      exact Column.share_eq_of_get (get_put_of_ne hx)

/-- **Settling fills** credits the taker's account and the makers' accounts with the sums of
their credits; an account that owns none of the makers keeps its holdings. -/
theorem settle_ok {acc acc' : Account} {accounts accounts' : Column Address Account}
    {fills : List (MarketOrder × Fill)} (h : settle acc accounts fills = .ok (acc', accounts')) (a : Asset) :
    holding acc' a = holding acc a + takerCredits a fills ∧
      Column.total (held a) accounts' = Column.total (held a) accounts + makerCredits a fills ∧
      (∀ x : Address, (∀ p ∈ fills, p.1.ownerAddress ≠ x.asBytes) →
        Column.share (held a) accounts' x = Column.share (held a) accounts x) ∧
      ((∀ p ∈ fills, 0 ≤ creditAmount p.2.makerCredit) → ∀ x, 0 ≤ Column.share (held a) accounts x →
        0 ≤ Column.share (held a) accounts' x) := by
  induction fills generalizing acc accounts with
  | nil =>
    cases h; simp [takerCredits, makerCredits]
  | cons p fills ih =>
    obtain ⟨maker, f⟩ := p; simp only [settle, bind_eq_ok] at h
    obtain ⟨acc1, h1, accounts1, h2, h⟩ := h
    obtain ⟨hhold, htot, hkeep, hnn⟩ := ih h
    have ht := creditTo_ok h1 a
    obtain ⟨hm, hms⟩ := payMaker_ok h2 a
    simp only [takerCredits, makerCredits, List.map_cons, List.sum_cons] at hhold htot ⊢
    refine ⟨by omega, by omega, fun x hx => ?_, fun hpos x hx => ?_⟩
    · rw [hkeep x fun q hq => hx q (List.mem_cons_of_mem _ hq), hms,
        if_neg (hx (maker, f) (List.mem_cons_self ..)).symm, Int.add_zero]
    · refine hnn (fun q hq => hpos q (List.mem_cons_of_mem _ hq)) x ?_; rw [hms]
      have hc : 0 ≤ credited a f.makerCredit := credited_nonneg (hpos (maker, f) (List.mem_cons_self ..))
      split <;> omega

/-! ## The book -/

/-- The terms of an order: under its own id, between two tokens, with positive quantities. -/
structure OrderTerms (id : OrderId) (o : MarketOrder) : Prop where
  key : o.orderId = id.bytes
  sellToken : validToken o.sellTokenId = true
  buyToken : validToken o.buyTokenId = true
  sellQuantity : 0 < o.sellTokenQuantity.toInt
  buyQuantity : 0 < o.buyTokenQuantity.toInt

lemma OrderTerms.eq_of_key {key : OrderId} (h : OrderTerms id o) (hk : H256.ofSlice o.orderId = some key) :
    key = id := by
  rw [h.key, H256.ofSlice_bytes] at hk; exact (Option.some.inj hk).symm

structure OrderOk (id : OrderId) (o : MarketOrder) : Prop extends OrderTerms id o where
  offers : Offers o

def OrdersOk (s : WorldState) : Prop := ∀ id o, s.getOrder id = some o → OrderOk id o

/-- Every order in a queue is stored and belongs to the pair of the queue. -/
def QueuesOk (s : WorldState) : Prop :=
  ∀ pair price id, id ∈ s.getOrderIds pair price →
    ∃ o, s.getOrder id = some o ∧ pairKey o.sellTokenId o.buyTokenId = pair

/-- What all stored orders offer of a token. -/
def offeredTotal (a : Asset) (s : WorldState) : Int := Column.total (fun _ o => offered a o) s.marketOrder

lemma SameTerms.refl (o : MarketOrder) : SameTerms o o := ⟨rfl, rfl, rfl, rfl, rfl, rfl⟩

lemma SameTerms.trans {o1 o2 o3 : MarketOrder} (h1 : SameTerms o1 o2) (h2 : SameTerms o2 o3) : SameTerms o1 o3 :=
  ⟨h2.orderId.trans h1.orderId, h2.owner.trans h1.owner, h2.sellToken.trans h1.sellToken,
    h2.buyToken.trans h1.buyToken, h2.sellQuantity.trans h1.sellQuantity, h2.buyQuantity.trans h1.buyQuantity⟩

lemma OrderTerms.of_sameTerms {o o' : MarketOrder} (h : OrderTerms id o) (ht : SameTerms o o') : OrderTerms id o' where
  key := ht.orderId.trans h.key
  sellToken := by rw [ht.sellToken]; exact h.sellToken
  buyToken := by rw [ht.buyToken]; exact h.buyToken
  sellQuantity := by rw [ht.sellQuantity]; exact h.sellQuantity
  buyQuantity := by rw [ht.buyQuantity]; exact h.buyQuantity

lemma OrderOk.of_sameTerms {o o' : MarketOrder} (h : OrderOk id o) (ht : SameTerms o o') (hoff : Offers o') :
    OrderOk id o' :=
  ⟨h.toOrderTerms.of_sameTerms ht, hoff⟩

/-- What walking along the book has done when it has made `fills`, with orders of `owners` only. -/
structure Walks (owners : Bytes → Prop) (book : WorldState) (taker : MarketOrder) (fills : List (MarketOrder × Fill))
    (book' : WorldState) (taker' : MarketOrder) : Prop where
  stored : ∀ id o, book.getOrder id = some o → ∃ o', book'.getOrder id = some o' ∧ SameTerms o o'
  fresh : ∀ id, book.getOrder id = none → book'.getOrder id = none
  orders : OrdersOk book'
  terms : SameTerms taker taker'
  offers : Offers taker'
  credits : ∀ p ∈ fills, 0 ≤ creditAmount p.2.takerCredit ∧ 0 ≤ creditAmount p.2.makerCredit ∧
    owners p.1.ownerAddress
  conserves : ∀ a, offeredTotal a book' + offered a taker' + takerCredits a fills + makerCredits a fills =
    offeredTotal a book + offered a taker

namespace Walks
variable {owners : Bytes → Prop} {b1 b2 b3 : WorldState} {t1 t2 t3 : MarketOrder} {xs ys : List (MarketOrder × Fill)}

lemma nil (hb : OrdersOk b1) (ht : Offers t1) : Walks owners b1 t1 [] b1 t1 where
  stored := fun _ o h => ⟨o, h, .refl o⟩
  fresh := fun _ h => h
  orders := hb
  terms := .refl t1
  offers := ht
  credits := nofun
  conserves := fun a => by simp [takerCredits, makerCredits]

lemma append (h1 : Walks owners b1 t1 xs b2 t2) (h2 : Walks owners b2 t2 ys b3 t3) :
    Walks owners b1 t1 (xs ++ ys) b3 t3 where
  stored := fun id o h => by
    obtain ⟨o2, h2', ht2⟩ := h1.stored id o h
    obtain ⟨o3, h3', ht3⟩ := h2.stored id o2 h2'; exact ⟨o3, h3', ht2.trans ht3⟩
  fresh := fun id h => h2.fresh id (h1.fresh id h)
  orders := h2.orders
  terms := h1.terms.trans h2.terms
  offers := h2.offers
  credits := fun p hp => by
    rcases List.mem_append.mp hp with hp | hp
    · exact h1.credits p hp
    · exact h2.credits p hp
  conserves := fun a => by
    have e1 := h1.conserves a
    have e2 := h2.conserves a
    simp only [takerCredits, makerCredits, List.map_append, List.sum_append] at e1 e2 ⊢; omega

/-- Only the stored orders matter. -/
lemma congr_book (h : Walks owners b1 t1 xs b2 t2) (heq : b3.marketOrder = b2.marketOrder) :
    Walks owners b1 t1 xs b3 t2 := by
  have hget : ∀ id, b3.getOrder id = b2.getOrder id := fun id => by rw [WorldState.getOrder, WorldState.getOrder, heq]
  have htot : ∀ a, offeredTotal a b3 = offeredTotal a b2 := fun a => by rw [offeredTotal, offeredTotal, heq]
  refine ⟨fun id o ho => ?_, fun id ho => ?_, fun id o ho => ?_, h.terms, h.offers, h.credits, fun a => ?_⟩
  · rw [hget]; exact h.stored id o ho
  · rw [hget]; exact h.fresh id ho
  · rw [hget] at ho; exact h.orders id o ho
  · rw [htot]; exact h.conserves a

end Walks

/-! ## Walking along the book -/

open MarketSellAssetActuator

/-- A maker is stored under its own id. When nothing of it is left it is closed, and leaves its
queue and its owner's list. -/
lemma outcome_settleMaker {book : WorldState}
    (hkey : maker.orderId = id.bytes) : outcome (settleMaker id rest maker) book = .ok
      (if maker.sellTokenQuantityRemain = 0 then
        (rest, ({ book with marketOrder := book.marketOrder.put id { maker with state := orderInactive } } :
          WorldState).removeAccountOrder maker.ownerAddress id)
      else (id :: rest, { book with marketOrder := book.marketOrder.put id maker })) := by
  have hslice : H256.ofSlice maker.orderId = some id := by rw [hkey, H256.ofSlice_bytes]
  unfold settleMaker
  split
  · simp only [putOrder, hslice, bind_assoc, outcome_orThrow_bind, outcome_modify_bind, outcome_pure]
    rfl
  · simp only [putOrder, hslice, bind_assoc, outcome_orThrow_bind, outcome_modify_bind, outcome_pure]
    rfl

lemma settleMaker_ok {ids : List OrderId} {book book' : WorldState}
    (hkey : maker.orderId = id.bytes) (hoff : Offers maker)
    (h : outcome (settleMaker id rest maker) book = .ok (ids, book')) :
    ∃ maker', SameTerms maker maker' ∧ Offers maker' ∧ maker'.sellTokenQuantityRemain = maker.sellTokenQuantityRemain ∧
      book'.marketOrder = book.marketOrder.put id maker' ∧ book'.marketPairPrice = book.marketPairPrice ∧
      book'.marketPair = book.marketPair ∧ ∀ x ∈ ids, x = id ∨ x ∈ rest := by
  rw [outcome_settleMaker hkey] at h
  by_cases hz : maker.sellTokenQuantityRemain = 0
  · rw [if_pos hz] at h; cases h
    exact ⟨{ maker with state := orderInactive }, ⟨rfl, rfl, rfl, rfl, rfl, rfl⟩,
      offers_zero hz (hoff.nonneg.trans hoff.le), rfl, rfl, rfl, rfl, fun x hx => .inr hx⟩
  · rw [if_neg hz] at h; cases h
    exact ⟨maker, .refl maker, hoff, rfl, rfl, rfl, rfl, fun x hx => List.mem_cons.mp hx⟩

section Walking
variable {owners : Bytes → Prop} {o o' taker taker' : MarketOrder} {book book' : WorldState} {ids : List OrderId}
variable {fills : List (MarketOrder × Fill)}

/-- An order that the taker can trade with: it is the other side of the taker's pair, one of
`owners` owns it, and the product of the prices fits. -/
structure Partner (owners : Bytes → Prop) (taker o : MarketOrder) : Prop where
  sellToken : o.sellTokenId = taker.buyTokenId
  buyToken : o.buyTokenId = taker.sellTokenId
  owner : owners o.ownerAddress
  fits : PriceFits taker.sellTokenQuantity o

lemma Partner.of_sameTerms {t t' : MarketOrder} (h : Partner owners t o) (ht : SameTerms t t')
    (ho : SameTerms o o') : Partner owners t' o' where
  sellToken := by rw [ho.sellToken, ht.buyToken]; exact h.sellToken
  buyToken := by rw [ho.buyToken, ht.sellToken]; exact h.buyToken
  owner := by rw [ho.owner]; exact h.owner
  fits := by rw [PriceFits, ht.sellQuantity, ho.sellQuantity, ho.buyQuantity]; exact h.fits

def Crosses (owners : Bytes → Prop) (book : WorldState) (taker : MarketOrder) (ids : List OrderId) : Prop :=
  ∀ id ∈ ids, ∀ o, book.getOrder id = some o → Partner owners taker o

/-- Two books with the same prices and the same queues. -/
structure SamePrices (book book' : WorldState) : Prop where
  queues : book'.marketPairPrice = book.marketPairPrice
  prices : book'.marketPair = book.marketPair

/-- One round: a fill, and the maker stored after it. -/
lemma walks_fill {maker : MarketOrder} {id : OrderId} (hbook : OrdersOk book) (ht : Offers taker)
    (hcross : Crosses owners book taker (id :: rest))
    (hm : book.getOrder id = some maker) (hf : fill taker maker = .ok f)
    (hs : outcome (settleMaker id rest f.maker) book = .ok (ids, book')) :
    Walks owners book taker [(maker, f)] book' f.taker ∧ Crosses owners book' f.taker ids ∧
      (∀ x ∈ ids, x ∈ id :: rest) ∧ SamePrices book book' := by
  have hmok := hbook id maker hm
  have hpartner := hcross id (List.mem_cons_self ..) maker hm
  have hfill := fill_ok hf hpartner.sellToken hpartner.buyToken hmok.sellQuantity hmok.buyQuantity ht hmok.offers
    hpartner.fits
  obtain ⟨m', hterms, hoff, hrem, horders, hqueues, hpairs, hids⟩ :=
    settleMaker_ok (hfill.makerTerms.orderId.trans hmok.key) hfill.makerOffers hs
  have hmterms := hfill.makerTerms.trans hterms
  have hget : ∀ x, book'.getOrder x = if x = id then some m' else book.getOrder x := fun x => by
    rw [WorldState.getOrder, horders, get_put]; rfl
  have hmem : ∀ x ∈ ids, x ∈ id :: rest := fun x hx => List.mem_cons.mpr (hids x hx)
  refine ⟨⟨fun x o ho => ?_, fun x ho => ?_, fun x o ho => ?_, hfill.takerTerms, hfill.takerOffers, ?_, fun a => ?_⟩,
    fun x hx o ho => ?_, hmem, hqueues, hpairs⟩
  · rw [hget]
    split
    · rename_i hx; rw [hx, hm] at ho; cases ho
      exact ⟨m', rfl, hmterms⟩
    · exact ⟨o, ho, .refl o⟩
  · rw [hget, if_neg]
    · exact ho
    · rintro rfl; rw [hm] at ho; cases ho
  · rw [hget] at ho
    split at ho
    · rename_i hx; cases ho; rw [hx]
      exact hmok.of_sameTerms hmterms hoff
    · exact hbook x o ho
  · intro p hp; rw [List.mem_singleton] at hp; rw [hp]
    exact ⟨hfill.takerCredit, hfill.makerCredit, hpartner.owner⟩
  · have hcons := hfill.conserves a
    have hshare : Column.share (fun _ o => offered a o) book.marketOrder id = offered a maker := by
      rw [WorldState.getOrder] at hm; rw [Column.share, hm]; rfl
    have hoff' : offered a m' = offered a f.maker := by rw [offered, offered, hterms.sellToken, hrem]
    have htot : offeredTotal a book' = offeredTotal a book - offered a maker + offered a f.maker := by
      rw [offeredTotal, horders, total_put, hshare, hoff']; rfl
    simp only [takerCredits, makerCredits, List.map_cons, List.map_nil, List.sum_cons, List.sum_nil, htot]
    omega
  · rw [hget] at ho
    split at ho
    · cases ho; exact hpartner.of_sameTerms hfill.takerTerms hmterms
    · exact (hcross x (hmem x hx) o ho).of_sameTerms hfill.takerTerms (.refl o)

lemma walkIds_ok (left : Nat) (book : WorldState) (taker : MarketOrder) (ids : List OrderId) :
    ∀ r, (walkIds left book taker ids).2 = .ok r → OrdersOk book → Offers taker → Crosses owners book taker ids →
      Walks owners book taker (walkIds left book taker ids).1 r.book r.taker ∧ (∀ x ∈ r.ids, x ∈ ids) ∧
        SamePrices book r.book := by
  fun_induction walkIds left book taker ids with
  | case1 | case2 =>
    intro r hr hbook ht _; cases hr; exact ⟨.nil hbook ht, fun _ h => h, rfl, rfl⟩
  | case3 | case4 | case5 | case6 => intro r hr; cases hr
  | case7 book taker id rest h0 maker hm f hf ids book' hs =>
    intro r hr hbook ht hcross; cases hr
    obtain ⟨hw, -, hsub, hq⟩ := walks_fill hbook ht hcross hm hf hs
    exact ⟨hw, hsub, hq⟩
  | case8 book taker id rest h0 maker hm f hf ids book' hs left hstop w ih =>
    intro r hr hbook ht hcross; obtain ⟨hw, hcross', hsub, hq⟩ := walks_fill hbook ht hcross hm hf hs
    obtain ⟨hw', hsub', hq'⟩ := ih r hr hw.orders hw.offers hcross'
    exact ⟨hw.append hw', fun x hx => hsub x (hsub' x hx), hq'.queues.trans hq.queues, hq'.prices.trans hq.prices⟩

/-! ## Pairs -/

lemma zero_not_mem_of_validToken {id : Bytes} (h : validToken id = true) : (0 : UInt8) ∉ id := by
  intro hmem; rw [validToken, Bool.or_eq_true] at h
  rcases h with h | h
  · rw [isTrx, decide_eq_true_eq] at h; rw [h] at hmem; exact absurd hmem (by decide)
  · simp only [isNumber, Bool.and_eq_true, List.all_eq_true, decide_eq_true_eq] at h
    exact absurd (h.1.2 0 hmem).1 (by decide)

/-- A pair of tokens is determined by its key. -/
lemma pairKey_injective {a b c d : Bytes} (ha : (0 : UInt8) ∉ a) (hc : (0 : UInt8) ∉ c)
    (h : pairKey a b = pairKey c d) : a = c ∧ b = d := by
  unfold pairKey at h
  induction a generalizing c with
  | nil =>
    cases c with
    | nil => simpa using h
    | cons y =>
      have hy : (0 : UInt8) = y := by simpa using congrArg List.head? h
      exact absurd (hy ▸ List.mem_cons_self ..) hc
  | cons x a ih =>
    cases c with
    | nil =>
      have hx : x = (0 : UInt8) := by simpa using congrArg List.head? h
      exact absurd (hx ▸ List.mem_cons_self ..) ha
    | cons =>
      rw [List.mem_cons, not_or] at ha hc; simp only [List.cons_append, List.cons.injEq] at h
      obtain ⟨rfl, h⟩ := h
      obtain ⟨rfl, rfl⟩ := ih ha.2 hc.2 h; exact ⟨rfl, rfl⟩

/-- A resting order that a new one with these terms can meet: it waits at a listed price that
matches. -/
def Meets (book : WorldState) (sellToken buyToken : Bytes) (sell buy : Int64) (o : MarketOrder) : Prop :=
  ∃ price id, price ∈ book.getPrices (pairKey buyToken sellToken) ∧
    priceMatch sell buy price.1 price.2 = true ∧
    id ∈ book.getOrderIds (pairKey buyToken sellToken) price ∧ book.getOrder id = some o

/-- The prices and the queues are finite. -/
instance Meets.decidableForall (s : WorldState) (sellToken buyToken : Bytes) (sell buy : Int64)
    (p : MarketOrder → Prop) [DecidablePred p] : Decidable (∀ o, Meets s sellToken buyToken sell buy o → p o) :=
  decidable_of_iff (∀ price ∈ s.getPrices (pairKey buyToken sellToken), priceMatch sell buy price.1 price.2 = true →
      ∀ id ∈ s.getOrderIds (pairKey buyToken sellToken) price, ∀ o ∈ s.getOrder id, p o)
    ⟨fun h o ⟨price, id, hp, hm, hid, ho⟩ => h price hp hm id hid o ho,
      fun h price hp hm id hid o ho => h o ⟨price, id, hp, hm, hid, ho⟩⟩

/-- The taker meets only orders of `owners`, and their prices fit. -/
def Clear (owners : Bytes → Prop) (book : WorldState) (taker : MarketOrder) : Prop :=
  ∀ o, Meets book taker.sellTokenId taker.buyTokenId taker.sellTokenQuantity taker.buyTokenQuantity o →
    owners o.ownerAddress ∧ PriceFits taker.sellTokenQuantity o

lemma crosses_best {makerPair : Bytes} {best : Price}
    (hpair : makerPair = pairKey taker.buyTokenId taker.sellTokenId) (hbook : OrdersOk book)
    (hq : QueuesOk book) (ht : OrderTerms id taker) (hclear : Clear owners book taker)
    (hbest : book.bestPrice makerPair = some best)
    (hmatch : ¬ priceMatch taker.sellTokenQuantity taker.buyTokenQuantity best.1 best.2 = false) :
    Crosses owners book taker (book.getOrderIds makerPair best) := by
  subst hpair; intro id hid o ho; obtain ⟨o', ho', hpair⟩ := hq _ _ id hid
  rw [ho] at ho'; cases ho'
  obtain ⟨hsell, hbuy⟩ := pairKey_injective (zero_not_mem_of_validToken (hbook id o ho).sellToken)
    (zero_not_mem_of_validToken ht.buyToken) hpair
  obtain ⟨hown, hfit⟩ :=
    hclear o ⟨best, id, List.mem_of_mem_head? hbest, Bool.of_not_eq_false hmatch, hid, ho⟩
  exact ⟨hsell, hbuy, hown, hfit⟩

/-- What the taker meets later, it met before. -/
lemma Clear.of_walks
    (h : Clear owners book taker) (hq : QueuesOk book) (hw : Walks owners book taker fills book' taker')
    (hprices : ∀ pair price, price ∈ book'.getPrices pair → price ∈ book.getPrices pair)
    (hids : ∀ pair price id, id ∈ book'.getOrderIds pair price → id ∈ book.getOrderIds pair price) :
    Clear owners book' taker' := by
  rintro o' ⟨price, id, hp, hmatch, hid, ho'⟩; obtain ⟨o, ho, -⟩ := hq _ _ id (hids _ _ _ hid)
  obtain ⟨o'', ho'', hterms⟩ := hw.stored id o ho
  rw [ho'] at ho''; cases ho''; rw [hw.terms.sellQuantity, hw.terms.buyQuantity] at hmatch
  rw [hw.terms.sellToken, hw.terms.buyToken] at hp hid
  obtain ⟨hown, hfit⟩ := h o ⟨price, id, hprices _ _ hp, hmatch, hids _ _ _ hid, ho⟩
  rw [hterms.owner, PriceFits, hterms.sellQuantity, hterms.buyQuantity, hw.terms.sellQuantity]
  exact ⟨hown, hfit⟩

/-- The queues after a walk that only took ids away. -/
lemma QueuesOk.of_walks (h : QueuesOk book) (hw : Walks owners book taker fills book' taker')
    (hids : ∀ pair price id, id ∈ book'.getOrderIds pair price → id ∈ book.getOrderIds pair price) :
    QueuesOk book' := by
  intro pair price id hid; obtain ⟨o, ho, hpair⟩ := h pair price id (hids _ _ _ hid)
  obtain ⟨o', ho', ht⟩ := hw.stored id o ho
  exact ⟨o', ho', by rw [ht.sellToken, ht.buyToken]; exact hpair⟩

/-- The orders at one price have been walked along and their queue is stored. -/
lemma mem_getOrderIds_putOrderIds {pair : Bytes} {price : Price}
    (hsame : SamePrices book book') (hsub : ∀ x ∈ ids, x ∈ book.getOrderIds pair price)
    (pair' : Bytes) (price' : Price) (id : OrderId)
    (hid : id ∈ (book'.putOrderIds pair price ids).getOrderIds pair' price') : id ∈ book.getOrderIds pair' price' := by
  rw [WorldState.getOrderIds_putOrderIds] at hid
  split at hid
  · rename_i heq; rw [heq.1, heq.2]; exact hsub id hid
  · rw [WorldState.getOrderIds, hsame.queues] at hid; exact hid

lemma walkPrices_ok (makerPair : Bytes) (fuel left : Nat) (book : WorldState) (taker : MarketOrder) :
    ∀ taker' book', (walkPrices makerPair fuel left book taker).2 = .ok (taker', book') →
      makerPair = pairKey taker.buyTokenId taker.sellTokenId → OrdersOk book → QueuesOk book →
      Offers taker → OrderTerms id taker → Clear owners book taker →
      Walks owners book taker (walkPrices makerPair fuel left book taker).1 book' taker' ∧ QueuesOk book' := by
  fun_induction walkPrices makerPair fuel left book taker with
  | case1 | case2 | case3 | case4 =>
    intro t' b' hr _ hbook hq ht _ _; cases hr; exact ⟨.nil hbook ht, hq⟩
  | case5 => intro t' b' hr; cases hr
  | case6 fuel left book taker h0 best hb hp w r hr book1 | case8 fuel left book taker h0 best hb hp w r hr book1 =>
    intro t' b' hres hpair hbook hq ht hterms hclear; cases hres
    obtain ⟨hw, hsub, hqs⟩ := walkIds_ok left book taker _ r hr hbook ht
      (crosses_best hpair hbook hq hterms hclear hb hp)
    have hw1 : Walks owners book taker w.1 book1 r.taker := hw.congr_book rfl
    exact ⟨hw1, hq.of_walks hw1 (mem_getOrderIds_putOrderIds hqs hsub)⟩
  | case7 fuel left book taker h0 best hb hp w r hr book1 hstop hids v ih =>
    intro t' b' hres hpair hbook hq ht hterms hclear
    obtain ⟨hw, hsub, hqs⟩ := walkIds_ok left book taker _ r hr hbook ht
      (crosses_best hpair hbook hq hterms hclear hb hp)
    have hw1 : Walks owners book taker w.1 (book1.removePrice makerPair best) r.taker :=
      hw.congr_book (WorldState.marketOrder_removePrice ..)
    have hids1 : ∀ pair price id, id ∈ (book1.removePrice makerPair best).getOrderIds pair price →
        id ∈ book.getOrderIds pair price := by
      intro pair price id hid
      rw [WorldState.getOrderIds, WorldState.marketPairPrice_removePrice] at hid
      exact mem_getOrderIds_putOrderIds hqs hsub pair price id hid
    have hprices1 : ∀ pair price, price ∈ (book1.removePrice makerPair best).getPrices pair →
        price ∈ book.getPrices pair := by
      intro pair price hmem; have hmem1 := WorldState.mem_getPrices_removePrice hmem
      rw [WorldState.getPrices] at hmem1 ⊢; rw [← hqs.prices]; exact hmem1
    obtain ⟨hw2, hq2⟩ := ih t' b' hres (by rw [hw.terms.buyToken, hw.terms.sellToken]; exact hpair) hw1.orders
      (hq.of_walks hw1 hids1) hw1.offers (hterms.of_sameTerms hw.terms) (hclear.of_walks hq hw1 hprices1 hids1)
    exact ⟨hw1.append hw2, hq2⟩

end Walking
end TronRs

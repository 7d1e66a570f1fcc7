import TronRs.L3Actuators.Market.Ledger

/-!
# How exact a fill is

`match_single` on two orders of opposite pairs, compared with the exchange of rational amounts
at the maker's price. A fill should return a rest only when it is worth less than one unit of
the other token, and otherwise pay both owners something within one unit of the exact amounts.

* `exact_fill_iff`: which fills do. Two kinds do not: the quotient is cut to 64 bits and comes
  out smaller than the offer, or the taker can buy the whole offer and not more while the price
  of the offer rounds to zero.
* `inexact_fills`: one fill of each kind.
-/
namespace TronRs

open TronRs.Core

variable {maker : MarketOrder} {n : Int} {s : WorldState} {accounts : Column Address Account} {amount : Int64}
variable {token : Bytes}

/-- Two orders that can meet in `match_single`. -/
structure Opposed (taker maker : MarketOrder) : Prop where
  sells : taker.sellTokenId = maker.buyTokenId
  buys : taker.buyTokenId = maker.sellTokenId
  takerSell : 1 ≤ taker.sellTokenQuantity.toInt ∧ taker.sellTokenQuantity.toInt ≤ 10 ^ 15
  takerBuy : 1 ≤ taker.buyTokenQuantity.toInt ∧ taker.buyTokenQuantity.toInt ≤ 10 ^ 15
  makerSell : 1 ≤ maker.sellTokenQuantity.toInt ∧ maker.sellTokenQuantity.toInt ≤ 10 ^ 15
  makerBuy : 1 ≤ maker.buyTokenQuantity.toInt ∧ maker.buyTokenQuantity.toInt ≤ 10 ^ 15
  takerRemain : 1 ≤ taker.sellTokenQuantityRemain.toInt ∧
    taker.sellTokenQuantityRemain.toInt ≤ taker.sellTokenQuantity.toInt
  makerRemain : 1 ≤ maker.sellTokenQuantityRemain.toInt ∧
    maker.sellTokenQuantityRemain.toInt ≤ maker.sellTokenQuantity.toInt
  price : priceMatch taker.sellTokenQuantity taker.buyTokenQuantity maker.sellTokenQuantity
    maker.buyTokenQuantity = true

/-! ## What a fill should do -/

/-- What `n` of the token a maker buys is worth in the token it sells. -/
def MarketOrder.buyable (maker : MarketOrder) (n : Int) : ℚ :=
  n * maker.sellTokenQuantity.toInt / maker.buyTokenQuantity.toInt

/-- What `n` of the token a maker sells costs. -/
def MarketOrder.cost (maker : MarketOrder) (n : Int) : ℚ :=
  n * maker.buyTokenQuantity.toInt / maker.sellTokenQuantity.toInt

/-- Giving `given` for `paid` is within one unit of one token of the exchange at the maker's price. -/
def NearPrice (maker : MarketOrder) (given paid : Int) : Prop :=
  |given - maker.buyable paid| < 1 ∨ |paid - maker.cost given| < 1

/-- One account has `amount` of a token more than the other. -/
def Gains (x y : Account) (token : Bytes) (amount : Int) : Prop :=
  ∀ a, holding y a = holding x a + if a = .ofId token then amount else 0

/-- The stored account of a maker's owner gains `amount` of a token. -/
def OwnerGains (maker : MarketOrder) (s u : WorldState) (token : Bytes) (amount : Int) : Prop :=
  ∃ owner x y, Address.ofBytes maker.ownerAddress = some owner ∧ s.getAccount owner = some x ∧
    Gains x y token amount ∧ u = s.putAccount owner y

section
variable (t t' : Taking) (maker maker' : MarketOrder) (s u : WorldState)

/-- The rest of the taker buys less than one unit, and is returned. -/
structure TakerRefunded : Prop where
  small : maker.buyable t.order.sellTokenQuantityRemain.toInt < 1
  closed : t'.order.sellTokenQuantityRemain = 0
  refund : Gains t.account t'.account t.order.sellTokenId t.order.sellTokenQuantityRemain.toInt
  order : maker' = maker
  state : u = s

/-- The rest of the maker costs less than one unit, and is returned. -/
structure MakerRefunded : Prop where
  small : maker.cost maker.sellTokenQuantityRemain.toInt < 1
  closed : maker'.sellTokenQuantityRemain = 0
  refund : OwnerGains maker s u maker.sellTokenId maker.sellTokenQuantityRemain.toInt
  taker : t' = t

/-- Each owner gets what the other order lost, at the maker's price. -/
structure Traded (given paid : Int) : Prop where
  makerLoses : maker'.sellTokenQuantityRemain.toInt = maker.sellTokenQuantityRemain.toInt - given
  takerLoses : t'.order.sellTokenQuantityRemain.toInt = t.order.sellTokenQuantityRemain.toInt - paid
  givenPos : 0 < given
  paidPos : 0 < paid
  near : NearPrice maker given paid
  takerGains : Gains t.account t'.account maker.sellTokenId given
  makerGains : OwnerGains maker s u t.order.sellTokenId paid

/-- A fill as it should be. -/
structure ExactFill : Prop where
  takerRemain : 0 ≤ t'.order.sellTokenQuantityRemain.toInt ∧
    t'.order.sellTokenQuantityRemain.toInt ≤ t.order.sellTokenQuantityRemain.toInt
  makerRemain : 0 ≤ maker'.sellTokenQuantityRemain.toInt ∧
    maker'.sellTokenQuantityRemain.toInt ≤ maker.sellTokenQuantityRemain.toInt
  settled : TakerRefunded t t' maker maker' s u ∨ MakerRefunded t t' maker maker' s u ∨
    ∃ given paid, Traded t t' maker maker' s u given paid

end

/-! ## The arithmetic -/

/-- What the taker could buy, cut to 64 bits as in the code. -/
def affordable (taker maker : MarketOrder) : Int64 := .ofInt
  (taker.sellTokenQuantityRemain.toInt * maker.sellTokenQuantity.toInt / maker.buyTokenQuantity.toInt)

/-- Cutting did not make the quotient smaller than the offer, and an offer that is bought exactly costs something. -/
def FillsExactly (taker maker : MarketOrder) : Prop :=
  (PriceFits taker.sellTokenQuantityRemain maker ∨
    maker.sellTokenQuantityRemain.toInt ≤ (affordable taker maker).toInt) ∧
  (affordable taker maker = maker.sellTokenQuantityRemain →
    maker.sellTokenQuantity.toInt ≤ maker.sellTokenQuantityRemain.toInt * maker.buyTokenQuantity.toInt)

instance (taker maker : MarketOrder) : Decidable (FillsExactly taker maker) := inferInstanceAs (Decidable (_ ∧ _))

lemma buyable_lt_one (h : 0 < maker.buyTokenQuantity.toInt) :
    maker.buyable n < 1 ↔ n * maker.sellTokenQuantity.toInt < maker.buyTokenQuantity.toInt := by
  rw [MarketOrder.buyable, div_lt_one (by exact_mod_cast h)]
  exact_mod_cast Iff.rfl

lemma cost_lt_one (h : 0 < maker.sellTokenQuantity.toInt) :
    maker.cost n < 1 ↔ n * maker.buyTokenQuantity.toInt < maker.sellTokenQuantity.toInt := by
  rw [MarketOrder.cost, div_lt_one (by exact_mod_cast h)]
  exact_mod_cast Iff.rfl

/-- A quotient is within one unit exactly when the product is within one divisor. -/
lemma abs_sub_div_lt_one {a d : Int} (h : 0 < d) : |(a : ℚ) - n / d| < 1 ↔ |a * d - n| < d := by
  have hd : (0 : ℚ) < d := by exact_mod_cast h
  have heq : (a : ℚ) - n / d = (a * d - n) / d := by field_simp
  rw [heq, abs_div, abs_of_pos hd, div_lt_one hd]
  exact_mod_cast Iff.rfl

lemma nearPrice_iff (hs : 0 < maker.sellTokenQuantity.toInt)
    (hb : 0 < maker.buyTokenQuantity.toInt) {given paid : Int} : NearPrice maker given paid ↔
      |given * maker.buyTokenQuantity.toInt - paid * maker.sellTokenQuantity.toInt| < maker.buyTokenQuantity.toInt ∨
      |paid * maker.sellTokenQuantity.toInt - given * maker.buyTokenQuantity.toInt| <
        maker.sellTokenQuantity.toInt := by
  rw [NearPrice, MarketOrder.buyable, MarketOrder.cost, ← Int.cast_mul, ← Int.cast_mul, abs_sub_div_lt_one hb,
    abs_sub_div_lt_one hs]

lemma abs_ediv_mul_sub_lt {d : Int} (h : 0 < d) : |n / d * d - n| < d := by
  have hdiv := Int.mul_ediv_add_emod n d
  have hnn := Int.emod_nonneg n h.ne'
  have hlt := Int.emod_lt_of_pos n h; rw [mul_comm] at hdiv; rw [abs_lt]
  omega

/-- What the maker's rest costs, as in the code. -/
def restCost (maker : MarketOrder) : Int64 := .ofInt
  (maker.sellTokenQuantityRemain.toInt * maker.buyTokenQuantity.toInt / maker.sellTokenQuantity.toInt)

namespace Opposed
variable {taker maker : MarketOrder} (h : Opposed taker maker)
include h

lemma restCost_le : 0 ≤ maker.sellTokenQuantityRemain.toInt * maker.buyTokenQuantity.toInt ∧
    maker.sellTokenQuantityRemain.toInt * maker.buyTokenQuantity.toInt / maker.sellTokenQuantity.toInt ≤
      maker.buyTokenQuantity.toInt := by
  obtain ⟨hr, hrle⟩ := h.makerRemain
  obtain ⟨hs, -⟩ := h.makerSell
  obtain ⟨hb, hble⟩ := h.makerBuy; refine ⟨by positivity, Int.ediv_le_of_le_mul (by omega) ?_⟩
  rw [mul_comm]; exact mul_le_mul_of_nonneg_left hrle (by omega)

/-- The rest is a part of what the maker sells, so it costs at most what the maker wants for all of it. -/
lemma toInt_restCost : (restCost maker).toInt =
    maker.sellTokenQuantityRemain.toInt * maker.buyTokenQuantity.toInt / maker.sellTokenQuantity.toInt := by
  obtain ⟨hnn, hle⟩ := h.restCost_le
  have hs := h.makerSell
  have hb := h.makerBuy
  have h0 := Int.ediv_nonneg hnn (b := maker.sellTokenQuantity.toInt) (by omega)
  exact toInt_ofInt_of_fits ⟨by omega, by omega⟩

lemma restCost_eq_zero_iff : restCost maker = 0 ↔
    maker.sellTokenQuantityRemain.toInt * maker.buyTokenQuantity.toInt < maker.sellTokenQuantity.toInt := by
  have hs := h.makerSell
  have h0 := Int.ediv_nonneg h.restCost_le.1 (b := maker.sellTokenQuantity.toInt) (by omega)
  have hlt := Int.ediv_lt_iff_lt_mul (a := maker.sellTokenQuantityRemain.toInt * maker.buyTokenQuantity.toInt)
    (b := 1) (c := maker.sellTokenQuantity.toInt) (by omega)
  rw [one_mul] at hlt; rw [← toInt_inj, toInt_zero, h.toInt_restCost, ← hlt]; omega

lemma ofInt_tdiv_offer : Int64.ofInt ((maker.sellTokenQuantityRemain.toInt * maker.buyTokenQuantity.toInt).tdiv
    maker.sellTokenQuantity.toInt) = restCost maker := by
  rw [Int.tdiv_eq_ediv_of_nonneg h.restCost_le.1, restCost]

lemma ofInt_tdiv_sell : Int64.ofInt ((taker.sellTokenQuantityRemain.toInt * maker.sellTokenQuantity.toInt).tdiv
    maker.buyTokenQuantity.toInt) = affordable taker maker := by
  obtain ⟨hr, -⟩ := h.takerRemain
  obtain ⟨hs, -⟩ := h.makerSell; rw [Int.tdiv_eq_ediv_of_nonneg (by positivity), affordable]

/-- The quotient, which is `affordable` if it fits. -/
lemma quotient_nonneg : 0 ≤ taker.sellTokenQuantityRemain.toInt * maker.sellTokenQuantity.toInt /
    maker.buyTokenQuantity.toInt := by
  obtain ⟨hr, -⟩ := h.takerRemain
  obtain ⟨hs, -⟩ := h.makerSell
  obtain ⟨hb, -⟩ := h.makerBuy; exact Int.ediv_nonneg (by positivity) (by omega)

lemma toInt_affordable (hfit : PriceFits taker.sellTokenQuantityRemain maker) : (affordable taker maker).toInt =
    taker.sellTokenQuantityRemain.toInt * maker.sellTokenQuantity.toInt / maker.buyTokenQuantity.toInt := by
  have h0 := h.quotient_nonneg; exact toInt_ofInt_of_fits ⟨by omega, hfit⟩

lemma small_iff : maker.buyable taker.sellTokenQuantityRemain.toInt < 1 ↔
    taker.sellTokenQuantityRemain.toInt * maker.sellTokenQuantity.toInt / maker.buyTokenQuantity.toInt = 0 := by
  have hb := h.makerBuy
  have h0 := h.quotient_nonneg
  rw [buyable_lt_one (by omega), ← one_mul maker.buyTokenQuantity.toInt, ← Int.ediv_lt_iff_lt_mul (by omega), one_mul]
  omega

/-- A quotient that was cut is not near the price. -/
lemma not_nearPrice (hwrap : ¬ PriceFits taker.sellTokenQuantityRemain maker) :
    ¬ NearPrice maker (affordable taker maker).toInt taker.sellTokenQuantityRemain.toInt := by
  have hs := h.makerSell
  have hb := h.makerBuy
  have hle := Int64.toInt_ofInt_add_le (Int.not_lt.mp hwrap)
  rw [Int.le_ediv_iff_mul_le (by omega), add_mul] at hle
  rw [nearPrice_iff (by omega) (by omega), affordable]; simp only [abs_lt]; omega

end Opposed

/-! ## The four fills -/

section Fills
variable {t t' : Taking} {maker maker' : MarketOrder} {s u : WorldState} (h : Opposed t.order maker)
include h

lemma exactFill_iff_takerSmall (hzero : affordable t.order maker = 0) (hclosed : t'.order.sellTokenQuantityRemain = 0)
    (hgains : Gains t.account t'.account t.order.sellTokenId t.order.sellTokenQuantityRemain.toInt) :
    ExactFill t t' maker maker s s ↔ FillsExactly t.order maker := by
  have hr := h.makerRemain
  have hx := h.takerRemain
  constructor
  · intro hexact
    rcases hexact.settled with hsmall | hmaker | ⟨given, paid, htraded⟩
    · refine ⟨.inl ?_, fun hall => ?_⟩
      · rw [PriceFits, h.small_iff.mp hsmall.small]; decide
      · rw [hzero, ← toInt_inj, toInt_zero] at hall; omega
    · have hempty := hmaker.closed; rw [← toInt_inj, toInt_zero] at hempty; omega
    · have hlost := htraded.makerLoses
      have hpos := htraded.givenPos; omega
  · intro hcond
    have hfit : PriceFits t.order.sellTokenQuantityRemain maker := by
      refine hcond.1.resolve_right ?_; rw [hzero, toInt_zero]; omega
    have hquot := h.toInt_affordable hfit; rw [hzero, toInt_zero] at hquot
    refine ⟨?_, ⟨by omega, le_rfl⟩, .inl ⟨h.small_iff.mpr hquot.symm, hclosed, hgains, rfl, rfl⟩⟩
    rw [hclosed, toInt_zero]; omega

lemma exactFill_iff_takerFilled (hne : affordable t.order maker ≠ 0)
    (hlt : affordable t.order maker < maker.sellTokenQuantityRemain) (hclosed : t'.order.sellTokenQuantityRemain = 0)
    (hleft : maker'.sellTokenQuantityRemain = maker.sellTokenQuantityRemain - affordable t.order maker)
    (hgains : Gains t.account t'.account t.order.buyTokenId (affordable t.order maker).toInt)
    (howner : OwnerGains maker s u maker.buyTokenId t.order.sellTokenQuantityRemain.toInt) :
    ExactFill t t' maker maker' s u ↔ FillsExactly t.order maker := by
  have hr := h.makerRemain
  have hs := h.makerSell
  have hb := h.makerBuy
  have hx := h.takerRemain; rw [lt_iff_toInt_lt] at hlt
  have hzero : t'.order.sellTokenQuantityRemain.toInt = 0 := by rw [hclosed, toInt_zero]
  constructor
  · intro hexact; refine ⟨.inl (by_contra fun hwrap => ?_), fun hall => by rw [hall] at hlt; omega⟩
    -- a negative amount is taken from nobody, and a positive one is not the price
    have hbounds := hexact.makerRemain; rw [hleft] at hbounds
    have hnn : 0 ≤ (affordable t.order maker).toInt := by
      by_contra hneg
      by_cases hfits : maker.sellTokenQuantityRemain.toInt - (affordable t.order maker).toInt < 2 ^ 63
      · rw [toInt_sub_of_fits ⟨by omega, hfits⟩] at hbounds; omega
      · have := Int64.toInt_sub_neg (Int.not_lt.mp hfits)
        omega
    have hpos := Int64.toInt_pos_of_ne hnn hne
    have hsub := toInt_sub_of_fits (a := maker.sellTokenQuantityRemain) (b := affordable t.order maker)
      ⟨by omega, by omega⟩
    rw [← hleft] at hsub
    rcases hexact.settled with hsmall | hmaker | ⟨given, paid, htraded⟩
    · refine hwrap ?_; rw [PriceFits, h.small_iff.mp hsmall.small]; decide
    · rw [hmaker.closed, toInt_zero] at hsub; omega
    have hgiven : given = (affordable t.order maker).toInt := by have := htraded.makerLoses; omega
    have hpaid : paid = t.order.sellTokenQuantityRemain.toInt := by have := htraded.takerLoses; omega
    have hnear := htraded.near; rw [hgiven, hpaid] at hnear; exact h.not_nearPrice hwrap hnear
  · intro hcond
    have hfit : PriceFits t.order.sellTokenQuantityRemain maker := hcond.1.resolve_right (by omega)
    have hquot := h.toInt_affordable hfit
    have hnn := h.quotient_nonneg
    have hpos := Int64.toInt_pos_of_ne (by omega) hne
    have hsub := toInt_sub_of_fits (a := maker.sellTokenQuantityRemain) (b := affordable t.order maker)
      ⟨by omega, by omega⟩
    rw [← hleft] at hsub; rw [h.buys] at hgains; rw [← h.sells] at howner
    refine ⟨by omega, by omega, .inr (.inr ⟨_, _, hsub, by omega, hpos, by omega, ?_, hgains, howner⟩)⟩
    rw [nearPrice_iff (by omega) (by omega), hquot]; exact .inl (abs_ediv_mul_sub_lt (by omega))

lemma exactFill_iff_makerSmall (hgt : maker.sellTokenQuantityRemain < affordable t.order maker)
    (hfree : restCost maker = 0) (hclosed : maker'.sellTokenQuantityRemain = 0)
    (howner : OwnerGains maker s u maker.sellTokenId maker.sellTokenQuantityRemain.toInt) :
    ExactFill t t maker maker' s u ↔ FillsExactly t.order maker := by
  have hr := h.makerRemain
  have hx := h.takerRemain; rw [lt_iff_toInt_lt] at hgt
  refine iff_of_true ⟨by omega, ?_, .inr (.inl ⟨?_, hclosed, howner, rfl⟩)⟩ ⟨.inr hgt.le, fun hall => ?_⟩
  · rw [hclosed, toInt_zero]; omega
  · rw [cost_lt_one (by omega)]; exact h.restCost_eq_zero_iff.mp hfree
  · rw [hall] at hgt; omega

lemma exactFill_iff_makerFilled (hge : maker.sellTokenQuantityRemain ≤ affordable t.order maker)
    (hpays : affordable t.order maker = maker.sellTokenQuantityRemain ∨ restCost maker ≠ 0)
    (hclosed : maker'.sellTokenQuantityRemain = 0)
    (hleft : t'.order.sellTokenQuantityRemain = t.order.sellTokenQuantityRemain - restCost maker)
    (hgains : Gains t.account t'.account t.order.buyTokenId maker.sellTokenQuantityRemain.toInt)
    (howner : OwnerGains maker s u maker.buyTokenId (restCost maker).toInt) :
    ExactFill t t' maker maker' s u ↔ FillsExactly t.order maker := by
  have hr := h.makerRemain
  have hb := h.makerBuy
  have hx := h.takerRemain
  have hts := h.takerSell; rw [le_iff_toInt_le] at hge
  have hcost : 0 ≤ (restCost maker).toInt ∧ (restCost maker).toInt ≤ t.order.sellTokenQuantityRemain.toInt := by
    rw [← h.ofInt_tdiv_sell] at hge; rw [← h.ofInt_tdiv_offer]
    exact price_le (by omega) (by omega) (by omega) (by omega) hge
  have hsub := toInt_sub_of_fits (a := t.order.sellTokenQuantityRemain) (b := restCost maker)
    ⟨by omega, by omega⟩
  rw [← hleft] at hsub
  have hempty : maker'.sellTokenQuantityRemain.toInt = 0 := by rw [hclosed, toInt_zero]
  have hiff : restCost maker ≠ 0 ↔ FillsExactly t.order maker := by
    rw [ne_eq, h.restCost_eq_zero_iff, Int.not_lt]
    constructor
    · exact fun hle => ⟨.inr hge, fun _ => hle⟩
    intro hcond
    rcases hpays with hall | hne
    · exact hcond.2 hall
    · rwa [ne_eq, h.restCost_eq_zero_iff, Int.not_lt] at hne
  rw [← hiff]
  constructor
  · intro hexact hfree; rw [hfree, toInt_zero] at hsub
    rcases hexact.settled with hsmall | hmaker | ⟨given, paid, htraded⟩
    · rw [hsmall.closed, toInt_zero] at hsub; omega
    · have hsame := hgains (.ofId t.order.buyTokenId)
      rw [hmaker.taker, if_pos rfl] at hsame; omega
    · have hpaid := htraded.takerLoses
      have hpos := htraded.paidPos; omega
  · intro hne; have hpos := Int64.toInt_pos_of_ne hcost.1 hne
    rw [h.buys] at hgains; rw [← h.sells] at howner
    refine ⟨by omega, by omega, .inr (.inr ⟨_, _, by omega, hsub, by omega, hpos, ?_, hgains, howner⟩)⟩
    rw [nearPrice_iff (by omega) (by omega), h.toInt_restCost]
    exact .inr (abs_ediv_mul_sub_lt (by omega))

end Fills

/-! ## `match_single` -/

lemma gains_of_creditToken {x y : Account} (h : creditToken x token amount = .ok y) :
    Gains x y token amount.toInt := creditToken_eq_ok h

lemma ownerGains_of_payMaker (h : payMaker s.account maker (some (token, amount)) = .ok accounts) :
    OwnerGains maker s (s.withAccounts accounts) token amount.toInt := by
  simp only [payMaker, check_rules, parseAddress_eq_ok] at h; obtain ⟨owner, ho, x, hx, y, hy, rfl⟩ := h
  exact ⟨owner, x, y, ho, hx, gains_of_creditToken hy, rfl⟩

lemma exactFill_iff_of_fill {t : Taking} {f : Fill} {a : Account} (hm : Opposed t.order maker)
    (hf : fill t.order maker = .ok f)
    (ha : creditTo t.account f.takerCredit = .ok a) (hacc : payMaker s.account maker f.makerCredit = .ok accounts) :
    ExactFill t ⟨f.taker, a⟩ maker f.maker s (s.withAccounts accounts) ↔ FillsExactly t.order maker := by
  simp only [fill, bind_eq_ok, multiplyAndDivide_eq_ok, hm.ofInt_tdiv_sell] at hf
  obtain ⟨buy, ⟨-, rfl⟩, hf⟩ := hf
  split at hf
  · rename_i hzero; cases hf; cases hacc
    exact exactFill_iff_takerSmall hm hzero rfl (gains_of_creditToken ha)
  rename_i hne
  split at hf
  · rename_i hlt; cases hf
    exact exactFill_iff_takerFilled hm hne hlt rfl rfl (gains_of_creditToken ha) (ownerGains_of_payMaker hacc)
  rename_i hge; have hge := Int64.not_lt.mp hge
  simp only [bind_eq_ok, multiplyAndDivide_eq_ok, hm.ofInt_tdiv_offer] at hf
  obtain ⟨price, ⟨-, rfl⟩, hf⟩ := hf
  split at hf
  · rename_i hsmall; cases hf; cases ha
    have hgt := Int64.lt_iff_le_and_ne.mpr ⟨hge, hsmall.1.symm⟩
    exact exactFill_iff_makerSmall hm hgt hsmall.2 rfl (ownerGains_of_payMaker hacc)
  · rename_i hpays; cases hf
    have hpays : affordable t.order maker = maker.sellTokenQuantityRemain ∨ restCost maker ≠ 0 := by
      by_cases hall : affordable t.order maker = maker.sellTokenQuantityRemain
      · exact .inl hall
      · exact .inr fun hfree => hpays ⟨hall, hfree⟩
    exact exactFill_iff_makerFilled hm hge hpays rfl rfl (gains_of_creditToken ha) (ownerGains_of_payMaker hacc)

open MarketSellAssetActuator

lemma matchSingle_ok {t t' : Taking} {maker' : MarketOrder} {u : WorldState} {stop : Bool}
    (h : matchSingle t maker s = .ok (stop, t', maker') u) : ∃ f a accounts, fill t.order maker = .ok f ∧
      creditTo t.account f.takerCredit = .ok a ∧ payMaker s.account maker f.makerCredit = .ok accounts ∧
      t' = ⟨f.taker, a⟩ ∧ maker' = f.maker ∧ u = s.withAccounts accounts := by
  have hout := outcome_matchSingle t maker s; rw [outcome_eq_ok.mpr h, eq_comm] at hout
  simp only [check_rules] at hout; obtain ⟨f, hf, a, ha, accounts, hacc, hres⟩ := hout
  cases hres; exact ⟨f, a, accounts, hf, ha, hacc, rfl, rfl, rfl⟩

/-- **How exact a fill is.** A fill of two orders that match keeps both rests within bounds and either returns a rest
worth less than one unit to its owner or pays both owners within one unit of the maker's price, if and only if the
quotient was not cut below the offer and an offer that is bought exactly costs something. -/
theorem exact_fill_iff {t t' : Taking} {maker maker' : MarketOrder} {s u : WorldState} {stop : Bool}
    (hm : Opposed t.order maker) (hok : matchSingle t maker s = .ok (stop, t', maker') u) :
    ExactFill t t' maker maker' s u ↔ FillsExactly t.order maker := by
  obtain ⟨f, a, accounts, hf, ha, hacc, rfl, rfl, rfl⟩ := matchSingle_ok hok
  exact exactFill_iff_of_fill hm hf ha hacc

/-! ## Three fills -/

/-- Six of token 1 for twenty units of TRX, at three for ten. -/
theorem exact_fill_iff_twenty : ∃ stop t' maker' u,
    matchSingle (trxTaker 6) (trxMaker 100 30 50) makerState = .ok (stop, t', maker') u ∧
    ExactFill (trxTaker 6) t' (trxMaker 100 30 50) maker' makerState u ∧ maker'.sellTokenQuantityRemain = 30 := by
  have hm : Opposed (trxTaker 6).order (trxMaker 100 30 50) := by constructor <;> decide
  have hrun : (outcome (matchSingle (trxTaker 6) (trxMaker 100 30 50)) makerState).toOption.map
      (fun r => r.1.2.2.sellTokenQuantityRemain) = some 30 := by decide +kernel
  obtain ⟨⟨stop, t', maker'⟩, u, hok, hleft⟩ := exists_of_outcome hrun
  exact ⟨stop, t', maker', u, hok, (exact_fill_iff hm hok).mpr (by decide), hleft⟩

/-- A taker gets the last three units of TRX for nothing, since their price rounds to zero; and one that could buy
`2 ^ 64` units gets its tokens back as too few, since the quotient is cut to zero. -/
theorem inexact_fills : (Opposed (trxTaker 1).order (trxMaker 10 3 3) ∧ ∃ stop t' maker' u,
      matchSingle (trxTaker 1) (trxMaker 10 3 3) makerState = .ok (stop, t', maker') u ∧
      ¬ ExactFill (trxTaker 1) t' (trxMaker 10 3 3) maker' makerState u) ∧
    Opposed (trxTaker 4294967296).order (trxMaker 4294967296 1 4294967296) ∧ ∃ stop t' maker' u,
      matchSingle (trxTaker 4294967296) (trxMaker 4294967296 1 4294967296) makerState = .ok (stop, t', maker') u ∧
      ¬ ExactFill (trxTaker 4294967296) t' (trxMaker 4294967296 1 4294967296) maker' makerState u := by
  have hinexact : ∀ t maker, Opposed t.order maker → returns (matchSingle t maker) makerState = true →
      ¬ FillsExactly t.order maker → ∃ stop t' maker' u, matchSingle t maker makerState = .ok (stop, t', maker') u ∧
        ¬ ExactFill t t' maker maker' makerState u := by
    intro t maker hm hret hcond; obtain ⟨⟨stop, t', maker'⟩, hok⟩ := ok_of_returns hret
    refine ⟨stop, t', maker', _, hok, ?_⟩
    obtain ⟨f, a, accounts, hf, ha, hacc, rfl, rfl, hu⟩ := matchSingle_ok hok
    rwa [hu, exactFill_iff_of_fill hm hf ha hacc]
  have hfree : Opposed (trxTaker 1).order (trxMaker 10 3 3) := by constructor <;> decide
  have hcut : Opposed (trxTaker 4294967296).order (trxMaker 4294967296 1 4294967296) := by constructor <;> decide
  exact ⟨⟨hfree, hinexact _ _ hfree (by decide +kernel) (by decide)⟩, hcut,
    hinexact _ _ hcut (by decide +kernel) (by decide)⟩

end TronRs

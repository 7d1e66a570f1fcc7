import TronRs.L3Actuators.Fees
import TronRs.L3Actuators.Runs

/-!
# What the exchange pools hold

The runs of the four exchange contracts, with the Bancor formula replaced by any function
that never buys the whole of a positive balance.

* `pools_conserved`: accounts and pools together keep every TRC10 token, and TRX but for the
  creation fees that are burned; a pool is empty on both sides or on neither, and below the limit.
* `inject_withdraw_never_profits`: withdrawing what was just injected takes nothing from the pool.

The limits are checked on sums of `i64` that wrap. Nothing comes of it, since an owner and a
pool never hold more of a token than there is (`PoolsInv.owner_add_pool_le`).
-/
namespace TronRs

open TronRs.Core
open Exchange (side otherSide otherToken)

/-- What a pool holds of a token. -/
def pooled (ex : Exchange) (a : Asset) : Int :=
  (if a = .ofId ex.firstTokenId then ex.firstTokenBalance.toInt else 0) +
    if a = .ofId ex.secondTokenId then ex.secondTokenBalance.toInt else 0

/-- What accounts and pools hold of a token. -/
def assetSum (s : WorldState) (a : Asset) : Int :=
  Column.total (fun _ x => holding x a) s.account + Column.total (fun _ ex => pooled ex a) s.exchange

/-- A pool between two tokens, stored under its id, with nothing on either side or something on both. -/
structure PoolOk (limit : Int) (id : Int64) (ex : Exchange) : Prop where
  key : ex.exchangeId = id
  first : validToken ex.firstTokenId = true
  second : validToken ex.secondTokenId = true
  distinct : ex.firstTokenId ≠ ex.secondTokenId
  balances : ex.firstTokenBalance.toInt = 0 ∧ ex.secondTokenBalance.toInt = 0 ∨
    0 < ex.firstTokenBalance.toInt ∧ 0 < ex.secondTokenBalance.toInt
  firstLe : ex.firstTokenBalance.toInt ≤ limit
  secondLe : ex.secondTokenBalance.toInt ≤ limit

section Pool
variable {limit : Int} {id : Int64} {ex : Exchange} {tok : Bytes} {d e : Int64}

variable (h : PoolOk limit id ex)
include h

lemma PoolOk.pooled_nonneg (a : Asset) : 0 ≤ pooled ex a := by
  have hbal := h.balances; unfold pooled; split <;> split <;> omega

omit h in
lemma pooled_sides (htok : tok = ex.firstTokenId ∨ tok = ex.secondTokenId) (a : Asset) :
    pooled ex a = (if a = .ofId tok then (ex.side tok).toInt else 0) +
      if a = .ofId (ex.otherToken tok) then (ex.otherSide tok).toInt else 0 := by
  unfold pooled side otherSide otherToken
  by_cases h : tok = ex.firstTokenId
  · simp [h]
  · simp only [h, ↓reduceIte]; rw [htok.resolve_left h]; omega

lemma PoolOk.sides (tok : Bytes) :
    (ex.side tok).toInt = 0 ∧ (ex.otherSide tok).toInt = 0 ∨ 0 < (ex.side tok).toInt ∧
    0 < (ex.otherSide tok).toInt := by
  unfold side otherSide
  split
  · exact h.balances
  · exact h.balances.imp And.symm And.symm

lemma PoolOk.sides_limit (tok : Bytes) : (ex.side tok).toInt ≤ limit ∧ (ex.otherSide tok).toInt ≤ limit := by
  unfold side otherSide
  split
  · exact ⟨h.firstLe, h.secondLe⟩
  · exact ⟨h.secondLe, h.firstLe⟩

/-- The two tokens are different, so each side is all the pool holds of its token. -/
lemma PoolOk.sides_le (htok : tok = ex.firstTokenId ∨ tok = ex.secondTokenId) :
    (ex.side tok).toInt ≤ pooled ex (.ofId tok) ∧ (ex.otherSide tok).toInt ≤ pooled ex (.ofId (ex.otherToken tok)) := by
  have hsides := h.sides tok; rw [pooled_sides htok, pooled_sides htok, if_pos rfl, if_pos rfl]
  constructor <;> split <;> omega

lemma PoolOk.otherToken_ne (htok : tok = ex.firstTokenId ∨ tok = ex.secondTokenId) :
    Asset.ofId (ex.otherToken tok) ≠ Asset.ofId tok := by
  unfold otherToken
  by_cases hfirst : tok = ex.firstTokenId
  · rw [if_pos hfirst, hfirst]
    exact fun heq => h.distinct (Asset.ofId_injective h.second h.first heq).symm
  · rw [if_neg hfirst, htok.resolve_left hfirst]
    exact fun heq => h.distinct (Asset.ofId_injective h.first h.second heq)

/-- Both sides of a pool move, by amounts that leave it a pool. -/
lemma PoolOk.move (htok : tok = ex.firstTokenId ∨ tok = ex.secondTokenId)
    (hlimit : limit < 2 ^ 63) (hbal : (ex.side tok).toInt + d.toInt = 0 ∧ (ex.otherSide tok).toInt + e.toInt = 0 ∨
      0 < (ex.side tok).toInt + d.toInt ∧ 0 < (ex.otherSide tok).toInt + e.toInt)
    (hd : (ex.side tok).toInt + d.toInt ≤ limit) (he : (ex.otherSide tok).toInt + e.toInt ≤ limit) :
    PoolOk limit id (movePool ex tok d e) ∧
      ∀ a, pooled (movePool ex tok d e) a = pooled ex a + (if a = .ofId tok then d.toInt else 0) +
        if a = .ofId (ex.otherToken tok) then e.toInt else 0 := by
  have hside : (ex.side tok + d).toInt = (ex.side tok).toInt + d.toInt :=
    toInt_add_of_fits ⟨by omega, by omega⟩
  have hother : (ex.otherSide tok + e).toInt = (ex.otherSide tok).toInt + e.toInt :=
    toInt_add_of_fits ⟨by omega, by omega⟩
  rw [← hside, ← hother] at hbal; rw [← hside] at hd; rw [← hother] at he
  have hpool : ∀ a, pooled (movePool ex tok d e) a = (if a = .ofId tok then (ex.side tok + d).toInt else 0) +
      if a = .ofId (ex.otherToken tok) then (ex.otherSide tok + e).toInt else 0 := by
    intro a; unfold pooled movePool side otherSide otherToken
    by_cases hfirst : tok = ex.firstTokenId
    · simp [hfirst]
    · simp only [hfirst, ↓reduceIte]; rw [htok.resolve_left hfirst]; omega
  constructor
  · unfold movePool; simp only [side, otherSide] at hbal hd he
    split
    · rename_i hfirst; simp only [hfirst, ↓reduceIte] at hbal hd he
      exact ⟨h.key, h.first, h.second, h.distinct, hbal, hd, he⟩
    · rename_i hfirst; simp only [hfirst, ↓reduceIte] at hbal hd he
      exact ⟨h.key, h.first, h.second, h.distinct, hbal.imp And.symm And.symm, he, hd⟩
  · intro a; rw [hpool, pooled_sides htok, hside, hother]; split <;> split <;> omega

omit h

/-- The limit as it is checked, on the wrapped sums. -/
lemma movePool_le {limit : Int64} (hfirst : (movePool ex tok d e).firstTokenBalance ≤ limit)
    (hsecond : (movePool ex tok d e).secondTokenBalance ≤ limit) :
    (ex.side tok + d).toInt ≤ limit.toInt ∧ (ex.otherSide tok + e).toInt ≤ limit.toInt := by
  rw [le_iff_toInt_le] at hfirst hsecond; unfold movePool at hfirst hsecond
  unfold side otherSide
  by_cases h : tok = ex.firstTokenId
  · simp only [h, ↓reduceIte] at hfirst hsecond ⊢; exact ⟨hfirst, hsecond⟩
  · simp only [h, ↓reduceIte] at hfirst hsecond ⊢; exact ⟨hsecond, hfirst⟩

end Pool

/-! ## The invariant -/

/-- The number of the last pool. -/
def exchangeNum (s : WorldState) : Int64 := s.getProp .latestExchangeNum

/-- The ledgers and pools of a run in which there is `total a` of token `a`, with burned TRX. -/
structure PoolsInv (total : Asset → Int) (limit : Int) (s : WorldState) : Prop where
  sums : ∀ a, assetSum s a + (if a = .trx then s.burned else 0) = total a
  bound : ∀ a, total a < 2 ^ 63
  burned : 0 ≤ s.burned
  held : ∀ o x, s.getAccount o = some x → ∀ a, 0 ≤ holding x a
  limitIs : (exchangeBalanceLimit s).toInt = limit
  pools : ∀ id ex, s.getExchange id = some ex → PoolOk limit id ex
  -- a new pool costs at least one sun, so this is how many more there can be
  fresh : ∀ j, 0 < j → j ≤ assetSum s .trx → s.getExchange (exchangeNum s + Int64.ofInt j) = none

namespace PoolsInv
variable {total : Asset → Int} {limit : Int} {s t : WorldState} {owner : Address} {x z : Account} {id : Int64}
  {ex : Exchange} {tok : Bytes} {d e : Int64}

variable (h : PoolsInv total limit s)
include h

lemma limit_lt : limit < 2 ^ 63 := h.limitIs ▸ Int64.toInt_lt _

lemma owner_add_pool_le (hx : s.getAccount owner = some x)
    (hex : s.getExchange id = some ex) (a : Asset) : holding x a + pooled ex a ≤ total a := by
  have hacc := share_le_total (fun o x hx => h.held o x hx a) owner
  have hpool := share_le_total (fun i ex hex => (h.pools i ex hex).pooled_nonneg a) id
  rw [Column.share_of_some hx] at hacc; rw [Column.share_of_some hex] at hpool; have hsum := h.sums a
  have hburned := h.burned; unfold assetSum at hsum; split at hsum <;> omega

lemma holding_le (hx : s.getAccount owner = some x) (a : Asset) : holding x a ≤ assetSum s a := by
  have hshare := share_le_total (fun o x hx => h.held o x hx a) owner
  have hnn : 0 ≤ Column.total (fun _ ex => pooled ex a) s.exchange := Finset.sum_nonneg fun i _ =>
    Column.share_nonneg (fun i ex hex => (h.pools i ex hex).pooled_nonneg a) i
  rw [Column.share_of_some hx] at hshare; unfold assetSum; omega

/-- The owner's account and a pool change, and keep what they hold together. -/
lemma trade (hx : s.getAccount owner = some x) (hex : s.getExchange id = some ex)
    (htok : tok = ex.firstTokenId ∨ tok = ex.secondTokenId)
    (hbal : (ex.side tok).toInt + d.toInt = 0 ∧ (ex.otherSide tok).toInt + e.toInt = 0 ∨
      0 < (ex.side tok).toInt + d.toInt ∧ 0 < (ex.otherSide tok).toInt + e.toInt)
    (hd : (ex.side tok).toInt + d.toInt ≤ limit) (he : (ex.otherSide tok).toInt + e.toInt ≤ limit)
    (hz : ∀ a, holding z a = holding x a - (if a = .ofId tok then d.toInt else 0) -
      if a = .ofId (ex.otherToken tok) then e.toInt else 0) (hz0 : ∀ a, 0 ≤ holding z a) :
    PoolsInv total limit ((s.putAccount owner z).putExchange (movePool ex tok d e)) := by
  obtain ⟨hok, hpool⟩ := (h.pools id ex hex).move htok h.limit_lt hbal hd he
  have hsum : ∀ a, assetSum ((s.putAccount owner z).putExchange (movePool ex tok d e)) a = assetSum s a := by
    intro a
    show Column.total _ (s.account.put owner z) +
      Column.total _ (s.exchange.put (movePool ex tok d e).exchangeId (movePool ex tok d e)) = _
    rw [hok.key, total_put, total_put, Column.share_of_some hx, Column.share_of_some hex, hz, hpool]
    unfold assetSum; omega
  have hget : ∀ i, ((s.putAccount owner z).putExchange (movePool ex tok d e)).getExchange i =
      if i = id then some (movePool ex tok d e) else s.getExchange i := fun i => by
    rw [← hok.key]; exact get_put ..
  refine ⟨fun a => ?_, h.bound, h.burned, fun o y hy => ?_, h.limitIs, fun i ex' hex' => ?_, fun j h0 hj => ?_⟩
  · rw [hsum]; exact h.sums a
  · change (s.account.put owner z).get o = some y at hy; rw [get_put] at hy
    split at hy
    · cases hy; exact hz0
    · exact h.held o y hy
  · rw [hget] at hex'
    split at hex'
    · rename_i hi; cases hex'; exact hi ▸ hok
    · exact h.pools i ex' hex'
  · rw [hsum] at hj; have hnone := h.fresh j h0 hj
    rw [hget, if_neg]
    · exact hnone
    · intro heq; change exchangeNum s + Int64.ofInt j = id at heq; rw [heq, hex] at hnone
      cases hnone

omit h in
/-- The numbers after the next one are other numbers. -/
lemma number_after (n : Int64) {j : Int} (h0 : 0 < j) (hj : j < 2 ^ 63) :
    n + 1 + Int64.ofInt j ≠ n + 1 ∧ n + 1 + Int64.ofInt j = n + Int64.ofInt (j + 1) := by
  refine ⟨Int64.add_ne_self _ fun heq => ?_, ?_⟩
  · have hfit := toInt_ofInt_of_fits (x := j) ⟨by omega, hj⟩
    rw [heq, toInt_zero] at hfit; omega
  · rw [Int64.add_assoc, Int.add_comm j, Int64.ofInt_add]; rfl

/-- The owner pays for a new pool and for the fee, which is burned. -/
lemma opening (hx : s.getAccount owner = some x) {fee : Int64} (hfee : 0 < fee.toInt)
    (hok : PoolOk limit (exchangeNum s + 1) ex)
    (hz : ∀ a, holding z a = holding x a - (if a = .trx then fee.toInt else 0) - pooled ex a)
    (hz0 : ∀ a, 0 ≤ holding z a) :
    PoolsInv total limit (((burnFee (s.putAccount owner z) fee).putExchange ex).putProp .latestExchangeNum
      (exchangeNum s + 1)) := by
  obtain ⟨u, hu⟩ : ∃ u, u = ((burnFee (s.putAccount owner z) fee).putExchange ex).putProp .latestExchangeNum
    (exchangeNum s + 1) := ⟨_, rfl⟩
  have hacc : u.account = s.account.put owner z := by rw [hu]; exact account_burnFee ..
  have hpools : u.exchange = s.exchange.put (exchangeNum s + 1) ex := by
    rw [hu, ← hok.key]; unfold burnFee; split <;> rfl
  -- the owner can pay, so there is TRX left, and with it a free number
  have hown := h.holding_le hx .trx
  have hpay := hz .trx
  have hpay0 := hz0 .trx
  have hpool0 := hok.pooled_nonneg .trx; rw [if_pos rfl] at hpay
  have hnone : s.exchange.get (exchangeNum s + 1) = none := h.fresh 1 (by omega) (by omega)
  have htrx := h.sums .trx; rw [if_pos rfl] at htrx; have hbound := h.bound .trx
  have hburned0 := h.burned
  have hburned : u.burned = s.burned + fee.toInt := by
    rw [hu, burned_putProp _ _ (by decide)]
    exact burned_burnFee_of rfl hfee.le (by omega)
  have hsum : ∀ a, assetSum u a = assetSum s a - if a = .trx then fee.toInt else 0 := fun a => by
    unfold assetSum
    rw [hacc, hpools, total_put, total_put, Column.share_of_some hx, Column.share_of_none hnone, hz]
    omega
  have hget : ∀ i, u.getExchange i = if i = exchangeNum s + 1 then some ex else s.getExchange i := fun i => by
    rw [WorldState.getExchange, hpools]; exact get_put ..
  have hnum : exchangeNum u = exchangeNum s + 1 := by rw [hu]; exact getProp_putProp_self ..
  rw [← hu]
  refine ⟨fun a => ?_, h.bound, ?_, fun o y hy => ?_, ?_, fun i ex' hex' => ?_, fun j h0 hj => ?_⟩
  · rw [hsum, ← h.sums a, hburned]; split <;> omega
  · omega
  · rw [WorldState.getAccount, hacc, get_put] at hy
    split at hy
    · cases hy; exact hz0
    · exact h.held o y hy
  · rw [← h.limitIs, hu]; unfold exchangeBalanceLimit; rw [getProp_putProp_of_ne _ _ (by decide)]
    exact congrArg (fun p => (positiveOr p _).toInt) (getProp_burnFee_of_ne _ _ (by decide))
  · rw [hget] at hex'
    split at hex'
    · rename_i hi; cases hex'; exact hi ▸ hok
    · exact h.pools i ex' hex'
  · rw [hsum, if_pos rfl] at hj
    obtain ⟨hne, hshift⟩ := number_after (exchangeNum s) h0 (by omega)
    rw [hget, hnum, if_neg hne, hshift]; exact h.fresh (j + 1) (by omega) (by omega)

end PoolsInv

/-! ## The four contracts -/

section
variable {total : Asset → Int} {limit : Int} {s t : WorldState} {v : Int64} {res : ExecutionResult}
variable {x y : Account} {tok : Bytes} {amount : Int64} {c : ExchangeQuantContract} {fl : Floats}

lemma debitToken_nonneg (h : debitToken x tok amount = .ok y) (hx : ∀ a, 0 ≤ holding x a) : ∀ a, 0 ≤ holding y a := by
  obtain ⟨hy, hnn⟩ := debitToken_eq_ok h; intro a
  by_cases ha : a = .ofId tok
  · exact ha ▸ hnn
  · rw [hy, if_neg ha, Int.sub_zero]; exact hx a

lemma creditToken_nonneg (h : creditToken x tok amount = .ok y)
    (h0 : 0 ≤ amount.toInt) (hx : ∀ a, 0 ≤ holding x a) : ∀ a, 0 ≤ holding y a := by
  intro a; have ha := hx a; rw [creditToken_eq_ok h]
  split <;> omega

lemma ExchangeInjectActuator.poolsInv (h : PoolsInv total limit s)
    (hv : validate c s = .ok v) (hrun : execute c s = .ok res t) : PoolsInv total limit t := by
  obtain ⟨-, -, ex, q, -, -, -, hex, htok, hpos, hp, hq, hfirst, hsecond, -⟩ := validate_ok hv
  obtain ⟨owner, ex', q', x, y, z, ho, hex', hq', hx, hy, hz, rfl⟩ := execute_ok hrun
  cases hex.symm.trans hex'; cases (paired_eq_ok hp).2.symm.trans hq'; rw [Int64.pos_iff] at hpos hq
  have hpool := h.pools _ _ hex
  have hheld := h.held owner x hx
  obtain ⟨hy', hy0⟩ := debitToken_eq_ok hy
  obtain ⟨hz', hz0⟩ := debitToken_eq_ok hz
  have hne := hpool.otherToken_ne htok
  obtain ⟨hside, hother⟩ := hpool.sides_le htok
  have htot := h.owner_add_pool_le hx hex (.ofId c.tokenId)
  have htot' := h.owner_add_pool_le hx hex (.ofId (ex.otherToken c.tokenId))
  have hbound := h.bound (.ofId c.tokenId)
  have hbound' := h.bound (.ofId (ex.otherToken c.tokenId))
  -- the debits show that the owner has what the limits are checked with
  rw [hy', if_pos rfl] at hy0; rw [hz', if_pos rfl, hy', if_neg hne, Int.sub_zero] at hz0
  have hsides := hpool.sides c.tokenId
  have hsum := toInt_add_of_fits (a := ex.side c.tokenId) (b := c.quant) ⟨by omega, by omega⟩
  have hsum' := toInt_add_of_fits (a := ex.otherSide c.tokenId) (b := q) ⟨by omega, by omega⟩
  have hlim := movePool_le hfirst hsecond; rw [hsum, hsum', h.limitIs] at hlim
  refine h.trade hx hex htok ?_ hlim.1 hlim.2 (fun a => ?_) (debitToken_nonneg hz (debitToken_nonneg hy hheld))
  · omega
  · rw [hz', hy']

/-- A proportional withdrawal empties both sides of a pool or neither. -/
lemma proportional_drains {other quant this q : Int64} (hthis : 0 < this.toInt) (hother : 0 < other.toInt)
    (hquant : quant.toInt ≤ this.toInt) (hpos : 0 < quant.toInt) (hq : proportional other quant this = .ok q) :
    this.toInt + -quant.toInt = 0 ∧ other.toInt + -q.toInt = 0 ∨
      0 < this.toInt + -quant.toInt ∧ 0 < other.toInt + -q.toInt := by
  have hdiv := (proportional_eq_ok hq).2
  rw [Int.tdiv_eq_ediv_of_nonneg (Int.mul_nonneg hother.le hpos.le)] at hdiv
  rcases hquant.eq_or_lt with heq | hlt
  · rw [heq, Int.mul_ediv_cancel _ hthis.ne'] at hdiv; omega
  · have : q.toInt < other.toInt := hdiv ▸ Int.ediv_lt_of_lt_mul hthis (Int.mul_lt_mul_of_pos_left hlt hother)
    omega

lemma ExchangeWithdrawActuator.poolsInv (h : PoolsInv total limit s)
    (hv : validate fl c s = .ok v) (hrun : execute c s = .ok res t) : PoolsInv total limit t := by
  obtain ⟨-, -, ex, q, -, -, -, hex, htok, hpos, hq, hside, hother, hq0⟩ := validate_ok hv
  obtain ⟨owner, ex', q', x, y, z, ho, hex', hq', hx, hy, hz, rfl⟩ := execute_ok hrun
  cases hex.symm.trans hex'; cases hq.symm.trans hq'; have hpool := h.pools _ _ hex
  rw [Int64.pos_iff] at hpos hq0; rw [le_iff_toInt_le] at hside hother
  have hneg := Int64.toInt_neg_of_nonneg hpos.le
  have hneg' := Int64.toInt_neg_of_nonneg hq0.le
  have hle := hpool.sides_limit c.tokenId
  refine h.trade hx hex htok ?_ (by omega) (by omega) (fun a => ?_)
    (creditToken_nonneg hz hq0.le (creditToken_nonneg hy hpos.le (h.held owner x hx)))
  · rw [hneg, hneg']; exact proportional_drains (by omega) (by omega) hside hpos hq
  · rw [creditToken_eq_ok hz, creditToken_eq_ok hy, hneg, hneg']; split <;> split <;> omega

lemma ExchangeTransactionActuator.poolsInv {c : ExchangeTransactionContract}
    (hfl : ∀ sell buy quant, 0 < buy → fl.bancorExchange sell buy quant < buy) (h : PoolsInv total limit s)
    (hv : validate fl c s = .ok v) (hrun : execute fl c s = .ok res t) : PoolsInv total limit t := by
  obtain ⟨-, -, ex, -, -, -, hex, htok, hpos, hexp, hne, hlim, -, hbuy⟩ := validate_ok hv
  obtain ⟨owner, ex', x, y, z, ho, hex', hx, hy, hz, rfl⟩ := execute_ok hrun
  cases hex.symm.trans hex'; have hpool := h.pools _ _ hex; rw [Int64.pos_iff] at hpos hexp
  rw [le_iff_toInt_le] at hlim hbuy
  have hsides : 0 < (ex.side c.tokenId).toInt ∧ 0 < (ex.otherSide c.tokenId).toInt := by
    have hbal := hpool.balances.resolve_left fun h0 => hne.1 (toInt_inj.mp h0.1)
    unfold side otherSide
    split
    · exact hbal
    · exact hbal.symm
  have hlt := lt_iff_toInt_lt.mp (hfl (ex.side c.tokenId) (ex.otherSide c.tokenId) c.quant
    (lt_iff_toInt_lt.mpr hsides.2))
  change (bought fl ex c.tokenId c.quant).toInt < _ at hlt
  have hneg := Int64.toInt_neg_of_nonneg (a := bought fl ex c.tokenId c.quant) (by omega)
  obtain ⟨hy', hy0⟩ := debitToken_eq_ok hy; rw [hy', if_pos rfl] at hy0
  have htot := h.owner_add_pool_le hx hex (.ofId c.tokenId)
  have hbound := h.bound (.ofId c.tokenId)
  obtain ⟨hside, -⟩ := hpool.sides_le htok
  have hsum := toInt_add_of_fits (a := ex.side c.tokenId) (b := c.quant) ⟨by omega, by omega⟩
  rw [hsum, h.limitIs] at hlim; have hle := hpool.sides_limit c.tokenId
  refine h.trade hx hex htok (Or.inr ⟨by omega, by omega⟩) hlim (by omega) (fun a => ?_)
    (creditToken_nonneg hz (by omega) (debitToken_nonneg hy (h.held owner x hx)))
  rw [creditToken_eq_ok hz, hy', hneg]; split <;> split <;> omega

lemma exchangeCreateFee_pos (s : WorldState) : 0 < (exchangeCreateFee s).toInt := positiveOr_pos (by decide)

lemma ExchangeCreateActuator.poolOk {c : ExchangeCreateContract} (hv : validate c s = .ok v) (owner : Address) :
    PoolOk (exchangeBalanceLimit s).toInt (exchangeNum s + 1) (pool c s owner) := by
  obtain ⟨hfirst, hsecond, hne, hpos, hle⟩ := validate_ok hv
  rw [lt_iff_toInt_lt, lt_iff_toInt_lt] at hpos; rw [le_iff_toInt_le, le_iff_toInt_le] at hle
  exact ⟨rfl, hfirst, hsecond, hne, Or.inr hpos, hle.1, hle.2⟩

lemma ExchangeCreateActuator.poolsInv {c : ExchangeCreateContract} (h : PoolsInv total limit s)
    (hv : validate c s = .ok v) (hrun : execute c s = .ok res t) : PoolsInv total limit t := by
  obtain ⟨owner, x, balance, y, z, ho, hx, hb, hy, hz, rfl⟩ := execute_ok hrun
  have hok := poolOk hv owner; rw [h.limitIs] at hok; obtain ⟨hbal, hb0⟩ := debit_eq_some.mp hb
  have hpaid : ∀ a, holding { x with balance } a =
      holding x a - if a = .trx then (exchangeCreateFee s).toInt else 0 := fun a => by
    cases a with
    | trx => exact hbal
    | trc10 => exact (Int.sub_zero _).symm
  have hnn : ∀ a, 0 ≤ holding { x with balance } a := fun a => by
    cases a with
    | trx => exact hb0
    | trc10 key => exact h.held owner x hx (.trc10 key)
  refine h.opening hx (exchangeCreateFee_pos s) hok (fun a => ?_) (debitToken_nonneg hz (debitToken_nonneg hy hnn))
  rw [(debitToken_eq_ok hz).1, (debitToken_eq_ok hy).1, hpaid]; exact Int.sub_sub ..

end

/-! ## Runs -/

def exchangeTypes : List ContractType := [.exchangeCreate, .exchangeInject, .exchangeWithdraw, .exchangeTransaction]

/-- Nothing but the exchange contracts burns TRX or numbers pools, and the limit stays. -/
def ExchangeSettable (k : Property) (_ : Int64) : Prop :=
  k ≠ .burnTrxAmount ∧ k ≠ .latestExchangeNum ∧ k ≠ .exchangeBalanceLimit

instance (k : Property) (v : Int64) : Decidable (ExchangeSettable k v) := inferInstanceAs (Decidable (_ ∧ _))

/-- No holding is negative, no total reaches 2^63, and the pools are numbered up to the last one. -/
structure PoolsStart (s : WorldState) : Prop where
  held : ∀ o x, s.getAccount o = some x → ∀ a, 0 ≤ holding x a
  burned : 0 ≤ s.burned
  bound : ∀ a, assetSum s a + (if a = .trx then s.burned else 0) < 2 ^ 63
  pools : ∀ id ex, s.getExchange id = some ex → PoolOk (exchangeBalanceLimit s).toInt id ex
  numbered : ∀ id ex, s.getExchange id = some ex → 0 < id.toInt ∧ id.toInt ≤ (exchangeNum s).toInt

section
variable {total : Asset → Int} {limit : Int} {s t : WorldState} {pf : Platform} {ty : ContractType}
  {a : Actuator (Message ty)} {c : Message ty} {res : ExecutionResult}

lemma PoolsStart.inv (h : PoolsStart s) :
    PoolsInv (fun a => assetSum s a + if a = .trx then s.burned else 0) (exchangeBalanceLimit s).toInt s where
  sums _ := rfl
  bound := h.bound
  burned := h.burned
  held := h.held
  limitIs := rfl
  pools := h.pools
  fresh j h0 hj := by
    refine Option.eq_none_iff_forall_ne_some.mpr fun ex hex => ?_
    obtain ⟨hpos, hle⟩ := h.numbered _ ex hex
    have hbound := h.bound .trx
    have hburned := h.burned; rw [if_pos rfl] at hbound
    have hfit := toInt_ofInt_of_fits (x := j) ⟨by omega, by omega⟩
    by_cases hsum : Int64.Fits ((exchangeNum s).toInt + (Int64.ofInt j).toInt)
    · rw [toInt_add_of_fits hsum] at hle; omega
    have hneg := Int64.toInt_add_neg (a := exchangeNum s) (b := Int64.ofInt j) (by
      unfold Int64.Fits at hsum
      omega)
    omega

lemma PoolsInv.putProp (h : PoolsInv total limit s) {k : Property} {v : Int64} (hk : ExchangeSettable k v) :
    PoolsInv total limit (s.putProp k v) := by
  obtain ⟨hburn, hnum, hlim⟩ := hk
  have hburned := burned_putProp s v hburn
  refine ⟨fun a => ?_, h.bound, hburned ▸ h.burned, h.held, ?_, h.pools, fun j h0 hj => ?_⟩
  · rw [hburned]; exact h.sums a
  · rw [← h.limitIs]; unfold exchangeBalanceLimit; rw [getProp_putProp_of_ne _ _ hlim.symm]
  · have hkeep : exchangeNum (s.putProp k v) = exchangeNum s := getProp_putProp_of_ne _ _ hnum.symm
    rw [hkeep]; exact h.fresh j h0 hj

lemma PoolsInv.run (hfl : ∀ sell buy quant, 0 < buy → pf.floats.bancorExchange sell buy quant < buy)
    (h : PoolsInv total limit s) (hr : route pf ty = some a) (hty : ty ∈ exchangeTypes)
    (hx : a.run c s = .ok res t) : PoolsInv total limit t := by
  obtain ⟨⟨v, hv⟩, hx⟩ := Actuator.run_ok hx; cases ty <;> cases hr
  case exchangeCreate => exact ExchangeCreateActuator.poolsInv h hv hx
  case exchangeInject => exact ExchangeInjectActuator.poolsInv h hv hx
  case exchangeWithdraw => exact ExchangeWithdrawActuator.poolsInv h hv hx
  case exchangeTransaction => exact ExchangeTransactionActuator.poolsInv hfl h hv hx
  all_goals exact absurd hty (by decide)

/-- **The exchange pools.** Along every run of the exchange contracts, accounts and pools keep every TRC10 token,
and TRX together with what is burned; every pool has both balances zero or both positive, and none exceeds the limit. -/
theorem pools_conserved {ls : List ContractStep}
    (hfl : ∀ sell buy quant, 0 < buy → pf.floats.bancorExchange sell buy quant < buy) (hs : PoolsStart s)
    (hrun : (contractRuns pf exchangeTypes ExchangeSettable PoolsStart).Run s ls t) :
    (∀ key, assetSum t (.trc10 key) = assetSum s (.trc10 key)) ∧
      assetSum t .trx + t.burned = assetSum s .trx + s.burned ∧ ∀ id ex, t.getExchange id = some ex →
        (ex.firstTokenBalance = 0 ∧ ex.secondTokenBalance = 0 ∨ 0 < ex.firstTokenBalance ∧ 0 < ex.secondTokenBalance) ∧
          ex.firstTokenBalance ≤ exchangeBalanceLimit t ∧ ex.secondTokenBalance ≤ exchangeBalanceLimit t := by
  have hinv : PoolsInv (fun a => assetSum s a + if a = .trx then s.burned else 0) (exchangeBalanceLimit s).toInt t := by
    refine hrun.preserves (fun s l t h hstep => ?_) hs.inv
    cases l with
    | setProperty =>
      obtain ⟨hk, rfl⟩ := hstep; exact h.putProp hk
    | apply =>
      obtain ⟨hty, a, res, hr, hx⟩ := hstep; exact h.run hfl hr hty hx
  refine ⟨fun key => ?_, hinv.sums .trx, fun id ex hex => ?_⟩
  · have hsum := hinv.sums (.trc10 key); simp only [reduceCtorEq, ↓reduceIte, Int.add_zero] at hsum
    exact hsum
  · obtain ⟨-, -, -, -, hbal, hfirst, hsecond⟩ := hinv.pools id ex hex
    simp only [le_iff_toInt_le, lt_iff_toInt_lt, toInt_zero, hinv.limitIs]
    exact ⟨hbal.imp_left fun h0 => ⟨toInt_inj.mp h0.1, toInt_inj.mp h0.2⟩, hfirst, hsecond⟩

end

/-! ## A pool from its creation to its end -/

/-- A formula that leaves one unit of every pool. -/
def greedy : Platform := { Platform.blank with floats := ⟨fun _ buy _ => buy - 1, fun _ _ _ _ => false⟩ }

lemma greedy_lt (sell buy quant : Int64) (h : 0 < buy) : greedy.floats.bancorExchange sell buy quant < buy := by
  rw [Int64.pos_iff] at h; have hlt := buy.toInt_lt
  have hone := Int64.toInt_one
  have hsub := toInt_sub_of_fits (a := buy) (b := 1) ⟨by omega, by omega⟩
  rw [lt_iff_toInt_lt]; show (buy - 1).toInt < buy.toInt; omega

/-- TRX for the fee and one hundred units each of TRX and of token `5`. -/
def trader : Account := { balance := 1024000210, assetV2 := (∅ : Column Bytes Int64).put [0x35] 100 }

def tradingFloor : WorldState := { account := (∅ : Column Address Account).put (Address.ofNat 0xaa) trader }

lemma holding_trader (a : Asset) : 0 ≤ holding trader a ∧ holding trader a < 2 ^ 63 := by
  cases a with
  | trx => decide
  | trc10 key =>
    show 0 ≤ (((∅ : Column Bytes Int64).put [0x35] 100).get key |>.getD 0).toInt ∧ _ < _
    refine ⟨?_, Int64.toInt_lt _⟩; rw [get_put, get_empty]; split <;> decide

lemma poolsStart_tradingFloor : PoolsStart tradingFloor where
  held o x hx a := by
    change ((∅ : Column Address Account).put (Address.ofNat 0xaa) trader).get o = some x at hx
    rw [get_put, get_empty] at hx
    split at hx
    · cases hx; exact (holding_trader a).1
    · cases hx
  burned := by decide
  bound a := by
    have hsum : assetSum tradingFloor a = holding trader a := by
      show Column.total _ ((∅ : Column Address Account).put _ trader) + 0 = _; rw [total_put]
      exact (Int.add_zero _).trans (Int.zero_add _)
    rw [hsum]
    cases a with
    | trx => decide
    | trc10 key =>
      rw [if_neg nofun, Int.add_zero]; exact (holding_trader (.trc10 key)).2
  pools id ex hex := by cases (get_empty id).symm.trans hex
  numbered id ex hex := by cases (get_empty id).symm.trans hex

/-- Create, inject, sell, and withdraw everything. -/
def poolLife : List ContractStep :=
  [.apply .exchangeCreate { ownerAddress := (Address.ofNat 0xaa).asBytes, firstTokenId := trxSymbol
                            firstTokenBalance := 100, secondTokenId := [0x35], secondTokenBalance := 50 },
    .apply .exchangeInject { ownerAddress := (Address.ofNat 0xaa).asBytes, exchangeId := 1, tokenId := trxSymbol
                             quant := 100 },
    .apply .exchangeTransaction { ownerAddress := (Address.ofNat 0xaa).asBytes, exchangeId := 1, tokenId := trxSymbol
                                  quant := 10, expected := 1 },
    .apply .exchangeWithdraw { ownerAddress := (Address.ofNat 0xaa).asBytes, exchangeId := 1, tokenId := [0x35]
                               quant := 1 }]

theorem pools_conserved_life :
    ∃ t, (contractRuns greedy exchangeTypes ExchangeSettable PoolsStart).Run tradingFloor poolLife t ∧
      (t.getExchange 1).map (fun ex => (ex.firstTokenBalance, ex.secondTokenBalance)) = some (0, 0) ∧
      assetSum t (.trc10 [0x35]) = assetSum tradingFloor (.trc10 [0x35]) ∧
      assetSum t .trx + t.burned = assetSum tradingFloor .trx + tradingFloor.burned := by
  have h : (Lts.exec (ContractStep.next greedy exchangeTypes ExchangeSettable) tradingFloor poolLife).map
      (fun t => (t.getExchange 1).map fun ex => (ex.firstTokenBalance, ex.secondTokenBalance)) =
        some (some (0, 0)) := by decide +kernel
  obtain ⟨t, hrun, hpool⟩ := Lts.Run.exists_of_exec (fun _ _ _ => ContractStep.step_of_next) h
  obtain ⟨htoken, htrx, -⟩ := pools_conserved greedy_lt poolsStart_tradingFloor hrun
  exact ⟨t, hrun, hpool, htoken _, htrx⟩

/-! ## Injecting and withdrawing -/

/-- Both divisions leave the same remainder, so that a share is worth after it was added what
it was worth before. -/
lemma ediv_share_added {other quant this : Int} (hthis : 0 < this) (hquant : 0 < quant) :
    (other + other * quant / this) * quant / (this + quant) = other * quant / this := by
  have hdiv := Int.emod_add_mul_ediv (other * quant) this
  have hrem := Int.emod_nonneg (other * quant) hthis.ne'
  have hlt := Int.emod_lt_of_pos (other * quant) hthis
  refine (Int.ediv_emod_unique (by omega)).mpr ⟨?_, hrem, by omega⟩ |>.1
  generalize other * quant / this = q at hdiv ⊢
  generalize other * quant % this = r at hdiv ⊢
  linear_combination hdiv

/-- The second amount is positive only when no sum has wrapped. -/
lemma proportional_again {other quant this taken returned : Int64} (hthis : 0 < this) (hother : 0 < other)
    (hquant : 0 < quant) (htaken : proportional other quant this = .ok taken) (hpos : 0 < taken)
    (hreturned : proportional (other + taken) quant (this + quant) = .ok returned) (hcovered : quant ≤ this + quant)
    (hpaid : 0 < returned) : returned = taken := by
  have hdiv := (proportional_eq_ok htaken).2
  have hdiv' := (proportional_eq_ok hreturned).2
  simp only [lt_iff_toInt_lt, le_iff_toInt_le, toInt_zero] at *
  have hsum : (this + quant).toInt = this.toInt + quant.toInt := Int64.toInt_add_of_nonneg (by omega) (by omega)
  -- a wrapped second balance is negative, and so would be the amount returned
  have hsum' : (other + taken).toInt = other.toInt + taken.toInt := by
    refine Int64.toInt_add_of_nonneg (by omega) ?_; by_contra hneg
    have hnonneg := Int.tdiv_nonneg (a := -((other + taken).toInt * quant.toInt)) (b := (this + quant).toInt)
      (by nlinarith) (by omega)
    rw [Int.neg_tdiv] at hnonneg; omega
  rw [hsum, hsum'] at hdiv'; rw [Int.tdiv_eq_ediv_of_nonneg (by positivity)] at hdiv hdiv'
  rw [hdiv, ediv_share_added hthis hquant, ← hdiv] at hdiv'; exact toInt_inj.mp hdiv'

lemma ExchangeWithdrawActuator.undoes_inject {fl : Floats} {c c' : ExchangeQuantContract} {s t u : WorldState}
    {res res' : ExecutionResult} {ex : Exchange} (hex : s.getExchange ex.exchangeId = some ex)
    (hfirst : 0 < ex.firstTokenBalance) (hsecond : 0 < ex.secondTokenBalance)
    (hid : c.exchangeId = ex.exchangeId) (hid' : c'.exchangeId = ex.exchangeId) (htok : c'.tokenId = c.tokenId)
    (hquant : c'.quant = c.quant) (hinject : exchangeInjectActuator.run c s = .ok res t)
    (hwithdraw : (exchangeWithdrawActuator fl).run c' t = .ok res' u) :
    ∃ amount, paired ex c.tokenId c.quant = .ok (ex.otherToken c.tokenId, amount) ∧
      t.getExchange ex.exchangeId = some (movePool ex c.tokenId c.quant amount) ∧
      paired (movePool ex c.tokenId c.quant amount) c.tokenId c.quant = .ok (ex.otherToken c.tokenId, amount) ∧
      u.getExchange ex.exchangeId = some ex := by
  obtain ⟨⟨v, hv⟩, hexec⟩ := Actuator.run_ok hinject
  obtain ⟨-, -, ex1, taken, -, -, -, hex1, -, hpos, hpaired, htaken, -⟩ := ExchangeInjectActuator.validate_ok hv
  obtain ⟨owner, ex2, q, x, y, z, -, hex2, hq, -, -, -, rfl⟩ := ExchangeInjectActuator.execute_ok hexec
  rw [hid] at hex1 hex2; cases hex.symm.trans hex1; cases hex.symm.trans hex2
  cases (paired_eq_ok hpaired).2.symm.trans hq; obtain ⟨⟨v', hv'⟩, hexec'⟩ := Actuator.run_ok hwithdraw
  obtain ⟨-, -, moved, returned, -, -, -, hmoved, -, -, hreturned, hcovered, -, hpaid⟩ :=
    ExchangeWithdrawActuator.validate_ok hv'
  obtain ⟨owner', moved2, q', x', y', z', -, hmoved2, hq', -, -, -, rfl⟩ := ExchangeWithdrawActuator.execute_ok hexec'
  have hget : ((s.putAccount owner z).putExchange (movePool ex c.tokenId c.quant taken)).getExchange ex.exchangeId =
      some (movePool ex c.tokenId c.quant taken) := by
    rw [← exchangeId_movePool ex c.tokenId c.quant taken]; exact get_put_self ..
  rw [hid'] at hmoved hmoved2; cases hget.symm.trans hmoved; cases hget.symm.trans hmoved2
  cases hreturned.symm.trans hq'
  obtain ⟨hside, hother, htoken⟩ := side_movePool ex c.tokenId c.quant taken
  rw [htok, hquant, hside, hother] at hreturned; rw [htok, hquant, hside] at hcovered
  have hsides : 0 < ex.side c.tokenId ∧ 0 < ex.otherSide c.tokenId := by
    unfold side otherSide
    split
    · exact ⟨hfirst, hsecond⟩
    · exact ⟨hsecond, hfirst⟩
  cases proportional_again hsides.1 hsides.2 hpos hq htaken hreturned hcovered hpaid
  refine ⟨taken, hpaired, hget, ?_, ?_⟩
  · rw [paired_eq, hside, hother, hreturned, htoken]; rfl
  · rw [htok, hquant, movePool_back]; exact get_put_self ..

/-- **A round trip never profits.** What withdrawing `quant` of a token returns of the other one is at
most what injecting it took. -/
theorem inject_withdraw_never_profits {fl : Floats} {c c' : ExchangeQuantContract} {s t u : WorldState}
    {res res' : ExecutionResult} {ex : Exchange} (hex : s.getExchange ex.exchangeId = some ex)
    (hfirst : 0 < ex.firstTokenBalance) (hsecond : 0 < ex.secondTokenBalance)
    (hid : c.exchangeId = ex.exchangeId) (hid' : c'.exchangeId = ex.exchangeId) (htok : c'.tokenId = c.tokenId)
    (hquant : c'.quant = c.quant) (hinject : exchangeInjectActuator.run c s = .ok res t)
    (hwithdraw : (exchangeWithdrawActuator fl).run c' t = .ok res' u) :
    ∃ taken returned moved pool, paired ex c.tokenId c.quant = .ok (ex.otherToken c.tokenId, taken) ∧
      t.getExchange ex.exchangeId = some moved ∧ moved = movePool ex c.tokenId c.quant taken ∧
      paired moved c.tokenId c.quant = .ok (ex.otherToken c.tokenId, returned) ∧
      u.getExchange ex.exchangeId = some pool ∧ pool = movePool moved c.tokenId (-c.quant) (-returned) ∧
      returned ≤ taken ∧ ex.firstTokenBalance ≤ pool.firstTokenBalance ∧
      ex.secondTokenBalance ≤ pool.secondTokenBalance ∧ pool.side c.tokenId = ex.side c.tokenId := by
  obtain ⟨amount, htaken, hmoved, hreturned, hpool⟩ :=
    ExchangeWithdrawActuator.undoes_inject hex hfirst hsecond hid hid' htok hquant hinject hwithdraw
  exact ⟨amount, amount, _, ex, htaken, hmoved, rfl, hreturned, hpool, (movePool_back ..).symm, Int64.le_refl _,
    Int64.le_refl _, Int64.le_refl _, rfl⟩

def tenFivePool : Exchange where
  exchangeId := 1
  creatorAddress := (Address.ofNat 0xaa).asBytes
  firstTokenId := trxSymbol
  firstTokenBalance := 10
  secondTokenId := [0x35]
  secondTokenBalance := 5

def tenFive : WorldState where
  account := (∅ : Column Address Account).put (Address.ofNat 0xaa) trader
  exchange := (∅ : Column Int64 Exchange).put 1 tenFivePool

def twoTrx : ExchangeQuantContract where
  ownerAddress := (Address.ofNat 0xaa).asBytes
  exchangeId := 1
  tokenId := trxSymbol
  quant := 2

/-- Two TRX take one token and leave the pool (12, 6), where 6 * 2 / 12 is one token exactly: the source's precision
check passes there, as it does with the floats of `blank`. -/
theorem tenFive_round_trip : ∃ res t res' u pool, exchangeInjectActuator.run twoTrx tenFive = .ok res t ∧
    (exchangeWithdrawActuator Platform.blank.floats).run twoTrx t = .ok res' u ∧
    u.getExchange 1 = some pool ∧ 10 ≤ pool.firstTokenBalance ∧ 5 ≤ pool.secondTokenBalance := by
  have hinject : returns (exchangeInjectActuator.run twoTrx) tenFive = true := by decide +kernel
  have hwithdraw : returns ((exchangeWithdrawActuator Platform.blank.floats).run twoTrx)
      (stateAfter (exchangeInjectActuator.run twoTrx) tenFive) = true := by decide +kernel
  obtain ⟨res, hinject⟩ := ok_of_returns hinject
  obtain ⟨res', hwithdraw⟩ := ok_of_returns hwithdraw
  have hex : tenFive.getExchange tenFivePool.exchangeId = some tenFivePool := get_put_self ..
  obtain ⟨-, -, -, pool, -, -, -, -, hpool, -, -, hfirst, hsecond, -⟩ :=
    inject_withdraw_never_profits hex (by decide) (by decide) rfl rfl rfl rfl hinject hwithdraw
  exact ⟨res, _, res', _, pool, hinject, hwithdraw, hpool, hfirst, hsecond⟩

end TronRs

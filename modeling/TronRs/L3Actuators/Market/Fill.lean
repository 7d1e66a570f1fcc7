import TronRs.L3Actuators.Market.Sell

/-!
# Matching without accounts

How a new order is filled depends on the order book alone; the accounts only decide whether
the credits fit. `walk` is the matching loop on the book, which lists the fills it makes;
`settle` pays a list of fills.

* `outcome_matchOrder`: matching an order is walking the book and settling the fills.
* `matchOrder_error_iff`: so it fails exactly when the walk does or a credit does not fit.
-/
namespace TronRs

open TronRs.Core

variable {s : WorldState} {taker maker : MarketOrder} (a : Account) (accounts : Column Address Account) (t : Taking)

/-- A token and an amount of it. -/
abbrev Credit := Bytes × Int64

/-- One fill, decided by the two orders: both of them afterwards, and what each owner gets. -/
structure Fill where
  stop : Bool
  taker : MarketOrder
  maker : MarketOrder
  takerCredit : Option Credit
  makerCredit : Option Credit

/-- The fill of a taker against a maker. -/
def fill (taker maker : MarketOrder) : Check Fill := do
  let sell := taker.sellTokenQuantityRemain
  let offer := maker.sellTokenQuantityRemain
  let buy ← multiplyAndDivide sell maker.sellTokenQuantity maker.buyTokenQuantity
  if buy = 0 then
    pure ⟨true, { taker with
      sellTokenQuantityReturn := sell
      sellTokenQuantityRemain := 0
      state := orderInactive }, maker, some (taker.sellTokenId, sell), none⟩
  else if buy < offer then
    pure ⟨false, { taker with sellTokenQuantityRemain := 0 },
      { maker with sellTokenQuantityRemain := offer - buy }, some (taker.buyTokenId, buy),
      some (maker.buyTokenId, sell)⟩
  else
    let price ← multiplyAndDivide offer maker.buyTokenQuantity maker.sellTokenQuantity
    if buy ≠ offer ∧ price = 0 then
      pure ⟨false, taker, { maker with
        sellTokenQuantityReturn := offer
        sellTokenQuantityRemain := 0
        state := orderInactive }, none, some (maker.sellTokenId, offer)⟩
    else
      pure ⟨false, { taker with sellTokenQuantityRemain := sell - price },
        { maker with sellTokenQuantityRemain := 0 }, some (taker.buyTokenId, offer),
        some (maker.buyTokenId, price)⟩

/-! ## Paying for fills -/

def creditTo (a : Account) : Option Credit → Check Account
  | none => .ok a
  | some (token, amount) => creditToken a token amount

/-- Credits the owner of an order in the account column. -/
def payMaker (accounts : Column Address Account) (maker : MarketOrder) : Option Credit → Check (Column Address Account)
  | none => .ok accounts
  | some (token, amount) => do
    let owner ← parseAddress maker.ownerAddress "Invalid address"
    let ma ← orThrow (accounts.get owner) (failed "maker account missing")
    let ma ← creditToken ma token amount
    pure (accounts.put owner ma)

/-- Pays the fills one after the other: the taker's account is kept apart. -/
def settle (a : Account) (accounts : Column Address Account) :
    List (MarketOrder × Fill) → Check (Account × Column Address Account)
  | [] => .ok (a, accounts)
  | (maker, f) :: fills => do
    let a ← creditTo a f.takerCredit
    let accounts ← payMaker accounts maker f.makerCredit
    settle a accounts fills

lemma settle_append (xs ys : List (MarketOrder × Fill)) :
    settle a accounts (xs ++ ys) = settle a accounts xs >>= fun p => settle p.1 p.2 ys := by
  induction xs generalizing a accounts with
  | nil => rfl
  | cons x xs ih =>
    simp [settle, ih, bind_assoc]

/-! ## Walking the book -/

/-- What a walk along the orders of one price ends with. -/
structure Walked where
  stop : Bool
  left : Nat
  taker : MarketOrder
  ids : List OrderId
  book : WorldState

open MarketSellAssetActuator

/-- The fills at one price and how they end: `matchIds` without accounts. -/
def walkIds : Nat → WorldState → MarketOrder → List OrderId → List (MarketOrder × Fill) × Check Walked
  | left, book, taker, [] => ([], .ok ⟨false, left, taker, [], book⟩)
  | left, book, taker, id :: rest =>
    if taker.sellTokenQuantityRemain = 0 then ([], .ok ⟨false, left, taker, id :: rest, book⟩)
    else match book.getOrder id with
      | none => ([], .error (failed "maker order missing"))
      | some maker => match fill taker maker with
        | .error e => ([], .error e)
        | .ok f => match outcome (settleMaker id rest f.maker) book with
          | .error e => ([(maker, f)], .error e)
          | .ok (ids, book) => match left with
            | 0 => ([(maker, f)],
                .error (invalid s!"Too many matches. MAX_MATCH_NUM = {maxMatchNum}"))
            | left + 1 =>
              if f.stop then ([(maker, f)], .ok ⟨true, left, f.taker, ids, book⟩)
              else
                let w := walkIds left book f.taker ids
                ((maker, f) :: w.1, w.2)

/-- The walk along the prices: `matchPrices` without accounts. -/
def walkPrices (makerPair : Bytes) : Nat → Nat → WorldState → MarketOrder →
    List (MarketOrder × Fill) × Check (MarketOrder × WorldState)
  | 0, _, book, taker => ([], .ok (taker, book))
  | fuel + 1, left, book, taker =>
    if taker.sellTokenQuantityRemain = 0 then ([], .ok (taker, book))
    else match book.bestPrice makerPair with
      | none => ([], .ok (taker, book))
      | some best =>
        if priceMatch taker.sellTokenQuantity taker.buyTokenQuantity best.1 best.2 = false then
          ([], .ok (taker, book))
        else
          let w := walkIds left book taker (book.getOrderIds makerPair best)
          match w.2 with
          | .error e => (w.1, .error e)
          | .ok r =>
            let book := r.book.putOrderIds makerPair best r.ids
            if r.stop then (w.1, .ok (r.taker, book))
            else if r.ids = [] then
              let v := walkPrices makerPair fuel r.left (book.removePrice makerPair best) r.taker
              (w.1 ++ v.1, v.2)
            else (w.1, .ok (r.taker, book))

/-- The fills of a new order, and the order and the book after them. -/
def walk (book : WorldState) (taker : MarketOrder) : List (MarketOrder × Fill) × Check (MarketOrder × WorldState) :=
  let makerPair := pairKey taker.buyTokenId taker.sellTokenId
  walkPrices makerPair (book.getPrices makerPair).length maxMatchNum book taker

/-! ## Matching is walking and settling -/

/-- Nothing about the book depends on the accounts. -/
def WorldState.withAccounts (s : WorldState) (accounts : Column Address Account) : WorldState :=
  { s with account := accounts }

lemma outcome_creditMaker_bind {α : Type} (maker : MarketOrder) (token : Bytes) (amount : Int64)
    (f : Unit → Act α) (s : WorldState) : outcome (creditMaker maker token amount >>= f) s =
      payMaker s.account maker (some (token, amount)) >>= fun accounts =>
        outcome (f ()) (s.withAccounts accounts) := by
  simp only [creditMaker, payMaker, bind_assoc, outcome_lift_bind, outcome_get_bind,
    outcome_orThrow_bind, outcome_modify_bind, pure_bind]
  rfl

lemma outcome_matchSingle (maker : MarketOrder) (s : WorldState) : outcome (matchSingle t maker) s = (do
      let f ← fill t.order maker
      let a ← creditTo t.account f.takerCredit
      let accounts ← payMaker s.account maker f.makerCredit
      pure ((f.stop, ⟨f.taker, a⟩, f.maker), s.withAccounts accounts)) := by
  unfold matchSingle fill; simp only [outcome_lift_bind, bind_assoc]
  refine bind_congr fun buy => ?_
  by_cases h0 : buy = 0
  · simp only [h0, ↓reduceIte, outcome_lift_bind, outcome_pure, pure_bind]; rfl
  by_cases hlt : buy < maker.sellTokenQuantityRemain
  · simp only [h0, hlt, ↓reduceIte, outcome_lift_bind, outcome_creditMaker_bind, outcome_pure, pure_bind]
    rfl
  simp only [h0, hlt, ↓reduceIte, outcome_lift_bind, bind_assoc]
  refine bind_congr fun price => ?_
  by_cases hd : buy ≠ maker.sellTokenQuantityRemain ∧ price = 0
  · simp only [if_pos hd, outcome_creditMaker_bind, outcome_pure, pure_bind]; rfl
  · simp only [if_neg hd, outcome_lift_bind, outcome_creditMaker_bind, outcome_pure, pure_bind]; rfl

lemma outcome_settleMaker_withAccounts (id : OrderId) (rest : List OrderId) (maker : MarketOrder)
    (s : WorldState) (accounts : Column Address Account) :
    outcome (settleMaker id rest maker) (s.withAccounts accounts) =
      outcome (settleMaker id rest maker) s >>= fun p => .ok (p.1, p.2.withAccounts accounts) := by
  unfold settleMaker putOrder
  by_cases hr : maker.sellTokenQuantityRemain = 0
  · simp only [hr, ↓reduceIte, bind_assoc, outcome_orThrow_bind, outcome_modify_bind, outcome_pure]; rfl
  · simp only [hr, ↓reduceIte, bind_assoc, outcome_orThrow_bind, outcome_modify_bind, outcome_pure]; rfl

lemma outcome_matchIds_cons {left : Nat} {id : OrderId}
    {rest : List OrderId} (h0 : taker.sellTokenQuantityRemain ≠ 0) (hm : s.getOrder id = some maker)
    (a : Account) (accounts : Column Address Account) :
    outcome (matchIds left ⟨taker, a⟩ (id :: rest)) (s.withAccounts accounts) = (do
      let f ← fill taker maker
      let a ← creditTo a f.takerCredit
      let accounts ← payMaker accounts maker f.makerCredit
      let p ← outcome (settleMaker id rest f.maker) s
      match left with
      | 0 => .error (invalid s!"Too many matches. MAX_MATCH_NUM = {maxMatchNum}")
      | left + 1 =>
        if f.stop then .ok ((true, left, ⟨f.taker, a⟩, p.1), p.2.withAccounts accounts)
        else outcome (matchIds left ⟨f.taker, a⟩ p.1) (p.2.withAccounts accounts)) := by
  have hm' : (s.withAccounts accounts).getOrder id = some maker := hm
  conv_lhs => unfold matchIds
  simp only [h0, ↓reduceIte, outcome_get_bind, outcome_orThrow_bind, hm']
  show outcome (matchSingle ⟨taker, a⟩ maker >>= _) _ = _; rw [outcome_bind, outcome_matchSingle]
  simp only [bind_assoc, pure_bind]
  refine bind_congr fun f => bind_congr fun a => bind_congr fun accounts' => ?_
  rw [outcome_bind]; show outcome (settleMaker id rest f.maker) (s.withAccounts accounts') >>= _ = _
  rw [outcome_settleMaker_withAccounts, bind_assoc]
  refine bind_congr fun p => ?_
  cases left with
  | zero => rfl
  | succ =>
    show outcome (if f.stop = true then _ else _) _ = _; rw [outcome_ite]; rfl

variable (left : Nat)

lemma outcome_matchIds (s : WorldState) (taker : MarketOrder) (ids : List OrderId) :
    ∀ a accounts, outcome (matchIds left ⟨taker, a⟩ ids) (s.withAccounts accounts) =
      settle a accounts (walkIds left s taker ids).1 >>= fun p =>
        (walkIds left s taker ids).2 >>= fun r =>
          .ok ((r.stop, r.left, ⟨r.taker, p.1⟩, r.ids), r.book.withAccounts p.2) := by
  fun_induction walkIds left s taker ids with
  | case1 => intro a accounts; unfold matchIds; rfl
  | case2 left book taker id rest h0 =>
    intro a accounts; unfold matchIds; simp only [h0, ↓reduceIte]
    rfl
  | case3 left book taker id rest h0 hnone =>
    intro a accounts; have hnone' : (book.withAccounts accounts).getOrder id = none := hnone
    unfold matchIds; simp only [h0, ↓reduceIte, outcome_get_bind, outcome_orThrow_bind, hnone']; rfl
  | case4 left book taker id rest h0 maker hm e he =>
    intro a accounts; rw [outcome_matchIds_cons h0 hm, he]; rfl
  | case5 left book taker id rest h0 maker hm f hf e he =>
    intro a accounts
    simp [outcome_matchIds_cons h0 hm, hf, ok_bind, he, error_bind, settle, bind_assoc]
  | case6 book taker id rest h0 maker hm f hf ids book' hs =>
    intro a accounts
    simp [outcome_matchIds_cons h0 hm, hf, ok_bind, hs, error_bind, settle, bind_assoc]
  | case7 book taker id rest h0 maker hm f hf ids book' hs left hstop =>
    intro a accounts; simp [outcome_matchIds_cons h0 hm, hf, ok_bind, hs, hstop, settle, bind_assoc]
  | case8 book taker id rest h0 maker hm f hf ids book' hs left hstop w ih =>
    intro a accounts
    simp only [outcome_matchIds_cons h0 hm, hf, ok_bind, hs, hstop, settle, bind_assoc]
    refine bind_congr fun a => bind_congr fun accounts => ?_
    exact ih a accounts

lemma withAccounts_putOrderIds (s : WorldState) (accounts : Column Address Account) (pair : Bytes)
    (price : Price) (ids : List OrderId) : (s.withAccounts accounts).putOrderIds pair price ids =
      (s.putOrderIds pair price ids).withAccounts accounts := rfl

lemma withAccounts_removePrice (s : WorldState) (accounts : Column Address Account) (pair : Bytes)
    (price : Price) : (s.withAccounts accounts).removePrice pair price =
      (s.removePrice pair price).withAccounts accounts := by
  unfold WorldState.removePrice; show (if (s.getPrices pair).filter _ = [] then _ else _) = _
  dsimp only; split <;> rfl

lemma outcome_matchPrices_succ {makerPair : Bytes} {fuel left : Nat}
    {best : Price} (h0 : taker.sellTokenQuantityRemain ≠ 0) (hb : s.bestPrice makerPair = some best)
    (hp : ¬ priceMatch taker.sellTokenQuantity taker.buyTokenQuantity best.1 best.2 = false)
    (a : Account) (accounts : Column Address Account) :
    outcome (matchPrices makerPair (fuel + 1) left ⟨taker, a⟩) (s.withAccounts accounts) = (do
      let p ← settle a accounts (walkIds left s taker (s.getOrderIds makerPair best)).1
      let r ← (walkIds left s taker (s.getOrderIds makerPair best)).2
      let book := r.book.putOrderIds makerPair best r.ids
      if r.stop then .ok (⟨r.taker, p.1⟩, book.withAccounts p.2)
      else if r.ids = [] then
        outcome (matchPrices makerPair fuel r.left ⟨r.taker, p.1⟩)
          ((book.removePrice makerPair best).withAccounts p.2)
      else .ok (⟨r.taker, p.1⟩, book.withAccounts p.2)) := by
  have hb' : (s.withAccounts accounts).bestPrice makerPair = some best := hb
  conv_lhs => unfold matchPrices
  simp only [h0, ↓reduceIte, outcome_get_bind, hb']; rw [if_neg hp, outcome_get_bind, outcome_bind]
  rw [outcome_matchIds]; simp only [bind_assoc, ok_bind]
  refine bind_congr fun p => bind_congr fun r => ?_
  simp only [outcome_modify_bind, outcome_ite, withAccounts_putOrderIds, withAccounts_removePrice]; rfl

variable (makerPair : Bytes)

lemma outcome_matchPrices (fuel left : Nat) (s : WorldState) (taker : MarketOrder) :
    ∀ a accounts, outcome (matchPrices makerPair fuel left ⟨taker, a⟩) (s.withAccounts accounts) =
      settle a accounts (walkPrices makerPair fuel left s taker).1 >>= fun p =>
        (walkPrices makerPair fuel left s taker).2 >>= fun r =>
          .ok (⟨r.1, p.1⟩, r.2.withAccounts p.2) := by
  fun_induction walkPrices makerPair fuel left s taker with
  | case1 => intro a accounts; rfl
  | case2 fuel left book taker h0 =>
    intro a accounts; unfold matchPrices; simp only [h0, ↓reduceIte]
    rfl
  | case3 fuel left book taker h0 hnone =>
    intro a accounts; have hnone' : (book.withAccounts accounts).bestPrice makerPair = none := hnone
    unfold matchPrices; simp only [h0, ↓reduceIte, outcome_get_bind, hnone']; rfl
  | case4 fuel left book taker h0 best hb hp =>
    intro a accounts; have hb' : (book.withAccounts accounts).bestPrice makerPair = some best := hb
    unfold matchPrices; simp only [h0, ↓reduceIte, outcome_get_bind, hb', hp]; rfl
  | case5 fuel left book taker h0 best hb hp w e he =>
    intro a accounts; rw [outcome_matchPrices_succ h0 hb hp]; simp only [w, he, error_bind]
  | case6 fuel left book taker h0 best hb hp w r hr book' hstop =>
    intro a accounts; rw [outcome_matchPrices_succ h0 hb hp]; simp [w, hr, ok_bind, hstop, book']
  | case7 fuel left book taker h0 best hb hp w r hr book' hstop hids v ih =>
    intro a accounts; rw [outcome_matchPrices_succ h0 hb hp]
    simp only [w, hr, ok_bind, hstop, if_pos hids, ↓reduceIte, settle_append, bind_assoc, Bool.false_eq_true]
    exact bind_congr fun p => ih p.1 p.2
  | case8 fuel left book taker h0 best hb hp w r hr book' hstop hids =>
    intro a accounts; rw [outcome_matchPrices_succ h0 hb hp]; simp [w, hr, ok_bind, hstop, hids, book']

/-- **Matching an order.** The walk along the book says which fills are made, what is left of
the order and how the book looks afterwards; the accounts are those that settling the fills
gives. -/
theorem outcome_matchOrder (s : WorldState) : outcome (matchOrder t) s =
    settle t.account s.account (walk s t.order).1 >>= fun p =>
      (walk s t.order).2 >>= fun r => .ok (⟨r.1, p.1⟩, r.2.withAccounts p.2) :=
  outcome_matchPrices _ _ _ s t.order t.account s.account

/-! ## When matching fails -/

theorem creditToken_ne_panic (token : Bytes) (amount : Int64) : creditToken a token amount ≠ .error .panic := by
  unfold creditToken; cases (tokenBalance a token).checkedAdd amount <;> nofun

lemma creditTo_ne_panic (c : Option Credit) : creditTo a c ≠ .error .panic := by
  cases c with
  | none => nofun
  | some c => exact creditToken_ne_panic a c.1 c.2

lemma payMaker_ne_panic (maker : MarketOrder) (c : Option Credit) : payMaker accounts maker c ≠ .error .panic := by
  cases c with
  | none => simp [payMaker]
  | some c =>
    simp only [payMaker, parseAddress, ne_eq, bind_eq_error, not_or, not_exists, not_and]
    refine ⟨?_, fun owner _ => ⟨?_, fun ma _ => ⟨creditToken_ne_panic ma c.1 c.2, fun _ _ h => by cases h⟩⟩⟩
    · intro h; cases ha : Address.ofBytes maker.ownerAddress <;> rw [ha] at h <;> cases h
    · intro h; cases ha : accounts.get owner <;> rw [ha] at h <;> cases h

lemma settle_ne_panic (fills : List (MarketOrder × Fill)) : settle a accounts fills ≠ .error .panic := by
  induction fills generalizing a accounts with
  | nil => nofun
  | cons x fills ih =>
    simp only [settle, ne_eq, bind_eq_error, not_or, not_exists, not_and]
    exact ⟨creditTo_ne_panic a _, fun a _ => ⟨payMaker_ne_panic accounts _ _, fun accounts _ => ih a accounts⟩⟩

lemma matchOrder_error_iff {t : Taking} : (∃ e u, matchOrder t s = .error (.err e) u) ↔
      (∀ p, settle t.account s.account (walk s t.order).1 ≠ .ok p) ∨ ∃ e, (walk s t.order).2 = .error (.err e) := by
  simp only [← outcome_eq_error, outcome_matchOrder, bind_eq_error]
  cases hs : settle t.account s.account (walk s t.order).1 with
  | error e =>
    cases e with
    | panic => exact absurd hs (settle_ne_panic _ _ _)
    | err => simp
  | ok => simp

namespace MarketSellAssetActuator

/-- The new order meets no missing order and at most `maxMatchNum` resting ones, and every
owner can be credited with what the fills give. -/
def Settles (c : MarketSellAssetContract) (s : WorldState) : Prop :=
  ∀ owner t, starts c s owner t →
    (∃ p, settle t.account s.account (walk (listed s owner) t.order).1 = .ok p) ∧
      ∀ e, (walk (listed s owner) t.order).2 ≠ .error (.err e)

lemma account_listed (s : WorldState) (owner : Address) : (listed s owner).account = s.account := by
  unfold listed WorldState.addAccountOrder; dsimp only; split <;> rfl

lemma matchSucceeds_iff (c : MarketSellAssetContract) (s : WorldState) : MatchSucceeds c s ↔ Settles c s := by
  refine forall_congr' fun owner => forall_congr' fun t => forall_congr' fun _ => ?_
  rw [← account_listed s owner, ← not_iff_not]
  have h := matchOrder_error_iff (t := t) (s := listed s owner)
  simpa [not_and_or, imp_iff_not_or] using h

end MarketSellAssetActuator

/-! ## When selling succeeds -/

lemma orderId_fill {f : Fill} (h : fill taker maker = .ok f) : f.taker.orderId = taker.orderId := by
  unfold fill at h; obtain ⟨buy, -, h⟩ := bind_eq_ok.mp h
  split at h
  · cases h; rfl
  split at h
  · cases h; rfl
  obtain ⟨price, -, h⟩ := bind_eq_ok.mp h
  split at h
  · cases h; rfl
  · cases h; rfl

lemma orderId_walkIds (book : WorldState) (taker : MarketOrder) (ids : List OrderId) :
    ∀ r, (walkIds left book taker ids).2 = .ok r → r.taker.orderId = taker.orderId := by
  fun_induction walkIds left book taker ids with
  | case1 | case2 => rintro r ⟨⟩; rfl
  | case3 | case4 | case5 | case6 => nofun
  | case7 book taker id rest h0 maker hm f hf =>
    rintro r ⟨⟩; exact orderId_fill hf
  | case8 book taker id rest h0 maker hm f hf ids book' hs left hstop w ih =>
    intro r hr; rw [ih r hr, orderId_fill hf]

lemma orderId_walkPrices (fuel left : Nat) (book : WorldState) (taker : MarketOrder) :
    ∀ r, (walkPrices makerPair fuel left book taker).2 = .ok r → r.1.orderId = taker.orderId := by
  fun_induction walkPrices makerPair fuel left book taker with
  | case1 | case2 | case3 | case4 => rintro r ⟨⟩; rfl
  | case5 => nofun
  | case6 fuel left book taker h0 best hb hp w r hr =>
    rintro r ⟨⟩; exact orderId_walkIds _ _ _ _ _ hr
  | case7 fuel left book taker h0 best hb hp w r hr book' hstop hids v ih =>
    intro r' hr'; rw [ih r' hr', orderId_walkIds _ _ _ _ _ hr]
  | case8 fuel left book taker h0 best hb hp w r hr =>
    rintro r ⟨⟩; exact orderId_walkIds _ _ _ _ _ hr

namespace MarketSellAssetActuator
variable {c : MarketSellAssetContract} {s : WorldState} {v : Int64}

lemma returns_execute {ok : ExecutionResult → WorldState → Prop} : Returns (execute c) s ok ↔
    ∃ owner t, starts c s owner t ∧ Returns (matchOrder t) (listed s owner) fun t' u =>
      Returns (finish c owner (orderIdOf (s.getProp .marketOrderNum + 1)) (fee s) t') u ok := by
  constructor
  · intro h; obtain ⟨res, u, hex, -⟩ := exists_ok_of_wp h
    obtain ⟨owner, t, hst⟩ := exists_starts hex; exact ⟨owner, t, hst, (wp_execute hst).mp h⟩
  · rintro ⟨owner, t, hst, h⟩; exact (wp_execute hst).mpr h

/-- The owner can pay for the order, the new order meets no missing order, no order without a price or an id and at
most `maxMatchNum` resting ones, and every owner can be credited with what the fills give. -/
def Completes (c : MarketSellAssetContract) (s : WorldState) : Prop :=
  (isTrx c.sellTokenId = true → Int64.Fits (c.sellTokenQuantity.toInt + (fee s).toInt)) ∧
    ∀ owner t, starts c s owner t →
      (∃ p, settle t.account s.account (walk (listed s owner) t.order).1 = .ok p) ∧
        ∃ r, (walk (listed s owner) t.order).2 = .ok r

/-- An order that has been checked starts, unless its quantity and the fee wrapped around. -/
lemma exists_starts_iff (hv : validate c s = .ok v) : (∃ owner t, starts c s owner t) ↔
    (isTrx c.sellTokenId = true → Int64.Fits (c.sellTokenQuantity.toInt + (fee s).toInt)) := by
  simp only [validate, check_rules, parseAddress_eq_ok] at hv
  obtain ⟨-, -, owner, ho, x, hx, -, -, -, -, -, -, -, ⟨hpos, -⟩, -, -, u, hfunds, -⟩ := hv
  rw [Int64.pos_iff] at hpos; have hfee : 0 ≤ (fee s).toInt := Int64.toInt_max_zero _
  have hlt := x.balance.toInt_lt
  constructor
  · rintro ⟨o, t, ho', y, balance, hy, hb, hd, -⟩ htrx; cases ho.symm.trans ho'; cases hx.symm.trans hy
    obtain ⟨hleft, -⟩ := debit_eq_some.mp hb
    obtain ⟨hcov, -⟩ := exists_debitToken.mp ⟨_, hd⟩
    rw [holding_withBalance, Asset.ofId, if_pos htrx, if_pos rfl] at hcov; exact ⟨by omega, by omega⟩
  · intro hfits
    have hstart : ∀ balance, debit x.balance (fee s) = some balance →
        0 ≤ holding { x with balance } (.ofId c.sellTokenId) - c.sellTokenQuantity.toInt →
        holding { x with balance } (.ofId c.sellTokenId) - c.sellTokenQuantity.toInt < 2 ^ 63 →
        ∃ owner t, starts c s owner t := by
      intro balance hb h0 h1; obtain ⟨acc, hd⟩ := exists_debitToken.mpr ⟨h0, h1⟩
      exact ⟨owner, ⟨_, acc⟩, ho, x, balance, hx, hb, hd, rfl⟩
    unfold checkFunds at hfunds
    by_cases htrx : isTrx c.sellTokenId = true
    · rw [if_pos htrx, ensure_eq_ok, le_iff_toInt_le, toInt_add_of_fits (hfits htrx)] at hfunds
      obtain ⟨balance, hb⟩ := exists_debit_of_le (b := x.balance) hfee (by omega)
      have hleft := (debit_eq_some.mp hb).1; refine hstart balance hb ?_ ?_
      all_goals rw [holding_withBalance, Asset.ofId, if_pos htrx, if_pos rfl]; omega
    · rw [if_neg htrx] at hfunds; simp only [check_rules, le_iff_toInt_le, tokenBalance_toInt] at hfunds
      obtain ⟨-, hbal, hsell⟩ := hfunds
      have hbound := (tokenBalance x c.sellTokenId).toInt_lt
      rw [tokenBalance_toInt] at hbound
      obtain ⟨balance, hb⟩ := exists_debit_of_le hfee hbal
      have hother : holding { x with balance } (.ofId c.sellTokenId) = holding x (.ofId c.sellTokenId) := by
        rw [holding_withBalance, Asset.ofId, if_neg htrx, if_neg (by simp)]
      refine hstart balance hb ?_ ?_
      all_goals rw [hother]; omega

lemma executes_iff (hv : validate c s = .ok v) : (∃ t, execute c s = .ok ⟨v⟩ t) ↔ Completes c s := by
  have hfee : v = fee s := by
    simp only [validate, check_rules] at hv
    obtain ⟨-, -, -, -, -, -, -, -, -, -, -, -, -, -, -, -, -, -, hv⟩ := hv
    exact hv.symm
  have hfinish : ∀ owner t r u, starts c s owner t → (walk (listed s owner) t.order).2 = .ok r → ∀ a,
      Returns (finish c owner (orderIdOf (s.getProp .marketOrderNum + 1)) (fee s) ⟨r.1, a⟩) u
        fun b _ => b = ⟨fee s⟩ := by
    rintro owner t r u ⟨-, -, -, -, -, -, horder⟩ hr a
    have hid : r.1.orderId = (orderIdOf (s.getProp .marketOrderNum + 1)).bytes := by
      rw [orderId_walkPrices _ _ _ _ _ _ hr, horder]; rfl
    simp [finish, returns_putOrder, hid]
  rw [exists_ok_iff, returns_execute, hfee, Completes, ← exists_starts_iff hv]
  simp only [returns_iff_outcome (m := matchOrder _), outcome_matchOrder, account_listed, bind_eq_ok, Except.ok.injEq]
  constructor
  · rintro ⟨owner, t, hst, t', u, ⟨p, hp, r, hr, -⟩, -⟩
    refine ⟨⟨owner, t, hst⟩, fun owner' t' hst' => ?_⟩; obtain ⟨rfl, rfl⟩ := starts_unique hst hst'
    exact ⟨⟨p, hp⟩, r, hr⟩
  · rintro ⟨⟨owner, t, hst⟩, h⟩; obtain ⟨⟨p, hp⟩, r, hr⟩ := h owner t hst
    exact ⟨owner, t, hst, _, _, ⟨p, hp, r, hr, rfl⟩, hfinish owner t r _ hst hr p.1⟩

end MarketSellAssetActuator
end TronRs

import TronRs.Core.BinarySearch
import TronRs.L3Actuators.Market.Index

/-!
# The stored list of prices

`crates/actuators/src/market/order_book.rs` keeps the prices of a pair as one byte string, sixteen bytes
for each, and finds the place of a new one by binary search. The order book of `OrderBook` has the list
itself; here the bytes are followed, and the two are kept together.

* `storedPrices_insert`: the search inserts where the order book does.
* `price_list_order`: after any calls the list ascends, holds the ratios inserted and not removed since,
  and starts with the lowest, which is the best price unless the list is empty.
-/
namespace TronRs

open TronRs.Core

variable {p q : Price} {prices : List Price} {stored : Option Bytes}

/-! ## Ratios -/

/-- What is asked for each unit that is sold. -/
def priceRatio (p : Price) : ℚ := p.2.toInt / p.1.toInt

lemma better_iff_priceRatio (hp : 0 < p.1.toInt) (hq : 0 < q.1.toInt) : Better p q ↔ priceRatio p < priceRatio q := by
  have hp' : (0 : ℚ) < p.1.toInt := by exact_mod_cast hp
  have hq' : (0 : ℚ) < q.1.toInt := by exact_mod_cast hq
  rw [priceRatio, priceRatio, div_lt_div_iff₀ hp' hq', Better, cmpMakerPrice_eq_lt]
  exact_mod_cast Iff.rfl

lemma cmpMakerPrice_eq_iff_priceRatio (hp : 0 < p.1.toInt) (hq : 0 < q.1.toInt) :
    cmpMakerPrice p q = .eq ↔ priceRatio p = priceRatio q := by
  have hp' : (p.1.toInt : ℚ) ≠ 0 := by exact_mod_cast hp.ne'
  have hq' : (q.1.toInt : ℚ) ≠ 0 := by exact_mod_cast hq.ne'
  rw [priceRatio, priceRatio, div_eq_div_iff hp' hq', cmpMakerPrice_eq_eq]
  exact_mod_cast Iff.rfl

lemma Better.asymm {p q : Price} (h : Better p q) : ¬ Better q p := by
  rw [Better, cmpMakerPrice_eq_lt] at *
  omega

/-- The best price is not worse than any other. -/
lemma not_better_best {prices : List Price} {best p : Price} (hs : prices.Pairwise Better)
    (hb : prices.head? = some best) (hp : p ∈ prices) : ¬ Better p best := by
  cases prices with
  | nil => cases hp
  | cons =>
    cases hb
    rcases List.mem_cons.mp hp with rfl | hp
    · rw [Better, cmpMakerPrice_self]; simp
    · exact ((List.pairwise_cons.mp hs).1 p hp).asymm

/-! ## The bytes -/

/-- Mirrors actuators/market/order_book.rs:46. -/
def price16 (p : Price) : Bytes := numberBytes p.1 ++ numberBytes p.2

/-- Mirrors actuators/market/order_book.rs:83. -/
def storedPrices (stored : Option Bytes) : List Price :=
  (Bytes.chunksExact 16 (stored.getD [])).map fun chunk => (numberOf (chunk.take 8), numberOf (chunk.drop 8))

/-- Mirrors actuators/market/order_book.rs:97; an empty list is deleted. -/
def storePrices (prices : List Price) : Option Bytes := if prices = [] then none else some (prices.flatMap price16)

/-- A call on the list of a pair. -/
inductive PriceCall where
  | insert (price : Price)
  | remove (price : Price)

namespace PriceCall

def price : PriceCall → Price
  | insert price => price
  | remove price => price

/-- Mirrors actuators/market/order_book.rs:113 and 129. -/
def store (stored : Option Bytes) : PriceCall → Option Bytes
  | insert price =>
    let prices := storedPrices stored
    if prices.any fun p => cmpMakerPrice p price = .eq then stored
    else
      let pos := match binarySearchBy (cmpMakerPrice · price) prices with
        | .ok pos => pos
        | .error pos => pos
      storePrices (prices.insertIdx pos price)
  | remove price => storePrices ((storedPrices stored).filter fun p => cmpMakerPrice p price ≠ .eq)

/-- The same call on the order book. -/
def apply (pair : Bytes) (s : WorldState) : PriceCall → WorldState
  | insert price => s.insertPrice pair price
  | remove price => s.removePrice pair price

/-- The ratios inserted and not removed since. -/
def ratios (live : Finset ℚ) : PriceCall → Finset ℚ
  | insert price => Insert.insert (priceRatio price) live
  | remove price => live.erase (priceRatio price)

end PriceCall

lemma storedPrices_storePrices (prices : List Price) : storedPrices (storePrices prices) = prices := by
  have hlen : ∀ p : Price, (price16 p).length = 16 := fun p => by
    rw [price16, List.length_append, length_numberBytes, length_numberBytes]
  have hbytes : (storePrices prices).getD [] = prices.flatMap price16 := by
    unfold storePrices
    split
    · rename_i h; rw [h]; rfl
    · rfl
  rw [storedPrices, hbytes, Bytes.chunksExact_flatMap (by decide) hlen, List.map_map]
  refine (List.map_congr_left fun p _ => ?_).trans (List.map_id _); have hcut := length_numberBytes p.1
  simp only [Function.comp_apply, price16, List.take_left' hcut, List.drop_left' hcut, numberOf_numberBytes, id_eq]

/-! ## Inserting and removing -/

lemma insertIdx_length_append {α : Type} (front back : List α) (a : α) :
    (front ++ back).insertIdx front.length a = front ++ a :: back := by
  induction front with
  | nil => rfl
  | cons b front ih => rw [List.cons_append, List.length_cons, List.insertIdx_succ_cons, ih, List.cons_append]

/-- What is not better than a price without an equal is worse. -/
lemma worse_of_mem_dropWhile {price : Price} (hs : prices.Pairwise Better) (hpos : ∀ p ∈ prices, 0 < p.1.toInt)
    (hprice : 0 < price.1.toInt) (hne : ∀ p ∈ prices, ¬ cmpMakerPrice p price = .eq)
    (hp : p ∈ prices.dropWhile fun p => cmpMakerPrice p price = .lt) : cmpMakerPrice p price = .gt := by
  have hsub := List.dropWhile_sublist (l := prices) fun p => cmpMakerPrice p price = .lt
  have hmem := hsub.subset hp
  suffices h : ¬ cmpMakerPrice p price = .lt by
    cases hc : cmpMakerPrice p price with
    | lt => exact absurd hc h
    | eq => exact absurd hc (hne p hmem)
    | gt => rfl
  cases hd : prices.dropWhile fun p => cmpMakerPrice p price = .lt with
  | nil => rw [hd] at hp; cases hp
  | cons first rest =>
    rw [hd] at hp hsub
    have hfirst : ¬ cmpMakerPrice first price = .lt := by
      have h := List.head?_dropWhile_not (fun p => decide (cmpMakerPrice p price = .lt)) prices
      rw [hd] at h; simpa using h
    rcases List.mem_cons.mp hp with rfl | hp
    · exact hfirst
    · intro hlt
      exact hfirst (((List.pairwise_cons.mp (hs.sublist hsub)).1 p hp).trans (hpos _ (hsub.subset List.mem_cons_self))
        (hpos p hmem) hprice hlt)

/-- The search inserts where the order book does. -/
lemma storedPrices_insert {price : Price} (hs : (storedPrices stored).Pairwise Better)
    (hpos : ∀ p ∈ storedPrices stored, 0 < p.1.toInt) (hprice : 0 < price.1.toInt) :
    storedPrices (PriceCall.store stored (.insert price)) = listPrice (storedPrices stored) price := by
  unfold PriceCall.store listPrice; dsimp only
  split
  · rfl
  rename_i hany
  have hne : ∀ p ∈ storedPrices stored, ¬ cmpMakerPrice p price = .eq := fun p hp heq =>
    hany (List.any_eq_true.mpr ⟨p, hp, decide_eq_true heq⟩)
  have hbetter : ∀ p ∈ (storedPrices stored).takeWhile fun p => cmpMakerPrice p price = .lt,
      cmpMakerPrice p price = .lt := fun p hp => by simpa using List.mem_takeWhile_imp hp
  have hsearch := binarySearchBy_eq hbetter fun p => worse_of_mem_dropWhile hs hpos hprice hne
  rw [List.takeWhile_append_dropWhile] at hsearch; rw [hsearch, storedPrices_storePrices]
  have hins := insertIdx_length_append ((storedPrices stored).takeWhile fun p => cmpMakerPrice p price = .lt)
    ((storedPrices stored).dropWhile fun p => cmpMakerPrice p price = .lt) price
  rwa [List.takeWhile_append_dropWhile] at hins

lemma pos_listPrice {price : Price} (hpos : ∀ p ∈ prices, 0 < p.1.toInt) (hprice : 0 < price.1.toInt) :
    ∀ p ∈ listPrice prices price, 0 < p.1.toInt := by
  rcases listPrice_cases prices price with ⟨-, hlist⟩ | hperm
  · rwa [hlist]
  intro p hp
  rcases List.mem_cons.mp (hperm.mem_iff.mp hp) with rfl | hp
  · exact hprice
  · exact hpos p hp

lemma mem_map_listPrice {price : Price} (hpos : ∀ p ∈ prices, 0 < p.1.toInt) (hprice : 0 < price.1.toInt) (r : ℚ) :
    r ∈ (listPrice prices price).map priceRatio ↔ r = priceRatio price ∨ r ∈ prices.map priceRatio := by
  rcases listPrice_cases prices price with ⟨⟨p, hp, heq⟩, hlist⟩ | hperm
  · have hratio := (cmpMakerPrice_eq_iff_priceRatio (hpos p hp) hprice).mp heq
    rw [hlist, or_iff_right_of_imp]; intro hr; exact List.mem_map.mpr ⟨p, hp, hratio.trans hr.symm⟩
  · rw [(hperm.map priceRatio).mem_iff, List.map_cons, List.mem_cons]

/-! ## Any sequence of calls -/

/-- The stored list ascends, holds the ratios and is the order book's. -/
structure PriceListOk (live : Finset ℚ) (stored : Option Bytes) (prices : List Price) : Prop where
  pos : ∀ p ∈ storedPrices stored, 0 < p.1.toInt
  sorted : (storedPrices stored).Pairwise Better
  ratios : ∀ r, r ∈ live ↔ r ∈ (storedPrices stored).map priceRatio
  book : prices = storedPrices stored

lemma PriceListOk.call {live : Finset ℚ} {s : WorldState} {pair : Bytes}
    (h : PriceListOk live stored (s.getPrices pair)) {call : PriceCall} (hprice : 0 < call.price.1.toInt) :
    PriceListOk (call.ratios live) (call.store stored) ((call.apply pair s).getPrices pair) := by
  cases call with
  | insert price =>
    replace hprice : 0 < price.1.toInt := hprice
    have hstored := storedPrices_insert h.sorted h.pos hprice
    have hbook : ((PriceCall.insert price).apply pair s).getPrices pair = listPrice (s.getPrices pair) price :=
      (congrFun (congrArg Book.prices (s.book_insertPrice pair price)) pair).trans (Function.update_self ..)
    refine ⟨?_, ?_, fun r => ?_, ?_⟩
    · rw [hstored]; exact pos_listPrice h.pos hprice
    · rw [hstored]; exact sorted_listPrice h.sorted h.pos hprice
    · rw [hstored, mem_map_listPrice h.pos hprice, ← h.ratios]; exact Finset.mem_insert
    · rw [hbook, hstored, h.book]
  | remove price =>
    replace hprice : 0 < price.1.toInt := hprice
    have hstored : storedPrices (PriceCall.store stored (.remove price)) =
      (storedPrices stored).filter fun p => cmpMakerPrice p price ≠ .eq := storedPrices_storePrices _
    refine ⟨?_, ?_, fun r => ?_, ?_⟩
    · rw [hstored]; exact fun p hp => h.pos p (List.mem_of_mem_filter hp)
    · rw [hstored]; exact h.sorted.sublist List.filter_sublist
    · rw [hstored]; refine Finset.mem_erase.trans ?_; rw [h.ratios, List.mem_map, List.mem_map]
      constructor
      · rintro ⟨hne, p, hp, rfl⟩
        have heq := (cmpMakerPrice_eq_iff_priceRatio (h.pos p hp) hprice).not.mpr hne
        exact ⟨p, List.mem_filter.mpr ⟨hp, by simpa using heq⟩, rfl⟩
      · rintro ⟨p, hp, rfl⟩; obtain ⟨hp, heq⟩ := List.mem_filter.mp hp
        exact ⟨(cmpMakerPrice_eq_iff_priceRatio (h.pos p hp) hprice).not.mp (by simpa using heq), p, hp, rfl⟩
    · rw [hstored, ← h.book]; exact (s.getPrices_removePrice pair pair price).trans (if_pos rfl)

/-- **The order of the price list**, after any calls with positive quantities on an empty one. -/
theorem price_list_order {calls : List PriceCall} (hpos : ∀ call ∈ calls, 0 < call.price.1 ∧ 0 < call.price.2)
    {s : WorldState} {pair : Bytes} (hs : s.getPrices pair = []) :
    let stored := calls.foldl PriceCall.store none
    let t := calls.foldl (PriceCall.apply pair) s
    t.getPrices pair = storedPrices stored ∧ (t.getPrices pair).Pairwise Better ∧
      (∀ r, r ∈ calls.foldl PriceCall.ratios ∅ ↔ r ∈ (t.getPrices pair).map priceRatio) ∧
      (t.getPrices pair ≠ [] → ∃ best, t.bestPrice pair = some best) ∧ ∀ best, t.bestPrice pair = some best →
        best ∈ t.getPrices pair ∧ ∀ p ∈ t.getPrices pair, priceRatio best ≤ priceRatio p := by
  have hinv : PriceListOk (calls.foldl PriceCall.ratios ∅) (calls.foldl PriceCall.store none)
      ((calls.foldl (PriceCall.apply pair) s).getPrices pair) := by
    induction calls using List.reverseRecOn with
    | nil => exact ⟨by simp [storedPrices, Bytes.chunksExact], by simp [storedPrices, Bytes.chunksExact],
        by simp [storedPrices, Bytes.chunksExact], hs.trans (by simp [storedPrices, Bytes.chunksExact])⟩
    | append_singleton calls call ih =>
      have hcall := (hpos call (by simp)).1; rw [lt_iff_toInt_lt, toInt_zero] at hcall
      simp only [List.foldl_append, List.foldl_cons, List.foldl_nil]
      exact (ih fun c hc => hpos c (by simp [hc])).call hcall
  dsimp only
  refine ⟨hinv.book, hinv.book ▸ hinv.sorted, hinv.book ▸ hinv.ratios, fun hne => ⟨_, List.head?_eq_some_head hne⟩,
    fun best hbest => ⟨List.mem_of_mem_head? hbest, fun p hp => ?_⟩⟩
  rw [hinv.book] at hp; rw [WorldState.bestPrice, hinv.book] at hbest
  have hmem := List.mem_of_mem_head? hbest
  have hle := not_better_best hinv.sorted hbest hp
  rw [better_iff_priceRatio (hinv.pos p hp) (hinv.pos best hmem)] at hle; exact not_lt.mp hle

/-- Three ratios, of which the lowest is removed again. -/
def threeRatios : List PriceCall := [.insert (1, 3), .insert (2, 4), .insert (1, 1), .remove (3, 3)]

theorem price_list_order_three : (threeRatios.foldl (PriceCall.apply []) {}).getPrices [] = [(2, 4), (1, 3)] ∧
    ∃ best, (threeRatios.foldl (PriceCall.apply []) {}).bestPrice [] = some best ∧
      priceRatio best ≤ priceRatio (1, 3) := by
  have horder := @price_list_order threeRatios (by decide) {} [] rfl
  obtain ⟨best, hbest⟩ := horder.2.2.2.1 (by decide)
  exact ⟨by decide, best, hbest, (horder.2.2.2.2 best hbest).2 (1, 3) (by decide)⟩

end TronRs

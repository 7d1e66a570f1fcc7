import TronRs.L3Actuators.Market.Uncrossed

/-!
# What the records of the order book say

Five records lead to an order: the stored order, the queue of its pair and price, the price
list of its pair, the list of all pairs and its owner's list. `Represented` says that they list
exactly the active orders that still offer something.

* `pairsCodec_iff`: the list of all pairs is read back, and changes by one pair at a time, exactly
  when the keys are not longer than their length field can say.
* `pairs_step`: the list of all pairs names the pairs that have a price, as long as the key of
  a pair is not longer than its length field can say.
* `book_represented`: every run from an empty book in which each operation is `Representable`
  leads to a state that is `Represented`.
* `second_price_is_not_listed`: of two prices of one ratio only the first is listed.
-/
namespace TronRs

open TronRs.Core

variable {s t : WorldState} {op : MarketOp} {res : ExecutionResult}

/-! ## The list of pairs -/

namespace WorldState
variable {fuel : Nat} {hi lo : UInt8} {p rest pair : Bytes} {pairs : List Bytes}

/-- The bytes `put_pairs` stores. -/
def pairsBytes (pairs : List Bytes) : Bytes := pairs.flatMap fun p => Bytes.be 2 p.length ++ p

lemma readPairs_entry (h : hi.toNat * 256 + lo.toNat = p.length) :
    readPairs (fuel + 1) (hi :: lo :: (p ++ rest)) = p :: readPairs fuel rest := by
  rw [readPairs]; rw [h, List.take_left, List.drop_left, if_neg (by simp)]

lemma readPairs_cut (h : rest.length < hi.toNat * 256 + lo.toNat) : readPairs fuel (hi :: lo :: rest) = [] := by
  cases fuel with
  | zero => rfl
  | succ =>
    rw [readPairs]; rw [if_pos h]

lemma readPairs_cons (h : p.length < 2 ^ 16) :
    readPairs (fuel + 1) (Bytes.be 2 p.length ++ p ++ rest) = p :: readPairs fuel rest := by
  have hfield : Bytes.be 2 p.length = [.ofNat (p.length / 256), .ofNat p.length] := rfl
  rw [hfield, List.append_assoc, List.cons_append, List.cons_append, List.nil_append]
  refine readPairs_entry ?_; rw [UInt8.toNat_ofNat', UInt8.toNat_ofNat']; omega

lemma readPairs_pairsBytes (pairs : List Bytes) (h : ∀ p ∈ pairs, p.length < 2 ^ 16) :
    ∀ fuel, pairs.length ≤ fuel → readPairs fuel (pairsBytes pairs) = pairs := by
  induction pairs with
  | nil =>
    intro fuel _; cases fuel <;> rfl
  | cons p pairs ih =>
    intro fuel hfuel; rw [List.forall_mem_cons] at h
    obtain ⟨fuel, rfl⟩ : ∃ n, fuel = n + 1 := ⟨fuel - 1, by rw [List.length_cons] at hfuel; omega⟩
    rw [pairsBytes, List.flatMap_cons, readPairs_cons h.1]
    exact congrArg (p :: ·) (ih h.2 fuel (Nat.le_of_succ_le_succ hfuel))

lemma length_le_length_pairsBytes (pairs : List Bytes) : pairs.length ≤ (pairsBytes pairs).length := by
  induction pairs with
  | nil => exact Nat.zero_le _
  | cons p pairs ih =>
    rw [pairsBytes] at ih ⊢
    rw [List.flatMap_cons, List.length_append, List.length_append, Bytes.length_be, List.length_cons]
    omega

/-- What a length field of 16 bits can say. -/
lemma length_of_mem_readPairs (fuel : Nat) (b : Bytes) : ∀ p ∈ readPairs fuel b, p.length < 2 ^ 16 := by
  fun_induction readPairs fuel b with
  | case1 | case2 => nofun
  | case3 fuel hi lo rest len hle ih =>
    intro p hp
    rcases List.mem_cons.mp hp with rfl | hp
    · have hhi := hi.toNat_lt
      have hlo := lo.toNat_lt; rw [List.length_take]; omega
    · exact ih p hp
  | case4 => nofun

variable (s : WorldState)

lemma length_of_mem_getPairs (h : p ∈ s.getPairs) : p.length < 2 ^ 16 :=
  length_of_mem_readPairs _ _ p h

lemma marketPairs_putPairs (pairs : List Bytes) : (s.putPairs pairs).marketPairs.getD [] = pairsBytes pairs := by
  unfold putPairs
  split
  · rename_i hnil; rw [hnil]; rfl
  · rfl

lemma getPairs_putPairs (h : ∀ p ∈ pairs, p.length < 2 ^ 16) : (s.putPairs pairs).getPairs = pairs := by
  rw [getPairs, marketPairs_putPairs]
  exact readPairs_pairsBytes pairs h _ (length_le_length_pairsBytes pairs)

lemma getPairs_putPairs_iff : (s.putPairs pairs).getPairs = pairs ↔ ∀ p ∈ pairs, p.length < 2 ^ 16 := by
  refine ⟨fun h p hp => (s.putPairs pairs).length_of_mem_getPairs ?_, s.getPairs_putPairs⟩; rwa [h]

lemma getPairs_removePair (pair : Bytes) : (s.removePair pair).getPairs = s.getPairs.filter (· ≠ pair) :=
  getPairs_putPairs _ fun _ hq => s.length_of_mem_getPairs (List.mem_of_mem_filter hq)

lemma getPairs_addPair (h : pair.length < 2 ^ 16) :
    (s.addPair pair).getPairs = if pair ∈ s.getPairs then s.getPairs else s.getPairs ++ [pair] := by
  unfold addPair
  split
  · rfl
  refine getPairs_putPairs _ fun q hq => ?_
  rcases List.mem_append.mp hq with hq | hq
  · exact s.length_of_mem_getPairs hq
  · rw [List.mem_singleton.mp hq]; exact h

lemma mem_getPairs_removePair (pair p : Bytes) : p ∈ (s.removePair pair).getPairs ↔ p ∈ s.getPairs ∧ p ≠ pair := by
  rw [getPairs_removePair, List.mem_filter, decide_eq_true_eq]

lemma mem_getPairs_addPair (h : pair.length < 2 ^ 16) (p : Bytes) :
    p ∈ (s.addPair pair).getPairs ↔ p ∈ s.getPairs ∨ p = pair := by
  rw [s.getPairs_addPair h]
  split
  · rename_i hmem; refine ⟨.inl, fun hp => ?_⟩
    rcases hp with hp | rfl
    · exact hp
    · exact hmem
  · rw [List.mem_append, List.mem_singleton]

end WorldState

/-- Two token ids as a sell accepts them. -/
structure TokenPair where
  sell : Bytes
  buy : Bytes
  sell_valid : validToken sell = true
  buy_valid : validToken buy = true
  distinct : sell ≠ buy

def TokenPair.key (p : TokenPair) : Bytes := pairKey p.sell p.buy

lemma TokenPair.length_key (p : TokenPair) : p.key.length = p.sell.length + p.buy.length + 1 := by
  simp only [TokenPair.key, pairKey, List.length_append, List.length_singleton]; omega

/-- The index of the pairs `keys` is read back, and adding and removing `pair` changes it by `pair` alone. -/
structure PairsCodec (s : WorldState) (keys : List Bytes) (pair : Bytes) : Prop where
  read : (s.putPairs keys).getPairs = keys
  added : ((s.putPairs keys).addPair pair).getPairs = if pair ∈ keys then keys else keys ++ [pair]
  removed : ((s.putPairs keys).removePair pair).getPairs = keys.filter (· ≠ pair)

lemma pairsCodec_iff_short {keys : List Bytes} {pair : Bytes} :
    PairsCodec s keys pair ↔ pair.length < 2 ^ 16 ∧ ∀ k ∈ keys, k.length < 2 ^ 16 := by
  refine ⟨fun h => ⟨?_, s.getPairs_putPairs_iff.mp h.read⟩, fun h => ?_⟩
  · -- what is listed is never longer than a length field can say
    refine ((s.putPairs keys).addPair pair).length_of_mem_getPairs ?_; rw [h.added]
    split
    · assumption
    · simp
  · have hread := s.getPairs_putPairs_iff.mpr h.2
    refine ⟨hread, ?_, ?_⟩
    · rw [WorldState.getPairs_addPair _ h.1, hread]
    · rw [WorldState.getPairs_removePair, hread]

/-- **The index of all pairs is read back** and changes by one pair at a time exactly when the
length of each key fits 16 bits. -/
theorem pairsCodec_iff (s : WorldState) (pairs : List TokenPair) (p : TokenPair) :
    PairsCodec s (pairs.map TokenPair.key) p.key ↔ ∀ q ∈ p :: pairs, q.sell.length + q.buy.length + 1 < 2 ^ 16 := by
  rw [pairsCodec_iff_short, List.forall_mem_cons, List.forall_mem_map]; simp [TokenPair.length_key]

/-- The number with `n + 1` nines. -/
def nines (n : Nat) : Bytes := List.replicate (n + 1) 0x39

lemma validToken_nines (n : Nat) : validToken (nines n) = true := by
  have hdigits : (nines n).all (fun b => 48 ≤ b && b ≤ 57) = true := by
    rw [List.all_eq_true]; intro b hb; rw [List.eq_of_mem_replicate hb]
    decide
  have hhead : (nines n).head? = some 0x39 := by rw [nines, List.replicate_succ, List.head?_cons]
  rw [validToken, isNumber, hdigits, hhead]; simp [nines]

def ninesForTrx (n : Nat) : TokenPair where
  sell := nines n
  buy := trxSymbol
  sell_valid := validToken_nines n
  buy_valid := by decide
  distinct h := by
    have hhead := congrArg List.head? h
    rw [nines, List.replicate_succ, List.head?_cons] at hhead
    exact absurd hhead (by decide)

/-- Two nines are read as the length 14649. -/
lemma readPairs_nines (fuel n : Nat) (rest : Bytes) :
    WorldState.readPairs (fuel + 1) (List.replicate (n + 14651) 0x39 ++ rest) =
      List.replicate 14649 0x39 :: WorldState.readPairs fuel (List.replicate n 0x39 ++ rest) := by
  have hsplit : List.replicate (n + 14651) 0x39 ++ rest =
      0x39 :: 0x39 :: (List.replicate 14649 0x39 ++ (List.replicate n (0x39 : UInt8) ++ rest)) := by
    rw [show n + 14651 = 14649 + n + 1 + 1 by omega, List.replicate_succ, List.replicate_succ, List.replicate_add,
      List.cons_append, List.cons_append, List.append_assoc]
  rw [hsplit]; exact WorldState.readPairs_entry (List.length_replicate ..).symm

lemma key_ninesForTrx (n : Nat) : (ninesForTrx n).key = List.replicate (n + 1) 0x39 ++ [0, 0x5f] := by
  rw [TokenPair.key, pairKey, List.append_assoc]; rfl

/-- The bytes of a key of 2 ^ 16 bytes and of a short one are read as the empty key and as nines. -/
lemma readPairs_long_short (fuel : Nat) : WorldState.readPairs (fuel + 6)
    (WorldState.pairsBytes [(ninesForTrx 65533).key, (ninesForTrx 0).key]) =
      [] :: List.replicate 4 (List.replicate 14649 0x39) := by
  have hlong : Bytes.be 2 (ninesForTrx 65533).key.length = [0, 0] := by
    rw [key_ninesForTrx, List.length_append, List.length_replicate]; decide
  have hshort : Bytes.be 2 (ninesForTrx 0).key.length ++ (ninesForTrx 0).key ++ [] = [0, 3, 0x39, 0, 0x5f] := by decide
  have hend : List.replicate 6930 (0x39 : UInt8) = 0x39 :: 0x39 :: List.replicate 6928 0x39 := by
    rw [← List.replicate_succ, ← List.replicate_succ]
  rw [WorldState.pairsBytes, List.flatMap_cons, List.flatMap_cons, List.flatMap_nil, hlong, hshort, key_ninesForTrx,
    List.cons_append, List.cons_append, List.cons_append, List.cons_append, List.append_assoc]
  rw [WorldState.readPairs_entry (by decide), List.append_assoc, readPairs_nines _ 50883, readPairs_nines _ 36232,
    readPairs_nines _ 21581, readPairs_nines _ 6930, hend, List.cons_append, List.cons_append,
    WorldState.readPairs_cut (by rw [List.length_append, List.length_replicate]; decide)]
  rfl

/-- With a key of 2 ^ 16 bytes before it a pair is not read back, and that key itself is not
listed when it is added. -/
theorem long_pair_hides_others : ∃ long short : TokenPair, long.key ≠ short.key ∧
    short.key ∉ (({} : WorldState).putPairs [long.key, short.key]).getPairs ∧
    long.key ∉ (({} : WorldState).addPair long.key).getPairs := by
  have hlong : (ninesForTrx 65533).key.length = 65536 := by
    rw [key_ninesForTrx, List.length_append, List.length_replicate]; rfl
  refine ⟨ninesForTrx 65533, ninesForTrx 0, fun h => ?_, fun h => ?_, fun h => ?_⟩
  · have := congrArg List.length h; rw [hlong] at this; exact absurd this (by decide)
  · rw [WorldState.getPairs, WorldState.marketPairs_putPairs] at h
    obtain ⟨fuel, hfuel⟩ : ∃ fuel, (WorldState.pairsBytes [(ninesForTrx 65533).key, (ninesForTrx 0).key]).length =
        fuel + 6 := by
      refine Nat.exists_eq_add_of_le' ?_
      rw [WorldState.pairsBytes, List.flatMap_cons, List.length_append, List.length_append, hlong]
      omega
    rw [hfuel, readPairs_long_short] at h
    rcases List.mem_cons.mp h with hnil | hnines
    · exact absurd hnil (by decide)
    · have hzero : (0 : UInt8) ∈ (ninesForTrx 0).key := by decide
      rw [List.eq_of_mem_replicate hnines] at hzero
      exact absurd (List.eq_of_mem_replicate hzero) (by decide)
  · have := WorldState.length_of_mem_getPairs _ h; rw [hlong] at this; omega

/-- Exactly the pairs that have a price are listed. -/
def PairsOk (s : WorldState) : Prop := ∀ pair, pair ∈ s.getPairs ↔ s.getPrices pair ≠ []

namespace PairsOk

variable {s t : WorldState}

lemma congr (h : PairsOk s) (hprices : t.marketPair = s.marketPair) (hpairs : t.marketPairs = s.marketPairs) :
    PairsOk t := by
  intro pair; rw [WorldState.getPairs, WorldState.getPrices, hprices, hpairs]; exact h pair

/-- A pair leaves the list with its last price. -/
lemma removePrice (h : PairsOk s) (pair : Bytes) (price : Price) : PairsOk (s.removePrice pair price) := by
  intro p; rw [WorldState.getPrices_removePrice]; unfold WorldState.removePrice
  dsimp only
  split
  · rename_i hnil; rw [WorldState.mem_getPairs_removePair]; show p ∈ s.getPairs ∧ p ≠ pair ↔ _
    by_cases hp : p = pair
    · rw [if_pos hp]
      exact iff_of_false (fun hne => hne.2 hp) fun hne => hne hnil
    · rw [if_neg hp, ← h p]; exact and_iff_left hp
  · rename_i hne; show p ∈ s.getPairs ↔ _
    by_cases hp : p = pair
    · rw [if_pos hp, hp, h pair]; refine iff_of_true (fun hnil => hne ?_) hne; rw [hnil]
      rfl
    · rw [if_neg hp]; exact h p

end PairsOk

section Matching
open MarketSellAssetActuator

/-- The fills at one price change stored orders and owners' lists only. -/
lemma walkIds_frame {γ : Type} {f : WorldState → γ} (hord : ∀ (s : WorldState) o, f { s with marketOrder := o } = f s)
    (hidx : ∀ (s : WorldState) o, f { s with marketAccountOrder := o } = f s) (left : Nat) (book : WorldState)
    (taker : MarketOrder) (ids : List OrderId) : ∀ r, (walkIds left book taker ids).2 = .ok r → f r.book = f book := by
  fun_induction walkIds left book taker ids with
  | case1 | case2 => intro r hr; cases hr; rfl
  | case3 | case4 | case5 | case6 => intro r hr; cases hr
  | case7 book taker id rest h0 maker hm g hf ids book' hs =>
    intro r hr; cases hr; exact (frame_settleMaker hord hidx _ _ _).ok (outcome_eq_ok.mp hs)
  | case8 book taker id rest h0 maker hm g hf ids book' hs left hstop w ih =>
    intro r hr; exact (ih r hr).trans ((frame_settleMaker hord hidx _ _ _).ok (outcome_eq_ok.mp hs))

lemma pairsOk_walkPrices (makerPair : Bytes) (fuel left : Nat) (book : WorldState) (taker : MarketOrder) :
    ∀ taker' book', (walkPrices makerPair fuel left book taker).2 = .ok (taker', book') → PairsOk book →
      PairsOk book' := by
  have hkeep : ∀ left book taker ids r, (walkIds left book taker ids).2 = .ok r → PairsOk book → PairsOk r.book :=
    fun left book taker ids r hr h => h.congr
      (walkIds_frame (fun _ _ => rfl) (fun _ _ => rfl) left book taker ids r hr)
      (walkIds_frame (fun _ _ => rfl) (fun _ _ => rfl) left book taker ids r hr)
  fun_induction walkPrices makerPair fuel left book taker with
  | case1 | case2 | case3 | case4 => intro t' b' hr h; cases hr; exact h
  | case5 => intro t' b' hr; cases hr
  | case6 fuel left book taker h0 best hb hp w r hr =>
    intro t' b' hres h; cases hres; exact (hkeep _ _ _ _ r hr h).congr rfl rfl
  | case7 fuel left book taker h0 best hb hp w r hr book1 hstop hids v ih =>
    intro t' b' hres h; have h1 : PairsOk book1 := (hkeep _ _ _ _ r hr h).congr rfl rfl
    exact ih t' b' hres (h1.removePrice makerPair best)
  | case8 fuel left book taker h0 best hb hp w r hr =>
    intro t' b' hres h; cases hres; exact (hkeep _ _ _ _ r hr h).congr rfl rfl

end Matching

namespace MarketSellAssetActuator

variable {c : MarketSellAssetContract} {s t : WorldState}

lemma mem_getPairs_finished (hlen : (pairKey c.sellTokenId c.buyTokenId).length < 2 ^ 16) (owner : Address)
    (id : OrderId) (fee : Int64) (tk : Taking) (u : WorldState) (p : Bytes) :
    p ∈ (finished c owner id fee tk u).getPairs ↔
      p ∈ u.getPairs ∨ tk.order.Open ∧ p = pairKey c.sellTokenId c.buyTokenId := by
  have hburn : ∀ v : WorldState, (burnFee v fee).getPairs = v.getPairs := fun v => by unfold burnFee; split <;> rfl
  have hinsert : ∀ (v : WorldState) pair price, (v.insertPrice pair price).getPairs = v.getPairs :=
    fun v pair price => by
    unfold WorldState.insertPrice; dsimp only; split <;> rfl
  unfold finished; rw [hburn]
  by_cases hopen : tk.order.sellTokenQuantityRemain ≠ 0
  · rw [if_pos hopen]; show p ∈ (u.addOrderToBook _ _ id).getPairs ↔ _
    rw [WorldState.addOrderToBook, WorldState.mem_getPairs_addPair _ hlen, hinsert]
    exact or_congr_right (and_iff_right hopen).symm
  · rw [if_neg hopen]; exact (or_iff_left fun h => hopen h.1).symm

/-- **A sell keeps the list of pairs.** -/
theorem pairsOk_sell {v : Int64} (hs : Indexed none none s.book) (hp : PairsOk s)
    (hv : validate c s = .ok v) (hx : execute c s = .ok res t)
    (hfresh : s.getOrder (orderIdOf (s.getProp .marketOrderNum + 1)) = none)
    (hlen : (pairKey c.sellTokenId c.buyTokenId).length < 2 ^ 16) : PairsOk t := by
  obtain ⟨owner, now, order, account, book, accounts, hwalk, -, rfl⟩ := sold hs hv hx hfresh
  have hlisted : PairsOk (listed s owner) := by
    obtain ⟨orders, hl⟩ := listed_eq s owner; rw [hl]; exact hp.congr rfl rfl
  have hbook : PairsOk (book.withAccounts accounts) :=
    (pairsOk_walkPrices _ _ _ _ _ order book hwalk hlisted).congr rfl rfl
  intro p; rw [mem_getPairs_finished hlen, getPrices_finished, hbook p]
  by_cases hcond : order.Open ∧ p = pairKey c.sellTokenId c.buyTokenId
  · rw [if_pos hcond]; exact iff_of_true (.inr hcond) (listPrice_ne_nil _ _)
  · rw [if_neg hcond]; exact or_iff_left hcond

end MarketSellAssetActuator

namespace MarketCancelOrderActuator

variable {c : MarketCancelOrderContract} {s t : WorldState}

lemma pairsOk_unlist (h : PairsOk s) (order : MarketOrder) (id : OrderId) : PairsOk (unlist s order id) := by
  unfold unlist; dsimp only
  split
  · have hqueue : PairsOk (s.putOrderIds (pairKey order.sellTokenId order.buyTokenId)
        (order.sellTokenQuantity, order.buyTokenQuantity) ((s.getOrderIds (pairKey order.sellTokenId order.buyTokenId)
          (order.sellTokenQuantity, order.buyTokenQuantity)).filter (· ≠ id))) := h.congr rfl rfl
    exact (hqueue.removePrice _ _).congr rfl rfl
  · exact h.congr rfl rfl

/-- **A cancellation keeps the list of pairs.** -/
theorem pairsOk_cancel (h : PairsOk s) (hx : execute c s = .ok res t) : PairsOk t := by
  refine ok_elim hx (wp_execute ?_); intro owner id key order account balance account' _ _ _ _ _ _
  refine pairsOk_unlist ?_ order id; unfold burnFee
  split
  · exact h.congr rfl rfl
  · exact h.congr rfl rfl

end MarketCancelOrderActuator

/-! ## The records -/

/-- Every record leads to the order, and those that list ids name it once. -/
structure Recorded (s : WorldState) (id : OrderId) (o : MarketOrder) : Prop where
  queue : (s.getOrderIds o.pair o.price).count id = 1
  price : o.price ∈ s.getPrices o.pair
  pair : o.pair ∈ s.getPairs
  owner : (s.getAccountOrders o.ownerAddress).count id = 1

/-- The records lead to exactly the live orders. -/
structure Represented (s : WorldState) : Prop where
  live_iff : ∀ id o, s.getOrder id = some o → (o.Live ↔ Recorded s id o)
  queued : ∀ pair price, ∀ id ∈ s.getOrderIds pair price,
    ∃ o, s.getOrder id = some o ∧ o.Live ∧ o.pair = pair ∧ o.price = price
  owned : ∀ owner, ∀ id ∈ s.getAccountOrders owner, ∃ o, s.getOrder id = some o ∧ o.Live ∧ o.ownerAddress = owner
  priced : ∀ pair, ∀ price ∈ s.getPrices pair,
    ∃ id o, s.getOrder id = some o ∧ o.Live ∧ o.pair = pair ∧ o.price = price
  paired : ∀ pair ∈ s.getPairs, ∃ id o, s.getOrder id = some o ∧ o.Live ∧ o.pair = pair

/-- What an order offers is not negative, and an order that is not active offers nothing. -/
lemma Offers.live_iff {o : MarketOrder} (h : Offers o) : o.Live ↔ o.Open := by
  refine ⟨MarketOrder.Live.open, fun hopen => ⟨?_, ?_⟩⟩
  · by_contra hstate; exact hopen (h.active hstate)
  · have hne : o.sellTokenQuantityRemain.toInt ≠ 0 := fun hz => hopen (toInt_inj.mp (hz.trans toInt_zero.symm))
    rw [lt_iff_toInt_lt, toInt_zero]; have := h.nonneg; omega

lemma represented_of_indexed (hi : Indexed none none s.book) (hp : PairsOk s) (hb : OrdersOk s) : Represented s := by
  have hlive : ∀ {id o}, s.getOrder id = some o → (o.Live ↔ o.Open) := fun ho => (hb _ _ ho).offers.live_iff
  have hpriced : ∀ pair, ∀ price ∈ s.getPrices pair,
      ∃ id o, s.getOrder id = some o ∧ o.Live ∧ o.pair = pair ∧ o.price = price := fun pair price hprice => by
    obtain ⟨id, o, ho, hpair, heq, hopen⟩ := hi.exists_of_price hprice
    exact ⟨id, o, ho, (hlive ho).mpr hopen, hpair, heq⟩
  refine ⟨fun id o ho => ⟨fun h => ?_, fun h => ?_⟩, fun pair price id hid => ?_, fun owner id hid => ?_, hpriced,
    fun pair hpair => ?_⟩
  · have hopen := h.open
    have hmem := hi.price_mem ho hopen
    exact ⟨List.count_eq_one_of_mem (hi.queuedOnce _ _) ((hi.queued _ _ _).mpr ⟨o, ho, rfl, rfl, hopen⟩), hmem,
      (hp _).mpr (List.ne_nil_of_mem hmem),
      List.count_eq_one_of_mem (hi.ownedOnce _) ((hi.owned _ _).mpr (.inl ⟨o, ho, rfl, hopen⟩))⟩
  · have hid : id ∈ s.getOrderIds o.pair o.price := List.count_pos_iff.mp (by rw [h.queue]; exact Nat.one_pos)
    exact (hlive ho).mpr (hi.eq_of_queued ho hid).2.2
  · obtain ⟨o, ho, hpair, hprice, hopen⟩ := (hi.queued _ _ _).mp hid
    exact ⟨o, ho, (hlive ho).mpr hopen, hpair, hprice⟩
  · rcases (hi.owned _ _).mp hid with ⟨o, ho, howner, hopen⟩ | hpend
    · exact ⟨o, ho, (hlive ho).mpr hopen, howner⟩
    · cases hpend
  · obtain ⟨price, hprice⟩ := List.exists_mem_of_ne_nil _ ((hp pair).mp hpair)
    obtain ⟨id, o, ho, hl, heq, -⟩ := hpriced pair price hprice
    exact ⟨id, o, ho, hl, heq⟩

/-! ## Runs -/

/-- When a sell is recorded as it should be: besides being `Listable`, the prices of the orders
that it can meet fit, and the key of its pair is not too long. -/
@[mk_iff] structure MarketSellAssetActuator.Representable (c : MarketSellAssetContract) (s : WorldState) : Prop
    extends MarketSellAssetActuator.Listable c s where
  fits : ∀ o, Meets s c.sellTokenId c.buyTokenId c.sellTokenQuantity c.buyTokenQuantity o →
    PriceFits c.sellTokenQuantity o
  short : (pairKey c.sellTokenId c.buyTokenId).length < 2 ^ 16

/-- The condition on one operation, in the state before it. -/
def MarketOp.Representable (s : WorldState) : MarketOp → Prop
  | .sell c => MarketSellAssetActuator.Representable c s
  | .cancel c => MarketCancelOrderActuator.Listable c s

lemma MarketOp.Representable.listable (h : op.Representable s) : op.Listable s := by
  cases op with
  | sell => exact h.toListable
  | cancel => exact h

lemma NoOrders.pairsOk (h : NoOrders s) : PairsOk s := by
  intro pair; rw [WorldState.getPairs, WorldState.getPrices, h.pairs, h.prices, get_empty]
  exact iff_of_false List.not_mem_nil fun hne => hne rfl

lemma pairs_step (hs : Indexed none none s.book) (hp : PairsOk s)
    (h : (orderBook.guard MarketOp.Representable).step s op t) : PairsOk t := by
  obtain ⟨hr, res, hrun⟩ := h
  cases op with
  | sell =>
    obtain ⟨⟨v, hv⟩, hx⟩ := Actuator.run_ok hrun
    exact MarketSellAssetActuator.pairsOk_sell hs hp hv hx hr.fresh hr.short
  | cancel => exact MarketCancelOrderActuator.pairsOk_cancel hp (Actuator.run_ok hrun).2

lemma bookOk_step (hs : BookOk s) (h : (orderBook.guard MarketOp.Representable).step s op t) : BookOk t := by
  obtain ⟨hr, res, hrun⟩ := h
  cases op with
  | sell =>
    obtain ⟨⟨v, hv⟩, hx⟩ := Actuator.run_ok hrun
    exact MarketSellAssetActuator.bookOk_sell hs hv hx hr.fresh hr.fits
  | cancel => exact MarketCancelOrderActuator.bookOk_cancel hs (Actuator.run_ok hrun).2

/-- **The records describe the book.** After every run of accepted operations from a book
without orders in which no order that is sold or cancelled meets another price of its ratio,
no price overflows, no number is taken twice and no key of a pair is too long, an order is
active and offers something exactly when every record leads to it, and the records lead to
nothing else. -/
theorem book_represented {s t : WorldState} {ops : List MarketOp} (h0 : orderBook.init s)
    (hrun : (orderBook.guard MarketOp.Representable).Run s ops t) : Represented t := by
  have hstep : ∀ u op v, (Indexed none none u.book ∧ PairsOk u ∧ BookOk u) →
      (orderBook.guard MarketOp.Representable).step u op v → Indexed none none v.book ∧ PairsOk v ∧ BookOk v :=
    fun u op v hu hv => ⟨indexed_step hu.1 ⟨hv.1.listable, hv.2⟩, pairs_step hu.1 hu.2.1 hv, bookOk_step hu.2.2 hv⟩
  obtain ⟨hi, hp, hb⟩ := hrun.preserves hstep
    ⟨NoOrders.indexed h0, NoOrders.pairsOk h0, bookOk_of_emptyBook ⟨h0.orders, h0.queues⟩⟩
  exact represented_of_indexed hi hp hb.orders

/-! ## Runs on fixed inputs -/

instance (c : MarketSellAssetContract) (s : WorldState) : Decidable (MarketSellAssetActuator.Representable c s) :=
  decidable_of_iff _ (MarketSellAssetActuator.representable_iff c s).symm

instance (s : WorldState) (op : MarketOp) : Decidable (op.Representable s) :=
  match op with
  | .sell c => inferInstanceAs (Decidable (MarketSellAssetActuator.Representable c s))
  | .cancel c => inferInstanceAs (Decidable (MarketCancelOrderActuator.Listable c s))

def MarketOp.nextRepresentable (s : WorldState) (op : MarketOp) : Option WorldState :=
  if op.Representable s then op.next s else none

lemma MarketOp.step_of_nextRepresentable (h : op.nextRepresentable s = some t) :
    (orderBook.guard MarketOp.Representable).step s op t := by
  unfold MarketOp.nextRepresentable at h
  split at h
  · rename_i hs; exact ⟨hs, MarketOp.step_of_next h⟩
  · cases h

/-- Two sales, a purchase that fills the first and a part of the second, and a cancellation of
the rest. -/
theorem book_represented_trade : ∃ ops t, (orderBook.guard MarketOp.Representable).Run traders ops t ∧
    (t.getOrder (MarketSellAssetActuator.orderIdOf 3)).isSome ∧ Represented t := by
  have h : (Lts.exec (fun s op => MarketOp.nextRepresentable s op) traders
      [sellToken1 (Address.ofNat 0xaa) 10 10, sellToken1 (Address.ofNat 0xaa) 10 20,
        buyToken1 (Address.ofNat 0xbb) 20 10, cancelOrder (Address.ofNat 0xaa) 2]).map
          (fun t => (t.getOrder (MarketSellAssetActuator.orderIdOf 3)).isSome) = some true := by decide +kernel
  obtain ⟨t, hrun, ht⟩ := Lts.Run.exists_of_exec (fun s op t => MarketOp.step_of_nextRepresentable) h
  exact ⟨_, t, hrun, ht, book_represented noOrders_traders hrun⟩

/-- Two sales of token 1 at two TRX each, one of a single token and one of two: the second one
is active, but its price is not in the list. -/
theorem second_price_is_not_listed : ∃ s ops t, orderBook.init s ∧ orderBook.Run s ops t ∧ ¬ Represented t := by
  have h : (Lts.exec (fun s op => MarketOp.next s op) traders
      [sellToken1 (Address.ofNat 0xaa) 1 2, sellToken1 (Address.ofNat 0xaa) 2 4]).map
          (fun t => (t.getOrder (MarketSellAssetActuator.orderIdOf 2)).map fun o =>
            decide (o.Live ∧ o.price ∉ t.getPrices o.pair)) = some (some true) := by decide +kernel
  obtain ⟨t, hrun, ht⟩ := Lts.Run.exists_of_exec (M := orderBook) (fun s op t => MarketOp.step_of_next) h
  refine ⟨traders, _, t, noOrders_traders, hrun, fun hr => ?_⟩
  obtain ⟨o, ho, hx⟩ := Option.map_eq_some_iff.mp ht
  obtain ⟨hlive, hprice⟩ := of_decide_eq_true hx
  exact hprice ((hr.live_iff _ o ho).mp hlive).price

end TronRs

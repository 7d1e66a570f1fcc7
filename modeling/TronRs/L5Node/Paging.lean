import TronRs.L3Actuators.Exchange
import TronRs.L3Actuators.Governance

/-!
# Paged lists

The handlers of `crates/rpc/src/http` that look up records by number: `governance.rs` and `assets.rs` page
over a counter, `blocks.rs` over block numbers. The ends of a range are computed on the numbers of the
request, in wrapping 64-bit arithmetic, before anything bounds them.

* `bounded_paging`: no more than a hundred records are looked up exactly when no end of the range wraps on
  its own, and pages of any size make up the whole list.
* `lone_wrap_unbounded`: an offset of `i64::MAX` without a limit asks for every number from `i64::MIN` on.
-/
namespace TronRs.Rpc

open TronRs.Core

variable {s : WorldState} {latest offset limit : Int64} {a b : Int} {page : Nat → List Int64}

/-! ## The handlers -/

/-- The numbers from `a` to `b`. -/
def span (a b : Int) : List Int64 := (List.range (b + 1 - a).toNat).map fun i : Nat => Int64.ofInt (a + i)

/-- The numbers of a request; a field that is missing or no integer is `none`. -/
structure PageRequest where
  offset : Option Int64 := none
  limit : Option Int64 := none
  startNum : Option Int64 := none
  endNum : Option Int64 := none

/-- Mirrors rpc/http/governance.rs:68. -/
def pageRange (offset limit latest : Int64) : List Int64 :=
  let start := max offset 0 + 1
  let stop := min (max offset 0 + max limit 0) latest
  span start.toInt stop.toInt

variable (s : WorldState) (req : PageRequest)

/-- The ids a list of proposals or exchanges looks up, from the counter of the kind. -/
def countedIds (counter : Property) : List Int64 :=
  pageRange (req.offset.getD 0) (min (req.limit.getD 0) 100) (s.getProp counter)

/-- Mirrors rpc/http/governance.rs:87. -/
def listProposals : List Proposal := (span 1 (s.getProp .latestProposalNum).toInt).filterMap s.getProposal

/-- Mirrors rpc/http/governance.rs:96. -/
def getPaginatedProposalList : List Proposal := (countedIds s req .latestProposalNum).filterMap s.getProposal

/-- Mirrors rpc/http/governance.rs:119. -/
def listExchanges : List Exchange := (span 1 (s.getProp .latestExchangeNum).toInt).filterMap s.getExchange

/-- Mirrors rpc/http/governance.rs:128. -/
def getPaginatedExchangeList : List Exchange := (countedIds s req .latestExchangeNum).filterMap s.getExchange

/-- Mirrors rpc/http/assets.rs:43. -/
def allAssets : List AssetIssueContract :=
  (span (WorldState.tokenIdBase + 1).toInt s.getTokenIdNum.toInt).filterMap s.getAssetIssue

/-- The `while` loop of the assets; its end is at most the counter, so that the index passes it. -/
def assetIds : List Int64 :=
  let offset := max (req.offset.getD 0) 0
  let limit := max 0 (min (req.limit.getD 0) 100)
  let start := WorldState.tokenIdBase + 1 + offset
  let stop := min (WorldState.tokenIdBase + offset + limit) s.getTokenIdNum
  span start.toInt stop.toInt

/-- Mirrors rpc/http/assets.rs:100. -/
def getPaginatedAssetIssueList : List AssetIssueContract := (assetIds s req).filterMap s.getAssetIssue

/-- The numbers `start..end`, or an error. -/
def blockNums : Option (List Int64) :=
  let start := req.startNum.getD 0
  let stop := req.endNum.getD 0
  if stop ≤ start ∨ 100 < stop - start then none else some (span start.toInt (stop.toInt - 1))

/-- Mirrors rpc/http/blocks.rs:69. -/
def getBlockByLimitNext : Option (List Block) := (blockNums req).map fun nums => nums.filterMap s.getBlockByNum

variable {s req}

/-! ## The ends of a range -/

lemma toInt_consts : (0 : Int64).toInt = 0 ∧ (1 : Int64).toInt = 1 ∧ (100 : Int64).toInt = 100 ∧
    WorldState.tokenIdBase.toInt = 1000000 ∧ (WorldState.tokenIdBase + 1).toInt = 1000001 := ⟨rfl, rfl, rfl, rfl, rfl⟩

@[simp] lemma length_span (a b : Int) : (span a b).length = (b + 1 - a).toNat := by simp [span]

lemma span_append {a m b : Int} (ha : a ≤ m + 1) (hb : m ≤ b) : span a m ++ span (m + 1) b = span a b := by
  have hlen : (b + 1 - a).toNat = (m + 1 - a).toNat + (b + 1 - (m + 1)).toNat := by omega
  rw [span, span, span, hlen, List.range_add, List.map_append, List.map_map]
  refine congrArg _ (List.map_congr_left fun i _ => congrArg Int64.ofInt ?_); rw [Nat.cast_add]; omega

lemma length_countedIds_le_iff (req : PageRequest) {counter : Property} (h : (s.getProp counter).toInt < 2 ^ 62) :
    (countedIds s req counter).length ≤ 100 ↔ ¬ ((req.offset.getD 0).toInt = 2 ^ 63 - 1 ∧
      (req.limit.getD 0).toInt ≤ 0 ∧ 100 - 2 ^ 63 ≤ (s.getProp counter).toInt) := by
  have ho := fits_toInt (req.offset.getD 0)
  have hla := fits_toInt (s.getProp counter)
  simp only [countedIds, pageRange, length_span, Int64.toInt_min, Int64.toInt_add, Int64.toInt_max, Int.bmod_def,
    toInt_consts]
  unfold Int64.Fits at *
  omega

lemma length_assetIds_le_iff (req : PageRequest) (h : s.getTokenIdNum.toInt < 2 ^ 62) :
    (assetIds s req).length ≤ 100 ↔ ¬ (max (req.offset.getD 0).toInt 0 = 2 ^ 63 - 1000001 ∧
      (req.limit.getD 0).toInt ≤ 0 ∧ 100 - 2 ^ 63 ≤ s.getTokenIdNum.toInt) := by
  have ho := fits_toInt (req.offset.getD 0)
  have hla := fits_toInt s.getTokenIdNum
  simp only [assetIds, length_span, Int64.toInt_min, Int64.toInt_add, Int64.toInt_max, Int.bmod_def, toInt_consts]
  unfold Int64.Fits at *
  omega

/-- The span of the blocks passes the check also when it wraps to a negative number. -/
lemma length_blockNums_le_iff (req : PageRequest) : (∀ nums, blockNums req = some nums → nums.length ≤ 100) ↔
    ¬ 2 ^ 63 ≤ (req.endNum.getD 0).toInt - (req.startNum.getD 0).toInt := by
  have hs := fits_toInt (req.startNum.getD 0)
  have he := fits_toInt (req.endNum.getD 0)
  unfold Int64.Fits at *
  have hdiff := Int.bmod_def ((req.endNum.getD 0).toInt - (req.startNum.getD 0).toInt) (2 ^ 64)
  simp only [blockNums, le_iff_toInt_le, lt_iff_toInt_lt, Int64.toInt_sub, toInt_consts]
  split
  · simp only [reduceCtorEq, false_imp_iff, implies_true, true_iff]; omega
  · simp only [Option.some.injEq, forall_eq', length_span]; omega

/-! ## Pages -/

lemma span_eq_nil {a b : Int} (h : b < a) : span a b = [] := by
  rw [← List.length_eq_zero_iff, length_span]; omega

/-- Page by page up to the last number. -/
lemma flatMap_pages {c last : Int} {size n : Nat}
    (hpage : ∀ k < n, page k = span (c + k * size + 1) (min (c + k * size + size) last)) :
    (List.range n).flatMap page = span (c + 1) (min (c + n * size) last) := by
  induction n with
  | zero => rw [span_eq_nil (by simp)]; rfl
  | succ n ih =>
    have hsucc : ((n + 1 : Nat) : Int) * size = n * size + size := by push_cast; ring
    have hn : (0 : Int) ≤ n * size := by positivity
    rw [List.range_succ, List.flatMap_append, ih fun k hk => hpage k (by omega), List.flatMap_singleton,
      hpage n (by omega), hsucc]
    by_cases hlast : last ≤ c + n * size
    · rw [span_eq_nil (by omega) (b := min (c + n * size + size) last), List.append_nil, min_eq_right hlast,
        min_eq_right (by omega)]
    · rw [min_eq_left (by omega), span_append (by omega) (by omega), Int.add_assoc]

/-- The records of all pages, where they reach the last number. -/
lemma filterMap_pages {ρ : Type} {f : Int64 → Option ρ} {c last : Int} (size n : Nat) (hlast : last ≤ c + n * size)
    (hpage : ∀ k < n, page k = span (c + k * size + 1) (min (c + k * size + size) last)) :
    (List.range n).flatMap (fun k => (page k).filterMap f) = (span (c + 1) last).filterMap f := by
  rw [← List.filterMap_flatMap, flatMap_pages hpage, min_eq_right hlast]

/-- The request for the `k`-th page. -/
def pageAt (size k : Nat) : PageRequest :=
  { offset := some (.ofNat (k * size)), limit := some (.ofNat size), startNum := some (.ofNat (k * size))
    endNum := some (.ofNat (k * size + size)) }

section
variable {size n k : Nat} (hsize : 0 < size ∧ size ≤ 100) (hn : n * size + 1000000 < 2 ^ 63) (hk : k < n)
include hsize hn hk

/-- The numbers of a page are exact. -/
lemma toInt_pageAt : k * size + size ≤ n * size ∧ (Int64.ofNat (k * size)).toInt = k * size ∧
    (Int64.ofNat size).toInt = size ∧ (Int64.ofNat (k * size + size)).toInt = k * size + size := by
  have hle : (k + 1) * size ≤ n * size := Nat.mul_le_mul_right size hk
  rw [Nat.add_mul, Nat.one_mul] at hle
  rw [toInt_ofNat_of_lt (by omega), toInt_ofNat_of_lt (by omega), toInt_ofNat_of_lt (by omega)]
  exact ⟨hle, by push_cast; rfl, rfl, by push_cast; rfl⟩

lemma countedIds_pageAt (counter : Property) : countedIds s (pageAt size k) counter =
    span (0 + k * size + 1) (min (0 + k * size + size) (s.getProp counter).toInt) := by
  obtain ⟨hle, ho, hl, -⟩ := toInt_pageAt hsize hn hk
  simp only [countedIds, pageRange, pageAt, Option.getD_some, Int64.toInt_min, Int64.toInt_add, Int64.toInt_max,
    Int.bmod_def, toInt_consts, ho, hl]
  congr 1 <;> omega

lemma assetIds_pageAt : assetIds s (pageAt size k) =
    span (1000000 + k * size + 1) (min (1000000 + k * size + size) s.getTokenIdNum.toInt) := by
  obtain ⟨hle, ho, hl, -⟩ := toInt_pageAt hsize hn hk
  simp only [assetIds, pageAt, Option.getD_some, Int64.toInt_min, Int64.toInt_add, Int64.toInt_max, Int.bmod_def,
    toInt_consts, ho, hl]
  congr 1 <;> omega

lemma blockNums_pageAt : blockNums (pageAt size k) =
    some (span (-1 + k * size + 1) (min (-1 + k * size + size) (n * size - 1))) := by
  obtain ⟨hle, ho, -, he⟩ := toInt_pageAt hsize hn hk
  have hdiff := Int.bmod_def size (2 ^ 64)
  simp only [blockNums, pageAt, Option.getD_some, le_iff_toInt_le, lt_iff_toInt_lt, Int64.toInt_sub, toInt_consts,
    he, ho,
    add_sub_cancel_left]
  split
  · omega
  · rw [show (-1 + k * size + 1 : Int) = k * size by omega,
      show (min (-1 + k * size + size) (n * size - 1) : Int) = k * size + size - 1 by omega]

end

/-! ## The bound -/

/-- What the four handlers look up. -/
structure BoundedLookups (s : WorldState) (req : PageRequest) : Prop where
  proposals : (countedIds s req .latestProposalNum).length ≤ 100
  exchanges : (countedIds s req .latestExchangeNum).length ≤ 100
  assets : (assetIds s req).length ≤ 100
  blocks : ∀ nums, blockNums req = some nums → nums.length ≤ 100

/-- The first id does not wrap while the last one does not, and the span of blocks does not wrap. -/
structure NoLoneWrap (s : WorldState) (req : PageRequest) : Prop where
  proposals : ¬ ((req.offset.getD 0).toInt = 2 ^ 63 - 1 ∧ (req.limit.getD 0).toInt ≤ 0 ∧
    100 - 2 ^ 63 ≤ (s.getProp .latestProposalNum).toInt)
  exchanges : ¬ ((req.offset.getD 0).toInt = 2 ^ 63 - 1 ∧ (req.limit.getD 0).toInt ≤ 0 ∧
    100 - 2 ^ 63 ≤ (s.getProp .latestExchangeNum).toInt)
  assets : ¬ (max (req.offset.getD 0).toInt 0 = 2 ^ 63 - 1000001 ∧ (req.limit.getD 0).toInt ≤ 0 ∧
    100 - 2 ^ 63 ≤ s.getTokenIdNum.toInt)
  blocks : ¬ 2 ^ 63 ≤ (req.endNum.getD 0).toInt - (req.startNum.getD 0).toInt

/-- **Bounded paging.** The handlers look up at most a hundred records each exactly when no end of a range wraps on
its own; and pages of one size, as many as it takes, make up the whole lists. -/
theorem bounded_paging (hproposals : (s.getProp .latestProposalNum).toInt < 2 ^ 62)
    (hexchanges : (s.getProp .latestExchangeNum).toInt < 2 ^ 62) (hassets : s.getTokenIdNum.toInt < 2 ^ 62) :
    (∀ req, BoundedLookups s req ↔ NoLoneWrap s req) ∧
    ∀ size n : Nat, 0 < size ∧ size ≤ 100 → n * size + 1000000 < 2 ^ 63 →
      ((s.getProp .latestProposalNum).toInt ≤ n * size →
        (List.range n).flatMap (fun k => getPaginatedProposalList s (pageAt size k)) = listProposals s) ∧
      ((s.getProp .latestExchangeNum).toInt ≤ n * size →
        (List.range n).flatMap (fun k => getPaginatedExchangeList s (pageAt size k)) = listExchanges s) ∧
      (s.getTokenIdNum.toInt ≤ 1000000 + n * size →
        (List.range n).flatMap (fun k => getPaginatedAssetIssueList s (pageAt size k)) = allAssets s) ∧
      (List.range n).flatMap (fun k => (getBlockByLimitNext s (pageAt size k)).getD []) =
        (span 0 (n * size - 1)).filterMap s.getBlockByNum := by
  refine ⟨fun req => ?_, fun size n hsize hn => ⟨fun hlast => ?_, fun hlast => ?_, fun hlast => ?_, ?_⟩⟩
  · have h1 := length_countedIds_le_iff req hproposals
    have h2 := length_countedIds_le_iff req hexchanges
    have h3 := length_assetIds_le_iff req hassets
    have h4 := length_blockNums_le_iff req
    exact ⟨fun h => ⟨h1.mp h.1, h2.mp h.2, h3.mp h.3, h4.mp h.4⟩,
      fun h => ⟨h1.mpr h.1, h2.mpr h.2, h3.mpr h.3, h4.mpr h.4⟩⟩
  · exact filterMap_pages size n (by omega) fun k hk => countedIds_pageAt hsize hn hk _
  · exact filterMap_pages size n (by omega) fun k hk => countedIds_pageAt hsize hn hk _
  · exact filterMap_pages size n hlast fun k hk => assetIds_pageAt hsize hn hk
  · have hnums : ∀ k ∈ List.range n, (getBlockByLimitNext s (pageAt size k)).getD [] =
        ((blockNums (pageAt size k)).getD []).filterMap s.getBlockByNum := fun k hk => by
      rw [getBlockByLimitNext, blockNums_pageAt hsize hn (List.mem_range.mp hk)]; rfl
    rw [List.flatMap_congr hnums]; show _ = (span (-1 + 1) _).filterMap _
    refine filterMap_pages size n ?_ fun k hk => ?_
    · omega
    · rw [blockNums_pageAt hsize hn hk]; rfl

/-- Three proposals have been made. -/
def threeProposals : WorldState where
  properties := Column.put ∅ .latestProposalNum 3
  proposal := ((Column.put ∅ 1 { proposalId := 1 }).put 2 { proposalId := 2 }).put 3 { proposalId := 3 }

/-- They are found on two pages of two, each of which is bounded. -/
theorem bounded_paging_first : BoundedLookups threeProposals (pageAt 2 1) ∧
    (getPaginatedProposalList threeProposals (pageAt 2 1)).map Proposal.proposalId = [3] ∧
    (List.range 2).flatMap (fun k => getPaginatedProposalList threeProposals (pageAt 2 k)) =
      listProposals threeProposals := by
  have hpaging := bounded_paging (s := threeProposals) (by decide) (by decide) (by decide)
  exact ⟨(hpaging.1 (pageAt 2 1)).mpr ⟨by decide, by decide, by decide, by decide⟩, by decide,
    (hpaging.2 2 2 (by decide) (by decide)).1 (by decide)⟩

/-- An offset of `i64::MAX` without a limit: the first id wraps, the last one is the counter. -/
theorem lone_wrap_unbounded : (countedIds {} { offset := some Int64.maxValue } .latestProposalNum).length = 2 ^ 63 + 1 ∧
    (assetIds {} { offset := some (Int64.maxValue - 1000000) }).length = 2 ^ 63 + 1000001 ∧
    (blockNums { startNum := some Int64.minValue }).map List.length = some (2 ^ 63) := by
  refine ⟨?_, ?_, ?_⟩
  · rw [countedIds, pageRange, length_span]; decide
  · rw [assetIds, length_span]; decide
  · rw [blockNums, if_neg (by decide), Option.map_some, length_span]; decide

end TronRs.Rpc

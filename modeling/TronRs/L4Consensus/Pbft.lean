import TronRs.Core.Contiguous
import TronRs.L1State.WorldState

/-!
# PBFT finality

`crates/consensus/src/pbft.rs`: commit messages, the quorum, and the highest block that is
final without a gap.

* `PbftCommit.decode_encode`: a commit survives the wire.
* `quorums_intersect`: two quorums share more than a third of the witnesses.
* `solidifiedBlock_eq`: the scan returns the largest contiguous final height.
-/
namespace TronRs

open TronRs.Core

/-! ## Commit messages -/

/-- Mirrors consensus/pbft.rs:18. -/
structure PbftCommit where
  blockNum : Int64
  blockId : H256
  signature : Bytes
  size : signature.length = 65
  deriving DecidableEq

namespace PbftCommit

def encodedLen : Nat := 8 + 32 + 65

/-- Mirrors consensus/pbft.rs:29. -/
def digest (pf : Platform) (blockNum : Int64) (blockId : H256) : H256 :=
  pf.crypto.sha256 (numberBytes blockNum ++ blockId.bytes)

/-- Mirrors consensus/pbft.rs:36. -/
def encode (c : PbftCommit) : Bytes := numberBytes c.blockNum ++ (c.blockId.bytes ++ c.signature)

/-- Mirrors consensus/pbft.rs:44. -/
def decode (b : Bytes) : Option PbftCommit :=
  if h : b.length = encodedLen then
    some {
      blockNum := numberOf (b.take 8)
      blockId := ⟨(b.drop 8).take 32, by rw [List.length_take, List.length_drop, h]; rfl⟩
      signature := (b.drop 8).drop 32
      size := by rw [List.length_drop, List.length_drop, h]; rfl }
  else none

/-- Mirrors consensus/pbft.rs:57. -/
def recoverSigner (pf : Platform) (c : PbftCommit) : Option Address :=
  pf.crypto.recoverAddress (digest pf c.blockNum c.blockId) c.signature

variable (c : PbftCommit)

lemma length_encode : c.encode.length = encodedLen := by
  simp only [encode, List.length_append, length_numberBytes, c.blockId.size, c.size]; rfl

lemma decode_encode : decode c.encode = some c := by
  have h8 := length_numberBytes c.blockNum
  have htake : c.encode.take 8 = numberBytes c.blockNum := List.take_left' h8
  have hdrop : c.encode.drop 8 = c.blockId.bytes ++ c.signature := List.drop_left' h8
  have hid : (c.encode.drop 8).take 32 = c.blockId.bytes := by rw [hdrop, List.take_left' c.blockId.size]
  have hsig : (c.encode.drop 8).drop 32 = c.signature := by rw [hdrop, List.drop_left' c.blockId.size]
  unfold decode; rw [dif_pos c.length_encode]; simp only [htake, hid, hsig, numberOf_numberBytes]

/-- **Commits on the wire.** What decodes to a commit is its encoding and nothing else, so a commit has
one form on the wire. -/
theorem decode_eq_some_iff (b : Bytes) : decode b = some c ↔ c.encode = b := by
  constructor
  · intro h; unfold decode at h
    split at h
    · rename_i hlen; cases h
      have h8 : (b.take 8).length = 8 := by rw [List.length_take, hlen]; rfl
      simp only [encode]; rw [numberBytes_numberOf h8, List.take_append_drop, List.take_append_drop]
    · cases h
  · rintro rfl; exact c.decode_encode

end PbftCommit

/-! ## The quorum -/

/-- Mirrors consensus/pbft.rs:71. The total is the length of a vector, so doubling it does not overflow. -/
def finalityThreshold (total : Nat) : Nat := 2 * total / 3 + 1

/-- Mirrors consensus/pbft.rs:81. -/
def isFinalized (confirmations totalSrs : Nat) : Bool := finalityThreshold totalSrs ≤ confirmations

lemma isFinalized_iff {confirmations total : Nat} :
    isFinalized confirmations total = true ↔ finalityThreshold total ≤ confirmations := decide_eq_true_iff

/-- **Quorums intersect.** Of any witnesses, all of them together are a quorum, and two quorums have more than a third
of them in common. -/
theorem quorums_intersect {active : Finset Bytes} (hne : 1 ≤ active.card) :
    isFinalized active.card active.card = true ∧ ∀ s t : Finset Bytes, s ⊆ active → t ⊆ active →
      isFinalized s.card active.card = true → isFinalized t.card active.card = true →
        active.card / 3 + 1 ≤ (s ∩ t).card := by
  simp only [isFinalized_iff, finalityThreshold]; refine ⟨by omega, ?_⟩; intro s t hs ht hsq htq
  -- the two sets overlap in what they have together beyond the number of witnesses
  have hunion : (s ∪ t).card ≤ active.card := Finset.card_le_card (Finset.union_subset hs ht)
  have hinter := Finset.card_union_add_card_inter s t
  omega

/-- Three of four witnesses are a quorum; two of them are in any two quorums. -/
theorem quorums_intersect_four : 2 ≤ (({[1], [2], [3]} : Finset Bytes) ∩ {[2], [3], [4]}).card := by
  have hcard : ({[1], [2], [3], [4]} : Finset Bytes).card = 4 := by decide
  have hne : 1 ≤ ({[1], [2], [3], [4]} : Finset Bytes).card := by decide
  have hshared := (quorums_intersect hne).2 {[1], [2], [3]} {[2], [3], [4]} (by decide) (by decide)
    (by rw [hcard]; decide) (by rw [hcard]; decide)
  rwa [hcard] at hshared

/-! ## The highest final block -/

section Scan
variable (confirmations : Column Int64 Nat) (totalSrs : Nat)

/-- The loop of `solidified_block` from height `n` on, `fuel` heights at most. -/
def solidifiedFrom : Nat → Nat → Option Int64 → Option Int64
  | 0, _, solid => solid
  | fuel + 1, n, solid =>
    match confirmations.get (Int64.ofNat n) with
    | some c => if isFinalized c totalSrs then solidifiedFrom fuel (n + 1) (some (Int64.ofNat n)) else solid
    | none => solid

/-- Mirrors consensus/pbft.rs:88: the heights run from 1 to the head. -/
def solidifiedBlock (head : Int64) : Option Int64 :=
  solidifiedFrom confirmations totalSrs head.toInt.toNat 1 none

/-- A height with a quorum. -/
def Final (k : Nat) : Prop := ∃ c, confirmations.get (Int64.ofNat k) = some c ∧ isFinalized c totalSrs = true

/-- A height as the scan reports it: nothing for height zero. -/
def heightOf (n : Nat) : Option Int64 := if n = 0 then none else some (Int64.ofNat n)

/-- The scan stops at the first height without a quorum. -/
lemma solidifiedFrom_eq (fuel : Nat) : ∀ n, ∃ m,
    solidifiedFrom confirmations totalSrs fuel (n + 1) (heightOf n) = heightOf m ∧ n ≤ m ∧ m ≤ n + fuel ∧
      (∀ k, n < k → k ≤ m → Final confirmations totalSrs k) ∧
      (m < n + fuel → ¬ Final confirmations totalSrs (m + 1)) := by
  induction fuel with
  | zero => intro n; exact ⟨n, rfl, le_rfl, le_rfl, fun k h1 h2 => by omega, fun h => by omega⟩
  | succ fuel ih =>
    intro n
    by_cases hf : Final confirmations totalSrs (n + 1)
    · obtain ⟨c, hc, hfin⟩ := hf
      obtain ⟨m, hm, h1, h2, hall, hnext⟩ := ih (n + 1)
      refine ⟨m, ?_, by omega, by omega, fun k hk hkm => ?_, fun h => hnext (by omega)⟩
      · rw [solidifiedFrom, hc]; show (if isFinalized c totalSrs = true then _ else _) = _
        rw [if_pos hfin]; exact hm
      rcases Nat.lt_or_ge (n + 1) k with hlt | hge
      · exact hall k hlt hkm
      · obtain rfl : k = n + 1 := by omega
        exact ⟨c, hc, hfin⟩
    · refine ⟨n, ?_, le_rfl, by omega, fun k h1 h2 => by omega, fun _ => hf⟩; rw [solidifiedFrom]
      split
      · rename_i c hc; rw [if_neg fun hfin => hf ⟨c, hc, hfin⟩]
      · rfl

/-- **The scan finds the largest height up to the head below which there is no gap.** -/
theorem solidifiedBlock_eq (head : Int64) : ∃ m, solidifiedBlock confirmations totalSrs head = heightOf m ∧
    Contiguous (Final confirmations totalSrs) head.toInt.toNat m := by
  obtain ⟨m, hm, -, hle, hall, hnext⟩ := solidifiedFrom_eq confirmations totalSrs head.toInt.toNat 0
  refine ⟨m, hm, contiguous_iff.mpr ⟨by omega, fun k hk => hall k hk, fun hlt => hnext (by omega)⟩⟩

end Scan

/-! ## Intake -/

def maxPbftFutureBlocks : Int64 := 1024

/-- Mirrors consensus/pbft.rs:126. -/
def acceptPbftMessage (allowPbft : Bool) (blockNum head solidified : Int64) : Bool :=
  allowPbft && solidified < blockNum && blockNum ≤ head.saturatingAdd maxPbftFutureBlocks

/-- Mirrors consensus/pbft.rs:135. -/
def pruneBelowSolidified {V : Type} (confirmations : Column Int64 V) (solidified : Int64) : Column Int64 V :=
  confirmations.retain (solidified ≤ ·)

end TronRs

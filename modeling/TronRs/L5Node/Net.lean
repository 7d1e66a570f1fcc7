import TronRs.L4Consensus.Mempool
import TronRs.L4Consensus.Pbft
import TronRs.L5Node.Sync

/-!
# The channel handler

`crates/node/src/net.rs`: what the node does with a block or a PBFT commit from a peer. A
commit is checked against the state (`readCommit`) and then counted under the lock of the
confirmation cache (`recordCommit`); a block is gated and stored, and a witness node then
commits to it (`emitCommit`).

The cache remembers for every height which signers have committed to it, but not to which
block; the list `accepted` beside the node keeps the commits themselves.
-/
namespace TronRs

open TronRs.Core

/-- The fixed part of a node. -/
structure NodeConfig where
  requireSig : Bool
  witness : Option Crypto.SecretKey

/-- The state behind a `NodeChannelHandler`. -/
structure Node where
  world : WorldState
  mempool : Mempool := {}
  confirmations : Column Int64 (Finset Bytes) := ∅
  /-- ghost: every commit that was counted, in order -/
  accepted : List PbftCommit := []

namespace Node

def head (n : Node) : Int64 := n.world.getProp .latestBlockNumber

def solidified (n : Node) : Int64 := n.world.getSolidifiedBlock

/-- The signers that have committed to a height. -/
def signersAt (n : Node) (k : Int64) : Finset Bytes := (n.confirmations.get k).getD ∅

end Node

variable (pf : Platform) (cfg : NodeConfig) {confirmations : Column Int64 (Finset Bytes)}

/-- A commit that passed the gates, with what was read on the way. -/
structure Admission where
  commit : PbftCommit
  signer : Bytes
  totalSrs : Nat
  head : Int64
  solidified : Int64

/-- The part of `on_pbft_commit` before the lock. -/
def readCommit (n : Node) (bytes : Bytes) : Option Admission :=
  if n.world.getProp .allowPbft = 1 then
    (PbftCommit.decode bytes).bind fun commit =>
      (commit.recoverSigner pf).bind fun signer =>
        let active := n.world.getActiveWitnesses
        if signer.asBytes ∈ active ∧ acceptPbftMessage true commit.blockNum n.head n.solidified = true then
          some ⟨commit, signer.asBytes, active.length, n.head, n.solidified⟩
        else none
  else none

/-- The height finality advances to when a commit has been counted. -/
def newSolidified (confirmations : Column Int64 (Finset Bytes)) (a : Admission) : Option Int64 :=
  if isFinalized ((confirmations.get a.commit.blockNum).getD ∅).card a.totalSrs then
    (solidifiedBlock (confirmations.map Finset.card) a.totalSrs a.head).filter (a.solidified < ·)
  else none

/-- A commit is counted: its signer is recorded, and finality may advance. -/
def Node.count (n : Node) (a : Admission) : Node :=
  let confirmations := n.confirmations.put a.commit.blockNum (insert a.signer (n.signersAt a.commit.blockNum))
  let n := { n with confirmations, accepted := n.accepted ++ [a.commit] }
  match newSolidified confirmations a with
  | some solid =>
    { n with
      world := n.world.putSolidifiedBlock solid
      confirmations := pruneBelowSolidified confirmations solid }
  | none => n

/-- The section under the lock: a signer counts once for a height. -/
def recordCommit (n : Node) (a : Admission) : Bool × Node :=
  if a.signer ∈ n.signersAt a.commit.blockNum then (false, n) else (true, n.count a)

/-- Mirrors node/net.rs:174; the flag asks for a rebroadcast. -/
def onPbftCommit (n : Node) (bytes : Bytes) : Bool × Node :=
  match readCommit pf n bytes with
  | some a => recordCommit n a
  | none => (false, n)

/-- Mirrors node/net.rs:82: a witness signs, counts and broadcasts its own commit. -/
def emitCommit (n : Node) (blockNum : Int64) (blockId : H256) : Option PbftCommit × Node :=
  match cfg.witness with
  | none => (none, n)
  | some w =>
    if n.world.getProp .allowPbft = 1 ∧ w.address.asBytes ∈ n.world.getActiveWitnesses then
      match w.signDigest (PbftCommit.digest pf blockNum blockId) with
      | none => (none, n)
      | some sig =>
        let commit : PbftCommit := ⟨blockNum, blockId, sig.toBytes, sig.length_toBytes⟩
        (some commit, (onPbftCommit pf n commit.encode).2)
    else (none, n)

/-- The commit to a block that has just been stored. -/
def commitToBlock (n : Node) (bytes : Bytes) : Node :=
  match pf.codec.decodeBlock bytes with
  | none => n
  | some b =>
    match b.raw?, blockIdOf pf b with
    | some raw, some id => (emitCommit pf cfg n raw.number id).2
    | _, _ => n

/-- The gate of a node: its active witnesses, once there are any. -/
def Node.gate (n : Node) : Option (List Bytes) :=
  if n.world.getActiveWitnesses = [] then none else some n.world.getActiveWitnesses

/-- Mirrors node/net.rs:124. -/
def onBlock (n : Node) (bytes : Bytes) : Option Int64 × Node :=
  match applySyncedBlocksGated pf [bytes] cfg.requireSig n.gate n.world with
  | .ok applied w =>
    let n := { n with world := w }
    if 1 ≤ applied then
      let n := commitToBlock pf cfg n bytes
      (some n.head, n)
    else (none, n)
  | .error _ w => (none, { n with world := w })

/-- What a peer sends. -/
inductive PeerMessage where
  | block (bytes : Bytes)
  | commit (bytes : Bytes)

def deliver (n : Node) : PeerMessage → Node
  | .block bytes => (onBlock pf cfg n bytes).2
  | .commit bytes => (onPbftCommit pf n bytes).2

/-- A node with a fixed set of witnesses that has counted no commit and made nothing final. -/
structure Node.Starts (n : Node) (active : List Bytes) : Prop where
  witnesses : n.world.getActiveWitnesses = active
  nonempty : active ≠ []
  allowPbft : n.world.getProp .allowPbft = 1
  solidified : n.solidified = 0
  confirmations : n.confirmations = ∅
  accepted : n.accepted = []

/-! ## Quorums in the cache -/

/-- Enough signers have committed to a height. -/
def HasQuorum (confirmations : Column Int64 (Finset Bytes)) (totalSrs : Nat) (k : Int64) : Prop :=
  finalityThreshold totalSrs ≤ ((confirmations.get k).getD ∅).card

instance (confirmations : Column Int64 (Finset Bytes)) (totalSrs : Nat) (k : Int64) :
    Decidable (HasQuorum confirmations totalSrs k) := inferInstanceAs (Decidable (_ ≤ _))

lemma final_map_card (confirmations : Column Int64 (Finset Bytes)) (totalSrs k : Nat) :
    Final (confirmations.map Finset.card) totalSrs k ↔ HasQuorum confirmations totalSrs (Int64.ofNat k) := by
  unfold Final HasQuorum; rw [Column.get_map]
  cases confirmations.get (Int64.ofNat k) with
  | none => simp [finalityThreshold]
  | some => simp [isFinalized_iff]

/-- Finality advances to the end of the quorums without a gap, if the height just committed to
has a quorum and that end is above what was final. -/
lemma newSolidified_eq (confirmations : Column Int64 (Finset Bytes)) (a : Admission) :
    ∃ m, Contiguous (fun k => HasQuorum confirmations a.totalSrs (Int64.ofNat k)) a.head.toInt.toNat m ∧
      newSolidified confirmations a =
        if HasQuorum confirmations a.totalSrs a.commit.blockNum ∧ m ≠ 0 ∧ a.solidified < Int64.ofNat m then
          some (Int64.ofNat m) else none := by
  obtain ⟨m, hm, hcont⟩ := solidifiedBlock_eq (confirmations.map Finset.card) a.totalSrs a.head
  refine ⟨m, hcont.congr fun k _ _ => final_map_card confirmations a.totalSrs k, ?_⟩
  unfold newSolidified; rw [hm, heightOf]
  by_cases hq : HasQuorum confirmations a.totalSrs a.commit.blockNum
  · rw [if_pos (isFinalized_iff.mpr hq)]
    by_cases h0 : m = 0
    · simp [h0]
    · simp [h0, hq, Option.filter]
  · rw [if_neg fun h => hq (isFinalized_iff.mp h), if_neg fun h => hq h.1]

/-- Every height up to a new final one has a quorum. -/
lemma newSolidified_eq_some {a : Admission} {solid : Int64}
    (h : newSolidified confirmations a = some solid) : a.solidified < solid ∧ 1 ≤ solid ∧ solid ≤ a.head ∧
      ∀ k, 1 ≤ k → k ≤ solid → HasQuorum confirmations a.totalSrs k := by
  obtain ⟨m, hm, heq⟩ := newSolidified_eq confirmations a
  obtain ⟨hle, hall, -⟩ := contiguous_iff.mp hm; rw [heq] at h
  split at h
  · rename_i hcond; cases h; have hlt := a.head.toInt_lt
    have hsolid : (Int64.ofNat m).toInt = m := toInt_ofNat_of_lt (by omega)
    have hone := Int64.toInt_one
    refine ⟨hcond.2.2, ?_, ?_, fun k hk1 hk => ?_⟩
    · rw [le_iff_toInt_le, hsolid, hone]; have := hcond.2.1; omega
    · rw [le_iff_toInt_le, hsolid]; have := hcond.2.1; omega
    · rw [le_iff_toInt_le] at hk1 hk; have hkm := hall k.toInt.toNat (by omega) (by omega)
      rwa [Int64.ofNat_toNat_toInt (by omega)] at hkm
  · cases h

/-- Without height 1 in the cache the scan stops before it begins. -/
lemma newSolidified_of_empty (a : Admission)
    (h : (confirmations.get 1).getD ∅ = ∅) : newSolidified confirmations a = none := by
  obtain ⟨m, hm, hnew⟩ := newSolidified_eq confirmations a
  have hm0 : m = 0 := by
    by_contra hne
    have hq : finalityThreshold a.totalSrs ≤ ((confirmations.get 1).getD ∅).card := hm.1.2 1 le_rfl (by omega)
    rw [h] at hq; simp [finalityThreshold] at hq
  rw [hnew, if_neg fun hcond => hcond.2.1 hm0]

/-! ## What a handler changes -/

namespace Node
variable {n : Node} {a : Admission} {solid : Int64} {k : Property}

/-- The cache with a commit counted. -/
def recorded (n : Node) (a : Admission) : Column Int64 (Finset Bytes) :=
  n.confirmations.put a.commit.blockNum (insert a.signer (n.signersAt a.commit.blockNum))

/-- A block is stored in the world state of the node. -/
def store (n : Node) (b : Block) : Node := { n with world := n.world.putBlock pf b }

lemma count_of_none (h : newSolidified (n.recorded a) a = none) :
    n.count a = { n with confirmations := n.recorded a, accepted := n.accepted ++ [a.commit] } := by
  unfold count; rw [recorded] at h; simp only [h]
  rfl

lemma count_of_some (h : newSolidified (n.recorded a) a = some solid) : n.count a = { n with
      world := n.world.putSolidifiedBlock solid
      confirmations := pruneBelowSolidified (n.recorded a) solid
      accepted := n.accepted ++ [a.commit] } := by
  unfold count; rw [recorded] at h; simp only [h]
  rfl

/-- Only finality moves in the world state. -/
lemma world_count (n : Node) (a : Admission) :
    (n.count a).world = n.world ∨ ∃ solid, newSolidified (n.recorded a) a = some solid ∧
      (n.count a).world = n.world.putSolidifiedBlock solid := by
  cases h : newSolidified (n.recorded a) a with
  | none => exact .inl (by rw [count_of_none h])
  | some solid => exact .inr ⟨solid, rfl, by rw [count_of_some h]⟩

@[simp] lemma accepted_count (n : Node) (a : Admission) : (n.count a).accepted = n.accepted ++ [a.commit] := by
  cases h : newSolidified (n.recorded a) a with
  | none => rw [count_of_none h]
  | some => rw [count_of_some h]

@[simp] lemma mempool_count (n : Node) (a : Admission) : (n.count a).mempool = n.mempool := by
  cases h : newSolidified (n.recorded a) a with
  | none => rw [count_of_none h]
  | some => rw [count_of_some h]

@[simp] lemma getProp_count (n : Node) (a : Admission) (hk : k ≠ .latestSolidifiedBlock) :
    (n.count a).world.getProp k = n.world.getProp k := by
  obtain h | ⟨solid, -, h⟩ := world_count n a
  · rw [h]
  · rw [h, WorldState.putSolidifiedBlock, getProp_putProp_of_ne _ _ hk]

@[simp] lemma head_count (n : Node) (a : Admission) : (n.count a).head = n.head :=
  getProp_count n a (by decide)

@[simp] lemma getActiveWitnesses_count (n : Node) (a : Admission) :
    (n.count a).world.getActiveWitnesses = n.world.getActiveWitnesses := by
  obtain h | ⟨solid, -, h⟩ := world_count n a
  · rw [h]
  · rw [h]; rfl

@[simp] lemma transaction_count (n : Node) (a : Admission) :
    (n.count a).world.transaction = n.world.transaction := by
  obtain h | ⟨solid, -, h⟩ := world_count n a
  · rw [h]
  · rw [h]; rfl

@[simp] lemma getBlockByNum_count (n : Node) (a : Admission) (k : Int64) :
    (n.count a).world.getBlockByNum k = n.world.getBlockByNum k := by
  obtain h | ⟨solid, -, h⟩ := world_count n a
  · rw [h]
  · rw [h]; rfl

lemma solidified_count_of_none (h : newSolidified (n.recorded a) a = none) : (n.count a).solidified = n.solidified := by
  rw [count_of_none h]; rfl

lemma solidified_count_of_some (h : newSolidified (n.recorded a) a = some solid) : (n.count a).solidified = solid := by
  rw [count_of_some h]; exact getProp_putProp_self ..

/-- A height keeps its signers unless finality has passed it. -/
lemma signersAt_count_of_none (h : newSolidified (n.recorded a) a = none) (k : Int64) :
    (n.count a).signersAt k = ((n.recorded a).get k).getD ∅ := by
  rw [count_of_none h]; rfl

lemma signersAt_count_of_some (h : newSolidified (n.recorded a) a = some solid) (k : Int64) :
    (n.count a).signersAt k = if solid ≤ k then ((n.recorded a).get k).getD ∅ else ∅ := by
  rw [count_of_some h, signersAt, pruneBelowSolidified, Column.get_retain]; split <;> rfl

lemma getD_recorded (n : Node) (a : Admission) (k : Int64) : ((n.recorded a).get k).getD ∅ =
      if k = a.commit.blockNum then insert a.signer (n.signersAt k) else n.signersAt k := by
  rw [recorded, get_put]
  split
  · rename_i hk; rw [hk]; rfl
  · rfl

lemma signersAt_count_subset (n : Node) (a : Admission) (k : Int64) :
    (n.count a).signersAt k ⊆ ((n.recorded a).get k).getD ∅ := by
  cases h : newSolidified (n.recorded a) a with
  | none => rw [signersAt_count_of_none h]
  | some =>
    rw [signersAt_count_of_some h]
    split
    · exact Finset.Subset.refl _
    · exact Finset.empty_subset _

@[simp] lemma getProp_store (n : Node) (b : Block) (h1 : k ≠ .latestBlockNumber)
    (h2 : k ≠ .latestBlockHeaderTimestamp) : (n.store pf b).world.getProp k = n.world.getProp k :=
  WorldState.getProp_putBlock_of_ne _ _ _ h1 h2

@[simp] lemma solidified_store (n : Node) (b : Block) : (n.store pf b).solidified = n.solidified :=
  getProp_store pf n b (by decide) (by decide)

@[simp] lemma getActiveWitnesses_store (n : Node) (b : Block) :
    (n.store pf b).world.getActiveWitnesses = n.world.getActiveWitnesses := by
  show List.map Address.asBytes (n.world.putBlock pf b).activeWitnesses = _
  rw [WorldState.activeWitnesses_putBlock]; rfl

lemma head_store (n : Node) (b : Block) : (n.store pf b).head = if n.head ≤ b.number then b.number else n.head :=
  getProp_putBlock_head _ _ _

lemma head_le_store (n : Node) (b : Block) : n.head ≤ (n.store pf b).head := by
  rw [head_store]
  split
  · assumption
  · rw [le_iff_toInt_le]

end Node

/-- The admission of a commit `c` of the witness `x`, read from the node as it is. -/
def Node.admission (n : Node) (c : PbftCommit) (x : Bytes) : Admission :=
  ⟨c, x, n.world.getActiveWitnesses.length, n.head, n.solidified⟩

namespace Node
variable {n : Node} {a : Admission} {c : PbftCommit} {x : Bytes} {k : Int64}

lemma mem_recorded : x ∈ ((n.recorded a).get k).getD ∅ ↔ k = a.commit.blockNum ∧ x = a.signer ∨ x ∈ n.signersAt k := by
  rw [getD_recorded]; split <;> simp [*]

/-- A commit for a height above the final one leaves the heights up to it. -/
lemma recorded_of_le (hnum : n.solidified < c.blockNum) (hk : k ≤ n.solidified) :
    ((n.recorded (n.admission c x)).get k).getD ∅ = n.signersAt k := by
  rw [getD_recorded]; refine if_neg ?_; rintro rfl
  exact Int64.not_le.mpr hnum hk

/-- Finality does not fall. -/
lemma solidified_le_count (n : Node) (c : PbftCommit) (x : Bytes) :
    n.solidified ≤ (n.count (n.admission c x)).solidified := by
  cases h : newSolidified (n.recorded (n.admission c x)) (n.admission c x) with
  | none =>
    rw [solidified_count_of_none h]; exact Int64.le_refl _
  | some =>
    rw [solidified_count_of_some h]; exact Int64.le_of_lt (newSolidified_eq_some h).1

lemma signersAt_count_of_le (hk : (n.count a).solidified ≤ k) :
    (n.count a).signersAt k = ((n.recorded a).get k).getD ∅ := by
  cases h : newSolidified (n.recorded a) a with
  | none => exact signersAt_count_of_none h k
  | some =>
    rw [solidified_count_of_some h] at hk; rw [signersAt_count_of_some h, if_pos hk]

/-- Where finality has passed, nothing is left. -/
lemma signersAt_count_of_lt (hk : k < (n.count a).solidified) :
    (n.count a).signersAt k = ∅ ∨ (n.count a).solidified = n.solidified := by
  cases h : newSolidified (n.recorded a) a with
  | none => exact .inr (solidified_count_of_none h)
  | some =>
    rw [solidified_count_of_some h] at hk; rw [signersAt_count_of_some h, if_neg (Int64.not_le.mpr hk)]
    exact .inl rfl

/-- A height that becomes final has a quorum. -/
lemma hasQuorum_of_le_count (h1 : 1 ≤ k) (hlow : n.solidified < k) (hk : k ≤ (n.count a).solidified) :
    k ≤ a.head ∧ HasQuorum (n.recorded a) a.totalSrs k := by
  cases h : newSolidified (n.recorded a) a with
  | none =>
    rw [solidified_count_of_none h] at hk; exact absurd hk (Int64.not_le.mpr hlow)
  | some =>
    rw [solidified_count_of_some h] at hk; obtain ⟨-, -, hle, hquorum⟩ := newSolidified_eq_some h
    exact ⟨Int64.le_trans hk hle, hquorum k h1 hk⟩

end Node

/-- The signature of the commit recovers to this witness. -/
def PbftCommit.SignedBy (c : PbftCommit) (x : Bytes) : Prop :=
  ∃ signer, c.recoverSigner pf = some signer ∧ x = signer.asBytes

/-- The bytes are a commit `c` that passes the gates as one of the witness `x`. -/
structure Admits (n : Node) (bytes : Bytes) (c : PbftCommit) (x : Bytes) : Prop where
  decoded : PbftCommit.decode bytes = some c
  signed : c.SignedBy pf x
  active : x ∈ n.world.getActiveWitnesses
  accept : acceptPbftMessage (n.world.getProp .allowPbft = 1) c.blockNum n.head n.solidified = true

/-- Moreover, the witness has not been counted for the height. -/
structure Counts (n : Node) (bytes : Bytes) (c : PbftCommit) (x : Bytes) : Prop extends
    Admits pf n bytes c x where
  fresh : x ∉ n.signersAt c.blockNum

section Handlers
variable {pf cfg} {n : Node} {bytes : Bytes}

lemma Admits.window {c : PbftCommit} {x : Bytes} (h : Admits pf n bytes c x) :
    n.solidified < c.blockNum ∧ c.blockNum ≤ n.head.saturatingAdd maxPbftFutureBlocks := by
  have hacc := h.accept; simp only [acceptPbftMessage, Bool.and_eq_true, decide_eq_true_eq] at hacc
  exact ⟨hacc.1.2, hacc.2⟩

/-- A commit is admitted, or nothing is. -/
lemma readCommit_eq_some {a : Admission} :
    readCommit pf n bytes = some a ↔ ∃ c x, Admits pf n bytes c x ∧ a = n.admission c x := by
  unfold readCommit
  constructor
  · intro h
    split at h
    · rename_i hpbft; obtain ⟨c, hdec, h⟩ := Option.bind_eq_some_iff.mp h
      obtain ⟨signer, hrec, h⟩ := Option.bind_eq_some_iff.mp h
      dsimp only at h
      split at h
      · rename_i hok; cases h
        exact ⟨c, signer.asBytes, ⟨hdec, ⟨signer, hrec, rfl⟩, hok.1, by simpa [hpbft] using hok.2⟩, rfl⟩
      · cases h
    · cases h
  · rintro ⟨c, x, ⟨hdec, ⟨signer, hrec, rfl⟩, hact, hacc⟩, rfl⟩
    have hpbft : n.world.getProp .allowPbft = 1 := by by_contra hne; simp [acceptPbftMessage, hne] at hacc
    simp only [hpbft, decide_true] at hacc; simp [hpbft, hdec, hrec, hact, hacc, Node.admission]

/-- A commit is counted, or nothing happens. -/
lemma onPbftCommit_cases (pf : Platform) (n : Node) (bytes : Bytes) :
    (∃ c x, Counts pf n bytes c x ∧ onPbftCommit pf n bytes = (true, n.count (n.admission c x))) ∨
      (∀ c x, ¬ Counts pf n bytes c x) ∧ onPbftCommit pf n bytes = (false, n) := by
  unfold onPbftCommit
  cases h : readCommit pf n bytes with
  | none =>
    refine .inr ⟨fun c x hc => ?_, rfl⟩; have hsome := readCommit_eq_some.mpr ⟨c, x, hc.toAdmits, rfl⟩
    rw [h] at hsome; cases hsome
  | some =>
    obtain ⟨c, x, hadm, rfl⟩ := readCommit_eq_some.mp h
    by_cases hs : x ∈ n.signersAt c.blockNum
    · refine .inr ⟨fun c' x' hc => ?_, if_pos hs⟩
      have hsome := readCommit_eq_some.mpr ⟨c', x', hc.toAdmits, rfl⟩
      rw [h] at hsome; cases hsome; exact hc.fresh hs
    · exact .inl ⟨c, x, ⟨hadm, hs⟩, if_neg hs⟩

end Handlers

/-- What a call of `on_pbft_commit` leaves alone, and how it moves finality. -/
structure Confirms (n m : Node) : Prop where
  head : m.head = n.head
  blocks : ∀ k, m.world.getBlockByNum k = n.world.getBlockByNum k
  transactions : m.world.transaction = n.world.transaction
  mempool : m.mempool = n.mempool
  witnesses : m.world.getActiveWitnesses = n.world.getActiveWitnesses
  mono : n.solidified ≤ m.solidified
  within : m.solidified = n.solidified ∨ m.solidified ≤ n.head

lemma Confirms.refl (n : Node) : Confirms n n :=
  ⟨rfl, fun _ => rfl, rfl, rfl, rfl, le_iff_toInt_le.mpr le_rfl, .inl rfl⟩

lemma confirms_onPbftCommit (pf : Platform) (n : Node) (bytes : Bytes) : Confirms n (onPbftCommit pf n bytes).2 := by
  obtain ⟨c, x, -, heq⟩ | ⟨-, heq⟩ := onPbftCommit_cases pf n bytes
  · rw [heq]; show Confirms n (n.count (n.admission c x))
    have hmoved : n.solidified ≤ (n.count (n.admission c x)).solidified ∧
        ((n.count (n.admission c x)).solidified = n.solidified ∨
          (n.count (n.admission c x)).solidified ≤ n.head) := by
      cases hs : newSolidified (n.recorded (n.admission c x)) (n.admission c x) with
      | none =>
        rw [Node.solidified_count_of_none hs]; exact ⟨le_iff_toInt_le.mpr le_rfl, .inl rfl⟩
      | some solid =>
        obtain ⟨hlt, -, hle, -⟩ := newSolidified_eq_some hs
        have hlt' : n.solidified.toInt < solid.toInt := lt_iff_toInt_lt.mp hlt
        rw [Node.solidified_count_of_some hs, le_iff_toInt_le]; exact ⟨by omega, .inr hle⟩
    exact ⟨Node.head_count _ _, Node.getBlockByNum_count _ _, Node.transaction_count _ _, Node.mempool_count _ _,
      Node.getActiveWitnesses_count _ _, hmoved.1, hmoved.2⟩
  · rw [heq]; exact .refl n

lemma head_onPbftCommit (pf : Platform) (n : Node) (bytes : Bytes) : (onPbftCommit pf n bytes).2.head = n.head :=
  (confirms_onPbftCommit pf n bytes).head

lemma confirms_emitCommit (pf : Platform) (cfg : NodeConfig) (n : Node) (blockNum : Int64) (blockId : H256) :
    Confirms n (emitCommit pf cfg n blockNum blockId).2 := by
  unfold emitCommit
  cases cfg.witness with
  | none => exact .refl n
  | some w =>
    dsimp only
    split
    · cases w.signDigest (PbftCommit.digest pf blockNum blockId) with
      | none => exact .refl n
      | some => exact confirms_onPbftCommit pf n _
    · exact .refl n

/-- The commit that a witness sends for a block, encoded. -/
def blockCommit (w : WorldState) (bytes : Bytes) : Option Bytes :=
  (pf.codec.decodeBlock bytes).bind fun b => b.raw?.bind fun raw => (blockIdOf pf b).bind fun id =>
    cfg.witness.bind fun key =>
      if w.getProp .allowPbft = 1 ∧ key.address.asBytes ∈ w.getActiveWitnesses then
        (key.signDigest (PbftCommit.digest pf raw.number id)).map fun sig =>
          (⟨raw.number, id, sig.toBytes, sig.length_toBytes⟩ : PbftCommit).encode
      else none

/-- A commit arrives, if there is one. -/
def receive (n : Node) (commit : Option Bytes) : Node := commit.elim n fun bytes => (onPbftCommit pf n bytes).2

section Handlers
variable {pf cfg} {n : Node} {bytes : Bytes} {w : WorldState} {b : Block}

lemma commitToBlock_eq (n : Node) (bytes : Bytes) :
    commitToBlock pf cfg n bytes = receive pf n (blockCommit pf cfg n.world bytes) := by
  unfold commitToBlock blockCommit
  cases pf.codec.decodeBlock bytes with
  | none => rfl
  | some b =>
    dsimp only [Option.bind_some]
    cases b.raw? with
    | none => rfl
    | some raw =>
      cases blockIdOf pf b with
      | none => rfl
      | some id =>
        unfold emitCommit; dsimp only [Option.bind_some]
        cases cfg.witness with
        | none => rfl
        | some key =>
          dsimp only [Option.bind_some]
          split
          · cases key.signDigest (PbftCommit.digest pf raw.number id) <;> rfl
          · rfl

/-- The commit names the block. -/
lemma blockCommit_eq_some {commit : Bytes} (h : blockCommit pf cfg w bytes = some commit) :
    ∃ b c, pf.codec.decodeBlock bytes = some b ∧ commit = PbftCommit.encode c ∧ c.blockNum = b.number ∧
      blockIdOf pf b = some c.blockId := by
  obtain ⟨b, hdec, h⟩ := Option.bind_eq_some_iff.mp h
  obtain ⟨raw, hraw, h⟩ := Option.bind_eq_some_iff.mp h
  obtain ⟨id, hid, h⟩ := Option.bind_eq_some_iff.mp h
  obtain ⟨key, -, h⟩ := Option.bind_eq_some_iff.mp h
  split at h
  · obtain ⟨sig, -, rfl⟩ := Option.map_eq_some_iff.mp h
    refine ⟨b, _, hdec, rfl, ?_, hid⟩; rw [Block.number, hraw]; rfl
  · cases h

lemma blockCommit_congr {w' : WorldState} (hpbft : w.getProp .allowPbft = w'.getProp .allowPbft)
    (hact : w.getActiveWitnesses = w'.getActiveWitnesses) :
    blockCommit pf cfg w bytes = blockCommit pf cfg w' bytes := by
  unfold blockCommit; rw [hpbft, hact]

lemma blockCommit_of_no_witness (h : cfg.witness = none) (w : WorldState) : blockCommit pf cfg w bytes = none := by
  unfold blockCommit; rw [h]
  cases pf.codec.decodeBlock bytes with
  | none => rfl
  | some b =>
    dsimp only [Option.bind_some]; cases b.raw? <;> cases blockIdOf pf b <;> rfl

lemma confirms_receive (pf : Platform) (n : Node) (commit : Option Bytes) : Confirms n (receive pf n commit) := by
  cases commit with
  | none => exact .refl n
  | some bytes => exact confirms_onPbftCommit pf n bytes

/-- A block that goes through the gate of the node and is the next one. -/
abbrev Next (pf : Platform) (cfg : NodeConfig) (n : Node) (bytes : Bytes) (b : Block) : Prop :=
  NextBlock pf cfg.requireSig n.gate n.world bytes b

lemma onBlock_eq_of_next (h : Next pf cfg n bytes b) :
    onBlock pf cfg n bytes = (some (commitToBlock pf cfg (n.store pf b) bytes).head,
      commitToBlock pf cfg (n.store pf b) bytes) := by
  unfold onBlock; rw [h.applySyncedBlocksGated_eq]; rfl

lemma onBlock_of_next (h : Next pf cfg n bytes b) :
    (onBlock pf cfg n bytes).2 = receive pf (n.store pf b) (blockCommit pf cfg n.world bytes) := by
  have hworld : blockCommit pf cfg (n.store pf b).world bytes = blockCommit pf cfg n.world bytes :=
    blockCommit_congr (Node.getProp_store pf n b (by decide) (by decide)) (Node.getActiveWitnesses_store pf n b)
  rw [onBlock_eq_of_next h, ← hworld, ← commitToBlock_eq]

lemma onBlock_of_no_witness (hw : cfg.witness = none) (h : Next pf cfg n bytes b) :
    (onBlock pf cfg n bytes).2 = n.store pf b := by
  rw [onBlock_of_next h, blockCommit_of_no_witness hw]; rfl

lemma onBlock_eq_of_not_next (h : ∀ b, ¬ Next pf cfg n bytes b) : onBlock pf cfg n bytes = (none, n) := by
  have hw : wp (applySyncedBlocksGated pf [bytes] cfg.requireSig n.gate) n.world
      (fun _ t => False) (fun _ t => t = n.world) := by
    rw [applySyncedBlocksGated, applyBlocksFrom, wp_bind]
    refine wp_mono wp_applySyncedBlock ?_ fun _ t ht => ht
    rintro _ t ⟨b, hb, -⟩; exact absurd hb (h b)
  unfold onBlock
  cases hr : applySyncedBlocksGated pf [bytes] cfg.requireSig n.gate n.world with
  | ok => exact (ok_of_wp hw hr).elim
  | error =>
    obtain rfl := error_of_wp hw hr; rfl

lemma onBlock_of_not_next (h : ∀ b, ¬ Next pf cfg n bytes b) : (onBlock pf cfg n bytes).2 = n := by
  rw [onBlock_eq_of_not_next h]

end Handlers

end TronRs

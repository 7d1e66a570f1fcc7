import TronRs.Core.Bytes

/-!
# The routing table of node discovery

`crates/p2p/src/discovery.rs`: node ids are compared by the number of leading bits they share, and a
table keeps the known nodes in one bucket for each number of bits shared with the local id. A bucket
lists the nodes from the least to the most recently seen one; the first makes room in a full bucket.

* `free_insert`: an insertion takes a free place of the table exactly when it reports `added`, and
  otherwise leaves the buckets as full as they were.
-/
namespace TronRs.Discovery

open TronRs.Core

def nodeIdLen : Nat := 32
def idBits : Nat := nodeIdLen * 8
def kBucketSize : Nat := 16

/-- A discovery node id. Mirrors p2p/discovery.rs:24. -/
structure NodeId where
  bytes : Bytes
  size : bytes.length = nodeIdLen
  deriving DecidableEq

/-! ## Closeness -/

def leadingZeros (x : UInt8) : UInt32 := if x = 0 then 8 else UInt32.ofNat (7 - x.toNat.log2)

/-- The loop of `common_prefix_bits`, after `bits` equal bits. -/
def prefixBitsFrom (bits : UInt32) : Bytes → Bytes → UInt32
  | x :: a, y :: b => if x = y then prefixBitsFrom (bits + 8) a b else bits + leadingZeros (x ^^^ y)
  | _, _ => bits

/-- Mirrors p2p/discovery.rs:28. -/
def commonPrefixBits (a b : Bytes) : UInt32 := prefixBitsFrom 0 a b

/-! ## Nodes -/

/-- Mirrors p2p/discovery.rs:56. -/
structure Endpoint where
  ip : UInt32
  udpPort : UInt16
  tcpPort : UInt16
  deriving DecidableEq

/-- Mirrors p2p/discovery.rs:75. -/
structure Node where
  id : NodeId
  endpoint : Endpoint
  deriving DecidableEq

/-! ## The table -/

/-- Mirrors p2p/discovery.rs:88. -/
inductive InsertOutcome where
  | added
  | refreshed
  | evictedOldest (id : NodeId)
  | ignored
  deriving DecidableEq

/-- Mirrors p2p/discovery.rs:105. A table without room in its buckets would panic on the first insertion. -/
structure RoutingTable where
  localId : NodeId
  buckets : Fin idBits → List Node
  k : Nat
  kPos : 0 < k

/-- What an insertion does to its bucket. -/
def insertBucket {k : Nat} (hk : 0 < k) (bucket : List Node) (node : Node) : InsertOutcome × List Node :=
  match bucket.find? (·.id = node.id) with
  | some existing =>
    (.refreshed, bucket.eraseP (·.id = node.id) ++ [{ existing with endpoint := node.endpoint }])
  | none =>
    if h : bucket.length < k then (.added, bucket ++ [node])
    else
      have hne : bucket ≠ [] := fun heq => h (by rw [heq]; exact hk)
      (.evictedOldest (bucket.head hne).id, bucket.tail ++ [node])

namespace RoutingTable
variable (t : RoutingTable)

/-- Mirrors p2p/discovery.rs:116. -/
def new (localId : NodeId) : RoutingTable := ⟨localId, fun _ => [], kBucketSize, by decide⟩

/-- Mirrors p2p/discovery.rs:122. -/
def withK (localId : NodeId) {k : Nat} (hk : 0 < k) : RoutingTable := ⟨localId, fun _ => [], k, hk⟩

/-- Mirrors p2p/discovery.rs:127. -/
def bucketIndex (id : NodeId) : Option (Fin idBits) :=
  let cpb := (commonPrefixBits t.localId.bytes id.bytes).toNat
  if h : idBits ≤ cpb then none else some ⟨idBits - 1 - cpb, by unfold idBits nodeIdLen at *; omega⟩

/-- Mirrors p2p/discovery.rs:137. -/
def insert (node : Node) : InsertOutcome × RoutingTable :=
  match t.bucketIndex node.id with
  | none => (.ignored, t)
  | some idx =>
    let (outcome, bucket) := insertBucket t.kPos (t.buckets idx) node
    (outcome, { t with buckets := Function.update t.buckets idx bucket })

/-- Mirrors p2p/discovery.rs:169. -/
def allNodes : List Node := (List.finRange idBits).flatMap t.buckets

/-- The `count` nodes closest to a target. Mirrors p2p/discovery.rs:158. -/
def closest (target : NodeId) (count : Nat) : List Node :=
  (t.allNodes.insertionSort fun a b =>
    commonPrefixBits target.bytes b.id.bytes ≤ commonPrefixBits target.bytes a.id.bytes).take count

end RoutingTable

/-! ## Free places -/

/-- A bucket gets longer by an addition, when it has room, and keeps its length otherwise. -/
lemma length_insertBucket {k : Nat} (hk : 0 < k) (bucket : List Node) (node : Node) :
    (insertBucket hk bucket node).1 = .added ∧ bucket.length < k ∧
        (insertBucket hk bucket node).2.length = bucket.length + 1 ∨
      (insertBucket hk bucket node).1 ≠ .added ∧ (insertBucket hk bucket node).2.length = bucket.length := by
  unfold insertBucket
  cases hfind : bucket.find? (·.id = node.id) with
  | some =>
    have hmem := List.mem_of_find?_eq_some hfind
    have hlen := List.length_eraseP_of_mem hmem (List.find?_some hfind)
    have hpos := List.length_pos_of_mem hmem; refine .inr ⟨by simp, ?_⟩; dsimp only
    rw [List.length_append, hlen, List.length_singleton]; omega
  | none =>
    dsimp only
    by_cases h : bucket.length < k
    · rw [dif_pos h]; exact .inl ⟨rfl, h, List.length_append⟩
    · rw [dif_neg h]; refine .inr ⟨by simp, ?_⟩; dsimp only
      rw [List.length_append, List.length_tail, List.length_singleton]; omega

namespace RoutingTable
variable {t : RoutingTable} (node : Node)

/-- The free places of a table. -/
def free (t : RoutingTable) : Nat := ∑ i, (t.k - (t.buckets i).length)

lemma free_le (t : RoutingTable) : t.free ≤ idBits * t.k := by
  have h := Finset.sum_le_card_nsmul Finset.univ (fun i => t.k - (t.buckets i).length) t.k fun i _ => Nat.sub_le _ _
  rwa [Finset.card_univ, Fintype.card_fin, smul_eq_mul] at h

@[simp] lemma k_insert : (t.insert node).2.k = t.k := by
  unfold insert; split <;> rfl

@[simp] lemma localId_insert : (t.insert node).2.localId = t.localId := by
  unfold insert; split <;> rfl

/-- An addition takes a free place, and nothing else changes how many there are. -/
lemma free_insert : (t.insert node).2.free + (if (t.insert node).1 = .added then 1 else 0) = t.free := by
  unfold insert
  cases t.bucketIndex node.id with
  | none => simp
  | some idx =>
    dsimp only [free]
    -- the sum over the buckets differs in the one that was written
    have hother : ∀ bucket, ∑ i ∈ Finset.univ.erase idx, (t.k - (Function.update t.buckets idx bucket i).length) =
        ∑ i ∈ Finset.univ.erase idx, (t.k - (t.buckets i).length) := fun bucket =>
      Finset.sum_congr rfl fun i hi => by rw [Function.update_of_ne (Finset.ne_of_mem_erase hi)]
    rw [← Finset.add_sum_erase _ _ (Finset.mem_univ idx), hother, Function.update_self,
      ← Finset.add_sum_erase _ (fun i => t.k - (t.buckets i).length) (Finset.mem_univ idx)]
    rcases length_insertBucket t.kPos (t.buckets idx) node with ⟨hadded, hroom, hlen⟩ | ⟨hother, hlen⟩
    · rw [if_pos hadded, hlen]; omega
    · rw [if_neg hother, hlen]; rfl

end RoutingTable
end TronRs.Discovery

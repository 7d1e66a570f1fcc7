import TronRs.Core.Recency
import TronRs.L4P2p.Metric

/-!
# The buckets of the routing table

After any insertions every bucket holds the ids inserted last among those that belong to it.

* `bucketIndex_eq_none`: every id but the local one belongs to a bucket.
* `routing_table_lru`: the buckets hold the most recent ids in the order of their last insertion,
  and an eviction is reported exactly when an id leaves the table.
-/
namespace TronRs.Discovery

open TronRs.Core

/-! ## Every other id has a bucket -/

namespace RoutingTable
variable {t : RoutingTable}

/-- Only the local id has no bucket. -/
lemma bucketIndex_eq_none {id : NodeId} : t.bucketIndex id = none ↔ id = t.localId := by
  have h := t.bucketIndex_eq id
  constructor
  · intro hnone; by_contra hid; rw [hnone, if_neg hid] at h
    cases h
  · intro hid; rw [if_pos hid] at h; exact Option.map_eq_none_iff.mp h

/-! ## One insertion -/

end RoutingTable

variable {x : NodeId}

section
variable {k : Nat} (hk : 0 < k) {bucket : List Node} {node : Node}

lemma insertBucket_eq_touch (bucket : List Node) (node : Node) :
    (insertBucket hk bucket node).2 = touch Node.id k bucket node := by
  unfold insertBucket touch
  cases hfind : bucket.find? (·.id = node.id) with
  | some existing =>
    have hid : existing.id = node.id := by simpa using List.find?_some hfind
    have hany : bucket.any (·.id = node.id) = true := by
      rw [List.any_eq_true]; exact ⟨existing, List.mem_of_find?_eq_some hfind, by simpa using hid⟩
    rw [if_pos hany]; dsimp only; rw [hid]
  | none =>
    have hany : ¬ bucket.any (·.id = node.id) = true := by
      rw [List.any_eq_true]; intro h; obtain ⟨n, hn, hid⟩ := h
      exact List.find?_eq_none.mp hfind n hn hid
    rw [if_neg hany]; dsimp only; split <;> rfl

/-- An eviction is reported for the id that is in the bucket before and not after. -/
lemma insertBucket_evicted_iff (hnodup : (bucket.map Node.id).Nodup) :
    (insertBucket hk bucket node).1 = .evictedOldest x ↔
      x ∈ bucket.map Node.id ∧ x ∉ (insertBucket hk bucket node).2.map Node.id := by
  unfold insertBucket
  cases hfind : bucket.find? (·.id = node.id) with
  | some existing =>
    -- a refreshed node stays, and so do the others
    have hid : existing.id = node.id := by simpa using List.find?_some hfind
    have hkept : ∀ n ∈ bucket, n.id ∈ List.map Node.id
        (bucket.eraseP (fun m : Node => m.id = node.id) ++ [{ existing with endpoint := node.endpoint }]) := by
      intro n hn
      by_cases hsame : n.id = node.id
      · simp [hsame, hid]
      · have hmem : n ∈ bucket.eraseP (fun m : Node => m.id = node.id) :=
          (List.mem_eraseP_of_neg (by simpa using hsame)).mpr hn
        exact List.mem_map_of_mem (List.mem_append_left _ hmem)
    refine ⟨fun h => (by cases h), fun h => ?_⟩; obtain ⟨n, hn, rfl⟩ := List.mem_map.mp h.1
    exact absurd (hkept n hn) h.2
  | none =>
    have hnew : ∀ n ∈ bucket, n.id ≠ node.id := fun n hn => by simpa using List.find?_eq_none.mp hfind n hn
    dsimp only
    split
    · refine ⟨fun h => (by cases h), fun h => absurd ?_ h.2⟩; rw [List.map_append]
      exact List.mem_append_left _ h.1
    rename_i hfull
    obtain ⟨oldest, rest, rfl⟩ := List.exists_cons_of_length_pos (l := bucket) (by omega)
    rw [List.map_cons, List.nodup_cons] at hnodup
    simp only [List.head_cons, List.tail_cons, InsertOutcome.evictedOldest.injEq, List.map_cons, List.mem_cons,
      List.map_append, List.mem_append, List.map_nil, List.not_mem_nil, or_false]
    constructor
    · intro h; subst h; exact ⟨.inl rfl, fun h => h.elim hnodup.1 (hnew oldest List.mem_cons_self)⟩
    intro h
    obtain ⟨hx | hx, hout⟩ := h
    · exact hx.symm
    · exact absurd (.inl hx) hout

end

namespace RoutingTable
variable {t : RoutingTable} {n : Node} {nodes : List Node}

lemma bucketIndex_congr {u : RoutingTable} (h : u.localId = t.localId) (id : NodeId) :
    u.bucketIndex id = t.bucketIndex id := by
  simp only [bucketIndex, h]

lemma mem_allNodes : n ∈ t.allNodes ↔ ∃ i, n ∈ t.buckets i := by simp [allNodes]

/-- An insertion writes the bucket of its node, and only the local id has none. -/
lemma buckets_insert (node : Node) (i : Fin idBits) : (t.insert node).2.buckets i =
    if t.bucketIndex node.id = some i then touch Node.id t.k (t.buckets i) node else t.buckets i := by
  unfold insert
  cases hidx : t.bucketIndex node.id with
  | none => simp
  | some idx =>
    dsimp only; rw [insertBucket_eq_touch, Function.update_apply]
    by_cases hi : i = idx
    · rw [hi, if_pos rfl, if_pos rfl]
    · rw [if_neg hi, if_neg fun h => hi (Option.some.inj h).symm]

/-! ## Any number of insertions -/

def insertAll (t : RoutingTable) (nodes : List Node) : RoutingTable := nodes.foldl (fun t node => (t.insert node).2) t

/-- Every bucket holds the nodes inserted last, of those that belong to it. -/
def Tracks (t : RoutingTable) (nodes : List Node) : Prop :=
  ∀ i, Recent Node.id t.k (nodes.filter (t.bucketIndex ·.id = some i)) (t.buckets i)

variable (h : t.Tracks nodes)
include h

lemma Tracks.insert (node : Node) : (t.insert node).2.Tracks (nodes ++ [node]) := by
  intro i
  have hindex : ∀ n : Node, (t.insert node).2.bucketIndex n.id = t.bucketIndex n.id := fun n =>
    bucketIndex_congr (localId_insert node) n.id
  simp only [hindex, k_insert, buckets_insert, List.filter_append]
  by_cases hi : t.bucketIndex node.id = some i
  · rw [if_pos hi, List.filter_cons_of_pos (by simpa using hi), List.filter_nil]
    exact (h i).touch t.kPos node
  · rw [if_neg hi, List.filter_cons_of_neg (by simpa using hi), List.filter_nil, List.append_nil]
    exact h i

omit h in
lemma tracks_insertAll (localId : NodeId) {k : Nat} (hk : 0 < k) (nodes : List Node) :
    ((withK localId hk).insertAll nodes).Tracks nodes ∧ ((withK localId hk).insertAll nodes).localId = localId ∧
      ((withK localId hk).insertAll nodes).k = k := by
  induction nodes using List.reverseRecOn with
  | nil => exact ⟨fun i => ⟨by simp [insertAll, withK], by simp [insertAll, withK]⟩, rfl, rfl⟩
  | append_singleton nodes node ih =>
    obtain ⟨htracks, hlocal, hk'⟩ := ih; unfold insertAll at htracks hlocal hk' ⊢
    rw [List.foldl_append]
    exact ⟨htracks.insert node, (localId_insert node).trans hlocal, (k_insert node).trans hk'⟩

lemma Tracks.bucketIndex {i : Fin idBits} (hn : n ∈ t.buckets i) : t.bucketIndex n.id = some i := by
  have hmem : n.id ∈ (t.buckets i).map Node.id := List.mem_map_of_mem hn
  rw [(h i).keys] at hmem
  obtain ⟨m, hm, hid⟩ := List.mem_map.mp (List.mem_dedup.mp (List.mem_of_mem_drop hmem))
  rw [← hid]; simpa using (List.mem_filter.mp hm).2

lemma Tracks.nodup (i : Fin idBits) : ((t.buckets i).map Node.id).Nodup := by
  rw [(h i).keys]; exact (List.nodup_dedup _).sublist (List.drop_sublist _ _)

/-- An id is in the table exactly when it is in its bucket. -/
lemma Tracks.mem_iff : x ∈ t.allNodes.map Node.id ↔ ∃ i, t.bucketIndex x = some i ∧ x ∈ (t.buckets i).map Node.id := by
  constructor
  · intro hx; obtain ⟨n, hn, rfl⟩ := List.mem_map.mp hx
    obtain ⟨i, hi⟩ := mem_allNodes.mp hn; exact ⟨i, h.bucketIndex hi, List.mem_map_of_mem hi⟩
  · intro hx; obtain ⟨i, -, hx⟩ := hx
    obtain ⟨n, hn, rfl⟩ := List.mem_map.mp hx; exact List.mem_map_of_mem (mem_allNodes.mpr ⟨i, hn⟩)

/-- An eviction is reported exactly when an id leaves the table. -/
lemma Tracks.evicted_iff (node : Node) (x : NodeId) : (t.insert node).1 = .evictedOldest x ↔
      x ∈ t.allNodes.map Node.id ∧ x ∉ (t.insert node).2.allNodes.map Node.id := by
  have hindex : (t.insert node).2.bucketIndex x = t.bucketIndex x := bucketIndex_congr (localId_insert node) x
  rw [h.mem_iff, (h.insert node).mem_iff, hindex]
  cases hidx : t.bucketIndex node.id with
  | none =>
    have hsame : t.insert node = (.ignored, t) := by simp [RoutingTable.insert, hidx]
    rw [hsame]; refine ⟨fun h => (by cases h), fun h => absurd h.1 h.2⟩
  | some idx =>
    have houtcome : (t.insert node).1 = (insertBucket t.kPos (t.buckets idx) node).1 := by
      simp [RoutingTable.insert, hidx]
    have hbucket : (t.insert node).2.buckets idx = (insertBucket t.kPos (t.buckets idx) node).2 := by
      rw [buckets_insert, if_pos hidx, insertBucket_eq_touch]
    rw [houtcome, insertBucket_evicted_iff t.kPos (h.nodup idx), ← hbucket]
    constructor
    · intro hx; obtain ⟨n, hn, rfl⟩ := List.mem_map.mp hx.1
      have hi := h.bucketIndex hn; refine ⟨⟨idx, hi, hx.1⟩, fun hin => ?_⟩; obtain ⟨i, hi', hin⟩ := hin
      cases hi.symm.trans hi'; exact hx.2 hin
    · intro hx; obtain ⟨⟨i, hi, hin⟩, hout⟩ := hx
      -- an id of another bucket stays
      have heq : i = idx := by
        by_contra hne; refine hout ⟨i, hi, ?_⟩
        rw [buckets_insert, hidx, if_neg fun h => hne (Option.some.inj h).symm]; exact hin
      subst heq; exact ⟨hin, fun hmem => hout ⟨i, hi, hmem⟩⟩

omit h

/-- **Every bucket is an LRU list.** After any insertions a bucket holds the `k` ids inserted last, of those other than
the local one that belong to it, the oldest first and each with its last endpoint. Every other id belongs to some
bucket, and an insertion reports the eviction of an id exactly when the id leaves the table. -/
theorem routing_table_lru (localId : NodeId) {k : Nat} (hk : 1 ≤ k) (nodes : List Node) {t : RoutingTable}
    (ht : (withK localId hk).insertAll nodes = t) : (∀ i, (t.buckets i).map Node.id =
        ((nodes.map Node.id).filter fun id => id ≠ localId ∧ t.bucketIndex id = some i).dedup.rtake k ∧
      ∀ n ∈ t.buckets i, lastUse Node.id nodes n.id = some n) ∧
    (∀ id, id ≠ localId → ∃ i, t.bucketIndex id = some i) ∧ ∀ node x, (t.insert node).1 = .evictedOldest x ↔
      x ∈ t.allNodes.map Node.id ∧ x ∉ (t.insert node).2.allNodes.map Node.id := by
  obtain ⟨htracks, hlocal, hsize⟩ := tracks_insertAll localId hk nodes
  rw [ht] at htracks hlocal hsize
  refine ⟨fun i => ⟨?_, fun n hn => ?_⟩, fun id hid => ?_, htracks.evicted_iff⟩
  · have hother : ∀ id, t.bucketIndex id = some i → id ≠ localId := by
      intro id hid heq; rw [bucketIndex_eq_none.mpr (heq.trans hlocal.symm)] at hid; cases hid
    rw [(htracks i).keys, hsize, List.filter_map]; congr 3
    refine List.filter_congr fun n _ => ?_
    simpa using hother n.id
  · -- the last insertion of an id is the last one into its bucket
    have hi := htracks.bucketIndex hn
    have hlast := (htracks i).last n hn; unfold lastUse at hlast ⊢
    rw [← List.filter_reverse, List.find?_filter] at hlast; rw [← hlast]; congr 1
    funext m
    by_cases hm : m.id = n.id
    · simp [hm, hi]
    · simp [hm]
  · rw [← Option.ne_none_iff_exists', ne_eq, bucketIndex_eq_none, hlocal]; exact hid

/-- A node whose id repeats one byte. -/
def uniformNode (b : UInt8) (port : UInt16) : Node :=
  ⟨⟨List.replicate nodeIdLen b, List.length_replicate⟩, ⟨0, port, port⟩⟩

/-- Four insertions of three ids of one bucket into a table with two places. -/
def twoPlaces : RoutingTable := (withK (uniformNode 0 0).id (show 0 < 2 by decide)).insertAll
  [uniformNode 0x80 1, uniformNode 0x81 1, uniformNode 0x82 1, uniformNode 0x81 2]

/-- The id that was refreshed comes last, and the first one has made room. -/
theorem routing_table_lru_two : (twoPlaces.buckets ⟨255, by decide⟩).map Node.id =
    [(uniformNode 0x82 1).id, (uniformNode 0x81 2).id] := by
  have ht : (withK (uniformNode 0 0).id (show 1 ≤ 2 by decide)).insertAll
      [uniformNode 0x80 1, uniformNode 0x81 1, uniformNode 0x82 1, uniformNode 0x81 2] = twoPlaces := rfl
  obtain ⟨hbuckets, -, -⟩ := routing_table_lru (uniformNode 0 0).id (show 1 ≤ 2 by decide) _ ht
  rw [(hbuckets ⟨255, by decide⟩).1]; decide +kernel

end RoutingTable
end TronRs.Discovery

import TronRs.L4P2p.RoutingTable

/-!
# Closeness as an exclusive or

`common_prefix_bits` of `crates/p2p/src/discovery.rs` stands for the exclusive or of two ids, read as a
big-endian integer. The loop counts in 32 bits, which is enough for strings of less than 2 ^ 29 bytes.

* `prefixBitsFrom_add_size`: the bits counted and the length of the exclusive or make up all bits.
* `kademlia_metric`: so closeness is symmetric, separates, is an ultrametric and orders by exclusive or.
* `counter_wraps`: a string of 2 ^ 29 bytes shares no bit with itself.
-/
namespace TronRs.Discovery

open TronRs.Core

/-- The exclusive or of two byte strings as big-endian integers. -/
def distance (a b : Bytes) : Nat := Bytes.ofBe a ^^^ Bytes.ofBe b

/-- Mirrors p2p/discovery.rs:43. -/
def isCloser (target a b : Bytes) : Bool := commonPrefixBits target b < commonPrefixBits target a

/-! ## The length of a sum -/

lemma size_eq_log2 {n : Nat} (h : n ≠ 0) : n.size = n.log2 + 1 :=
  le_antisymm (Nat.size_le.mpr Nat.lt_log2_self) (Nat.lt_size.mpr (Nat.log2_self_le h))

lemma size_mul_two_pow_add {z k r : Nat} (hz : z ≠ 0) (hr : r < 2 ^ k) : (z * 2 ^ k + r).size = z.size + k := by
  refine le_antisymm (Nat.size_le.mpr ?_) ?_
  · have hle : (z + 1) * 2 ^ k ≤ 2 ^ z.size * 2 ^ k := Nat.mul_le_mul_right _ (Nat.lt_size_self z)
    rw [Nat.pow_add]; rw [Nat.add_mul, Nat.one_mul] at hle; omega
  · rw [← Nat.size_shiftLeft hz, Nat.shiftLeft_eq]; exact Nat.size_le_size (Nat.le_add_right _ _)

lemma leadingZeros_add_size (z : UInt8) : (leadingZeros z).toNat + z.toNat.size = 8 := by
  unfold leadingZeros
  split
  · rename_i h; rw [h]; rfl
  rename_i h
  have hz : z.toNat ≠ 0 := fun h0 => h (UInt8.toNat_inj.mp h0)
  have hlog : z.toNat.log2 < 8 := (Nat.log2_lt hz).mpr z.toNat_lt
  rw [UInt32.toNat_ofNat_of_lt' (lt_of_le_of_lt (Nat.sub_le _ _) (by decide)), size_eq_log2 hz]; omega

/-! ## What the loop counts -/

lemma ofBe_lt_two_pow (b : Bytes) : Bytes.ofBe b < 2 ^ (8 * b.length) := by rw [Nat.pow_mul]; exact Bytes.ofBe_lt b

/-- Low bits and high bits do not meet in an exclusive or. -/
lemma xor_mul_two_pow_add {u u' v v' k : Nat} (hv : v < 2 ^ k) (hv' : v' < 2 ^ k) :
    (u * 2 ^ k + v) ^^^ (u' * 2 ^ k + v') = (u ^^^ u') * 2 ^ k + (v ^^^ v') := by
  rw [← Nat.div_add_mod' (_ ^^^ _) (2 ^ k), Nat.xor_div_two_pow, Nat.xor_mod_two_pow, Nat.mul_comm u, Nat.mul_comm u',
    Nat.mul_add_div (Nat.two_pow_pos k), Nat.mul_add_div (Nat.two_pow_pos k), Nat.mul_add_mod, Nat.mul_add_mod,
    Nat.div_eq_of_lt hv, Nat.div_eq_of_lt hv', Nat.mod_eq_of_lt hv, Nat.mod_eq_of_lt hv']
  rfl

lemma distance_cons {a b : Bytes} (hlen : a.length = b.length) (x y : UInt8) :
    distance (x :: a) (y :: b) = (x ^^^ y).toNat * 2 ^ (8 * a.length) + distance a b := by
  have hpow : 256 ^ a.length = 2 ^ (8 * a.length) := by rw [Nat.pow_mul]
  unfold distance; rw [Bytes.ofBe_cons, Bytes.ofBe_cons, ← hlen, hpow, UInt8.toNat_xor]
  exact xor_mul_two_pow_add (ofBe_lt_two_pow a) (hlen ▸ ofBe_lt_two_pow b)

lemma distance_lt {a b : Bytes} (hlen : a.length = b.length) : distance a b < 2 ^ (8 * a.length) :=
  Nat.xor_lt_two_pow (ofBe_lt_two_pow a) (hlen ▸ ofBe_lt_two_pow b)

/-- The bits counted and the length of the exclusive or make up all bits. -/
lemma prefixBitsFrom_add_size {a b : Bytes} {bits : UInt32} (hlen : a.length = b.length)
    (h : bits.toNat + 8 * a.length < 2 ^ 32) :
    (prefixBitsFrom bits a b).toNat + (distance a b).size = bits.toNat + 8 * a.length := by
  induction a generalizing b bits with
  | nil =>
    cases List.length_eq_zero_iff.mp hlen.symm; rfl
  | cons x a ih =>
    obtain ⟨y, b, rfl⟩ := List.exists_cons_of_length_eq_add_one hlen.symm
    rw [List.length_cons, List.length_cons, Nat.add_right_cancel_iff] at hlen
    rw [List.length_cons] at h ⊢; rw [distance_cons hlen]
    by_cases hxy : x = y
    · subst hxy
      have hbits : (bits + 8).toNat = bits.toNat + 8 := (UInt32.toNat_add _ _).trans (Nat.mod_eq_of_lt (by simp; omega))
      have hrest := @ih b (bits + 8) hlen (by omega)
      rw [prefixBitsFrom, if_pos rfl, UInt8.xor_self]
      simp only [UInt8.toNat_zero, Nat.zero_mul, Nat.zero_add]; omega
    · have hz : (x ^^^ y).toNat ≠ 0 := fun h0 => hxy (UInt8.xor_eq_zero_iff.mp (UInt8.toNat_inj.mp h0))
      have hsum := leadingZeros_add_size (x ^^^ y)
      rw [prefixBitsFrom, if_neg hxy, size_mul_two_pow_add hz (distance_lt hlen), UInt32.toNat_add,
        Nat.mod_eq_of_lt (by omega)]; omega

section
variable {a b c : Bytes}

lemma commonPrefixBits_add_size (hlen : a.length = b.length) (h : a.length < 2 ^ 29) :
    (commonPrefixBits a b).toNat + (distance a b).size = 8 * a.length := by
  have hzero : (0 : UInt32).toNat = 0 := rfl
  rw [commonPrefixBits, prefixBitsFrom_add_size hlen (by omega), hzero, Nat.zero_add]

lemma distance_comm (a b : Bytes) : distance a b = distance b a := Nat.xor_comm _ _

lemma distance_eq_zero (hlen : a.length = b.length) : distance a b = 0 ↔ a = b := by
  rw [distance, Nat.xor_eq_zero_iff]; refine ⟨fun heq => ?_, fun heq => by rw [heq]⟩
  rw [← Bytes.be_ofBe a, ← Bytes.be_ofBe b, heq, hlen]

/-- The strong triangle inequality. -/
lemma size_distance_le (a b c : Bytes) : (distance a c).size ≤ max (distance a b).size (distance b c).size := by
  have hsplit : distance a c = distance a b ^^^ distance b c := by
    rw [distance, distance, distance, Nat.xor_assoc, ← Nat.xor_assoc (Bytes.ofBe b), Nat.xor_self, Nat.zero_xor]
  rw [hsplit]
  exact Nat.size_le.mpr (Nat.xor_lt_two_pow (Nat.size_le.mp (le_max_left _ _)) (Nat.size_le.mp (le_max_right _ _)))

lemma NodeId.eq_of_bytes {a b : NodeId} (h : a.bytes = b.bytes) : a = b := by
  cases a; cases b; rw [NodeId.mk.injEq]
  exact h

/-- A bucket is the position of the highest bit in which the ids differ; only the local id has none. -/
lemma RoutingTable.bucketIndex_eq (t : RoutingTable) (id : NodeId) : (t.bucketIndex id).map Fin.val =
    if id = t.localId then none else some (distance t.localId.bytes id.bytes).log2 := by
  have hlen : t.localId.bytes.length = id.bytes.length := by rw [t.localId.size, id.size]
  have hsum := commonPrefixBits_add_size hlen (by rw [t.localId.size]; decide)
  have hbits : 8 * t.localId.bytes.length = idBits := by rw [t.localId.size]; rfl
  unfold bucketIndex; dsimp only
  by_cases hid : id = t.localId
  · have hzero : distance t.localId.bytes id.bytes = 0 := (distance_eq_zero hlen).mpr (by rw [hid])
    rw [hzero, Nat.size_zero] at hsum; rw [if_pos hid, dif_pos (by omega), Option.map_none]
  have hne : distance t.localId.bytes id.bytes ≠ 0 := fun h0 =>
    hid (NodeId.eq_of_bytes ((distance_eq_zero hlen).mp h0).symm)
  rw [size_eq_log2 hne] at hsum; rw [if_neg hid, dif_neg (by omega), Option.map_some, Option.some_inj]
  show idBits - 1 - _ = _; omega

/-- **The closest nodes.** `closest` returns as many nodes of the table as it is asked for, or all of
them, nearest first, and none that it leaves out is nearer; distances are compared by their length in bits. -/
theorem RoutingTable.closest_nearest (t : RoutingTable) (target : NodeId) (count : Nat) :
    (t.closest target count).length = min count t.allNodes.length ∧
      ∃ rest, (t.closest target count ++ rest).Perm t.allNodes ∧ (t.closest target count ++ rest).Pairwise
        fun x y => (distance target.bytes x.id.bytes).size ≤ (distance target.bytes y.id.bytes).size := by
  have hsum (x : Node) := commonPrefixBits_add_size (b := x.id.bytes)
    (by rw [target.size, x.id.size]) (by rw [target.size]; decide)
  let r : Node → Node → Prop := fun x y =>
    commonPrefixBits target.bytes y.id.bytes ≤ commonPrefixBits target.bytes x.id.bytes
  have : Std.Total r := ⟨fun x y => UInt32.le_total _ _⟩
  have : IsTrans Node r := ⟨fun x y z hxy hyz => UInt32.le_trans hyz hxy⟩
  have hperm := List.perm_insertionSort r t.allNodes
  have hsorted := List.pairwise_insertionSort r t.allNodes
  refine ⟨by rw [closest, List.length_take, hperm.length_eq], (t.allNodes.insertionSort r).drop count, ?_, ?_⟩
  · rw [closest, List.take_append_drop]; exact hperm
  · rw [closest, List.take_append_drop]
    refine hsorted.imp fun {x y} hxy => ?_
    have hle := UInt32.le_iff_toNat_le.mp hxy
    have hx := hsum x
    have hy := hsum y; omega

/-- **Closeness is the Kademlia metric**, on byte strings of one length below 2 ^ 29. -/
theorem kademlia_metric (hab : a.length = b.length) (hbc : b.length = c.length) (hL : a.length < 2 ^ 29) :
    commonPrefixBits a b = commonPrefixBits b a ∧ ((commonPrefixBits a b).toNat = 8 * a.length ↔ a = b) ∧
    min (commonPrefixBits a b).toNat (commonPrefixBits b c).toNat ≤ (commonPrefixBits a c).toNat ∧
    (a ≠ b → 2 ^ (8 * a.length - 1 - (commonPrefixBits a b).toNat) ≤ distance a b ∧
      distance a b < 2 ^ (8 * a.length - (commonPrefixBits a b).toNat)) ∧
    (isCloser a b c = true → distance b a < distance c a) ∧
    ∀ (t : RoutingTable) (id : NodeId), (t.bucketIndex id).map Fin.val =
      if id = t.localId then none else some (distance t.localId.bytes id.bytes).log2 := by
  have h := commonPrefixBits_add_size hab hL
  have h' := commonPrefixBits_add_size hab.symm (hab ▸ hL)
  have hac := commonPrefixBits_add_size (hab.trans hbc) hL
  have hbc' := commonPrefixBits_add_size hbc (hab ▸ hL)
  refine ⟨?_, ?_, ?_, fun hne => ?_, fun hcloser => ?_, RoutingTable.bucketIndex_eq⟩
  · rw [distance_comm] at h'; rw [← UInt32.toNat_inj]; omega
  · rw [← distance_eq_zero hab, ← Nat.size_eq_zero]; omega
  · have htri := size_distance_le a b c; omega
  · have hpos : (distance a b).size ≠ 0 := fun h0 => hne ((distance_eq_zero hab).mp (Nat.size_eq_zero.mp h0))
    exact ⟨Nat.lt_size.mp (by omega), Nat.size_le.mp (by omega)⟩
  · have hlt := UInt32.lt_iff_toNat_lt.mp (of_decide_eq_true hcloser)
    have hsize : (distance a b).size < (distance a c).size := by omega
    rw [distance_comm b, distance_comm c]; exact (Nat.lt_size_self _).trans_le (Nat.lt_size.mp hsize)

/-- Three strings of one byte. -/
theorem kademlia_metric_bytes : (commonPrefixBits [0x0f] [0x0e]).toNat = 7 ∧ isCloser [0x0f] [0x0e] [0x1f] = true ∧
    distance [0x0e] [0x0f] < distance [0x1f] [0x0f] :=
  ⟨by decide, by decide,
    (kademlia_metric (a := [0x0f]) (b := [0x0e]) (c := [0x1f]) rfl rfl (by decide)).2.2.2.2.1 (by decide)⟩

/-- The counter wraps to zero on 2 ^ 29 equal bytes. -/
theorem counter_wraps : ∃ a : Bytes, a.length = 2 ^ 29 ∧ (commonPrefixBits a a).toNat ≠ 8 * a.length := by
  refine ⟨List.replicate (2 ^ 29) 0, List.length_replicate, ?_⟩; rw [List.length_replicate]
  exact (UInt32.toNat_lt _).ne

end

end TronRs.Discovery

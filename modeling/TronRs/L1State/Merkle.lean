import TronRs.Core.Merkle
import TronRs.L1State.Chain

/-!
# The transaction root

`merkle_root` of `crates/chain/src/lib.rs` goes up level by level; what it computes is a tree hash
defined by recursion on the list of leaves.

* `merkleRoot_eq_treeHash`: the two agree on every list.
* `merkleRoot_binding`: a root stands for one list of a given length, as far as the hash does not
  collide on what is hashed for it.
-/
namespace TronRs

open TronRs.Core

variable (pf : Platform)

/-- The hash of two neighbours. -/
def parentHash (left right : H256) : H256 := pf.crypto.sha256 (left.bytes ++ right.bytes)

/-- The tree hash: zero for no leaves, the leaf itself for one, and otherwise the hash of the roots of the first
`Merkle.split n` leaves and of the others. -/
def treeHash (hashes : List H256) : H256 := Merkle.tree (parentHash pf) H256.zero hashes

/-- The 64-byte strings that are hashed for a root, level by level. -/
def merkleInputs (hashes : List H256) : List Bytes :=
  (Merkle.joined (parentHash pf) hashes.length hashes).map fun p => p.1.bytes ++ p.2.bytes

/-- The leaves of a block. -/
def Block.leaves (b : Block) : List H256 := b.transactions.map (txMerkleLeaf pf)

/-! ## The loop is an instance of the library's -/

lemma merkleLevel_eq (hashes : List H256) : merkleLevel pf hashes = Merkle.level (parentHash pf) hashes := by
  fun_induction merkleLevel pf hashes with
  | case1 left right rest ih => rw [Merkle.level, ih, parentHash]
  | case2 rest hshort =>
    rcases rest with _ | ⟨a, _ | ⟨b, rest⟩⟩
    · rfl
    · rfl
    · exact absurd rfl (hshort a b rest)

lemma merkleUp_eq (fuel : Nat) : ∀ hashes : List H256,
    merkleUp pf fuel hashes = Merkle.up (parentHash pf) H256.zero fuel hashes := by
  induction fuel with
  | zero =>
    intro hashes
    rcases hashes with _ | ⟨a, _ | ⟨b, rest⟩⟩ <;> rfl
  | succ fuel ih =>
    intro hashes
    rcases hashes with _ | ⟨a, _ | ⟨b, rest⟩⟩
    · rfl
    · rfl
    · show merkleUp pf fuel (merkleLevel pf (a :: b :: rest)) = Merkle.up _ _ fuel (Merkle.level _ (a :: b :: rest))
      rw [ih, merkleLevel_eq]

/-- **The root is a tree hash.** It is cut at the largest power of two below the number of leaves. -/
theorem merkleRoot_eq_treeHash (hashes : List H256) : merkleRoot pf hashes = treeHash pf hashes ∧
    ∀ n, IsGreatest {k | k < n + 2 ∧ ∃ j, k = 2 ^ j} (Merkle.split (n + 2)) := by
  refine ⟨?_, fun n => ⟨⟨Merkle.split_lt (by omega), _, rfl⟩, ?_⟩⟩
  · rw [merkleRoot, merkleUp_eq]; exact Merkle.up_eq_tree _ _ _ _ (by omega)
  · intro k hk; obtain ⟨hlt, j, rfl⟩ := hk; exact Merkle.le_split_of_pow_lt hlt

/-! ## Binding -/

variable {pf}

lemma H256.append_inj {a b c d : H256} (h : a.bytes ++ b.bytes = c.bytes ++ d.bytes) : a = c ∧ b = d := by
  obtain ⟨hl, hr⟩ := List.append_inj h (by rw [a.size, c.size])
  exact ⟨H256.ext hl, H256.ext hr⟩

/-- A hash that does not collide on the inputs does not collide on the pairs they are made of. -/
lemma noCollision_of_injOn {xs ys : List H256}
    (hinj : Set.InjOn pf.crypto.sha256 {x | x ∈ merkleInputs pf xs ∨ x ∈ merkleInputs pf ys}) :
    Merkle.NoCollision (parentHash pf) (Merkle.joined (parentHash pf) xs.length xs)
      (Merkle.joined (parentHash pf) ys.length ys) := by
  intro p hp q hq h
  have hbytes : p.1.bytes ++ p.2.bytes = q.1.bytes ++ q.2.bytes :=
    hinj (.inl (List.mem_map_of_mem hp)) (.inr (List.mem_map_of_mem hq)) h
  obtain ⟨h1, h2⟩ := H256.append_inj hbytes; exact Prod.ext h1 h2

/-- **A root binds its leaves.** Lists of one length with one root are equal, and so the root of a block changes with
any of its leaves. The hash is assumed to be injective on the 64-byte strings that the two roots are computed from: it
cannot be on all of them, as its values have 32 bytes. -/
theorem merkleRoot_binding {xs ys : List H256} (hlen : xs.length = ys.length)
    (hinj : Set.InjOn pf.crypto.sha256 {x | x ∈ merkleInputs pf xs ∨ x ∈ merkleInputs pf ys}) :
    (merkleRoot pf xs = merkleRoot pf ys → xs = ys) ∧
      ∀ b c : Block, b.leaves pf = xs → c.leaves pf = ys → xs ≠ ys → txTrieRoot pf b ≠ txTrieRoot pf c := by
  have hbind : merkleRoot pf xs = merkleRoot pf ys → xs = ys := by
    intro h; have hnone := noCollision_of_injOn hinj
    rw [merkleRoot, merkleRoot, merkleUp_eq, merkleUp_eq] at h; rw [← hlen] at h hnone
    exact Merkle.up_injective _ _ _ hlen (by omega) hnone h
  refine ⟨hbind, ?_⟩; intro b c hb hc hne hroot; subst hb hc
  exact hne (hbind hroot)

/-- The blank platform with a hash that can be evaluated. -/
def Platform.plain : Platform := { Platform.blank with crypto := Crypto.transparent }

/-- Two lists of two leaves that differ in the first one. -/
theorem merkleRoot_binding_pair :
    merkleRoot Platform.plain [.ofNat 1, .ofNat 3] ≠ merkleRoot Platform.plain [.ofNat 2, .ofNat 3] := by
  have hinj : Set.InjOn Platform.plain.crypto.sha256 {x | x ∈ merkleInputs Platform.plain [.ofNat 1, .ofNat 3] ∨
      x ∈ merkleInputs Platform.plain [.ofNat 2, .ofNat 3]} := by
    have hinputs : ∀ x ∈ merkleInputs Platform.plain [.ofNat 1, .ofNat 3] ++
        merkleInputs Platform.plain [.ofNat 2, .ofNat 3],
        ∀ y ∈ merkleInputs Platform.plain [.ofNat 1, .ofNat 3] ++ merkleInputs Platform.plain [.ofNat 2, .ofNat 3],
          Platform.plain.crypto.sha256 x = Platform.plain.crypto.sha256 y → x = y := by
      decide +kernel
    exact fun x hx y hy => hinputs x (List.mem_append.mpr hx) y (List.mem_append.mpr hy)
  have hlen : [H256.ofNat 1, .ofNat 3].length = [H256.ofNat 2, .ofNat 3].length := rfl
  intro h; exact absurd ((merkleRoot_binding hlen hinj).1 h) (by decide)

end TronRs

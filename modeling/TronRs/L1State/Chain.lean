import TronRs.Core.Wire
import TronRs.L1State.Crypto
import TronRs.L1State.Messages

/-!
# Transaction and block identity

`crates/chain/src/lib.rs`. Hashing works on the protobuf encoding of a message; encoding
and decoding are library code and enter, with the cryptographic primitives and the two
floating-point formulas of the exchange, as the fields of `Platform`.
-/
namespace TronRs

open TronRs.Core

/-- Encoders and decoders generated from the protobuf schema. -/
structure Codec where
  txRaw : TxRaw → Bytes
  transaction : Transaction → Bytes
  headerRaw : HeaderRaw → Bytes
  block : Block → Bytes
  /-- The header is a field of the message. -/
  block_ne_nil : ∀ b : Block, b.blockHeader ≠ none → block b ≠ []
  decodeBlock : Bytes → Option Block
  decode : (ty : ContractType) → Bytes → Except String (Message ty)

/-- The floating-point formulas of the exchange: `bancor_exchange`, and the precision test
of a withdrawal (arguments: the other balance, the quantity, this balance, the other
quantity). -/
structure Floats where
  bancorExchange : Int64 → Int64 → Int64 → Int64
  notPrecise : Int64 → Int64 → Int64 → Int64 → Bool

/-- Everything the node takes from libraries. -/
structure Platform where
  crypto : Crypto
  codec : Codec
  floats : Floats

/-- A platform that decodes and recovers nothing. Fixed inputs are evaluated over it, with
the functions they use replaced. -/
def Platform.blank : Platform where
  crypto := ⟨fun _ => H256.zero, fun _ => H256.zero, fun _ _ _ => none⟩
  codec := ⟨fun _ => [], fun _ => [], fun _ => [], fun _ => [0], fun _ _ => List.cons_ne_nil _ _, fun _ => none,
    fun _ _ => .error "not decoded"⟩
  floats := ⟨fun _ _ _ => 0, fun _ _ _ _ => false⟩

variable (pf : Platform) (num : Int64)

/-! ## Transactions -/

/-- Mirrors chain/lib.rs:20. -/
def txId (tx : Transaction) : H256 :=
  match tx.rawData with
  | some raw => pf.crypto.sha256 (pf.codec.txRaw raw)
  | none => H256.zero

/-- Mirrors chain/lib.rs:28. -/
def txMerkleLeaf (tx : Transaction) : H256 := pf.crypto.sha256 (pf.codec.transaction tx)

/-- Mirrors chain/lib.rs:111: the signer of the first signature. -/
def recoverTxSigner (tx : Transaction) : Option Address :=
  tx.signature.head?.bind fun sig => pf.crypto.recoverAddress (txId pf tx) sig

/-- The length loop of `tx_owner_address`, in 64-bit arithmetic: the shift amount is taken
modulo 64. Returns the length and the index after its last byte. -/
def scanLength : Nat → Nat → Nat → Bytes → Option (Nat × Nat)
  | _, _, _, [] => none
  | shift, len, i, x :: rest =>
    let len := len ||| ((x.toNat % 128) <<< (shift % 64)) % 2 ^ 64
    if x.toNat < 128 then some (len, i + 1) else scanLength (shift + 7) len (i + 1) rest

/-- The scanner of `tx_owner_address` on the packed value: a leading `0x0a` byte, a length,
and that many bytes. -/
def scanOwner (b : Bytes) : Option Bytes :=
  if b.length < 2 ∨ b.head? ≠ some 0x0a then none
  else (scanLength 0 0 1 (b.drop 1)).bind fun (len, i) =>
    let stop := (i + len) % 2 ^ 64
    if i ≤ stop ∧ stop ≤ b.length then some ((b.take stop).drop i) else none

/-- The packed parameter of a transaction's first contract. -/
def parameterValue (tx : Transaction) : Option Bytes :=
  tx.rawData.bind fun raw => raw.contract.head?.bind fun c => c.parameter.map PackedAny.value

/-- Mirrors chain/lib.rs:130. -/
def txOwnerAddress (tx : Transaction) : Option Bytes := (parameterValue tx).bind scanOwner

/-! ## Merkle root -/

/-- One level of the tree: neighbours are hashed together, an odd last node is carried up. -/
def merkleLevel : List H256 → List H256
  | left :: right :: rest => pf.crypto.sha256 (left.bytes ++ right.bytes) :: merkleLevel rest
  | rest => rest

/-- The `while level.len() > 1` loop; a level at least halves, so its length is fuel enough. -/
def merkleUp : Nat → List H256 → H256
  | _, [] => H256.zero
  | _, [h] => h
  | 0, h :: _ => h
  | n + 1, level => merkleUp n (merkleLevel pf level)

/-- Mirrors chain/lib.rs:36. -/
def merkleRoot (hashes : List H256) : H256 := merkleUp pf hashes.length hashes

/-- Mirrors chain/lib.rs:61. -/
def txTrieRoot (b : Block) : H256 := merkleRoot pf (b.transactions.map (txMerkleLeaf pf))

/-! ## Blocks -/

/-- Mirrors chain/lib.rs:67. -/
def blockHash (b : Block) : Option H256 := b.raw?.map fun raw => pf.crypto.sha256 (pf.codec.headerRaw raw)

/-- The eight big-endian bytes of a block number. -/
def numberBytes (num : Int64) : Bytes := Bytes.be 8 num.toUInt64.toNat

/-- The number that eight big-endian bytes denote. -/
def numberOf (b : Bytes) : Int64 := (UInt64.ofNat (Bytes.ofBe b)).toInt64

/-- Mirrors chain/lib.rs:73: the number, then the hash from its ninth byte on. -/
def blockId (num : Int64) (hash : H256) : H256 :=
  ⟨numberBytes num ++ hash.bytes.drop 8, by
    rw [List.length_append, numberBytes, Bytes.length_be, List.length_drop, hash.size]⟩

/-- Mirrors chain/lib.rs:80. -/
def blockIdOf (b : Block) : Option H256 :=
  b.raw?.bind fun raw => (blockHash pf b).map (blockId raw.number)

/-- Mirrors chain/lib.rs:91. -/
def recoverWitness (b : Block) : Option Address :=
  b.blockHeader.bind fun header =>
    (blockHash pf b).bind fun digest => pf.crypto.recoverAddress digest header.witnessSignature

lemma length_numberBytes : (numberBytes num).length = 8 := Bytes.length_be ..

lemma numberOf_numberBytes : numberOf (numberBytes num) = num := by
  rw [numberOf, numberBytes, Bytes.ofBe_be num.toUInt64.toNat_lt, UInt64.ofNat_toNat]; rfl

lemma numberBytes_numberOf {b : Bytes} (h : b.length = 8) : numberBytes (numberOf b) = b := by
  have hlt : Bytes.ofBe b < 2 ^ 64 := by have hb := Bytes.ofBe_lt b; rw [h] at hb; exact hb
  show Bytes.be 8 (UInt64.ofNat (Bytes.ofBe b)).toNat = b
  rw [UInt64.toNat_ofNat_of_lt' hlt, ← h, Bytes.be_ofBe]

lemma take_blockId (hash : H256) : (blockId num hash).bytes.take 8 = numberBytes num := by
  simp only [blockId]; rw [List.take_left' (by rw [numberBytes, Bytes.length_be])]

lemma blockIdOf_eq_some {b : Block} {id : H256} (h : blockIdOf pf b = some id) :
    ∃ raw hash, b.raw? = some raw ∧ id = blockId raw.number hash := by
  unfold blockIdOf at h; rw [Option.bind_eq_some_iff] at h; obtain ⟨raw, hraw, h⟩ := h
  rw [Option.map_eq_some_iff] at h; obtain ⟨hash, -, rfl⟩ := h; exact ⟨raw, hash, hraw, rfl⟩

end TronRs

import TronRs.L1State.Types

/-!
# Hashing and signature recovery

`crates/crypto/src/lib.rs`. The hash functions and secp256k1 recovery are library code;
they enter as the fields of `Crypto`, with only their types assumed. Everything the
repository builds on top of them is defined here.
-/
namespace TronRs

open TronRs.Core

/-- The primitives of `tron_crypto`. `recover` returns the uncompressed public key. -/
structure Crypto where
  sha256 : Bytes → H256
  keccak256 : Bytes → H256
  recover : H256 → Bytes → UInt8 → Option Bytes

namespace Crypto

/-- The address of an uncompressed public key. Mirrors crypto/lib.rs:41. -/
def addressFromPublicKey (cr : Crypto) (pk : Bytes) : Address :=
  ⟨(cr.keccak256 (pk.drop 1)).bytes.drop 12, by rw [List.length_drop, (cr.keccak256 _).size]⟩

/-- The recovery id of a signature byte `v`: raw, or `27 + recid`. -/
def recoveryId (v : UInt8) : UInt8 := if v ≥ 27 then v - 27 else v

/-- The address that produced a 65-byte `r ‖ s ‖ v` signature over a digest, as
`recover_witness`, `recover_tx_signer` and `recover_signer` all compute it. -/
def recoverAddress (cr : Crypto) (digest : H256) (sig : Bytes) : Option Address :=
  match sig.drop 64 with
  | [v] => (cr.recover digest (sig.take 64) (recoveryId v)).map cr.addressFromPublicKey
  | _ => none

/-- Mirrors crypto/lib.rs `RecoverableSignature`. -/
structure RecoverableSignature where
  rs : Bytes
  size : rs.length = 64
  recoveryId : UInt8

/-- The 65 bytes `r ‖ s ‖ v` with `v = 27 + recid`, as the node writes them. -/
def RecoverableSignature.toBytes (sig : RecoverableSignature) : Bytes := sig.rs ++ [27 + sig.recoveryId]

lemma RecoverableSignature.length_toBytes (sig : RecoverableSignature) : sig.toBytes.length = 65 := by
  rw [toBytes, List.length_append, sig.size, List.length_singleton]

/-- A witness key, by what the library computes from it: its address and its signatures. -/
structure SecretKey where
  address : Address
  signDigest : H256 → Option RecoverableSignature

/-! A scheme that can be evaluated, for fixed inputs: a hash is the first 32 bytes of its
input, and a signature spells out its signer. -/

def firstBytes (b : Bytes) : H256 :=
  ⟨(b ++ List.replicate 32 0).take 32, by
    rw [List.length_take, List.length_append, List.length_replicate]; omega⟩

def transparent : Crypto := ⟨firstBytes, firstBytes, fun _ rs _ => some (4 :: rs)⟩

/-- The signature of an address over any digest. -/
def signatureOf (a : Address) : Bytes := List.replicate 12 0 ++ a.body ++ List.replicate 32 0 ++ [27]

lemma length_signatureOf (a : Address) : (signatureOf a).length = 65 := by simp [signatureOf, a.size]

end Crypto
end TronRs

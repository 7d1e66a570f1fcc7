import TronRs.Core.Bytes
import TronRs.Core.I64

/-!
# Addresses and hashes

`crates/types/src/lib.rs`. An `Address` is 21 bytes with prefix `0x41`; it can only be
built from a 20-byte body, so the prefix check of `from_bytes` is the only way in.
-/
namespace TronRs

open TronRs.Core

/-- Mainnet address prefix byte. -/
def addressPrefix : UInt8 := 0x41

/-- Length of an address in bytes, prefix included. -/
def addressLen : Nat := 21

/-- A 21-byte address: the prefix and a 20-byte body. Mirrors types/lib.rs:28. -/
structure Address where
  body : Bytes
  size : body.length = 20
  deriving DecidableEq

namespace Address

/-- Mirrors types/lib.rs:47. -/
def asBytes (a : Address) : Bytes := addressPrefix :: a.body

/-- The length check of `try_into` followed by `Address::from_bytes`; mirrors
types/src/lib.rs:40. -/
def ofBytes : Bytes → Option Address
  | [] => none
  | b :: rest => if h : rest.length = 20 then (if b = addressPrefix then some ⟨rest, h⟩ else none) else none

/-- The address whose body is `n` as 20 big-endian bytes. -/
def ofNat (n : Nat) : Address := ⟨Bytes.be 20 n, Bytes.length_be 20 n⟩

lemma ofNat_injective {m n : Nat} (hm : m < 256 ^ 20) (hn : n < 256 ^ 20) (h : ofNat m = ofNat n) : m = n := by
  simp only [ofNat, mk.injEq] at h; exact Bytes.be_injective hm hn h

@[simp] lemma ofBytes_asBytes (a : Address) : ofBytes a.asBytes = some a := by
  simp only [ofBytes, asBytes, a.size, ↓reduceDIte, ↓reduceIte]

lemma asBytes_of_ofBytes {b : Bytes} {a : Address} (h : ofBytes b = some a) : a.asBytes = b := by
  cases b with
  | nil => cases h
  | cons x =>
    simp only [ofBytes] at h
    split at h
    · split at h
      · cases h; subst x; rfl
      · cases h
    · cases h

lemma asBytes_injective {a b : Address} (h : a.asBytes = b.asBytes) : a = b := by
  have := ofBytes_asBytes a; rw [h, ofBytes_asBytes] at this; exact (Option.some.inj this).symm

@[simp] lemma length_asBytes (a : Address) : a.asBytes.length = addressLen := by
  simp only [asBytes, List.length_cons, a.size, addressLen]

end Address

/-- A 32-byte hash. Mirrors types/lib.rs:96. -/
@[ext]
structure H256 where
  bytes : Bytes
  size : bytes.length = 32
  deriving DecidableEq

namespace H256

def zero : H256 := ⟨List.replicate 32 0, List.length_replicate⟩

/-- Mirrors types/lib.rs:101. -/
def ofSlice (b : Bytes) : Option H256 := if h : b.length = 32 then some ⟨b, h⟩ else none

/-- The hash whose bytes are `n` big-endian. -/
def ofNat (n : Nat) : H256 := ⟨Bytes.be 32 n, Bytes.length_be 32 n⟩

@[simp] lemma ofSlice_bytes (h : H256) : ofSlice h.bytes = some h := by
  simp only [ofSlice, h.size, ↓reduceDIte]

lemma exists_ofSlice {b : Bytes} : (∃ h, ofSlice b = some h) ↔ b.length = 32 := by
  unfold ofSlice; split <;> simp_all

end H256
end TronRs

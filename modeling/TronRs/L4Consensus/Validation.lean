import TronRs.Core.Effect
import TronRs.L1State.Chain

/-!
# Structural block validation

`validation` of `crates/consensus/src/lib.rs`. The checks look at one block alone; whether it
links to the block stored before it (the parent hash itself, the slot, the timestamp) is not
looked at here.

* `validateBlock_ok`: what a block that passes satisfies.
-/
namespace TronRs

open TronRs.Core

/-- Mirrors consensus/lib.rs:85; the messages write bytes as hex. -/
inductive BlockValidationError where
  | missingHeader
  | txTrieRootMismatch (header computed : Bytes)
  | badWitnessSignature (length : Nat)
  | witnessMismatch (recovered header : Bytes)
  | badParentLink (got expected : Int64)
  | signerNotActiveWitness (producer : Bytes)
  deriving DecidableEq

variable (pf : Platform)

/-- The parent hash of a block above zero carries the number before it, if it is a hash. -/
def checkParentLink (raw : HeaderRaw) : Except BlockValidationError Unit :=
  if 0 < raw.number ∧ raw.parentHash.length = 32 then
    let got := numberOf (raw.parentHash.take 8)
    ensure (got = raw.number - 1) (BlockValidationError.badParentLink got (raw.number - 1))
  else .ok ()

/-- The signature recovers to the witness that the header names. -/
def checkWitness (b : Block) (header : BlockHeader) (raw : HeaderRaw) : Except BlockValidationError Unit := do
  let length := header.witnessSignature.length
  ensure (length = 65) (BlockValidationError.badWitnessSignature length)
  let recovered ← orThrow (recoverWitness pf b) (BlockValidationError.badWitnessSignature length)
  ensure (recovered.asBytes = raw.witnessAddress)
    (BlockValidationError.witnessMismatch recovered.asBytes raw.witnessAddress)

/-- Mirrors consensus/lib.rs:115. -/
def validateBlock (b : Block) (requireWitnessSignature : Bool) : Except BlockValidationError Unit := do
  let header ← orThrow b.blockHeader BlockValidationError.missingHeader
  let raw ← orThrow header.rawData BlockValidationError.missingHeader
  let computed := txTrieRoot pf b
  ensure (computed.bytes = raw.txTrieRoot) (BlockValidationError.txTrieRootMismatch raw.txTrieRoot computed.bytes)
  checkParentLink raw
  if header.witnessSignature = [] ∧ requireWitnessSignature = false then pure ()
  else checkWitness pf b header raw

/-- Mirrors consensus/lib.rs:182: the signature is required here in any case. -/
def validateBlockIntake (b : Block) (activeWitnesses : List Bytes) : Except BlockValidationError Unit := do
  validateBlock pf b true
  let recovered ← orThrow (recoverWitness pf b) (BlockValidationError.badWitnessSignature 0)
  ensure (recovered.asBytes ∈ activeWitnesses) (BlockValidationError.signerNotActiveWitness recovered.asBytes)

variable {pf} {u : Unit}

lemma checkParentLink_ok {raw : HeaderRaw} (h : checkParentLink raw = .ok u) :
    0 < raw.number → raw.parentHash.length = 32 → numberOf (raw.parentHash.take 8) = raw.number - 1 := by
  intro hnum hlen; rw [checkParentLink, if_pos ⟨hnum, hlen⟩] at h; exact ensure_eq_ok.mp h

lemma validateBlock_ok {b : Block} {sig : Bool} (h : validateBlock pf b sig = .ok u) :
    ∃ raw, b.raw? = some raw ∧ (txTrieRoot pf b).bytes = raw.txTrieRoot ∧
      (0 < raw.number → raw.parentHash.length = 32 → numberOf (raw.parentHash.take 8) = raw.number - 1) := by
  simp only [validateBlock, check_rules] at h; obtain ⟨header, hh, raw, hr, -, hroot, u', hlink, -⟩ := h
  exact ⟨raw, by rw [Block.raw?, hh]; exact hr, hroot, checkParentLink_ok hlink⟩

end TronRs

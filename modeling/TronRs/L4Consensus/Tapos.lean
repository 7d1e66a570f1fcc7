import TronRs.L1State.Merkle
import TronRs.L4Consensus.Mempool

/-!
# Transactions as proof of stake

A transaction names a recent block by the low 16 bits of its number and by eight bytes of its
hash, and `admit_transaction` looks for that block.

* `tapos_iff`: an admitted transaction names a stored block exactly when its reference has the two
  bytes of a number.
* `reference_not_checked`: with any other number of bytes it is not looked at.
-/
namespace TronRs

open TronRs.Core
open Platform (plain)

/-- The low 16 bits of a block number, as a transaction writes them. -/
def low16 (number : Int64) : Bytes := Bytes.be 2 (number.toInt % 65536).toNat

/-- The transaction names the block stored at the height, one of the last 65536. -/
structure RefersTo (pf : Platform) (s : WorldState) (raw : TxRaw) (number : Int64) (b : Block) : Prop where
  recent : (s.getProp .latestBlockNumber).toInt - 65536 < number.toInt
  reached : number ≤ s.getProp .latestBlockNumber
  bits : low16 number = raw.refBlockBytes
  stored : s.getBlockByNum number = some b
  number : b.number = number
  hash : ∃ id, blockIdOf pf b = some id ∧ (id.bytes.take 16).drop 8 = raw.refBlockHash

section
variable {pf : Platform} {s : WorldState} {raw : TxRaw}

lemma verifyRefBlock_of_admitTransaction {pool : Mempool} {tx : Transaction} {now : Int64}
    {validate : WorldState → Transaction → Except String Unit} {r : H256 × Mempool} (hraw : tx.rawData = some raw)
    (h : admitTransaction pf pool s tx now validate = .ok r) : verifyRefBlock pf s raw = .ok () := by
  simp only [admitTransaction, check_rules] at h
  obtain ⟨-, -, raw', hraw', -, -, -, -, -, -, _, href, -⟩ := h
  cases hraw.symm.trans hraw'; exact href

/-- The largest number up to the head with the given low bits. -/
lemma candidate_bounds {head : Int64} (hhead : 0 < head) {ref : Nat} (href : ref < 65536) :
    (head - Int64.ofInt ((head - Int64.ofNat ref).toInt % 0x10000)).toInt =
      head.toInt - (head.toInt - ref) % 65536 := by
  have hlt := head.toInt_lt
  have hpos : 0 < head.toInt := lt_iff_toInt_lt.mp hhead
  have hr : (Int64.ofNat ref).toInt = ref := toInt_ofNat_of_lt (by omega)
  have hsub : (head - Int64.ofNat ref).toInt = head.toInt - ref := by rw [toInt_sub_of_fits ⟨by omega, by omega⟩, hr]
  have hdiff : (Int64.ofInt ((head - Int64.ofNat ref).toInt % 0x10000)).toInt = (head.toInt - ref) % 65536 := by
    rw [hsub]; exact toInt_ofInt_of_fits ⟨by omega, by omega⟩
  rw [toInt_sub_of_fits (by rw [hdiff]; exact ⟨by omega, by omega⟩), hdiff]

/-- A reference of two bytes that passes is one to a stored block. -/
lemma refersTo_of_verifyRefBlock (hhead : 0 < s.getProp .latestBlockNumber)
    (hkeyed : ∀ n b, s.getBlockByNum n = some b → b.number = n) (hhash : raw.refBlockHash ≠ []) {hi lo : UInt8}
    (hbytes : raw.refBlockBytes = [hi, lo]) (h : verifyRefBlock pf s raw = .ok ()) :
    ∃ number b, RefersTo pf s raw number b := by
  unfold verifyRefBlock at h; rw [if_neg hhash, hbytes] at h; dsimp only at h
  rw [if_neg (Int64.not_le.mpr hhead)] at h; simp only [check_rules] at h
  obtain ⟨b, hb, id, hid, hmatch⟩ := h
  have hhi := hi.toNat_lt
  have hlo := lo.toNat_lt
  have hnum := candidate_bounds hhead (show hi.toNat * 256 + lo.toNat < 65536 by omega)
  refine ⟨_, b, ?_, ?_, ?_, hb, hkeyed _ _ hb, id, hid, hmatch⟩
  · rw [hnum]; omega
  · rw [le_iff_toInt_le, hnum]; omega
  -- the number differs from the head by what makes its low bits the given ones
  have hlow : ((s.getProp .latestBlockNumber).toInt -
      ((s.getProp .latestBlockNumber).toInt - ((hi.toNat * 256 + lo.toNat : Nat) : Int)) % 65536) % 65536 =
        ((hi.toNat * 256 + lo.toNat : Nat) : Int) := by omega
  have hbe : Bytes.be 2 (hi.toNat * 256 + lo.toNat) = [hi, lo] := by
    have h := Bytes.be_ofBe [hi, lo]; simpa [Bytes.ofBe] using h
  rw [low16, hnum, hlow, hbytes, Int.toNat_natCast, hbe]

/-- **When the reference is checked.** A transaction with a reference hash that is admitted on a chain with blocks names
one of the last 65536 blocks, which is stored and has that hash, exactly when its reference number has two bytes. -/
theorem tapos_iff {pool : Mempool} {tx : Transaction} {now : Int64}
    {validate : WorldState → Transaction → Except String Unit} {r : H256 × Mempool}
    (hhead : 0 < s.getProp .latestBlockNumber) (hkeyed : ∀ n b, s.getBlockByNum n = some b → b.number = n)
    (hraw : tx.rawData = some raw) (hhash : raw.refBlockHash ≠ [])
    (h : admitTransaction pf pool s tx now validate = .ok r) :
    (∃ number b, RefersTo pf s raw number b) ↔ raw.refBlockBytes.length = 2 := by
  constructor
  · intro href; obtain ⟨number, b, href⟩ := href; rw [← href.bits, low16, Bytes.length_be]
  · intro hlen; obtain ⟨hi, lo, hbytes⟩ := List.length_eq_two.mp hlen
    exact refersTo_of_verifyRefBlock hhead hkeyed hhash hbytes (verifyRefBlock_of_admitTransaction hraw h)

end

/-! ## On fixed inputs -/

/-- A chain whose head is block 1; the hash part of its id is zero. -/
def shortChain : WorldState :=
  ({} : WorldState).putBlock plain { blockHeader := some { rawData := some { number := 1 } } }

/-- The part of a transaction that names a block. -/
def referring (refBlockBytes refBlockHash : Bytes) : TxRaw := { refBlockBytes, refBlockHash, contract := [{}] }

/-- The transaction, signed. -/
def signed (raw : TxRaw) : Transaction :=
    { rawData := some raw, signature := [Crypto.signatureOf (Address.ofNat 0xaa)] }

lemma shortChain_keyed (n : Int64) (b : Block) (h : shortChain.getBlockByNum n = some b) : b.number = n := by
  rw [shortChain, WorldState.getBlockByNum_putBlock] at h
  split at h
  · rename_i hn; cases h; exact hn.symm
  · cases h

/-- Whether the transaction is admitted to an empty pool. -/
def admitted (raw : TxRaw) : Bool :=
  (admitTransaction plain {} shortChain (signed raw) 0 fun _ _ => .ok ()).isOk

lemma exists_of_admitted {raw : TxRaw} (h : admitted raw = true) :
    ∃ r, admitTransaction plain {} shortChain (signed raw) 0 (fun _ _ => .ok ()) = .ok r := by
  unfold admitted at h
  cases hr : admitTransaction plain {} shortChain (signed raw) 0 (fun _ _ => .ok ()) with
  | error => rw [hr] at h; cases h
  | ok r => exact ⟨r, rfl⟩

theorem tapos_iff_short : ∃ number b, RefersTo plain shortChain (referring [0, 1] (List.replicate 8 0)) number b := by
  obtain ⟨r, hr⟩ := exists_of_admitted (show admitted (referring [0, 1] (List.replicate 8 0)) = true by decide +kernel)
  exact (tapos_iff (by decide +kernel) shortChain_keyed rfl (by decide) hr).mpr rfl

/-- A reference of three bytes passes with any hash. -/
theorem reference_not_checked : ∃ pf pool s tx raw now r, 0 < s.getProp .latestBlockNumber ∧
    (∀ n b, s.getBlockByNum n = some b → b.number = n) ∧ tx.rawData = some raw ∧ raw.refBlockHash ≠ [] ∧
    admitTransaction pf pool s tx now (fun _ _ => .ok ()) = .ok r ∧ ¬ ∃ number b, RefersTo pf s raw number b := by
  obtain ⟨r, hr⟩ := exists_of_admitted (show admitted (referring [0, 0, 1] [7]) = true by decide +kernel)
  refine ⟨plain, {}, shortChain, signed (referring [0, 0, 1] [7]), _, 0, r, by decide +kernel,
    shortChain_keyed, rfl, by decide, hr, fun h => ?_⟩
  obtain ⟨number, b, href⟩ := h
  have hlen := congrArg List.length href.bits; rw [low16, Bytes.length_be] at hlen; cases hlen

end TronRs

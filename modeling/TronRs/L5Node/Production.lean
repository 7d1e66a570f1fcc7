import TronRs.L1State.BlockStore
import TronRs.L5Node.Net

/-!
# Block production

`crates/node/src/production.rs` with the slots of `crates/consensus/src/lib.rs` and the assembly
of `crates/consensus/src/producer.rs`: the witness that is scheduled for the slot of the clock
builds a block on the head from the pool, and applies it later without looking at the head again.
-/
namespace TronRs

open TronRs.Core

/-! ## Slots -/

def blockIntervalMs : UInt64 := 3000
def singleRepeat : UInt64 := 1

/-- Mirrors consensus/lib.rs:19. -/
def slotOf (blockTime genesisTime : UInt64) : UInt64 :=
  if blockTime ≤ genesisTime then 0 else (blockTime - genesisTime) / blockIntervalMs

/-- Mirrors consensus/lib.rs:53. -/
def scheduledWitness (active : List Bytes) (headAbsSlot slot : UInt64) : Option Bytes :=
  if active = [] then none
  else
    let current := headAbsSlot + slot
    let n := UInt64.ofNat active.length
    active[((current % (n * singleRepeat)) / singleRepeat).toNat]?

/-! ## Assembling a block -/

variable (pf : Platform) (cfg : NodeConfig)

/-- Mirrors consensus/producer.rs:18; nothing where signing would panic. -/
def produceBlock (parent : Block) (key : Crypto.SecretKey) (timestamp : Int64) (transactions : List Transaction)
    (version : Int32) : Option Block :=
  let draft : Block := { transactions, blockHeader := none }
  let raw : HeaderRaw := {
    timestamp
    txTrieRoot := (txTrieRoot pf draft).bytes
    parentHash := ((blockIdOf pf parent).getD H256.zero).bytes
    number := parent.number + 1
    witnessAddress := key.address.asBytes
    version }
  (key.signDigest (pf.crypto.sha256 (pf.codec.headerRaw raw))).map fun sig =>
    { draft with blockHeader := some ⟨some raw, sig.toBytes⟩ }

/-- Mirrors consensus/producer.rs:69. -/
def produceFromPool (parent : Block) (key : Crypto.SecretKey) (timestamp : Int64) (pool : Mempool) (maxTxs : Nat)
    (version : Int32) : Option Block :=
  produceBlock pf parent key timestamp (pool.peek maxTxs) version

def maxBlockTxs : Nat := 1000
def blockVersion : Int32 := 30

/-- Mirrors node/production.rs:31. -/
def headerTsNum (b : Block) : Option (Int64 × Int64) := b.raw?.map fun raw => (raw.timestamp, raw.number)

/-- Mirrors node/production.rs:48. -/
def tryProduce (n : Node) (key : Crypto.SecretKey) (now : Int64) : Option Block := do
  let head ← n.world.getNowBlock
  let genesis ← n.world.getBlockByNum 0
  let (genesisTs, _) ← headerTsNum genesis
  let (headTs, _) ← headerTsNum head
  if now ≤ genesisTs then none
  else
    let nowSlot := slotOf now.toUInt64 genesisTs.toUInt64
    let headSlot := slotOf headTs.toUInt64 genesisTs.toUInt64
    if nowSlot ≤ headSlot then none
    else
      let scheduled ← scheduledWitness n.world.getActiveWitnesses headSlot (nowSlot - headSlot)
      if scheduled ≠ key.address.asBytes then none
      else
        let blockTs := genesisTs + nowSlot.toInt64 * blockIntervalMs.toInt64
        produceFromPool pf head key blockTs n.mempool maxBlockTxs blockVersion

/-- The world state once a produced block has been stored and its transactions indexed. -/
def WorldState.storeProduced (s : WorldState) (b : Block) : WorldState :=
  (s.putBlock pf b).indexBlockTransactions pf b

/-- Mirrors node/production.rs:83. -/
def applyProduced (n : Node) (b : Block) : Option Int64 × Node :=
  ((headerTsNum b).map Prod.snd,
    { n with world := n.world.storeProduced pf b, mempool := n.mempool.evictIncluded pf b })

/-- The commit to a produced block. Mirrors node/lib.rs:300. -/
def commitProduced (n : Node) (b : Block) (number : Int64) : Node :=
  match blockIdOf pf b with
  | some id => (emitCommit pf cfg n number id).2
  | none => n

/-! ## What applying a produced block changes -/

/-- The last transaction of the block with this id. -/
def Block.lastWithId (b : Block) (id : Bytes) : Option Transaction :=
  b.transactions.reverse.find? fun tx => (txId pf tx).bytes = id

namespace WorldState
variable (s : WorldState) (b : Block)

lemma indexBlockTransactions_eq : ∃ index, s.indexBlockTransactions pf b = { s with transaction := index } := by
  unfold indexBlockTransactions
  generalize b.transactions = txs
  induction txs generalizing s with
  | nil => exact ⟨s.transaction, rfl⟩
  | cons tx txs ih =>
    obtain ⟨index, h⟩ := ih (s.putTransaction (txId pf tx).bytes tx)
    exact ⟨index, h⟩

/-- After indexing, an id leads to the last transaction of the block that has it, if there is one. -/
lemma getTransaction_indexBlockTransactions (id : Bytes) :
    (s.indexBlockTransactions pf b).getTransaction id = (b.lastWithId pf id).or (s.getTransaction id) := by
  unfold indexBlockTransactions Block.lastWithId
  -- the fold writes the last transaction last
  induction b.transactions using List.reverseRecOn with
  | nil => rfl
  | append_singleton txs tx ih =>
    rw [List.foldl_append, List.reverse_append]
    show Column.get (Column.put _ _ _) id = (List.find? _ (tx :: txs.reverse)).or _
    by_cases htx : (txId pf tx).bytes = id
    · rw [List.find?_cons_of_pos (by simpa using htx), ← htx, get_put_self]; rfl
    · rw [List.find?_cons_of_neg (by simpa using htx), get_put_of_ne (Ne.symm htx)]; exact ih

lemma getBlockByNum_storeProduced (k : Int64) :
    (s.storeProduced pf b).getBlockByNum k = (s.putBlock pf b).getBlockByNum k := by
  obtain ⟨index, h⟩ := indexBlockTransactions_eq pf (s.putBlock pf b) b
  rw [storeProduced, h]; rfl

lemma getProp_storeProduced (k : Property) : (s.storeProduced pf b).getProp k = (s.putBlock pf b).getProp k := by
  obtain ⟨index, h⟩ := indexBlockTransactions_eq pf (s.putBlock pf b) b
  rw [storeProduced, h]; rfl

end WorldState

lemma confirms_commitProduced (n : Node) (b : Block) (number : Int64) :
    Confirms n (commitProduced pf cfg n b number) := by
  unfold commitProduced
  cases blockIdOf pf b with
  | none => exact .refl n
  | some id => exact confirms_emitCommit pf cfg n number id

end TronRs

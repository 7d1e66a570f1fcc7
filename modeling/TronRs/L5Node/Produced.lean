import TronRs.L4P2p.Message
import TronRs.L5Node.Slots

/-!
# What a produced block carries

A witness node pools transactions with `admit_transaction` and ticks: `try_produce` takes the first
`MAX_BLOCK_TXS` transactions of the pool as they are, and `apply_produced` evicts them. Size and
expiration of a transaction are checked on admission. Nothing evicts a pooled transaction that has
expired since, and nothing adds up the sizes.

* `produced_unexpired`: no block carries an expired transaction in the runs in which no pooled transaction
  has expired by the time of a tick.
* `expired_transaction_produced`: a transaction can expire in the pool and be produced all the same.
* `produced_block_transmittable_iff`: a peer reads a produced block exactly if the first transactions of the
  pool leave room for the header, of 165 bytes and two integers, in `MAX_MESSAGE_SIZE`.
* `oversized_block_produced`: eleven transactions can be too many.
-/
namespace TronRs

open TronRs.Core
open Wire (intField bytesField lenField length_lenField)

variable {k : Nat}

/-! ## Pooling and producing -/

inductive PoolStep where
  | submit (tx : Transaction) (now : Int64) (validate : WorldState → Transaction → Except String Unit)
  | tick (now : Int64)

/-- The time on the clock at a step. -/
def PoolStep.now : PoolStep → Int64
  | submit _ now _ => now
  | tick now => now

section
variable (pf : Platform) (cfg : NodeConfig) (key : Crypto.SecretKey)

/-- One call of `admit_transaction`, or one production tick. -/
def Ticker.pool (s : Ticker) : PoolStep → Ticker
  | .submit tx now validate =>
    match admitTransaction pf s.node.mempool s.node.world tx now validate with
    | .ok (_, mempool) => { s with node := { s.node with mempool }, clock := now }
    | .error _ => { s with clock := now }
  | .tick now => s.next pf cfg key (.tick now)

/-- A node with an empty pool that has produced nothing. -/
structure Ticker.Fresh (s : Ticker) : Prop where
  order : s.node.mempool.order = []
  seen : s.node.mempool.seen = ∅
  produced : s.produced = []

/-- Admissions and ticks, at times that do not decrease. -/
def pooling : Lts Ticker PoolStep where
  init := Ticker.Fresh
  step s l t := s.clock ≤ l.now ∧ t = s.pool pf cfg key l

/-- No produced block carries a transaction that had expired at the time of the block. -/
def Ticker.Unexpired (s : Ticker) : Prop :=
  ∀ b ∈ s.produced, ∀ tx ∈ b.transactions, Mempool.live b.timestamp tx = true

/-- At a tick every transaction in the pool has no expiration or one after the time on the clock. -/
def Ticker.PoolLive (s : Ticker) : PoolStep → Prop
  | .submit .. => True
  | .tick now => ∀ p ∈ s.node.mempool.order, Mempool.live now p.2 = true

end

/-! ## Expiration -/

section
variable {pf : Platform} {cfg : NodeConfig} {key : Crypto.SecretKey} {s t : Ticker} {now : Int64} {tx : Transaction}

/-- A produced block takes the first transactions of the pool and the time of its slot. -/
lemma tryProduce_carries {n : Node} {b : Block} (h : tryProduce pf n key now = some b) :
    b.transactions = n.mempool.peek maxBlockTxs ∧ ∃ genesis, n.world.getBlockByNum 0 = some genesis ∧
      b.timestamp = slotTime genesis.timestamp now ∧ b.timestamp ≤ now := by
  obtain ⟨genesis, head, hg, _, _, hnow, hslot, _, hb⟩ := tryProduce_inv h
  obtain ⟨_, hts, htxs⟩ := produceFromPool_eq_some hb
  refine ⟨htxs, genesis, hg, hts, ?_⟩; rw [hts]
  exact slotTime_le hnow (UInt64.lt_of_le_of_lt UInt64.zero_le hslot)

lemma Mempool.live_of_le {later : Int64} (hle : now ≤ later) (h : live later tx = true) : live now tx = true := by
  simp only [live, Bool.or_eq_true, decide_eq_true_eq] at h ⊢; exact h.imp id (Int64.lt_of_le_of_lt hle)

lemma Ticker.pool_submit (cfg : NodeConfig) (key : Crypto.SecretKey)
    {validate : WorldState → Transaction → Except String Unit} {id : H256} {mempool : Mempool}
    (h : admitTransaction pf s.node.mempool s.node.world tx now validate = .ok (id, mempool)) :
    s.pool pf cfg key (.submit tx now validate) = { s with node := { s.node with mempool }, clock := now } := by
  simp [pool, h]

/-- A block produced from a pool that is live on the clock is not after the clock. -/
lemma Ticker.unexpired_pool {l : PoolStep} (h : s.Unexpired) (hl : s.PoolLive l) : (s.pool pf cfg key l).Unexpired := by
  cases l with
  | submit tx now validate =>
    unfold pool; dsimp only
    split <;> exact h
  | tick now =>
    unfold pool next; dsimp only
    cases hb : tryProduce pf s.node key now with
    | none => exact h
    | some b =>
      obtain ⟨htxs, genesis, -, -, hle⟩ := tryProduce_carries hb
      intro c hc tx htx
      rcases List.mem_append.mp hc with hc | hc
      · exact h c hc tx htx
      rw [List.mem_singleton.mp hc] at htx ⊢; rw [htxs] at htx
      obtain ⟨p, hp, rfl⟩ := List.mem_map.mp htx
      exact Mempool.live_of_le hle (hl p (List.mem_of_mem_take hp))

/-- **Produced transactions are unexpired.** In a run of admissions and ticks whose pool holds, at the time of every
tick, no transaction that has expired by then. -/
theorem produced_unexpired {ls : List PoolStep} (hs : (pooling pf cfg key).init s)
    (hrun : ((pooling pf cfg key).guard Ticker.PoolLive).Run s ls t) : t.Unexpired := by
  have h0 : s.Unexpired := by intro b hb; rw [hs.produced] at hb; cases hb
  refine hrun.preserves (fun s l t h hstep => ?_) h0
  obtain ⟨hlive, -, rfl⟩ := hstep
  exact Ticker.unexpired_pool h hlive

end

instance (s : Ticker) : Decidable s.Unexpired :=
  inferInstanceAs (Decidable (∀ b ∈ s.produced, ∀ tx ∈ b.transactions, Mempool.live b.timestamp tx = true))

/-- A signed transaction that names no owner. -/
def expiringTx (expiration : Int64) : Transaction where
  rawData := some { contract := [{ type := 1 }], expiration }
  signature := [Crypto.signatureOf (Address.ofNat 0xaa)]

def acceptAll (_ : WorldState) (_ : Transaction) : Except String Unit := .ok ()

/-- The state of the second of two witnesses after it has pooled a transaction at time 1. -/
def pooledTicker (pf : Platform) (expiration : Int64) : Ticker :=
  secondTicker.pool pf secondWitness secondKey (.submit (expiringTx expiration) 1 acceptAll)

lemma fresh_secondTicker : secondTicker.Fresh := ⟨rfl, rfl, rfl⟩

/-- A transaction is produced three seconds before it expires. -/
theorem produced_unexpired_before : ∃ t, ((pooling (blockPlatform []) secondWitness secondKey).guard
      Ticker.PoolLive).Run secondTicker [.submit (expiringTx 6005) 1 acceptAll, .tick 3005] t ∧
    t.produced.map Block.transactions = [[expiringTx 6005]] ∧ t.Unexpired := by
  have hsubmit : secondTicker.clock ≤ 1 := by decide
  have htick : (pooledTicker (blockPlatform []) 6005).clock ≤ 3005 := by decide +kernel
  have hlive : ∀ p ∈ (pooledTicker (blockPlatform []) 6005).node.mempool.order, Mempool.live 3005 p.2 = true := by
    decide +kernel
  have hrun : ((pooling (blockPlatform []) secondWitness secondKey).guard Ticker.PoolLive).Run secondTicker
      [.submit (expiringTx 6005) 1 acceptAll, .tick 3005] _ :=
    .cons ⟨trivial, hsubmit, rfl⟩ (.cons ⟨hlive, htick, rfl⟩ (.nil _))
  exact ⟨_, hrun, by decide +kernel, produced_unexpired fresh_secondTicker hrun⟩

/-- A transaction is produced a second after it has expired. -/
theorem expired_transaction_produced : ∃ t, (pooling (blockPlatform []) secondWitness secondKey).Run secondTicker
      [.submit (expiringTx 2005) 1 acceptAll, .tick 3005] t ∧
    (pooling (blockPlatform []) secondWitness secondKey).init secondTicker ∧ ¬ t.Unexpired := by
  have hsubmit : secondTicker.clock ≤ 1 := by decide
  have htick : (pooledTicker (blockPlatform []) 2005).clock ≤ 3005 := by decide +kernel
  exact ⟨_, .cons ⟨hsubmit, rfl⟩ (.cons ⟨htick, rfl⟩ (.nil _)), fresh_secondTicker, by decide +kernel⟩

/-! ## Size -/

/-! The wire format of blocks: the fields of the schema in their order, defaults left out. -/

def HeaderRaw.wire (raw : HeaderRaw) : Bytes :=
  intField 1 raw.timestamp ++ bytesField 2 raw.txTrieRoot ++ bytesField 3 raw.parentHash ++
    intField 7 raw.number ++ intField 8 raw.witnessId ++ bytesField 9 raw.witnessAddress ++
    intField 10 raw.version.toInt64 ++ bytesField 11 raw.accountStateRoot

def BlockHeader.wire (h : BlockHeader) : Bytes :=
  (h.rawData.elim [] fun raw => lenField 1 raw.wire) ++ bytesField 2 h.witnessSignature

def Block.wire (transaction : Transaction → Bytes) (b : Block) : Bytes :=
  b.transactions.flatMap (fun tx => lenField 1 (transaction tx)) ++
    b.blockHeader.elim [] fun h => lenField 2 h.wire

/-- The encoders that prost generates follow the format. -/
structure Codec.WireFormat (c : Codec) : Prop where
  headerRaw : ∀ raw, c.headerRaw raw = raw.wire
  block : ∀ b, c.block b = b.wire c.transaction

section
variable {pf : Platform} {n : Node} {key : Crypto.SecretKey} {now : Int64} {b genesis head : Block}

/-- The frame that carries a block to a peer. -/
def blockFrame (pf : Platform) (b : Block) : Frame := ⟨.block, pf.codec.block b⟩

/-- The bytes a transaction takes in a block. -/
def txBytes (pf : Platform) (tx : Transaction) : Nat := (lenField 1 (pf.codec.transaction tx)).length

/-- The bytes the header of a block takes that is built on `head` at a time: hashes, address, version and signature are
of fixed sizes, so only the two integers vary. -/
def headerBytes (genesis head : Block) (now : Int64) : Nat :=
  165 + (intField 1 (slotTime genesis.timestamp now)).length + (intField 7 (head.number + 1)).length

lemma length_wire_header {raw : HeaderRaw} {sig : Bytes} (hroot : raw.txTrieRoot.length = 32)
    (hparent : raw.parentHash.length = 32) (hid : raw.witnessId = 0) (haddr : raw.witnessAddress.length = 21)
    (hversion : raw.version = blockVersion) (hstate : raw.accountStateRoot = []) (hsig : sig.length = 65) :
    (lenField 2 (BlockHeader.wire ⟨some raw, sig⟩)).length =
      165 + (intField 1 raw.timestamp).length + (intField 7 raw.number).length := by
  have htime := Wire.length_intField_le raw.timestamp
  have hnumber := Wire.length_intField_le raw.number
  rw [← Wire.length_intField (show 7 < 16 by decide)] at hnumber
  have hraw : raw.wire.length = 93 + (intField 1 raw.timestamp).length + (intField 7 raw.number).length := by
    have h2 := Wire.length_bytesField_small (n := 2) (p := raw.txTrieRoot) (by decide) (by omega) (by omega)
    have h3 := Wire.length_bytesField_small (n := 3) (p := raw.parentHash) (by decide) (by omega) (by omega)
    have h9 := Wire.length_bytesField_small (n := 9) (p := raw.witnessAddress) (by decide) (by omega) (by omega)
    have h10 : (intField 10 blockVersion.toInt64).length = 2 := by decide
    simp only [HeaderRaw.wire, List.length_append, h2, h3, h9, hid, hstate, hversion, h10]
    simp only [intField, bytesField, if_true, List.length_nil]; omega
  have hwire : (BlockHeader.wire ⟨some raw, sig⟩).length = raw.wire.length + 69 := by
    have h2 := Wire.length_bytesField_small (n := 2) (p := sig) (by decide) (by omega) (by omega)
    simp only [BlockHeader.wire, Option.elim_some, List.length_append, h2, lenField]
    rw [Wire.length_putVarint_small (by decide), Wire.length_putVarint_small (by omega)]; omega
  rw [lenField, List.length_append, List.length_append, Wire.length_putVarint_small (by decide),
    Wire.length_putVarint_two (by omega) (by omega)]
  omega

/-- The size of a produced block, from what it is produced from. -/
lemma length_block_tryProduce (hwire : pf.codec.WireFormat) (hg : n.world.getBlockByNum 0 = some genesis)
    (hhead : n.world.getNowBlock = some head) (hb : tryProduce pf n key now = some b) : (pf.codec.block b).length =
      ((n.mempool.peek maxBlockTxs).map (txBytes pf)).sum + headerBytes genesis head now := by
  obtain ⟨_, _, hg', hhead', -, -, -, -, hb⟩ := tryProduce_inv hb
  cases hg.symm.trans hg'; cases hhead.symm.trans hhead'
  unfold produceFromPool produceBlock at hb; obtain ⟨sig, -, rfl⟩ := Option.map_eq_some_iff.mp hb
  rw [hwire.block, Block.wire, List.length_append, List.length_flatMap]
  refine congrArg₂ _ rfl (length_wire_header (H256.size _) (H256.size _) rfl (Address.length_asBytes _) rfl rfl ?_)
  exact Crypto.RecoverableSignature.length_toBytes sig

/-- **Produced blocks are transmittable.** Exactly when the first transactions of the pool and the header that is built
on the head are within the limit for a message, a produced block that is sent is read by the peer. -/
theorem produced_block_transmittable_iff (hwire : pf.codec.WireFormat) (hg : n.world.getBlockByNum 0 = some genesis)
    (hhead : n.world.getNowBlock = some head) (hb : tryProduce pf n key now = some b) :
    readFrame.Reads (writeFrame (blockFrame pf b)) (blockFrame pf b) ↔
      ((n.mempool.peek maxBlockTxs).map (txBytes pf)).sum + headerBytes genesis head now ≤ maxMessageSize := by
  rw [readFrame_writeFrame_iff, blockFrame, length_block_tryProduce hwire hg hhead hb]

end

lemma Block.wire_ne_nil (transaction : Transaction → Bytes) (b : Block) (h : b.blockHeader ≠ none) :
    b.wire transaction ≠ [] := by
  obtain ⟨header, hheader⟩ := Option.ne_none_iff_exists'.mp h
  rw [wire, hheader]; intro hnil
  have hfield := (List.append_eq_nil_iff.mp hnil).2
  rw [Option.elim_some, lenField, List.append_assoc] at hfield
  exact absurd (List.append_eq_nil_iff.mp hfield).1 (by decide)

def wireTx (tx : Transaction) : Bytes :=
  (tx.rawData.elim [] fun raw => lenField 1 (numberBytes raw.timestamp)) ++ tx.signature.flatMap (lenField 2)

/-- A platform that writes transactions and blocks in the wire format. -/
def prostPlatform : Platform :=
  { blockPlatform [] with
    codec := { (blockPlatform []).codec with
      txRaw := fun raw => numberBytes raw.timestamp
      transaction := wireTx
      headerRaw := HeaderRaw.wire
      block := Block.wire wireTx
      block_ne_nil := Block.wire_ne_nil wireTx } }

lemma wireFormat_prost : prostPlatform.codec.WireFormat := ⟨fun _ => rfl, fun _ => rfl⟩

/-- A block with one small transaction: its 73 bytes and the 181 of the header are read. -/
theorem produced_block_transmittable_small : ∃ b,
    tryProduce prostPlatform (pooledTicker prostPlatform 6005).node secondKey 3005 = some b ∧
    b.transactions = [expiringTx 6005] ∧
    readFrame.Reads (writeFrame (blockFrame prostPlatform b)) (blockFrame prostPlatform b) := by
  have hsome : (tryProduce prostPlatform (pooledTicker prostPlatform 6005).node secondKey 3005).isSome := by
    decide +kernel
  obtain ⟨b, hb⟩ := Option.isSome_iff_exists.mp hsome
  have htxs : (pooledTicker prostPlatform 6005).node.mempool.peek maxBlockTxs = [expiringTx 6005] := by decide +kernel
  have hhead : (pooledTicker prostPlatform 6005).node.world.getNowBlock = some genesisBlock := by decide +kernel
  have hgenesis : (pooledTicker prostPlatform 6005).node.world.getBlockByNum 0 = some genesisBlock := by decide +kernel
  refine ⟨b, hb, (tryProduce_carries hb).1.trans htxs,
    (produced_block_transmittable_iff wireFormat_prost hgenesis hhead hb).mpr ?_⟩
  rw [htxs]; decide +kernel

/-! Transactions with a second signature of 500000 bytes. -/

def longSignature : Bytes := List.replicate 500000 0

lemma length_longSignature : longSignature.length = 500000 := List.length_replicate

def longTx (i : Nat) : Transaction where
  rawData := some { contract := [{ type := 1 }], timestamp := Int64.ofNat i }
  signature := [Crypto.signatureOf (Address.ofNat 0xaa), longSignature]

lemma length_longTx (i : Nat) : 500000 ≤ (prostPlatform.codec.transaction (longTx i)).length ∧
    (prostPlatform.codec.transaction (longTx i)).length ≤ 500133 := by
  have hraw := length_lenField 1 (numberBytes (Int64.ofNat i))
  have hsig := length_lenField 2 (Crypto.signatureOf (Address.ofNat 0xaa))
  have hlong := length_lenField 2 longSignature
  rw [length_numberBytes] at hraw; rw [Crypto.length_signatureOf] at hsig
  rw [length_longSignature] at hlong
  have hlen : (prostPlatform.codec.transaction (longTx i)).length =
      (lenField 1 (numberBytes (Int64.ofNat i))).length +
        ((lenField 2 (Crypto.signatureOf (Address.ofNat 0xaa))).length + (lenField 2 longSignature).length) := by
    simp [prostPlatform, wireTx, longTx]
  omega

/-- The pool after the first `k` of these transactions. -/
def longPool (k : Nat) : Mempool where
  order := (List.range k).map fun i => (txId prostPlatform (longTx i), longTx i)
  seen := ((List.range k).map fun i => txId prostPlatform (longTx i)).toFinset

def longTicker (k : Nat) : Ticker where
  node := { secondTicker.node with mempool := longPool k }

lemma peek_longPool (hk : k ≤ maxBlockTxs) : (longPool k).peek maxBlockTxs = (List.range k).map longTx := by
  have hlen : (longPool k).order.length ≤ maxBlockTxs := by
    rw [longPool, List.length_map, List.length_range]; exact hk
  rw [Mempool.peek, List.take_of_length_le hlen, longPool, List.map_map]; rfl

lemma longTx_fresh : ∀ k < 11, txId prostPlatform (longTx k) ∉ (longPool k).seen := by decide +kernel

lemma add_longPool (hk : k < 11) : (longPool k).add prostPlatform (longTx k) = some (longPool (k + 1)) := by
  have hroom : ¬ (longPool k).capacity ≤ (longPool k).order.length := by
    show ¬ 10000 ≤ ((List.range k).map _).length; rw [List.length_map, List.length_range]; omega
  have hseen : insert (txId prostPlatform (longTx k)) (longPool k).seen = (longPool (k + 1)).seen := by
    show insert _ (List.toFinset _) = List.toFinset _
    rw [List.range_succ, List.map_append, List.toFinset_append, List.map_singleton, List.toFinset_cons,
      List.toFinset_nil, insert_empty_eq, Finset.union_comm, Finset.singleton_union]
  have horder : (longPool k).order ++ [(txId prostPlatform (longTx k), longTx k)] = (longPool (k + 1)).order := by
    show List.map _ _ ++ _ = List.map _ _; rw [List.range_succ, List.map_append, List.map_singleton]
  unfold Mempool.add; rw [if_neg hroom]; rw [if_neg (longTx_fresh k hk), horder, hseen]
  rfl

lemma admit_longTx (hk : k < 11) :
    admitTransaction prostPlatform (longPool k) secondTicker.node.world (longTx k) 0 acceptAll =
      .ok (txId prostPlatform (longTx k), longPool (k + 1)) := by
  have hsig : ∀ k < 11, checkSignature prostPlatform (longTx k) = .ok () := by decide +kernel
  have hsize : (prostPlatform.codec.transaction (longTx k)).length ≤ maxTxSize :=
    (length_longTx k).2.trans (by decide)
  have hseen : (longPool k).contains (txId prostPlatform (longTx k)) = false := by
    simpa [Mempool.contains] using longTx_fresh k hk
  exact admitTransaction_of_checks hsize rfl (List.cons_ne_nil _ _) (hsig k hk) rfl rfl hseen rfl rfl (add_longPool hk)

lemma run_longTicker (hk : k ≤ 11) : (pooling prostPlatform secondWitness secondKey).Run secondTicker
    ((List.range k).map fun i => .submit (longTx i) 0 acceptAll) (longTicker k) := by
  induction k with
  | zero => exact .nil _
  | succ k ih =>
    rw [List.range_succ, List.map_append, List.map_singleton]
    have hsubmit : admitTransaction prostPlatform (longTicker k).node.mempool (longTicker k).node.world (longTx k) 0
        acceptAll = .ok (txId prostPlatform (longTx k), longPool (k + 1)) := admit_longTx (by omega)
    have hpool := Ticker.pool_submit secondWitness secondKey hsubmit
    exact (ih (by omega)).snoc ⟨Int64.le_refl 0, hpool.symm⟩

/-- Eleven transactions of half a megabyte are admitted and make a block that every peer refuses. -/
theorem oversized_block_produced : ∃ ls t b, (pooling prostPlatform secondWitness secondKey).init secondTicker ∧
    (pooling prostPlatform secondWitness secondKey).Run secondTicker ls t ∧
    tryProduce prostPlatform t.node secondKey 3005 = some b ∧
    ∀ rest ended, (readFrame.poll ⟨writeFrame (blockFrame prostPlatform b) ++ rest, ended⟩).map Prod.fst =
      some (.error (.tooLarge ((prostPlatform.codec.block b).length + 1))) := by
  have hsome : (tryProduce prostPlatform (longTicker 11).node secondKey 3005).isSome := by decide +kernel
  obtain ⟨b, hb⟩ := Option.isSome_iff_exists.mp hsome
  have hhead : (longTicker 11).node.world.getNowBlock = some genesisBlock := by decide +kernel
  have hgenesis : (longTicker 11).node.world.getBlockByNum 0 = some genesisBlock := by decide +kernel
  have hheader : headerBytes genesisBlock genesisBlock 3005 ≤ 1000 := by decide +kernel
  have hpeek : (longTicker 11).node.mempool.peek maxBlockTxs = (List.range 11).map longTx := peek_longPool (by decide)
  have hsize : 5500000 ≤ (prostPlatform.codec.block b).length ∧ (prostPlatform.codec.block b).length ≤ 5600000 := by
    rw [length_block_tryProduce wireFormat_prost hgenesis hhead hb, hpeek, List.map_map]
    have hlow := List.card_nsmul_le_sum ((List.range 11).map (txBytes prostPlatform ∘ longTx)) 500000 fun x hx => by
      obtain ⟨i, _, rfl⟩ := List.mem_map.mp hx
      exact (length_longTx i).1.trans (length_lenField 1 _).1
    have hhigh := List.sum_le_card_nsmul ((List.range 11).map (txBytes prostPlatform ∘ longTx)) 500153 fun x hx => by
      obtain ⟨i, _, rfl⟩ := List.mem_map.mp hx
      exact (length_lenField 1 _).2.trans (Nat.add_le_add_right (length_longTx i).2 20)
    rw [List.length_map, List.length_range, smul_eq_mul] at hlow hhigh; omega
  have hmax : maxMessageSize = 5242880 := rfl
  have hlen : (blockFrame prostPlatform b).encode.length = (prostPlatform.codec.block b).length + 1 := rfl
  refine ⟨_, _, b, fresh_secondTicker, run_longTicker (Nat.le_refl 11), hb, fun rest ended => ?_⟩
  rw [readFrame_tooLarge (show maxMessageSize < (prostPlatform.codec.block b).length by omega) (by omega)]
  rfl

end TronRs

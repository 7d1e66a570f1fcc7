import TronRs.L5Node.Slots

/-!
# Production meets validation

What `try_produce` builds, against the gate that a peer puts it through. The number, the parent
hash, the time and the signer of a block come out of the head, the clock and the key; the peer
computes the same from the block and its own head.

* `produced_block_meets_iff`: the block is the one after the head, at the start of the slot, by
  the witness whose turn it is, and every node at the same head stores it, exactly if there is a
  number after the head's; the witnesses take turns, one slot each.
* `number_after_last`: after the block with the last number comes one with the lowest.
-/
namespace TronRs

open TronRs.Core

/-! ## Turns -/

/-- The position in a list of `n` witnesses whose turn it is in an absolute slot. -/
def scheduledPosition (n : Nat) (slot : UInt64) : Nat :=
  ((slot % (UInt64.ofNat n * singleRepeat)) / singleRepeat).toNat

lemma scheduledWitness_eq (active : List Bytes) (head slot : UInt64) :
    scheduledWitness active head slot = active[scheduledPosition active.length (head + slot)]? := by
  cases active with
  | nil => rfl
  | cons w ws => exact if_neg (List.cons_ne_nil w ws)

lemma scheduledPosition_eq {n : Nat} (hn : n < 2 ^ 64) (slot : UInt64) : scheduledPosition n slot = slot.toNat % n := by
  rw [scheduledPosition, singleRepeat, UInt64.mul_one, UInt64.div_one, UInt64.toNat_mod, UInt64.toNat_ofNat_of_lt' hn]

/-- The schedule goes by positions, and each has one turn in as many slots as there are witnesses. -/
structure TakesTurns (active : List Bytes) : Prop where
  scheduled : ∀ head slot, scheduledWitness active head slot = active[scheduledPosition active.length (head + slot)]?
  once : ∀ start : UInt64, start.toNat + active.length ≤ 2 ^ 64 → ∀ i : Fin active.length,
    ∃! k : Fin active.length, scheduledPosition active.length (start + UInt64.ofNat k) = i

variable {active : List Bytes}

lemma takesTurns (hn : active.length < 2 ^ 64) : TakesTurns active := by
  refine ⟨scheduledWitness_eq active, fun start hstart i => ?_⟩
  have hslot : ∀ k : Fin active.length,
      scheduledPosition active.length (start + UInt64.ofNat k) = (start.toNat + k) % active.length := by
    intro k; have hk := k.isLt
    have hsum : (start + UInt64.ofNat k).toNat = start.toNat + k := by
      rw [UInt64.toNat_add, UInt64.toNat_ofNat_of_lt' (hk.trans hn), Nat.mod_eq_of_lt (by omega)]
    rw [scheduledPosition_eq hn, hsum]
  -- among `n` slots two that agree modulo `n` are the same, so each position has its slot
  let turn : Fin active.length → Fin active.length := fun k =>
    ⟨(start.toNat + k) % active.length, Nat.mod_lt _ i.pos⟩
  have hinj : Function.Injective turn := by
    intro k l hkl
    have hmod : start.toNat + k ≡ start.toNat + l [MOD active.length] := congrArg Fin.val hkl
    exact Fin.ext ((Nat.ModEq.add_left_cancel' _ hmod).eq_of_lt_of_lt k.isLt l.isLt)
  obtain ⟨k, hk, hunique⟩ := (Finite.injective_iff_bijective.mp hinj).existsUnique i
  refine ⟨k, (hslot k).trans (congrArg Fin.val hk), fun l hl => hunique l (Fin.ext ?_)⟩
  exact (hslot l).symm.trans hl

/-! ## The block that is built -/

section
variable {pf : Platform} {cfg : NodeConfig} {key : Crypto.SecretKey} {genesis head b : Block} {n : Node}
variable {now : Int64} {raw : HeaderRaw} {sig : Crypto.RecoverableSignature}

/-- Signing and recovery are inverse: every signature of the key recovers to its address. -/
def Crypto.SecretKey.Recovers (key : Crypto.SecretKey) (cr : Crypto) : Prop :=
  ∀ digest sig, key.signDigest digest = some sig → cr.recoverAddress digest sig.toBytes = some key.address

/-- The header of a produced block, and its signature. -/
lemma produceFromPool_header {parent : Block} {ts : Int64} {pool : Mempool} {max : Nat} {version : Int32}
    (h : produceFromPool pf parent key ts pool max version = some b) :
    ∃ raw sig, b.blockHeader = some ⟨some raw, sig.toBytes⟩ ∧
      key.signDigest (pf.crypto.sha256 (pf.codec.headerRaw raw)) = some sig ∧
      raw.number = parent.number + 1 ∧ raw.timestamp = ts ∧ raw.witnessAddress = key.address.asBytes ∧
      raw.txTrieRoot = (txTrieRoot pf b).bytes ∧ raw.parentHash = ((blockIdOf pf parent).getD H256.zero).bytes := by
  unfold produceFromPool produceBlock at h; obtain ⟨sig, hsig, rfl⟩ := Option.map_eq_some_iff.mp h
  exact ⟨_, sig, rfl, hsig, rfl, rfl, rfl, rfl, rfl⟩

/-- A node whose head is `head`, with the witnesses `active`. -/
structure AtHead (head : Block) (active : List Bytes) (w : WorldState) : Prop where
  block : w.getNowBlock = some head
  number : w.getProp .latestBlockNumber = head.number
  active : w.getActiveWitnesses = active

/-- A block that `n` produces at `now` on `head` is what the schedule and a peer's validation ask for. -/
structure ProducedAt (pf : Platform) (n : Node) (now : Int64) (genesis head b : Block) (raw : HeaderRaw) : Prop where
  header : b.raw? = some raw
  number : raw.number.toInt = head.number.toInt + 1
  parent : (blockIdOf pf head).map H256.bytes = some raw.parentHash
  slot : ∃ m : Nat, raw.timestamp.toInt = genesis.timestamp.toInt + 3000 * m
  later : head.timestamp < raw.timestamp
  due : raw.timestamp ≤ now
  producer : n.world.getActiveWitnesses[(slotAt genesis.timestamp now).toNat % n.world.getActiveWitnesses.length]? =
    some raw.witnessAddress
  accepted : ∀ w requireSig, AtHead head n.world.getActiveWitnesses w →
    applySyncedBlocksGated pf [pf.codec.block b] requireSig (some w.getActiveWitnesses) w = .ok 1 (w.putBlock pf b)

/-- The signature of a produced header is the key's. -/
lemma recoverWitness_signed (hkey : key.Recovers pf.crypto) (hheader : b.blockHeader = some ⟨some raw, sig.toBytes⟩)
    (hsig : key.signDigest (pf.crypto.sha256 (pf.codec.headerRaw raw)) = some sig) :
    recoverWitness pf b = some key.address := by
  simp only [recoverWitness, blockHash, Block.raw?, hheader, Option.bind_some, Option.map_some]
  exact hkey _ _ hsig

lemma checkParentLink_of_blockIdOf {id : H256} (hid : blockIdOf pf head = some id)
    (hnumber : raw.number = head.number + 1) (hparent : raw.parentHash = id.bytes) : checkParentLink raw = .ok () := by
  obtain ⟨praw, hash, hpraw, rfl⟩ := blockIdOf_eq_some pf hid
  have hhead : head.number = praw.number := by rw [Block.number, hpraw]; rfl
  have hgot : numberOf (raw.parentHash.take 8) = raw.number - 1 := by
    rw [hparent, take_blockId, numberOf_numberBytes, hnumber, hhead, Int64.add_sub_cancel]
  unfold checkParentLink
  split
  · exact ensure_eq_ok.mpr hgot
  · rfl

/-- The start of a later slot than the head's is after the head. -/
lemma lt_slotTime (hg : 0 ≤ genesis.timestamp) (hhead : genesis.timestamp ≤ head.timestamp)
    (hlt : genesis.slot head < slotAt genesis.timestamp now) (hnow : genesis.timestamp < now) :
    head.timestamp < slotTime genesis.timestamp now ∧ (slotTime genesis.timestamp now).toInt =
        genesis.timestamp.toInt + 3000 * ((slotAt genesis.timestamp now).toNat : Nat) := by
  have hpos := UInt64.lt_of_le_of_lt UInt64.zero_le hlt
  have htime := toNat_slotTime hpos
  have hle := le_iff_toInt_le.mp (slotTime_le hnow hpos)
  have hslot := UInt64.lt_iff_toNat_lt.mp hlt; rw [le_iff_toInt_le] at hg hhead
  rw [lt_iff_toInt_lt] at hnow; rw [toInt_zero] at hg; have hgn := Int64.toNat_toUInt64_of_nonneg hg
  have hhn := Int64.toNat_toUInt64_of_nonneg (hg.trans hhead)
  have hnn := Int64.toNat_toUInt64_of_nonneg (hg.trans hnow.le)
  have hnat := toNat_slotAt (lt_of_slotAt_pos hpos)
  have hend := now.toInt_lt
  have hstart := Int64.toInt_eq_toUInt64 (slotTime genesis.timestamp now)
  rw [htime] at hstart
  have hexact : (slotTime genesis.timestamp now).toInt =
      genesis.timestamp.toInt + 3000 * ((slotAt genesis.timestamp now).toNat : Nat) := by
    split at hstart <;> omega
  refine ⟨lt_iff_toInt_lt.mpr ?_, hexact⟩
  rcases Nat.lt_or_ge genesis.timestamp.toUInt64.toNat head.timestamp.toUInt64.toNat with hafter | hsame
  · rw [Block.slot, toNat_slotAt hafter] at hslot; omega
  · have := UInt64.lt_iff_toNat_lt.mp hpos; rw [UInt64.toNat_zero] at this; omega

lemma gateBlock_produced {requireSig : Bool}
    (hheader : b.blockHeader = some ⟨some raw, sig.toBytes⟩) (hroot : raw.txTrieRoot = (txTrieRoot pf b).bytes)
    (hlink : checkParentLink raw = .ok ()) (haddress : raw.witnessAddress = key.address.asBytes)
    (hrecovered : recoverWitness pf b = some key.address) (hactive : key.address.asBytes ∈ active) :
    gateBlock pf b requireSig (some active) = .ok () := by
  have hsig : sig.toBytes.length = 65 := sig.length_toBytes
  refine mapError_eq_ok.mpr ?_
  simp [validateBlockIntake, validateBlock, checkWitness, hheader, hroot, hlink, hrecovered, haddress, hactive, hsig,
    orThrow, ensure]

/-- **Production meets validation.** A key recovers from what it signs, and the block survives its encoding. The block
that a node produces has the number, parent, time and producer that the schedule gives it and is stored by every node at
the same head, and the witnesses take turns, exactly if the head's number is not the last one. The length of the
active list is one of a vector. -/
theorem produced_block_meets_iff (hkey : key.Recovers pf.crypto)
    (hhead : n.world.getNowBlock = some head) (hgenesis : n.world.getBlockByNum 0 = some genesis)
    (hstart : 0 ≤ genesis.timestamp) (hafter : genesis.timestamp ≤ head.timestamp)
    (hactive : n.world.getActiveWitnesses.length < 2 ^ 64) (hb : tryProduce pf n key now = some b)
    (hprost : pf.codec.decodeBlock (pf.codec.block b) = some b) :
    (∃ raw, ProducedAt pf n now genesis head b raw) ∧ TakesTurns n.world.getActiveWitnesses ↔
      head.number ≠ Int64.maxValue := by
  obtain ⟨_, _, hg', hh', ⟨_, hhraw⟩, hnow, hslot, hturn, hbuilt⟩ := tryProduce_inv hb
  cases hgenesis.symm.trans hg'; cases hhead.symm.trans hh'
  obtain ⟨raw, sig, hheader, hsig, hnumber, hts, haddress, hroot, hparent⟩ := produceFromPool_header hbuilt
  have hraw : b.raw? = some raw := by rw [Block.raw?, hheader]; rfl
  have hexact : raw.number.toInt = head.number.toInt + 1 ↔ head.number ≠ Int64.maxValue := by
    rw [hnumber]; exact Int64.toInt_add_one_iff
  constructor
  · intro h; obtain ⟨⟨_, hmeets⟩, -⟩ := h; cases hraw.symm.trans hmeets.header
    exact hexact.mp hmeets.number
  intro hlast
  obtain ⟨id, hid⟩ : ∃ id, blockIdOf pf head = some id := by simp [blockIdOf, blockHash, hhraw]
  rw [hid, Option.getD_some] at hparent
  rw [scheduledWitness_eq, scheduledPosition_eq hactive, UInt64.add_comm, UInt64.sub_add_cancel] at hturn
  obtain ⟨hlater, htime⟩ := lt_slotTime hstart hafter hslot hnow
  have hpos := UInt64.lt_of_le_of_lt UInt64.zero_le hslot
  refine ⟨⟨raw, hraw, hexact.mpr hlast, ?_, ⟨(slotAt genesis.timestamp now).toNat, ?_⟩, ?_, ?_, ?_,
    fun w requireSig hw => ?_⟩, takesTurns hactive⟩
  · rw [hid, hparent]; rfl
  · rw [hts]; exact htime
  · rw [hts]; exact hlater
  · rw [hts]; exact slotTime_le hnow hpos
  · rw [haddress]; exact hturn
  have hgate : gateBlock pf b requireSig (some w.getActiveWitnesses) = .ok () := by
    refine gateBlock_produced hheader hroot (checkParentLink_of_blockIdOf hid hnumber hparent) haddress
      (recoverWitness_signed hkey hheader hsig) ?_
    rw [hw.active]; exact List.mem_of_getElem? hturn
  have hnext : b.number = w.getProp .latestBlockNumber + 1 := by rw [hw.number, ← hnumber, Block.number, hraw]; rfl
  exact NextBlock.applySyncedBlocksGated_eq ⟨hprost, hgate, hnext⟩

end

/-! ## Runs on fixed inputs -/

/-- The platform of the other runs, with a decoder that knows one encoded block. -/
def decodes (b : Block) : Platform :=
  { blockPlatform [] with
    codec := { (blockPlatform []).codec with
      decodeBlock := fun bytes => if bytes = (blockPlatform []).codec.block b then some b else none } }

variable (b : Block)

lemma decodeBlock_decodes : (decodes b).codec.decodeBlock ((decodes b).codec.block b) = some b := if_pos rfl

lemma secondKey_recovers : secondKey.Recovers (decodes b).crypto := by
  intro digest sig h; cases h
  -- the signature spells out the address, whatever the digest
  have hany : ∀ sig, (decodes b).crypto.recoverAddress digest sig = Crypto.transparent.recoverAddress H256.zero sig :=
    fun _ => rfl
  rw [hany]; decide +kernel

/-- The block that the second witness builds at 3005. -/
def builtOn (n : Node) : Block := (tryProduce (blockPlatform []) n secondKey 3005).getD {}

/-- The second witness builds block 1, and every node at the genesis block stores it. -/
theorem produced_block_meets_first : let b := builtOn secondTicker.node
    tryProduce (decodes b) secondTicker.node secondKey 3005 = some b ∧
    (∃ raw, ProducedAt (decodes b) secondTicker.node 3005 genesisBlock genesisBlock b raw) ∧
    AtHead genesisBlock secondTicker.node.world.getActiveWitnesses secondTicker.node.world := by
  intro b
  have hb : tryProduce (decodes b) secondTicker.node secondKey 3005 = some b := by decide +kernel
  have hhead : secondTicker.node.world.getNowBlock = some genesisBlock := by decide +kernel
  have hmeets := (produced_block_meets_iff (secondKey_recovers b) hhead starts_secondTicker.first (by decide +kernel)
    (Int64.le_refl _) (by decide +kernel) hb (decodeBlock_decodes b)).mpr (by decide +kernel)
  exact ⟨hb, hmeets.1, hhead, by decide +kernel, rfl⟩

/-- A head with the last number, in the slot of the genesis block. -/
def lastHead : Block := signedBlock (Address.ofNat 0xaa) Int64.maxValue 5 []

def lastNode : Node := { world := secondTicker.node.world.putBlock (blockPlatform []) lastHead }

/-- On the last number the second witness builds a block with the lowest one. -/
theorem number_after_last : ∃ pf key n now genesis head b raw,
    Crypto.SecretKey.Recovers key pf.crypto ∧ pf.codec.decodeBlock (pf.codec.block b) = some b ∧
    n.world.getNowBlock = some head ∧ n.world.getBlockByNum 0 = some genesis ∧ n.world.getActiveWitnesses ≠ [] ∧
    0 ≤ head.number ∧ 0 ≤ genesis.timestamp ∧ genesis.timestamp ≤ head.timestamp ∧
    tryProduce pf n key now = some b ∧ b.raw? = some raw ∧
    head.number = Int64.maxValue ∧ raw.number = Int64.minValue ∧ raw.number.toInt ≠ head.number.toInt + 1 := by
  let b := builtOn lastNode
  have hb : tryProduce (decodes b) lastNode secondKey 3005 = some b := by decide +kernel
  have hraw : b.raw?.map HeaderRaw.number = some Int64.minValue := by decide +kernel
  obtain ⟨raw, hraw, hnumber⟩ := Option.map_eq_some_iff.mp hraw
  refine ⟨decodes b, secondKey, lastNode, 3005, genesisBlock, lastHead, b, raw, secondKey_recovers b,
    decodeBlock_decodes b, by decide +kernel, by decide +kernel, by decide +kernel, by decide +kernel,
    by decide +kernel,
    by decide +kernel, hb, hraw, rfl, hnumber, ?_⟩
  rw [hnumber]; decide +kernel

end TronRs

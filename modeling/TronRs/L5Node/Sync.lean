import TronRs.Core.Lts
import TronRs.L1State.WorldState
import TronRs.L4Consensus.Validation

/-!
# Applying synced blocks

`crates/node/src/sync.rs`: every block is decoded, validated, checked to be the next one
after the head, and stored. The first block that fails ends the batch; the ones before it
stay stored.

* `synced_blocks_linked`: the heights up to the head are stored and no others, a stored block carries
  its own number, and its parent hash, if it is one, has the number of the block before it.
* `unlinked_block_is_stored`: nothing more is looked at: a block that is older than its parent and whose
  parent hash is not the parent's but for the height is stored.
-/
namespace TronRs

open TronRs.Core

variable {b : Block} {bytes : Bytes} {s : WorldState}

/-- Mirrors node/sync.rs:16; the texts of decoding and storage errors are left out. -/
inductive SyncError where
  | decode
  | invalid (e : BlockValidationError)
  | outOfOrder (expected got : Int64)
  deriving DecidableEq

variable (pf : Platform)

/-- The validation a block has to pass: the intake gate when the witnesses are known. -/
def gateBlock (b : Block) (requireSig : Bool) (activeWitnesses : Option (List Bytes)) : Except SyncError Unit :=
  match activeWitnesses with
  | some ws => (validateBlockIntake pf b ws).mapError .invalid
  | none => (validateBlock pf b requireSig).mapError .invalid

/-- One round of the loop. -/
def applySyncedBlock (requireSig : Bool) (activeWitnesses : Option (List Bytes)) (bytes : Bytes) :
    EStateM SyncError WorldState Unit := do
  let block ← orThrow (pf.codec.decodeBlock bytes) SyncError.decode
  lift (gateBlock pf block requireSig activeWitnesses)
  let head := (← get).getProp .latestBlockNumber
  let num := (block.raw?.map HeaderRaw.number).getD (-1)
  lift (ensure (num = head + 1) (SyncError.outOfOrder (head + 1) num))
  modify (·.putBlock pf block)

/-- Mirrors node/sync.rs:45; `applied` counts the blocks stored so far. -/
def applyBlocksFrom (requireSig : Bool) (activeWitnesses : Option (List Bytes)) :
    Nat → List Bytes → EStateM SyncError WorldState Nat
  | applied, [] => pure applied
  | applied, bytes :: rest => do
    applySyncedBlock pf requireSig activeWitnesses bytes
    applyBlocksFrom requireSig activeWitnesses (applied + 1) rest

def applySyncedBlocksGated (blocks : List Bytes) (requireSig : Bool) (activeWitnesses : Option (List Bytes)) :
    EStateM SyncError WorldState Nat :=
  applyBlocksFrom pf requireSig activeWitnesses 0 blocks

/-! ## What is stored -/

variable {pf} {requireSig : Bool} {activeWitnesses : Option (List Bytes)}

lemma raw_of_gateBlock {u : Unit} (h : gateBlock pf b requireSig activeWitnesses = .ok u) : ∃ raw, b.raw? = some raw ∧
      (0 < raw.number → raw.parentHash.length = 32 → numberOf (raw.parentHash.take 8) = raw.number - 1) := by
  have hv : ∃ sig u', validateBlock pf b sig = .ok u' := by
    cases activeWitnesses with
    | none => exact ⟨requireSig, u, mapError_eq_ok.mp h⟩
    | some =>
      have hi := mapError_eq_ok.mp h; simp only [validateBlockIntake, bind_eq_ok] at hi
      obtain ⟨u', hv, -⟩ := hi; exact ⟨true, u', hv⟩
  obtain ⟨sig, u', hv⟩ := hv
  obtain ⟨raw, hraw, -, hlink⟩ := validateBlock_ok hv
  exact ⟨raw, hraw, hlink⟩

/-- A block that is stored: it decodes, passes the gate and is the next one. -/
structure NextBlock (pf : Platform) (requireSig : Bool) (activeWitnesses : Option (List Bytes)) (s : WorldState)
    (bytes : Bytes) (b : Block) : Prop where
  decoded : pf.codec.decodeBlock bytes = some b
  gated : gateBlock pf b requireSig activeWitnesses = .ok ()
  number : b.number = s.getProp .latestBlockNumber + 1

/-- One round stores the next block, or changes nothing. -/
lemma wp_applySyncedBlock : wp (applySyncedBlock pf requireSig activeWitnesses bytes) s
      (fun _ t => ∃ b, NextBlock pf requireSig activeWitnesses s bytes b ∧ t = s.putBlock pf b) (fun _ t => t = s) := by
  simp only [applySyncedBlock, wp_bind, wp_orThrow, wp_lift, wp_get, wp_modify, ensure_eq_ok, implies_true, and_true]
  intro b hb _ hg _ hnum; obtain ⟨raw, hraw, -⟩ := raw_of_gateBlock hg; refine ⟨b, ⟨hb, hg, ?_⟩, rfl⟩
  rw [Block.number, hraw]; rw [hraw] at hnum; exact hnum

lemma NextBlock.applySyncedBlock_eq (h : NextBlock pf requireSig activeWitnesses s bytes b) :
    applySyncedBlock pf requireSig activeWitnesses bytes s = .ok () (s.putBlock pf b) := by
  obtain ⟨raw, hraw, -⟩ := raw_of_gateBlock h.gated
  have hnum : (b.raw?.map HeaderRaw.number).getD (-1) = s.getProp .latestBlockNumber + 1 := by
    rw [← h.number, Block.number, hraw]; rfl
  apply outcome_eq_ok.mp
  have hthrow : (orThrow (some b) SyncError.decode : Except SyncError Block) = .ok b := rfl
  simp [applySyncedBlock, h.decoded, hthrow, ok_bind, h.gated, hnum, ensure]

lemma NextBlock.applySyncedBlocksGated_eq (h : NextBlock pf requireSig activeWitnesses s bytes b) :
    applySyncedBlocksGated pf [bytes] requireSig activeWitnesses s = .ok 1 (s.putBlock pf b) := by
  apply outcome_eq_ok.mp
  rw [applySyncedBlocksGated, applyBlocksFrom, outcome_bind, outcome_eq_ok.mpr h.applySyncedBlock_eq]
  rfl

/-- What storing the next block keeps, a whole batch keeps, wherever it ends. -/
lemma stateAfter_applyBlocksFrom {P : WorldState → Prop}
    (hstep : ∀ s bytes b, P s → NextBlock pf requireSig activeWitnesses s bytes b → P (s.putBlock pf b))
    (blocks : List Bytes) : ∀ applied s, P s →
      P (stateAfter (applyBlocksFrom pf requireSig activeWitnesses applied blocks) s) := by
  suffices h : ∀ applied s, P s → wp (applyBlocksFrom pf requireSig activeWitnesses applied blocks) s
      (fun _ t => P t) (fun _ t => P t) from fun applied s hs => stateAfter_of_wp (h applied s hs)
  induction blocks with
  | nil => intro applied s hs; exact hs
  | cons bytes rest ih =>
    intro applied s hs; rw [applyBlocksFrom, wp_bind]
    refine wp_mono wp_applySyncedBlock ?_ ?_
    · rintro _ t ⟨b, hb, rfl⟩; exact ih _ _ (hstep s bytes b hs hb)
    · rintro _ t rfl; exact hs

/-! ## The chain that syncing builds -/

/-- Of the heights from 0 on those up to the head are stored, each block under its number; above zero it
has a header whose parent hash, if it is one, carries the number before it. -/
structure Linked (s : WorldState) : Prop where
  head : 0 ≤ (s.getProp .latestBlockNumber).toInt
  heights : ∀ n : Int64, 0 ≤ n.toInt → ((s.getBlockByNum n).isSome ↔ n.toInt ≤ (s.getProp .latestBlockNumber).toInt)
  number : ∀ n b, s.getBlockByNum n = some b → b.number = n
  parent : ∀ n b, 0 < n → s.getBlockByNum n = some b → ∃ raw, b.raw? = some raw ∧
    (raw.parentHash.length = 32 → numberOf (raw.parentHash.take 8) = raw.number - 1)

/-- The next block after a head that is not the last one becomes the head. -/
lemma head_putBlock_next (pf : Platform) (hnum : b.number = s.getProp .latestBlockNumber + 1)
    (hlast : s.getProp .latestBlockNumber ≠ Int64.maxValue) :
    (s.putBlock pf b).getProp .latestBlockNumber = b.number ∧ s.getProp .latestBlockNumber < b.number := by
  have hlt : s.getProp .latestBlockNumber < b.number := by rw [hnum]; exact Int64.lt_add_one hlast
  exact ⟨by rw [getProp_putBlock_head, if_pos (Int64.le_of_lt hlt)], hlt⟩

/-- The number after the last one is the lowest, and the head stays. -/
lemma head_putBlock_last (pf : Platform) (hnum : b.number = s.getProp .latestBlockNumber + 1)
    (hlast : s.getProp .latestBlockNumber = Int64.maxValue) :
    (s.putBlock pf b).getProp .latestBlockNumber = s.getProp .latestBlockNumber ∧ b.number = Int64.minValue := by
  have hmin : b.number = Int64.minValue := by rw [hnum, hlast]; rfl
  exact ⟨by rw [getProp_putBlock_head, hmin, hlast]; exact if_neg (by decide), hmin⟩

lemma linked_putBlock (h : Linked s)
    (hb : NextBlock pf requireSig activeWitnesses s bytes b) : Linked (s.putBlock pf b) := by
  obtain ⟨raw, hraw, hlink⟩ := raw_of_gateBlock hb.gated
  have hnum : b.number = raw.number := by rw [Block.number, hraw]; rfl
  have hhead : 0 ≤ ((s.putBlock pf b).getProp .latestBlockNumber).toInt ∧ ∀ n : Int64, 0 ≤ n.toInt →
      (((s.putBlock pf b).getBlockByNum n).isSome ↔
        n.toInt ≤ ((s.putBlock pf b).getProp .latestBlockNumber).toInt) := by
    have h0 := h.head
    by_cases hlast : s.getProp .latestBlockNumber = Int64.maxValue
    · obtain ⟨hkept, hmin⟩ := head_putBlock_last pf hb.number hlast
      rw [hkept]; refine ⟨h0, fun n hn => ?_⟩
      have hne : n ≠ b.number := fun heq => by rw [heq, hmin] at hn; exact absurd hn (by decide)
      rw [WorldState.getBlockByNum_putBlock_of_ne _ _ hne]; exact h.heights n hn
    · have hnext : b.number.toInt = (s.getProp .latestBlockNumber).toInt + 1 := by
        rw [hb.number]; exact Int64.toInt_add_one_iff.mpr hlast
      rw [(head_putBlock_next pf hb.number hlast).1]; refine ⟨by omega, fun n hn => ?_⟩
      by_cases heq : n = b.number
      · rw [heq, WorldState.getBlockByNum_putBlock_self]; simp
      · have hne : n.toInt ≠ b.number.toInt := fun h => heq (Int64.toInt_inj.mp h)
        rw [WorldState.getBlockByNum_putBlock_of_ne _ _ heq, h.heights n hn]; omega
  refine ⟨hhead.1, hhead.2, fun n x hx => ?_, fun n x hn hx => ?_⟩
  · by_cases heq : n = b.number
    · rw [heq, WorldState.getBlockByNum_putBlock_self] at hx; cases hx; exact heq.symm
    · rw [WorldState.getBlockByNum_putBlock_of_ne _ _ heq] at hx; exact h.number n x hx
  · by_cases heq : n = b.number
    · rw [heq, WorldState.getBlockByNum_putBlock_self] at hx; cases hx; rw [heq, hnum] at hn
      exact ⟨raw, hraw, hlink hn⟩
    · rw [WorldState.getBlockByNum_putBlock_of_ne _ _ heq] at hx; exact h.parent n x hn hx

variable (pf) in
/-- Batches of blocks, gated by a fixed set of witnesses, from a state that holds only the
genesis block. -/
def syncing (requireSig : Bool) (activeWitnesses : List Bytes) : Lts WorldState (List Bytes) :=
  .ofFn (fun s => ∃ g : Block, g.number = 0 ∧ s.block = (∅ : Column Int64 Block).put 0 g ∧
      s.getProp .latestBlockNumber = 0)
    fun s blocks => stateAfter (applySyncedBlocksGated pf blocks requireSig (some activeWitnesses)) s

variable {active : List Bytes} {t : WorldState} {batches : List (List Bytes)}

lemma linked_of_init (h0 : (syncing pf requireSig active).init s) : Linked s := by
  obtain ⟨g, hg, hblock, hhead⟩ := h0
  have hget : ∀ n, s.getBlockByNum n = if n = 0 then some g else none := fun n => by
    rw [WorldState.getBlockByNum, hblock, get_put]; rfl
  refine ⟨by rw [hhead]; decide, fun n hn => ?_, fun n b hb => ?_, fun n b hn hb => ?_⟩
  · rw [hhead, hget, toInt_zero]
    by_cases h : n = 0
    · rw [if_pos h, h]; simp
    · have := Int64.toInt_pos_of_ne hn h
      rw [if_neg h, Option.isSome_none]; simp; omega
  · rw [hget] at hb
    split at hb
    · rename_i hn; cases hb; rw [hg, hn]
    · cases hb
  · have hne : n ≠ 0 := by rintro rfl; exact absurd hn (by decide)
    rw [hget, if_neg hne] at hb; cases hb

lemma linked_of_run (h0 : (syncing pf requireSig active).init s)
    (hrun : (syncing pf requireSig active).Run s batches t) : Linked t := by
  refine hrun.preserves (fun s blocks t hs hstep => ?_) (linked_of_init h0)
  rw [show t = _ from hstep]
  exact stateAfter_applyBlocksFrom (fun s bytes b hs hb => linked_putBlock hs hb) blocks 0 s hs

/-- **Linkage of synced blocks.** A height from 1 on is stored if and only if it is not above the head. The block
stored there has that number, the block before it is stored too, and the parent hash, if it is 32 bytes long, agrees
with the id of that block in its first eight bytes, the height. -/
theorem synced_blocks_linked (h0 : (syncing pf requireSig active).init s)
    (hrun : (syncing pf requireSig active).Run s batches t) {n : Int64} (h1 : 1 ≤ n) :
    ((∃ b, t.getBlockByNum n = some b) ↔ n ≤ t.getProp .latestBlockNumber) ∧
    ∀ b, t.getBlockByNum n = some b → ∃ raw prev, b.raw? = some raw ∧ raw.number = n ∧
      t.getBlockByNum (n - 1) = some prev ∧ (raw.parentHash.length = 32 →
        ∀ id, blockIdOf pf prev = some id → raw.parentHash.take 8 = id.bytes.take 8) := by
  have hlinked := linked_of_run h0 hrun
  have hpos : 1 ≤ n.toInt := le_iff_toInt_le.mp h1
  have hbefore : (n - 1).toInt = n.toInt - 1 := toInt_sub_of_fits (by
    have h11 : (1 : Int64).toInt = 1 := rfl
    have := n.toInt_lt; rw [h11]; constructor <;> omega)
  have hstored := hlinked.heights n (by omega)
  refine ⟨by rw [← Option.isSome_iff_exists, hstored, le_iff_toInt_le], fun b hb => ?_⟩
  obtain ⟨raw, hraw, hparent⟩ := hlinked.parent n b (by rw [lt_iff_toInt_lt, toInt_zero]; omega) hb
  have hnum : raw.number = n := by have hbn := hlinked.number n b hb; rw [Block.number, hraw] at hbn; exact hbn
  obtain ⟨prev, hprev⟩ : ∃ prev, t.getBlockByNum (n - 1) = some prev := by
    have hle := hstored.mp (by rw [hb]; rfl)
    exact Option.isSome_iff_exists.mp ((hlinked.heights (n - 1) (by omega)).mpr (by omega))
  refine ⟨raw, prev, hraw, hnum, hprev, fun hlen id hid => ?_⟩
  obtain ⟨praw, hash, hpraw, rfl⟩ := blockIdOf_eq_some _ hid
  have hpn : praw.number = n - 1 := by
    have hbn := hlinked.number (n - 1) prev hprev; rw [Block.number, hpraw] at hbn; exact hbn
  have h8 : (raw.parentHash.take 8).length = 8 := by rw [List.length_take, hlen]; rfl
  rw [take_blockId, hpn, ← hnum, ← hparent hlen, numberBytes_numberOf h8]

/-! ## Runs on fixed inputs -/

/-- A block with the given header, signed by `signer`; its encoding is its number and time. -/
def signedBlock (signer : Address) (number timestamp : Int64) (parentHash : Bytes) : Block where
  blockHeader := some {
    rawData := some {
      number
      timestamp
      parentHash
      txTrieRoot := H256.zero.bytes
      witnessAddress := signer.asBytes }
    witnessSignature := Crypto.signatureOf signer }

/-- A platform whose decoder knows the given blocks, by their position. -/
def blockPlatform (blocks : List Block) : Platform where
  crypto := Crypto.transparent
  floats := Platform.blank.floats
  codec := { Platform.blank.codec with
    headerRaw := fun raw => numberBytes raw.timestamp ++ numberBytes raw.number
    block := fun b => 0 :: numberBytes b.number
    block_ne_nil := fun _ _ => List.cons_ne_nil _ _
    decodeBlock := fun b => match b with
      | [i] => blocks[i.toNat]?
      | _ => none }

/-- The genesis block, with time 5, and nothing else. -/
def genesisState : WorldState where
  block := (∅ : Column Int64 Block).put 0 (signedBlock (Address.ofNat 0xaa) 0 5 [])
  activeWitnesses := [Address.ofNat 0xaa]

/-- A block on top of the genesis block. -/
def childBlock : Block :=
  signedBlock (Address.ofNat 0xaa) 1 8 (numberBytes 0 ++ List.replicate 24 0)

theorem synced_blocks_linked_child : ∃ t raw g id,
    (syncing (blockPlatform [childBlock]) true [(Address.ofNat 0xaa).asBytes]).Run genesisState [[[0]]] t ∧
    t.getBlockByNum 1 = some childBlock ∧ childBlock.raw? = some raw ∧ raw.number = 1 ∧ raw.parentHash.length = 32 ∧
    t.getBlockByNum 0 = some g ∧ blockIdOf (blockPlatform [childBlock]) g = some id ∧
    raw.parentHash.take 8 = id.bytes.take 8 := by
  have hrun : (syncing (blockPlatform [childBlock]) true [(Address.ofNat 0xaa).asBytes]).Run genesisState [[[0]]] _ :=
    .cons rfl (.nil _)
  have h0 : (syncing (blockPlatform [childBlock]) true [(Address.ofNat 0xaa).asBytes]).init genesisState :=
    ⟨_, rfl, rfl, rfl⟩
  have hb : (stateAfter (applySyncedBlocksGated (blockPlatform [childBlock]) [[0]] true
      (some [(Address.ofNat 0xaa).asBytes])) genesisState).getBlockByNum 1 = some childBlock := by decide +kernel
  obtain ⟨raw, g, hraw, hnum, hg, hlink⟩ := (synced_blocks_linked h0 hrun (by decide)).2 _ hb
  have hgenesis : (stateAfter (applySyncedBlocksGated (blockPlatform [childBlock]) [[0]] true
      (some [(Address.ofNat 0xaa).asBytes])) genesisState).getBlockByNum 0 =
        some (signedBlock (Address.ofNat 0xaa) 0 5 []) := by decide +kernel
  have hlen : raw.parentHash.length = 32 := by cases hraw; decide
  cases hg.symm.trans hgenesis
  exact ⟨_, raw, _, _, hrun, hb, hraw, hnum, hlen, hgenesis, rfl, hlink hlen _ rfl⟩

/-- A block whose parent hash has the right height and nothing else of the parent's id, and whose time is before its
parent's, passes every check. -/
theorem unlinked_block_is_stored : ∃ pf active s batches t b raw, active ≠ [] ∧
    (syncing pf true active).init s ∧ (syncing pf true active).Run s batches t ∧
    t.getProp .latestBlockNumber = 1 ∧ t.getBlockByNum 1 = some b ∧ b.raw? = some raw ∧
    (∃ g id graw, t.getBlockByNum 0 = some g ∧ g.raw? = some graw ∧ blockIdOf pf g = some id ∧
      raw.parentHash.length = 32 ∧ raw.parentHash.take 8 = id.bytes.take 8 ∧ raw.parentHash ≠ id.bytes ∧
      raw.timestamp < graw.timestamp) := by
  let stray := signedBlock (Address.ofNat 0xaa) 1 2 (numberBytes 0 ++ List.replicate 24 1)
  refine ⟨blockPlatform [stray], [(Address.ofNat 0xaa).asBytes], genesisState, [[[0]]], _, stray, _,
    by decide, ⟨_, rfl, rfl, rfl⟩, .cons rfl (.nil _), by decide +kernel, by decide +kernel, rfl,
    signedBlock (Address.ofNat 0xaa) 0 5 [], _, _, by decide +kernel, rfl, rfl, by decide, by decide +kernel,
    by decide +kernel, by decide⟩

end TronRs

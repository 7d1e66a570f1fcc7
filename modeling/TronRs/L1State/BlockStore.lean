import TronRs.L1State.WorldState

/-!
# The records of stored blocks

`put_block` of `crates/state/src/blocks.rs` writes a block under its number, an index entry for
its id, and the properties of the head. Blocks may be stored in any order, and a block replaces
the one that had its number.

* `block_records_iff`: the three records agree exactly when no block was replaced by one with
  another id. The head is right in any case (`now_foldl_putBlock`).
* `replaced_block_found`: the index entry of a replaced block leads to the block that replaced it.
-/
namespace TronRs

open TronRs.Core
open WorldState (putBlock advanceHead getProp getBlockByNum_putBlock_self getBlockByNum_putBlock_of_ne)

namespace WorldState

/-- Mirrors state/blocks.rs:71. -/
def getBlockById (s : WorldState) (id : Bytes) : Option Block := (s.blockIndex.get id).bind s.getBlockByNum

/-- Mirrors state/blocks.rs:82. -/
def getNowBlock (s : WorldState) : Option Block := s.getBlockByNum (s.getProp .latestBlockNumber)

end WorldState

variable (pf : Platform)

/-- A block whose header has a number that is not negative. -/
def Block.Numbered (b : Block) : Prop := ∃ raw, b.raw? = some raw ∧ 0 ≤ raw.number

/-- What the three records should say once `bs` have been stored. -/
structure BlockRecords (bs : List Block) (s : WorldState) : Prop where
  byId : ∀ (id : H256) b, s.getBlockById id.bytes = some b → blockIdOf pf b = some id
  now : bs ≠ [] → ∃ b raw, b ∈ bs ∧ s.getNowBlock = some b ∧ b.raw? = some raw ∧
    (∀ c ∈ bs, c.number ≤ b.number) ∧ s.getProp .latestBlockHeaderTimestamp = raw.timestamp

variable {pf} {s : WorldState} {b : Block} {raw : HeaderRaw} {bs : List Block} {id : H256}

/-! ## One block -/

lemma blockIdOf_isSome (pf : Platform) (h : b.raw? = some raw) : ∃ id, blockIdOf pf b = some id := by
  unfold blockIdOf blockHash; rw [h]; exact ⟨_, rfl⟩

lemma number_of_blockIdOf (h : blockIdOf pf b = some id) : b.number = numberOf (id.bytes.take 8) := by
  obtain ⟨raw, hash, hraw, rfl⟩ := blockIdOf_eq_some pf h
  rw [take_blockId, numberOf_numberBytes, Block.number, hraw]; rfl

lemma blockIndex_putBlock (h : blockIdOf pf b = some id) :
    (s.putBlock pf b).blockIndex = s.blockIndex.put id.bytes b.number := by
  unfold putBlock advanceHead; rw [h]
  cases b.raw? <;> dsimp only <;> split <;> rfl

lemma timestamp_putBlock (h : b.raw? = some raw) : (s.putBlock pf b).getProp .latestBlockHeaderTimestamp =
      if s.getProp .latestBlockNumber ≤ b.number then raw.timestamp else s.getProp .latestBlockHeaderTimestamp := by
  obtain ⟨id, hid⟩ := blockIdOf_isSome pf h; unfold putBlock advanceHead
  rw [hid, h]; dsimp only
  have hhead : ∀ m i, getProp { s with block := m, blockIndex := i } .latestBlockNumber =
      s.getProp .latestBlockNumber := fun _ _ => rfl
  rw [hhead]
  split
  · exact getProp_putProp_self ..
  · rfl

/-! ## Any number of blocks -/

/-- A store without blocks. -/
structure NoBlocks (s : WorldState) : Prop where
  blocks : s.block = ∅
  index : s.blockIndex = ∅
  head : s.getProp .latestBlockNumber = 0

lemma number_of_getBlockByNum (pf : Platform) (h0 : NoBlocks s) (bs : List Block) {n : Int64}
    (h : (bs.foldl (putBlock pf) s).getBlockByNum n = some b) : b ∈ bs ∧ b.number = n := by
  induction bs using List.reverseRecOn with
  | nil =>
    rw [List.foldl_nil, WorldState.getBlockByNum, h0.blocks, get_empty] at h; cases h
  | append_singleton bs c ih =>
    rw [List.foldl_append] at h
    by_cases hn : n = c.number
    · rw [hn, List.foldl_cons, List.foldl_nil, getBlockByNum_putBlock_self] at h; cases h
      exact ⟨List.mem_append_right _ (List.mem_singleton_self _), hn.symm⟩
    · rw [List.foldl_cons, List.foldl_nil, getBlockByNum_putBlock_of_ne _ _ hn] at h
      exact ⟨List.mem_append_left _ (ih h).1, (ih h).2⟩

lemma getBlockByNum_isSome (pf : Platform) (s : WorldState) (bs : List Block) (hb : b ∈ bs) :
    ∃ c, (bs.foldl (putBlock pf) s).getBlockByNum b.number = some c := by
  induction bs using List.reverseRecOn with
  | nil => cases hb
  | append_singleton bs c ih =>
    rw [List.foldl_append]
    by_cases hn : b.number = c.number
    · exact ⟨c, hn ▸ getBlockByNum_putBlock_self ..⟩
    · rcases List.mem_append.mp hb with hb | hb
      · obtain ⟨d, hd⟩ := ih hb; exact ⟨d, (getBlockByNum_putBlock_of_ne _ _ hn).trans hd⟩
      · rw [List.mem_singleton.mp hb] at hn; exact absurd rfl hn

/-- The index holds the id of every block, replaced or not. -/
lemma blockIndex_foldl_putBlock (h0 : NoBlocks s) (hbs : ∀ b ∈ bs, b.Numbered) (id : H256) (n : Int64) :
    (bs.foldl (putBlock pf) s).blockIndex.get id.bytes = some n ↔
      ∃ b ∈ bs, blockIdOf pf b = some id ∧ b.number = n := by
  induction bs using List.reverseRecOn with
  | nil =>
    rw [List.foldl_nil, h0.index, get_empty]; simp
  | append_singleton bs c ih =>
    obtain ⟨raw, hraw, -⟩ := hbs c (List.mem_append_right _ (List.mem_singleton_self c))
    obtain ⟨cid, hcid⟩ := blockIdOf_isSome pf hraw
    have ih := ih fun b hb => hbs b (List.mem_append_left _ hb)
    rw [List.foldl_append, List.foldl_cons, List.foldl_nil, blockIndex_putBlock hcid, get_put]
    simp only [List.mem_append, List.mem_singleton, or_and_right, exists_or, exists_eq_left, ← ih]
    by_cases heq : id = cid
    · -- an id that was there had the same number
      rw [if_pos (congrArg _ heq), heq, hcid, Option.some.injEq]; refine ⟨fun h => Or.inr ⟨rfl, h⟩, ?_⟩
      rintro (h | h)
      · rw [heq] at ih; obtain ⟨d, -, hd, rfl⟩ := ih.mp h
        rw [number_of_blockIdOf hd, number_of_blockIdOf hcid]
      · exact h.2
    · rw [if_neg fun hb => heq (H256.ext hb), hcid, Option.some.injEq]
      exact (or_iff_left fun h => heq h.1.symm).symm

/-- **The head** is a block with the largest number stored so far, whose timestamp is the head's. -/
theorem now_foldl_putBlock (h0 : NoBlocks s) (hbs : ∀ b ∈ bs, b.Numbered) (hne : bs ≠ []) :
    ∃ b raw, b ∈ bs ∧ (bs.foldl (putBlock pf) s).getNowBlock = some b ∧ b.raw? = some raw ∧
      (∀ c ∈ bs, c.number ≤ b.number) ∧
      (bs.foldl (putBlock pf) s).getProp .latestBlockHeaderTimestamp = raw.timestamp := by
  induction bs using List.reverseRecOn with
  | nil => exact absurd rfl hne
  | append_singleton bs c ih =>
    obtain ⟨raw, hraw, hpos⟩ := hbs c (List.mem_append_right _ (List.mem_singleton_self c))
    have hbs' : ∀ b ∈ bs, b.Numbered := fun b hb => hbs b (List.mem_append_left _ hb)
    have hnum : c.number = raw.number := by rw [Block.number, hraw]; rfl
    obtain ⟨u, hu⟩ : ∃ u, bs.foldl (putBlock pf) s = u := ⟨_, rfl⟩
    rw [List.foldl_append, hu, List.foldl_cons, List.foldl_nil, timestamp_putBlock hraw]
    unfold WorldState.getNowBlock; rw [getProp_putBlock_head]
    -- the blocks so far are not above the head
    have hle : ∀ d ∈ bs, d.number ≤ u.getProp .latestBlockNumber := fun d hd => by
      obtain ⟨b, -, -, hnow, -, hmax, -⟩ := ih hbs' (List.ne_nil_of_mem hd)
      rw [hu] at hnow
      have hbn : b.number = u.getProp .latestBlockNumber :=
        (number_of_getBlockByNum pf h0 bs (by rw [hu]; exact hnow)).2
      exact hbn ▸ hmax d hd
    by_cases hhead : u.getProp .latestBlockNumber ≤ c.number
    · rw [if_pos hhead, if_pos hhead]
      refine ⟨c, raw, List.mem_append_right _ (List.mem_singleton_self c),
        getBlockByNum_putBlock_self .., hraw, fun d hd => ?_, rfl⟩
      rcases List.mem_append.mp hd with hd | hd
      · exact Int64.le_trans (hle d hd) hhead
      · rw [List.mem_singleton.mp hd]; exact Int64.le_refl _
    · rw [if_neg hhead, if_neg hhead]
      have hbs0 : bs ≠ [] := by
        rintro rfl; rw [List.foldl_nil] at hu; rw [← hu, h0.head, hnum] at hhead
        exact hhead hpos
      obtain ⟨b, braw, hb, hnow, hbraw, hmax, hts⟩ := ih hbs' hbs0
      rw [hu] at hnow hts
      have hbn : b.number = u.getProp .latestBlockNumber :=
        (number_of_getBlockByNum pf h0 bs (by rw [hu]; exact hnow)).2
      refine ⟨b, braw, List.mem_append_left _ hb, ?_, hbraw, fun d hd => ?_, hts⟩
      · rw [getBlockByNum_putBlock_of_ne]
        · exact hnow
        · intro heq; exact hhead (heq ▸ Int64.le_refl _)
      · rcases List.mem_append.mp hd with hd | hd
        · exact hmax d hd
        · rw [List.mem_singleton.mp hd, hbn]; exact Int64.le_of_lt (Int64.not_le.mp hhead)

/-- **The records of the blocks** agree, whatever the order in which they are stored, exactly when blocks with one
number have one id. -/
theorem block_records_iff (pf : Platform) (h0 : NoBlocks s) {bs : List Block} (hbs : ∀ b ∈ bs, b.Numbered) :
    BlockRecords pf bs (bs.foldl (putBlock pf) s) ↔
      ∀ b ∈ bs, ∀ c ∈ bs, b.number = c.number → blockIdOf pf b = blockIdOf pf c := by
  constructor
  · intro h
    -- every block has the id of the one found under its number
    have hfound : ∀ b ∈ bs, ∀ c, (bs.foldl (putBlock pf) s).getBlockByNum b.number = some c →
        blockIdOf pf b = blockIdOf pf c := fun b hb c hc => by
      obtain ⟨raw, hraw, -⟩ := hbs b hb
      obtain ⟨id, hid⟩ := blockIdOf_isSome pf hraw
      have hindex := (blockIndex_foldl_putBlock h0 hbs id b.number).mpr ⟨b, hb, hid, rfl⟩
      rw [hid, h.byId id c (by rw [WorldState.getBlockById, hindex]; exact hc)]
    intro b hb c hc heq; obtain ⟨d, hd⟩ := getBlockByNum_isSome pf s bs hb
    rw [hfound b hb d hd, hfound c hc d (heq ▸ hd)]
  · intro h; refine ⟨fun id b hb => ?_, now_foldl_putBlock h0 hbs⟩
    obtain ⟨n, hindex, hn⟩ := Option.bind_eq_some_iff.mp hb
    obtain ⟨c, hc, hcid, rfl⟩ := (blockIndex_foldl_putBlock h0 hbs id n).mp hindex
    obtain ⟨hmem, hnum⟩ := number_of_getBlockByNum pf h0 bs hn
    rw [h b hmem c hc hnum, hcid]

/-! ## A replaced block -/

/-- A platform whose block hashes tell timestamps apart. -/
def stampPlatform : Platform :=
  { Platform.blank with
    crypto := { Platform.blank.crypto with
      sha256 := fun b => (H256.ofSlice (List.replicate 24 0 ++ b)).getD H256.zero }
    codec := { Platform.blank.codec with headerRaw := fun raw => numberBytes raw.timestamp } }

/-- A block with number and timestamp only. -/
def stamped (number timestamp : Int64) : Block := { blockHeader := some { rawData := some { number, timestamp } } }

lemma noBlocks_empty : NoBlocks {} := ⟨rfl, rfl, by decide⟩

/-- Three blocks, in the wrong order. -/
theorem block_records_iff_three : BlockRecords stampPlatform [stamped 2 20, stamped 1 10, stamped 3 30]
      ([stamped 2 20, stamped 1 10, stamped 3 30].foldl (putBlock stampPlatform) {}) := by
  refine (block_records_iff stampPlatform noBlocks_empty fun b hb => ?_).mpr (by decide)
  simp only [List.mem_cons, List.not_mem_nil, or_false] at hb
  rcases hb with rfl | rfl | rfl
  all_goals exact ⟨_, rfl, by decide⟩

/-- Two blocks with one number: the id of the first leads to the second, which has another id. -/
theorem replaced_block_found : ∃ id, blockIdOf stampPlatform (stamped 1 10) = some id ∧
    (([stamped 1 10, stamped 1 11].foldl (putBlock stampPlatform) {}).getBlockById id.bytes).bind
      (blockIdOf stampPlatform) = blockIdOf stampPlatform (stamped 1 11) ∧
    blockIdOf stampPlatform (stamped 1 11) ≠ some id := by
  obtain ⟨id, hid⟩ : ∃ id, blockIdOf stampPlatform (stamped 1 10) = some id := blockIdOf_isSome _ rfl
  refine ⟨id, hid, ?_, ?_⟩
  · cases hid; decide +kernel
  · rw [← hid]; decide +kernel

end TronRs

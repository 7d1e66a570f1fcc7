import TronRs.L5Node.Inclusion

/-!
# Three ways to apply a block

`process_block` executes the transactions of a block, stores the block and indexes the
transactions. `apply_produced` stores and indexes, `apply_synced_blocks_gated` only stores.

* `block_paths_agree_iff`: on the next block, `apply_produced` reaches the state of `process_block`
  exactly when the transactions have no net effect, and `apply_synced_blocks_gated` exactly when in
  addition they are all recorded already.
* `transfer_block_paths_differ`: a block with one transfer.
-/
namespace TronRs

open TronRs.Core

variable {u : WorldState}

/-! ## The chain and the rest of the state -/

namespace WorldState

/-- The state without the chain: what executing transactions may write. -/
def rest (s : WorldState) : WorldState :=
  { s with
    block := ∅
    transaction := ∅
    blockIndex := ∅
    activeWitnesses := []
    properties := s.properties.retain fun k => k.ofChain = false }

variable (pf : Platform) (s : WorldState) (b : Block)

/-- The two parts make up the state. -/
lemma eq_of_chain_rest (hc : u.chain = s.chain) (hr : u.rest = s.rest) : u = s := by
  have hprops : u.properties = s.properties := by
    refine Column.ext fun k => ?_
    cases hk : k.ofChain with
    | true =>
      have h := congrFun (congrArg Outside.property hc) k
      simpa [chain, outside, Outside.chain, hk] using h
    | false =>
      have h := congrArg (fun w : WorldState => w.properties.get k) hr
      simpa [rest, Column.get_retain, hk] using h
  cases u; cases s
  simp only [chain, outside, Outside.chain, Outside.mk.injEq, rest, mk.injEq] at hc hr hprops ⊢
  simp [hc, hr, hprops]

lemma rest_putProp {k : Property} (v : Int64) (hk : k.ofChain = true) : (s.putProp k v).rest = s.rest := by
  have hprops : (s.properties.put k v).retain (fun k => k.ofChain = false) =
      s.properties.retain fun k => k.ofChain = false := by
    refine Column.ext fun j => ?_
    rw [Column.get_retain, Column.get_retain, get_put]
    by_cases hj : j = k
    · simp [hj, hk]
    · rw [if_neg hj]
  exact congrArg (fun properties => { s.rest with properties }) hprops

lemma rest_advanceHead : (s.advanceHead b).rest = s.rest := by
  unfold advanceHead
  split
  · cases b.raw? with
    | none => exact s.rest_putProp _ rfl
    | some => exact (rest_putProp _ _ rfl).trans (s.rest_putProp _ rfl)
  · rfl

/-- Storing a block writes the chain only. -/
lemma rest_putBlock : (s.putBlock pf b).rest = s.rest := by
  unfold putBlock; rw [rest_advanceHead]; cases blockIdOf pf b <;> rfl

lemma rest_storeProduced : (s.storeProduced pf b).rest = s.rest := by
  obtain ⟨index, h⟩ := indexBlockTransactions_eq pf (s.putBlock pf b) b
  rw [storeProduced, h]; exact s.rest_putBlock pf b

/-- Indexing changes nothing exactly when every transaction of the block is recorded as the last one
with its id. -/
lemma storeProduced_eq_putBlock_iff : s.storeProduced pf b = s.putBlock pf b ↔
    ∀ tx ∈ b.transactions, s.getTransaction (txId pf tx).bytes = b.lastWithId pf (txId pf tx).bytes := by
  have hget : ∀ id, (s.storeProduced pf b).getTransaction id = (b.lastWithId pf id).or (s.getTransaction id) := by
    intro id
    rw [storeProduced, getTransaction_indexBlockTransactions, getTransaction, transaction_putBlock, ← getTransaction]
  obtain ⟨index, h⟩ := indexBlockTransactions_eq pf (s.putBlock pf b) b
  have hindex : (s.storeProduced pf b).transaction = index := by rw [storeProduced, h]
  constructor
  · intro heq tx htx
    have hsome : (b.lastWithId pf (txId pf tx).bytes).isSome := by
      rw [Block.lastWithId, List.find?_isSome]; exact ⟨tx, List.mem_reverse.mpr htx, by simp⟩
    obtain ⟨r, hr⟩ := Option.isSome_iff_exists.mp hsome
    have hrec := hget (txId pf tx).bytes; rw [heq, getTransaction, transaction_putBlock, hr] at hrec
    exact hrec.trans hr.symm
  · intro hrec
    have hsame : index = (s.putBlock pf b).transaction := by
      rw [← hindex, transaction_putBlock]
      refine Column.ext fun id => (hget id).trans ?_
      cases hlast : b.lastWithId pf id with
      | none => rfl
      | some tx =>
        have hid : (txId pf tx).bytes = id := by simpa using List.find?_some hlast
        have htx := List.mem_reverse.mp (List.mem_of_find?_eq_some hlast)
        rw [← hlast, ← hid]
        exact (Option.or_eq_left_of_isSome (by rw [hid, hlast]; rfl)).trans (hrec tx htx).symm
    rw [storeProduced, h, hsame]

end WorldState

variable (pf : Platform)

/-! ## The state the transactions lead to -/

/-- The state after executing transactions one after the other. -/
def executed (txs : List Transaction) (s : WorldState) : WorldState :=
  txs.foldl (fun s tx => stateAfter (applyTransaction pf tx) s) s

/-- The block's transactions have no net effect. -/
def HasNoEffect (s : WorldState) (b : Block) : Prop := executed pf b.transactions s = s

/-- Every transaction of the block is recorded, as the block's last one with its id. -/
def AllRecorded (s : WorldState) (b : Block) : Prop :=
  ∀ tx ∈ b.transactions, s.getTransaction (txId pf tx).bytes = b.lastWithId pf (txId pf tx).bytes

variable {pf} {s : WorldState} {b : Block} {results : List ExecutionResult}

lemma executed_of_mapM_ok {txs : List Transaction}
    (h : txs.mapM (applyTransaction pf) s = .ok results u) : executed pf txs s = u := by
  induction txs generalizing s results with
  | nil =>
    cases h; rfl
  | cons tx txs ih =>
    rw [List.mapM_cons, ← outcome_eq_ok, outcome_bind, bind_eq_ok] at h; obtain ⟨⟨r, v⟩, hv, h⟩ := h
    rw [outcome_bind, bind_eq_ok] at h; obtain ⟨⟨rs, w⟩, hw, h⟩ := h; cases h
    rw [outcome_eq_ok] at hv hw
    have hstep : stateAfter (applyTransaction pf tx) s = v := by unfold stateAfter; rw [hv]
    rw [← ih hw, ← hstep]; rfl

lemma processBlock_ok {p : WorldState} (h : processBlock pf b s = .ok results p) :
    p = (executed pf b.transactions s).storeProduced pf b ∧ (executed pf b.transactions s).chain = s.chain := by
  unfold processBlock at h; rw [← outcome_eq_ok, outcome_bind, bind_eq_ok] at h
  obtain ⟨⟨rs, u⟩, hu, h⟩ := h; rw [outcome_eq_ok] at hu; cases h
  rw [executed_of_mapM_ok hu]
  exact ⟨rfl, (Frame.mapM (frame_applyTransaction pf) b.transactions).ok hu⟩

/-- **The block paths.** Let the next block pass the intake gate for the active witnesses, and let
`process_block` succeed on it. Then `apply_produced` reaches the same state exactly when the block's
transactions have no net effect, and `apply_synced_blocks_gated` exactly when in addition every one
of them is recorded already. -/
theorem block_paths_agree_iff {n : Node} {active : List Bytes} (requireSig : Bool) {bytes : Bytes} {p : WorldState}
    {results : List ExecutionResult} (hdec : pf.codec.decodeBlock bytes = some b)
    (hnum : b.number = n.world.getProp .latestBlockNumber + 1) (hgate : validateBlockIntake pf b active = .ok ())
    (hp : processBlock pf b n.world = .ok results p) : ((applyProduced pf n b).2.world = p ↔ HasNoEffect pf n.world b) ∧
    (stateAfter (applySyncedBlocksGated pf [bytes] requireSig (some active)) n.world = p ↔
      HasNoEffect pf n.world b ∧ AllRecorded pf n.world b) := by
  obtain ⟨rfl, hchain⟩ := processBlock_ok hp
  -- states with the same chain that agree after storing the block agree before
  have hback : ∀ t : WorldState, t.rest = n.world.rest → t = (executed pf b.transactions n.world).storeProduced pf b →
      executed pf b.transactions n.world = n.world := by
    intro t ht heq; refine WorldState.eq_of_chain_rest _ hchain ?_
    rw [← ht, heq, WorldState.rest_storeProduced]
  have hsync : stateAfter (applySyncedBlocksGated pf [bytes] requireSig (some active)) n.world =
      n.world.putBlock pf b := by
    have hnext : NextBlock pf requireSig (some active) n.world bytes b :=
      ⟨hdec, by rw [gateBlock, hgate]; rfl, hnum⟩
    rw [stateAfter, hnext.applySyncedBlocksGated_eq]
  refine ⟨⟨fun h => hback _ (n.world.rest_storeProduced pf b) h, fun h => ?_⟩, ?_⟩
  · rw [h]; rfl
  rw [hsync]
  constructor
  · intro h; have hnone := hback _ (n.world.rest_putBlock pf b) h
    rw [hnone] at h; exact ⟨hnone, (n.world.storeProduced_eq_putBlock_iff pf b).mp h.symm⟩
  · rintro ⟨hnone, hrec⟩; rw [hnone, (n.world.storeProduced_eq_putBlock_iff pf b).mpr hrec]

/-! ## Runs on fixed inputs -/

/-- The genesis block, and two accounts with money on the first. -/
def payersNode : Node where
  world := { genesisState with account := payers.state.account }

/-- A transfer has an effect, so neither of the other paths reaches the state of `process_block`. -/
theorem block_paths_agree_iff_transfer : ¬ HasNoEffect transferBlocks payersNode.world transferBlock ∧
    ∃ results p, processBlock transferBlocks transferBlock payersNode.world = .ok results p ∧
      (applyProduced transferBlocks payersNode transferBlock).2.world ≠ p ∧
      stateAfter (applySyncedBlocksGated transferBlocks [[0]] true (some [(Address.ofNat 0xaa).asBytes]))
        payersNode.world ≠ p := by
  have hdec : transferBlocks.codec.decodeBlock [0] = some transferBlock := rfl
  have hgate : validateBlockIntake transferBlocks transferBlock [(Address.ofNat 0xaa).asBytes] = .ok () := by
    decide +kernel
  have heffect : ¬ HasNoEffect transferBlocks payersNode.world transferBlock := by
    intro h
    have hpaid : ((executed transferBlocks transferBlock.transactions payersNode.world).getAccount
      (Address.ofNat 0xbb)).map Account.balance = some 5 := by decide +kernel
    rw [show executed _ _ _ = payersNode.world from h] at hpaid; revert hpaid; decide +kernel
  obtain ⟨results, hp⟩ := ok_of_returns (m := processBlock transferBlocks transferBlock) (s := payersNode.world)
    (by decide +kernel)
  obtain ⟨hproduced, hsynced⟩ := block_paths_agree_iff true hdec (by decide +kernel) hgate hp
  exact ⟨heffect, results, _, hp, fun h => heffect (hproduced.mp h), fun h => heffect (hsynced.mp h).1⟩

/-- A block with one transfer: `process_block` moves the money, the other paths do not, and only
`apply_produced` indexes the transfer. -/
theorem transfer_block_paths_differ : ∃ pf n b bytes active results p, pf.codec.decodeBlock bytes = some b ∧
    b.number = n.world.getProp .latestBlockNumber + 1 ∧ validateBlockIntake pf b active = .ok () ∧
    processBlock pf b n.world = .ok results p ∧ (applyProduced pf n b).2.world ≠ p ∧
    stateAfter (applySyncedBlocksGated pf [bytes] true (some active)) n.world ≠ p := by
  let bob := Address.ofNat 0xbb
  have hp : ∃ results p, processBlock transferBlocks transferBlock payersNode.world = .ok results p ∧
      (p.getAccount bob).map Account.balance = some 5 := by
    obtain ⟨results, h⟩ := ok_of_returns (m := processBlock transferBlocks transferBlock) (s := payersNode.world)
      (by decide +kernel)
    exact ⟨results, _, h, by decide +kernel⟩
  obtain ⟨results, p, hp, hbal⟩ := hp
  refine ⟨transferBlocks, payersNode, transferBlock, [0], [(Address.ofNat 0xaa).asBytes], results, p, rfl,
    by decide +kernel, by decide +kernel, hp, fun h => ?_, fun h => ?_⟩
  · rw [← h] at hbal; revert hbal; decide +kernel
  · rw [← h] at hbal; revert hbal; decide +kernel

end TronRs

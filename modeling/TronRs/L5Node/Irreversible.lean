import TronRs.L5Node.Finality
import TronRs.L5Node.Production

/-!
# Irreversible blocks

The production loop decides on a block (`try_produce`), applies it (`apply_produced`) and then
commits to it; peers' blocks and commits are handled in between. `put_block` writes by number, so
a block that was built on a head that has moved on replaces the block stored at its height, final
or not.

* `solidified_blocks_kept`: in every run whose steps do not overwrite (`KeepsFinal`), the block
  stored at a solidified height stays; a step from a reached state keeps all solidified blocks
  exactly when it meets the condition.
* `solidified_block_replaced`: a peer's block is stored and solidified while the node's own block
  for the same height waits.
-/
namespace TronRs

open TronRs.Core

variable (pf : Platform) (cfg : NodeConfig) {n m : Node}

/-- Where the production loop is. -/
inductive Phase where
  | idle
  | produced (b : Block)
  | applied (b : Block) (number : Int64)

structure Producer where
  node : Node
  phase : Phase := .idle

inductive ProducerStep where
  | block (bytes : Bytes)
  | commit (bytes : Bytes)
  | tryProduce (now : Int64)
  | applyProduced
  | commitProduced

/-- One atomic step of a handler or of the production loop. Mirrors node/lib.rs:284. -/
def Producer.next (s : Producer) : ProducerStep → Producer
  | .block bytes => { s with node := (onBlock pf cfg s.node bytes).2 }
  | .commit bytes => { s with node := (onPbftCommit pf s.node bytes).2 }
  | .tryProduce now =>
    match s.phase, cfg.witness with
    | .idle, some key =>
      match TronRs.tryProduce pf s.node key now with
      | some b => { s with phase := .produced b }
      | none => s
    | _, _ => s
  | .applyProduced =>
    match s.phase with
    | .produced b =>
      match TronRs.applyProduced pf s.node b with
      | (some number, n) => ⟨n, .applied b number⟩
      | (none, n) => ⟨n, .idle⟩
    | _ => s
  | .commitProduced =>
    match s.phase with
    | .applied b number => ⟨TronRs.commitProduced pf cfg s.node b number, .idle⟩
    | _ => s

/-- The loop starts idle, with finality within the chain. -/
def producer : Lts Producer ProducerStep :=
  .ofFn (fun s => s.node.solidified ≤ s.node.head ∧ s.phase = .idle) (Producer.next pf cfg)

/-- The blocks that are final for `n` are the same in `m`. -/
def KeepsBlocks (n m : Node) : Prop :=
  ∀ k, k ≤ n.solidified → m.world.getBlockByNum k = n.world.getBlockByNum k

/-- A produced block is above the solidified height when it is applied, or it is the block stored
there; a peer's block does not come after the last number there is. -/
def Producer.KeepsFinal (s : Producer) : ProducerStep → Prop
  | .applyProduced => ∀ b, s.phase = .produced b →
      s.node.solidified < b.number ∨ s.node.world.getBlockByNum b.number = some b
  | .block bytes => ∀ b, Next pf cfg s.node bytes b → s.node.head = Int64.maxValue →
      s.node.world.getBlockByNum b.number = some b
  | _ => True

/-! ## One step -/

variable {pf cfg}

lemma KeepsBlocks.of_confirms (h : Confirms n m) : KeepsBlocks n m := fun k _ => h.blocks k

/-- Writing a block keeps the final ones exactly when it is above them or stored already. -/
lemma keepsBlocks_put_iff {b : Block} (hm : ∀ k, m.world.getBlockByNum k = (n.world.putBlock pf b).getBlockByNum k) :
    KeepsBlocks n m ↔ n.solidified < b.number ∨ n.world.getBlockByNum b.number = some b := by
  constructor
  · intro h
    by_cases hlt : n.solidified < b.number
    · exact .inl hlt
    · refine .inr ?_; rw [← h b.number (Int64.not_lt.mp hlt), hm]
      exact WorldState.getBlockByNum_putBlock_self _ _ _
  · intro h k hk
    by_cases hkb : k = b.number
    · subst hkb
      rcases h with hlt | hsame
      · rw [lt_iff_toInt_lt] at hlt; rw [le_iff_toInt_le] at hk; omega
      · rw [hm, hsame]; exact WorldState.getBlockByNum_putBlock_self _ _ _
    · rw [hm]; exact WorldState.getBlockByNum_putBlock_of_ne _ _ hkb

/-- A peer's block comes after the head. -/
lemma keepsBlocks_onBlock_iff (hn : n.solidified ≤ n.head) (bytes : Bytes) :
    KeepsBlocks n (onBlock pf cfg n bytes).2 ↔ ∀ b, Next pf cfg n bytes b → n.head = Int64.maxValue →
      n.world.getBlockByNum b.number = some b := by
  by_cases hnext : ∃ b, Next pf cfg n bytes b
  · obtain ⟨b, hb⟩ := hnext
    have hput : ∀ k, (onBlock pf cfg n bytes).2.world.getBlockByNum k = (n.world.putBlock pf b).getBlockByNum k := by
      intro k; rw [onBlock_of_next hb]; exact (confirms_receive pf _ _).blocks k
    have hbnum : b.number = n.head + 1 := hb.number
    rw [keepsBlocks_put_iff hput]
    constructor
    · rintro h b' hb' hlast; cases hb.decoded.symm.trans hb'.decoded
      refine h.resolve_left fun hlt => ?_
      -- after the last number the count starts again from below
      rw [hbnum, hlast, lt_iff_toInt_lt] at hlt
      have hwrap : (Int64.maxValue + 1).toInt = -2 ^ 63 := by decide
      have hlow := n.solidified.le_toInt; omega
    · intro h
      by_cases hlast : n.head = Int64.maxValue
      · exact .inr (h b hb hlast)
      · refine .inl ?_; rw [hbnum]; exact Int64.lt_of_le_of_lt hn (Int64.lt_add_one hlast)
  · rw [onBlock_of_not_next fun b hb => hnext ⟨b, hb⟩]
    exact ⟨fun _ b hb => absurd ⟨b, hb⟩ hnext, fun _ k _ => rfl⟩

variable {s : Producer}

/-- A step keeps the final blocks exactly when it meets the condition. -/
lemma Producer.keepsBlocks_next_iff (hs : s.node.solidified ≤ s.node.head) (l : ProducerStep) :
    KeepsBlocks s.node (s.next pf cfg l).node ↔ s.KeepsFinal pf cfg l := by
  cases l with
  | block bytes => exact keepsBlocks_onBlock_iff hs bytes
  | commit bytes => exact iff_of_true (.of_confirms (confirms_onPbftCommit pf _ bytes)) trivial
  | tryProduce now =>
    refine iff_of_true ?_ trivial; unfold next; dsimp only
    split
    · split <;> exact fun k _ => rfl
    · exact fun k _ => rfl
  | applyProduced =>
    cases hphase : s.phase with
    | produced b =>
      have hnode : (s.next pf cfg .applyProduced).node = (TronRs.applyProduced pf s.node b).2 := by
        unfold next; rw [hphase]; dsimp only
        split <;> rename_i heq <;> rw [heq]
      have hput : KeepsBlocks s.node (TronRs.applyProduced pf s.node b).2 ↔ _ :=
        keepsBlocks_put_iff fun k => WorldState.getBlockByNum_storeProduced pf s.node.world b k
      rw [hnode, hput]; unfold KeepsFinal; rw [hphase]
      exact ⟨fun h b' hb' => (Phase.produced.inj hb') ▸ h, fun h => h b rfl⟩
    | idle =>
      unfold next KeepsFinal; rw [hphase]; exact iff_of_true (fun k _ => rfl) (fun b hb => by cases hb)
    | applied b number =>
      unfold next KeepsFinal; rw [hphase]; exact iff_of_true (fun k _ => rfl) (fun b hb => by cases hb)
  | commitProduced =>
    refine iff_of_true ?_ trivial; unfold next; dsimp only
    split
    · exact .of_confirms (confirms_commitProduced pf cfg _ _ _)
    · exact fun k _ => rfl

/-! ## Whole runs -/

/-- Finality moves up and stays within the chain. -/
structure Rises (n m : Node) : Prop where
  mono : n.solidified ≤ m.solidified
  within : m.solidified ≤ m.head

lemma Rises.of_confirms (hn : n.solidified ≤ n.head) (h : Confirms n m) : Rises n m := by
  refine ⟨h.mono, ?_⟩; rw [h.head]
  rcases h.within with heq | hle
  · rw [heq]; exact hn
  · exact hle

/-- Storing a block leaves finality alone and does not lower the head. -/
lemma Rises.of_put (hn : n.solidified ≤ n.head) (b : Block)
    (hm : ∀ k, m.world.getProp k = (n.world.putBlock pf b).getProp k) : Rises n m := by
  have hsolid : m.solidified = n.solidified :=
    (hm _).trans (WorldState.getProp_putBlock_of_ne _ _ _ (by decide) (by decide))
  have hhead : n.head ≤ m.head := by
    show n.head ≤ m.world.getProp .latestBlockNumber; rw [hm]; exact Node.head_le_store pf n b
  rw [le_iff_toInt_le] at hn hhead; refine ⟨by rw [hsolid, le_iff_toInt_le], ?_⟩
  rw [hsolid, le_iff_toInt_le]; omega

lemma Rises.trans {o : Node} (h1 : Rises n m) (h2 : Rises m o) : Rises n o := by
  refine ⟨?_, h2.within⟩; have h1 := h1.mono
  have h2 := h2.mono; rw [le_iff_toInt_le] at h1 h2 ⊢; omega

lemma Producer.rises_next (hs : s.node.solidified ≤ s.node.head) (l : ProducerStep) :
    Rises s.node (s.next pf cfg l).node := by
  have hrefl : Rises s.node s.node := ⟨le_iff_toInt_le.mpr le_rfl, hs⟩
  cases l with
  | block bytes =>
    show Rises s.node (onBlock pf cfg s.node bytes).2
    by_cases hnext : ∃ b, Next pf cfg s.node bytes b
    · obtain ⟨b, hb⟩ := hnext; rw [onBlock_of_next hb]
      have hstore : Rises s.node (s.node.store pf b) := .of_put hs b fun _ => rfl
      exact hstore.trans (.of_confirms hstore.within (confirms_receive pf _ _))
    · rw [onBlock_of_not_next fun b hb => hnext ⟨b, hb⟩]; exact hrefl
  | commit bytes => exact .of_confirms hs (confirms_onPbftCommit pf _ bytes)
  | tryProduce now =>
    unfold next; dsimp only
    split
    · split <;> exact hrefl
    · exact hrefl
  | applyProduced =>
    unfold next; dsimp only
    split
    · rename_i b _
      have happly : Rises s.node (TronRs.applyProduced pf s.node b).2 :=
        .of_put hs b fun k => WorldState.getProp_storeProduced pf s.node.world b k
      split <;> rename_i heq <;> rw [heq] at happly <;> exact happly
    · exact hrefl
  | commitProduced =>
    unfold next; dsimp only
    split
    · exact .of_confirms hs (confirms_commitProduced pf cfg _ _ _)
    · exact hrefl

/-- **Solidified blocks are kept.** In every reached state finality is within the chain. From there,
a run whose steps all meet the condition keeps the block stored at every solidified height, and one
step keeps them exactly when it meets the condition. -/
theorem solidified_blocks_kept {s t : Producer} {ls : List ProducerStep} (h0 : (producer pf cfg).init s)
    (hrun : (producer pf cfg).Run s ls t) :
    (∀ ls' u, ((producer pf cfg).guard (Producer.KeepsFinal pf cfg)).Run t ls' u → KeepsBlocks t.node u.node) ∧
      ∀ l u, (producer pf cfg).step t l u → (KeepsBlocks t.node u.node ↔ t.KeepsFinal pf cfg l) := by
  have hrises : ∀ s l t, s.node.solidified ≤ s.node.head → (producer pf cfg).step s l t →
      t.node.solidified ≤ t.node.head := by
    rintro s l _ hs rfl; exact (Producer.rises_next hs l).within
  have hwithin := hrun.preserves hrises h0.1
  refine ⟨fun ls' u hrun' => ?_, fun l u hstep => ?_⟩
  · have hstep : ∀ s l u, Rises t.node s.node ∧ KeepsBlocks t.node s.node →
        ((producer pf cfg).guard (Producer.KeepsFinal pf cfg)).step s l u →
        Rises t.node u.node ∧ KeepsBlocks t.node u.node := by
      rintro s l _ ⟨hrises, hkeeps⟩ ⟨hok, rfl⟩
      refine ⟨hrises.trans (Producer.rises_next hrises.within l), fun k hk => ?_⟩
      have hmono := hrises.mono
      have hks : k ≤ s.node.solidified := by rw [le_iff_toInt_le] at hk hmono ⊢; omega
      exact ((Producer.keepsBlocks_next_iff hrises.within l).mpr hok k hks).trans (hkeeps k hk)
    exact (hrun'.preserves hstep ⟨⟨le_iff_toInt_le.mpr le_rfl, hwithin⟩, fun k _ => rfl⟩).2
  · rw [show u = _ from hstep]; exact Producer.keepsBlocks_next_iff hwithin l

/-! ## Runs on fixed inputs -/

/-- The key of an address whose signatures spell out the address. -/
def plainKey (a : Address) : Crypto.SecretKey where
  address := a
  signDigest _ := some ⟨(Crypto.signatureOf a).take 64, by rw [List.length_take, Crypto.length_signatureOf]; rfl, 0⟩

/-- The node of the second of two witnesses, at the genesis block. -/
def secondWitness : NodeConfig := ⟨true, some (plainKey (Address.ofNat 0xaa))⟩

def twoWitnesses : Producer where
  node := { world :=
    { genesisState with activeWitnesses := [Address.ofNat 0xbb, Address.ofNat 0xaa] }.putProp .allowPbft 1 }

/-- The block of the first witness at height 1. -/
def firstBlock : Block := signedBlock (Address.ofNat 0xbb) 1 8 (numberBytes 0 ++ List.replicate 24 0)

/-- The first witness's block and its commit to it. -/
def firstWitnessSteps : List ProducerStep :=
  [.block [0], .commit (commitOf (Address.ofNat 0xbb) 1
    ((blockIdOf (blockPlatform [firstBlock]) firstBlock).getD H256.zero)).encode]

/-- The node stores the first witness's block, both witnesses commit to it, and the node's own
block for the next height leaves it in place. -/
theorem solidified_blocks_kept_next_height : ∃ t u,
    (producer (blockPlatform [firstBlock]) secondWitness).Run twoWitnesses firstWitnessSteps t ∧
    ((producer (blockPlatform [firstBlock]) secondWitness).guard
      (Producer.KeepsFinal (blockPlatform [firstBlock]) secondWitness)).Run t [.tryProduce 9005, .applyProduced] u ∧
    t.node.solidified = 1 ∧ u.node.head = 2 ∧ KeepsBlocks t.node u.node := by
  let pf := blockPlatform [firstBlock]
  let t := (firstWitnessSteps.foldl (Producer.next pf secondWitness) twoWitnesses)
  let s := t.next pf secondWitness (.tryProduce 9005)
  have hrun : (producer pf secondWitness).Run twoWitnesses firstWitnessSteps t := .cons rfl (.cons rfl (.nil _))
  have habove : (match s.phase with
      | .produced b => decide (s.node.solidified < b.number)
      | _ => true) = true := by decide +kernel
  have hok : s.KeepsFinal pf secondWitness .applyProduced := by
    intro b hb; rw [hb] at habove; exact .inl (of_decide_eq_true habove)
  have hrun' : ((producer pf secondWitness).guard (Producer.KeepsFinal pf secondWitness)).Run t
      [.tryProduce 9005, .applyProduced] (s.next pf secondWitness .applyProduced) :=
    .cons ⟨trivial, rfl⟩ (.cons ⟨hok, rfl⟩ (.nil _))
  exact ⟨t, _, hrun, hrun', by decide +kernel, by decide +kernel,
    (solidified_blocks_kept ⟨by decide +kernel, rfl⟩ hrun).1 _ _ hrun'⟩

/-- The node has built its block for height 1 when the first witness's block arrives and is
solidified; applying the node's block then replaces it. -/
theorem solidified_block_replaced : ∃ pf cfg s ls t u, (producer pf cfg).init s ∧ (producer pf cfg).Run s ls t ∧
    (producer pf cfg).step t .applyProduced u ∧ t.node.solidified = 1 ∧
    u.node.world.getBlockByNum 1 ≠ t.node.world.getBlockByNum 1 := by
  let pf := blockPlatform [firstBlock]
  refine ⟨pf, secondWitness, twoWitnesses, .tryProduce 3005 :: firstWitnessSteps, _, _, ⟨by decide +kernel, rfl⟩,
    .cons rfl (.cons rfl (.cons rfl (.nil _))), rfl, by decide +kernel, by decide +kernel⟩

end TronRs

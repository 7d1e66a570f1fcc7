import TronRs.L3Actuators.Replay
import TronRs.L5Node.Finality
import TronRs.L5Node.Production

/-!
# Included transactions

A node that applies a block of its own indexes the transactions of the block and evicts them from
the pool; admission refuses what is pooled or indexed. A block from a peer is stored, but its
transactions are neither indexed nor evicted.

* `included_transactions_stay_out`: as long as blocks from peers bring only transactions that the
  node has included before, and its own blocks none that shares its id with another, every included
  transaction is out of the pool, refused and recorded; a next step keeps it so exactly when it
  meets this condition.
* `included_transaction_stays_pooled`: a transaction of a peer's block stays in the pool, without a
  record.
-/
namespace TronRs

open TronRs.Core

variable (pf : Platform) (cfg : NodeConfig)

/-- A node, with the transactions of the blocks it has accepted. -/
structure Intake where
  node : Node
  /-- ghost: the transactions of accepted blocks, in order -/
  included : List Transaction := []

inductive IntakeStep where
  | block (bytes : Bytes)
  | produced (b : Block)
  | offer (tx : Transaction) (now : Int64) (validate : WorldState → Transaction → Except String Unit)

/-- One call of `on_block`, `apply_produced` or `admit_transaction`. -/
def Intake.next (s : Intake) : IntakeStep → Intake
  | .block bytes =>
    match onBlock pf cfg s.node bytes, pf.codec.decodeBlock bytes with
    | (some _, n), some b => ⟨n, s.included ++ b.transactions⟩
    | (_, n), _ => { s with node := n }
  | .produced b => ⟨(applyProduced pf s.node b).2, s.included ++ b.transactions⟩
  | .offer tx now validate =>
    match admitTransaction pf s.node.mempool s.node.world tx now validate with
    | .ok (_, mempool) => { s with node := { s.node with mempool } }
    | .error _ => s

/-- A node that has included nothing yet, with a pool built by the pool's own operations. -/
def intake : Lts Intake IntakeStep :=
  .ofFn (fun s => s.included = [] ∧ s.node.world.transaction = ∅ ∧ s.node.mempool.WellFormed pf) (Intake.next pf cfg)

/-- The transaction is not pooled, is refused, and its id leads to it. -/
structure Intake.Out (s : Intake) (tx : Transaction) : Prop where
  notPooled : s.node.mempool.contains (txId pf tx) = false ∧ ∀ p ∈ s.node.mempool.order, txId pf p.2 ≠ txId pf tx
  refused : ∀ now validate, ∃ e, admitTransaction pf s.node.mempool s.node.world tx now validate = .error e
  recorded : s.node.world.getTransaction (txId pf tx).bytes = some tx

/-- A block from a peer brings only transactions included before; a produced block brings none that
shares its id with another one, included before or in the block. -/
def Intake.Traceable (s : Intake) : IntakeStep → Prop
  | .block bytes => ∀ b, Next pf cfg s.node bytes b → b.transactions ⊆ s.included
  | .produced b => ∀ tx ∈ b.transactions, ∀ r ∈ s.included ++ b.transactions, txId pf r = txId pf tx → r = tx
  | .offer .. => True

/-! ## The invariant -/

/-- The pool is well formed, the index holds the included transactions and no others, and none of
them is pooled. -/
structure Intake.Settled (s : Intake) : Prop where
  pool : s.node.mempool.WellFormed pf
  sound : ∀ id r, s.node.world.getTransaction id = some r → r ∈ s.included ∧ (txId pf r).bytes = id
  complete : ∀ tx ∈ s.included, s.node.world.getTransaction (txId pf tx).bytes = some tx
  evicted : ∀ tx ∈ s.included, txId pf tx ∉ s.node.mempool.seen

variable {pf cfg} {s : Intake}

variable (h : s.Settled pf)
include h

lemma Intake.Settled.out {tx : Transaction} (htx : tx ∈ s.included) : s.Out pf tx := by
  have hnot := h.evicted tx htx
  have hrec := h.complete tx htx
  refine ⟨⟨by simpa [Mempool.contains] using hnot, fun p hp heq => hnot ?_⟩, fun now validate => ?_, hrec⟩
  · rw [h.pool.seen, List.mem_toFinset, ← heq, ← h.pool.ids p hp]; exact List.mem_map_of_mem hp
  cases hadm : admitTransaction pf s.node.mempool s.node.world tx now validate with
  | error e => exact ⟨e, rfl⟩
  | ok =>
    have hnone := (admitTransaction_ok hadm).1; rw [hrec] at hnone; cases hnone

omit h in
/-- The record of an id after a produced block: the block's last transaction with this id, or the
record from before. -/
lemma Intake.getTransaction_produced (pf : Platform) (cfg : NodeConfig) (s : Intake) (b : Block) (id : Bytes) :
    (∃ tx ∈ b.transactions, (txId pf tx).bytes = id ∧
      (s.next pf cfg (.produced b)).node.world.getTransaction id = some tx) ∨
    (∀ tx ∈ b.transactions, (txId pf tx).bytes ≠ id) ∧
      (s.next pf cfg (.produced b)).node.world.getTransaction id = s.node.world.getTransaction id := by
  have hget : (s.next pf cfg (.produced b)).node.world.getTransaction id =
      (b.lastWithId pf id).or (s.node.world.getTransaction id) := by
    refine (WorldState.getTransaction_indexBlockTransactions pf _ b id).trans ?_
    rw [WorldState.getTransaction, WorldState.transaction_putBlock]; rfl
  cases hlast : b.lastWithId pf id with
  | some tx =>
    rw [hlast] at hget
    refine .inl ⟨tx, List.mem_reverse.mp (List.mem_of_find?_eq_some hlast), ?_, hget⟩
    simpa using List.find?_some hlast
  | none =>
    rw [hlast] at hget; refine .inr ⟨fun tx htx => ?_, hget⟩
    simpa using List.find?_eq_none.mp hlast tx (List.mem_reverse.mpr htx)

/-- A produced block is indexed and evicted. -/
lemma Intake.Settled.produced {b : Block} (hok : s.Traceable pf cfg (.produced b)) :
    (s.next pf cfg (.produced b)).Settled pf := by
  obtain ⟨hwf, hseen⟩ := h.pool.evictIncluded b
  refine ⟨hwf, fun id r hr => ?_, fun tx htx => ?_, fun tx htx hin => ?_⟩
  · obtain ⟨tx, htx, hid, hnew⟩ | ⟨-, hold⟩ := s.getTransaction_produced pf cfg b id
    · cases hnew.symm.trans hr; exact ⟨List.mem_append_right _ htx, hid⟩
    · obtain ⟨hmem, hid⟩ := h.sound id r (hold.symm.trans hr)
      exact ⟨List.mem_append_left _ hmem, hid⟩
  · obtain ⟨r, hr, hid, hnew⟩ | ⟨hnone, hold⟩ :=
      s.getTransaction_produced pf cfg b (txId pf tx).bytes
    · obtain rfl : tx = r := hok r hr tx htx (H256.ext hid.symm)
      exact hnew
    · rcases List.mem_append.mp htx with htx | htx
      · exact hold.trans (h.complete tx htx)
      · exact absurd rfl (hnone tx htx)
  · obtain ⟨hin, hall⟩ := (hseen _).mp hin
    rcases List.mem_append.mp htx with htx | htx
    · exact h.evicted tx htx hin
    · exact hall tx htx rfl

/-- What is admitted has not been included. -/
lemma Intake.Settled.offer (tx : Transaction) (now : Int64)
    (validate : WorldState → Transaction → Except String Unit) :
    (s.next pf cfg (.offer tx now validate)).Settled pf := by
  unfold next; dsimp only
  split
  · rename_i id pool hadm; obtain ⟨hnone, hadd⟩ := admitTransaction_ok hadm
    obtain ⟨hwf, hseen⟩ := h.pool.add hadd; refine ⟨hwf, h.sound, h.complete, fun r hr hin => ?_⟩
    change txId pf r ∈ pool.seen at hin; rw [hseen, Finset.mem_insert] at hin
    rcases hin with heq | hin
    · have hsome := h.complete r hr; rw [heq, hnone] at hsome; cases hsome
    · exact h.evicted r hr hin
  · exact h

omit h in
/-- The transactions of a stored block count as included, and nothing else changes for them. -/
lemma Intake.next_block (pf : Platform) (cfg : NodeConfig) (s : Intake) (bytes : Bytes) :
    (∃ b, Next pf cfg s.node bytes b ∧ (s.next pf cfg (.block bytes)).included = s.included ++ b.transactions ∧
      (s.next pf cfg (.block bytes)).node.world.transaction = s.node.world.transaction ∧
      (s.next pf cfg (.block bytes)).node.mempool = s.node.mempool) ∨
    (∀ b, ¬ Next pf cfg s.node bytes b) ∧ s.next pf cfg (.block bytes) = s := by
  by_cases hnext : ∃ b, Next pf cfg s.node bytes b
  · obtain ⟨b, hb⟩ := hnext; refine .inl ⟨b, hb, ?_⟩; have hnode := onBlock_of_next hb
    have hconf := confirms_receive pf (s.node.store pf b) (blockCommit pf cfg s.node.world bytes)
    have heq : s.next pf cfg (.block bytes) = ⟨(onBlock pf cfg s.node bytes).2, s.included ++ b.transactions⟩ := by
      unfold next; dsimp only; rw [hb.decoded, onBlock_eq_of_next hb]
    rw [heq, hnode]
    exact ⟨rfl, hconf.transactions.trans (WorldState.transaction_putBlock _ _ _), hconf.mempool⟩
  · have hno := fun b hb => hnext ⟨b, hb⟩
    refine .inr ⟨hno, ?_⟩; unfold next; dsimp only
    rw [onBlock_eq_of_not_next hno]

lemma Intake.Settled.block {bytes : Bytes} (hok : s.Traceable pf cfg (.block bytes)) :
    (s.next pf cfg (.block bytes)).Settled pf := by
  obtain ⟨b, hb, hinc, htx, hpool⟩ | ⟨-, heq⟩ := s.next_block pf cfg bytes
  · have hold : ∀ tx ∈ (s.next pf cfg (.block bytes)).included, tx ∈ s.included := by
      intro tx hmem; rw [hinc] at hmem
      exact (List.mem_append.mp hmem).elim id fun hmem => hok b hb hmem
    refine ⟨by rw [hpool]; exact h.pool, fun id r hr => ?_, fun tx hmem => ?_, fun tx hmem => ?_⟩
    · rw [WorldState.getTransaction, htx] at hr; obtain ⟨hr, hid⟩ := h.sound id r hr; rw [hinc]
      exact ⟨List.mem_append_left _ hr, hid⟩
    · rw [WorldState.getTransaction, htx]; exact h.complete tx (hold tx hmem)
    · rw [hpool]; exact h.evicted tx (hold tx hmem)
  · rw [heq]; exact h

variable {l : IntakeStep}

lemma Intake.Settled.next (hok : s.Traceable pf cfg l) : (s.next pf cfg l).Settled pf := by
  cases l with
  | block => exact h.block hok
  | produced => exact h.produced hok
  | offer tx now validate => exact h.offer tx now validate

/-- A step that keeps included transactions out meets the condition: a peer's block leaves a new
transaction without a record, and of two transactions with one id only one has it. -/
lemma Intake.Settled.traceable
    (hout : ∀ tx ∈ (s.next pf cfg l).included, (s.next pf cfg l).Out pf tx) : s.Traceable pf cfg l := by
  cases l with
  | offer => exact trivial
  | produced =>
    intro tx htx r hr hid; have hrec := (hout tx (List.mem_append_right _ htx)).recorded
    have hrec' := (hout r hr).recorded; rw [hid, hrec] at hrec'; exact (Option.some.inj hrec').symm
  | block bytes =>
    intro b hb tx hmem
    obtain ⟨b', hb', hinc, htx, -⟩ | ⟨hno, -⟩ := s.next_block pf cfg bytes
    · cases hb.decoded.symm.trans hb'.decoded
      have hrec := (hout tx (by rw [hinc]; exact List.mem_append_right _ hmem)).recorded
      rw [WorldState.getTransaction, htx] at hrec; exact (h.sound _ tx hrec).1
    · exact absurd hb (hno b)

omit h

/-- **Included transactions stay out.** In every run in which blocks from peers bring only
transactions included before, and produced blocks none that shares its id with another, every
transaction of an accepted block is out of the pool, refused by every admission, and recorded under
its id; and a next step keeps it so exactly when it meets the condition. -/
theorem included_transactions_stay_out {t : Intake} {ls : List IntakeStep} (h0 : (intake pf cfg).init s)
    (hrun : ((intake pf cfg).guard (Intake.Traceable pf cfg)).Run s ls t) :
    (∀ tx ∈ t.included, t.Out pf tx) ∧ ∀ l u, (intake pf cfg).step t l u →
      ((∀ tx ∈ u.included, u.Out pf tx) ↔ t.Traceable pf cfg l) := by
  have hsettled : t.Settled pf := by
    refine hrun.preserves (fun s l t hs hstep => ?_) ?_
    · obtain ⟨hok, rfl⟩ := hstep; exact hs.next hok
    obtain ⟨hinc, htx, hwf⟩ := h0
    refine ⟨hwf, fun id r hr => ?_, fun tx hmem => ?_, fun tx hmem => ?_⟩
    · rw [WorldState.getTransaction, htx] at hr; cases hr
    · rw [hinc] at hmem; cases hmem
    · rw [hinc] at hmem; cases hmem
  refine ⟨fun tx htx => hsettled.out htx, ?_⟩; rintro l _ rfl
  exact ⟨hsettled.traceable, fun hok tx htx => (hsettled.next hok).out htx⟩

/-! ## Runs on fixed inputs -/

/-- A block of the only witness on top of the genesis block, with one transfer. -/
def transferBlock : Block := { childBlock with transactions := [transferTx 1] }

/-- A platform that decodes this block, one without transactions, and the transfer; transactions
have an empty encoding, so that a block's only transaction has the root of an empty block. -/
def transferBlocks : Platform :=
  let pf := blockPlatform [transferBlock, childBlock]
  { pf with codec := { pf.codec with
      txRaw := transferPlatform.codec.txRaw
      decode := transferPlatform.codec.decode } }

/-- The node at the genesis block, with the transfer in its pool. -/
def pooledTransfer : Intake where
  node := { genesisNode with
    mempool := { order := [(txId transferBlocks (transferTx 1), transferTx 1)]
                 seen := {txId transferBlocks (transferTx 1)} } }

lemma wellFormed_pooledTransfer : pooledTransfer.node.mempool.WellFormed transferBlocks where
  ids p hp := by
    obtain rfl := List.mem_singleton.mp hp; rfl
  nodup := List.nodup_singleton _
  seen := rfl

/-- The node applies a block of its own with the pooled transfer. -/
theorem included_transactions_stay_out_produced : ∃ t,
    ((intake transferBlocks relay).guard (Intake.Traceable transferBlocks relay)).Run pooledTransfer
      [.produced transferBlock] t ∧ transferTx 1 ∈ t.included ∧ ∀ tx ∈ t.included, t.Out transferBlocks tx := by
  have hok : pooledTransfer.Traceable transferBlocks relay (.produced transferBlock) := by
    intro tx htx r hr _; obtain rfl := List.mem_singleton.mp htx; exact List.mem_singleton.mp hr
  have hrun : ((intake transferBlocks relay).guard (Intake.Traceable transferBlocks relay)).Run pooledTransfer
      [.produced transferBlock] _ := .cons ⟨hok, rfl⟩ (.nil _)
  exact ⟨_, hrun, List.mem_singleton_self _,
    (included_transactions_stay_out ⟨rfl, rfl, wellFormed_pooledTransfer⟩ hrun).1⟩

/-- The same block from a peer: the transfer stays in the pool and has no record. -/
theorem included_transaction_stays_pooled : ∃ pf cfg s bytes t tx, (intake pf cfg).init s ∧
    (intake pf cfg).Run s [.block bytes] t ∧ tx ∈ t.included ∧ t.node.mempool.contains (txId pf tx) = true ∧
    t.node.world.getTransaction (txId pf tx).bytes = none := by
  refine ⟨transferBlocks, relay, pooledTransfer, [0], _, transferTx 1, ⟨rfl, rfl, wellFormed_pooledTransfer⟩,
    .cons rfl (.nil _), by decide +kernel, by decide +kernel, by decide +kernel⟩

end TronRs

import TronRs.Core.Lts
import TronRs.L3Actuators.ChainStore

/-!
# Replay protection

`process_block` executes the transactions of a block, stores the block and indexes the
transactions by id. The index is written, but nothing reads it: neither `apply_block` nor
`apply_transaction` asks whether an id was executed before.

* `executes_once`: in every run in which each block brings ids that are pairwise distinct,
  not in the index and not from a rejected block, no id is executed twice.
* `repeated_transfer_executes_twice`: a block with one transfer in it twice pays twice.
-/
namespace TronRs

open TronRs.Core

variable (pf : Platform)

/-- The ids of a block's transactions. -/
def txIds (txs : List Transaction) : List H256 := txs.map (txId pf)

/-- The ids of the transactions that are executed with success: those before the first that
fails. -/
def executedIds : List Transaction → WorldState → List H256
  | [], _ => []
  | tx :: txs, s =>
    match applyTransaction pf tx s with
    | .ok _ t => txId pf tx :: executedIds txs t
    | .error _ _ => []

lemma executedIds_prefix (txs : List Transaction) (s : WorldState) : executedIds pf txs s <+: txIds pf txs := by
  induction txs generalizing s with
  | nil => exact List.nil_prefix
  | cons tx txs ih =>
    unfold executedIds
    split
    · rename_i t _; exact List.cons_prefix_cons.mpr ⟨rfl, ih t⟩
    · exact List.nil_prefix

/-- A node that processes blocks, with two records beside it that it does not keep itself: the
ids executed so far, in order, and the ids of the blocks it rejected. -/
structure Processing where
  state : WorldState
  executed : List H256
  rejected : List H256

/-- One call of `process_block`; a rejected block leaves the state as far as it got. -/
def Processing.next (p : Processing) (b : Block) : Processing :=
  let executed := p.executed ++ executedIds pf b.transactions p.state
  match processBlock pf b p.state with
  | .ok _ t => ⟨t, executed, p.rejected⟩
  | .error _ t => ⟨t, executed, p.rejected ++ txIds pf b.transactions⟩

/-- Any blocks, from any state with an empty transaction index. -/
def processing : Lts Processing Block :=
  .ofFn (fun p => p.state.transaction = ∅ ∧ p.executed = [] ∧ p.rejected = []) (·.next pf ·)

/-- The condition on a block: its ids are pairwise distinct, and none is in the index or comes
from a rejected block. -/
@[mk_iff] structure Fresh (p : Processing) (b : Block) : Prop where
  distinct : (txIds pf b.transactions).Nodup
  unseen : ∀ id ∈ txIds pf b.transactions, p.state.getTransaction id.bytes = none ∧ id ∉ p.rejected

instance (p : Processing) (b : Block) : Decidable (Fresh pf p b) := decidable_of_iff _ (fresh_iff pf p b).symm

/-! ## The index -/

variable {pf} {b : Block}

/-- Indexing adds the block's ids and forgets none. -/
lemma isSome_getTransaction_foldl {txs : List Transaction} {s : WorldState} {id : H256}
    (h : (s.getTransaction id.bytes).isSome ∨ id ∈ txIds pf txs) :
    ((txs.foldl (fun s tx => s.putTransaction (txId pf tx).bytes tx) s).getTransaction id.bytes).isSome := by
  induction txs generalizing s with
  | nil => exact h.resolve_right (List.not_mem_nil)
  | cons tx txs ih =>
    refine ih ?_; show ((s.transaction.put (txId pf tx).bytes tx).get id.bytes).isSome ∨ _
    by_cases hid : id = txId pf tx
    · rw [hid, get_put_self]; exact .inl rfl
    rcases h with h | h
    · rw [get_put]
      split
      · exact .inl rfl
      · exact .inl h
    · exact .inr ((List.mem_cons.mp h).resolve_left hid)

lemma transaction_applyBlock {s t : WorldState} {results : List ExecutionResult}
    (h : applyBlock pf b s = .ok results t) : t.transaction = s.transaction :=
  congrArg Outside.transaction ((Frame.mapM (frame_applyTransaction pf) b.transactions).ok h)

variable (pf) in
/-- A processed block is indexed; a rejected one leaves the index alone. -/
lemma getTransaction_processBlock (b : Block) (s : WorldState) : wp (processBlock pf b) s
      (fun _ t => ∀ id, (s.getTransaction id.bytes).isSome ∨ id ∈ txIds pf b.transactions →
        (t.getTransaction id.bytes).isSome) (fun _ t => t.transaction = s.transaction) := by
  unfold processBlock; rw [wp_bind]
  cases hb : applyBlock pf b s with
  | error =>
    exact wp_of_error hb
      (congrArg Outside.transaction ((Frame.mapM (frame_applyTransaction pf) b.transactions).error hb))
  | ok =>
    refine wp_of_ok hb ?_; simp only [wp_bind, wp_modify, wp_pure]; intro id hid
    refine isSome_getTransaction_foldl ?_
    rw [WorldState.getTransaction, WorldState.transaction_putBlock, transaction_applyBlock hb]
    exact hid

/-! ## Runs -/

/-- No id was executed twice, and every executed id is in the index or was rejected. -/
structure OnceOnly (p : Processing) : Prop where
  nodup : p.executed.Nodup
  known : ∀ id ∈ p.executed, (p.state.getTransaction id.bytes).isSome ∨ id ∈ p.rejected

lemma onceOnly_next {p : Processing} (h : OnceOnly p) (hf : Fresh pf p b) : OnceOnly (p.next pf b) := by
  have hpre := executedIds_prefix pf b.transactions p.state
  have hnodup : (p.executed ++ executedIds pf b.transactions p.state).Nodup := by
    refine List.nodup_append.mpr ⟨h.nodup, hf.distinct.sublist hpre.sublist, fun x hx y hy heq => ?_⟩
    obtain ⟨hnone, hrej⟩ := hf.unseen y (hpre.subset hy)
    rcases h.known x hx with hsome | hmem
    · rw [heq, hnone] at hsome; cases hsome
    · exact hrej (heq ▸ hmem)
  have hw := getTransaction_processBlock pf b p.state
  unfold Processing.next
  cases hp : processBlock pf b p.state with
  | ok =>
    have hindex := ok_of_wp hw hp; refine ⟨hnodup, fun id hid => ?_⟩
    rcases List.mem_append.mp hid with hid | hid
    · exact (h.known id hid).imp_left fun hsome => hindex id (.inl hsome)
    · exact .inl (hindex id (.inr (hpre.subset hid)))
  | error =>
    have hindex := error_of_wp hw hp; refine ⟨hnodup, fun id hid => ?_⟩
    rw [WorldState.getTransaction, hindex]
    rcases List.mem_append.mp hid with hid | hid
    · exact (h.known id hid).imp_right fun hmem => List.mem_append_left _ hmem
    · exact .inr (List.mem_append_right _ (hpre.subset hid))

/-- **Replay protection.** In every run of `process_block` from a state with an empty index in
which every block is fresh, each id is executed at most once. -/
theorem executes_once {p q : Processing} {bs : List Block} (h0 : (processing pf).init p)
    (hrun : ((processing pf).guard (Fresh pf)).Run p bs q) : q.executed.Nodup := by
  have hinv : OnceOnly q := by
    refine hrun.preserves (fun p b q hp hstep => ?_) ⟨?_, ?_⟩
    · obtain ⟨hfresh, rfl⟩ := hstep; exact onceOnly_next hp hfresh
    · rw [h0.2.1]; exact .nil
    · rw [h0.2.1]
      exact fun id hid => absurd hid List.not_mem_nil
  exact hinv.nodup

/-! ## Runs on fixed inputs -/

/-- The encoding of a transfer of five from `0xaa` to `0xbb`. -/
def transferBytes : Bytes :=
  0x0a :: 21 :: (Address.ofNat 0xaa).asBytes ++ 0x12 :: 21 :: (Address.ofNat 0xbb).asBytes ++ [0x18, 5]

/-- A platform whose decoder reads that encoding, and whose ids tell timestamps apart. -/
def transferPlatform : Platform where
  crypto := { Platform.blank.crypto with
    sha256 := fun b => (H256.ofSlice (List.replicate 24 0 ++ b)).getD H256.zero }
  floats := Platform.blank.floats
  codec := { Platform.blank.codec with
    txRaw := fun raw => numberBytes raw.timestamp
    decode := fun ty b => match ty with
      | .transfer =>
        if b = transferBytes then
          .ok { ownerAddress := (Address.ofNat 0xaa).asBytes, toAddress := (Address.ofNat 0xbb).asBytes, amount := 5 }
        else .error "not decoded"
      | _ => .error "not decoded" }

def transferTx (timestamp : Int64) : Transaction :=
  { rawData := some { contract := [{ type := 1, parameter := some { value := transferBytes } }], timestamp } }

/-- Two accounts, with money on the first. -/
def payers : Processing where
  state :=
    { account := ((∅ : Column Address Account).put (Address.ofNat 0xaa) { balance := 100 }).put
        (Address.ofNat 0xbb) {} }
  executed := []
  rejected := []

/-- Two blocks with a transfer each: both are fresh, and both transfers are executed. -/
theorem executes_once_transfers : ∃ q, ((processing transferPlatform).guard (Fresh transferPlatform)).Run payers
      [{ transactions := [transferTx 1] }, { transactions := [transferTx 2] }] q ∧
    q.executed.length = 2 ∧ q.executed.Nodup := by
  have h : (Lts.exec (fun p b => if Fresh transferPlatform p b then some (p.next transferPlatform b) else none) payers
      [{ transactions := [transferTx 1] }, { transactions := [transferTx 2] }]).map (·.executed.length) = some 2 := by
    decide +kernel
  obtain ⟨q, hrun, hq⟩ := Lts.Run.exists_of_exec (M := (processing transferPlatform).guard (Fresh transferPlatform))
    (fun p b q hnext => by
      split at hnext
      · rename_i hfresh; exact ⟨hfresh, (Option.some.inj hnext).symm⟩
      · cases hnext) h
  exact ⟨q, hrun, hq, executes_once ⟨rfl, rfl, rfl⟩ hrun⟩

/-- A block that holds one transfer twice is processed without an error, and five is paid
twice. -/
theorem repeated_transfer_executes_twice : ∃ pf p b q, (processing pf).init p ∧ (processing pf).Run p [b] q ∧
    ¬ q.executed.Nodup ∧ q.rejected = [] ∧ (q.state.getAccount (Address.ofNat 0xbb)).map Account.balance = some 10 := by
  refine ⟨transferPlatform, payers, { transactions := [transferTx 1, transferTx 1] }, _, ⟨rfl, rfl, rfl⟩,
    .cons rfl (.nil _), ?_⟩
  decide +kernel

end TronRs

import TronRs.L5Node.Gossip
import TronRs.L5Node.Progress

/-!
# The cache of commits

Commits arrive one after the other, as any bytes, while the chain goes on: its head may rise, and
the witnesses and the switch for PBFT may change. Every call of `on_pbft_commit` is one frame that
`handle_frame` reads.

* `commit_cache_discipline`: the cache covers the heights from the final one to a bounded distance
  above the head; its entries come from commits of active witnesses while PBFT was on; and a commit
  of a witness for a height is sent on at most once, also when the height has left the cache.
-/
namespace TronRs

open TronRs.Core

/-- A peer, and what has been delivered to it. -/
structure CommitRun where
  peer : Peer
  /-- ghost: the calls of the handler, with the node before each of them -/
  calls : List (Node × Bytes) := []
  /-- ghost: the commits for which the handler has returned true -/
  relayed : List Bytes := []

inductive CommitStep where
  | commit (now : Int64) (bytes : Bytes)
  | chain (world : WorldState)

section
variable (pf : Platform) (cfg : NodeConfig) (decodeTx : Bytes → Option Transaction)

/-- The height and the signer of a commit. -/
def commitPair (bytes : Bytes) : Option (Int64 × Bytes) :=
  (PbftCommit.decode bytes).bind fun c => (c.recoverSigner pf).map fun signer => (c.blockNum, signer.asBytes)

def CommitRun.next (s : CommitRun) : CommitStep → CommitRun
  | .commit now bytes =>
    { peer := (s.peer.handle pf cfg decodeTx now ⟨.pbftCommit, bytes⟩).1
      calls := s.calls ++ [(s.peer.node, bytes)]
      relayed := if (onPbftCommit pf s.peer.node bytes).1 then s.relayed ++ [bytes] else s.relayed }
  | .chain world => { s with peer := { s.peer with node := { s.peer.node with world } } }

/-- Commits arrive in any order, and between them the head does not fall and nothing else moves finality. -/
def commitCalls : Lts CommitRun CommitStep where
  init s := s.peer.node.confirmations = ∅ ∧ s.peer.queue = [] ∧ s.calls = [] ∧ s.relayed = []
  step s l t := (∀ world, l = .chain world → s.peer.node.head ≤ world.getProp .latestBlockNumber ∧
    world.getSolidifiedBlock = s.peer.node.solidified) ∧ t = s.next pf cfg decodeTx l

/-- The signer is recorded because of a commit for the height, delivered while PBFT was on and the signer active. -/
def CommitRun.Delivered (s : CommitRun) (k : Int64) (x : Bytes) : Prop :=
  ∃ n bytes c, (n, bytes) ∈ s.calls ∧ PbftCommit.decode bytes = some c ∧ c.blockNum = k ∧ c.SignedBy pf x ∧
    x ∈ n.world.getActiveWitnesses ∧ n.world.getProp .allowPbft = 1

/-- What holds after any number of calls. -/
structure CommitRun.Inv (s : CommitRun) : Prop where
  window : ∀ k signers, s.peer.node.confirmations.get k = some signers →
    s.peer.node.solidified ≤ k ∧ k.toInt ≤ s.peer.node.head.toInt + 1024
  delivered : ∀ k, ∀ x ∈ s.peer.node.signersAt k, s.Delivered pf k x
  queue : s.peer.queue = s.relayed.map .pbftCommit
  /-- what was sent on is still recorded, or finality has passed it -/
  remembered : ∀ bytes ∈ s.relayed, ∀ k x, commitPair pf bytes = some (k, x) →
    x ∈ s.peer.node.signersAt k ∨ k < s.peer.node.solidified
  once : ∀ k x, s.relayed.countP (commitPair pf · = some (k, x)) ≤ 1

end

section
variable {pf : Platform} {cfg : NodeConfig} {decodeTx : Bytes → Option Transaction} {n : Node} {bytes : Bytes}
variable {k : Int64} {a : Admission}
  {c : PbftCommit} {x : Bytes} {s t : CommitRun}

/-- While PBFT is off, a commit changes nothing. -/
lemma onPbftCommit_of_off (h : n.world.getProp .allowPbft ≠ 1) : onPbftCommit pf n bytes = (false, n) := by
  obtain ⟨c, x, hc, -⟩ | ⟨-, heq⟩ := onPbftCommit_cases pf n bytes
  · have hacc := hc.accept; simp [acceptPbftMessage, h] at hacc
  · exact heq

lemma Admits.allowPbft (h : Admits pf n bytes c x) : n.world.getProp .allowPbft = 1 := by
  have hacc := h.accept; by_contra hne; simp [acceptPbftMessage, hne] at hacc

lemma Admits.commitPair (h : Admits pf n bytes c x) : commitPair pf bytes = some (c.blockNum, x) := by
  obtain ⟨signer, hrec, rfl⟩ := h.signed; simp [TronRs.commitPair, h.decoded, hrec]

/-! ## What counting does to the cache -/

/-- A height is cached because it was or because it is the commit's, and finality has not passed it. -/
lemma Node.get_confirmations_count {signers : Finset Bytes} (h : (n.count a).confirmations.get k = some signers) :
    ((∃ old, n.confirmations.get k = some old) ∨ k = a.commit.blockNum) ∧
      ((n.count a).solidified = n.solidified ∨ (n.count a).solidified ≤ k) := by
  have hrecorded : (n.recorded a).get k = some signers →
      (∃ old, n.confirmations.get k = some old) ∨ k = a.commit.blockNum := by
    intro hget; rw [recorded, get_put] at hget
    split at hget
    · exact .inr ‹_›
    · exact .inl ⟨signers, hget⟩
  cases hs : newSolidified (n.recorded a) a with
  | none =>
    refine ⟨hrecorded ?_, .inl (solidified_count_of_none hs)⟩; rwa [count_of_none hs] at h
  | some =>
    rw [solidified_count_of_some hs]
    rw [count_of_some hs, pruneBelowSolidified, Column.get_retain] at h
    split at h
    · exact ⟨hrecorded h, .inr ‹_›⟩
    · cases h

/-- A signer that is recorded stays so until finality has passed its height. -/
lemma Node.mem_signersAt_count (h : x ∈ ((n.recorded a).get k).getD ∅) :
    x ∈ (n.count a).signersAt k ∨ k < (n.count a).solidified := by
  by_cases hle : (n.count a).solidified ≤ k
  · exact .inl (by rwa [signersAt_count_of_le hle])
  · exact .inr (Int64.not_le.mp hle)

/-! ## Runs -/

/-- The handler of a commit frame sends the commit on when `on_pbft_commit` returns true. -/
lemma handle_pbftCommit (p : Peer) (now : Int64) (bytes : Bytes) :
    (p.handle pf cfg decodeTx now ⟨.pbftCommit, bytes⟩).1 = ⟨(onPbftCommit pf p.node bytes).2,
        p.queue ++ if (onPbftCommit pf p.node bytes).1 then [.pbftCommit bytes] else []⟩ := by
  by_cases hne : bytes = []
  · -- an empty frame is not handed over, and could not be decoded
    have hnone : onPbftCommit pf p.node [] = (false, p.node) := by
      unfold onPbftCommit readCommit; split <;> simp_all [PbftCommit.decode, PbftCommit.encodedLen]
    subst hne; simp [Peer.handle, handleFrame, hnone]
  · unfold Peer.handle handleFrame; dsimp only; rw [if_neg hne]
    cases hcommit : onPbftCommit pf p.node bytes with
    | mk relay =>
      cases relay <;> simp [nodeChannelHandler, hcommit, Peer.advertise]

namespace CommitRun

lemma Delivered.mono (h : s.Delivered pf k x) (hcalls : s.calls ⊆ t.calls) : t.Delivered pf k x := by
  obtain ⟨m, b, d, hmem, hrest⟩ := h; exact ⟨m, b, d, hcalls hmem, hrest⟩

lemma Inv.count (h : s.Inv pf) (hc : Counts pf s.peer.node bytes c x) :
    Inv pf ⟨⟨s.peer.node.count (s.peer.node.admission c x), s.peer.queue ++ [.pbftCommit bytes]⟩,
      s.calls ++ [(s.peer.node, bytes)], s.relayed ++ [bytes]⟩ := by
  have hlow := lt_iff_toInt_lt.mp hc.window.1
  have hhigh := le_iff_toInt_le.mp hc.window.2
  have hsat : (s.peer.node.head.saturatingAdd maxPbftFutureBlocks).toInt ≤ s.peer.node.head.toInt + 1024 :=
    Int64.saturatingAdd_le (by decide)
  have hmono := le_iff_toInt_le.mp (s.peer.node.solidified_le_count c x)
  have hpair := hc.toAdmits.commitPair
  refine ⟨fun k signers hget => ?_, fun k y hy => ?_, ?_, fun b hb k y hby => ?_, fun k y => ?_⟩
  · obtain ⟨hold | rfl, hpassed⟩ := Node.get_confirmations_count hget
    · obtain ⟨old, hold⟩ := hold
      have hwin := h.window k old hold; refine ⟨?_, by rw [Node.head_count]; exact hwin.2⟩
      exact hpassed.elim (fun heq => heq ▸ hwin.1) id
    · refine ⟨?_, by rw [Node.head_count]; exact hhigh.trans hsat⟩
      exact hpassed.elim (fun heq => by rw [heq, le_iff_toInt_le]; exact hlow.le) id
  · rcases Node.mem_recorded.mp (Node.signersAt_count_subset _ _ _ hy) with ⟨rfl, rfl⟩ | hy
    · exact ⟨s.peer.node, bytes, c, by simp, hc.decoded, rfl, hc.signed, hc.active, hc.toAdmits.allowPbft⟩
    · exact (h.delivered k y hy).mono (List.subset_append_left _ _)
  · simp [h.queue]
  · rcases List.mem_append.mp hb with hb | hb
    · rcases h.remembered b hb k y hby with hy | hlt
      · exact Node.mem_signersAt_count (Node.mem_recorded.mpr (.inr hy))
      · rw [lt_iff_toInt_lt] at hlt; exact .inr (lt_iff_toInt_lt.mpr (hlt.trans_le hmono))
    · obtain rfl := List.mem_singleton.mp hb
      obtain ⟨rfl, rfl⟩ := Prod.mk.inj (Option.some.inj (hpair.symm.trans hby))
      exact Node.mem_signersAt_count (Node.mem_recorded.mpr (.inl ⟨rfl, rfl⟩))
  · rw [List.countP_append]
    by_cases hky : commitPair pf bytes = some (k, y)
    · -- sent on before, the commit would have been recorded, or its height passed
      obtain ⟨rfl, rfl⟩ := Prod.mk.inj (Option.some.inj (hpair.symm.trans hky))
      have hnone : s.relayed.countP (commitPair pf · = some (c.blockNum, x)) = 0 := by
        refine List.countP_eq_zero.mpr fun b hb hby => ?_
        rcases h.remembered b hb _ _ (of_decide_eq_true hby) with hy | hlt
        · exact hc.fresh hy
        · exact absurd (lt_iff_toInt_lt.mp hlt) (by omega)
      simp [hnone, hky]
    · simp [hky, h.once k y]

/-- **One step keeps the discipline.** -/
theorem Inv.next {l : CommitStep} (h : s.Inv pf) (hl : (commitCalls pf cfg decodeTx).step s l t) : t.Inv pf := by
  obtain ⟨hchain, rfl⟩ := hl
  cases l with
  | commit now bytes =>
    simp only [CommitRun.next]; rw [handle_pbftCommit]
    obtain ⟨c, x, hc, heq⟩ | ⟨-, heq⟩ := onPbftCommit_cases pf s.peer.node bytes
    · rw [heq]; exact h.count hc
    · rw [heq]; simp only [Bool.false_eq_true, if_false, List.append_nil]
      exact ⟨h.window, fun k y hy => (h.delivered k y hy).mono (List.subset_append_left _ _), h.queue, h.remembered,
        h.once⟩
  | chain world =>
    obtain ⟨hhead, hsolid⟩ := hchain world rfl
    have hsolid : (s.next pf cfg decodeTx (.chain world)).peer.node.solidified = s.peer.node.solidified := hsolid
    rw [le_iff_toInt_le] at hhead
    refine ⟨fun k signers hget => ?_, h.delivered, h.queue, fun b hb k y hby => ?_, h.once⟩
    · obtain ⟨hlow, hhigh⟩ := h.window k signers hget
      exact ⟨hsolid ▸ hlow, hhigh.trans (Int.add_le_add_right hhead 1024)⟩
    · rw [hsolid]; exact h.remembered b hb k y hby

end CommitRun

/-- **The discipline of the commit cache.** After any commits, with the chain going on between
them: every cached height is between the final one and the head plus 1024; every signer at a height
is there because of a commit for it that was delivered while PBFT was on and the signer was an
active witness; while PBFT is off a commit changes nothing; and for every height and signer at most
one commit has been sent on. -/
theorem commit_cache_discipline {ls : List CommitStep} (h0 : (commitCalls pf cfg decodeTx).init s)
    (hrun : (commitCalls pf cfg decodeTx).Run s ls t) : (∀ k signers, t.peer.node.confirmations.get k = some signers →
      t.peer.node.solidified ≤ k ∧ k.toInt ≤ t.peer.node.head.toInt + 1024) ∧
    (∀ k, ∀ x ∈ t.peer.node.signersAt k, t.Delivered pf k x) ∧
    (t.peer.node.world.getProp .allowPbft ≠ 1 → ∀ bytes, onPbftCommit pf t.peer.node bytes = (false, t.peer.node)) ∧
    t.peer.queue = t.relayed.map .pbftCommit ∧ ∀ k x, t.relayed.countP (commitPair pf · = some (k, x)) ≤ 1 := by
  obtain ⟨hcache, hqueue, -, hrelayed⟩ := h0
  have hstart : s.Inv pf := by
    refine ⟨fun k signers hget => ?_, fun k x hx => ?_, by simp [hqueue, hrelayed], ?_, ?_⟩
    · rw [hcache, get_empty] at hget; cases hget
    · simp [Node.signersAt, hcache] at hx
    · simp [hrelayed]
    · simp [hrelayed]
  have hinv : t.Inv pf := hrun.preserves (fun _ _ _ hs hl => hs.next hl) hstart
  exact ⟨hinv.window, hinv.delivered, fun hoff bytes => onPbftCommit_of_off hoff, hinv.queue, hinv.once⟩

/-- The commit of the only witness for height 1 arrives three times, the last time after finality has passed the
height and its entry is gone: it is sent on once. -/
theorem commit_cache_discipline_thrice : ∃ ls t, (commitCalls (blockPlatform []) relay fun _ => none).Run
    ⟨⟨threeBlocks, []⟩, [], []⟩ ls t ∧ t.calls.length = 4 ∧ t.peer.node.solidified = 2 ∧
    t.relayed = [soleCommit 1, soleCommit 2] ∧
    t.relayed.countP (commitPair (blockPlatform []) · = some (1, (Address.ofNat 0xaa).asBytes)) ≤ 1 := by
  let step := CommitRun.next (blockPlatform []) relay fun _ => none
  let one : CommitStep := .commit 0 (soleCommit 1)
  let s1 := step (step ⟨⟨threeBlocks, []⟩, [], []⟩ one) one
  let t := step (step s1 (.commit 0 (soleCommit 2))) one
  have hfree : ∀ (u : CommitRun) bytes, (commitCalls (blockPlatform []) relay fun _ => none).step u (.commit 0 bytes)
      (step u (.commit 0 bytes)) := fun u bytes => ⟨fun world h => (by cases h), rfl⟩
  have hrun : (commitCalls (blockPlatform []) relay fun _ => none).Run ⟨⟨threeBlocks, []⟩, [], []⟩
      [one, one, .commit 0 (soleCommit 2), one] t :=
    .cons (hfree _ _) (.cons (hfree _ _) (.cons (hfree _ _) (.cons (hfree _ _) (.nil _))))
  exact ⟨_, t, hrun, by decide +kernel, by decide +kernel, by decide +kernel,
    (commit_cache_discipline ⟨rfl, rfl, rfl, rfl⟩ hrun).2.2.2.2 _ _⟩

end

end TronRs

import TronRs.L5Node.Net

/-!
# What a solidified block rests on

`on_pbft_commit` counts, for a height, the witnesses that have committed to it, whatever block
their commits name. As long as no commit that is counted names another block than the one the
node stores (or will store) at its height, a solidified height rests on a quorum of commits to
the stored block.

* `solidified_rests_on_quorum`: that quorum, in every run whose messages agree with the chain.
* `solidified_by_commit_to_other_block`: without the agreement, a block is solidified by a commit
  that names another block.
-/
namespace TronRs

open TronRs.Core

variable (pf : Platform) (cfg : NodeConfig)

/-- The node stores the block that a commit names, at the commit's height. -/
def Node.Stores (n : Node) (c : PbftCommit) : Prop :=
  ∃ b, n.world.getBlockByNum c.blockNum = some b ∧ blockIdOf pf b = some c.blockId

/-- Enough distinct active witnesses have sent a commit to the block stored at height `k`. -/
def RestsOnQuorum (active : List Bytes) (n : Node) (k : Int64) : Prop :=
  ∃ signers : Finset Bytes, finalityThreshold active.length ≤ signers.card ∧ ∀ x ∈ signers, x ∈ active ∧
    ∃ c ∈ n.accepted, c.blockNum = k ∧ c.SignedBy pf x ∧ n.Stores pf c

/-- Peers send blocks and commits in any order; the witnesses are fixed and nothing is final. -/
def peers (active : List Bytes) : Lts Node PeerMessage := .ofFn (·.Starts active) (deliver pf cfg)

/-- A message that does not contradict what the node knows: a block is the one that the commits
counted for its height name, and a commit that will be counted for a height of the chain names the
block stored there. -/
def Agrees (n : Node) : PeerMessage → Prop
  | .block bytes => ∀ b, Next pf cfg n bytes b → ∀ c ∈ n.accepted, c.blockNum = b.number →
      blockIdOf pf b = some c.blockId
  | .commit bytes => ∀ c x, Counts pf n bytes c x → c.blockNum ≤ n.head → n.Stores pf c

/-! ## The invariant -/

/-- Cached signers come from counted commits, these name stored blocks as far as the chain
reaches, and what is final rests on them. -/
structure Grounded (active : List Bytes) (n : Node) : Prop where
  witnesses : n.world.getActiveWitnesses = active
  counted : ∀ k x, x ∈ n.signersAt k → x ∈ active ∧ ∃ c ∈ n.accepted, c.blockNum = k ∧ c.SignedBy pf x
  stored : ∀ c ∈ n.accepted, n.Stores pf c ∨ n.head < c.blockNum
  final : ∀ k, 1 ≤ k → k ≤ n.solidified → RestsOnQuorum pf active n k

variable {pf cfg} {active : List Bytes} {n : Node} {bytes : Bytes} {c : PbftCommit} {x : Bytes} {k : Int64}

lemma RestsOnQuorum.mono {m : Node} (h : RestsOnQuorum pf active n k)
    (hacc : ∀ c ∈ n.accepted, c.blockNum = k → n.Stores pf c → c ∈ m.accepted ∧ m.Stores pf c) :
    RestsOnQuorum pf active m k := by
  obtain ⟨signers, hcard, hall⟩ := h; refine ⟨signers, hcard, fun x hx => ?_⟩
  obtain ⟨hact, c, hc, hk, hsig, hst⟩ := hall x hx
  obtain ⟨hc', hst'⟩ := hacc c hc hk hst; exact ⟨hact, c, hc', hk, hsig, hst'⟩

lemma stores_count {a : Admission} : (n.count a).Stores pf c ↔ n.Stores pf c := by
  simp only [Node.Stores, Node.getBlockByNum_count]

variable (h : Grounded pf active n)
include h

/-- A signer that is cached once a commit has been counted sent a commit for the height. -/
lemma Grounded.recorded (ha : Admits pf n bytes c x) {y : Bytes}
    (hy : y ∈ ((n.recorded (n.admission c x)).get k).getD ∅) :
    y ∈ active ∧ ∃ d ∈ n.accepted ++ [c], d.blockNum = k ∧ d.SignedBy pf y := by
  rcases Node.mem_recorded.mp hy with ⟨rfl, rfl⟩ | hy
  · exact ⟨h.witnesses ▸ ha.active, c, by simp, rfl, ha.signed⟩
  · obtain ⟨hmem, d, hd, hk, hsig⟩ := h.counted k y hy
    exact ⟨hmem, d, List.mem_append_left _ hd, hk, hsig⟩

/-- Counting a commit to a stored block, or to a height above the chain. -/
lemma Grounded.count (ha : Admits pf n bytes c x)
    (hst : c.blockNum ≤ n.head → n.Stores pf c) : Grounded pf active (n.count (n.admission c x)) := by
  have hstored : ∀ d ∈ n.accepted ++ [c], n.Stores pf d ∨ n.head < d.blockNum := by
    intro d hd
    rcases List.mem_append.mp hd with hd | hd
    · exact h.stored d hd
    obtain rfl := List.mem_singleton.mp hd
    by_cases hle : d.blockNum ≤ n.head
    · exact .inl (hst hle)
    · exact .inr (Int64.not_le.mp hle)
  refine ⟨by rw [Node.getActiveWitnesses_count, h.witnesses], fun k y hy => ?_, fun d hd => ?_, fun k hk1 hk => ?_⟩
  · rw [Node.accepted_count]; exact h.recorded ha (Node.signersAt_count_subset _ _ _ hy)
  · rw [Node.accepted_count] at hd; rw [stores_count, Node.head_count]; exact hstored d hd
  by_cases hlow : k ≤ n.solidified
  · refine (h.final k hk1 hlow).mono fun d hd _ hst => ?_
    exact ⟨by rw [Node.accepted_count]; exact List.mem_append_left _ hd, stores_count.mpr hst⟩
  obtain ⟨hle, hq⟩ := Node.hasQuorum_of_le_count hk1 (Int64.not_le.mp hlow) hk
  have hq : finalityThreshold n.world.getActiveWitnesses.length ≤ _ := hq
  rw [h.witnesses] at hq; refine ⟨_, hq, fun y hy => ?_⟩
  obtain ⟨hmem, d, hd, hdk, hsig⟩ := h.recorded ha hy
  refine ⟨hmem, d, by rw [Node.accepted_count]; exact hd, hdk, hsig, stores_count.mpr ?_⟩
  rcases hstored d hd with hst | hlt
  · exact hst
  · -- the height is final, so it is not above the head
    exact absurd hle (Int64.not_le.mpr (hdk ▸ hlt))

/-- Storing the block that the counted commits name. -/
lemma Grounded.store {b : Block} (hb : b.number = n.head + 1)
    (hid : ∀ c ∈ n.accepted, c.blockNum = b.number → blockIdOf pf b = some c.blockId) :
    Grounded pf active (n.store pf b) := by
  have hkeep : ∀ c ∈ n.accepted, n.Stores pf c → (n.store pf b).Stores pf c := by
    rintro c hc ⟨x, hx, hxid⟩
    by_cases hcb : c.blockNum = b.number
    · exact ⟨b, by rw [hcb]; exact WorldState.getBlockByNum_putBlock_self _ _ _, hid c hc hcb⟩
    · exact ⟨x, (WorldState.getBlockByNum_putBlock_of_ne _ _ hcb).trans hx, hxid⟩
  refine ⟨by rw [Node.getActiveWitnesses_store, h.witnesses], h.counted, fun c hc => ?_, fun k hk1 hk => ?_⟩
  · rcases h.stored c hc with hcs | hlt
    · exact .inl (hkeep c hc hcs)
    by_cases hcb : c.blockNum = b.number
    · exact .inl ⟨b, by rw [hcb]; exact WorldState.getBlockByNum_putBlock_self _ _ _, hid c hc hcb⟩
    -- the head moves by one, to a height the commit is not for
    refine .inr ?_
    have hsucc : b.number.toInt = n.head.toInt + 1 := by
      rw [hb, toInt_add_of_fits]
      · rfl
      have h1 := lt_iff_toInt_lt.mp hlt
      have h2 := c.blockNum.toInt_lt
      have h3 := n.head.le_toInt
      have h4 : (1 : Int64).toInt = 1 := rfl; exact ⟨by omega, by omega⟩
    have hne : c.blockNum.toInt ≠ b.number.toInt := fun heq => hcb (toInt_inj.mp heq)
    rw [lt_iff_toInt_lt] at hlt ⊢; rw [Node.head_store]; split <;> omega
  · rw [Node.solidified_store] at hk
    exact (h.final k hk1 hk).mono fun c hc _ hcs => ⟨hc, hkeep c hc hcs⟩

/-- A call of `on_pbft_commit` that counts only what the chain confirms. -/
lemma Grounded.onPbftCommit (hst : ∀ c x, Counts pf n bytes c x → c.blockNum ≤ n.head → n.Stores pf c) :
    Grounded pf active (onPbftCommit pf n bytes).2 := by
  obtain ⟨c, x, hc, heq⟩ | ⟨-, heq⟩ := onPbftCommit_cases pf n bytes
  · rw [heq]; exact h.count hc.toAdmits (hst c x hc)
  · rw [heq]; exact h

lemma Grounded.deliver {msg : PeerMessage} (hok : Agrees pf cfg n msg) : Grounded pf active (deliver pf cfg n msg) := by
  cases msg with
  | commit => exact h.onPbftCommit hok
  | block bytes =>
    show Grounded pf active (onBlock pf cfg n bytes).2
    by_cases hnext : ∃ b, Next pf cfg n bytes b
    · obtain ⟨b, hb⟩ := hnext
      have hgr := h.store hb.number (hok b hb); rw [onBlock_of_next hb]
      cases hcommit : blockCommit pf cfg n.world bytes with
      | none => exact hgr
      | some =>
        -- the witness commits to the block it has just stored
        obtain ⟨b', c, hdec, rfl, hnum, hid⟩ := blockCommit_eq_some hcommit
        cases hb.decoded.symm.trans hdec
        refine hgr.onPbftCommit fun d x hd _ => ?_
        cases (PbftCommit.decode_encode c).symm.trans hd.decoded; refine ⟨b, ?_, hid⟩; rw [hnum]
        exact WorldState.getBlockByNum_putBlock_self _ _ _
    · rw [onBlock_of_not_next fun b hb => hnext ⟨b, hb⟩]; exact h

omit h

/-- A message lowers neither finality nor the head, and finality stays within the chain. -/
lemma within_deliver (h : n.solidified ≤ n.head) (msg : PeerMessage) :
    n.solidified ≤ (deliver pf cfg n msg).solidified ∧ n.head ≤ (deliver pf cfg n msg).head ∧
      (deliver pf cfg n msg).solidified ≤ (deliver pf cfg n msg).head := by
  have hconfirms {n m : Node} (hc : Confirms n m) (h : n.solidified ≤ n.head) :
      n.solidified ≤ m.solidified ∧ n.head ≤ m.head ∧ m.solidified ≤ m.head := by
    rw [hc.head]; refine ⟨hc.mono, Int64.le_refl _, ?_⟩
    rcases hc.within with heq | hle
    · rwa [heq]
    · exact hle
  cases msg with
  | commit bytes => exact hconfirms (confirms_onPbftCommit pf n bytes) h
  | block bytes =>
    show n.solidified ≤ (onBlock pf cfg n bytes).2.solidified ∧ n.head ≤ (onBlock pf cfg n bytes).2.head ∧
      (onBlock pf cfg n bytes).2.solidified ≤ (onBlock pf cfg n bytes).2.head
    by_cases hnext : ∃ b, Next pf cfg n bytes b
    · obtain ⟨b, hb⟩ := hnext
      have hhead := Node.head_le_store pf n b
      have hstored : (n.store pf b).solidified ≤ (n.store pf b).head := by
        rw [Node.solidified_store]; exact Int64.le_trans h hhead
      have hc := hconfirms (confirms_receive pf (n.store pf b) (blockCommit pf cfg n.world bytes)) hstored
      rw [Node.solidified_store] at hc; rw [onBlock_of_next hb]
      exact ⟨hc.1, Int64.le_trans hhead hc.2.1, hc.2.2⟩
    · rw [onBlock_of_not_next fun b hb => hnext ⟨b, hb⟩]; exact ⟨Int64.le_refl _, Int64.le_refl _, h⟩

/-- **Finality within the chain.** Whatever bytes peers send as blocks and commits, neither the
solidified height nor the head ever goes down, and the solidified height never passes the head. -/
theorem finality_within_chain {s t : Node} {msgs : List PeerMessage} (h : s.solidified ≤ s.head)
    (hrun : (peers pf cfg active).Run s msgs t) :
    s.solidified ≤ t.solidified ∧ s.head ≤ t.head ∧ t.solidified ≤ t.head := by
  have hkept : ∀ u msg v, (s.solidified ≤ u.solidified ∧ s.head ≤ u.head ∧ u.solidified ≤ u.head) →
      (peers pf cfg active).step u msg v →
      s.solidified ≤ v.solidified ∧ s.head ≤ v.head ∧ v.solidified ≤ v.head := by
    intro u msg v hu hstep; cases hstep; obtain ⟨hsolid, hhead, hwithin⟩ := within_deliver hu.2.2 msg
    exact ⟨Int64.le_trans hu.1 hsolid, Int64.le_trans hu.2.1 hhead, hwithin⟩
  exact hrun.preserves hkept ⟨Int64.le_refl _, Int64.le_refl _, h⟩

/-- **Soundness of finality.** In every run whose messages agree with the chain, a solidified
height rests on a quorum of active witnesses that have each sent a commit, signed by them, to the
block the node stores at that height. -/
theorem solidified_rests_on_quorum {s t : Node} {msgs : List PeerMessage} (h0 : (peers pf cfg active).init s)
    (hrun : ((peers pf cfg active).guard (Agrees pf cfg)).Run s msgs t) {k : Int64} (h1 : 1 ≤ k)
    (hk : k ≤ t.solidified) : RestsOnQuorum pf active t k := by
  have hgrounded : Grounded pf active t := by
    refine hrun.preserves (fun s msg t hs hstep => ?_) ?_
    · obtain ⟨hok, rfl⟩ := hstep; exact hs.deliver hok
    refine ⟨h0.witnesses, fun k x hx => ?_, fun c hc => ?_, fun k h1 hk => ?_⟩
    · simp [Node.signersAt, h0.confirmations] at hx
    · simp [h0.accepted] at hc
    · rw [h0.solidified, le_iff_toInt_le, toInt_zero] at hk; have h11 : (1 : Int64).toInt = 1 := rfl
      rw [le_iff_toInt_le] at h1; omega
  exact hgrounded.final k h1 hk

/-! ## Runs on fixed inputs -/

/-- A commit of a witness to a block id. -/
def commitOf (signer : Address) (blockNum : Int64) (blockId : H256) : PbftCommit :=
  ⟨blockNum, blockId, Crypto.signatureOf signer, Crypto.length_signatureOf signer⟩

/-- The genesis block is stored and PBFT is on. -/
def genesisNode : Node where
  world := genesisState.putProp .allowPbft 1

/-- A node without a witness key. -/
def relay : NodeConfig := ⟨true, none⟩

/-- The commit of the only witness to the child of the genesis block. -/
def childCommit : PbftCommit :=
  commitOf (Address.ofNat 0xaa) 1 ((blockIdOf (blockPlatform [childBlock]) childBlock).getD H256.zero)

/-- A block and the commit to it solidify height 1. -/
theorem solidified_rests_on_quorum_child : ∃ t,
    ((peers (blockPlatform [childBlock]) relay [(Address.ofNat 0xaa).asBytes]).guard
      (Agrees (blockPlatform [childBlock]) relay)).Run genesisNode [.block [0], .commit childCommit.encode] t ∧
    t.solidified = 1 ∧ RestsOnQuorum (blockPlatform [childBlock]) [(Address.ofNat 0xaa).asBytes] t 1 := by
  let pf := blockPlatform [childBlock]
  let active := [(Address.ofNat 0xaa).asBytes]
  let s1 := deliver pf relay genesisNode (.block [0])
  let t := deliver pf relay s1 (.commit childCommit.encode)
  have h0 : (peers pf relay active).init genesisNode := ⟨rfl, by decide, rfl, rfl, rfl, rfl⟩
  have hblock : Agrees pf relay genesisNode (.block [0]) := fun b _ c hc => absurd hc List.not_mem_nil
  have hcommit : Agrees pf relay s1 (.commit childCommit.encode) := by
    intro c x hc _; cases (PbftCommit.decode_encode childCommit).symm.trans hc.decoded
    exact ⟨childBlock, by decide +kernel, by decide +kernel⟩
  have hrun : ((peers pf relay active).guard (Agrees pf relay)).Run genesisNode
      [.block [0], .commit childCommit.encode] t :=
    .cons ⟨hblock, rfl⟩ (.cons ⟨hcommit, rfl⟩ (.nil _))
  have hsolid : t.solidified = 1 := by decide +kernel
  exact ⟨t, hrun, hsolid, solidified_rests_on_quorum h0 hrun (by decide) (by rw [hsolid]; decide)⟩

/-- The same messages raise finality to the head. -/
theorem finality_within_chain_child : ∃ t, t.solidified = 1 ∧ t.solidified ≤ t.head ∧
    (peers (blockPlatform [childBlock]) relay [(Address.ofNat 0xaa).asBytes]).Run genesisNode
      [.block [0], .commit childCommit.encode] t := by
  have hrun : (peers (blockPlatform [childBlock]) relay [(Address.ofNat 0xaa).asBytes]).Run genesisNode
      [.block [0], .commit childCommit.encode] _ := .cons rfl (.cons rfl (.nil _))
  exact ⟨_, by decide +kernel, (finality_within_chain (by decide +kernel) hrun).2.2, hrun⟩

/-- The only witness commits to another block than the one the node stores: height 1 is
solidified, and nobody has committed to the stored block. -/
theorem solidified_by_commit_to_other_block : ∃ pf cfg active s msgs t,
    (peers pf cfg active).init s ∧ (peers pf cfg active).Run s msgs t ∧ 1 ≤ t.solidified ∧
    ¬ RestsOnQuorum pf active t 1 := by
  let pf := blockPlatform [childBlock]
  let other := commitOf (Address.ofNat 0xaa) 1 H256.zero
  let s1 := deliver pf relay genesisNode (.block [0])
  let t := deliver pf relay s1 (.commit other.encode)
  refine ⟨pf, relay, [(Address.ofNat 0xaa).asBytes], genesisNode, [.block [0], .commit other.encode], t,
    ⟨rfl, by decide, rfl, rfl, rfl, rfl⟩, .cons rfl (.cons rfl (.nil _)), by decide +kernel, ?_⟩
  rintro ⟨signers, hcard, hall⟩
  obtain ⟨x, hx⟩ : signers.Nonempty := Finset.card_pos.mp (lt_of_lt_of_le (by decide) hcard)
  obtain ⟨-, c, hc, -, -, b, hb, hid⟩ := hall x hx
  have hacc : t.accepted = [other] := by decide +kernel
  rw [hacc] at hc; obtain rfl := List.mem_singleton.mp hc
  have hstored : t.world.getBlockByNum 1 = some childBlock := by decide +kernel
  cases hstored.symm.trans hb; revert hid; decide +kernel

end TronRs

import TronRs.L5Node.Slots

/-!
# Commits of one node

A witness signs a commit on two paths: `on_block` for a block it has accepted, and the production
loop for a block it has built and applied. Both are for the height after the head, and the loop
decides on its block some time before it applies it.

* `no_equivocation`: in every run in which a produced block is applied while the head is still
  below it, the node signs at most one commit for a height.
* `equivocates`: a peer's block is accepted and committed to while the node's own block for the
  same height waits; the node then applies its block and commits to that one too.
-/
namespace TronRs

open TronRs.Core

variable (pf : Platform) (cfg : NodeConfig)

/-! ## What is signed -/

/-- The commit that `on_block` signs for the block it has stored. Mirrors node/net.rs:138. -/
def blockSigned (n : Node) (bytes : Bytes) : Option PbftCommit :=
  match applySyncedBlocksGated pf [bytes] cfg.requireSig n.gate n.world with
  | .ok applied w =>
    if 1 ≤ applied then
      (pf.codec.decodeBlock bytes).bind fun b => b.raw?.bind fun raw => (blockIdOf pf b).bind fun id =>
        (emitCommit pf cfg { n with world := w } raw.number id).1
    else none
  | .error .. => none

/-- The commit that the production loop signs. Mirrors node/lib.rs:300. -/
def producedSigned (n : Node) (b : Block) (number : Int64) : Option PbftCommit :=
  (blockIdOf pf b).bind fun id => (emitCommit pf cfg n number id).1

/-- The commit that is signed in a step. -/
def Producer.signs (s : Producer) : ProducerStep → Option PbftCommit
  | .block bytes => blockSigned pf cfg s.node bytes
  | .commitProduced =>
    match s.phase with
    | .applied b number => producedSigned pf cfg s.node b number
    | _ => none
  | _ => none

/-- A node with every commit it has signed. -/
structure Signer where
  producer : Producer
  signed : List PbftCommit := []

def Signer.next (s : Signer) (l : ProducerStep) : Signer :=
  ⟨s.producer.next pf cfg l, s.signed ++ (s.producer.signs pf cfg l).toList⟩

/-- The loop starts idle, and nothing has been signed. -/
def signer : Lts Signer ProducerStep :=
  .ofFn (fun s => s.producer.phase = .idle ∧ s.signed = []) (Signer.next pf cfg)

/-- A produced block is applied while the head is below it; a peer's block does not come after the
last number there is. -/
def Signer.InTurn (s : Signer) : ProducerStep → Prop
  | .applyProduced => ∀ b, s.producer.phase = .produced b → s.producer.node.head < b.number
  | .block _ => s.producer.node.head ≠ Int64.maxValue
  | _ => True

variable {pf cfg} {c : PbftCommit} {bytes : Bytes} {n : Node}

/-- A commit names the height and the block it was asked for. -/
lemma emitCommit_signed {number : Int64} {id : H256}
    (h : (emitCommit pf cfg n number id).1 = some c) : c.blockNum = number ∧ c.blockId = id := by
  unfold emitCommit at h
  split at h
  · cases h
  split at h
  · split at h
    · cases h
    · cases h; exact ⟨rfl, rfl⟩
  · cases h

/-- A commit of `on_block` is for the block that was next. -/
lemma blockSigned_eq_some (h : blockSigned pf cfg n bytes = some c) :
    ∃ b, Next pf cfg n bytes b ∧ c.blockNum = b.number := by
  by_cases hnext : ∃ b, Next pf cfg n bytes b
  · obtain ⟨b, hb⟩ := hnext; refine ⟨b, hb, ?_⟩; rw [blockSigned, hb.applySyncedBlocksGated_eq] at h
    simp only [le_refl, ↓reduceIte, hb.decoded, Option.bind_some, Option.bind_eq_some_iff] at h
    obtain ⟨raw, hraw, id, -, h⟩ := h; rw [(emitCommit_signed h).1, Block.number, hraw]; rfl
  · have hnone : ∀ b, ¬ Next pf cfg n bytes b := fun b hb => hnext ⟨b, hb⟩
    have hrun : ∀ applied w, applySyncedBlocksGated pf [bytes] cfg.requireSig n.gate n.world ≠ .ok applied w := by
      intro applied w hok
      apply ok_elim hok
      rw [applySyncedBlocksGated, applyBlocksFrom, wp_bind]
      refine wp_mono wp_applySyncedBlock (fun _ t ht => ?_) fun _ _ _ => trivial
      obtain ⟨b, hb, -⟩ := ht; exact absurd hb (hnone b)
    rw [blockSigned] at h
    split at h
    · rename_i applied w hok; exact absurd hok (hrun applied w)
    · cases h

/-! ## One commit per height -/

/-- Nothing is signed above the head, and nothing yet for a block that has been applied and waits
for its commit. -/
structure Signer.Inv (s : Signer) : Prop where
  heights : ∀ c ∈ s.signed, c.blockNum.toInt ≤ s.producer.node.head.toInt
  pending : ∀ b number, s.producer.phase = .applied b number →
    number.toInt ≤ s.producer.node.head.toInt ∧ ∀ c ∈ s.signed, c.blockNum ≠ number
  nodup : (s.signed.map PbftCommit.blockNum).Nodup

namespace Signer
variable {s : Signer} {p : Producer}

variable (h : Inv s)
include h

/-- A step that signs nothing and does not lower the head. -/
lemma Inv.quiet (hhead : s.producer.node.head.toInt ≤ p.node.head.toInt)
    (hphase : p.phase = s.producer.phase ∨ ∀ b number, p.phase ≠ .applied b number) : Inv ⟨p, s.signed⟩ := by
  refine ⟨fun c hc => (h.heights c hc).trans hhead, fun b number hp => ?_, h.nodup⟩
  rcases hphase with heq | hne
  · obtain ⟨hle, hfresh⟩ := h.pending b number (heq ▸ hp)
    exact ⟨hle.trans hhead, hfresh⟩
  · exact absurd hp (hne b number)

/-- A step that signs for a height nothing has been signed for. -/
lemma Inv.sign (hhead : s.producer.node.head.toInt ≤ p.node.head.toInt) (hc : c.blockNum.toInt ≤ p.node.head.toInt)
    (hfresh : ∀ d ∈ s.signed, d.blockNum ≠ c.blockNum)
    (hphase : ∀ b number, p.phase = .applied b number → s.producer.phase = .applied b number ∧ c.blockNum ≠ number) :
    Inv ⟨p, s.signed ++ [c]⟩ := by
  refine ⟨fun d hd => ?_, fun b number hp => ?_, ?_⟩
  · rcases List.mem_append.mp hd with hd | hd
    · exact (h.heights d hd).trans hhead
    · rw [List.mem_singleton.mp hd]; exact hc
  · obtain ⟨hold, hne⟩ := hphase b number hp
    obtain ⟨hle, hothers⟩ := h.pending b number hold
    refine ⟨hle.trans hhead, fun d hd => ?_⟩
    rcases List.mem_append.mp hd with hd | hd
    · exact hothers d hd
    · rw [List.mem_singleton.mp hd]; exact hne
  · rw [List.map_append, List.nodup_append]
    refine ⟨h.nodup, List.nodup_singleton _, fun x hx y hy => ?_⟩
    obtain ⟨d, hd, rfl⟩ := List.mem_map.mp hx; rw [List.mem_singleton.mp hy]; exact hfresh d hd

lemma Inv.block (hlast : s.producer.node.head ≠ Int64.maxValue) : Inv (s.next pf cfg (.block bytes)) := by
  show Inv ⟨{ s.producer with node := (onBlock pf cfg s.producer.node bytes).2 },
    s.signed ++ (blockSigned pf cfg s.producer.node bytes).toList⟩
  by_cases hnext : ∃ b, Next pf cfg s.producer.node bytes b
  · obtain ⟨b, hb⟩ := hnext
    have hhead : (onBlock pf cfg s.producer.node bytes).2.head = b.number ∧ s.producer.node.head < b.number := by
      rw [onBlock_of_next hb, (confirms_receive pf _ _).head]
      exact head_putBlock_next pf hb.number hlast
    obtain ⟨hnew, hlt⟩ := hhead; rw [lt_iff_toInt_lt] at hlt
    cases hc : blockSigned pf cfg s.producer.node bytes with
    | none =>
      rw [Option.toList_none, List.append_nil]; exact h.quiet (by rw [hnew]; exact hlt.le) (.inl rfl)
    | some =>
      obtain ⟨b', hb', hnum⟩ := blockSigned_eq_some hc
      cases hb.decoded.symm.trans hb'.decoded
      refine h.sign (by rw [hnew]; exact hlt.le) (by rw [hnew, hnum]) (fun d hd heq => ?_) fun b' number hp => ?_
      · have hd := h.heights d hd; rw [heq, hnum] at hd; omega
      · refine ⟨hp, fun heq => ?_⟩; have hle := (h.pending b' number hp).1; rw [← heq, hnum] at hle
        omega
  · have hnone : blockSigned pf cfg s.producer.node bytes = none := by
      by_contra hne; obtain ⟨c, hc⟩ := Option.ne_none_iff_exists'.mp hne
      obtain ⟨b, hb, -⟩ := blockSigned_eq_some hc; exact hnext ⟨b, hb⟩
    rw [hnone, onBlock_of_not_next fun b hb => hnext ⟨b, hb⟩, Option.toList_none, List.append_nil]
    exact h

/-- The block becomes the head, and nothing has been signed for it. -/
lemma Inv.applyProduced (hturn : ∀ b, s.producer.phase = .produced b → s.producer.node.head < b.number) :
    Inv (s.next pf cfg .applyProduced) := by
  unfold Signer.next Producer.next Producer.signs; dsimp only; rw [Option.toList_none, List.append_nil]
  cases hphase : s.producer.phase with
  | idle | applied => exact h
  | produced b =>
    have hlt := hturn b hphase
    have hhead : (TronRs.applyProduced pf s.producer.node b).2.head = b.number := by
      show (s.producer.node.world.storeProduced pf b).getProp .latestBlockNumber = b.number
      rw [WorldState.getProp_storeProduced, getProp_putBlock_head]; exact if_pos (Int64.le_of_lt hlt)
    rw [lt_iff_toInt_lt] at hlt; dsimp only
    split
    · rename_i number n heq
      have hn : n = (TronRs.applyProduced pf s.producer.node b).2 := by rw [heq]
      have hnumber : number = b.number := by
        obtain ⟨p, hp, rfl⟩ := Option.map_eq_some_iff.mp (congrArg Prod.fst heq : _ = some number)
        obtain ⟨raw, hraw, rfl⟩ := Option.map_eq_some_iff.mp hp
        rw [Block.number, hraw]; rfl
      refine ⟨fun c hc => ?_, fun b' number' hp => ?_, h.nodup⟩
      · show c.blockNum.toInt ≤ n.head.toInt; rw [hn, hhead]; exact (h.heights c hc).trans hlt.le
      · cases hp; rw [hn, hhead, hnumber]; refine ⟨le_rfl, fun c hc heq => ?_⟩
        have hle := h.heights c hc; rw [heq] at hle; omega
    · rename_i n heq
      have hn : n = (TronRs.applyProduced pf s.producer.node b).2 := by rw [heq]
      refine h.quiet ?_ (.inr fun _ _ hp => by cases hp); show s.producer.node.head.toInt ≤ n.head.toInt
      rw [hn, hhead]; exact hlt.le

lemma Inv.commitProduced : Inv (s.next pf cfg .commitProduced) := by
  unfold Signer.next Producer.next Producer.signs; dsimp only
  cases hphase : s.producer.phase with
  | idle | produced =>
    rw [Option.toList_none, List.append_nil]; exact h
  | applied b number =>
    obtain ⟨hle, hfresh⟩ := h.pending b number hphase
    have hhead := (confirms_commitProduced pf cfg s.producer.node b number).head
    dsimp only
    cases hc : producedSigned pf cfg s.producer.node b number with
    | none =>
      rw [Option.toList_none, List.append_nil]
      exact h.quiet (by rw [hhead]) (.inr fun _ _ hp => by cases hp)
    | some =>
      obtain ⟨id, -, hemit⟩ := Option.bind_eq_some_iff.mp hc
      obtain ⟨hnum, -⟩ := emitCommit_signed hemit
      refine h.sign (by rw [hhead]) (by rw [hhead, hnum]; exact hle) (fun d hd => ?_) fun _ _ hp => by cases hp
      rw [hnum]; exact hfresh d hd

lemma Inv.step {l : ProducerStep} (hturn : s.InTurn l) : Inv (s.next pf cfg l) := by
  cases l with
  | block => exact h.block hturn
  | commit bytes =>
    have hhead := head_onPbftCommit pf s.producer.node bytes
    show Inv ⟨{ s.producer with node := (onPbftCommit pf s.producer.node bytes).2 }, s.signed ++ []⟩
    rw [List.append_nil]; exact h.quiet (by rw [hhead]) (.inl rfl)
  | tryProduce now =>
    show Inv ⟨_, s.signed ++ []⟩; rw [List.append_nil]; unfold Producer.next
    dsimp only
    split
    · split
      · exact h.quiet le_rfl (.inr fun _ _ hp => by cases hp)
      · exact h
    · exact h
  | applyProduced => exact h.applyProduced hturn
  | commitProduced => exact h.commitProduced

end Signer

/-- **No equivocation.** In every run in which each produced block is applied while the head is still below it, two
commits that the node has signed for one height name the same block. -/
theorem no_equivocation {s t : Signer} {ls : List ProducerStep} (h0 : (signer pf cfg).init s)
    (hrun : ((signer pf cfg).guard Signer.InTurn).Run s ls t) :
    ∀ c ∈ t.signed, ∀ d ∈ t.signed, c.blockNum = d.blockNum → c.blockId = d.blockId := by
  have hinit : s.Inv := by
    obtain ⟨hidle, hnil⟩ := h0
    refine ⟨fun c hc => ?_, fun b number hp => ?_, ?_⟩
    · rw [hnil] at hc; cases hc
    · rw [hidle] at hp; cases hp
    · rw [hnil]; exact List.nodup_nil
  have hinv : t.Inv := by
    refine hrun.preserves (fun s l t hs hstep => ?_) hinit; obtain ⟨hturn, rfl⟩ := hstep
    exact hs.step hturn
  intro c hc d hd hnum; rw [List.inj_on_of_nodup_map hinv.nodup hc hd hnum]

/-! ## Runs on fixed inputs -/

/-- The blocks of `blockPlatform`, with the time where it shows in a block id. -/
def timedPlatform (blocks : List Block) : Platform :=
  { blockPlatform blocks with
    codec := { (blockPlatform blocks).codec with
      headerRaw := fun raw => numberBytes raw.number ++ numberBytes raw.timestamp } }

/-- The node of the second of two witnesses, with nothing signed. -/
def secondSigner : Signer where
  producer := twoWitnesses

/-- The block that waits to be applied. -/
def Phase.built : Phase → Option Block
  | .produced b => some b
  | _ => none

/-- The node commits to its own block at height 1 and then to the first witness's block at height 2. -/
theorem no_equivocation_two_heights : ∃ t,
    ((signer (timedPlatform [peerBlock 6005]) secondWitness).guard Signer.InTurn).Run secondSigner
      [.tryProduce 3005, .applyProduced, .commitProduced, .block [0]] t ∧ t.signed.map PbftCommit.blockNum = [1, 2] ∧
    ∀ c ∈ t.signed, ∀ d ∈ t.signed, c.blockNum = d.blockNum → c.blockId = d.blockId := by
  let pf := timedPlatform [peerBlock 6005]
  let s1 := secondSigner.next pf secondWitness (.tryProduce 3005)
  let s2 := s1.next pf secondWitness .applyProduced
  let s3 := s2.next pf secondWitness .commitProduced
  have habove : ∀ b ∈ s1.producer.phase.built, s1.producer.node.head < b.number := by decide +kernel
  have hturn : s1.InTurn .applyProduced := fun b hb => habove b (by rw [hb]; rfl)
  have hrun : ((signer pf secondWitness).guard Signer.InTurn).Run secondSigner
      [.tryProduce 3005, .applyProduced, .commitProduced, .block [0]] (s3.next pf secondWitness (.block [0])) := by
    refine .cons ⟨trivial, rfl⟩ (.cons ⟨hturn, rfl⟩ (.cons ⟨trivial, rfl⟩ (.cons ⟨?_, rfl⟩ (.nil _))))
    show s3.producer.node.head ≠ Int64.maxValue; decide +kernel
  exact ⟨_, hrun, by decide +kernel, no_equivocation ⟨rfl, rfl⟩ hrun⟩

/-- The node has built its block for height 1 when the first witness's block arrives. It commits to the block it has
received and, once its own is applied, to its own. -/
theorem equivocates : ∃ pf cfg s ls t, (signer pf cfg).init s ∧ (signer pf cfg).Run s ls t ∧
    ∃ c ∈ t.signed, ∃ d ∈ t.signed, c.blockNum = d.blockNum ∧ c.blockId ≠ d.blockId := by
  let pf := timedPlatform [firstBlock]
  refine ⟨pf, secondWitness, secondSigner, [.tryProduce 3005, .block [0], .applyProduced, .commitProduced], _,
    ⟨rfl, rfl⟩, .cons rfl (.cons rfl (.cons rfl (.cons rfl (.nil _)))), ?_⟩
  decide +kernel

end TronRs

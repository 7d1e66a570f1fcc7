import TronRs.L5Node.Irreversible

/-!
# One block per slot

A witness node ticks: `try_produce`, and at once `apply_produced` of the block it has built. In
between, peers' blocks are delivered. The guard against producing twice for a slot looks at the
slot of the head, and the gate for a peer's block does not look at its timestamp at all.

* `one_block_per_slot`: the node produces at most one block per slot in every run in which an
  accepted block is not from before a slot the node has produced for.
* `slot_produced_twice`: otherwise the head goes back in time, and the slot is free again.
-/
namespace TronRs

open TronRs.Core

variable {genesis now : Int64}

/-! ## Slots -/

/-- The slot of a moment, in a chain that starts at `genesis`. -/
def slotAt (genesis time : Int64) : UInt64 := slotOf time.toUInt64 genesis.toUInt64

/-- The moment at which the slot of `now` starts. -/
def slotTime (genesis now : Int64) : Int64 := genesis + (slotAt genesis now).toInt64 * blockIntervalMs.toInt64

/-- The comparison of slots reads the times as unsigned numbers. -/
lemma toNat_slotAt (h : genesis.toUInt64.toNat < now.toUInt64.toNat) :
    (slotAt genesis now).toNat = (now.toUInt64.toNat - genesis.toUInt64.toNat) / 3000 := by
  have hlt : genesis.toUInt64 < now.toUInt64 := UInt64.lt_iff_toNat_lt.mpr h
  rw [slotAt, slotOf, if_neg (UInt64.not_le.mpr hlt), UInt64.toNat_div,
    UInt64.toNat_sub_of_le _ _ (UInt64.le_of_lt hlt)]
  rfl

lemma lt_of_slotAt_pos (h : 0 < slotAt genesis now) : genesis.toUInt64.toNat < now.toUInt64.toNat := by
  unfold slotAt slotOf at h
  split at h
  · exact absurd h (by decide)
  · rename_i hle; exact UInt64.lt_iff_toNat_lt.mp (UInt64.not_le.mp hle)

lemma toNat_slotTime (h : 0 < slotAt genesis now) :
    (slotTime genesis now).toUInt64.toNat = genesis.toUInt64.toNat + (slotAt genesis now).toNat * 3000 := by
  have hlt := lt_of_slotAt_pos h
  have hslot := toNat_slotAt hlt
  have hnow := now.toUInt64.toNat_lt
  have hcast : (slotTime genesis now).toUInt64 = genesis.toUInt64 + slotAt genesis now * blockIntervalMs := rfl
  have hinterval : blockIntervalMs.toNat = 3000 := rfl
  rw [hcast, UInt64.toNat_add, UInt64.toNat_mul, hinterval, Nat.mod_eq_of_lt (a := _ * 3000) (by omega),
    Nat.mod_eq_of_lt (by omega)]

lemma slotAt_slotTime (h : 0 < slotAt genesis now) : slotAt genesis (slotTime genesis now) = slotAt genesis now := by
  have htime := toNat_slotTime h
  have hpos : 0 < (slotAt genesis now).toNat := UInt64.lt_iff_toNat_lt.mp h
  refine UInt64.toNat_inj.mp ?_; rw [toNat_slotAt (by omega), htime]; omega

/-- The slot of a moment has started. -/
lemma slotTime_le (hlt : genesis < now) (h : 0 < slotAt genesis now) : slotTime genesis now ≤ now := by
  have hnat := lt_of_slotAt_pos h
  rw [lt_iff_toInt_lt, Int64.toInt_eq_toUInt64, Int64.toInt_eq_toUInt64] at hlt
  rw [le_iff_toInt_le, Int64.toInt_eq_toUInt64, Int64.toInt_eq_toUInt64, toNat_slotTime h, toNat_slotAt hnat]
  -- the two times have the same sign, so the order between them is the unsigned one
  split at hlt <;> split at hlt <;> split <;> omega

def Block.timestamp (b : Block) : Int64 := (b.raw?.map HeaderRaw.timestamp).getD 0

/-- The slot of a block, in the chain of a genesis block. -/
def Block.slot (genesis b : Block) : UInt64 := slotAt genesis.timestamp b.timestamp

/-! ## Ticks and deliveries -/

/-- A witness node with the time of its last tick and the blocks it has produced. -/
structure Ticker where
  node : Node
  clock : Int64 := 0
  produced : List Block := []

inductive TickStep where
  | tick (now : Int64)
  | block (bytes : Bytes)

section
variable (pf : Platform) (cfg : NodeConfig) (key : Crypto.SecretKey)

def Ticker.next (s : Ticker) : TickStep → Ticker
  | .tick now =>
    match tryProduce pf s.node key now with
    | some b => ⟨(applyProduced pf s.node b).2, now, s.produced ++ [b]⟩
    | none => { s with clock := now }
  | .block bytes => { s with node := (onBlock pf cfg s.node bytes).2 }

/-- A node that has produced nothing, on a chain that starts with `genesis`. -/
structure Ticker.Starts (genesis : Block) (s : Ticker) : Prop where
  first : s.node.world.getBlockByNum 0 = some genesis
  numbers : ∀ n b, s.node.world.getBlockByNum n = some b → b.number = n
  head : 0 ≤ s.node.head
  produced : s.produced = []

/-- Ticks at times that do not decrease, and deliveries in any order. -/
def ticker (genesis : Block) : Lts Ticker TickStep where
  init := Ticker.Starts genesis
  step s l t := (∀ now, l = .tick now → s.clock ≤ now) ∧ t = s.next pf cfg key l

/-- An accepted block is not from before a slot the node has produced for; a tick does not come after the last number
there is. -/
def Ticker.InOrder (genesis : Block) (s : Ticker) : TickStep → Prop
  | .tick _ => s.node.head ≠ Int64.maxValue
  | .block bytes => ∀ b, Next pf cfg s.node bytes b → ∀ p ∈ s.produced, genesis.slot p ≤ genesis.slot b

/-- The head is not before any slot the node has produced for. -/
structure Ticker.Inv (genesis : Block) (s : Ticker) : Prop where
  first : s.node.world.getBlockByNum 0 = some genesis
  numbers : ∀ n b, s.node.world.getBlockByNum n = some b → b.number = n
  head : 0 ≤ s.node.head.toInt
  slots : ∀ b, s.node.world.getNowBlock = some b → ∀ p ∈ s.produced, genesis.slot p ≤ genesis.slot b
  nodup : (s.produced.map genesis.slot).Nodup

end

section
variable {pf : Platform} {cfg : NodeConfig} {key : Crypto.SecretKey} {genesis : Block} {s t : Ticker}
variable {b : Block} {n : Node} {now : Int64}

lemma produceFromPool_eq_some {parent : Block} {ts : Int64} {pool : Mempool} {max : Nat} {version : Int32}
    (h : produceFromPool pf parent key ts pool max version = some b) :
    b.number = parent.number + 1 ∧ b.timestamp = ts ∧ b.transactions = pool.peek max := by
  unfold produceFromPool produceBlock at h; obtain ⟨sig, -, rfl⟩ := Option.map_eq_some_iff.mp h
  exact ⟨rfl, rfl, rfl⟩

/-- What `try_produce` has looked at when it returns a block. -/
lemma tryProduce_inv (h : tryProduce pf n key now = some b) :
    ∃ genesis head, n.world.getBlockByNum 0 = some genesis ∧ n.world.getNowBlock = some head ∧
      (∃ raw, head.raw? = some raw) ∧ genesis.timestamp < now ∧ genesis.slot head < slotAt genesis.timestamp now ∧
      scheduledWitness n.world.getActiveWitnesses (genesis.slot head)
        (slotAt genesis.timestamp now - genesis.slot head) = some key.address.asBytes ∧
      produceFromPool pf head key (slotTime genesis.timestamp now) n.mempool maxBlockTxs blockVersion = some b := by
  simp only [tryProduce, Option.bind_eq_bind, Option.bind_eq_some_iff, headerTsNum, Option.map_eq_some_iff] at h
  obtain ⟨head, hhead, genesis, hg, _, ⟨graw, hgraw, rfl⟩, _, ⟨raw, hraw, rfl⟩, h⟩ := h
  have hgt : graw.timestamp = genesis.timestamp := by rw [Block.timestamp, hgraw]; rfl
  have hht : raw.timestamp = head.timestamp := by rw [Block.timestamp, hraw]; rfl
  rw [hgt, hht] at h
  split at h
  · cases h
  rename_i hnow
  split at h
  · cases h
  rename_i hslot; obtain ⟨scheduled, hsched, h⟩ := Option.bind_eq_some_iff.mp h
  split at h
  · cases h
  · rename_i heq
    exact ⟨genesis, head, hg, hhead, ⟨raw, hraw⟩, Int64.not_le.mp hnow, UInt64.not_le.mp hslot,
      hsched.trans (congrArg some (not_not.mp heq)), h⟩

/-- What is produced comes next after the head, in a later slot. -/
lemma tryProduce_eq_some (hg : n.world.getBlockByNum 0 = some genesis) (h : tryProduce pf n key now = some b) :
    ∃ head, n.world.getNowBlock = some head ∧ b.number = head.number + 1 ∧ genesis.slot head < genesis.slot b := by
  obtain ⟨_, head, hg', hhead, _, _, hlt, _, hb⟩ := tryProduce_inv h
  cases hg.symm.trans hg'; obtain ⟨hnum, hts, _⟩ := produceFromPool_eq_some hb
  refine ⟨head, hhead, hnum, ?_⟩; unfold Block.slot
  rwa [hts, slotAt_slotTime (UInt64.lt_of_le_of_lt UInt64.zero_le hlt)]

namespace Ticker.Inv
variable {now : Int64}

/-- A block becomes the head that is not before the slots of the blocks produced. -/
lemma put (pf : Platform) (h : Inv genesis s) {b : Block} {n : Node} {produced : List Block}
    (hblocks : ∀ k, n.world.getBlockByNum k = (s.node.world.putBlock pf b).getBlockByNum k)
    (hhead : n.head = (s.node.world.putBlock pf b).getProp .latestBlockNumber)
    (hnum : b.number = s.node.head + 1) (hlast : s.node.head ≠ Int64.maxValue)
    (hslots : ∀ p ∈ produced, genesis.slot p ≤ genesis.slot b) (hnodup : (produced.map genesis.slot).Nodup) :
    Inv genesis ⟨n, now, produced⟩ := by
  obtain ⟨hnew, hlt⟩ := head_putBlock_next pf hnum hlast
  have hpos : 0 < b.number.toInt := lt_of_le_of_lt h.head (lt_iff_toInt_lt.mp hlt)
  have hget := fun k => (hblocks k).trans (s.node.world.getBlockByNum_putBlock pf b k)
  refine ⟨?_, fun k c hc => ?_, ?_, fun c hc => ?_, hnodup⟩
  · have hne : (0 : Int64) ≠ b.number := fun heq => by rw [← heq, toInt_zero] at hpos; omega
    exact (hget 0).trans ((if_neg hne).trans h.first)
  · change n.world.getBlockByNum k = some c at hc; rw [hget] at hc
    split at hc
    · rename_i hk; cases hc; exact hk.symm
    · exact h.numbers k c hc
  · show 0 ≤ n.head.toInt; rw [hhead, hnew]; exact hpos.le
  · have hnow : n.world.getNowBlock = some b := by
      show n.world.getBlockByNum n.head = some b; rw [hhead, hnew, hget, if_pos rfl]
    cases hnow.symm.trans hc; exact hslots

lemma tick (h : Inv genesis s) (hlast : s.node.head ≠ Int64.maxValue) :
    Inv genesis (s.next pf cfg key (.tick now)) := by
  unfold Ticker.next; dsimp only
  cases hb : tryProduce pf s.node key now with
  | none => exact { h with }
  | some b =>
    obtain ⟨head, hhead, hnum, hslot⟩ := tryProduce_eq_some h.first hb
    have hnumber : head.number = s.node.head := h.numbers _ _ hhead
    rw [hnumber] at hnum
    -- the slots so far are those up to the head's
    have hbefore : ∀ p ∈ s.produced, genesis.slot p < genesis.slot b := fun p hp =>
      UInt64.lt_of_le_of_lt (h.slots head hhead p hp) hslot
    refine h.put pf (fun k => WorldState.getBlockByNum_storeProduced ..)
      (WorldState.getProp_storeProduced ..) hnum hlast (fun p hp => ?_) ?_
    · rcases List.mem_append.mp hp with hp | hp
      · exact UInt64.le_of_lt (hbefore p hp)
      · rw [List.mem_singleton.mp hp]; exact UInt64.le_refl _
    · rw [List.map_append, List.nodup_append]
      refine ⟨h.nodup, List.nodup_singleton _, fun x hx y hy => ?_⟩
      obtain ⟨p, hp, rfl⟩ := List.mem_map.mp hx; rw [List.mem_singleton.mp hy]
      exact UInt64.ne_of_lt (hbefore p hp)

lemma block (h : Inv genesis s) {bytes : Bytes}
    (hok : ∀ b, Next pf cfg s.node bytes b → ∀ p ∈ s.produced, genesis.slot p ≤ genesis.slot b) :
    Inv genesis (s.next pf cfg key (.block bytes)) := by
  show Inv genesis { s with node := (onBlock pf cfg s.node bytes).2 }
  by_cases hnext : ∃ b, Next pf cfg s.node bytes b
  · obtain ⟨b, hb⟩ := hnext; rw [onBlock_of_next hb]
    have hconf := confirms_receive pf (s.node.store pf b) (blockCommit pf cfg s.node.world bytes)
    by_cases hlast : s.node.head = Int64.maxValue
    · obtain ⟨hkeep, hmin⟩ := head_putBlock_last pf hb.number hlast
      have hget := fun k => (hconf.blocks k).trans (s.node.world.getBlockByNum_putBlock pf b k)
      replace hkeep : (s.node.store pf b).head = s.node.head := hkeep
      have hother : ∀ k, 0 ≤ k.toInt → k ≠ b.number := fun k hk heq => by
        rw [heq, hmin] at hk; exact absurd hk (by decide)
      refine ⟨(hget 0).trans ((if_neg (hother 0 le_rfl)).trans h.first), fun k c hc => ?_, ?_, fun c hc => ?_, h.nodup⟩
      · rw [hget] at hc
        split at hc
        · rename_i hk; cases hc; exact hk.symm
        · exact h.numbers k c hc
      · rw [hconf.head, hkeep]; exact h.head
      · refine h.slots c ?_
        have hnow : (receive pf (s.node.store pf b) (blockCommit pf cfg s.node.world bytes)).world.getBlockByNum
            (receive pf (s.node.store pf b) (blockCommit pf cfg s.node.world bytes)).head = some c := hc
        rw [hconf.head, hkeep, hget, if_neg (hother _ h.head)] at hnow; exact hnow
    · exact h.put pf hconf.blocks hconf.head hb.number hlast (hok b hb) h.nodup
  · rw [onBlock_of_not_next fun b hb => hnext ⟨b, hb⟩]; exact h

end Ticker.Inv

/-- **One block per slot.** In every run whose accepted deliveries are in order, the blocks the node produces lie in
different slots. -/
theorem one_block_per_slot {ls : List TickStep} (hs : Ticker.Starts genesis s)
    (hrun : ((ticker pf cfg key genesis).guard (Ticker.InOrder pf cfg genesis)).Run s ls t) :
    (t.produced.map genesis.slot).Nodup := by
  have h0 : Ticker.Inv genesis s := by
    refine ⟨hs.first, hs.numbers, le_iff_toInt_le.mp hs.head, ?_, ?_⟩
    · intro b _ p hp; rw [hs.produced] at hp; cases hp
    · rw [hs.produced]; exact List.nodup_nil
  refine (hrun.preserves (fun s l t h hstep => ?_) h0).nodup; obtain ⟨hok, -, rfl⟩ := hstep
  cases l with
  | tick => exact h.tick hok
  | block => exact h.block hok

end

/-! ## Runs on fixed inputs -/

/-- The node of the second of two witnesses, at the genesis block. -/
def secondTicker : Ticker where
  node := twoWitnesses.node

def secondKey : Crypto.SecretKey := plainKey (Address.ofNat 0xaa)

def genesisBlock : Block := signedBlock (Address.ofNat 0xaa) 0 5 []

/-- The block of the first witness at height 2. -/
def peerBlock (timestamp : Int64) : Block :=
  signedBlock (Address.ofNat 0xbb) 2 timestamp (numberBytes 1 ++ List.replicate 24 0)

lemma starts_secondTicker : Ticker.Starts genesisBlock secondTicker where
  first := by decide +kernel
  numbers n b hb := by
    change ((∅ : Column Int64 Block).put 0 genesisBlock).get n = some b at hb
    rw [get_put, get_empty] at hb
    split at hb
    · rename_i hn; cases hb; exact hn.symm
    · cases hb
  head := by decide +kernel
  produced := rfl

/-- The two witnesses take turns. -/
theorem one_block_per_slot_turns :
    ∃ t, ((ticker (blockPlatform [peerBlock 6005]) secondWitness secondKey genesisBlock).guard
      (Ticker.InOrder (blockPlatform [peerBlock 6005]) secondWitness genesisBlock)).Run secondTicker
        [.tick 3005, .block [0], .tick 9005] t ∧
    t.produced.map genesisBlock.slot = [1, 3] ∧ (t.produced.map genesisBlock.slot).Nodup := by
  let pf := blockPlatform [peerBlock 6005]
  let s1 := secondTicker.next pf secondWitness secondKey (.tick 3005)
  let s2 := s1.next pf secondWitness secondKey (.block [0])
  have hpeer : ∀ p ∈ s1.produced, genesisBlock.slot p ≤ genesisBlock.slot (peerBlock 6005) := by decide +kernel
  have hblock : s1.InOrder pf secondWitness genesisBlock (.block [0]) := fun b hb => by
    cases show some (peerBlock 6005) = some b from hb.decoded
    exact hpeer
  have hrun : ((ticker pf secondWitness secondKey genesisBlock).guard
      (Ticker.InOrder pf secondWitness genesisBlock)).Run secondTicker [.tick 3005, .block [0], .tick 9005]
        (s2.next pf secondWitness secondKey (.tick 9005)) := by
    refine .cons ⟨?_, ?_, rfl⟩ (.cons ⟨hblock, nofun, rfl⟩ (.cons ⟨?_, ?_, rfl⟩ (.nil _)))
    · show secondTicker.node.head ≠ Int64.maxValue; decide +kernel
    · rintro now ⟨⟩; decide +kernel
    · show s2.node.head ≠ Int64.maxValue; decide +kernel
    · rintro now ⟨⟩; show s2.clock ≤ 9005; decide +kernel
  exact ⟨_, hrun, by decide +kernel, one_block_per_slot starts_secondTicker hrun⟩

/-- The first witness's block carries a time before the node's own block. A millisecond after it has produced for slot 1
the node does so again. -/
theorem slot_produced_twice : ∃ t,
    (ticker (blockPlatform [peerBlock 6]) secondWitness secondKey genesisBlock).Run secondTicker
      [.tick 3005, .block [0], .tick 3006] t ∧
    Ticker.Starts genesisBlock secondTicker ∧ t.produced.map genesisBlock.slot = [1, 1] := by
  let pf := blockPlatform [peerBlock 6]
  let s1 := secondTicker.next pf secondWitness secondKey (.tick 3005)
  let s2 := s1.next pf secondWitness secondKey (.block [0])
  refine ⟨s2.next pf secondWitness secondKey (.tick 3006),
    .cons ⟨?_, rfl⟩ (.cons ⟨nofun, rfl⟩ (.cons ⟨?_, rfl⟩ (.nil _))),
    starts_secondTicker, by decide +kernel⟩
  · rintro now ⟨⟩; decide +kernel
  · rintro now ⟨⟩; show s2.clock ≤ 3006; decide +kernel

end TronRs

import TronRs.L4P2p.Service
import TronRs.L5Node.Slots

/-!
# Two nodes joined by a connection

`handle_frame` over the handler of `crates/node/src/net.rs`, on both ends of a connection. The
chain of node A grows, and each of its blocks is put on A's broadcast channel once, in order and
after it is stored; everything B learns it learns from the frames that arrive.

* `gossip_converges`: whatever the order of growth, announcements and deliveries, the blocks that
  B has stored are the first ones of those A has, and once no frame is on its way B has the last
  block A has announced.

What is on its way is a run of consecutive numbers: the blocks on the way to B, then the requests
on the way to A, then the announcements on the way to B (`Gossip.Inv.chain`). Pings, transactions
and commits travel on the same connection and disturb nothing.
-/
namespace TronRs

open TronRs.Core

/-! ## The handler of a node -/

/-- A node and what waits on its broadcast channel for the connection. -/
structure Peer where
  node : Node
  queue : List Advertise := []

/-- Mirrors p2p/service.rs:70. -/
def Peer.advertise (p : Peer) (adv : Advertise) : Peer := { p with queue := p.queue ++ [adv] }

section
variable (pf : Platform) (cfg : NodeConfig) (decodeTx : Bytes → Option Transaction) (now : Int64)

/-- Mirrors node/net.rs:152. -/
def onTransaction (n : Node) (bytes : Bytes) : Node :=
  match decodeTx bytes with
  | none => n
  | some tx =>
    match admitTransaction pf n.mempool n.world tx now fun _ _ => .ok () with
    | .ok (_, mempool) => { n with mempool }
    | .error _ => n

/-- Mirrors node/net.rs:119. The commit to an accepted block is announced before the block;
it does not depend on what storing the block has changed (`onBlock_of_next`). -/
def nodeChannelHandler : ChannelHandler Peer where
  head p := p.node.head
  onBlock p bytes :=
    match onBlock pf cfg p.node bytes with
    | (some head, n) => (some head, ⟨n, p.queue ++ (blockCommit pf cfg p.node.world bytes).toList.map .pbftCommit⟩)
    | (none, n) => (none, { p with node := n })
  onTransaction p bytes := { p with node := onTransaction pf decodeTx now p.node bytes }
  blockBytes p k := (p.node.world.getBlockByNum k).map pf.codec.block
  onPbftCommit p bytes := ((onPbftCommit pf p.node bytes).1, { p with node := (onPbftCommit pf p.node bytes).2 })

/-- A frame arrives at a node; also the frames it writes in reply. -/
def Peer.handle (p : Peer) (f : Frame) : Peer × List Frame :=
  handleFrame (nodeChannelHandler pf cfg decodeTx now) Peer.advertise p f

/-- The next frame on a connection is read and handled; also what is left on the connection. -/
def Peer.deliver (p : Peer) (link : Bytes) : Option ((Peer × List Frame) × Bytes) :=
  (readFrame.poll ⟨link, false⟩).bind fun (r, rest) =>
    r.toOption.map fun f => (p.handle pf cfg decodeTx now f, rest.arrived)

end

/-! ## The two nodes -/

/-- The two ends, and the bytes on their way in each direction. -/
structure Gossip where
  a : Peer
  b : Peer
  toA : Bytes := []
  toB : Bytes := []
  /-- ghost: the last block A has put on its broadcast channel -/
  advertised : Int64
  /-- ghost: the last block A has written an inventory for -/
  announced : Int64

inductive GossipStep where
  | grow (n : Node) (b : Block)
  | advertise
  | announceA
  | announceB
  | deliverA (now : Int64)
  | deliverB (now : Int64)
  | otherA (f : Frame)
  | otherB (f : Frame)

/-- A frame that is not about blocks, within the limit. -/
structure Frame.Plain (f : Frame) : Prop where
  inventory : f.kind ≠ .blockInventory
  fetch : f.kind ≠ .fetchInvData
  block : f.kind ≠ .block
  fits : f.payload.length ≤ maxMessageSize

/-- A block has become the head, and no other block has changed. -/
structure Stores (n m : Node) (b : Block) : Prop where
  next : b.number.toInt = n.head.toInt + 1
  head : m.head = b.number
  blocks : ∀ k, m.world.getBlockByNum k = if k = b.number then some b else n.world.getBlockByNum k

section
variable (pf : Platform) (cfgA cfgB : NodeConfig) (decodeTx : Bytes → Option Transaction)

/-- A block that gets through the gate of a node, within the limit. -/
structure Passes (cfg : NodeConfig) (gate : Option (List Bytes)) (b : Block) : Prop where
  decoded : pf.codec.decodeBlock (pf.codec.block b) = some b
  gated : gateBlock pf b cfg.requireSig gate = .ok ()
  fits : (pf.codec.block b).length ≤ maxMessageSize

/-- The block an event is about. -/
def Advertise.blockNum : Advertise → Option Int64
  | .block n => some n
  | .tx _ | .pbftCommit _ => none

def Gossip.next (s : Gossip) : GossipStep → Option Gossip
  | .grow n _ => some { s with a := { s.a with node := n } }
  | .advertise =>
    some { s with a := s.a.advertise (.block (s.advertised + 1)), advertised := s.advertised + 1 }
  | .announceA =>
    match s.a.queue with
    | [] => none
    | adv :: queue =>
      some { s with
        a := { s.a with queue }
        toB := s.toB ++ writeFrame adv.frame
        announced := adv.blockNum.getD s.announced }
  | .announceB =>
    match s.b.queue with
    | [] => none
    | adv :: queue => some { s with b := { s.b with queue }, toA := s.toA ++ writeFrame adv.frame }
  | .deliverA now =>
    (s.a.deliver pf cfgA decodeTx now s.toA).map fun ((a, replies), toA) =>
      { s with a, toA, toB := s.toB ++ wire replies }
  | .deliverB now =>
    (s.b.deliver pf cfgB decodeTx now s.toB).map fun ((b, replies), toB) =>
      { s with b, toB, toA := s.toA ++ wire replies }
  | .otherA f => some { s with toB := s.toB ++ writeFrame f }
  | .otherB f => some { s with toA := s.toA ++ writeFrame f }

/-- A's chain grows by blocks with consecutive numbers that B would take, each is advertised once
it is stored, and nothing else is announced or asked for. -/
def Gossip.Allowed (s : Gossip) : GossipStep → Prop
  | .grow n b => Stores s.a.node n b ∧ Passes pf cfgB s.b.node.gate b
  | .advertise => s.advertised < s.a.node.head
  | .otherA f => f.Plain
  | .otherB f => f.Plain
  | _ => True

/-- Both nodes are at `start`, and nothing has been said. -/
structure Gossip.Starts (start : Int64) (s : Gossip) : Prop where
  headA : s.a.node.head = start
  headB : s.b.node.head = start
  fresh : ∀ k, start < k → s.b.node.world.getBlockByNum k = none
  queueA : s.a.queue = []
  queueB : s.b.queue = []
  toA : s.toA = []
  toB : s.toB = []
  advertised : s.advertised = start
  announced : s.announced = start

def gossip (start : Int64) : Lts Gossip GossipStep where
  init := Gossip.Starts start
  step s l t := s.Allowed pf cfgB l ∧ s.next pf cfgA cfgB decodeTx l = some t

end

/-- The blocks of `b` above `start` are the first ones of those of `a`. -/
structure Follows (start : Int64) (b a : Node) : Prop where
  head_le : b.head ≤ a.head
  stored : ∀ k, start < k → k ≤ b.head → ∃ blk, b.world.getBlockByNum k = some blk ∧ a.world.getBlockByNum k = some blk
  fresh : ∀ k, b.head < k → b.world.getBlockByNum k = none

/-! ## What handling a frame does -/

/-- Nothing has changed that a peer could ask for. -/
structure SameChain (n m : Node) : Prop where
  head : m.head = n.head
  blocks : ∀ k, m.world.getBlockByNum k = n.world.getBlockByNum k
  witnesses : m.world.getActiveWitnesses = n.world.getActiveWitnesses

section
variable {pf : Platform} {cfg : NodeConfig} {decodeTx : Bytes → Option Transaction} {now : Int64}
variable {n m : Node} {b : Block} {bytes : Bytes} {w : WorldState} {p : Peer} {f : Frame}

lemma SameChain.refl (n : Node) : SameChain n n := ⟨rfl, fun _ => rfl, rfl⟩

lemma SameChain.gate (h : SameChain n m) : m.gate = n.gate := by
  unfold Node.gate; rw [h.witnesses]

lemma Confirms.sameChain (h : Confirms n m) : SameChain n m := ⟨h.head, h.blocks, h.witnesses⟩

lemma sameChain_onTransaction (n : Node) (bytes : Bytes) : SameChain n (onTransaction pf decodeTx now n bytes) := by
  unfold onTransaction
  split
  · exact .refl n
  · split
    · exact ⟨rfl, fun _ => rfl, rfl⟩
    · exact .refl n

lemma Stores.congr {m' : Node} (h : Stores n m b) (hm : SameChain m m') : Stores n m' b :=
  ⟨h.next, hm.head.trans h.head, fun k => (hm.blocks k).trans (h.blocks k)⟩

lemma stores_putBlock (hnext : b.number.toInt = n.head.toInt + 1)
    (hhead : w.getProp .latestBlockNumber = (n.world.putBlock pf b).getProp .latestBlockNumber)
    (hblocks : ∀ k, w.getBlockByNum k = (n.world.putBlock pf b).getBlockByNum k) :
    Stores n { n with world := w } b := by
  refine ⟨hnext, hhead.trans ?_, fun k => (hblocks k).trans (n.world.getBlockByNum_putBlock pf b k)⟩
  rw [getProp_putBlock_head, if_pos]; rw [le_iff_toInt_le, hnext]; show n.head.toInt ≤ _
  omega

lemma stores_applyProduced (hnext : b.number.toInt = n.head.toInt + 1) : Stores n (applyProduced pf n b).2 b :=
  (stores_putBlock hnext (WorldState.getProp_storeProduced pf n.world b _)
    (WorldState.getBlockByNum_storeProduced pf n.world b)).congr ⟨rfl, fun _ => rfl, rfl⟩

/-- So is a block from a peer, the last number apart. -/
lemma stores_onBlock (h : Next pf cfg n bytes b) (hnext : b.number.toInt = n.head.toInt + 1) :
    Stores n (onBlock pf cfg n bytes).2 b := by
  rw [onBlock_of_next h]
  exact (stores_putBlock hnext rfl fun _ => rfl).congr (confirms_receive pf (n.store pf b) _).sameChain

lemma Passes.encode_ne_nil {gate : Option (List Bytes)} (h : Passes pf cfg gate b) : pf.codec.block b ≠ [] := by
  obtain ⟨raw, hraw, -⟩ := raw_of_gateBlock h.gated
  obtain ⟨header, hheader, -⟩ := Option.bind_eq_some_iff.mp hraw
  exact pf.codec.block_ne_nil b (by rw [hheader]; exact Option.some_ne_none _)

/-- The events a frame about blocks leaves to the service: within the limit, and not about blocks. -/
def Advertise.Plain (adv : Advertise) : Prop := adv.blockNum = none ∧ adv.frame.payload.length ≤ maxMessageSize

/-- A peer after a frame that is not about blocks, with its replies. -/
structure Peer.Undisturbed (p q : Peer) (replies : List Frame) : Prop where
  chain : SameChain p.node q.node
  queue : ∃ events, q.queue = p.queue ++ events ∧ ∀ adv ∈ events, adv.Plain
  replies : ∀ f ∈ replies, f.Plain

lemma Peer.Undisturbed.of_node (h : SameChain p.node m) : p.Undisturbed { p with node := m } [] :=
  ⟨h, ⟨[], (List.append_nil _).symm, by simp⟩, by simp⟩

lemma Peer.Undisturbed.writes (hf : f.Plain) : p.Undisturbed p [f] :=
  ⟨.refl _, ⟨[], (List.append_nil _).symm, by simp⟩, by simpa using hf⟩

lemma Peer.handle_plain (p : Peer) (hf : f.Plain) :
    p.Undisturbed (p.handle pf cfg decodeTx now f).1 (p.handle pf cfg decodeTx now f).2 := by
  have hself : p.Undisturbed p [] := .of_node (.refl _)
  unfold Peer.handle handleFrame; obtain ⟨kind, payload⟩ := f
  cases kind with
  | blockInventory => exact absurd rfl hf.inventory
  | fetchInvData => exact absurd rfl hf.fetch
  | block => exact absurd rfl hf.block
  | p2pPing => exact .writes ⟨by simp, by simp, by simp, Nat.zero_le _⟩
  | trx => exact .of_node (sameChain_onTransaction _ _)
  | pbftCommit =>
    have hsame := (confirms_onPbftCommit pf p.node payload).sameChain
    dsimp only
    split
    · exact hself
    simp only [nodeChannelHandler]
    cases (TronRs.onPbftCommit pf p.node payload).1 with
    | true =>
      refine ⟨hsame, ⟨[.pbftCommit payload], rfl, ?_⟩, by simp⟩; intro adv hadv
      rw [List.mem_singleton.mp hadv]; exact ⟨rfl, hf.fits⟩
    | false => exact .of_node hsame
  | trxs | blocks | blockHeaders | inventory | syncBlockChain | blockChainInventory | fetchBlockHeaders | trxInventory
  | p2pHello | p2pDisconnect | p2pPong => exact hself

lemma blockCommit_plain {adv : Advertise}
    (h : adv ∈ (blockCommit pf cfg w bytes).toList.map Advertise.pbftCommit) : adv.Plain := by
  obtain ⟨commit, hmem, rfl⟩ := List.mem_map.mp h
  obtain ⟨_, c, _, rfl, _⟩ := blockCommit_eq_some (Option.mem_toList.mp hmem)
  refine ⟨rfl, ?_⟩; show c.encode.length ≤ maxMessageSize; rw [c.length_encode]
  decide

/-- The next block is stored and announced in turn. -/
lemma Peer.handle_block (decodeTx : Bytes → Option Transaction) (now : Int64)
    (hpass : Passes pf cfg p.node.gate b) (hnext : b.number.toInt = p.node.head.toInt + 1) :
    ∃ n events, p.handle pf cfg decodeTx now ⟨.block, pf.codec.block b⟩ =
      (⟨n, p.queue ++ events ++ [.block b.number]⟩, []) ∧
      Stores p.node n b ∧ n.gate = p.node.gate ∧ ∀ adv ∈ events, adv.Plain := by
  have hnumber : b.number = p.node.head + 1 := by
    apply toInt_inj.mp; have hone := Int64.toInt_one
    rw [hnext, toInt_add_of_fits]
    · rw [hone]
    · have hfits := fits_toInt b.number; rw [hone]; rwa [hnext] at hfits
  have hblock : Next pf cfg p.node (pf.codec.block b) b := ⟨hpass.decoded, hpass.gated, hnumber⟩
  have hstores := stores_onBlock hblock hnext
  have hresult := onBlock_eq_of_next hblock
  have hconfirms := confirms_receive pf (p.node.store pf b) (blockCommit pf cfg p.node.world (pf.codec.block b))
  refine ⟨(onBlock pf cfg p.node (pf.codec.block b)).2,
    (blockCommit pf cfg p.node.world (pf.codec.block b)).toList.map .pbftCommit, ?_, hstores, ?_,
    fun adv => blockCommit_plain⟩
  · have hhead :
      onBlock pf cfg p.node (pf.codec.block b) = (some b.number, (onBlock pf cfg p.node (pf.codec.block b)).2) := by
      rw [hresult] at hstores ⊢; rw [← hstores.head]
    have hhandler : (nodeChannelHandler pf cfg decodeTx now).onBlock p (pf.codec.block b) = (some b.number,
        ⟨(onBlock pf cfg p.node (pf.codec.block b)).2,
          p.queue ++ (blockCommit pf cfg p.node.world (pf.codec.block b)).toList.map .pbftCommit⟩) := by
      simp only [nodeChannelHandler]; rw [hhead]
    exact handleFrame_block _ Peer.advertise hpass.encode_ne_nil hhandler
  · rw [onBlock_of_next hblock, hconfirms.sameChain.gate]; unfold Node.gate
    rw [Node.getActiveWitnesses_store]

lemma Peer.handle_inventory (p : Peer) (k : Int64) : p.handle pf cfg decodeTx now ⟨.blockInventory, encodeNumbers [k]⟩ =
      (p, if p.node.head < k then [⟨.fetchInvData, encodeNumbers [k]⟩] else []) :=
  handleFrame_inventory _ _ p k

lemma Peer.handle_fetch {k : Int64} (h : p.node.world.getBlockByNum k = some b) :
    p.handle pf cfg decodeTx now ⟨.fetchInvData, encodeNumbers [k]⟩ = (p, [⟨.block, pf.codec.block b⟩]) := by
  refine (handleFrame_fetch _ _ p k).trans ?_
  simp only [nodeChannelHandler, h, Option.map_some, Option.getD_some]

/-- The frame that was written first is handled. -/
lemma Peer.deliver_wire (p : Peer) (hf : f.payload.length ≤ maxMessageSize) (fs : List Frame) :
    p.deliver pf cfg decodeTx now (wire (f :: fs)) = some (p.handle pf cfg decodeTx now f, wire fs) := by
  rw [Peer.deliver, poll_wire hf]; rfl

end

/-! ## What is on its way -/

/-- A frame on its way, read. -/
inductive Msg where
  | inventory (n : Int64)
  | fetch (n : Int64)
  | block (b : Block)
  | plain (f : Frame)

namespace Msg

def frame (pf : Platform) : Msg → Frame
  | inventory n => ⟨.blockInventory, encodeNumbers [n]⟩
  | fetch n => ⟨.fetchInvData, encodeNumbers [n]⟩
  | block b => ⟨.block, pf.codec.block b⟩
  | plain f => f

def inventoryNum : Msg → Option ℤ
  | inventory n => some n.toInt
  | fetch _ | block _ | plain _ => none

def fetchNum : Msg → Option ℤ
  | fetch n => some n.toInt
  | inventory _ | block _ | plain _ => none

def blockNum : Msg → Option ℤ
  | block b => some b.number.toInt
  | inventory _ | fetch _ | plain _ => none

/-- A is told of blocks it has, asked for blocks, and not sent any. -/
def ForA (head : Int64) : Msg → Prop
  | inventory n => n.toInt ≤ head.toInt
  | fetch _ => True
  | block _ => False
  | plain f => f.Plain

/-- B is sent blocks that A has. -/
def ForB (a : Node) : Msg → Prop
  | inventory _ => True
  | fetch _ => False
  | block b => a.world.getBlockByNum b.number = some b
  | plain f => f.Plain

end Msg

/-- The numbers B has been told of and does not have yet, with the messages to A and to B. -/
def inFlight (ma mb : List Msg) : List ℤ :=
  mb.filterMap Msg.blockNum ++ (ma.filterMap Msg.fetchNum ++ mb.filterMap Msg.inventoryNum)

lemma filterMap_plain {g : Msg → Option ℤ} (hg : ∀ f, g (.plain f) = none) (fs : List Frame) :
    (fs.map Msg.plain).filterMap g = [] := by
  rw [List.filterMap_eq_nil_iff]; intro m hm; obtain ⟨f, -, rfl⟩ := List.mem_map.mp hm
  exact hg f

@[simp] lemma inFlight_plainA (ma mb : List Msg) (fs : List Frame) :
    inFlight (ma ++ fs.map .plain) mb = inFlight ma mb := by
  rw [inFlight, inFlight, List.filterMap_append, filterMap_plain (fun _ => rfl), List.append_nil]

@[simp] lemma inFlight_plainB (ma mb : List Msg) (fs : List Frame) :
    inFlight ma (mb ++ fs.map .plain) = inFlight ma mb := by
  rw [inFlight, inFlight, List.filterMap_append, List.filterMap_append, filterMap_plain (fun _ => rfl),
    filterMap_plain (fun _ => rfl), List.append_nil, List.append_nil]

lemma inFlight_inventoryA (ma mb : List Msg) (n : Int64) : inFlight (ma ++ [.inventory n]) mb = inFlight ma mb := by
  simp [inFlight, List.filterMap_cons, Msg.fetchNum]

/-- An announcement is at the end. -/
lemma inFlight_inventoryB (ma mb : List Msg) (n : Int64) :
    inFlight ma (mb ++ [.inventory n]) = inFlight ma mb ++ [n.toInt] := by
  simp [inFlight, List.filterMap_cons, Msg.blockNum, Msg.inventoryNum]

/-- An announcement becomes a request, behind the older ones. -/
lemma inFlight_request (ma mb : List Msg) (n : Int64) :
    inFlight (ma ++ [.fetch n]) mb = inFlight ma (.inventory n :: mb) := by
  simp [inFlight, List.filterMap_cons, Msg.blockNum, Msg.inventoryNum, Msg.fetchNum]

/-- A request becomes a block, behind the older ones. -/
lemma inFlight_serve (ma mb : List Msg) (b : Block) :
    inFlight ma (mb ++ [.block b]) = inFlight (.fetch b.number :: ma) mb := by
  simp [inFlight, List.filterMap_cons, Msg.blockNum, Msg.inventoryNum, Msg.fetchNum]

/-- A block is at the front. -/
lemma inFlight_block (ma mb : List Msg) (b : Block) :
    inFlight ma (.block b :: mb) = b.number.toInt :: inFlight ma mb := by
  simp [inFlight, List.filterMap_cons, Msg.blockNum, Msg.inventoryNum]

/-- The blocks that wait on a broadcast channel. -/
def blockEvents (queue : List Advertise) : List ℤ := queue.filterMap fun adv => adv.blockNum.map Int64.toInt

/-- What holds at all times, with the messages to A and to B. -/
structure Gossip.Inv (pf : Platform) (cfg : NodeConfig) (start : Int64) (gate : Option (List Bytes)) (s : Gossip)
    (ma mb : List Msg) : Prop where
  linkA : s.toA = wire (ma.map (Msg.frame pf))
  linkB : s.toB = wire (mb.map (Msg.frame pf))
  forA : ∀ m ∈ ma, m.ForA s.a.node.head
  forB : ∀ m ∈ mb, m.ForB s.a.node
  chain : Consecutive s.b.node.head.toInt (inFlight ma mb) s.announced.toInt
  queue : Consecutive s.announced.toInt (blockEvents s.a.queue) s.advertised.toInt
  advertised : s.advertised.toInt ≤ s.a.node.head.toInt
  eventsA : ∀ adv ∈ s.a.queue, adv.frame.payload.length ≤ maxMessageSize
  eventsB : ∀ adv ∈ s.b.queue, adv.frame.payload.length ≤ maxMessageSize
  echoes : ∀ n, .block n ∈ s.b.queue → n.toInt ≤ s.b.node.head.toInt
  gated : s.b.node.gate = gate
  above : start.toInt ≤ s.b.node.head.toInt
  stored : ∀ k : Int64, start.toInt < k.toInt → k.toInt ≤ s.a.node.head.toInt →
    ∃ b, s.a.node.world.getBlockByNum k = some b ∧ b.number = k ∧ Passes pf cfg gate b
  same : ∀ k : Int64, start.toInt < k.toInt → k.toInt ≤ s.b.node.head.toInt →
    s.b.node.world.getBlockByNum k = s.a.node.world.getBlockByNum k
  fresh : ∀ k : Int64, s.b.node.head.toInt < k.toInt → s.b.node.world.getBlockByNum k = none

variable {l : GossipStep}

namespace Gossip.Inv

variable {pf : Platform} {cfg : NodeConfig} {start : Int64} {gate : Option (List Bytes)} {s : Gossip} {ma mb : List Msg}
variable {b : Block} {m : Msg} {n : Node} {adv : Advertise} {queue events : List Advertise} {replies : List Frame}

variable (h : s.Inv pf cfg start gate ma mb)
include h

lemma announced_le : s.announced.toInt ≤ s.a.node.head.toInt :=
  h.queue.le.trans h.advertised

lemma head_le : s.b.node.head.toInt ≤ s.a.node.head.toInt :=
  h.chain.le.trans h.announced_le

/-- A number on its way is that of a block of A that B does not have. -/
lemma bounds {n : ℤ} (hn : n ∈ inFlight ma mb) :
    start.toInt < n ∧ s.b.node.head.toInt < n ∧ n ≤ s.a.node.head.toInt := by
  obtain ⟨hlo, hhi⟩ := h.chain.mem_bounds hn
  have := h.above
  have := h.announced_le; omega

lemma bounds_block (hb : .block b ∈ mb) :
    start.toInt < b.number.toInt ∧ s.b.node.head.toInt < b.number.toInt ∧ b.number.toInt ≤ s.a.node.head.toInt :=
  h.bounds (List.mem_append_left _ (List.mem_filterMap.mpr ⟨_, hb, rfl⟩))

lemma passes (hb : .block b ∈ mb) : Passes pf cfg gate b := by
  obtain ⟨hlo, -, hhi⟩ := h.bounds_block hb
  obtain ⟨b', hget, -, hpass⟩ := h.stored b.number hlo hhi
  cases hget.symm.trans (h.forB _ hb); exact hpass

lemma fitsA (hm : m ∈ ma) : (m.frame pf).payload.length ≤ maxMessageSize := by
  cases m with
  | inventory n | fetch n => exact length_one_number n
  | block => exact (h.forA _ hm).elim
  | plain => exact (h.forA _ hm).fits

lemma fitsB (hm : m ∈ mb) : (m.frame pf).payload.length ≤ maxMessageSize := by
  cases m with
  | inventory n => exact length_one_number n
  | fetch => exact (h.forB _ hm).elim
  | block => exact (h.passes hm).fits
  | plain => exact (h.forB _ hm).fits

/-! ### One step -/

lemma grow (hstores : Stores s.a.node n b)
    (hpass : Passes pf cfg s.b.node.gate b) : Inv pf cfg start gate { s with a := { s.a with node := n } } ma mb := by
  have hnext := hstores.next
  have hhead : n.head.toInt = s.a.node.head.toInt + 1 := by rw [hstores.head, hnext]
  -- the block is above all the blocks A had
  have hold : ∀ k : Int64, k.toInt ≤ s.a.node.head.toInt →
      n.world.getBlockByNum k = s.a.node.world.getBlockByNum k := by
    intro k hk; rw [hstores.blocks, if_neg]; intro heq
    rw [heq] at hk; omega
  refine ⟨h.linkA, h.linkB, fun m hm => ?_, fun m hm => ?_, h.chain, h.queue, ?_, h.eventsA, h.eventsB, h.echoes,
    h.gated, h.above, fun k hlo hhi => ?_, fun k hlo hhi => ?_, h.fresh⟩
  · have hfor := h.forA m hm
    cases m with
    | inventory k =>
      show k.toInt ≤ n.head.toInt; have : k.toInt ≤ s.a.node.head.toInt := hfor; omega
    | fetch => trivial
    | block | plain => exact hfor
  · have hfor := h.forB m hm
    cases m with
    | inventory => trivial
    | fetch => exact hfor
    | block => exact (hold _ (h.bounds_block hm).2.2).trans hfor
    | plain => exact hfor
  · show s.advertised.toInt ≤ n.head.toInt; have := h.advertised; omega
  · change k.toInt ≤ n.head.toInt at hhi
    by_cases hk : k.toInt ≤ s.a.node.head.toInt
    · rw [hold k hk]; exact h.stored k hlo hk
    · have heq : k = b.number := toInt_inj.mp (by omega)
      rw [hstores.blocks, if_pos heq]; rw [h.gated] at hpass; exact ⟨b, rfl, heq.symm, hpass⟩
  · exact (h.same k hlo hhi).trans (hold k (hhi.trans h.head_le)).symm

lemma advertise (hlt : s.advertised < s.a.node.head) : Inv pf cfg start gate
      { s with a := s.a.advertise (.block (s.advertised + 1)), advertised := s.advertised + 1 } ma mb := by
  rw [lt_iff_toInt_lt] at hlt
  have hsum : (s.advertised + 1).toInt = s.advertised.toInt + 1 := by
    have hlow := fits_toInt s.advertised
    have hhigh := fits_toInt s.a.node.head; unfold Int64.Fits at hlow hhigh
    have hone := Int64.toInt_one; rw [toInt_add_of_fits ⟨by omega, by omega⟩, hone]
  refine { h with queue := ?_, advertised := ?_, eventsA := fun adv hadv => ?_ }
  · have hevents : blockEvents (s.a.queue ++ [.block (s.advertised + 1)]) =
        blockEvents s.a.queue ++ [s.advertised.toInt + 1] := by
      rw [blockEvents, List.filterMap_append, ← hsum]; rfl
    show Consecutive _ (blockEvents (s.a.queue ++ [.block (s.advertised + 1)])) (s.advertised + 1).toInt
    rw [hevents, hsum]; exact h.queue.snoc
  · show (s.advertised + 1).toInt ≤ s.a.node.head.toInt; omega
  · rcases List.mem_append.mp hadv with hadv | hadv
    · exact h.eventsA adv hadv
    · rw [List.mem_singleton.mp hadv]; exact length_one_number _

/-- A writes what waits on its broadcast channel. -/
lemma announceA (hq : s.a.queue = adv :: queue) : ∃ mb', Inv pf cfg start gate
      { s with
        a := { s.a with queue }
        toB := s.toB ++ writeFrame adv.frame
        announced := adv.blockNum.getD s.announced } ma mb' := by
  have hqueue := h.queue
  have hevents := h.eventsA; rw [hq] at hqueue hevents; rw [List.forall_mem_cons] at hevents
  obtain ⟨m, hframe, hfor, hchain, hrest⟩ : ∃ m : Msg, m.frame pf = adv.frame ∧ m.ForB s.a.node ∧
      Consecutive s.b.node.head.toInt (inFlight ma (mb ++ [m])) (adv.blockNum.getD s.announced).toInt ∧
      Consecutive (adv.blockNum.getD s.announced).toInt (blockEvents queue) s.advertised.toInt := by
    cases adv with
    | block n =>
      obtain ⟨hn, hrest⟩ : n.toInt = s.announced.toInt + 1 ∧ Consecutive n.toInt (blockEvents queue) _ := hqueue
      refine ⟨.inventory n, rfl, trivial, ?_, hrest⟩; have hchain := h.chain.snoc; rw [← hn] at hchain
      rwa [inFlight_inventoryB]
    | tx bytes =>
      refine ⟨.plain ⟨.trx, bytes⟩, rfl, ⟨by simp, by simp, by simp, hevents.1⟩, ?_, hqueue⟩
      exact (inFlight_plainB ma mb [⟨.trx, bytes⟩]).symm ▸ h.chain
    | pbftCommit bytes =>
      refine ⟨.plain ⟨.pbftCommit, bytes⟩, rfl, ⟨by simp, by simp, by simp, hevents.1⟩, ?_, hqueue⟩
      exact (inFlight_plainB ma mb [⟨.pbftCommit, bytes⟩]).symm ▸ h.chain
  refine ⟨mb ++ [m], { h with linkB := ?_, forB := ?_, chain := hchain, queue := hrest, eventsA := hevents.2 }⟩
  · rw [h.linkB, List.map_append, wire_append, List.map_singleton, hframe]; simp [wire]
  · rw [List.forall_mem_append, List.forall_mem_singleton]; exact ⟨h.forB, hfor⟩

/-- B repeats what it has to A, among other things. -/
lemma announceB (hq : s.b.queue = adv :: queue) : ∃ ma', Inv pf cfg start gate
      { s with b := { s.b with queue }, toA := s.toA ++ writeFrame adv.frame } ma' mb := by
  have hevents := h.eventsB
  have hechoes := h.echoes; rw [hq] at hevents hechoes; rw [List.forall_mem_cons] at hevents
  obtain ⟨m, hframe, hfor, hflight⟩ : ∃ m : Msg, m.frame pf = adv.frame ∧ m.ForA s.a.node.head ∧
      inFlight (ma ++ [m]) mb = inFlight ma mb := by
    cases adv with
    | block n => exact ⟨.inventory n, rfl, (hechoes n List.mem_cons_self).trans h.head_le, inFlight_inventoryA ma mb n⟩
    | tx bytes =>
      exact ⟨.plain ⟨.trx, bytes⟩, rfl, ⟨by simp, by simp, by simp, hevents.1⟩, inFlight_plainA ma mb [⟨.trx, bytes⟩]⟩
    | pbftCommit bytes =>
      exact ⟨.plain ⟨.pbftCommit, bytes⟩, rfl, ⟨by simp, by simp, by simp, hevents.1⟩,
        inFlight_plainA ma mb [⟨.pbftCommit, bytes⟩]⟩
  refine ⟨ma ++ [m], { h with
    linkA := ?_, forA := ?_, chain := hflight ▸ h.chain, eventsB := hevents.2
    echoes := fun n hn => hechoes n (List.mem_cons_of_mem _ hn) }⟩
  · rw [h.linkA, List.map_append, wire_append, List.map_singleton, hframe]; simp [wire]
  · rw [List.forall_mem_append, List.forall_mem_singleton]; exact ⟨h.forA, hfor⟩

/-- The links after a step that stores nothing. -/
lemma links {ma' mb' : List Msg} {toA toB : Bytes}
    (hlinkA : toA = wire (ma'.map (Msg.frame pf))) (hlinkB : toB = wire (mb'.map (Msg.frame pf)))
    (hA : ∀ m ∈ ma', m.ForA s.a.node.head) (hB : ∀ m ∈ mb', m.ForB s.a.node)
    (hflight : inFlight ma' mb' = inFlight ma mb) : Inv pf cfg start gate { s with toA, toB } ma' mb' :=
  { h with linkA := hlinkA, linkB := hlinkB, forA := hA, forB := hB, chain := hflight ▸ h.chain }

omit h in
lemma map_frame_plain (fs : List Frame) : (fs.map Msg.plain).map (Msg.frame pf) = fs := by
  rw [List.map_map]; exact List.map_id fs

omit h in
lemma blockEvents_append (hevents : ∀ adv ∈ events, adv.Plain) : blockEvents (queue ++ events) = blockEvents queue := by
  have hnil : events.filterMap (fun adv => adv.blockNum.map Int64.toInt) = [] := by
    rw [List.filterMap_eq_nil_iff]; intro adv hadv; rw [(hevents adv hadv).1]
    rfl
  rw [blockEvents, List.filterMap_append, hnil, List.append_nil, blockEvents]

/-- A handles or writes something that is not about blocks. -/
lemma undisturbedA {a : Peer} (hu : s.a.Undisturbed a replies) :
    Inv pf cfg start gate { s with a, toB := s.toB ++ wire replies } ma (mb ++ replies.map .plain) := by
  obtain ⟨events, hqueue, hevents⟩ := hu.queue
  refine ⟨h.linkA, ?_, fun m hm => ?_, fun m hm => ?_, ?_, ?_, ?_, ?_, h.eventsB, h.echoes, h.gated, h.above, ?_, ?_,
    h.fresh⟩
  · rw [List.map_append, wire_append, map_frame_plain, ← h.linkB]
  · have hfor := h.forA m hm; rwa [← hu.chain.head] at hfor
  · rcases List.mem_append.mp hm with hm | hm
    · have hfor := h.forB m hm
      cases m with
      | inventory => trivial
      | fetch => exact hfor
      | block => exact (hu.chain.blocks _).trans hfor
      | plain => exact hfor
    · obtain ⟨f, hf, rfl⟩ := List.mem_map.mp hm; exact hu.replies f hf
  · rw [inFlight_plainB]; exact h.chain
  · rw [hqueue, blockEvents_append hevents]; exact h.queue
  · rw [hu.chain.head]; exact h.advertised
  · rw [hqueue, List.forall_mem_append]; exact ⟨h.eventsA, fun adv hadv => (hevents adv hadv).2⟩
  · intro k hlo hhi; rw [hu.chain.head] at hhi; rw [hu.chain.blocks]
    exact h.stored k hlo hhi
  · intro k hlo hhi; exact (h.same k hlo hhi).trans (hu.chain.blocks k).symm

lemma undisturbedB {b : Peer} (hu : s.b.Undisturbed b replies) :
    Inv pf cfg start gate { s with b, toA := s.toA ++ wire replies } (ma ++ replies.map .plain) mb := by
  obtain ⟨events, hqueue, hevents⟩ := hu.queue
  have hhead : b.node.head.toInt = s.b.node.head.toInt := by rw [hu.chain.head]
  refine ⟨?_, h.linkB, fun m hm => ?_, h.forB, ?_, h.queue, h.advertised, h.eventsA, ?_, fun n hn => ?_,
    hu.chain.gate.trans h.gated, hhead ▸ h.above, h.stored, ?_, ?_⟩
  · rw [List.map_append, wire_append, map_frame_plain, ← h.linkA]
  · rcases List.mem_append.mp hm with hm | hm
    · exact h.forA m hm
    · obtain ⟨f, hf, rfl⟩ := List.mem_map.mp hm; exact hu.replies f hf
  · rw [inFlight_plainA]; exact hhead ▸ h.chain
  · rw [hqueue, List.forall_mem_append]; exact ⟨h.eventsB, fun adv hadv => (hevents adv hadv).2⟩
  · rw [hhead]; rw [hqueue] at hn
    rcases List.mem_append.mp hn with hn | hn
    · exact h.echoes n hn
    · cases (hevents _ hn).1
  · intro k hlo hhi; exact (hu.chain.blocks k).trans (h.same k hlo (hhead ▸ hhi))
  · intro k hlo; exact (hu.chain.blocks k).trans (h.fresh k (hhead ▸ hlo))

omit h in
/-- B stores the block that arrives. -/
lemma store {blk : Block} (h : s.Inv pf cfg start gate ma (.block blk :: mb))
    (hstores : Stores s.b.node n blk) (hgate : n.gate = s.b.node.gate) (hevents : ∀ adv ∈ events, adv.Plain) :
    Inv pf cfg start gate
      { s with b := ⟨n, s.b.queue ++ events ++ [.block blk.number]⟩, toB := wire (mb.map (Msg.frame pf)) } ma mb := by
  have hnext := hstores.next
  have hhead : n.head.toInt = s.b.node.head.toInt + 1 := by rw [hstores.head, hnext]
  have hget : s.a.node.world.getBlockByNum blk.number = some blk := h.forB _ List.mem_cons_self
  have hchain := h.chain; rw [inFlight_block] at hchain
  refine ⟨h.linkA, rfl, h.forA, fun m hm => h.forB m (List.mem_cons_of_mem _ hm), ?_, h.queue, h.advertised, h.eventsA,
    fun adv hadv => ?_, fun k hk => ?_, hgate.trans h.gated, ?_, h.stored, fun k hlo hhi => ?_, fun k hlo => ?_⟩
  · rw [hstores.head]; exact hchain.2
  · rcases List.mem_append.mp hadv with hadv | hadv
    · rcases List.mem_append.mp hadv with hadv | hadv
      · exact h.eventsB adv hadv
      · exact (hevents adv hadv).2
    · rw [List.mem_singleton.mp hadv]; exact length_one_number _
  · show k.toInt ≤ n.head.toInt
    rcases List.mem_append.mp hk with hk | hk
    · rcases List.mem_append.mp hk with hk | hk
      · have := h.echoes k hk; omega
      · cases (hevents _ hk).1
    · cases List.mem_singleton.mp hk; rw [hstores.head]
  · show start.toInt ≤ n.head.toInt; have := h.above; omega
  · change k.toInt ≤ n.head.toInt at hhi; refine (hstores.blocks k).trans ?_
    split
    · rename_i hk; rw [hk, hget]
    · rename_i hk; refine h.same k hlo ?_
      have hne : k.toInt ≠ blk.number.toInt := fun heq => hk (toInt_inj.mp heq)
      omega
  · change n.head.toInt < k.toInt at hlo; refine (hstores.blocks k).trans ?_
    rw [if_neg]
    · exact h.fresh k (by omega)
    · intro hk; rw [hk] at hlo; omega

variable {cfgA : NodeConfig} {decodeTx : Bytes → Option Transaction} {now : Int64} {t : Gossip}

lemma deliverA
    (ht : s.next pf cfgA cfg decodeTx (.deliverA now) = some t) : ∃ ma mb, t.Inv pf cfg start gate ma mb := by
  simp only [Gossip.next, h.linkA] at ht
  cases ma with
  | nil => cases ht
  | cons m ma =>
    rw [List.map_cons, Peer.deliver_wire _ (h.fitsA List.mem_cons_self)] at ht
    obtain ⟨hm, hrest⟩ := List.forall_mem_cons.mp h.forA
    cases m with
    | inventory n =>
      -- A has every block B can tell it of
      have hknown : ¬ s.a.node.head < n := by rw [lt_iff_toInt_lt]; exact not_lt.mpr hm
      simp only [Msg.frame, Peer.handle_inventory, if_neg hknown] at ht; cases ht
      exact ⟨ma, mb, h.links rfl (by simp [h.linkB]) hrest h.forB rfl⟩
    | fetch n =>
      obtain ⟨hlo, -, hhi⟩ := h.bounds (n := n.toInt) (by simp [inFlight, Msg.fetchNum])
      obtain ⟨b, hget, rfl, -⟩ := h.stored n hlo hhi
      simp only [Msg.frame, Peer.handle_fetch hget] at ht; cases ht
      refine ⟨ma, mb ++ [.block b], h.links rfl ?_ hrest ?_ (inFlight_serve ma mb b)⟩
      · rw [List.map_append, wire_append, h.linkB]; rfl
      · rw [List.forall_mem_append, List.forall_mem_singleton]; exact ⟨h.forB, hget⟩
    | block => exact hm.elim
    | plain =>
      cases ht
      have hpop : Inv pf cfg start gate { s with toA := wire (ma.map (Msg.frame pf)) } ma mb :=
        h.links rfl h.linkB hrest h.forB rfl
      exact ⟨ma, _, hpop.undisturbedA (s.a.handle_plain hm)⟩

lemma deliverB
    (ht : s.next pf cfgA cfg decodeTx (.deliverB now) = some t) : ∃ ma mb, t.Inv pf cfg start gate ma mb := by
  simp only [Gossip.next, h.linkB] at ht
  cases mb with
  | nil => cases ht
  | cons m mb =>
    rw [List.map_cons, Peer.deliver_wire _ (h.fitsB List.mem_cons_self)] at ht
    obtain ⟨hm, hrest⟩ := List.forall_mem_cons.mp h.forB
    cases m with
    | inventory n =>
      -- whatever is still on its way, B does not have the block
      obtain ⟨-, hlo, -⟩ := h.bounds (n := n.toInt) (by simp [inFlight, List.filterMap_cons, Msg.inventoryNum])
      simp only [Msg.frame, Peer.handle_inventory, if_pos (lt_iff_toInt_lt.mpr hlo)] at ht; cases ht
      refine ⟨ma ++ [.fetch n], mb, h.links ?_ rfl ?_ hrest (inFlight_request ma mb n)⟩
      · rw [List.map_append, wire_append, h.linkA]; rfl
      · rw [List.forall_mem_append, List.forall_mem_singleton]; exact ⟨h.forA, trivial⟩
    | fetch => exact hm.elim
    | block =>
      have hpass := h.passes List.mem_cons_self
      have hchain := h.chain; rw [inFlight_block] at hchain; rw [← h.gated] at hpass
      obtain ⟨n, events, hhandle, hstores, hgate, hevents⟩ := Peer.handle_block decodeTx now hpass hchain.1
      simp only [Msg.frame, hhandle] at ht; cases ht; have hstore := h.store hstores hgate hevents
      exact ⟨ma, mb, by simpa using hstore⟩
    | plain =>
      cases ht
      have hpop : Inv pf cfg start gate { s with toB := wire (mb.map (Msg.frame pf)) } ma mb :=
        h.links h.linkA rfl h.forA hrest rfl
      exact ⟨_, mb, hpop.undisturbedB (s.b.handle_plain hm)⟩

/-- **One step** keeps what is on its way consecutive. -/
theorem step (hl : (gossip pf cfgA cfg decodeTx start).step s l t) : ∃ ma mb, t.Inv pf cfg start gate ma mb := by
  obtain ⟨hok, hnext⟩ := hl
  cases l with
  | grow n b =>
    cases hnext; exact ⟨ma, mb, h.grow hok.1 hok.2⟩
  | advertise =>
    cases hnext; exact ⟨ma, mb, h.advertise hok⟩
  | announceA =>
    simp only [Gossip.next] at hnext
    split at hnext
    · cases hnext
    · rename_i adv queue hq; cases hnext; exact ⟨ma, h.announceA hq⟩
  | announceB =>
    simp only [Gossip.next] at hnext
    split at hnext
    · cases hnext
    · rename_i adv queue hq; cases hnext; obtain ⟨ma', h'⟩ := h.announceB hq
      exact ⟨ma', mb, h'⟩
  | deliverA now => exact h.deliverA hnext
  | deliverB now => exact h.deliverB hnext
  | otherA f =>
    cases hnext; have hwrites : s.a.Undisturbed s.a [f] := .writes hok
    exact ⟨ma, _, by simpa [wire] using h.undisturbedA hwrites⟩
  | otherB f =>
    cases hnext; have hwrites : s.b.Undisturbed s.b [f] := .writes hok
    exact ⟨_, mb, by simpa [wire] using h.undisturbedB hwrites⟩

end Gossip.Inv

/-! ## Convergence -/

section
variable {pf : Platform} {cfgA cfgB : NodeConfig} {decodeTx : Bytes → Option Transaction} {start : Int64} {s t : Gossip}
variable {ls : List GossipStep}

lemma Gossip.Starts.inv (h : Gossip.Starts start s) : s.Inv pf cfgB start s.b.node.gate [] [] where
  linkA := h.toA
  linkB := h.toB
  forA := by simp
  forB := by simp
  chain := by rw [h.headB, h.announced]; rfl
  queue := by rw [h.announced, h.advertised, h.queueA]; rfl
  advertised := by rw [h.advertised, h.headA]
  eventsA := by simp [h.queueA]
  eventsB := by simp [h.queueB]
  echoes := by simp [h.queueB]
  gated := rfl
  above := by rw [h.headB]
  stored k hlo hhi := by rw [h.headA] at hhi; omega
  same k hlo hhi := by rw [h.headB] at hhi; omega
  fresh k hlo := by rw [h.headB] at hlo; exact h.fresh k (lt_iff_toInt_lt.mpr hlo)

lemma Gossip.inv_of_run (hs : Gossip.Starts start s) (hrun : (gossip pf cfgA cfgB decodeTx start).Run s ls t) :
    ∃ ma mb, t.Inv pf cfgB start s.b.node.gate ma mb := by
  have hkept : ∀ u l v, (∃ ma mb, u.Inv pf cfgB start s.b.node.gate ma mb) →
      (gossip pf cfgA cfgB decodeTx start).step u l v → ∃ ma mb, v.Inv pf cfgB start s.b.node.gate ma mb := by
    intro u l v hu hl; obtain ⟨ma, mb, hinv⟩ := hu; exact hinv.step hl
  exact hrun.preserves hkept ⟨[], [], hs.inv⟩

/-- A frame on its way can be read: neither node waits for the rest of one or refuses one. -/
theorem gossip_delivers (hs : Gossip.Starts start s) (hrun : (gossip pf cfgA cfgB decodeTx start).Run s ls t)
    (now : Int64) : (t.toA ≠ [] → ∃ u, (gossip pf cfgA cfgB decodeTx start).step t (.deliverA now) u) ∧
      (t.toB ≠ [] → ∃ u, (gossip pf cfgA cfgB decodeTx start).step t (.deliverB now) u) := by
  obtain ⟨ma, mb, h⟩ := Gossip.inv_of_run hs hrun
  refine ⟨fun hne => ?_, fun hne => ?_⟩
  · rw [h.linkA] at hne
    cases ma with
    | nil => exact absurd rfl hne
    | cons m ma =>
      obtain ⟨u, hu⟩ : ∃ u, t.next pf cfgA cfgB decodeTx (.deliverA now) = some u := by
        simp only [Gossip.next]
        rw [h.linkA, List.map_cons, Peer.deliver_wire _ (h.fitsA List.mem_cons_self)]; exact ⟨_, rfl⟩
      exact ⟨u, trivial, hu⟩
  · rw [h.linkB] at hne
    cases mb with
    | nil => exact absurd rfl hne
    | cons m mb =>
      obtain ⟨u, hu⟩ : ∃ u, t.next pf cfgA cfgB decodeTx (.deliverB now) = some u := by
        simp only [Gossip.next]
        rw [h.linkB, List.map_cons, Peer.deliver_wire _ (h.fitsB List.mem_cons_self)]; exact ⟨_, rfl⟩
      exact ⟨u, trivial, hu⟩

/-- **Gossip convergence.** The blocks B has stored are always the first ones of A's. With no frame on its way, B
has the last block A has announced on the connection, and, when none waits to be announced, the last one A has
advertised. -/
theorem gossip_converges (hs : Gossip.Starts start s) (hrun : (gossip pf cfgA cfgB decodeTx start).Run s ls t) :
    Follows start t.b.node t.a.node ∧ (t.toA = [] → t.toB = [] → t.b.node.head = t.announced ∧
      ((∀ n, .block n ∉ t.a.queue) → t.b.node.head = t.advertised)) := by
  obtain ⟨ma, mb, h⟩ := Gossip.inv_of_run hs hrun
  refine ⟨⟨le_iff_toInt_le.mpr h.head_le, fun k hlo hhi => ?_, fun k hlo => ?_⟩, fun hA hB => ?_⟩
  · rw [lt_iff_toInt_lt] at hlo; rw [le_iff_toInt_le] at hhi
    obtain ⟨b, hget, -, -⟩ := h.stored k hlo (hhi.trans h.head_le)
    exact ⟨b, (h.same k hlo hhi).trans hget, hget⟩
  · exact h.fresh k (lt_iff_toInt_lt.mp hlo)
  · have hchain := h.chain; rw [h.linkA, wire_eq_nil, List.map_eq_nil_iff] at hA
    rw [h.linkB, wire_eq_nil, List.map_eq_nil_iff] at hB; rw [hA, hB] at hchain
    have hhead : t.b.node.head = t.announced := toInt_inj.mp hchain
    refine ⟨hhead, fun hwaiting => hhead.trans (toInt_inj.mp ?_)⟩; have hqueue := h.queue
    have hnone : blockEvents t.a.queue = [] := by
      rw [blockEvents, List.filterMap_eq_nil_iff]; intro adv hadv
      cases adv with
      | block n => exact absurd hadv (hwaiting n)
      | tx | pbftCommit => rfl
    rwa [hnone] at hqueue

end

/-! ## A run on fixed inputs -/

/-- A platform that decodes the block above the genesis block. -/
def childPlatform : Platform :=
  { blockPlatform [] with
    codec := { (blockPlatform []).codec with
      decodeBlock := fun bytes =>
        if bytes = (blockPlatform []).codec.block childBlock then some childBlock else none } }

/-- Two nodes at the genesis block. -/
def twoAtGenesis : Gossip where
  a := ⟨{ world := genesisState }, []⟩
  b := ⟨{ world := genesisState }, []⟩
  advertised := 0
  announced := 0

lemma starts_twoAtGenesis : Gossip.Starts 0 twoAtGenesis where
  headA := by decide +kernel
  headB := by decide +kernel
  fresh k hk := by
    show ((∅ : Column Int64 Block).put 0 _).get k = none; rw [get_put_of_ne, get_empty]; intro h0
    rw [h0] at hk; exact absurd hk (by decide)
  queueA := rfl
  queueB := rfl
  toA := rfl
  toB := rfl
  advertised := rfl
  announced := rfl

/-- A sufficient condition for a step that can be decided. -/
def Gossip.permits (s : Gossip) : GossipStep → Bool
  | .advertise => s.advertised < s.a.node.head
  | .announceA | .announceB | .deliverA _ | .deliverB _ => true
  | .grow .. | .otherA _ | .otherB _ => false

lemma Gossip.allowed_of_permits {pf : Platform} {cfg : NodeConfig} {s : Gossip}
    (h : s.permits l = true) : s.Allowed pf cfg l := by
  cases l with
  | advertise => exact of_decide_eq_true (p := s.advertised < s.a.node.head) h
  | announceA | announceB | deliverA | deliverB => trivial
  | grow | otherA | otherB => cases h

/-- A has produced a block. -/
def oneAhead : Gossip :=
  { twoAtGenesis with
    a := { twoAtGenesis.a with node := (applyProduced childPlatform twoAtGenesis.a.node childBlock).2 } }

/-- What is executed from there on is part of a run. -/
lemma exists_run_child {α : Type} {l : List GossipStep} {f : Gossip → α} {r : α}
    (hexec : (Lts.exec (Lts.guardStep (fun s l => s.permits l = true)
      (Gossip.next childPlatform ⟨true, none⟩ ⟨true, none⟩ fun _ => none)) oneAhead l).map f = some r) :
    ∃ ls t, (gossip childPlatform ⟨true, none⟩ ⟨true, none⟩ (fun _ => none) 0).Run twoAtGenesis ls t ∧ f t = r := by
  have hgrow : (gossip childPlatform ⟨true, none⟩ ⟨true, none⟩ (fun _ => none) 0).step twoAtGenesis
      (.grow oneAhead.a.node childBlock) oneAhead :=
    ⟨⟨stores_applyProduced (by decide +kernel), by decide +kernel, by decide +kernel, by decide +kernel⟩, rfl⟩
  have hstep : ∀ s l t, Lts.guardStep (fun (s : Gossip) l => s.permits l = true)
      (Gossip.next childPlatform ⟨true, none⟩ ⟨true, none⟩ fun _ => none) s l = some t →
      (gossip childPlatform ⟨true, none⟩ ⟨true, none⟩ (fun _ => none) 0).step s l t := by
    intro s l t h; unfold Lts.guardStep at h
    split at h
    · rename_i hok; exact ⟨Gossip.allowed_of_permits hok, h⟩
    · cases h
  obtain ⟨t, hrun, ht⟩ := Lts.Run.exists_of_exec hstep hexec
  exact ⟨_, t, .cons hgrow hrun, ht⟩

/-- A produces a block, announces it and is asked for it. -/
theorem gossip_converges_child : ∃ ls t,
    (gossip childPlatform ⟨true, none⟩ ⟨true, none⟩ (fun _ => none) 0).Run twoAtGenesis ls t ∧
    t.b.node.head = 1 ∧ t.b.node.head = t.announced := by
  obtain ⟨ls, t, hrun, ht⟩ := exists_run_child (l := [.advertise, .announceA, .deliverB 0, .deliverA 0, .deliverB 0])
    (f := fun t => (t.b.node.head, t.toA, t.toB)) (r := (1, [], [])) (by decide +kernel)
  obtain ⟨hhead, hlinks⟩ := Prod.mk.inj ht
  obtain ⟨hA, hB⟩ := Prod.mk.inj hlinks
  exact ⟨ls, t, hrun, hhead, ((gossip_converges starts_twoAtGenesis hrun).2 hA hB).1⟩

/-- The announcement of the block can be read. -/
theorem gossip_delivers_child : ∃ ls t u,
    (gossip childPlatform ⟨true, none⟩ ⟨true, none⟩ (fun _ => none) 0).Run twoAtGenesis ls t ∧ t.toB ≠ [] ∧
    (gossip childPlatform ⟨true, none⟩ ⟨true, none⟩ (fun _ => none) 0).step t (.deliverB 0) u := by
  obtain ⟨ls, t, hrun, ht⟩ := exists_run_child (l := [.advertise, .announceA])
    (f := fun t => decide (t.toB ≠ [])) (r := true) (by decide +kernel)
  obtain ⟨u, hu⟩ := (gossip_delivers starts_twoAtGenesis hrun 0).2 (of_decide_eq_true ht)
  exact ⟨ls, t, u, hrun, of_decide_eq_true ht, hu⟩

end TronRs

import TronRs.L4P2p.Message

/-!
# The channel service

`crates/p2p/src/service.rs` once the handshake is done. A peer task writes a frame for every
event on the broadcast channel and hands every frame it reads to `handle_frame`, which asks the
node behind the `ChannelHandler` and replies on the same connection. What the node announces in
turn goes to the broadcast channel again, and so to the peer the block came from as well.

The broadcast channel of a connection is a queue: nothing is dropped. The keepalive ping is a
frame like the others.
-/
namespace TronRs

open TronRs.Core

/-- A gossip event for every connection. Mirrors p2p/service.rs:55. -/
inductive Advertise where
  | block (n : Int64)
  | tx (bytes : Bytes)
  | pbftCommit (bytes : Bytes)
  deriving DecidableEq

/-- The frame a peer task writes for an event. -/
def Advertise.frame : Advertise → Frame
  | .block n => ⟨.blockInventory, encodeNumbers [n]⟩
  | .tx bytes => ⟨.trx, bytes⟩
  | .pbftCommit bytes => ⟨.pbftCommit, bytes⟩

/-- What the node supplies, on its state `σ`. Mirrors p2p/service.rs:35. -/
structure ChannelHandler (σ : Type) where
  head : σ → Int64
  onBlock : σ → Bytes → Option Int64 × σ
  onTransaction : σ → Bytes → σ
  blockBytes : σ → Int64 → Option Bytes
  onPbftCommit : σ → Bytes → Bool × σ

section
variable {σ : Type} (h : ChannelHandler σ) (advertise : σ → Advertise → σ) (s : σ)

/-- The new state and the frames written in reply. Mirrors p2p/service.rs:244. -/
def handleFrame (s : σ) (f : Frame) : σ × List Frame :=
  match f.kind with
  | .p2pPing => (s, [⟨.p2pPong, []⟩])
  | .p2pPong => (s, [])
  | .blockInventory =>
    let head := h.head s
    (s, ((decodeNumbers f.payload).filter (head < ·)).map fun n => ⟨.fetchInvData, encodeNumbers [n]⟩)
  | .fetchInvData =>
    match (decodeNumbers f.payload).head? with
    | some n => (s, [⟨.block, (h.blockBytes s n).getD []⟩])
    | none => (s, [])
  | .block =>
    if f.payload = [] then (s, [])
    else
      match h.onBlock s f.payload with
      | (some newHead, s) => (advertise s (.block newHead), [])
      | (none, s) => (s, [])
  | .trx => (h.onTransaction s f.payload, [])
  | .pbftCommit =>
    if f.payload = [] then (s, [])
    else
      match h.onPbftCommit s f.payload with
      | (true, s) => (advertise s (.pbftCommit f.payload), [])
      | (false, s) => (s, [])
  | _ => (s, [])

variable (n : Int64)

/-- A number above the head is asked for. -/
lemma handleFrame_inventory : handleFrame h advertise s ⟨.blockInventory, encodeNumbers [n]⟩ =
      (s, if h.head s < n then [⟨.fetchInvData, encodeNumbers [n]⟩] else []) := by
  simp only [handleFrame, decodeNumbers_encodeNumbers, List.filter_cons, List.filter_nil, decide_eq_true_eq]
  split <;> rfl

lemma handleFrame_fetch :
    handleFrame h advertise s ⟨.fetchInvData, encodeNumbers [n]⟩ = (s, [⟨.block, (h.blockBytes s n).getD []⟩]) := by
  simp only [handleFrame, decodeNumbers_encodeNumbers, List.head?_cons]

lemma handleFrame_block {s t : σ} {bytes : Bytes} {newHead : Int64} (hne : bytes ≠ [])
    (hb : h.onBlock s bytes = (some newHead, t)) :
    handleFrame h advertise s ⟨.block, bytes⟩ = (advertise t (.block newHead), []) := by
  simp only [handleFrame, if_neg hne, hb]

end

/-! ## A connection -/

/-- The frames on a connection, oldest first. -/
def wire (frames : List Frame) : Bytes := frames.flatMap writeFrame

@[simp] lemma wire_nil : wire [] = [] := rfl

@[simp] lemma wire_append (fs gs : List Frame) : wire (fs ++ gs) = wire fs ++ wire gs := List.flatMap_append

lemma writeFrame_ne_nil (f : Frame) : writeFrame f ≠ [] := by
  rw [writeFrame, Frame.encode]; simp

lemma wire_eq_nil {frames : List Frame} : wire frames = [] ↔ frames = [] := by
  cases frames with
  | nil => simp
  | cons => simp [wire, writeFrame_ne_nil]

/-- Frames arrive one by one, in the order they were written. -/
lemma poll_wire {f : Frame} (h : f.payload.length ≤ maxMessageSize) (fs : List Frame) :
    readFrame.poll ⟨wire (f :: fs), false⟩ = some (.ok f, ⟨wire fs, false⟩) := by
  rw [wire, List.flatMap_cons]; exact readFrame_writeFrame h _ _

end TronRs

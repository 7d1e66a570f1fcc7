import TronRs.Core.Duplex
import TronRs.L4P2p.Message

/-!
# Block sync over a channel

`crates/p2p/src/channel.rs`: `sync_from` announces its head, reads the numbers the peer offers and
fetches these blocks one by one; `serve_sync` offers what it has above that head and serves requests
until the peer closes the stream. The numbers travel in one frame, of eight bytes each, and nobody
looks at how many there are.

* `sync_composition_iff`: the two of them, over a byte stream, transfer exactly the blocks above the
  head, in order, if and only if the offered numbers fit into one message.
* `long_inventory_refused`: with 655361 numbers the client stops at the inventory.
-/
namespace TronRs

open TronRs.Core

/-- A process on a channel, with loop states `σ`. -/
abbrev Channel (σ α : Type) := Proc (Except ChannelError Frame) σ (Except ChannelError α)

section
variable (head : Int64) (held : List Int64) (blockBytes : Int64 → Option Bytes)

/-- The loop of `sync_from` over the offered numbers. -/
def fetchBlocks : List Int64 → List (Int64 × Bytes) → Channel Empty (List (Int64 × Bytes))
  | [], out => .ret (.ok out)
  | n :: numbers, out =>
    .write (writeFrame ⟨.fetchInvData, encodeNumbers [n]⟩) <| .read fun
      | .error e => .ret (.error e)
      | .ok block => fetchBlocks numbers (out ++ [(n, block.payload)])

/-- `sync_from` once it has read the inventory. -/
def fetchInventory : Except ChannelError Frame → Channel Empty (List (Int64 × Bytes))
  | .error e => .ret (.error e)
  | .ok inv =>
    if inv.kind ≠ .blockInventory then .ret (.error (.frame (.unknownType inv.kind.code)))
    else fetchBlocks (decodeNumbers inv.payload) []

/-- Mirrors p2p/channel.rs:119. -/
def syncFrom : Channel Empty (List (Int64 × Bytes)) :=
  .write (writeFrame ⟨.syncBlockChain, encodeNumbers [head]⟩) (.read fetchInventory)

/-- The loop of `serve_sync`, after `served` requests. -/
def serveLoop (served : Nat) : Channel Nat Nat :=
  .read fun
    | .ok f =>
      if f.kind = .fetchInvData then
        let n := (decodeNumbers f.payload).head?.getD (-1)
        .write (writeFrame ⟨.block, (blockBytes n).getD []⟩) (.jump (served + 1))
      else .ret (.ok served)
    | .error .unexpectedEof => .ret (.ok served)
    | .error e => .ret (.error e)

/-- `serve_sync` once it has read the first request. -/
def offerInventory : Except ChannelError Frame → Channel Nat Nat
  | .error e => .ret (.error e)
  | .ok req =>
    if req.kind ≠ .syncBlockChain then .ret (.error (.frame (.unknownType req.kind.code)))
    else
      let peerHead := (decodeNumbers req.payload).head?.getD (-1)
      let offer := held.filter (peerHead < ·)
      .write (writeFrame ⟨.blockInventory, encodeNumbers offer⟩) (.jump 0)

/-- Mirrors p2p/channel.rs:84. -/
def serveSync : Channel Nat Nat := .read (offerInventory held)

/-- A client on the left and a server on the right, over a byte stream in each direction. -/
def syncSession := session readFrame (Empty.elim : Empty → Channel Empty (List (Int64 × Bytes))) (serveLoop blockBytes)

def syncStart : Session (Except ChannelError Frame) Empty (Except ChannelError (List (Int64 × Bytes))) Nat
    (Except ChannelError Nat) := ⟨⟨syncFrom head, [], []⟩, ⟨serveSync held, [], []⟩⟩

/-- What the client should get: the blocks above its head, in order. -/
def syncedPairs : List (Int64 × Bytes) := (held.filter (head < ·)).map fun n => (n, (blockBytes n).getD [])

/-- However the steps of the two and the arrival of bytes interleave, the session comes to an end, with the blocks on
the one side and their number on the other. -/
def SyncCompletes : Prop := ∃ f, (syncSession blockBytes).Settles (syncStart head held) f ∧
  f.left.proc = .ret (.ok (syncedPairs head held blockBytes)) ∧
  f.right.proc = .ret (.ok (syncedPairs head held blockBytes).length)

end

/-! ## One exchange after the other -/

section
variable {head : Int64} {held : List Int64} (blockBytes : Int64 → Option Bytes) (numbers : List Int64)

/-- The client sends a frame and the server reads it. -/
lemma run_request (f : Frame) (hf : f.payload.length ≤ maxMessageSize)
    (p : Channel Empty (List (Int64 × Bytes))) {q : Channel Nat Nat}
    {next : Except ChannelError Frame → Channel Nat Nat} (hq : q.enter (serveLoop blockBytes) = .read next) :
    ∃ ls, (syncSession blockBytes).Run ⟨⟨.write (writeFrame f) p, [], []⟩, ⟨q, [], []⟩⟩ ls
      ⟨⟨p, [], []⟩, ⟨next (.ok f), [], []⟩⟩ :=
  Session.run_transfer rfl hq (poll_writeFrame hf)

/-- The server sends a frame and the client reads it, with the given result. -/
lemma run_reply {b rest : Bytes} {res : Except ChannelError Frame}
    (hread : ∀ ended, readFrame.poll ⟨b, ended⟩ = some (res, ⟨rest, ended⟩)) (p : Channel Nat Nat)
    (next : Except ChannelError Frame → Channel Empty (List (Int64 × Bytes))) :
    ∃ ls, (syncSession blockBytes).Run ⟨⟨.read next, [], []⟩, ⟨.write b p, [], []⟩⟩ ls
      ⟨⟨next res, rest, []⟩, ⟨p, [], []⟩⟩ := by
  obtain ⟨ls, hrun⟩ := Session.run_transfer (p := Proc.write b p) (q := Proc.read next) rfl rfl hread
  exact ⟨_, Session.run_swap hrun⟩

/-- A request is answered with the block. -/
lemma serveLoop_fetch (n : Int64) (served : Nat) : ∃ next,
    (Proc.jump served).enter (serveLoop blockBytes) = .read next ∧ next (.ok ⟨.fetchInvData, encodeNumbers [n]⟩) =
      .write (writeFrame ⟨.block, (blockBytes n).getD []⟩) (.jump (served + 1)) := by
  refine ⟨_, rfl, ?_⟩; simp [decodeNumbers_encodeNumbers]

/-- A server that waits for a request stops when the client has returned. -/
lemma run_close (res : Except ChannelError (List (Int64 × Bytes))) (arrived : Bytes) (served : Nat) :
    (syncSession blockBytes).Run ⟨⟨.ret res, arrived, []⟩, ⟨.jump served, [], []⟩⟩ [.right]
      ⟨⟨.ret res, arrived, []⟩, ⟨.ret (.ok served), [], []⟩⟩ :=
  .cons rfl (.nil _)

/-- The two loops, from the numbers that are left to fetch. -/
lemma run_fetch (hbytes : ∀ n ∈ numbers, ((blockBytes n).getD []).length ≤ maxMessageSize) :
    ∀ out served, ∃ ls, (syncSession blockBytes).Run ⟨⟨fetchBlocks numbers out, [], []⟩, ⟨.jump served, [], []⟩⟩ ls
      ⟨⟨.ret (.ok (out ++ numbers.map fun n => (n, (blockBytes n).getD []))), [], []⟩,
        ⟨.ret (.ok (served + numbers.length)), [], []⟩⟩ := by
  induction numbers with
  | nil => intro out served; rw [List.map_nil, List.append_nil]; exact ⟨_, run_close ..⟩
  | cons n numbers ih =>
    intro out served; rw [List.forall_mem_cons] at hbytes
    obtain ⟨next, hloop, hnext⟩ := serveLoop_fetch blockBytes n served
    obtain ⟨ls1, hrun1⟩ := run_request blockBytes ⟨.fetchInvData, encodeNumbers [n]⟩ (length_one_number n) _ hloop
    obtain ⟨ls2, hrun2⟩ := run_reply blockBytes (poll_writeFrame (f := ⟨.block, _⟩) hbytes.1) (.jump (served + 1)) _
    obtain ⟨ls3, hrun3⟩ := ih hbytes.2 (out ++ [(n, (blockBytes n).getD [])]) (served + 1)
    rw [hnext] at hrun1; rw [List.append_assoc, Nat.add_right_comm] at hrun3
    exact ⟨_, hrun1.append (hrun2.append hrun3)⟩

lemma offerInventory_sync : offerInventory held (.ok ⟨.syncBlockChain, encodeNumbers [head]⟩) =
    .write (writeFrame ⟨.blockInventory, encodeNumbers (held.filter (head < ·))⟩) (.jump 0) := by
  simp [offerInventory, decodeNumbers_encodeNumbers]

lemma fetchInventory_numbers :
    fetchInventory (.ok ⟨.blockInventory, encodeNumbers numbers⟩) = fetchBlocks numbers [] := by
  simp [fetchInventory, decodeNumbers_encodeNumbers]

/-- Up to the inventory, read with the given result. -/
lemma run_inventory {rest : Bytes} {res : Except ChannelError Frame}
    (hread : ∀ ended, readFrame.poll ⟨writeFrame ⟨.blockInventory, encodeNumbers (held.filter (head < ·))⟩, ended⟩ =
      some (res, ⟨rest, ended⟩)) : ∃ ls, (syncSession blockBytes).Run (syncStart head held) ls
      ⟨⟨fetchInventory res, rest, []⟩, ⟨.jump 0, [], []⟩⟩ := by
  obtain ⟨ls1, hrun1⟩ := run_request blockBytes ⟨.syncBlockChain, encodeNumbers [head]⟩ (length_one_number head)
    (.read fetchInventory)
    (rfl : (serveSync held).enter _ = _)
  obtain ⟨ls2, hrun2⟩ := run_reply blockBytes hread (.jump 0) fetchInventory
  rw [offerInventory_sync] at hrun1; exact ⟨_, hrun1.append hrun2⟩

/-- The whole exchange, when the inventory is within the limit. -/
lemma run_sync (hbytes : ∀ n ∈ held, ((blockBytes n).getD []).length ≤ maxMessageSize)
    (hfits : 8 * (held.filter (head < ·)).length ≤ maxMessageSize) :
    ∃ ls, (syncSession blockBytes).Run (syncStart head held) ls
      ⟨⟨.ret (.ok (syncedPairs head held blockBytes)), [], []⟩,
        ⟨.ret (.ok (syncedPairs head held blockBytes).length), [], []⟩⟩ := by
  have hoffer : (encodeNumbers (held.filter (head < ·))).length ≤ maxMessageSize := by rwa [length_encodeNumbers]
  obtain ⟨ls1, hrun1⟩ := run_inventory blockBytes (poll_writeFrame hoffer)
  obtain ⟨ls2, hrun2⟩ := run_fetch blockBytes (held.filter (head < ·))
    (fun n hn => hbytes n (List.mem_filter.mp hn).1) [] 0
  rw [fetchInventory_numbers] at hrun1; rw [List.nil_append, Nat.zero_add] at hrun2
  rw [syncedPairs, List.length_map]; exact ⟨_, hrun1.append hrun2⟩

/-! ## Only one inventory is read -/

lemma yields_fetchBlocks : ∀ out : List (Int64 × Bytes), 8 * (out.length + numbers.length) ≤ maxMessageSize →
    (fetchBlocks numbers out).Yields (fun res => ∀ f, res = .ok f → f.payload.length ≤ maxMessageSize)
      (fun res => ∀ out, res = .ok out → 8 * out.length ≤ maxMessageSize) := by
  induction numbers with
  | nil => intro out hlen out' heq; cases heq; exact hlen
  | cons n numbers ih =>
    intro out hlen res _
    cases res with
    | error => intro out' heq; cases heq
    | ok =>
      refine ih _ ?_; rw [List.length_append, List.length_singleton]; rw [List.length_cons] at hlen
      omega

/-- The client never returns more blocks than one message has numbers for. -/
lemma length_synced {f : Session (Except ChannelError Frame) Empty (Except ChannelError (List (Int64 × Bytes))) Nat
      (Except ChannelError Nat)} {ls : List Turn} {out : List (Int64 × Bytes)}
    (hrun : (syncSession blockBytes).Run (syncStart head held) ls f) (hout : f.left.proc = .ret (.ok out)) :
    8 * out.length ≤ maxMessageSize := by
  have hstart : (syncFrom head).Yields (fun res => ∀ f, res = .ok f → f.payload.length ≤ maxMessageSize)
      (fun res => ∀ out, res = .ok out → 8 * out.length ≤ maxMessageSize) := by
    intro res hres
    cases res with
    | error => intro out' heq; cases heq
    | ok inv =>
      unfold fetchInventory; dsimp only
      split
      · intro out' heq; cases heq
      · refine yields_fetchBlocks _ _ ?_; have hlen := hres inv rfl
        rw [List.length_nil, length_decodeNumbers]; omega
  have hend := Session.yields_of_run (fun s res t hpoll f heq => length_of_readFrame (heq ▸ hpoll)) hrun hstart
  rw [hout] at hend; exact hend out rfl

/-- A larger inventory ends the session with an error on the client's side, as long as its size fits into the length. -/
lemma settles_tooLarge (hlarge : maxMessageSize < 8 * (held.filter (head < ·)).length)
    (hsize : 8 * (held.filter (head < ·)).length + 1 < 2 ^ 32) :
    ∃ f, (syncSession blockBytes).Settles (syncStart head held) f ∧
      f.left.proc = .ret (.error (.tooLarge (8 * (held.filter (head < ·)).length + 1))) ∧
      f.right.proc = .ret (.ok 0) := by
  generalize hoffer : held.filter (head < ·) = offer at *
  have hlen : (Frame.encode ⟨.blockInventory, encodeNumbers offer⟩).length = 8 * offer.length + 1 := by
    rw [Frame.encode, List.length_cons, length_encodeNumbers]
  have hread : ∀ ended, readFrame.poll ⟨writeFrame ⟨.blockInventory, encodeNumbers (held.filter (head < ·))⟩, ended⟩ =
      some (.error (.tooLarge (8 * offer.length + 1)),
        ⟨Frame.encode ⟨.blockInventory, encodeNumbers offer⟩, ended⟩) := by
    intro ended; rw [hoffer]
    have hrefuse := readFrame_tooLarge
      (show maxMessageSize < (encodeNumbers offer).length by rwa [length_encodeNumbers]) (by rwa [hlen]) [] ended
    rwa [List.append_nil, List.append_nil, hlen] at hrefuse
  obtain ⟨ls, hrun⟩ := run_inventory blockBytes hread
  exact ⟨_, session_diamond.settles Session.stuck_of_returned (hrun.append (run_close ..)), rfl, rfl⟩

lemma SyncCompletes.length_le (h : SyncCompletes head held blockBytes) :
    8 * (held.filter (head < ·)).length ≤ maxMessageSize := by
  obtain ⟨f, hsettles, hleft, _⟩ := h
  obtain ⟨_, n, hall⟩ := hsettles
  obtain ⟨ls, hrun, _⟩ := hall [] _ (.nil _)
  have hlen := length_synced blockBytes hrun hleft
  rwa [syncedPairs, List.length_map] at hlen

/-- **Sync protocol composition.** A client and a server over a byte stream transfer exactly the blocks above the
client's head, in order, if and only if the numbers of these blocks fit into one message. -/
theorem sync_composition_iff (hbytes : ∀ n ∈ held, ∃ b, blockBytes n = some b ∧ b.length ≤ maxMessageSize) :
    SyncCompletes head held blockBytes ↔ 8 * (held.filter (head < ·)).length ≤ maxMessageSize := by
  refine ⟨fun h => h.length_le, fun hfits => ?_⟩
  have hgiven : ∀ n ∈ held, ((blockBytes n).getD []).length ≤ maxMessageSize := fun n hn => by
    obtain ⟨b, hb, hlen⟩ := hbytes n hn; rw [hb]; exact hlen
  obtain ⟨ls, hrun⟩ := run_sync blockBytes hgiven hfits
  exact ⟨_, session_diamond.settles Session.stuck_of_returned hrun, rfl, rfl⟩

end

/-- Blocks 2 and 3, for a client at block 1. -/
theorem sync_composition_three : SyncCompletes 1 [1, 2, 3] (fun n => some (numberBytes n)) ∧
    syncedPairs 1 [1, 2, 3] (fun n => some (numberBytes n)) = [(2, numberBytes 2), (3, numberBytes 3)] := by
  refine ⟨(sync_composition_iff _ fun n _ => ⟨numberBytes n, rfl, ?_⟩).mpr (by decide), rfl⟩
  rw [length_numberBytes]; decide

/-- The numbers from 1 to 655361. -/
def manyNumbers : List Int64 := (List.range 655361).map fun i => Int64.ofNat (i + 1)

lemma toInt_number {i : Nat} (h : i < 655361) : (Int64.ofNat (i + 1)).toInt = i + 1 := by
  rw [toInt_ofNat_of_lt (by omega)]; rfl

lemma manyNumbers_ascending : manyNumbers.Pairwise (· < ·) := by
  rw [manyNumbers, List.pairwise_map]
  refine List.pairwise_lt_range.imp_of_mem fun hi hj hij => ?_
  rw [lt_iff_toInt_lt, toInt_number (List.mem_range.mp hi), toInt_number (List.mem_range.mp hj)]; omega

lemma manyNumbers_above : manyNumbers.filter (0 < ·) = manyNumbers := by
  refine List.filter_eq_self.mpr fun n hn => decide_eq_true ?_
  obtain ⟨i, hi, rfl⟩ := List.mem_map.mp hn
  rw [lt_iff_toInt_lt, toInt_number (List.mem_range.mp hi), toInt_zero]; omega

lemma length_manyNumbers : manyNumbers.length = 655361 := by
  rw [manyNumbers, List.length_map, List.length_range]

/-- The client refuses the inventory, however the session goes, and gets no block. -/
theorem long_inventory_refused : manyNumbers.Pairwise (· < ·) ∧
    (∃ f, (syncSession fun _ => some []).Settles (syncStart 0 manyNumbers) f ∧
      f.left.proc = .ret (.error (.tooLarge 5242889)) ∧ f.right.proc = .ret (.ok 0)) ∧
    ¬ SyncCompletes 0 manyNumbers (fun _ => some []) := by
  have hmax : maxMessageSize = 5242880 := rfl
  have hoffer : (manyNumbers.filter (0 < ·)).length = 655361 := by rw [manyNumbers_above, length_manyNumbers]
  have hsettles := settles_tooLarge (fun _ => some [])
    (by omega : maxMessageSize < 8 * (manyNumbers.filter (0 < ·)).length)
    (by omega)
  rw [hoffer] at hsettles; refine ⟨manyNumbers_ascending, hsettles, fun h => ?_⟩
  have hle := h.length_le; omega

end TronRs

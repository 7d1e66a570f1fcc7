import TronRs.Core.Effect
import TronRs.L4P2p.RoutingTable

/-!
# The datagrams of node discovery

`crates/p2p/src/discovery_codec.rs`: a type byte, the sender, and what the type asks for. A node takes
a fixed number of bytes; a list of nodes is counted, and cut at `MAX_NEIGHBORS` when it is written.

* `takeNode_putNode`: a node that was written is read back, whatever follows.
* `decode_encode`: so is a message with at most `MAX_NEIGHBORS` nodes.
* `decode_bijective`: no other bytes are accepted, and no slice operation of the parser is out of range.
-/
namespace TronRs.Discovery

open TronRs.Core

/-- Mirrors p2p/discovery_codec.rs:28. -/
def nodeWireLen : Nat := nodeIdLen + 4 + 2 + 2

def maxNeighbors : Nat := 16

/-- Mirrors p2p/discovery_codec.rs:36. -/
inductive DiscoveryMessage where
  | ping (sender : Node)
  | pong (sender : Node)
  | findNode (sender : Node) (target : NodeId)
  | neighbors (sender : Node) (nodes : List Node)
  deriving DecidableEq

/-- Mirrors p2p/discovery_codec.rs:45. -/
inductive CodecError where
  | empty
  | unknownType (b : UInt8)
  | truncated
  | tooManyNodes (count : Nat)
  | trailingBytes
  deriving DecidableEq

/-- Mirrors p2p/discovery_codec.rs:56. -/
def putNode (node : Node) : Bytes :=
  node.id.bytes ++ Bytes.be 4 node.endpoint.ip.toNat ++ Bytes.be 2 node.endpoint.udpPort.toNat ++
    Bytes.be 2 node.endpoint.tcpPort.toNat

/-- The first bytes as a node id. -/
def takeId (bytes : Bytes) : Except CodecError (NodeId × Bytes) :=
  if h : bytes.length < nodeIdLen then .error .truncated
  else .ok (⟨bytes.take nodeIdLen, by rw [List.length_take]; omega⟩, bytes.drop nodeIdLen)

/-- Mirrors p2p/discovery_codec.rs:64. -/
def takeNode (bytes : Bytes) : Except CodecError (Node × Bytes) := do
  ensure (nodeWireLen ≤ bytes.length) CodecError.truncated
  let (id, rest) ← takeId bytes
  let (ip, rest) := Bytes.takeBe 4 rest
  let (udpPort, rest) := Bytes.takeBe 2 rest
  let (tcpPort, rest) := Bytes.takeBe 2 rest
  pure (⟨id, UInt32.ofNat ip, UInt16.ofNat udpPort, UInt16.ofNat tcpPort⟩, rest)

/-- The loop over a counted list of nodes. -/
def takeNodes : Nat → Bytes → Except CodecError (List Node × Bytes)
  | 0, rest => .ok ([], rest)
  | count + 1, rest => do
    let (node, rest) ← takeNode rest
    let (nodes, rest) ← takeNodes count rest
    pure (node :: nodes, rest)

namespace DiscoveryMessage

/-- Mirrors p2p/discovery_codec.rs:84. -/
def encode : DiscoveryMessage → Bytes
  | ping sender => 0x01 :: putNode sender
  | pong sender => 0x02 :: putNode sender
  | findNode sender target => 0x03 :: (putNode sender ++ target.bytes)
  | neighbors sender nodes =>
    let count := min nodes.length maxNeighbors
    0x04 :: (putNode sender ++ Bytes.be 2 count ++ (nodes.take count).flatMap putNode)

/-- Mirrors p2p/discovery_codec.rs:113. -/
def decode : Bytes → Except CodecError DiscoveryMessage
  | [] => .error .empty
  | kind :: rest =>
    match kind.toNat with
    | 0x01 => do
      let (sender, rest) ← takeNode rest
      ensure (rest = []) CodecError.trailingBytes
      pure (ping sender)
    | 0x02 => do
      let (sender, rest) ← takeNode rest
      ensure (rest = []) CodecError.trailingBytes
      pure (pong sender)
    | 0x03 => do
      let (sender, rest) ← takeNode rest
      let (target, rest) ← takeId rest
      ensure (rest = []) CodecError.trailingBytes
      pure (findNode sender target)
    | 0x04 => do
      let (sender, rest) ← takeNode rest
      ensure (2 ≤ rest.length) CodecError.truncated
      let (count, rest) := Bytes.takeBe 2 rest
      ensure (count ≤ maxNeighbors) (CodecError.tooManyNodes count)
      let (nodes, rest) ← takeNodes count rest
      ensure (rest = []) CodecError.trailingBytes
      pure (neighbors sender nodes)
    | _ => .error (.unknownType kind)

end DiscoveryMessage

/-! ## What is written is read back -/

lemma takeId_append (id : NodeId) (rest : Bytes) : takeId (id.bytes ++ rest) = .ok (id, rest) := by
  have hlen : ¬ (id.bytes ++ rest).length < nodeIdLen := by rw [List.length_append, id.size]; omega
  rw [takeId, dif_neg hlen]; simp [← id.size]

@[simp] lemma length_putNode (node : Node) : (putNode node).length = nodeWireLen := by
  simp [putNode, node.id.size, nodeWireLen]

lemma takeNode_putNode (node : Node) (rest : Bytes) : takeNode (putNode node ++ rest) = .ok (node, rest) := by
  have hlen : nodeWireLen ≤ (putNode node ++ rest).length := by rw [List.length_append, length_putNode]; omega
  have hsplit : putNode node ++ rest = node.id.bytes ++ (Bytes.be 4 node.endpoint.ip.toNat ++
      (Bytes.be 2 node.endpoint.udpPort.toNat ++ (Bytes.be 2 node.endpoint.tcpPort.toNat ++ rest))) := by
    simp [putNode]
  rw [takeNode, ensure_pos hlen, ok_bind, hsplit, takeId_append, ok_bind]; dsimp only
  rw [Bytes.takeBe_be node.endpoint.ip.toNat_lt]; rw [Bytes.takeBe_be node.endpoint.udpPort.toNat_lt]
  rw [Bytes.takeBe_be node.endpoint.tcpPort.toNat_lt]
  simp only [UInt32.ofNat_toNat, UInt16.ofNat_toNat]; rfl

lemma takeNodes_flatMap (nodes : List Node) (rest : Bytes) :
    takeNodes nodes.length (nodes.flatMap putNode ++ rest) = .ok (nodes, rest) := by
  induction nodes with
  | nil => rfl
  | cons node nodes ih =>
    rw [List.flatMap_cons, List.append_assoc, List.length_cons, takeNodes, takeNode_putNode, ok_bind]
    dsimp only; rw [ih]; rfl

/-- The messages that are written in full. -/
def DiscoveryMessage.Fits : DiscoveryMessage → Prop
  | neighbors _ nodes => nodes.length ≤ maxNeighbors
  | _ => True

variable {msg : DiscoveryMessage} {n : Nat}

lemma DiscoveryMessage.decode_encode (h : msg.Fits) : decode msg.encode = .ok msg := by
  cases msg with
  | ping sender | pong sender =>
    show (takeNode (putNode sender) >>= _) = _
    rw [← List.append_nil (putNode sender), takeNode_putNode]; rfl
  | findNode sender target =>
    show (takeNode (putNode sender ++ target.bytes) >>= _) = _
    rw [takeNode_putNode, ok_bind, ← List.append_nil target.bytes]; dsimp only; rw [takeId_append]
    rfl
  | neighbors sender nodes =>
    have hcount : min nodes.length maxNeighbors = nodes.length := Nat.min_eq_left h
    have hmax : maxNeighbors = 16 := rfl
    have hlen : nodes.length ≤ maxNeighbors := h
    have henc : (neighbors sender nodes).encode =
        0x04 :: (putNode sender ++ (Bytes.be 2 nodes.length ++ (nodes.flatMap putNode ++ []))) := by
      simp [encode, hcount]
    rw [henc]; show (takeNode (putNode sender ++ _) >>= _) = _
    have htwo : 2 ≤ (Bytes.be 2 nodes.length ++ (nodes.flatMap putNode ++ [])).length := by
      rw [List.length_append, Bytes.length_be]; omega
    rw [takeNode_putNode, ok_bind]; dsimp only
    rw [ensure_pos htwo, ok_bind, Bytes.takeBe_be (by omega)]; dsimp only
    rw [ensure_pos hlen, ok_bind, takeNodes_flatMap]; rfl

variable {b rest : Bytes}

/-! ## Nothing else is accepted -/

lemma takeId_eq_ok {id : NodeId} (h : takeId b = .ok (id, rest)) : b = id.bytes ++ rest := by
  unfold takeId at h
  split at h
  · cases h
  · cases h; exact (List.take_append_drop nodeIdLen b).symm

lemma takeNode_eq_ok {node : Node} (h : takeNode b = .ok (node, rest)) : b = putNode node ++ rest := by
  simp only [takeNode, check_rules] at h; obtain ⟨-, hlen, ⟨id, r⟩, hid, h⟩ := h; cases takeId_eq_ok hid
  cases h
  have hr : 8 ≤ r.length := by simp only [List.length_append, id.size, nodeWireLen] at hlen; omega
  have hip : Bytes.ofBe (r.take 4) < 2 ^ 32 := Bytes.ofBe_take_lt 4 r
  have hudp : Bytes.ofBe ((r.drop 4).take 2) < 2 ^ 16 := Bytes.ofBe_take_lt 2 (r.drop 4)
  have htcp : Bytes.ofBe (((r.drop 4).drop 2).take 2) < 2 ^ 16 := Bytes.ofBe_take_lt 2 _
  simp only [putNode, Bytes.takeBe, UInt32.toNat_ofNat', UInt16.toNat_ofNat', List.append_assoc]
  rw [Nat.mod_eq_of_lt hip, Nat.mod_eq_of_lt hudp, Nat.mod_eq_of_lt htcp, Bytes.be_take_append_drop (by simp; omega),
    Bytes.be_take_append_drop (by simp; omega), Bytes.be_take_append_drop (by omega)]

lemma takeNodes_eq_ok {count : Nat} {nodes : List Node}
    (h : takeNodes count b = .ok (nodes, rest)) : nodes.length = count ∧ b = nodes.flatMap putNode ++ rest := by
  induction count generalizing b nodes with
  | zero => cases h; exact ⟨rfl, rfl⟩
  | succ count ih =>
    simp only [takeNodes, check_rules] at h; obtain ⟨⟨node, r⟩, hnode, ⟨tl, r'⟩, htl, h⟩ := h
    cases h; obtain ⟨hlen, hr⟩ := ih htl; refine ⟨congrArg (· + 1) hlen, ?_⟩
    rw [takeNode_eq_ok hnode, List.flatMap_cons, List.append_assoc]
    exact congrArg (putNode node ++ ·) hr

lemma kind_eq {kind : UInt8} (h : kind.toNat = n) : kind = UInt8.ofNat n := by
  rw [← h, UInt8.ofNat_toNat]

lemma DiscoveryMessage.encode_of_decode (h : decode b = .ok msg) : msg.Fits ∧ msg.encode = b := by
  cases b with
  | nil => cases h
  | cons kind b =>
    simp only [decode] at h; split at h
    case h_1 hk | h_2 hk =>
      simp only [check_rules] at h; obtain ⟨⟨sender, rest⟩, hs, -, hrest, h⟩ := h; cases h
      obtain rfl : rest = [] := hrest; rw [takeNode_eq_ok hs, List.append_nil, kind_eq hk]
      exact ⟨trivial, rfl⟩
    case h_3 hk =>
      simp only [check_rules] at h; obtain ⟨⟨sender, rest⟩, hs, ⟨target, rest'⟩, ht, -, hrest, h⟩ := h
      cases h; obtain rfl : rest' = [] := hrest
      rw [takeNode_eq_ok hs, show rest = _ from takeId_eq_ok ht, List.append_nil, kind_eq hk]
      exact ⟨trivial, rfl⟩
    case h_4 hk =>
      simp only [check_rules] at h
      obtain ⟨⟨sender, rest⟩, hs, -, htwo, -, hmax, ⟨nodes, rest'⟩, hn, -, hrest, h⟩ := h
      cases h; obtain rfl : rest' = [] := hrest
      obtain ⟨hlen, hr⟩ := takeNodes_eq_ok hn
      have hfits : nodes.length ≤ maxNeighbors := hlen ▸ hmax
      refine ⟨hfits, ?_⟩
      have hrest : Bytes.be 2 nodes.length ++ nodes.flatMap putNode = rest := by
        rw [← List.append_nil (nodes.flatMap putNode), ← hr, hlen]; exact Bytes.be_take_append_drop htwo
      simp only [encode]
      rw [takeNode_eq_ok hs, kind_eq hk, Nat.min_eq_left hfits, List.take_length, List.append_assoc, hrest]
      rfl
    case h_5 => cases h

/-! ## No operation of the parser panics

The parser splits, indexes and copies slices, which panics out of range. Here it is written with these
partial operations; a panic is the error `none`.
-/

def splitAt (n : Nat) (b : Bytes) : Except (Option CodecError) (Bytes × Bytes) := do
  ensure (n ≤ b.length) none
  pure (b.take n, b.drop n)

def copyId (b : Bytes) : Except (Option CodecError) NodeId :=
  if h : b.length = nodeIdLen then .ok ⟨b, h⟩ else .error none

/-- The number in the `n` bytes from index `i` on, each of them indexed. -/
def beAt (b : Bytes) (i n : Nat) : Except (Option CodecError) Nat := do
  let digits ← (List.range' i n).mapM fun j => orThrow b[j]? none
  pure (Bytes.ofBe digits)

/-- Mirrors p2p/discovery_codec.rs:64. -/
def tryTakeNode (bytes : Bytes) : Except (Option CodecError) (Node × Bytes) := do
  ensure (nodeWireLen ≤ bytes.length) (some .truncated)
  let (nodeBytes, rest) ← splitAt nodeWireLen bytes
  let (idBytes, _) ← splitAt nodeIdLen nodeBytes
  let id ← copyId idBytes
  let ip ← beAt nodeBytes nodeIdLen 4
  let udpPort ← beAt nodeBytes (nodeIdLen + 4) 2
  let tcpPort ← beAt nodeBytes (nodeIdLen + 6) 2
  pure (⟨id, UInt32.ofNat ip, UInt16.ofNat udpPort, UInt16.ofNat tcpPort⟩, rest)

def tryTakeNodes : Nat → Bytes → Except (Option CodecError) (List Node × Bytes)
  | 0, rest => .ok ([], rest)
  | count + 1, rest => do
    let (node, rest) ← tryTakeNode rest
    let (nodes, rest) ← tryTakeNodes count rest
    pure (node :: nodes, rest)

/-- Mirrors p2p/discovery_codec.rs:113. -/
def DiscoveryMessage.tryDecode : Bytes → Except (Option CodecError) DiscoveryMessage
  | [] => .error (some .empty)
  | kind :: rest =>
    if kind = 0x01 ∨ kind = 0x02 then do
      let (sender, rest) ← tryTakeNode rest
      ensure (rest = []) (some .trailingBytes)
      pure (if kind = 0x01 then ping sender else pong sender)
    else if kind = 0x03 then do
      let (sender, rest) ← tryTakeNode rest
      ensure (nodeIdLen ≤ rest.length) (some .truncated)
      let (targetBytes, rest) ← splitAt nodeIdLen rest
      ensure (rest = []) (some .trailingBytes)
      let target ← copyId targetBytes
      pure (findNode sender target)
    else if kind = 0x04 then do
      let (sender, rest) ← tryTakeNode rest
      ensure (2 ≤ rest.length) (some .truncated)
      let (countBytes, rest) ← splitAt 2 rest
      let count ← beAt countBytes 0 2
      ensure (count ≤ maxNeighbors) (some (CodecError.tooManyNodes count))
      let (nodes, rest) ← tryTakeNodes count rest
      ensure (rest = []) (some .trailingBytes)
      pure (neighbors sender nodes)
    else .error (some (.unknownType kind))

lemma splitAt_of_le (h : n ≤ b.length) : splitAt n b = .ok (b.take n, b.drop n) := by
  simp [splitAt, ensure, h, pure, Except.pure, ok_bind]

lemma copyId_of_length (h : b.length = nodeIdLen) : copyId b = .ok ⟨b, h⟩ := dif_pos h

lemma beAt_of_le {i : Nat} (h : i + n ≤ b.length) : beAt b i n = .ok (Bytes.ofBe ((b.drop i).take n)) := by
  suffices hs : ((List.range' i n).mapM fun j => orThrow b[j]? none : Except (Option CodecError) Bytes) =
      .ok ((b.drop i).take n) by rw [beAt, hs]; rfl
  induction n generalizing i with
  | zero => rfl
  | succ n ih =>
    have hi : i < b.length := by omega
    rw [List.range'_succ, List.mapM_cons, List.getElem?_eq_getElem hi, ih (by omega), List.drop_eq_getElem_cons hi]
    rfl

lemma tryTakeNode_eq (b : Bytes) : tryTakeNode b = (takeNode b).mapError some := by
  by_cases hlen : nodeWireLen ≤ b.length
  · have hw : nodeWireLen = 40 := rfl
    have hi : nodeIdLen = 32 := rfl
    have hnode : (b.take nodeWireLen).length = nodeWireLen := List.length_take_of_le hlen
    have hid : ((b.take nodeWireLen).take nodeIdLen).length = nodeIdLen := List.length_take_of_le (by omega)
    rw [tryTakeNode, takeNode, ensure_pos hlen, ensure_pos hlen, ok_bind, ok_bind,
      splitAt_of_le hlen, ok_bind]
    dsimp only; rw [splitAt_of_le (by omega), ok_bind]; dsimp only
    rw [copyId_of_length hid, ok_bind, beAt_of_le (by omega), ok_bind, beAt_of_le (by omega), ok_bind,
      beAt_of_le (by omega), ok_bind, takeId, dif_neg (by omega)]
    simp only [ok_bind, List.take_take, List.drop_take, List.drop_drop, Bytes.takeBe, hw, hi]; rfl
  · rw [tryTakeNode, takeNode, ensure_neg hlen, ensure_neg hlen]; rfl

lemma tryTakeNodes_eq (count : Nat) (b : Bytes) : tryTakeNodes count b = (takeNodes count b).mapError some := by
  induction count generalizing b with
  | zero => rfl
  | succ count ih =>
    rw [tryTakeNodes, takeNodes, tryTakeNode_eq, mapError_bind]; refine congrArg _ (funext fun r => ?_)
    obtain ⟨node, rest⟩ := r; dsimp only; rw [ih, mapError_bind]
    rfl

lemma DiscoveryMessage.tryDecode_eq (b : Bytes) : tryDecode b = (decode b).mapError some := by
  cases b with
  | nil => rfl
  | cons kind b =>
    simp only [decode]; split
    case h_1 hk | h_2 hk =>
      cases kind_eq hk; show (tryTakeNode b >>= _) = _; rw [tryTakeNode_eq, mapError_bind]
      refine congrArg _ (funext fun r => ?_); rw [mapError_bind, mapError_ensure]; rfl
    case h_3 hk =>
      cases kind_eq hk; show (tryTakeNode b >>= _) = _; rw [tryTakeNode_eq, mapError_bind]
      refine congrArg _ (funext fun r => ?_); obtain ⟨sender, rest⟩ := r; dsimp only
      by_cases hlen : nodeIdLen ≤ rest.length
      · rw [ensure_pos hlen, ok_bind, splitAt_of_le hlen, ok_bind, takeId, dif_neg (by omega), ok_bind,
          copyId_of_length (List.length_take_of_le hlen), mapError_bind, mapError_ensure]
        rfl
      · rw [ensure_neg hlen, takeId, dif_pos (by omega)]; rfl
    case h_4 hk =>
      cases kind_eq hk; show (tryTakeNode b >>= _) = _; rw [tryTakeNode_eq, mapError_bind]
      refine congrArg _ (funext fun r => ?_); obtain ⟨sender, rest⟩ := r; dsimp only
      by_cases hlen : 2 ≤ rest.length
      · rw [ensure_pos hlen, ensure_pos hlen, ok_bind, ok_bind, splitAt_of_le hlen, ok_bind]; dsimp only
        rw [beAt_of_le (by simp; omega), ok_bind, List.drop_zero, List.take_take, Nat.min_self, mapError_bind,
          mapError_ensure]
        refine congrArg _ (funext fun _ => ?_); rw [tryTakeNodes_eq, mapError_bind]
        refine congrArg _ (funext fun r => ?_); rw [mapError_bind, mapError_ensure]; rfl
      · rw [ensure_neg hlen, ensure_neg hlen]; rfl
    case h_5 h1 h2 h3 h4 =>
      have hne : ∀ k : UInt8, kind.toNat ≠ k.toNat → kind ≠ k := fun k h e => h (congrArg _ e)
      have h12 : ¬ (kind = 0x01 ∨ kind = 0x02) := not_or.mpr ⟨hne 0x01 h1, hne 0x02 h2⟩
      rw [tryDecode, if_neg h12, if_neg (hne 0x03 h3), if_neg (hne 0x04 h4)]; rfl

/-- Every message with at most `MAX_NEIGHBORS` nodes is read back from its encoding, every accepted datagram is the
encoding of the message it is read as, and the parser ends with a message or with one of its own errors. -/
theorem DiscoveryMessage.decode_bijective : (∀ msg : DiscoveryMessage, msg.Fits → decode msg.encode = .ok msg) ∧
      (∀ b msg, decode b = .ok msg → msg.Fits ∧ msg.encode = b) ∧
      ∀ b, tryDecode b = (decode b).mapError some ∧ tryDecode b ≠ .error none := by
  refine ⟨fun msg h => decode_encode h, fun b msg h => encode_of_decode h, fun b => ⟨tryDecode_eq b, ?_⟩⟩
  rw [tryDecode_eq]; cases decode b <;> simp [Except.mapError]

/-- The answer with one node is read back, and nothing else is read as it. -/
theorem DiscoveryMessage.decode_bijective_neighbors :
    let node : Node := ⟨⟨List.replicate nodeIdLen 7, List.length_replicate⟩, ⟨0, 1, 2⟩⟩
    decode (neighbors node [node]).encode = .ok (neighbors node [node]) ∧
      ∀ b, decode b = .ok (neighbors node [node]) → b = (neighbors node [node]).encode := by
  intro node
  exact ⟨decode_bijective.1 (neighbors node [node]) (show 1 ≤ maxNeighbors by decide),
    fun b hb => (decode_bijective.2.1 b _ hb).2.symm⟩

end TronRs.Discovery

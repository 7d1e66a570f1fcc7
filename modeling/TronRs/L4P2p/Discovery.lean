import TronRs.Core.Lts
import TronRs.L4P2p.DiscoveryCodec

/-!
# The discovery service

`crates/p2p/src/discovery_service.rs`: a node answers PING with PONG, PONG with FIND_NODE and FIND_NODE
with NEIGHBORS, and pings every node of a NEIGHBORS message that is new to its table. So datagrams
cause datagrams, in a cycle, and one NEIGHBORS message up to sixteen of them. A new node takes a free
place of the table, and no place becomes free again.

`Network` is a set of such nodes with datagrams in flight, which are delivered to any node, or lost,
in any order.

* `receive_potential`: what a node does with a datagram costs at least one unit of a potential, made
  of the datagrams in flight, each with the number of answers it can still lead to, and of four times
  the free places.
* `discovery_dies_out`: so at most `4 * M + 16384 * N` datagrams are ever handled.
-/
namespace TronRs

open TronRs.Core

/-- Mirrors p2p/discovery_service.rs:38. The peer set that mirrors the table for other services is written only. -/
structure Discovery where
  localNode : Discovery.Node
  table : Discovery.RoutingTable
  localId : table.localId = localNode.id
  bucketSize : table.k = Discovery.kBucketSize

namespace Discovery

def recvBuf : Nat := 2048

structure Datagram where
  dest : Endpoint
  bytes : Bytes
  deriving DecidableEq

variable (d : Discovery)

/-- Mirrors p2p/discovery_service.rs:155. -/
def send (msg : DiscoveryMessage) (dest : Endpoint) : Datagram := ⟨dest, msg.encode⟩

/-- Mirrors p2p/discovery_service.rs:146: whether the node is new, and the state with it. -/
def add (node : Node) : Bool × Discovery :=
  if node.id = d.localNode.id then (false, d)
  else
    (decide ((d.table.insert node).1 = .added), { d with
        table := (d.table.insert node).2
        localId := by rw [RoutingTable.localId_insert]; exact d.localId
        bucketSize := by rw [RoutingTable.k_insert]; exact d.bucketSize })

/-- The loop over the nodes of a NEIGHBORS message: a new one is pinged. -/
def probe (d : Discovery) : List Node → Discovery × List Datagram
  | [] => (d, [])
  | node :: nodes =>
    let (new, d) := if node.id ≠ d.localNode.id then d.add node else (false, d)
    let (d', sent) := d.probe nodes
    (d', if new then send (.ping d.localNode) node.endpoint :: sent else sent)

/-- Mirrors p2p/discovery_service.rs:100. -/
def handle : DiscoveryMessage → Discovery × List Datagram
  | .ping sender => ((d.add sender).2, [send (.pong d.localNode) sender.endpoint])
  | .pong sender => ((d.add sender).2, [send (.findNode d.localNode d.localNode.id) sender.endpoint])
  | .findNode sender target =>
    let d := (d.add sender).2
    (d, [send (.neighbors d.localNode (d.table.closest target kBucketSize)) sender.endpoint])
  | .neighbors sender nodes => (d.add sender).2.probe nodes

/-- The arm of the loop of `run` that reads the socket. -/
def receive (bytes : Bytes) : Discovery × List Datagram :=
  match DiscoveryMessage.decode (bytes.take recvBuf) with
  | .ok msg => d.handle msg
  | .error _ => (d, [])

/-! ## The potential -/

/-- How many datagrams a message can lead to one after the other, itself included. -/
def DiscoveryMessage.weight : DiscoveryMessage → Nat
  | .ping _ => 4
  | .pong _ => 3
  | .findNode .. => 2
  | .neighbors .. => 1

/-- The weight of a datagram is that of the message in it; one that is not understood leads to no other. -/
def Datagram.weight (g : Datagram) : Nat :=
  match DiscoveryMessage.decode (g.bytes.take recvBuf) with
  | .ok msg => msg.weight
  | .error _ => 1

lemma Datagram.weight_bounds (g : Datagram) : 1 ≤ g.weight ∧ g.weight ≤ 4 := by
  unfold weight
  cases DiscoveryMessage.decode (g.bytes.take recvBuf) with
  | error => simp
  | ok msg => cases msg <;> simp [DiscoveryMessage.weight]

variable {d : Discovery} (msg : DiscoveryMessage)

lemma length_encode_le : msg.encode.length ≤ recvBuf := by
  have hwire : nodeWireLen = 40 := rfl
  have hbuf : recvBuf = 2048 := rfl
  cases msg with
  | ping | pong => simp only [DiscoveryMessage.encode, List.length_cons, length_putNode]; omega
  | findNode sender target =>
    have hid : nodeIdLen = 32 := rfl
    simp only [DiscoveryMessage.encode, List.length_cons, List.length_append, length_putNode, target.size]
    omega
  | neighbors sender nodes =>
    have hmax : maxNeighbors = 16 := rfl
    simp only [DiscoveryMessage.encode, List.length_cons, List.length_append, length_putNode, Bytes.length_be,
      List.length_flatMap, List.map_const', List.sum_replicate, List.length_take, smul_eq_mul]
    have hcount : min (min nodes.length maxNeighbors) nodes.length ≤ 16 := by omega
    have hbytes := Nat.mul_le_mul_right nodeWireLen hcount
    omega

/-- A message that is sent arrives with its own weight. -/
lemma weight_send (h : msg.Fits) (dest : Endpoint) : (send msg dest).weight = msg.weight := by
  rw [Datagram.weight, send, List.take_of_length_le (length_encode_le msg), DiscoveryMessage.decode_encode h]

@[simp] lemma localNode_add (node : Node) : (d.add node).2.localNode = d.localNode := by
  unfold add; split <;> rfl

/-- A new node takes a free place. -/
lemma free_add (node : Node) : (d.add node).2.table.free + (if (d.add node).1 then 1 else 0) = d.table.free := by
  unfold add
  split
  · simp
  · simpa using d.table.free_insert node

/-- The check for the local id is made twice. -/
lemma probe_cons (node : Node) (nodes : List Node) : d.probe (node :: nodes) = (((d.add node).2.probe nodes).1,
      if (d.add node).1 then send (.ping d.localNode) node.endpoint :: ((d.add node).2.probe nodes).2
      else ((d.add node).2.probe nodes).2) := by
  have hadd : (if node.id ≠ d.localNode.id then d.add node else (false, d)) = d.add node := by
    by_cases h : node.id = d.localNode.id
    · simp [add, h]
    · simp [h]
  rw [probe, hadd]; simp only [localNode_add]

lemma probe_potential (nodes : List Node) : ∀ d : Discovery,
    ((d.probe nodes).2.map Datagram.weight).sum + 4 * (d.probe nodes).1.table.free = 4 * d.table.free := by
  induction nodes with
  | nil => intro d; simp [probe]
  | cons node nodes ih =>
    intro d; have hfree := free_add (d := d) node
    have hrest := ih (d.add node).2; rw [probe_cons]
    cases hnew : (d.add node).1 with
    | true =>
      rw [hnew, if_pos rfl] at hfree
      simp only [if_true, List.map_cons, List.sum_cons, weight_send (.ping d.localNode) trivial,
        DiscoveryMessage.weight]
      omega
    | false => rw [hnew, if_neg Bool.false_ne_true] at hfree; simp only [Bool.false_eq_true, if_false]; omega

/-- Handling a message costs a unit of the potential. -/
lemma handle_potential :
    ((d.handle msg).2.map Datagram.weight).sum + 4 * (d.handle msg).1.table.free + 1 ≤
      msg.weight + 4 * d.table.free := by
  cases msg with
  | ping sender =>
    have hfree := free_add (d := d) sender
    simp only [handle, List.map_singleton, List.sum_singleton, weight_send (.pong d.localNode) trivial,
      DiscoveryMessage.weight]
    omega
  | pong sender =>
    have hfree := free_add (d := d) sender
    simp only [handle, List.map_singleton, List.sum_singleton,
      weight_send (.findNode d.localNode d.localNode.id) trivial, DiscoveryMessage.weight]
    omega
  | findNode sender target =>
    have hfree := free_add (d := d) sender
    have hfits : ((d.add sender).2.table.closest target kBucketSize).length ≤ maxNeighbors := List.length_take_le _ _
    simp only [handle, List.map_singleton, List.sum_singleton, weight_send (.neighbors _ _) hfits,
      DiscoveryMessage.weight]
    omega
  | neighbors sender nodes =>
    have hfree := free_add (d := d) sender
    have hprobe := probe_potential nodes (d.add sender).2
    simp only [handle, DiscoveryMessage.weight]; omega

lemma receive_potential (g : Datagram) :
    ((d.receive g.bytes).2.map Datagram.weight).sum + 4 * (d.receive g.bytes).1.table.free + 1 ≤
      g.weight + 4 * d.table.free := by
  unfold receive Datagram.weight
  cases DiscoveryMessage.decode (g.bytes.take recvBuf) with
  | ok msg => exact handle_potential msg
  | error => simp [Nat.add_comm]

/-! ## The network -/

structure Network where
  nodes : List Discovery
  inFlight : List Datagram

inductive NetStep where
  | deliver (g : Datagram) (node : Nat)
  | lose (g : Datagram)

/-- A datagram in flight reaches a node, or is lost. -/
def Network.next (s : Network) : NetStep → Option Network
  | .deliver g i =>
    if g ∈ s.inFlight then
      (s.nodes[i]?).map fun d => ⟨s.nodes.set i (d.receive g.bytes).1, s.inFlight.erase g ++ (d.receive g.bytes).2⟩
    else none
  | .lose g => if g ∈ s.inFlight then some { s with inFlight := s.inFlight.erase g } else none

def discovery : Lts Network NetStep where
  init _ := True
  step s l t := s.next l = some t

def Network.potential (s : Network) : Nat :=
  (s.inFlight.map Datagram.weight).sum + 4 * (s.nodes.map fun d => d.table.free).sum

/-- The free places of all nodes but one. -/
lemma sum_free_set {nodes : List Discovery} {i : Nat} {d : Discovery} (h : nodes[i]? = some d) (d' : Discovery) :
    ((nodes.set i d').map fun d => d.table.free).sum + d.table.free =
      (nodes.map fun d => d.table.free).sum + d'.table.free := by
  obtain ⟨hi, rfl⟩ := List.getElem?_eq_some_iff.mp h
  have hsplit := List.take_append_drop i nodes; rw [List.drop_eq_getElem_cons hi] at hsplit
  rw [List.set_eq_take_append_cons_drop, if_pos hi, ← congrArg (fun l => (l.map fun d => d.table.free).sum) hsplit]
  simp only [List.map_append, List.map_cons, List.sum_append, List.sum_cons]; omega

/-- A datagram that is handled or lost lowers the potential. -/
lemma Network.next_potential {s t : Network} {l : NetStep} (h : s.next l = some t) : t.potential + 1 ≤ s.potential := by
  cases l with
  | lose g =>
    simp only [next] at h
    split at h
    · rename_i hmem; cases h; have hsum := List.sum_map_erase Datagram.weight hmem
      have hpos := g.weight_bounds.1; simp only [potential]; omega
    · cases h
  | deliver g i =>
    simp only [next] at h
    split at h
    · rename_i hmem; obtain ⟨d, hd, rfl⟩ := Option.map_eq_some_iff.mp h
      have hsum := List.sum_map_erase Datagram.weight hmem
      have hnode := receive_potential (d := d) g
      have hfree := sum_free_set hd (d.receive g.bytes).1
      simp only [potential, List.map_append, List.sum_append]; omega
    · cases h

lemma Network.potential_le (s : Network) : s.potential ≤ 4 * s.inFlight.length + 16384 * s.nodes.length := by
  have hweights := List.sum_le_card_nsmul (s.inFlight.map Datagram.weight) 4 fun w hw => by
    obtain ⟨g, _, rfl⟩ := List.mem_map.mp hw; exact g.weight_bounds.2
  have hfree := List.sum_le_card_nsmul (s.nodes.map fun d => d.table.free) 4096 fun f hf => by
    obtain ⟨d, _, rfl⟩ := List.mem_map.mp hf
    have hle := d.table.free_le; rw [d.bucketSize] at hle; exact hle
  rw [List.length_map, smul_eq_mul] at hweights hfree; unfold potential; omega

/-- **Discovery traffic dies out.** Whatever is in flight and in the tables, and in whichever order datagrams are
delivered or lost, a run handles at most `4 * M + 16384 * N` of them, and it ends with none in flight. -/
theorem discovery_dies_out {s t : Network} {ls : List NetStep} (hrun : discovery.Run s ls t) :
    ls.length ≤ 4 * s.inFlight.length + 16384 * s.nodes.length ∧ ((∀ l, t.next l = none) → t.inFlight = []) := by
  have hlen := hrun.length_add_le fun _ _ _ => Network.next_potential
  have hmax := s.potential_le
  refine ⟨by omega, fun hend => List.eq_nil_iff_forall_not_mem.mpr fun g hg => ?_⟩
  have hlost := hend (.lose g); simp [Network.next, hg] at hlost

/-- A node that knows no other. -/
def newNode (byte : UInt8) : Discovery where
  localNode := ⟨⟨List.replicate 32 byte, by simp [nodeIdLen]⟩, ⟨byte.toUInt32, 7, 7⟩⟩
  table := .new ⟨List.replicate 32 byte, by simp [nodeIdLen]⟩
  localId := rfl
  bucketSize := rfl

/-- Two nodes, with a PING of the first one to the second one in flight. -/
def pinged : Network := ⟨[newNode 1, newNode 2], [send (.ping (newNode 1).localNode) (newNode 2).localNode.endpoint]⟩

/-- PING, PONG, FIND_NODE and NEIGHBORS between the two. -/
def firstContact : List NetStep :=
  let a := (newNode 1).localNode
  let b := (newNode 2).localNode
  [.deliver (send (.ping a) b.endpoint) 1, .deliver (send (.pong b) a.endpoint) 0,
    .deliver (send (.findNode a a.id) b.endpoint) 1, .deliver (send (.neighbors b [a]) a.endpoint) 0]

/-- After the first contact of two nodes nothing is in flight. -/
theorem discovery_dies_out_pinged : ∃ t, discovery.Run pinged firstContact t ∧ t.inFlight = [] ∧
    firstContact.length ≤ 4 * pinged.inFlight.length + 16384 * pinged.nodes.length := by
  have hexec : (Lts.exec Network.next pinged firstContact).map Network.inFlight = some [] := by decide +kernel
  obtain ⟨t, hrun, ht⟩ := Lts.Run.exists_of_exec (M := discovery) (fun _ _ _ h => h) hexec
  exact ⟨t, hrun, ht, (discovery_dies_out hrun).1⟩

end Discovery
end TronRs

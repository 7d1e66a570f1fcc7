import TronRs.L5Node.Progress

/-!
# Commits handled concurrently

Every peer has its own task, so a call of `on_pbft_commit` can be overtaken between the point
where it reads the head and the solidified height and the point where it takes the lock of the
cache. The calls that have read and not yet taken the lock are the `pending` admissions; blocks
may arrive in between.

* `solidified_regresses_iff`: the solidified height never exceeds the head, and a step lowers it
  exactly when a call with an outdated view fills a pruned prefix of the cache again (`Regresses`).
* `solidified_decreases`: such a run.
-/
namespace TronRs

open TronRs.Core

variable (pf : Platform) (requireSig : Bool)

/-- A node and the calls of `on_pbft_commit` that wait for the lock. -/
structure Calls where
  node : Node
  pending : List Admission := []

inductive CallStep where
  /-- a call reads the state -/
  | read (bytes : Bytes)
  /-- the `i`th waiting call runs its section under the lock -/
  | lock (i : Nat)
  | block (bytes : Bytes)

/-- Blocks only raise the head here: the node has no witness key. -/
def handle (s : Calls) : CallStep → Calls
  | .read bytes =>
    match readCommit pf s.node bytes with
    | some a => { s with pending := s.pending ++ [a] }
    | none => s
  | .lock i =>
    match s.pending[i]? with
    | some a => ⟨(recordCommit s.node a).2, s.pending.eraseIdx i⟩
    | none => s
  | .block bytes => { s with node := (onBlock pf ⟨requireSig, none⟩ s.node bytes).2 }

/-- Any interleaving, from a node with no call under way. -/
def handling : Lts Calls CallStep :=
  .ofFn (fun s => s.node.solidified ≤ s.node.head ∧ s.pending = []) (handle pf requireSig)

/-- With the commit of the call counted, height `k` is up to the head the call has read and has a
quorum in the cache. -/
def Node.Confirmed (n : Node) (a : Admission) (k : Nat) : Prop :=
  k ≤ a.head.toInt.toNat ∧ HasQuorum (n.recorded a) a.totalSrs (Int64.ofNat k)

/-- The call has an outdated view and counts its commit; then the heights up to the one after the
solidified height it has read are confirmed without a gap, but not all up to the present one. -/
structure Regresses (n : Node) (a : Admission) : Prop where
  outdated : a.solidified < n.solidified
  fresh : a.signer ∉ n.signersAt a.commit.blockNum
  quorum : HasQuorum (n.recorded a) a.totalSrs a.commit.blockNum
  above : ∀ k, 1 ≤ k → k ≤ a.solidified.toInt.toNat + 1 → n.Confirmed a k
  gap : ∃ k, 1 ≤ k ∧ k ≤ n.solidified.toInt.toNat ∧ ¬ n.Confirmed a k

/-- A waiting call takes the lock with an outdated view. -/
def Calls.Overtaken (s : Calls) : CallStep → Prop
  | .lock i => ∃ a, s.pending[i]? = some a ∧ Regresses s.node a
  | _ => False

/-! ## One section under the lock -/

variable {pf requireSig} {n : Node} {a : Admission}

/-- Counting a commit lowers the solidified height exactly when its view is outdated so. -/
lemma solidified_count_lt_iff (hfresh : a.signer ∉ n.signersAt a.commit.blockNum) :
    (n.count a).solidified < n.solidified ↔ Regresses n a := by
  obtain ⟨m, hm, hnew⟩ := newSolidified_eq (n.recorded a) a
  obtain ⟨hle, hall, hnext⟩ := contiguous_iff.mp hm
  have hhead := a.head.toInt_lt
  have hint : (Int64.ofNat m).toInt = m := toInt_ofNat_of_lt (by omega)
  constructor
  · intro hlt
    split at hnew
    · rename_i hcond; obtain ⟨hquorum, hm0, habove⟩ := hcond
      rw [Node.solidified_count_of_some hnew, lt_iff_toInt_lt, hint] at hlt
      rw [lt_iff_toInt_lt, hint] at habove
      refine ⟨?_, hfresh, hquorum, fun k hk1 hk => ⟨by omega, hall k hk1 (by omega)⟩, m + 1, by omega, by omega, ?_⟩
      · rw [lt_iff_toInt_lt]; omega
      · rintro ⟨hk, hq⟩; exact hnext (by omega) hq
    · rw [Node.solidified_count_of_none hnew, lt_iff_toInt_lt] at hlt; omega
  · intro h; obtain ⟨k, hk1, hk, hgap⟩ := h.gap
    have hmin : a.solidified.toInt.toNat + 1 ≤ m :=
      hm.2 ⟨(h.above _ (by omega) le_rfl).1, fun k hk1 hk => (h.above k hk1 hk).2⟩
    have hmk : m < k := by by_contra hge; exact hgap ⟨by omega, hall k hk1 (by omega)⟩
    have habove : a.solidified < Int64.ofNat m := by rw [lt_iff_toInt_lt, hint]; omega
    rw [if_pos ⟨h.quorum, by omega, habove⟩] at hnew
    rw [Node.solidified_count_of_some hnew, lt_iff_toInt_lt, hint]; omega

lemma solidified_recordCommit_lt_iff : (recordCommit n a).2.solidified < n.solidified ↔ Regresses n a := by
  unfold recordCommit
  split
  · rename_i hmem; refine ⟨fun hlt => ?_, fun h => absurd hmem h.fresh⟩
    change n.solidified < n.solidified at hlt; rw [lt_iff_toInt_lt] at hlt; omega
  · rename_i hfresh; exact solidified_count_lt_iff hfresh

lemma head_recordCommit : (recordCommit n a).2.head = n.head := by
  unfold recordCommit
  split
  · rfl
  · exact Node.head_count n a

lemma solidified_recordCommit_le (hn : n.solidified ≤ n.head) (ha : a.head ≤ n.head) :
    (recordCommit n a).2.solidified ≤ n.head := by
  unfold recordCommit
  split
  · exact hn
  show (n.count a).solidified ≤ n.head
  cases hs : newSolidified (n.recorded a) a with
  | none => rwa [Node.solidified_count_of_none hs]
  | some =>
    rw [Node.solidified_count_of_some hs]; obtain ⟨-, -, hle, -⟩ := newSolidified_eq_some hs
    rw [le_iff_toInt_le] at hle ha ⊢; omega

/-- A block leaves finality alone and does not lower the head. -/
lemma onBlock_relay (pf : Platform) (requireSig : Bool) (n : Node) (bytes : Bytes) :
    (onBlock pf ⟨requireSig, none⟩ n bytes).2.solidified = n.solidified ∧
      n.head ≤ (onBlock pf ⟨requireSig, none⟩ n bytes).2.head := by
  by_cases hnext : ∃ b, Next pf ⟨requireSig, none⟩ n bytes b
  · obtain ⟨b, hb⟩ := hnext; rw [onBlock_of_no_witness rfl hb]
    exact ⟨Node.solidified_store pf n b, Node.head_le_store pf n b⟩
  · rw [onBlock_of_not_next fun b hb => hnext ⟨b, hb⟩]; exact ⟨rfl, by rw [le_iff_toInt_le]⟩

/-! ## Every interleaving -/

/-- Finality is within the chain, and no waiting call has read a head above the present one. -/
structure Calls.Ordered (s : Calls) : Prop where
  solidified : s.node.solidified ≤ s.node.head
  pending : ∀ a ∈ s.pending, a.head ≤ s.node.head

lemma Calls.Ordered.handle {s : Calls} (h : s.Ordered) (l : CallStep) : (handle pf requireSig s l).Ordered := by
  cases l with
  | read bytes =>
    unfold TronRs.handle; dsimp only
    split
    · rename_i a ha; obtain ⟨c, x, -, rfl⟩ := readCommit_eq_some.mp ha
      refine ⟨h.solidified, fun b hb => ?_⟩
      rcases List.mem_append.mp hb with hb | hb
      · exact h.pending b hb
      · obtain rfl := List.mem_singleton.mp hb; exact le_iff_toInt_le.mpr le_rfl
    · exact h
  | lock i =>
    unfold TronRs.handle; dsimp only
    split
    · rename_i a ha; have hmem : a ∈ s.pending := List.mem_of_getElem? ha
      refine ⟨?_, fun b hb => ?_⟩
      · show _ ≤ (recordCommit s.node a).2.head; rw [head_recordCommit]
        exact solidified_recordCommit_le h.solidified (h.pending a hmem)
      · show _ ≤ (recordCommit s.node a).2.head; rw [head_recordCommit]
        exact h.pending b (List.mem_of_mem_eraseIdx hb)
    · exact h
  | block bytes =>
    have hsolid := h.solidified
    obtain ⟨hs, hhead⟩ := onBlock_relay pf requireSig s.node bytes
    refine ⟨?_, fun a ha => ?_⟩
    · show (onBlock pf ⟨requireSig, none⟩ s.node bytes).2.solidified ≤ _; rw [hs]
      rw [le_iff_toInt_le] at hsolid hhead ⊢; exact hsolid.trans hhead
    · have hle := h.pending a ha; rw [le_iff_toInt_le] at hle hhead ⊢; exact hle.trans hhead

/-- A step lowers the solidified height exactly when it is taken by an overtaken call. -/
lemma solidified_handle_lt_iff (pf : Platform) (requireSig : Bool) (s : Calls) (l : CallStep) :
    (handle pf requireSig s l).node.solidified < s.node.solidified ↔ s.Overtaken l := by
  have hirrefl : ¬ s.node.solidified < s.node.solidified := by rw [lt_iff_toInt_lt]; omega
  cases l with
  | read =>
    unfold handle; dsimp only; split <;> exact iff_of_false hirrefl not_false
  | lock i =>
    unfold handle; dsimp only
    split
    · rename_i a ha; show (recordCommit s.node a).2.solidified < _ ↔ _
      rw [solidified_recordCommit_lt_iff]
      exact ⟨fun h => ⟨a, ha, h⟩, fun ⟨b, hb, h⟩ => Option.some.inj (ha.symm.trans hb) ▸ h⟩
    · rename_i hnone; refine iff_of_false hirrefl ?_; rintro ⟨a, ha, -⟩
      rw [hnone] at ha; cases ha
  | block bytes =>
    show (onBlock pf ⟨requireSig, none⟩ s.node bytes).2.solidified < _ ↔ False
    rw [(onBlock_relay pf requireSig s.node bytes).1]; exact iff_of_false hirrefl not_false

/-- **Monotone finality.** In every interleaving the solidified height stays within the chain, and
a step does not lower it exactly when it is not the section of an overtaken call. -/
theorem solidified_regresses_iff {s t : Calls} {steps : List CallStep} (h0 : (handling pf requireSig).init s)
    (hrun : (handling pf requireSig).Run s steps t) :
    t.node.solidified ≤ t.node.head ∧ ∀ l u, (handling pf requireSig).step t l u →
      (t.node.solidified ≤ u.node.solidified ↔ ¬ t.Overtaken l) := by
  have hordered : t.Ordered := by
    refine hrun.preserves (fun s l t hs hstep => ?_) ?_
    · rw [show t = _ from hstep]; exact hs.handle l
    · obtain ⟨hsolid, hpending⟩ := h0; exact ⟨hsolid, fun a ha => by rw [hpending] at ha; cases ha⟩
  refine ⟨hordered.solidified, fun l u hstep => ?_⟩
  rw [show u = _ from hstep, ← solidified_handle_lt_iff pf requireSig, Int64.not_lt]

/-! ## A run on fixed inputs -/

/-- The next block after the child of the genesis block. -/
def grandchildBlock : Block :=
  signedBlock (Address.ofNat 0xaa) 2 11 (numberBytes 1 ++ List.replicate 24 0)

/-- PBFT is on and the head is block 1. -/
def oneBlock : Calls where
  node := { world := (genesisState.putProp .allowPbft 1).putProp .latestBlockNumber 1 }

/-- A call that is not overtaken raises the solidified height. -/
theorem solidified_regresses_iff_one_commit : ∃ t,
    (handling (blockPlatform []) true).Run oneBlock [.read (soleCommit 1)] t ∧ t.node.solidified = 0 ∧
    (handle (blockPlatform []) true t (.lock 0)).node.solidified = 1 ∧ t.node.solidified ≤ t.node.head ∧
    ¬ t.Overtaken (.lock 0) := by
  let t := handle (blockPlatform []) true oneBlock (.read (soleCommit 1))
  have hrun : (handling (blockPlatform []) true).Run oneBlock [.read (soleCommit 1)] t := .cons rfl (.nil _)
  have hsolid : (handle (blockPlatform []) true t (.lock 0)).node.solidified = 1 := by decide +kernel
  obtain ⟨hle, hstep⟩ := solidified_regresses_iff ⟨by decide +kernel, rfl⟩ hrun
  refine ⟨t, hrun, by decide +kernel, hsolid, hle, (hstep (.lock 0) _ rfl).mp ?_⟩; rw [hsolid]
  decide +kernel

/-- Two peers relay the commit to block 1, and both calls read the state before either takes the
lock. The second takes it after height 2 is final and height 1 is pruned, and finality goes back
from 2 to 1. -/
theorem solidified_decreases : ∃ pf requireSig s steps t u, (handling pf requireSig).init s ∧
    (handling pf requireSig).Run s steps t ∧ (handling pf requireSig).step t (.lock 0) u ∧
    t.node.solidified = 2 ∧ u.node.solidified = 1 := by
  let pf := blockPlatform [grandchildBlock]
  let steps : List CallStep :=
    [.read (soleCommit 1), .read (soleCommit 1), .lock 0, .block [0], .read (soleCommit 2), .lock 1]
  refine ⟨pf, true, oneBlock, steps, _, _, ⟨by decide +kernel, rfl⟩,
    .cons rfl (.cons rfl (.cons rfl (.cons rfl (.cons rfl (.cons rfl (.nil _)))))), rfl, ?_, ?_⟩
  · decide +kernel
  · decide +kernel

end TronRs

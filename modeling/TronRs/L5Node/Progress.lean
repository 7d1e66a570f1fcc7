import TronRs.L5Node.Finality

/-!
# How far finality gets

With the head fixed, finality should be as far as the accepted commits allow: at the end of the
quorums without a gap (`Tracks`). The cache forgets the heights below the solidified one, and the
scan for the next solidified height starts at height 1. So finality keeps up while the solidified
height is at most 1 and is stuck from 2 on.

* `finality_tracks_commits`: in a run where no call completes the next quorum once finality is
  stuck, finality keeps up, and the first call that does makes it fall behind.
* `finality_stuck`: three quorums in order, and finality stays at 2.
-/
namespace TronRs

open TronRs.Core

variable (pf : Platform)

/-- The distinct active witnesses whose commits have been accepted for a height. -/
def Node.received (n : Node) (k : Int64) : Finset Bytes :=
  ((n.accepted.filter (·.blockNum = k)).filterMap fun c => (c.recoverSigner pf).map Address.asBytes).toFinset.filter
    (· ∈ n.world.getActiveWitnesses)

/-- A height has received the commits of a quorum. -/
def Node.Received (n : Node) (k : Nat) : Prop :=
  finalityThreshold n.world.getActiveWitnesses.length ≤ (n.received pf (Int64.ofNat k)).card

/-- The solidified height is the largest one up to the head below which every height has received
a quorum. -/
def Tracks (n : Node) : Prop := ∃ m, Contiguous (n.Received pf) n.head.toInt.toNat m ∧ n.solidified = Int64.ofNat m

/-- Peers send commits only. -/
def committing (active : List Bytes) : Lts Node Bytes :=
  .ofFn (·.Starts active) fun n bytes => (onPbftCommit pf n bytes).2

/-- The call does not complete the quorum at the next height, or height 1 has not been pruned. -/
def Advances (n : Node) (bytes : Bytes) : Prop :=
  n.solidified ≤ 1 ∨ ∀ c x, Counts pf n bytes c x → c.blockNum = n.solidified + 1 → c.blockNum ≤ n.head →
    (n.signersAt c.blockNum).card + 1 ≠ finalityThreshold n.world.getActiveWitnesses.length

/-! ## The cache and the commits -/

/-- From the solidified height on the cache is what has been received, below it is empty. -/
structure Cached (n : Node) : Prop where
  nonneg : 0 ≤ n.solidified.toInt
  above : ∀ k : Int64, 1 ≤ k.toInt → n.solidified ≤ k → n.signersAt k = n.received pf k
  below : ∀ k, k < n.solidified → n.signersAt k = ∅

variable {pf} {n : Node} {bytes : Bytes} {c : PbftCommit} {x : Bytes} {active : List Bytes}

lemma mem_received {k : Int64} :
    x ∈ n.received pf k ↔ x ∈ n.world.getActiveWitnesses ∧ ∃ c ∈ n.accepted, c.blockNum = k ∧ c.SignedBy pf x := by
  simp only [Node.received, Finset.mem_filter, List.mem_toFinset, List.mem_filterMap, List.mem_filter,
    decide_eq_true_eq, Option.map_eq_some_iff, PbftCommit.SignedBy]
  constructor
  · rintro ⟨⟨c, ⟨hc, hk⟩, signer, hrec, rfl⟩, hact⟩; exact ⟨hact, c, hc, hk, signer, hrec, rfl⟩
  · rintro ⟨hact, c, hc, hk, signer, hrec, rfl⟩; exact ⟨⟨c, ⟨hc, hk⟩, signer, hrec, rfl⟩, hact⟩

lemma received_count (h : Admits pf n bytes c x) (k : Int64) :
    (n.count (n.admission c x)).received pf k =
      if k = c.blockNum then insert x (n.received pf k) else n.received pf k := by
  ext y
  have hmem : y ∈ (n.count (n.admission c x)).received pf k ↔
      y ∈ n.received pf k ∨ y ∈ n.world.getActiveWitnesses ∧ c.blockNum = k ∧ c.SignedBy pf y := by
    rw [mem_received, mem_received, Node.accepted_count, Node.getActiveWitnesses_count]
    show _ ∧ (∃ d ∈ n.accepted ++ [c], _) ↔ _; simp only [List.mem_append, List.mem_singleton]
    constructor
    · rintro ⟨hact, d, hd | rfl, hrest⟩
      · exact .inl ⟨hact, d, hd, hrest⟩
      · exact .inr ⟨hact, hrest⟩
    · rintro (⟨hact, d, hd, hrest⟩ | ⟨hact, hrest⟩)
      · exact ⟨hact, d, .inl hd, hrest⟩
      · exact ⟨hact, c, .inr rfl, hrest⟩
  have hsigner : c.SignedBy pf y ↔ y = x := by
    obtain ⟨signer, hrec, rfl⟩ := h.signed
    constructor
    · rintro ⟨signer', hrec', rfl⟩; rw [Option.some.inj (hrec.symm.trans hrec')]
    · rintro rfl; exact ⟨signer, hrec, rfl⟩
  rw [hmem, hsigner]
  split
  · rename_i hk; rw [Finset.mem_insert]
    constructor
    · rintro (hy | ⟨-, -, rfl⟩)
      · exact .inr hy
      · exact .inl rfl
    · rintro (rfl | hy)
      · exact .inr ⟨h.active, hk.symm, rfl⟩
      · exact .inl hy
  · rename_i hk
    constructor
    · rintro (hy | ⟨-, hk', -⟩)
      · exact hy
      · exact absurd hk'.symm hk
    · exact .inl

lemma Cached.recorded_above (h : Cached pf n) (ha : Admits pf n bytes c x) {k : Int64} (hk1 : 1 ≤ k.toInt)
    (hk : n.solidified ≤ k) :
    ((n.recorded (n.admission c x)).get k).getD ∅ = (n.count (n.admission c x)).received pf k := by
  rw [Node.getD_recorded, received_count ha, h.above k hk1 hk]; rfl

lemma Cached.recorded_below (h : Cached pf n) (ha : Admits pf n bytes c x) {k : Int64} (hk : k < n.solidified) :
    ((n.recorded (n.admission c x)).get k).getD ∅ = ∅ :=
  (Node.recorded_of_le ha.window.1 (Int64.le_of_lt hk)).trans (h.below k hk)

lemma Cached.count (h : Cached pf n) (ha : Admits pf n bytes c x) : Cached pf (n.count (n.admission c x)) := by
  have hmono := n.solidified_le_count c x
  refine ⟨h.nonneg.trans (le_iff_toInt_le.mp hmono), fun k hk1 hk => ?_, fun k hk => ?_⟩
  · rw [Node.signersAt_count_of_le hk, h.recorded_above ha hk1 (Int64.le_trans hmono hk)]
  rcases Node.signersAt_count_of_lt hk with hempty | hsolid
  · exact hempty
  · rw [hsolid] at hk
    exact Finset.subset_empty.mp (h.recorded_below ha hk ▸ Node.signersAt_count_subset _ _ k)

lemma Cached.onPbftCommit (h : Cached pf n) (bytes : Bytes) : Cached pf (onPbftCommit pf n bytes).2 := by
  obtain ⟨c, x, hc, heq⟩ | ⟨-, heq⟩ := onPbftCommit_cases pf n bytes
  · rw [heq]; exact h.count hc.toAdmits
  · rw [heq]; exact h

lemma Node.Starts.cached (h : n.Starts active) : Cached pf n := by
  refine ⟨by rw [h.solidified]; rfl, fun k _ _ => ?_, fun k _ => ?_⟩
  · simp [Node.signersAt, Node.received, h.confirmations, h.accepted]
  · simp [Node.signersAt, h.confirmations]

lemma Node.Starts.tracks (h : n.Starts active) : Tracks pf n := by
  refine ⟨0, contiguous_iff.mpr ⟨by omega, fun k _ _ => by omega, fun _ => ?_⟩, h.solidified⟩
  simp [Node.Received, Node.received, h.accepted, finalityThreshold]

/-! ## One call -/

/-- What has been received is not forgotten. -/
lemma Received.count (ha : Admits pf n bytes c x) {k : Nat} (h : n.Received pf k) :
    (n.count (n.admission c x)).Received pf k := by
  unfold Node.Received at h ⊢; rw [received_count ha, Node.getActiveWitnesses_count]
  split
  · exact h.trans (Finset.card_le_card (Finset.subset_insert _ _))
  · exact h

/-- Only the height of the commit can gain a quorum. -/
lemma received_of_count (ha : Admits pf n bytes c x) {k : Nat} (hk : Int64.ofNat k ≠ c.blockNum)
    (h : (n.count (n.admission c x)).Received pf k) : n.Received pf k := by
  unfold Node.Received at h ⊢; rwa [received_count ha, Node.getActiveWitnesses_count, if_neg hk] at h

/-- While height 1 is cached, the scan sees everything that has been received. -/
lemma Tracks.count (htr : Tracks pf n) (h : Cached pf n) (ha : Admits pf n bytes c x)
    (hlow : n.solidified ≤ 1) : Tracks pf (n.count (n.admission c x)) := by
  obtain ⟨m₀, hm₀, hsolid₀⟩ := htr
  obtain ⟨m, hm, hnew⟩ := newSolidified_eq (n.recorded (n.admission c x)) (n.admission c x)
  have hlt := n.head.toInt_lt
  have hm' : Contiguous ((n.count (n.admission c x)).Received pf) n.head.toInt.toNat m := by
    refine hm.congr fun k hk1 hk => ?_
    have hk' : k ≤ n.head.toInt.toNat := hk
    have hkint : (Int64.ofNat k).toInt = k := toInt_ofNat_of_lt (by omega)
    have hone := Int64.toInt_one; rw [le_iff_toInt_le] at hlow
    unfold HasQuorum Node.Received
    rw [h.recorded_above ha (by omega) (by rw [le_iff_toInt_le]; omega), Node.getActiveWitnesses_count]
    rfl
  refine ⟨m, by rwa [Node.head_count], ?_⟩; obtain ⟨hle₀, hall₀, hnext₀⟩ := contiguous_iff.mp hm₀
  obtain ⟨hle, hall, -⟩ := contiguous_iff.mp hm'
  have hint₀ : (Int64.ofNat m₀).toInt = m₀ := toInt_ofNat_of_lt (by omega)
  have hint : (Int64.ofNat m).toInt = m := toInt_ofNat_of_lt (by omega)
  have hmono : m₀ ≤ m := hm'.2 ⟨hle₀, fun k hk1 hk => Received.count ha (hall₀ k hk1 hk)⟩
  rcases Nat.eq_or_lt_of_le hmono with rfl | hgrow
  · -- nothing new is final
    rw [if_neg] at hnew
    · rw [Node.solidified_count_of_none hnew, hsolid₀]
    · rintro ⟨-, -, hlt⟩; have hadm : (n.admission c x).solidified = Int64.ofNat m₀ := hsolid₀
      rw [hadm, lt_iff_toInt_lt] at hlt; omega
  · -- the next height has just received its quorum, so it is the height of the commit
    have hat : Int64.ofNat (m₀ + 1) = c.blockNum := by
      by_contra hne
      exact hnext₀ (by omega) (received_of_count ha hne (hall (m₀ + 1) (by omega) (by omega)))
    have hquorum : HasQuorum (n.recorded (n.admission c x)) (n.admission c x).totalSrs c.blockNum := by
      rw [← hat]; exact (contiguous_iff.mp hm).2.1 (m₀ + 1) (by omega) (by omega)
    have habove : (n.admission c x).solidified < Int64.ofNat m := by
      show n.solidified < _; rw [hsolid₀, lt_iff_toInt_lt]; omega
    rw [if_pos ⟨hquorum, by omega, habove⟩] at hnew; exact Node.solidified_count_of_some hnew

/-- Once height 1 has been pruned, finality does not move. -/
lemma Cached.stuck (h : Cached pf n) (ha : Admits pf n bytes c x) (hhigh : 1 < n.solidified) :
    newSolidified (n.recorded (n.admission c x)) (n.admission c x) = none :=
  newSolidified_of_empty _ (h.recorded_below ha hhigh)

/-- A stuck node falls behind exactly when the next height receives its quorum. -/
lemma Tracks.count_iff (htr : Tracks pf n) (h : Cached pf n) (hc : Counts pf n bytes c x) (hhigh : 1 < n.solidified) :
    Tracks pf (n.count (n.admission c x)) ↔ (c.blockNum = n.solidified + 1 → c.blockNum ≤ n.head →
      (n.signersAt c.blockNum).card + 1 ≠ finalityThreshold n.world.getActiveWitnesses.length) := by
  have ha := hc.toAdmits
  obtain ⟨m, hm, hsolid⟩ := htr
  obtain ⟨hle, hall, hnext⟩ := contiguous_iff.mp hm
  have hlt := n.head.toInt_lt
  have hint : (Int64.ofNat m).toInt = m := toInt_ofNat_of_lt (by omega)
  have hone := Int64.toInt_one
  have hhigh' := lt_iff_toInt_lt.mp hhigh
  have hwin := lt_iff_toInt_lt.mp ha.window.1; rw [hsolid, hint] at hhigh' hwin
  have hstuck : (n.count (n.admission c x)).solidified = Int64.ofNat m := by
    rw [Node.solidified_count_of_none (h.stuck ha hhigh), hsolid]
  have hbn := c.blockNum.toInt_lt
  have hsucc : c.blockNum = n.solidified + 1 ↔ c.blockNum = Int64.ofNat (m + 1) := by
    rw [← toInt_inj, ← toInt_inj, toInt_ofNat_of_lt (by omega), hsolid,
      toInt_add_of_fits ⟨by omega, by omega⟩, hint]
    rfl
  -- the quorum of the commit's height, before and after
  have hcard : ∀ k, Int64.ofNat k = c.blockNum → ((n.count (n.admission c x)).Received pf k ↔
      finalityThreshold n.world.getActiveWitnesses.length ≤ (n.signersAt c.blockNum).card + 1) := by
    intro k hk; have habove := h.above c.blockNum (by omega) (by rw [le_iff_toInt_le, hsolid]; omega)
    have hfresh : x ∉ n.received pf c.blockNum := habove ▸ hc.fresh
    unfold Node.Received
    rw [received_count ha, Node.getActiveWitnesses_count, hk, if_pos rfl, Finset.card_insert_of_notMem hfresh, habove]
  constructor
  · rintro ⟨m', hm', hsolid'⟩ hnum hhead heq; obtain ⟨hle', -, hnext'⟩ := contiguous_iff.mp hm'
    rw [Node.head_count] at hle' hnext'
    obtain rfl : m' = m := by
      have hint' : (Int64.ofNat m').toInt = m' := toInt_ofNat_of_lt (by omega)
      rw [hstuck] at hsolid'; have := congrArg Int64.toInt hsolid'; omega
    rw [hsucc] at hnum; have hnumint := congrArg Int64.toInt hnum
    rw [toInt_ofNat_of_lt (by omega)] at hnumint; rw [le_iff_toInt_le] at hhead
    exact hnext' (by omega) ((hcard _ hnum.symm).mpr (by omega))
  · intro hcond; refine ⟨m, ?_, hstuck⟩; rw [contiguous_iff, Node.head_count]
    refine ⟨hle, fun k hk1 hk => Received.count ha (hall k hk1 hk), fun hlt' hrec => ?_⟩
    by_cases hat : Int64.ofNat (m + 1) = c.blockNum
    · have hbefore : ¬ finalityThreshold n.world.getActiveWitnesses.length ≤ (n.signersAt c.blockNum).card := by
        intro hq; refine hnext hlt' ?_; unfold Node.Received
        rwa [hat, ← h.above c.blockNum (by omega) (by rw [le_iff_toInt_le, hsolid]; omega)]
      have hafter := (hcard _ hat).mp hrec; refine hcond (hsucc.mpr hat.symm) ?_ (by omega)
      rw [le_iff_toInt_le, ← hat, toInt_ofNat_of_lt (by omega)]; omega
    · exact hnext hlt' (received_of_count ha hat hrec)

/-- One call keeps finality up with the commits exactly when it may. -/
lemma Tracks.onPbftCommit_iff (htr : Tracks pf n) (h : Cached pf n) (bytes : Bytes) :
    Tracks pf (onPbftCommit pf n bytes).2 ↔ Advances pf n bytes := by
  obtain ⟨c, x, hc, heq⟩ | ⟨hnone, heq⟩ := onPbftCommit_cases pf n bytes
  · rw [heq]; show Tracks pf (n.count (n.admission c x)) ↔ _
    by_cases hlow : n.solidified ≤ 1
    · exact ⟨fun _ => .inl hlow, fun _ => htr.count h hc.toAdmits hlow⟩
    rw [htr.count_iff h hc (Int64.not_le.mp hlow)]
    constructor
    · intro hcond
      refine .inr fun d y hd => ?_
      cases hc.decoded.symm.trans hd.decoded; exact hcond
    · rintro (hlow' | hcond)
      · exact absurd hlow' hlow
      · exact hcond c x hc
  · rw [heq]; exact ⟨fun _ => .inr fun c x hc => absurd hc (hnone c x), fun _ => htr⟩

/-- **Progress of finality.** In every run of `on_pbft_commit` whose calls all meet `Advances`,
the solidified height is the largest one up to the head below which every height has received the
commits of a quorum; and a next call keeps it so exactly when it meets `Advances`. -/
theorem finality_tracks_commits {active : List Bytes} {s t : Node} {calls : List Bytes}
    (h0 : (committing pf active).init s) (hrun : ((committing pf active).guard (Advances pf)).Run s calls t) :
    Tracks pf t ∧ ∀ bytes, Tracks pf (onPbftCommit pf t bytes).2 ↔ Advances pf t bytes := by
  have hstart : s.Starts active := h0
  have hstep : ∀ s bytes t, Tracks pf s ∧ Cached pf s →
      ((committing pf active).guard (Advances pf)).step s bytes t → Tracks pf t ∧ Cached pf t := by
    rintro s bytes _ ⟨htr, hc⟩ ⟨hadv, rfl⟩
    exact ⟨(htr.onPbftCommit_iff hc bytes).mpr hadv, hc.onPbftCommit bytes⟩
  have hinv := hrun.preserves hstep ⟨hstart.tracks, hstart.cached⟩
  exact ⟨hinv.1, hinv.1.onPbftCommit_iff hinv.2⟩

/-! ## Runs on fixed inputs -/

/-- A node with PBFT on, three blocks above the genesis block. -/
def threeBlocks : Node where
  world := (genesisState.putProp .allowPbft 1).putProp .latestBlockNumber 3

/-- The commit of the only witness to a height. -/
def soleCommit (height : Int64) : Bytes := (commitOf (Address.ofNat 0xaa) height H256.zero).encode

/-- Two quorums in order take finality to 2. -/
theorem finality_tracks_two_commits : ∃ t,
    ((committing (blockPlatform []) [(Address.ofNat 0xaa).asBytes]).guard (Advances (blockPlatform []))).Run
      threeBlocks [soleCommit 1, soleCommit 2] t ∧ t.solidified = 2 ∧ Tracks (blockPlatform []) t := by
  let pf := blockPlatform []
  let s1 := (onPbftCommit pf threeBlocks (soleCommit 1)).2
  let t := (onPbftCommit pf s1 (soleCommit 2)).2
  have h0 : (committing pf [(Address.ofNat 0xaa).asBytes]).init threeBlocks :=
    ⟨rfl, by decide, rfl, rfl, rfl, rfl⟩
  have hrun : ((committing pf [(Address.ofNat 0xaa).asBytes]).guard (Advances pf)).Run threeBlocks
      [soleCommit 1, soleCommit 2] t :=
    .cons ⟨.inl (by decide +kernel), rfl⟩ (.cons ⟨.inl (by decide +kernel), rfl⟩ (.nil _))
  exact ⟨t, hrun, by decide +kernel, (finality_tracks_commits h0 hrun).1⟩

/-- Three quorums in order: the third is not seen. -/
theorem finality_stuck : ∃ pf active s calls t, (committing pf active).init s ∧
    (committing pf active).Run s calls t ∧ t.solidified = 2 ∧ ¬ Tracks pf t := by
  let pf := blockPlatform []
  let s1 := (onPbftCommit pf threeBlocks (soleCommit 1)).2
  let s2 := (onPbftCommit pf s1 (soleCommit 2)).2
  let t := (onPbftCommit pf s2 (soleCommit 3)).2
  have hsolid : t.solidified = 2 := by decide +kernel
  refine ⟨pf, [(Address.ofNat 0xaa).asBytes], threeBlocks, [soleCommit 1, soleCommit 2, soleCommit 3], t,
    ⟨rfl, by decide, rfl, rfl, rfl, rfl⟩, .cons rfl (.cons rfl (.cons rfl (.nil _))), hsolid, ?_⟩
  rintro ⟨m, hm, hsolid'⟩; obtain ⟨hle, -, hnext⟩ := contiguous_iff.mp hm
  have hhead : t.head.toInt.toNat = 3 := by decide +kernel
  obtain rfl : m = 2 := by
    rw [hsolid] at hsolid'; have hint := congrArg Int64.toInt hsolid'
    rw [toInt_ofNat_of_lt (by omega)] at hint; have htwo : (2 : Int64).toInt = 2 := rfl; omega
  refine hnext (by omega) ?_; show finalityThreshold _ ≤ _; decide +kernel

end TronRs

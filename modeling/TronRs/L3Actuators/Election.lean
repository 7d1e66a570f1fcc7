import TronRs.L3Actuators.Maintenance

/-!
# The election does not depend on the order

The votes are added up in a hash map, and the witnesses are sorted by `cmp_witness`. Adding votes
in another order gives the same tally, and the comparator is a total order on witnesses with
distinct addresses, so a cycle comes out the same for every order of the witnesses and voters.

* `WorldState.tally_perm`, `sortWitnesses_perm`: the two halves of the argument.
* `election_order_independent`: the cycle as a whole, its ranking, and the active set as it is
  stored and read back.
-/
namespace TronRs

open TronRs.Core

/-- Mirrors consensus/election.rs:47. -/
def rankWitnesses (votes : List (Address × Int64)) : List Address :=
  (votes.mergeSort fun a b => (cmpWitness (a.1.asBytes, a.2) (b.1.asBytes, b.2)).isLE).map Prod.fst

/-- The record `put_active_witnesses` stores: the addresses one after the other. -/
def encodeActiveWitnesses (witnesses : List Address) : Bytes := witnesses.flatMap Address.asBytes

/-- How `get_active_witnesses` reads it. -/
def decodeActiveWitnesses (record : Bytes) : List Bytes := record.chunksExact addressLen

lemma decodeActiveWitnesses_encode (witnesses : List Address) :
    decodeActiveWitnesses (encodeActiveWitnesses witnesses) = witnesses.map Address.asBytes :=
  Bytes.chunksExact_flatMap (by decide) Address.length_asBytes witnesses

/-! ## The tally -/

lemma addVote_comm (tally : Column Bytes Int64) (u v : Vote) :
    addVote (addVote tally u) v = addVote (addVote tally v) u := by
  refine Column.ext fun key => ?_
  unfold addVote
  by_cases huv : v.voteAddress = u.voteAddress
  · rw [huv, get_put_self, get_put_self, Column.put_put, Column.put_put, Option.getD_some,
      Option.getD_some, Int64.add_assoc, Int64.add_comm u.voteCount, ← Int64.add_assoc]
  rw [get_put_of_ne huv, get_put_of_ne (Ne.symm huv), get_put, get_put, get_put, get_put]
  split
  · rw [if_neg fun heq => huv ((‹key = v.voteAddress›.symm.trans heq))]
  · rfl

/-- The votes of the same voters add up to the same tally. -/
lemma WorldState.tally_perm (s : WorldState) {voters voters' : List Address} (h : voters'.Perm voters) :
    s.tally voters' = s.tally voters := by
  unfold WorldState.tally countVotes; rw [← List.foldl_flatMap, ← List.foldl_flatMap]
  exact ((h.filterMap _).flatMap_right _).foldl_eq' (fun u _ v _ tally => addVote_comm tally u v) ∅

/-! ## The ranking -/

instance : Std.TransCmp cmpWitness :=
  inferInstanceAs (Std.TransCmp (compareLex (fun a b : Bytes × Int64 => compareOn Prod.snd b a)
    fun a b => compareOn Prod.fst b a))

lemma eq_of_cmpWitness {a b : Bytes × Int64} (h : cmpWitness a b = .eq) : a = b := by
  obtain ⟨hcount, haddr⟩ := Ordering.then_eq_eq.mp h
  exact Prod.ext (Std.LawfulEqCmp.eq_of_compare haddr).symm (Std.LawfulEqCmp.eq_of_compare hcount).symm

lemma sortWitnesses_perm {scores scores' : List (Bytes × Int64)} (h : scores'.Perm scores) :
    sortWitnesses scores' = sortWitnesses scores := by
  have hsorted : ∀ l : List (Bytes × Int64),
      (l.mergeSort fun a b => (cmpWitness a b).isLE).Pairwise fun a b => (cmpWitness a b).isLE = true :=
    List.pairwise_mergeSort (fun a b c => Std.TransCmp.isLE_trans) fun a b => by
      have hswap : cmpWitness b a = (cmpWitness a b).swap := Std.OrientedCmp.eq_swap
      rw [hswap]; cases cmpWitness a b <;> rfl
  have hanti : ∀ a b, (cmpWitness a b).isLE = true → (cmpWitness b a).isLE = true → a = b :=
    fun a b hab hba => eq_of_cmpWitness (Std.OrientedCmp.isLE_antisymm hab hba)
  have hperm := (List.mergeSort_perm scores' fun a b => (cmpWitness a b).isLE).trans
    (h.trans (List.mergeSort_perm scores fun a b => (cmpWitness a b).isLE).symm)
  exact congrArg (List.map Prod.fst)
    (hperm.eq_of_pairwise (fun a b _ _ => hanti a b) (hsorted scores') (hsorted scores))

lemma sortWitnesses_map (votes : List (Address × Int64)) :
    sortWitnesses (votes.map fun v => (v.1.asBytes, v.2)) = (rankWitnesses votes).map Address.asBytes := by
  unfold sortWitnesses rankWitnesses
  rw [← List.map_mergeSort (r := fun a b => (cmpWitness (a.1.asBytes, a.2) (b.1.asBytes, b.2)).isLE)
    fun _ _ _ _ => rfl, List.map_map, List.map_map]
  rfl

/-! ## The cycle -/

/-- The vote counts of the listed witnesses, as they are stored. -/
def WorldState.voteCounts (s : WorldState) (witnessAddrs : List Address) : List (Address × Int64) :=
  witnessAddrs.filterMap fun a => (s.getWitness a).map fun w => (a, w.voteCount)

lemma score_eq_voteCounts {s t : WorldState} {tally : Column Bytes Int64} {witnessAddrs : List Address}
    (h : ∀ a ∈ witnessAddrs, t.getWitness a = (s.getWitness a).map (Witness.counted tally a.asBytes)) :
    witnessAddrs.filterMap (score tally s) = (t.voteCounts witnessAddrs).map fun v => (v.1.asBytes, v.2) := by
  rw [WorldState.voteCounts, List.map_filterMap]
  refine List.filterMap_congr fun a ha => ?_
  rw [h a ha, score]; cases s.getWitness a <;> rfl

/-- **The election is order-independent.** For witnesses with distinct addresses a cycle returns the
same list, stores the same active set and writes the same records for every order of the witnesses
and of the voters. The list is the first 27 of the ranking by the updated counts, and the active
set reads back as that list, also from the record it is stored in. -/
theorem election_order_independent (s : WorldState) {witnessAddrs witnessAddrs' voterAddrs voterAddrs' : List Address}
    (hdistinct : witnessAddrs.Nodup) (hw : witnessAddrs'.Perm witnessAddrs) (hv : voterAddrs'.Perm voterAddrs)
    {elected elected' : List Bytes} {t t' : WorldState} (h : runMaintenance s witnessAddrs voterAddrs = (elected, t))
    (h' : runMaintenance s witnessAddrs' voterAddrs' = (elected', t')) :
    elected' = elected ∧ t'.activeWitnesses = t.activeWitnesses ∧ (∀ a, t'.getWitness a = t.getWitness a) ∧
      elected = ((rankWitnesses (t.voteCounts witnessAddrs)).take 27).map Address.asBytes ∧
      t.getActiveWitnesses = elected ∧ decodeActiveWitnesses (encodeActiveWitnesses t.activeWitnesses) = elected := by
  obtain ⟨records, heq, hget⟩ := runMaintenance_eq hdistinct voterAddrs
  obtain ⟨records', heq', hget'⟩ := runMaintenance_eq (hw.nodup_iff.mpr hdistinct) voterAddrs'
  cases h.symm.trans heq; cases h'.symm.trans heq'; rw [s.tally_perm hv] at hget' ⊢
  have hsame : activeSet (witnessAddrs'.filterMap (score (s.tally voterAddrs) s)) =
      activeSet (witnessAddrs.filterMap (score (s.tally voterAddrs) s)) := by
    unfold activeSet; rw [sortWitnesses_perm (hw.filterMap _)]
  have hcounts := score_eq_voteCounts (t := { s with
      witness := records
      activeWitnesses := (activeSet (witnessAddrs.filterMap (score (s.tally voterAddrs) s))).filterMap
        Address.ofBytes }) fun a ha => (hget a).trans (if_pos ha)
  have hlist := congrArg activeSet hcounts
  rw [activeSet, activeSet, sortWitnesses_map, ← List.map_take] at hlist
  -- what is elected are addresses, so none is lost when they are parsed again
  have hread : ∀ l : List Address, ((l.map Address.asBytes).filterMap Address.ofBytes).map Address.asBytes =
      l.map Address.asBytes := by
    intro l; have hparse : Address.ofBytes ∘ Address.asBytes = some := funext Address.ofBytes_asBytes
    rw [List.filterMap_map, hparse, List.filterMap_some]
  refine ⟨hsame, congrArg (List.filterMap Address.ofBytes) hsame, fun a => ?_, hlist, ?_, ?_⟩
  · exact (hget' a).trans ((if_congr hw.mem_iff rfl rfl).trans (hget a).symm)
  · exact (congrArg (fun l => (List.filterMap Address.ofBytes l).map Address.asBytes) hlist).trans
      ((hread _).trans hlist.symm)
  · rw [decodeActiveWitnesses_encode]
    exact (congrArg (fun l => (List.filterMap Address.ofBytes l).map Address.asBytes) hlist).trans
      ((hread _).trans hlist.symm)

/-- Two witnesses and two voters, one of whom splits the votes. -/
def ballots : WorldState where
  witness := ((∅ : Column Bytes Witness).put (Address.ofNat 0xaa).asBytes { voteCount := 3 }).put
    (Address.ofNat 0xbb).asBytes { voteCount := 4 }
  account := ((∅ : Column Address Account).put (Address.ofNat 0xcc)
    { votes := [⟨(Address.ofNat 0xaa).asBytes, 5⟩, ⟨(Address.ofNat 0xbb).asBytes, 1⟩] }).put (Address.ofNat 0xdd)
    { votes := [⟨(Address.ofNat 0xaa).asBytes, 2⟩] }

/-- The seven votes for `aa` come to its three, in whichever order the witnesses and the voters are listed. -/
theorem election_order_independent_two : ∃ elected t t',
    runMaintenance ballots [Address.ofNat 0xaa, Address.ofNat 0xbb] [Address.ofNat 0xcc, Address.ofNat 0xdd] =
      (elected, t) ∧
    runMaintenance ballots [Address.ofNat 0xbb, Address.ofNat 0xaa] [Address.ofNat 0xdd, Address.ofNat 0xcc] =
      (elected, t') ∧ (t.getWitness (Address.ofNat 0xaa)).map Witness.voteCount = some 10 ∧
    t'.getWitness (Address.ofNat 0xaa) = t.getWitness (Address.ofNat 0xaa) := by
  have hdistinct : [Address.ofNat 0xaa, Address.ofNat 0xbb].Nodup := by decide
  obtain ⟨helected, -, hrecords, -⟩ :=
    election_order_independent ballots hdistinct (.swap _ _ _) (.swap (Address.ofNat 0xcc) (Address.ofNat 0xdd) []) rfl
      rfl
  exact ⟨_, _, _, rfl, Prod.ext helected rfl, by decide +kernel, hrecords _⟩

end TronRs

import TronRs.L1State.WorldState

/-!
# The maintenance cycle

`crates/actuators/src/maintenance.rs` with the comparator of `crates/consensus/src/election.rs`:
the votes of the voters are added up per witness, the sums are added to the stored vote counts,
and the first 27 witnesses by count become the active set.

* `maintenance_settles_iff`: a second cycle with the same votes changes nothing exactly when the
  voters have no vote for any of the witnesses.
* `votes_counted_twice`: the sums are of all current votes, not of what has changed since the last
  cycle, so every cycle adds them once more.
-/
namespace TronRs

open TronRs.Core

def maxActiveWitnesses : Nat := 27

/-- One vote is added to its witness. -/
def addVote (tally : Column Bytes Int64) (v : Vote) : Column Bytes Int64 :=
  tally.put v.voteAddress ((tally.get v.voteAddress).getD 0 + v.voteCount)

/-- Mirrors actuators/maintenance.rs:26. -/
def countVotes (voters : List Account) : Column Bytes Int64 :=
  voters.foldl (fun tally voter => voter.votes.foldl addVote tally) ∅

/-- More votes first, then the higher address. Mirrors consensus/election.rs:34. -/
def cmpWitness (a b : Bytes × Int64) : Ordering := (compare b.2 a.2).then (compare b.1 a.1)

/-- Mirrors actuators/maintenance.rs:42. -/
def sortWitnesses (witnesses : List (Bytes × Int64)) : List Bytes :=
  (witnesses.mergeSort fun a b => (cmpWitness a b).isLE).map Prod.fst

/-- Mirrors actuators/maintenance.rs:50. -/
def activeSet (witnesses : List (Bytes × Int64)) : List Bytes := (sortWitnesses witnesses).take maxActiveWitnesses

/-- The record of a witness once its votes have been added. -/
def Witness.counted (tally : Column Bytes Int64) (key : Bytes) (w : Witness) : Witness :=
  { w with voteCount := w.voteCount + (tally.get key).getD 0 }

/-- One round of the loop over the witnesses: a listed address without a record is passed over. -/
def scoreWitness (tally : Column Bytes Int64) (acc : WorldState × List (Bytes × Int64)) (addr : Address) :
    WorldState × List (Bytes × Int64) :=
  match acc.1.getWitness addr with
  | none => acc
  | some w =>
    let w := w.counted tally addr.asBytes
    ({ acc.1 with witness := acc.1.witness.put addr.asBytes w }, acc.2 ++ [(addr.asBytes, w.voteCount)])

def WorldState.putActiveWitnesses (s : WorldState) (witnesses : List Address) : WorldState :=
  { s with activeWitnesses := witnesses }

/-- What the voters' current votes add up to. -/
def WorldState.tally (s : WorldState) (voterAddrs : List Address) : Column Bytes Int64 :=
  countVotes (voterAddrs.filterMap s.getAccount)

/-- Mirrors actuators/maintenance.rs:75. -/
def runMaintenance (s : WorldState) (witnessAddrs voterAddrs : List Address) : List Bytes × WorldState :=
  let scored := witnessAddrs.foldl (scoreWitness (s.tally voterAddrs)) (s, [])
  let elected := activeSet scored.2
  (elected, scored.1.putActiveWitnesses (elected.filterMap Address.ofBytes))

/-! ## What one cycle writes -/

/-- The entry of a witness in the ranking. -/
def score (tally : Column Bytes Int64) (s : WorldState) (addr : Address) : Option (Bytes × Int64) :=
  (s.getWitness addr).map fun w => (addr.asBytes, (w.counted tally addr.asBytes).voteCount)

variable {tally : Column Bytes Int64} {addrs : List Address}

lemma score_congr {s t : WorldState} (h : ∀ a ∈ addrs, t.getWitness a = s.getWitness a) :
    addrs.filterMap (score tally t) = addrs.filterMap (score tally s) := by
  refine List.filterMap_congr fun a ha => ?_
  rw [score, score, h a ha]

/-- The loop scores every witness once and writes nothing but their records. -/
lemma foldl_scoreWitness (tally : Column Bytes Int64) (hnodup : addrs.Nodup) (s : WorldState)
    (scored : List (Bytes × Int64)) : ∃ records, addrs.foldl (scoreWitness tally) (s, scored) =
        ({ s with witness := records }, scored ++ addrs.filterMap (score tally s)) ∧ ∀ a, records.get a.asBytes =
        if a ∈ addrs then (s.getWitness a).map (Witness.counted tally a.asBytes) else s.getWitness a := by
  induction addrs generalizing s scored with
  | nil => exact ⟨s.witness, by simp, fun a => by simp [WorldState.getWitness]⟩
  | cons addr addrs ih =>
    obtain ⟨hnew, hnodup⟩ := List.nodup_cons.mp hnodup
    rw [List.foldl_cons, List.filterMap_cons]
    cases hw : s.getWitness addr with
    | none =>
      have hscore : score tally s addr = none := by rw [score, hw]; rfl
      have hround : scoreWitness tally (s, scored) addr = (s, scored) := by simp only [scoreWitness, hw]
      obtain ⟨records, hfold, hget⟩ := ih hnodup s scored
      refine ⟨records, by rw [hround, hfold, hscore], fun a => ?_⟩; rw [hget]
      by_cases ha : a = addr
      · rw [ha, hw]; simp
      · simp [ha]
    | some w =>
      have hscore : score tally s addr = some (addr.asBytes, (w.counted tally addr.asBytes).voteCount) := by
        rw [score, hw]; rfl
      -- the records of the other addresses are as before
      have hother : ∀ a, a ≠ addr → WorldState.getWitness
          { s with witness := s.witness.put addr.asBytes (w.counted tally addr.asBytes) } a = s.getWitness a :=
        fun a ha => get_put_of_ne fun heq => ha (Address.asBytes_injective heq)
      obtain ⟨records, hfold, hget⟩ := ih hnodup
        { s with witness := s.witness.put addr.asBytes (w.counted tally addr.asBytes) }
        (scored ++ [(addr.asBytes, (w.counted tally addr.asBytes).voteCount)])
      rw [score_congr fun a ha => hother a fun heq => hnew (heq ▸ ha)] at hfold
      have hround : scoreWitness tally (s, scored) addr =
          ({ s with witness := s.witness.put addr.asBytes (w.counted tally addr.asBytes) },
            scored ++ [(addr.asBytes, (w.counted tally addr.asBytes).voteCount)]) := by
        simp only [scoreWitness, hw]
      refine ⟨records, by rw [hround, hfold, hscore]; simp, fun a => ?_⟩
      rw [hget]
      by_cases ha : a = addr
      · subst ha; rw [if_neg hnew, if_pos List.mem_cons_self, hw]; exact get_put_self ..
      · rw [hother a ha]; simp [ha]

/-- A cycle adds the tally to the count of every listed witness, and ranks them by the sums. -/
lemma runMaintenance_eq {s : WorldState} {witnessAddrs : List Address} (hnodup : witnessAddrs.Nodup)
    (voterAddrs : List Address) : ∃ records, runMaintenance s witnessAddrs voterAddrs =
        (activeSet (witnessAddrs.filterMap (score (s.tally voterAddrs) s)), { s with
            witness := records
            activeWitnesses := (activeSet (witnessAddrs.filterMap (score (s.tally voterAddrs) s))).filterMap
              Address.ofBytes }) ∧
      ∀ a, records.get a.asBytes =
        if a ∈ witnessAddrs then (s.getWitness a).map (Witness.counted (s.tally voterAddrs) a.asBytes)
        else s.getWitness a := by
  obtain ⟨records, hfold, hget⟩ := foldl_scoreWitness (s.tally voterAddrs) hnodup s []
  refine ⟨records, ?_, hget⟩; rw [runMaintenance, hfold, List.nil_append]; rfl

lemma Witness.counted_eq_self {key : Bytes} {w : Witness}
    (h : (tally.get key).getD 0 = 0) : w.counted tally key = w := by
  rw [counted, h, Int64.add_zero]

/-- **When maintenance reflects the votes.** A second cycle leaves the vote counts, the ranking and the active set as
the first one left them exactly when the votes for every listed witness that has a record add up to zero. -/
theorem maintenance_settles_iff (s : WorldState) {witnessAddrs : List Address} (hnodup : witnessAddrs.Nodup)
    (voterAddrs : List Address) {ranking ranking' : List Bytes} {first second : WorldState}
    (h1 : runMaintenance s witnessAddrs voterAddrs = (ranking, first))
    (h2 : runMaintenance first witnessAddrs voterAddrs = (ranking', second)) :
    ((∀ a, (second.getWitness a).map Witness.voteCount = (first.getWitness a).map Witness.voteCount) ∧
        ranking' = ranking ∧ second.activeWitnesses = first.activeWitnesses) ↔
      ∀ a ∈ witnessAddrs, s.witnessExists a = true → ((s.tally voterAddrs).get a.asBytes).getD 0 = 0 := by
  obtain ⟨records, heq1, hget1⟩ := runMaintenance_eq (s := s) hnodup voterAddrs
  cases h1.symm.trans heq1; obtain ⟨records', heq2, hget2⟩ := runMaintenance_eq hnodup voterAddrs
  cases h2.symm.trans heq2
  constructor
  · intro h a ha hex; obtain ⟨w, hw⟩ := Option.isSome_iff_exists.mp hex
    have hcount := h.1 a
    have hfirst : records.get a.asBytes = some (w.counted (s.tally voterAddrs) a.asBytes) := by
      rw [hget1, if_pos ha, show s.getWitness a = some w from hw]; rfl
    have hsecond : records'.get a.asBytes =
        some ((w.counted (s.tally voterAddrs) a.asBytes).counted (s.tally voterAddrs) a.asBytes) := by
      rw [hget2, if_pos ha, WorldState.getWitness, hfirst]; rfl
    rw [WorldState.getWitness, WorldState.getWitness, hfirst, hsecond] at hcount
    have hsum : w.voteCount + ((s.tally voterAddrs).get a.asBytes).getD 0 +
        ((s.tally voterAddrs).get a.asBytes).getD 0 = w.voteCount + ((s.tally voterAddrs).get a.asBytes).getD 0 :=
      Option.some.inj hcount
    exact Int64.add_eq_left.mp hsum
  · intro h
    have hsame : ∀ a ∈ witnessAddrs,
        (s.getWitness a).map (Witness.counted (s.tally voterAddrs) a.asBytes) = s.getWitness a := by
      intro a ha
      cases hw : s.getWitness a with
      | none => rfl
      | some w =>
        have hex : s.witnessExists a = true := by
          rw [WorldState.witnessExists, show s.witness.get a.asBytes = some w from hw]; rfl
        rw [Option.map_some, Witness.counted_eq_self (h a ha hex)]
    -- the first cycle changes no record, so the second starts from the same ones
    have hkept : ∀ a, records.get a.asBytes = s.getWitness a := by
      intro a; rw [hget1]
      split
      · exact hsame a ‹_›
      · rfl
    have hscores : witnessAddrs.filterMap (score (s.tally voterAddrs) { s with
        witness := records
        activeWitnesses := (activeSet (witnessAddrs.filterMap (score (s.tally voterAddrs) s))).filterMap
          Address.ofBytes }) = witnessAddrs.filterMap (score (s.tally voterAddrs) s) :=
      score_congr fun a _ => hkept a
    refine ⟨fun a => ?_, congrArg activeSet hscores,
      congrArg (fun scores => (activeSet scores).filterMap Address.ofBytes) hscores⟩
    show (records'.get a.asBytes).map Witness.voteCount = (records.get a.asBytes).map Witness.voteCount
    have hsecond : records'.get a.asBytes = if a ∈ witnessAddrs then
        (records.get a.asBytes).map (Witness.counted (s.tally voterAddrs) a.asBytes) else records.get a.asBytes :=
      hget2 a
    rw [hsecond, hkept]
    split
    · rw [hsame a ‹_›]
    · rfl

/-- One witness with 3 votes from earlier, and one voter with the given votes. -/
def electorate (votes : List Vote) : WorldState where
  witness := (∅ : Column Bytes Witness).put (Address.ofNat 0xaa).asBytes { voteCount := 3 }
  account := (∅ : Column Address Account).put (Address.ofNat 0xbb) { votes }

/-- The voter votes for somebody who is not listed. -/
theorem maintenance_settles_iff_elsewhere : ∃ first second,
    runMaintenance (electorate [⟨(Address.ofNat 0xcc).asBytes, 5⟩]) [Address.ofNat 0xaa] [Address.ofNat 0xbb] =
      ([(Address.ofNat 0xaa).asBytes], first) ∧
    runMaintenance first [Address.ofNat 0xaa] [Address.ofNat 0xbb] = ([(Address.ofNat 0xaa).asBytes], second) ∧
    (second.getWitness (Address.ofNat 0xaa)).map Witness.voteCount =
      (first.getWitness (Address.ofNat 0xaa)).map Witness.voteCount := by
  have hranking : ∀ s, (runMaintenance s [Address.ofNat 0xaa] [Address.ofNat 0xbb]).1 =
      [(Address.ofNat 0xaa).asBytes] → runMaintenance s [Address.ofNat 0xaa] [Address.ofNat 0xbb] =
        ([(Address.ofNat 0xaa).asBytes], (runMaintenance s [Address.ofNat 0xaa] [Address.ofNat 0xbb]).2) := by
    intro s h; rw [← h]
  have h1 := hranking (electorate [⟨(Address.ofNat 0xcc).asBytes, 5⟩]) (by decide +kernel)
  have h2 := hranking (runMaintenance (electorate [⟨(Address.ofNat 0xcc).asBytes, 5⟩]) [Address.ofNat 0xaa]
    [Address.ofNat 0xbb]).2 (by decide +kernel)
  have hzero : ∀ a ∈ [Address.ofNat 0xaa], (electorate [⟨(Address.ofNat 0xcc).asBytes, 5⟩]).witnessExists a = true →
        (((electorate [⟨(Address.ofNat 0xcc).asBytes, 5⟩]).tally [Address.ofNat 0xbb]).get a.asBytes).getD 0 = 0 := by
    decide +kernel
  exact ⟨_, _, h1, h2, ((maintenance_settles_iff _ (by decide) _ h1 h2).mpr hzero).1 _⟩

/-- Five votes for the witness are counted in the first cycle and once more in the second. -/
theorem votes_counted_twice : ∃ s witnessAddrs voterAddrs, witnessAddrs.Nodup ∧ voterAddrs.Nodup ∧
    ((runMaintenance s witnessAddrs voterAddrs).2.getWitness (Address.ofNat 0xaa)).map Witness.voteCount = some 8 ∧
    ((runMaintenance (runMaintenance s witnessAddrs voterAddrs).2 witnessAddrs voterAddrs).2.getWitness
      (Address.ofNat 0xaa)).map Witness.voteCount = some 13 :=
  ⟨electorate [⟨(Address.ofNat 0xaa).asBytes, 5⟩], [Address.ofNat 0xaa], [Address.ofNat 0xbb], by decide, by decide,
    by decide +kernel, by decide +kernel⟩

end TronRs

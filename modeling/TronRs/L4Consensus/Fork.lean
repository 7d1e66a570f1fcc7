import TronRs.Core.Bytes
import TronRs.Core.I64

/-!
# Fork choice and reorganisation

`crates/consensus/src/fork.rs`: which of two heads is canonical, and what to take back and to
apply to get from one chain to another.

* `computeReorg_spec`: taking back and applying leads from our chain to theirs, and they part at
  the first difference.
* `fork_choice`: the head that is followed in the end is the longest chain with the greatest
  weight, in whatever order the heads arrive.
-/
namespace TronRs

open TronRs.Core

/-! ## The canonical head -/

/-- Mirrors consensus/fork.rs:11. -/
structure Head where
  number : Int64
  weight : UInt64
  deriving DecidableEq

/-- Mirrors consensus/fork.rs:20. -/
def shouldSwitch (current candidate : Head) : Bool :=
  match compare candidate.number current.number with
  | .gt => true
  | .lt => false
  | .eq => current.weight < candidate.weight

/-- The head after a candidate has arrived; the first one is taken as it is. -/
def arrive (current : Option Head) (candidate : Head) : Option Head :=
  match current with
  | none => some candidate
  | some current => if shouldSwitch current candidate then some candidate else some current

/-- The head after the candidates have arrived in this order. -/
def followHeads (order : List Head) : Option Head := order.foldl arrive none

/-! ## Reorganisation -/

/-- Mirrors consensus/fork.rs:31. -/
structure Reorg where
  commonAncestor : Bytes
  revert : List Bytes
  apply : List Bytes
  deriving DecidableEq

/-- The loop of `compute_reorg`, after `fork` equal ids. -/
def forkFrom (fork : Nat) : List Bytes → List Bytes → Nat
  | a :: ours, b :: theirs => if a = b then forkFrom (fork + 1) ours theirs else fork
  | _, _ => fork

/-- Mirrors consensus/fork.rs:40. -/
def computeReorg (ours theirs : List Bytes) : Reorg :=
  let fork := forkFrom 0 ours theirs
  { commonAncestor := if fork = 0 then [] else ours.getD (fork - 1) []
    revert := (ours.drop fork).reverse
    apply := theirs.drop fork }

/-- A block is taken back, if it is the last one of the chain. -/
def undo (chain : List Bytes) (id : Bytes) : Option (List Bytes) :=
  if chain.getLast? = some id then some chain.dropLast else none

/-- A reorganisation leads from our chain to theirs, by way of the part that they share. -/
structure Reorg.Connects (r : Reorg) (ours theirs shared : List Bytes) : Prop where
  undone : r.revert.foldlM undo ours = some shared
  applied : shared ++ r.apply = theirs
  startsOurs : shared <+: ours
  startsTheirs : shared <+: theirs
  ancestor : r.commonAncestor = shared.getLast?.getD []
  differ : ∀ x y, ours[shared.length]? = some x → theirs[shared.length]? = some y → x ≠ y

/-- The chains part behind the loop's end: what is before is shared, and what follows differs. -/
lemma forkFrom_spec (ours theirs : List Bytes) (fork : Nat) : ∃ shared mine other,
    ours = shared ++ mine ∧ theirs = shared ++ other ∧ forkFrom fork ours theirs = fork + shared.length ∧
      ∀ x y, mine.head? = some x → other.head? = some y → x ≠ y := by
  fun_induction forkFrom fork ours theirs with
  | case1 fork ours a theirs ih =>
    obtain ⟨shared, mine, other, rfl, rfl, hfork, hdiff⟩ := ih
    refine ⟨a :: shared, mine, other, rfl, rfl, ?_, hdiff⟩; rw [hfork, List.length_cons]; omega
  | case2 fork a ours b theirs hne =>
    refine ⟨[], a :: ours, b :: theirs, rfl, rfl, rfl, ?_⟩; intro x y hx hy; cases hx
    cases hy; exact hne
  | case3 ours fork theirs hend =>
    refine ⟨[], ours, theirs, rfl, rfl, rfl, ?_⟩; intro x y hx hy
    -- one of the chains has ended
    rcases ours with _ | ⟨a, ours⟩
    · cases hx
    · rcases theirs with _ | ⟨b, theirs⟩
      · cases hy
      · exact absurd rfl (hend a ours b theirs rfl)

/-- What is at the end of a chain is taken back newest first. -/
lemma foldlM_undo (shared mine : List Bytes) : mine.reverse.foldlM undo (shared ++ mine) = some shared := by
  induction mine using List.reverseRecOn with
  | nil => simp
  | append_singleton mine id ih =>
    have hundo : undo (shared ++ (mine ++ [id])) id = some (shared ++ mine) := by simp [undo, ← List.append_assoc]
    rw [List.reverse_append, List.reverse_singleton, List.singleton_append, List.foldlM_cons, hundo]
    exact ih

lemma computeReorg_spec (ours theirs : List Bytes) :
    ∃ shared, (computeReorg ours theirs).Connects ours theirs shared := by
  obtain ⟨shared, mine, other, rfl, rfl, hfork, hdiff⟩ := forkFrom_spec ours theirs 0
  rw [Nat.zero_add] at hfork
  have hrevert : (computeReorg (shared ++ mine) (shared ++ other)).revert = mine.reverse := by
    simp [computeReorg, hfork]
  have happly : (computeReorg (shared ++ mine) (shared ++ other)).apply = other := by simp [computeReorg, hfork]
  have hancestor : (computeReorg (shared ++ mine) (shared ++ other)).commonAncestor = shared.getLast?.getD [] := by
    show (if forkFrom 0 (shared ++ mine) (shared ++ other) = 0 then []
      else (shared ++ mine).getD (forkFrom 0 (shared ++ mine) (shared ++ other) - 1) []) = _
    rw [hfork]
    rcases shared.eq_nil_or_concat' with rfl | ⟨front, id, rfl⟩
    · rfl
    · simp
  refine ⟨shared, by rw [hrevert, foldlM_undo], by rw [happly], ⟨mine, rfl⟩, ⟨other, rfl⟩, hancestor, ?_⟩
  intro x y hx hy
  refine hdiff x y ?_ ?_
  · rwa [List.getElem?_append_right le_rfl, Nat.sub_self, ← List.head?_eq_getElem?] at hx
  · rwa [List.getElem?_append_right le_rfl, Nat.sub_self, ← List.head?_eq_getElem?] at hy

/-! ## The order of heads -/

/-- Heads are ordered by their number, and then by their weight. -/
def Head.rank (h : Head) : Int ×ₗ Nat := toLex (h.number.toInt, h.weight.toNat)

lemma Head.rank_injective : Function.Injective Head.rank := by
  intro a b h; have hpair := congrArg ofLex h; simp only [rank, ofLex_toLex, Prod.mk.injEq] at hpair
  rcases a with ⟨number, weight⟩
  rcases b with ⟨number', weight'⟩
  rw [Head.mk.injEq]; exact ⟨toInt_inj.mp hpair.1, UInt64.toNat_inj.mp hpair.2⟩

/-- The node switches to a head of a higher rank. -/
lemma shouldSwitch_iff {current candidate : Head} :
    shouldSwitch current candidate = true ↔ current.rank < candidate.rank := by
  rw [Head.rank, Head.rank, Prod.Lex.toLex_lt_toLex]; unfold shouldSwitch
  rw [show compare candidate.number current.number = compareOfLessAndEq candidate.number current.number from rfl]
  unfold compareOfLessAndEq; simp only [lt_iff_toInt_lt, ← toInt_inj]
  split_ifs with h1 h2
  · simp; omega
  · simp [h2, UInt64.lt_iff_toNat_lt]
  · simp; omega

lemma followHeads_eq_argmax (order : List Head) : followHeads order = order.argmax Head.rank := by
  refine List.foldl_ext _ _ _ fun current candidate _ => ?_
  cases current with
  | none => rfl
  | some => simp [arrive, List.argAux, shouldSwitch_iff]

/-- **Fork choice and reorganisation.** Taking our blocks back, newest first, and applying theirs gives their chain; the
chains agree up to the common ancestor and differ behind it. Of any candidates there is one that none of the others
replaces, and it is the head in the end, whatever the order in which they arrive. -/
theorem fork_choice (ours theirs : List Bytes) {candidates : Finset Head} (hne : candidates.Nonempty) :
    (∃ shared, (computeReorg ours theirs).Connects ours theirs shared) ∧
      ∃ best ∈ candidates, (∀ c ∈ candidates, shouldSwitch best c = false) ∧
        ∀ order : List Head, order.toFinset = candidates → followHeads order = some best := by
  refine ⟨computeReorg_spec ours theirs, ?_⟩
  obtain ⟨best, hbest, hmax⟩ := candidates.exists_max_image Head.rank hne
  refine ⟨best, hbest, fun c hc => ?_, fun order horder => ?_⟩
  · rw [Bool.eq_false_iff, ne_eq, shouldSwitch_iff]; exact (hmax c hc).not_gt
  have hmem : ∀ h, h ∈ order ↔ h ∈ candidates := fun h => by rw [← horder, List.mem_toFinset]
  rw [followHeads_eq_argmax]
  cases hhead : order.argmax Head.rank with
  | none =>
    rw [List.argmax_eq_none] at hhead; rw [hhead] at hmem
    exact absurd ((hmem best).mpr hbest) (by simp)
  | some head =>
    -- both are of the highest rank
    have hup := List.le_of_mem_argmax ((hmem best).mpr hbest) hhead
    have hdown := hmax head ((hmem head).mp (List.argmax_mem hhead))
    rw [Head.rank_injective (le_antisymm hdown hup)]

/-- Chains that part behind their first block, and three heads in two orders. -/
theorem fork_choice_three : computeReorg [[1], [2]] [[1], [3], [4]] = ⟨[1], [[2]], [[3], [4]]⟩ ∧
    (∃ shared, (computeReorg [[1], [2]] [[1], [3], [4]]).Connects [[1], [2]] [[1], [3], [4]] shared) ∧
    followHeads [⟨1, 9⟩, ⟨2, 5⟩, ⟨2, 7⟩] = followHeads [⟨2, 7⟩, ⟨1, 9⟩, ⟨2, 5⟩, ⟨1, 9⟩] := by
  have hne : ({⟨1, 9⟩, ⟨2, 5⟩, ⟨2, 7⟩} : Finset Head).Nonempty := by simp
  obtain ⟨hreorg, best, -, -, horder⟩ := fork_choice [[1], [2]] [[1], [3], [4]] hne
  exact ⟨by decide, hreorg, by rw [horder _ (by decide), horder _ (by decide)]⟩

end TronRs

import Mathlib

/-!
# Binary hash trees over a list of leaves

The root of a list of leaves is computed level by level: neighbours are joined, and an odd last
node is carried up unchanged. By structure the same root joins the root of the first `split n`
leaves with the root of the others, where `split n` is the largest power of two below the number
of leaves.

* `up_eq_tree`: the two roots are equal, for every list.
* `up_injective`: lists of one length with one root are equal, unless two different pairs that are
  joined on the way have the same parent.
-/
namespace TronRs.Core.Merkle

/-! ## Where a tree splits -/

/-- The largest power of two below `n`, from two on. -/
def split (n : Nat) : Nat := 2 ^ Nat.log 2 (n - 1)

lemma split_pos (n : Nat) : 0 < split n := Nat.two_pow_pos _

variable {n : Nat}

lemma split_lt (h : 2 ≤ n) : split n < n := by
  have hle : split n ≤ n - 1 := Nat.pow_log_le_self 2 (by omega)
  omega

/-- There is no power of two between `split n` and `n`. -/
lemma le_split_of_pow_lt {j : Nat} (h : 2 ^ j < n) : 2 ^ j ≤ split n :=
  Nat.pow_le_pow_right (by decide) (Nat.le_log_of_pow_le (by decide) (by omega))

/-- A level further up, the tree splits at half the place. -/
lemma split_eq_two_mul (h : 3 ≤ n) : split n = 2 * split ((n + 1) / 2) := by
  have hhalf : (n + 1) / 2 - 1 = (n - 1) / 2 := by omega
  unfold split
  rw [Nat.log_of_one_lt_of_le (by decide) (by omega : 2 ≤ n - 1), hhalf, Nat.pow_succ, Nat.mul_comm]

variable {α : Type} (node : α → α → α) (zero : α)

/-! ## Level by level -/

/-- Neighbours are joined, an odd last node is carried up. -/
def level : List α → List α
  | l :: r :: rest => node l r :: level rest
  | rest => rest

/-- The neighbours that a level joins. -/
def pairs : List α → List (α × α)
  | l :: r :: rest => (l, r) :: pairs rest
  | _ => []

/-- The root after at most `fuel` levels. -/
def up : Nat → List α → α
  | _, [] => zero
  | _, [a] => a
  | 0, a :: _ => a
  | fuel + 1, leaves => up fuel (level node leaves)

/-- All pairs that are joined on the way up. -/
def joined : Nat → List α → List (α × α)
  | 0, _ => []
  | fuel + 1, leaves => pairs leaves ++ joined fuel (level node leaves)

lemma length_level (leaves : List α) : (level node leaves).length = (leaves.length + 1) / 2 := by
  fun_induction level node leaves with
  | case1 l r rest ih =>
    simp only [List.length_cons, ih]; omega
  | case2 rest hshort =>
    -- fewer than two nodes are left
    rcases rest with _ | ⟨a, _ | ⟨b, rest⟩⟩
    · simp
    · simp
    · exact absurd rfl (hshort a b rest)

/-- An even number of nodes is joined without what comes after. -/
lemma level_append {k : Nat} : ∀ {left : List α} (right : List α), left.length = 2 * k →
    level node (left ++ right) = level node left ++ level node right := by
  induction k with
  | zero =>
    intro left right h; obtain rfl := List.length_eq_zero_iff.mp h; rfl
  | succ k ih =>
    intro left right h; obtain ⟨a, left, rfl⟩ := List.exists_cons_of_length_pos (l := left) (by omega)
    rw [List.length_cons] at h
    obtain ⟨b, left, rfl⟩ := List.exists_cons_of_length_pos (l := left) (by omega)
    rw [List.length_cons] at h; have hrest := ih right (show left.length = 2 * k by omega)
    simp only [List.cons_append, level, hrest]

/-! ## By structure -/

/-- The root of the first `split n` leaves joined with the root of the others. -/
def tree : List α → α
  | [] => zero
  | [a] => a
  | a :: b :: rest =>
    let k := split (rest.length + 2)
    node (tree ((a :: b :: rest).take k)) (tree ((a :: b :: rest).drop k))
termination_by leaves => leaves.length
decreasing_by
  · have := split_lt (show 2 ≤ rest.length + 2 by omega)
    simp only [List.length_take, List.length_cons]
    omega
  · have := split_pos (rest.length + 2)
    simp only [List.length_drop, List.length_cons]
    omega

lemma tree_of_two_le {leaves : List α} (h : 2 ≤ leaves.length) :
    tree node zero leaves = node (tree node zero (leaves.take (split leaves.length)))
      (tree node zero (leaves.drop (split leaves.length))) := by
  rcases leaves with _ | ⟨a, _ | ⟨b, rest⟩⟩
  · simp at h
  · simp at h
  · rw [tree]; rfl

lemma tree_singleton (a : α) : tree node zero [a] = a := by rw [tree]

lemma tree_pair (a b : α) : tree node zero [a, b] = node a b := by
  rw [tree_of_two_le node zero (by simp)]; show node (tree node zero [a]) (tree node zero [b]) = _
  rw [tree_singleton, tree_singleton]

lemma tree_level (leaves : List α) : tree node zero (level node leaves) = tree node zero leaves := by
  induction hn : leaves.length using Nat.strongRecOn generalizing leaves with
  | ind n ih =>
    subst hn
    rcases leaves with _ | ⟨a, _ | ⟨b, _ | ⟨c, rest⟩⟩⟩
    · rfl
    · rfl
    · rw [tree_pair]; exact tree_singleton ..
    generalize hl : a :: b :: c :: rest = leaves at ih
    have hlen : 3 ≤ leaves.length := by simp [← hl]
    have hlt := split_lt (show 2 ≤ leaves.length by omega)
    have hpos := split_pos leaves.length
    have hk := split_eq_two_mul hlen
    -- the level is cut where the leaves are cut
    have htake : (leaves.take (split leaves.length)).length = 2 * split ((leaves.length + 1) / 2) := by
      rw [List.length_take]; omega
    have hcut : (level node (leaves.take (split leaves.length))).length = split ((leaves.length + 1) / 2) := by
      rw [length_level, htake]; omega
    have hlevel : level node leaves =
        level node (leaves.take (split leaves.length)) ++ level node (leaves.drop (split leaves.length)) := by
      rw [← level_append node _ htake, List.take_append_drop]
    have hleft := ih (leaves.take (split leaves.length)).length (by rw [List.length_take]; omega) _ rfl
    have hright := ih (leaves.drop (split leaves.length)).length (by rw [List.length_drop]; omega) _ rfl
    rw [tree_of_two_le node zero (by rw [length_level]; omega), length_level, hlevel, List.take_left' hcut,
      List.drop_left' hcut, hleft, hright, ← tree_of_two_le node zero (by omega)]

variable (fuel : Nat)

/-- Level by level and by structure the root is the same. -/
lemma up_eq_tree : ∀ leaves : List α, leaves.length ≤ fuel + 1 → up node zero fuel leaves = tree node zero leaves := by
  induction fuel with
  | zero =>
    intro leaves h
    rcases leaves with _ | ⟨a, _ | ⟨b, rest⟩⟩
    · rw [up, tree]
    · rw [up, tree]
    · simp at h
  | succ fuel ih =>
    intro leaves h
    rcases leaves with _ | ⟨a, _ | ⟨b, rest⟩⟩
    · rw [up, tree]
    · rw [up, tree]
    · show up node zero fuel (level node (a :: b :: rest)) = _
      rw [ih _ (by rw [length_level]; simp only [List.length_cons] at h ⊢; omega), tree_level]

/-! ## Binding -/

/-- Two different pairs of the one list and the other have different parents. -/
def NoCollision (ps qs : List (α × α)) : Prop := ∀ p ∈ ps, ∀ q ∈ qs, node p.1 p.2 = node q.1 q.2 → p = q

/-- At a fixed length, a level tells what it was made of. -/
lemma level_injective {xs ys : List α} (hlen : xs.length = ys.length)
    (hinj : NoCollision node (pairs xs) (pairs ys)) (h : level node xs = level node ys) : xs = ys := by
  fun_induction level node xs generalizing ys with
  | case1 a b xs ih =>
    rcases ys with _ | ⟨c, _ | ⟨d, ys⟩⟩
    · simp at hlen
    · simp at hlen
    simp only [level, List.cons.injEq] at h
    have hpair : (a, b) = (c, d) := hinj _ List.mem_cons_self _ List.mem_cons_self h.1
    have hrest : xs = ys := ih (by simpa using hlen)
      (fun p hp q hq => hinj p (List.mem_cons_of_mem _ hp) q (List.mem_cons_of_mem _ hq)) h.2
    cases hpair; rw [hrest]
  | case2 xs hshort =>
    -- with fewer than two nodes the level is the list itself
    rcases ys with _ | ⟨c, _ | ⟨d, ys⟩⟩
    · exact h
    · exact h
    rcases xs with _ | ⟨a, _ | ⟨b, xs⟩⟩
    · simp at hlen
    · simp at hlen
    · exact absurd rfl (hshort a b xs)

/-- At a fixed length, the root tells the leaves. -/
lemma up_injective : ∀ {xs ys : List α}, xs.length = ys.length → xs.length ≤ fuel + 1 →
    NoCollision node (joined node fuel xs) (joined node fuel ys) →
      up node zero fuel xs = up node zero fuel ys → xs = ys := by
  induction fuel with
  | zero =>
    intro xs ys hlen hfuel _ h
    rcases xs with _ | ⟨a, _ | ⟨b, xs⟩⟩
    · exact (List.length_eq_zero_iff.mp hlen.symm).symm
    · obtain ⟨c, rfl⟩ := List.length_eq_one_iff.mp hlen.symm
      exact congrArg (fun x => [x]) h
    · simp at hfuel
  | succ fuel ih =>
    intro xs ys hlen hfuel hinj h
    rcases xs with _ | ⟨a, _ | ⟨b, xs⟩⟩
    · exact (List.length_eq_zero_iff.mp hlen.symm).symm
    · obtain ⟨c, rfl⟩ := List.length_eq_one_iff.mp hlen.symm
      exact congrArg (fun x => [x]) h
    rcases ys with _ | ⟨c, _ | ⟨d, ys⟩⟩
    · simp at hlen
    · simp at hlen
    -- the levels above are equal, and they tell the leaves
    have habove : level node (a :: b :: xs) = level node (c :: d :: ys) := by
      refine ih ?_ ?_ (fun p hp q hq => ?_) h
      · rw [length_level, length_level, hlen]
      · rw [length_level]; simp only [List.length_cons] at hfuel ⊢; omega
      · exact hinj p (List.mem_append_right _ hp) q (List.mem_append_right _ hq)
    exact level_injective node hlen
      (fun p hp q hq => hinj p (List.mem_append_left _ hp) q (List.mem_append_left _ hq)) habove

end TronRs.Core.Merkle

import Mathlib

/-!
# The most recent entries of a history

A bounded list of entries with distinct keys, the least recently used one first. Using an entry
moves it to the end; a new entry takes a free place, or that of the first one.

* `Recent.touch`: the list holds the most recent distinct keys of its history, in the order of their
  last use, each with the entry of its last use.
-/
namespace TronRs.Core

/-! ## The last places of a list -/

section
variable {κ : Type} {keys : List κ} {size : Nat}

lemma tail_rtake (h : size + 1 ≤ keys.length) : (keys.rtake (size + 1)).tail = keys.rtake size := by
  unfold List.rtake; rw [List.tail_drop]; congr 1
  omega

lemma rtake_of_length_le (h : keys.length ≤ size) : keys.rtake size = keys := by
  unfold List.rtake; rw [Nat.sub_eq_zero_of_le h, List.drop_zero]

lemma length_rtake (keys : List κ) (size : Nat) : (keys.rtake size).length = min size keys.length := by
  unfold List.rtake; rw [List.length_drop]; omega

end

variable {α κ : Type} [DecidableEq κ] (key : α → κ)

/-! ## Using an entry -/

/-- The entry of the last use of a key. -/
def lastUse (history : List α) (k : κ) : Option α := history.reverse.find? (key · = k)

/-- An entry is used: it becomes the last one, in a list of at most `size` entries. -/
def touch (size : Nat) (entries : List α) (x : α) : List α :=
  if entries.any (key · = key x) then entries.eraseP (key · = key x) ++ [x]
  else if entries.length < size then entries ++ [x]
  else entries.tail ++ [x]

/-- The entries hold the `size` keys used last, the oldest first, and all keys as long as there are not more. -/
structure Recent (size : Nat) (history entries : List α) : Prop where
  keys : entries.map key = (history.map key).dedup.rtake size
  last : ∀ x ∈ entries, lastUse key history (key x) = some x

/-! ## The keys in the order of their last use -/

/-- A use moves its key to the end. -/
lemma dedup_concat (keys : List κ) (k : κ) : (keys ++ [k]).dedup = keys.dedup.filter (· ≠ k) ++ [k] := by
  induction keys with
  | nil => simp
  | cons j keys ih =>
    rw [List.cons_append]
    by_cases hj : j ∈ keys
    · rw [List.dedup_cons_of_mem (List.mem_append_left _ hj), List.dedup_cons_of_mem hj, ih]
    rw [List.dedup_cons_of_notMem hj]
    by_cases hk : j = k
    · subst hk; rw [List.dedup_cons_of_mem (by simp), ih, List.filter_cons_of_neg (by simp)]
    · rw [List.dedup_cons_of_notMem (by simp [hj, hk]), ih, List.filter_cons_of_pos (by simpa using hk),
        List.cons_append]

lemma lastUse_concat (history : List α) (x : α) (k : κ) :
    lastUse key (history ++ [x]) k = if key x = k then some x else lastUse key history k := by
  unfold lastUse; rw [List.reverse_append]; show List.find? _ (x :: history.reverse) = _
  rw [List.find?_cons]
  split
  · rename_i h; rw [if_pos (by simpa using h)]
  · rename_i h; rw [if_neg (by simpa using h)]

/-- When one key is left out of a list without repetitions, the last places hold the key before them if it was one of
theirs. -/
lemma rtake_filter_ne {keys : List κ} (hnodup : keys.Nodup) (size : Nat) (k : κ) : (keys.filter (· ≠ k)).rtake size =
      if k ∈ keys.rtake (size + 1) then (keys.rtake (size + 1)).erase k else keys.rtake size := by
  induction keys using List.reverseRecOn generalizing size with
  | nil => simp
  | append_singleton keys j ih =>
    obtain ⟨hkeys, -, hj⟩ := List.nodup_append.mp hnodup
    have hlast : j ∉ keys := fun hmem => hj j hmem j (List.mem_singleton_self j) rfl
    rw [List.filter_append, List.rtake_concat_succ]
    by_cases hk : j = k
    · -- the key is the last one, and so in no other place
      subst hk
      have hrest : keys.filter (· ≠ j) = keys := by
        refine List.filter_eq_self.mpr fun i hi => ?_
        simpa using fun heq : i = j => hlast (heq ▸ hi)
      have hout : j ∉ keys.rtake size := fun hmem => hlast (List.mem_of_mem_drop hmem)
      rw [hrest, if_pos (by simp), List.erase_append_right _ hout]; simp
    · have hone : [j].filter (· ≠ k) = [j] := by simp [hk]
      rw [hone]
      cases size with
      | zero => simp [Ne.symm hk]
      | succ size =>
        rw [List.rtake_concat_succ, List.rtake_concat_succ, ih hkeys]
        by_cases hmem : k ∈ keys.rtake (size + 1)
        · rw [if_pos hmem, if_pos (List.mem_append_left _ hmem), List.erase_append_left _ hmem]
        · rw [if_neg hmem, if_neg (by simp [hmem, Ne.symm hk])]

/-! ## What a use leaves -/

/-- What is used comes last, after entries that have been there. -/
lemma touch_eq (size : Nat) (entries : List α) (x : α) :
    ∃ front, front ⊆ entries ∧ touch key size entries x = front ++ [x] := by
  unfold touch
  split
  · exact ⟨_, List.eraseP_subset, rfl⟩
  · split
    · exact ⟨_, fun _ h => h, rfl⟩
    · exact ⟨_, List.tail_subset _, rfl⟩

variable {key}

lemma map_touch {size : Nat} {entries : List α} {keys : List κ} (hnodup : keys.Nodup)
    (h : entries.map key = keys.rtake (size + 1)) (x : α) :
    (touch key (size + 1) entries x).map key = (keys.filter (· ≠ key x)).rtake size ++ [key x] := by
  have hmem : entries.any (key · = key x) = true ↔ key x ∈ keys.rtake (size + 1) := by
    rw [← h, List.any_eq_true, List.mem_map]; simp
  have hlen : entries.length = min (size + 1) keys.length := by rw [← length_rtake, ← h, List.length_map]
  rw [rtake_filter_ne hnodup]; unfold touch
  split
  · rename_i hany
    rw [if_pos (hmem.mp hany), List.map_append, ← h, List.erase_eq_eraseP, List.eraseP_map]
    simp [Function.comp_def, eq_comm, beq_eq_decide]
  · rename_i hany; rw [if_neg fun hin => hany (hmem.mpr hin)]
    split
    · -- there is room, so all keys are in the list
      rw [List.map_append, h, rtake_of_length_le (by omega), rtake_of_length_le (by omega)]; rfl
    · rw [List.map_append, List.map_tail, h, tail_rtake (by omega)]; rfl

/-- **Recency.** A use keeps the entries the most recent ones, of the history with this use. -/
theorem Recent.touch {size : Nat} {history entries : List α} (h : Recent key size history entries) (hsize : 0 < size)
    (x : α) : Recent key size (history ++ [x]) (touch key size entries x) := by
  obtain ⟨size, rfl⟩ := Nat.exists_eq_succ_of_ne_zero hsize.ne'
  have hkeys : (Core.touch key (size + 1) entries x).map key = ((history ++ [x]).map key).dedup.rtake (size + 1) := by
    rw [map_touch (List.nodup_dedup _) h.keys, List.map_append, List.map_singleton, dedup_concat,
      List.rtake_concat_succ]
  refine ⟨hkeys, fun y hy => ?_⟩; obtain ⟨front, hfront, heq⟩ := touch_eq key (size + 1) entries x
  rw [lastUse_concat]; rw [heq] at hy hkeys
  rcases List.mem_append.mp hy with hy | hy
  · -- the keys are distinct, so the others have not been used now
    have hnodup : ((front ++ [x]).map key).Nodup := by
      rw [hkeys]; exact (List.nodup_dedup _).sublist (List.drop_sublist _ _)
    rw [List.map_append, List.nodup_append] at hnodup
    have hne : key x ≠ key y := fun hxy =>
      hnodup.2.2 (key y) (List.mem_map_of_mem hy) (key x) (List.mem_singleton_self _) hxy.symm
    rw [if_neg hne]; exact h.last y (hfront hy)
  · rw [List.mem_singleton.mp hy, if_pos rfl]

end TronRs.Core

import Mathlib

/-!
# Binary search

`slice::binary_search_by` of the standard library: the part of the slice that may hold the element is
halved down to one place, and only that place is compared for equality.

* `binarySearchBy_eq`: where all elements are below or above, the search ends between the two.
-/
namespace TronRs.Core

variable {α : Type} (cmp : α → Ordering)

/-- The loop: `size` places from `base` on are left. -/
def narrow (l : List α) (base size : Nat) : Nat :=
  if size ≤ 1 then base
  else narrow l (if l[base + size / 2]?.map cmp = some .gt then base else base + size / 2) (size - size / 2)
termination_by size

/-- The place of an equal element, or else the place where one can be inserted. -/
def binarySearchBy (l : List α) : Except Nat Nat :=
  let base := narrow cmp l 0 l.length
  match l[base]?.map cmp with
  | none => .error 0
  | some .eq => .ok base
  | some .lt => .error (base + 1)
  | some .gt => .error base

variable {cmp} {front back : List α}

variable (hlt : ∀ x ∈ front, cmp x = .lt)
include hlt

lemma map_cmp_eq (hgt : ∀ x ∈ back, cmp x = .gt) {i : Nat} (hi : i < front.length + back.length) :
    (front ++ back)[i]?.map cmp = some (if i < front.length then .lt else .gt) := by
  split
  · rename_i h
    rw [List.getElem?_append_left h, List.getElem?_eq_getElem h, Option.map_some, hlt _ (List.getElem_mem h)]
  · rename_i h
    have hi' : i - front.length < back.length := by omega
    rw [List.getElem?_append_right (by omega), List.getElem?_eq_getElem hi', Option.map_some,
      hgt _ (List.getElem_mem hi')]

/-- The place that is left is the last one below, if there is any. -/
lemma narrow_spec (hgt : ∀ x ∈ back, cmp x = .gt) (base size : Nat)
    (hsize : 0 < size) (hbase : base = 0 ∨ base < front.length) (hle : front.length ≤ base + size)
    (hroom : base + size ≤ front.length + back.length) :
    narrow cmp (front ++ back) base size < front.length + back.length ∧
      (narrow cmp (front ++ back) base size = 0 ∨ narrow cmp (front ++ back) base size < front.length) ∧
      front.length ≤ narrow cmp (front ++ back) base size + 1 := by
  induction size using Nat.strongRecOn generalizing base with
  | ind size ih =>
    rw [narrow]
    split
    · exact ⟨by omega, hbase, by omega⟩
    rw [map_cmp_eq hlt hgt (by omega)]
    by_cases hmid : base + size / 2 < front.length
    · rw [if_pos hmid, if_neg (by simp)]
      exact ih _ (by omega) _ (by omega) (.inr hmid) (by omega) (by omega)
    · rw [if_neg hmid, if_pos rfl]; exact ih _ (by omega) _ (by omega) hbase (by omega) (by omega)

lemma binarySearchBy_eq (hgt : ∀ x ∈ back, cmp x = .gt) : binarySearchBy cmp (front ++ back) = .error front.length := by
  unfold binarySearchBy; dsimp only
  by_cases hlen : front.length + back.length = 0
  · have hf : front = [] := List.length_eq_zero_iff.mp (by omega)
    have hb : back = [] := List.length_eq_zero_iff.mp (by omega)
    rw [hf, hb]; rfl
  · obtain ⟨hbase, hfirst, hle⟩ := narrow_spec hlt hgt 0 (front ++ back).length
      (by rw [List.length_append]; omega) (.inl rfl) (by rw [List.length_append]; omega)
      (by rw [List.length_append]; omega)
    rw [map_cmp_eq hlt hgt hbase]
    by_cases hin : narrow cmp (front ++ back) 0 (front ++ back).length < front.length
    · rw [if_pos hin]; exact congrArg Except.error (by omega)
    · rw [if_neg hin]; exact congrArg Except.error (by omega)

end TronRs.Core

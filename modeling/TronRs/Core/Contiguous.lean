import Mathlib

/-!
# Contiguous prefixes

The largest `m` up to a bound such that a property holds at every one of `1, …, m`: the
shape of every "highest block without a gap" in a chain. `contiguous_iff` replaces the
maximum by what happens at the next index.

`Consecutive` is about lists: the numbers from one bound up to another, each once and in order.
-/
namespace TronRs.Core

/-- `m` is the largest number up to `h` such that `p` holds at `1, …, m`. -/
def Contiguous (p : ℕ → Prop) (h m : ℕ) : Prop := IsGreatest {m | m ≤ h ∧ ∀ k, 1 ≤ k → k ≤ m → p k} m

variable {p q : ℕ → Prop} {h m n : ℕ}

lemma contiguous_iff : Contiguous p h m ↔ m ≤ h ∧ (∀ k, 1 ≤ k → k ≤ m → p k) ∧ (m < h → ¬ p (m + 1)) := by
  constructor
  · rintro ⟨⟨hle, hall⟩, hmax⟩; refine ⟨hle, hall, fun hlt hp => ?_⟩
    have hmem : m + 1 ≤ m := hmax ⟨hlt, fun k hk hkm => ?_⟩
    · omega
    · rcases Nat.lt_or_eq_of_le hkm with hk' | rfl
      · exact hall k hk (by omega)
      · exact hp
  · rintro ⟨hle, hall, hnext⟩; refine ⟨⟨hle, hall⟩, ?_⟩; rintro n ⟨hn, hpn⟩
    by_contra hlt; exact hnext (by omega) (hpn (m + 1) (by omega) (by omega))

/-- Only the indices up to the bound matter. -/
lemma Contiguous.congr (hm : Contiguous p h m) (heq : ∀ k, 1 ≤ k → k ≤ h → (p k ↔ q k)) : Contiguous q h m := by
  rw [contiguous_iff] at hm ⊢; obtain ⟨hle, hall, hnext⟩ := hm
  refine ⟨hle, fun k hk hkm => (heq k hk (hkm.trans hle)).mp (hall k hk hkm), fun hlt hq => ?_⟩
  exact hnext hlt ((heq (m + 1) (by omega) hlt).mpr hq)

/-! ## Consecutive numbers -/

/-- The numbers after `lo` up to `hi`, in order. -/
def Consecutive : ℤ → List ℤ → ℤ → Prop
  | lo, [], hi => lo = hi
  | lo, n :: ns, hi => n = lo + 1 ∧ Consecutive n ns hi

namespace Consecutive

variable {lo mid hi n : ℤ} {ms ns : List ℤ}

lemma append (h : Consecutive lo ms mid) (h' : Consecutive mid ns hi) : Consecutive lo (ms ++ ns) hi := by
  induction ms generalizing lo with
  | nil => obtain rfl : lo = mid := h; exact h'
  | cons n ms ih => exact ⟨h.1, ih h.2⟩

lemma of_append (h : Consecutive lo (ms ++ ns) hi) : ∃ mid, Consecutive lo ms mid ∧ Consecutive mid ns hi := by
  induction ms generalizing lo with
  | nil => exact ⟨lo, rfl, h⟩
  | cons n ms ih => obtain ⟨mid, hms, hns⟩ := ih h.2; exact ⟨mid, ⟨h.1, hms⟩, hns⟩

lemma snoc (h : Consecutive lo ns hi) : Consecutive lo (ns ++ [hi + 1]) (hi + 1) :=
  h.append ⟨rfl, rfl⟩

lemma le (h : Consecutive lo ns hi) : lo ≤ hi := by
  induction ns generalizing lo with
  | nil => exact h.le
  | cons n ns ih =>
    have := ih h.2
    have := h.1; omega

lemma mem_bounds (h : Consecutive lo ns hi) (hn : n ∈ ns) : lo < n ∧ n ≤ hi := by
  obtain ⟨ms, rest, rfl⟩ := List.append_of_mem hn
  obtain ⟨mid, hms, hrest⟩ := h.of_append
  have := hms.le
  have := hrest.1
  have := hrest.2.le; omega

end Consecutive

end TronRs.Core

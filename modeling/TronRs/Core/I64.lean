import Mathlib

/-!
# Checked and saturating arithmetic on 64-bit signed integers

`Int64` already has the wrapping `+`, `-`, `*` of a release build. This file adds
the checked and saturating variants and states each of them over `Int`, so that
callers reason with `omega` and never look at the bit representation.

* `checkedAdd_eq_some`, `checkedSub_eq_some`: a checked operation returns `c`
  exactly when `c` is the exact result.
* `toInt_add_of_fits`, `toInt_sub_of_fits`: the wrapping operations are exact when
  the exact result fits.
-/

/-- A condition on the members of a list is decided along the list. Machine integers are an
enumerable type, and without this a check of a list of them would run over the whole type. -/
instance (priority := 2000) List.decidableForallMem {α : Type} {p : α → Prop} [DecidablePred p] (l : List α) :
    Decidable (∀ x ∈ l, p x) := List.decidableBAll p l

namespace Int64
variable {a b c : Int64} {α : Type} {f : α → Int64}

/-- `x` is representable as a signed 64-bit integer. -/
def Fits (x : Int) : Prop := -2 ^ 63 ≤ x ∧ x < 2 ^ 63

instance (x : Int) : Decidable (Fits x) := inferInstanceAs (Decidable (_ ∧ _))

def checkedAdd (a b : Int64) : Option Int64 :=
  if Fits (a.toInt + b.toInt) then some (a + b) else none

def checkedSub (a b : Int64) : Option Int64 :=
  if Fits (a.toInt - b.toInt) then some (a - b) else none

def checkedMul (a b : Int64) : Option Int64 :=
  if Fits (a.toInt * b.toInt) then some (a * b) else none

/-- Clamps an exact result to the range of `Int64`. -/
def clamp (x : Int) : Int64 :=
  if x < -2 ^ 63 then minValue else if 2 ^ 63 ≤ x then maxValue else ofInt x

def saturatingAdd (a b : Int64) : Int64 := clamp (a.toInt + b.toInt)

def saturatingMul (a b : Int64) : Int64 := clamp (a.toInt * b.toInt)

lemma fits_toInt (a : Int64) : Fits a.toInt := ⟨a.le_toInt, a.toInt_lt⟩

lemma toInt_ofInt_of_fits {x : Int} (h : Fits x) : (ofInt x).toInt = x := by
  obtain ⟨h1, h2⟩ := h; rw [toInt_ofInt, Int.bmod_def]; simp only [size]
  omega

lemma pos_iff : 0 < a ↔ 0 < a.toInt := by rw [lt_iff_toInt_lt, toInt_zero]

lemma toInt_add_of_fits (h : Fits (a.toInt + b.toInt)) : (a + b).toInt = a.toInt + b.toInt := by
  obtain ⟨h1, h2⟩ := h; rw [toInt_add, Int.bmod_def]; omega

lemma toInt_sub_of_fits (h : Fits (a.toInt - b.toInt)) : (a - b).toInt = a.toInt - b.toInt := by
  obtain ⟨h1, h2⟩ := h; rw [toInt_sub, Int.bmod_def]; omega

lemma toInt_mul_of_fits (h : Fits (a.toInt * b.toInt)) : (a * b).toInt = a.toInt * b.toInt := by
  obtain ⟨h1, h2⟩ := h; rw [toInt_mul, Int.bmod_def]; omega

lemma toInt_neg_of_nonneg (h : 0 ≤ a.toInt) : (-a).toInt = -a.toInt := by
  have hlt := a.toInt_lt; rw [toInt_neg, Int.bmod_def]; omega

lemma checkedAdd_eq_some : checkedAdd a b = some c ↔ c.toInt = a.toInt + b.toInt := by
  unfold checkedAdd
  constructor
  · intro h
    split at h
    · rename_i hf; cases h; exact toInt_add_of_fits hf
    · cases h
  · intro h; have hf : Fits (a.toInt + b.toInt) := h ▸ fits_toInt c
    rw [if_pos hf, Option.some.injEq, ← toInt_inj, toInt_add_of_fits hf, h]

lemma checkedSub_eq_some : checkedSub a b = some c ↔ c.toInt = a.toInt - b.toInt := by
  unfold checkedSub
  constructor
  · intro h
    split at h
    · rename_i hf; cases h; exact toInt_sub_of_fits hf
    · cases h
  · intro h; have hf : Fits (a.toInt - b.toInt) := h ▸ fits_toInt c
    rw [if_pos hf, Option.some.injEq, ← toInt_inj, toInt_sub_of_fits hf, h]

lemma checkedAdd_eq_none : checkedAdd a b = none ↔ ¬ Fits (a.toInt + b.toInt) := by
  unfold checkedAdd; split <;> simp_all

lemma exists_checkedAdd : (∃ c, checkedAdd a b = some c) ↔ Fits (a.toInt + b.toInt) := by
  rw [← Option.ne_none_iff_exists', ne_eq, checkedAdd_eq_none, Classical.not_not]

lemma ofNat_toNat_toInt (h : 0 ≤ a.toInt) : ofNat a.toInt.toNat = a := by
  apply Int64.toInt_inj.mp; have hlt := a.toInt_lt; rw [toInt_ofNat_of_lt (by omega)]
  omega

lemma add_ne_self (a : Int64) (hb : b ≠ 0) : a + b ≠ a := by
  intro h; have h1 := congrArg toInt h
  have h2 : b.toInt ≠ 0 := fun h0 => hb (toInt_inj.mp h0)
  have h3 := fits_toInt b; rw [toInt_add, Int.bmod_def] at h1; unfold Fits at h3
  omega

lemma add_one_ne (a : Int64) : a + 1 ≠ a := add_ne_self a (by decide)

/-- A sum that leaves the range upwards comes out negative. -/
lemma toInt_add_neg (h : 2 ^ 63 ≤ a.toInt + b.toInt) : (a + b).toInt < 0 := by
  have ha := fits_toInt a
  have hb := fits_toInt b; unfold Fits at ha hb; rw [toInt_add, Int.bmod_def]
  omega

lemma toInt_add_of_nonneg (h : 0 ≤ a.toInt + b.toInt) (hsum : 0 ≤ (a + b).toInt) :
    (a + b).toInt = a.toInt + b.toInt := by
  refine toInt_add_of_fits ⟨by omega, ?_⟩; by_contra hge; have := toInt_add_neg (not_lt.mp hge)
  omega

lemma toInt_sub_neg (h : 2 ^ 63 ≤ a.toInt - b.toInt) : (a - b).toInt < 0 := by
  have ha := fits_toInt a
  have hb := fits_toInt b; unfold Fits at ha hb; rw [toInt_sub, Int.bmod_def]
  omega

lemma toInt_clamp_of_fits {x : Int} (h : Fits x) : (clamp x).toInt = x := by
  unfold clamp
  rw [if_neg (by have := h.1; omega), if_neg (by have := h.2; omega), toInt_ofInt_of_fits h]

lemma toInt_max (a b : Int64) : (max a b).toInt = max a.toInt b.toInt := by
  show (if a ≤ b then b else a).toInt = _; split <;> rename_i h <;> rw [le_iff_toInt_le] at h <;> omega

lemma toInt_min (a b : Int64) : (min a b).toInt = min a.toInt b.toInt := by
  show (if a ≤ b then a else b).toInt = _; split <;> rename_i h <;> rw [le_iff_toInt_le] at h <;> omega

lemma toInt_max_zero (a : Int64) : 0 ≤ (max a 0).toInt := by rw [toInt_max, toInt_zero]; exact le_max_right _ _

lemma toInt_div_of_nonneg (ha : 0 ≤ a.toInt) : (a / b).toInt = a.toInt / b.toInt := by
  have hmin : a ≠ Int64.minValue := fun h => by rw [h] at ha; exact absurd ha (by decide)
  rw [toInt_div_of_ne_left a b hmin, Int.tdiv_eq_ediv_of_nonneg ha]

lemma toInt_saturatingAdd_of_fits (h : Fits (a.toInt + b.toInt)) :
    (saturatingAdd a b).toInt = a.toInt + b.toInt := toInt_clamp_of_fits h

lemma saturatingAdd_le (hb : 0 ≤ b.toInt) : (saturatingAdd a b).toInt ≤ a.toInt + b.toInt := by
  have hlow := a.le_toInt; unfold saturatingAdd clamp
  split
  · omega
  split
  · have hmax := toInt_maxValue
    omega
  · rw [toInt_ofInt_of_fits ⟨by omega, by omega⟩]

lemma toInt_add_one_iff : (a + 1).toInt = a.toInt + 1 ↔ a ≠ maxValue := by
  have hfits := fits_toInt a; unfold Fits at hfits
  have hmax := toInt_maxValue
  have hone := Int64.toInt_one
  constructor
  · intro h heq; subst heq; exact absurd h (by decide)
  · intro hne
    have hlt : a.toInt ≠ 2 ^ 63 - 1 := fun heq => hne (toInt_inj.mp (heq.trans hmax.symm))
    exact toInt_add_of_fits ⟨by omega, by omega⟩

lemma lt_add_one (h : a ≠ maxValue) : a < a + 1 := by
  rw [lt_iff_toInt_lt, toInt_add_one_iff.mpr h]; omega

/-- A number above the range loses at least `2 ^ 64`. -/
lemma toInt_ofInt_add_le {q : Int} (h : 2 ^ 63 ≤ q) : (ofInt q).toInt + 2 ^ 64 ≤ q := by
  rw [toInt_ofInt, Int.bmod_def]; simp only [size]; omega

lemma toInt_pos_of_ne (h : 0 ≤ a.toInt) (hne : a ≠ 0) : 0 < a.toInt := by
  rw [ne_eq, ← toInt_inj, toInt_zero] at hne; omega

lemma toInt_eq_toUInt64 (a : Int64) : a.toInt = if 2 * a.toUInt64.toNat < 2 ^ 64 then (a.toUInt64.toNat : Int)
    else (a.toUInt64.toNat : Int) - (2 ^ 64 : Nat) := BitVec.toInt_eq_toNat_cond a.toBitVec

lemma toNat_toUInt64_of_nonneg (h : 0 ≤ a.toInt) : (a.toUInt64.toNat : Int) = a.toInt := by
  have hlt := a.toUInt64.toNat_lt
  have ha := toInt_eq_toUInt64 a; split at ha <;> omega

lemma toNat_toUInt64_add_one (h : a ≠ -1) : (a + 1).toUInt64.toNat = a.toUInt64.toNat + 1 := by
  have hne : a.toUInt64.toNat ≠ 2 ^ 64 - 1 := fun heq =>
    h (congrArg ofUInt64 (UInt64.toNat_inj.mp heq : a.toUInt64 = (-1 : Int64).toUInt64))
  have hlt := a.toUInt64.toNat_lt; rw [toUInt64_add, UInt64.toNat_add]; show (_ + 1) % _ = _
  omega

/-! ## Sums -/

/-- The sum of a list of amounts, which need not fit. -/
def exactSum (xs : List Int64) : Int := (xs.map toInt).sum

@[simp] lemma exactSum_nil : exactSum [] = 0 := rfl

@[simp] lemma exactSum_cons (x : Int64) (xs : List Int64) : exactSum (x :: xs) = x.toInt + exactSum xs := rfl

@[simp] lemma exactSum_append (xs ys : List Int64) : exactSum (xs ++ ys) = exactSum xs + exactSum ys := by
  induction xs with
  | nil => simp
  | cons x xs ih => simp [ih, Int.add_assoc]

lemma exactSum_nonneg {xs : List Int64} (h : ∀ x ∈ xs, 0 ≤ x.toInt) : 0 ≤ exactSum xs := by
  induction xs with
  | nil => simp
  | cons x xs ih =>
    have hx := h x (by simp)
    have hxs := ih fun y hy => h y (by simp [hy])
    simp only [exactSum_cons]; omega

lemma exactSum_map_nonneg {xs : List α} (h : ∀ x ∈ xs, 0 ≤ (f x).toInt) : 0 ≤ exactSum (xs.map f) := by
  refine exactSum_nonneg fun y hy => ?_
  obtain ⟨x, hx, rfl⟩ := List.mem_map.mp hy; exact h x hx

lemma toInt_le_exactSum {xs : List α} (h : ∀ x ∈ xs, 0 ≤ (f x).toInt) {x : α}
    (hx : x ∈ xs) : (f x).toInt ≤ exactSum (xs.map f) := by
  refine List.single_le_sum (fun y hy => ?_) _ (List.mem_map_of_mem (List.mem_map_of_mem hx))
  obtain ⟨_, hmem, rfl⟩ := List.mem_map.mp hy
  obtain ⟨z, hz, rfl⟩ := List.mem_map.mp hmem; exact h z hz

/-- What satisfies a test and what does not make up the whole. -/
lemma exactSum_filter (f : α → Int64) (p : α → Bool) (xs : List α) :
    exactSum ((xs.filter p).map f) + exactSum ((xs.filter fun x => !p x).map f) = exactSum (xs.map f) := by
  induction xs with
  | nil => simp
  | cons x =>
    cases hp : p x <;> simp [hp] <;> omega

/-- Adding up amounts with any addition that is exact when the sum fits. -/
lemma toInt_foldl {op : Int64 → Int64 → Int64}
    (hop : ∀ a b, Fits (a.toInt + b.toInt) → (op a b).toInt = a.toInt + b.toInt) {xs : List Int64}
    (h : ∀ x ∈ xs, 0 ≤ x.toInt) (hsum : a.toInt + exactSum xs < 2 ^ 63) :
    (xs.foldl op a).toInt = a.toInt + exactSum xs := by
  induction xs generalizing a with
  | nil => simp
  | cons x xs ih =>
    have hx := h x (by simp)
    have hxs : ∀ y ∈ xs, 0 ≤ y.toInt := fun y hy => h y (by simp [hy])
    have hnn := exactSum_nonneg hxs
    have hlow := a.le_toInt; simp only [exactSum_cons] at hsum ⊢
    have hstep := hop a x ⟨by omega, by omega⟩; rw [List.foldl_cons, ih hxs (by omega)]; omega

end Int64

namespace TronRs

export Int64 (le_iff_toInt_le lt_iff_toInt_lt toInt_zero toInt_inj toInt_ofNat_of_lt toInt_ofInt_of_fits
  toInt_add_of_fits toInt_sub_of_fits fits_toInt checkedAdd_eq_some exactSum)

end TronRs

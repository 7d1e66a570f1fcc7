import Mathlib

/-!
# Finite key-value columns

A `Column K V` is one table of a key-value store: finitely many keys, at most one
value each. Two columns are equal when every lookup agrees (`ext`).

`ofFn` tabulates a partial function and `update` writes one column over another.

`total f m` adds up `f k v` over the entries. `total_put` and `total_delete` say how
one write moves it, which is all a conservation argument about a store needs;
`total_eq_sum` turns it into a sum over any finite set that holds the keys.
-/
namespace TronRs.Core

def Column (K V : Type) : Type := Finmap fun _ : K => V

namespace Column
variable {K V : Type} {m n : Column K V} {k k' : K} {v : V} {W : Type} {f : K → V → Int}

def empty : Column K V := (∅ : Finmap fun _ : K => V)

instance : EmptyCollection (Column K V) := ⟨empty⟩
instance : Inhabited (Column K V) := ⟨∅⟩

def keys (m : Column K V) : Finset K := Finmap.keys m

variable [DecidableEq K]

instance [DecidableEq V] : DecidableEq (Column K V) :=
  inferInstanceAs (DecidableEq (Finmap fun _ : K => V))

def get (m : Column K V) (k : K) : Option V := Finmap.lookup k m

def put (m : Column K V) (k : K) (v : V) : Column K V := Finmap.insert k v m

def delete (m : Column K V) (k : K) : Column K V := Finmap.erase k m

@[simp] lemma get_empty (k : K) : (∅ : Column K V).get k = none := Finmap.lookup_empty k

@[simp] lemma get_put_self (m : Column K V) (k : K) (v : V) : (m.put k v).get k = some v :=
  Finmap.lookup_insert m

lemma get_put_of_ne (h : k' ≠ k) : (m.put k v).get k' = m.get k' := Finmap.lookup_insert_of_ne m h

lemma get_put (m : Column K V) (k k' : K) (v : V) : (m.put k v).get k' = if k' = k then some v else m.get k' := by
  by_cases h : k' = k
  · subst h; rw [if_pos rfl, get_put_self]
  · rw [if_neg h, get_put_of_ne h]

lemma isSome_get_put (m : Column K V) (k k' : K) (v : V) :
    ((m.put k v).get k').isSome = true ↔ k' = k ∨ (m.get k').isSome = true := by
  rw [get_put]; split <;> simp [*]

@[simp] lemma get_delete_self (m : Column K V) (k : K) : (m.delete k).get k = none :=
  Finmap.lookup_erase k m

lemma get_delete_of_ne (h : k' ≠ k) : (m.delete k).get k' = m.get k' := Finmap.lookup_erase_ne h

lemma get_delete (m : Column K V) (k k' : K) : (m.delete k).get k' = if k' = k then none else m.get k' := by
  by_cases h : k' = k
  · subst h; rw [if_pos rfl, get_delete_self]
  · rw [if_neg h, get_delete_of_ne h]

lemma ext (h : ∀ k, m.get k = n.get k) : m = n := Finmap.ext_lookup h

lemma mem_keys : k ∈ m.keys ↔ (m.get k).isSome :=
  Finmap.mem_keys.trans Finmap.lookup_isSome.symm

lemma not_mem_keys : k ∉ m.keys ↔ m.get k = none := by
  rw [mem_keys, Bool.not_eq_true, Option.isSome_eq_false_iff, Option.isNone_iff_eq_none]

@[simp] lemma put_put (m : Column K V) (k : K) (v w : V) : (m.put k v).put k w = m.put k w :=
  ext fun k' => by simp only [get_put]; split <;> rfl

lemma put_get (h : m.get k = some v) : m.put k v = m :=
  ext fun k' => by
    rw [get_put]
    split
    · rename_i e; rw [e, h]
    · rfl

instance decidableForallGet (m : Column K V) (p : K → V → Prop) [∀ k v, Decidable (p k v)] :
    Decidable (∀ k v, m.get k = some v → p k v) :=
  decidable_of_iff (∀ k ∈ m.keys, ∀ v ∈ m.get k, p k v)
    ⟨fun h k v hv => h k (mem_keys.mpr (Option.isSome_of_eq_some hv)) v hv, fun h k _ v hv => h k v hv⟩

/-! ## Tables -/

/-- The column of a partial function on a finite set of keys. -/
def ofFn (U : Finset K) (g : K → Option V) : Column K V where
  entries := U.val.filterMap fun k => (g k).map (Sigma.mk k)
  nodupKeys := by
    rw [← Multiset.nodup_keys, Multiset.keys, Multiset.map_filterMap]
    refine U.nodup.filterMap _ fun a b k ha hb => ?_
    simp only [Option.map_map, Option.mem_def, Option.map_eq_some_iff, Function.comp_apply] at ha hb
    obtain ⟨-, -, rfl⟩ := ha
    obtain ⟨-, -, rfl⟩ := hb
    rfl

lemma get_ofFn (U : Finset K) (g : K → Option V) (k : K) : (ofFn U g).get k = if k ∈ U then g k else none := by
  refine Option.ext fun v => ?_
  have hmem : v ∈ (ofFn U g).get k ↔ Sigma.mk k v ∈ (ofFn U g).entries := Finmap.mem_lookup_iff
  rw [← Option.mem_def, hmem]
  simp only [ofFn, Multiset.mem_filterMap, Option.map_eq_some_iff, Finset.mem_val]
  constructor
  · rintro ⟨k', hk', v', hv', h⟩; cases h; rw [if_pos hk', hv']
  intro h
  split at h
  · rename_i hk; exact ⟨k, hk, v, h, rfl⟩
  · cases h

/-- Rewrites every key of `m` by `f`, which sees the new value and the one already there. -/
def update {W : Type} (m : Column K W) (f : K → W → Option V → Option V) (n : Column K V) : Column K V :=
  ofFn (m.keys ∪ n.keys) fun k =>
    match m.get k with
    | some w => f k w (n.get k)
    | none => n.get k

lemma get_update (m : Column K W) (f : K → W → Option V → Option V) (n : Column K V)
    (k : K) : (update m f n).get k = match m.get k with
      | some w => f k w (n.get k)
      | none => n.get k := by
  rw [update, get_ofFn]
  split
  · rfl
  · rename_i hk; rw [Finset.mem_union, not_or, not_mem_keys, not_mem_keys] at hk; rw [hk.1, hk.2]

/-- The same keys with other values. -/
def map {W : Type} (f : V → W) (m : Column K V) : Column K W := ofFn m.keys fun k => (m.get k).map f

@[simp] lemma get_map (f : V → W) (m : Column K V) (k : K) : (m.map f).get k = (m.get k).map f := by
  rw [map, get_ofFn]
  split
  · rfl
  · rename_i hk; rw [not_mem_keys.mp hk]; rfl

/-- Only the keys that satisfy `p`. -/
def retain (p : K → Prop) [DecidablePred p] (m : Column K V) : Column K V :=
  ofFn m.keys fun k => if p k then m.get k else none

lemma get_retain (p : K → Prop) [DecidablePred p] (m : Column K V) (k : K) :
    (m.retain p).get k = if p k then m.get k else none := by
  rw [retain, get_ofFn]
  split
  · rfl
  · rename_i hk; rw [not_mem_keys.mp hk, ite_self]

/-! ## Totals -/

/-- What key `k` adds to a total. -/
def share (f : K → V → Int) (m : Column K V) (k : K) : Int := (m.get k).elim 0 (f k)

/-- The sum of `f k v` over the entries of the column. -/
def total (f : K → V → Int) (m : Column K V) : Int := ∑ k ∈ m.keys, share f m k

lemma total_eq_sum (f : K → V → Int) {U : Finset K} (h : m.keys ⊆ U) : total f m = ∑ k ∈ U, share f m k := by
  refine Finset.sum_subset h fun k _ hk => ?_
  simp only [share, not_mem_keys.mp hk, Option.elim_none]

lemma share_eq_of_get (h : m.get k = n.get k) : share f m k = share f n k := by simp only [share, h]

lemma share_of_some (h : m.get k = some v) : share f m k = f k v := by rw [share, h, Option.elim_some]

lemma share_of_none (h : m.get k = none) : share f m k = 0 := by rw [share, h, Option.elim_none]

lemma total_congr {g : K → V → Int} (h : ∀ k v, m.get k = some v → f k v = g k v) : total f m = total g m := by
  refine Finset.sum_congr rfl fun k _ => ?_
  unfold share
  cases hk : m.get k with
  | none => rfl
  | some v => exact h k v hk

lemma total_add (f g : K → V → Int) (m : Column K V) : total (fun k v => f k v + g k v) m = total f m + total g m := by
  unfold total; rw [← Finset.sum_add_distrib]
  refine Finset.sum_congr rfl fun k _ => ?_
  unfold share; cases m.get k <;> rfl

/-- When only `k` has a share, it is the total. -/
lemma total_eq_share (h : ∀ k' v, m.get k' = some v → k' ≠ k → f k' v = 0) : total f m = share f m k := by
  have hzero : ∀ k', k' ≠ k → share f m k' = 0 := fun k' hk => by
    unfold share
    cases hv : m.get k' with
    | none => rfl
    | some v => exact h k' v hv hk
  unfold total
  refine Finset.sum_eq_single k (fun k' _ hk => hzero k' hk) fun hk => ?_
  simp only [share, not_mem_keys.mp hk, Option.elim_none]

/-- Two columns that agree off `k` differ in total by their shares at `k`. -/
lemma total_sub_share (h : ∀ k', k' ≠ k → n.get k' = m.get k') : total f n - share f n k = total f m - share f m k := by
  have hm : m.keys ⊆ insert k (m.keys ∪ n.keys) := fun x hx =>
    Finset.mem_insert_of_mem (Finset.mem_union_left _ hx)
  have hn : n.keys ⊆ insert k (m.keys ∪ n.keys) := fun x hx =>
    Finset.mem_insert_of_mem (Finset.mem_union_right _ hx)
  have hk : k ∈ insert k (m.keys ∪ n.keys) := Finset.mem_insert_self _ _
  rw [total_eq_sum f hm, total_eq_sum f hn, ← Finset.add_sum_erase _ _ hk, ← Finset.add_sum_erase _ (share f m) hk]
  have hrest : ∑ x ∈ (insert k (m.keys ∪ n.keys)).erase k, share f n x =
      ∑ x ∈ (insert k (m.keys ∪ n.keys)).erase k, share f m x :=
    Finset.sum_congr rfl fun x hx => share_eq_of_get (h x (Finset.ne_of_mem_erase hx))
  rw [hrest]; omega

lemma total_put (f : K → V → Int) (m : Column K V) (k : K) (v : V) :
    total f (m.put k v) = total f m - share f m k + f k v := by
  have h := total_sub_share (f := f) (n := m.put k v) fun k' hk => get_put_of_ne hk
  have hs : share f (m.put k v) k = f k v := by simp only [share, get_put_self, Option.elim_some]
  omega

lemma total_delete (f : K → V → Int) (m : Column K V) (k : K) : total f (m.delete k) = total f m - share f m k := by
  have h := total_sub_share (f := f) (n := m.delete k) fun k' hk => get_delete_of_ne hk
  have hs : share f (m.delete k) k = 0 := by simp only [share, get_delete_self, Option.elim_none]
  omega

lemma share_nonneg (h : ∀ k v, m.get k = some v → 0 ≤ f k v) (k : K) : 0 ≤ share f m k := by
  unfold share
  cases hk : m.get k with
  | none => exact le_rfl
  | some v => exact h k v hk

lemma share_le_total (h : ∀ k v, m.get k = some v → 0 ≤ f k v) (k : K) : share f m k ≤ total f m := by
  have hnn := share_nonneg h
  by_cases hk : k ∈ m.keys
  · exact Finset.single_le_sum (fun x _ => hnn x) hk
  · have h0 : share f m k = 0 := by simp only [share, not_mem_keys.mp hk, Option.elim_none]
    rw [h0]
    exact Finset.sum_nonneg fun x _ => hnn x

lemma share_add_share_le_total (h : ∀ k v, m.get k = some v → 0 ≤ f k v) (hne : k' ≠ k) :
    share f m k + share f m k' ≤ total f m := by
  have hdel : ∀ i v, (m.delete k).get i = some v → 0 ≤ f i v := by
    intro i v hv; rw [get_delete] at hv
    split at hv
    · cases hv
    · exact h i v hv
  have hle := share_le_total hdel k'; rw [total_delete, share_eq_of_get (get_delete_of_ne hne)] at hle
  omega

/-! ## Totals of groups -/

section Groups
variable {J : Type} [DecidableEq J]

/-- The sum of `f` over the entries whose key belongs to group `j`. -/
def groupTotal (g : K → J) (f : V → Int) (m : Column K V) (j : J) : Int :=
  total (fun k v => if g k = j then f v else 0) m

variable {g : K → J} {f : V → Int} {m n : Column K V}

lemma share_group (k : K) (j : J) :
    share (fun k v => if g k = j then f v else 0) m k = if g k = j then share (fun _ => f) m k else 0 := by
  unfold share
  cases m.get k with
  | none => exact (ite_self 0).symm
  | some => rfl

/-- One entry changes, and with it the total of its group. -/
lemma groupTotal_write {k : K} (h : ∀ k', k' ≠ k → n.get k' = m.get k') (j : J) : groupTotal g f n j =
      groupTotal g f m j + if g k = j then share (fun _ => f) n k - share (fun _ => f) m k else 0 := by
  have htot := total_sub_share (f := fun k v => if g k = j then f v else 0) h
  rw [share_group, share_group] at htot; unfold groupTotal
  split <;> rename_i hg
  · rw [if_pos hg, if_pos hg] at htot; omega
  · rw [if_neg hg, if_neg hg] at htot; omega

lemma sum_groupTotal (g : K → J) (f : V → Int) (m : Column K V) :
    ∑ j ∈ m.keys.image g, groupTotal g f m j = total (fun _ => f) m := by
  unfold groupTotal total; rw [Finset.sum_comm]
  refine Finset.sum_congr rfl fun k hk => ?_
  simp only [share_group]; rw [Finset.sum_ite_eq, if_pos (Finset.mem_image_of_mem g hk)]

lemma groupTotal_le_total (h : ∀ k v, m.get k = some v → 0 ≤ f v) (j : J) :
    groupTotal g f m j ≤ total (fun _ => f) m := by
  refine Finset.sum_le_sum fun k _ => ?_
  rw [share_group]
  split
  · exact le_rfl
  · exact share_nonneg h k

lemma share_le_groupTotal (h : ∀ k v, m.get k = some v → 0 ≤ f v) (k : K) :
    share (fun _ => f) m k ≤ groupTotal g f m (g k) := by
  have hle := share_le_total (f := fun i v => if g i = g k then f v else 0) (fun i v hv => by
    split
    · exact h i v hv
    · exact le_rfl) k
  rw [share_group, if_pos rfl] at hle; exact hle

end Groups

lemma get_foldl_delete (m : Column K V) (ks : List K) (k : K) :
    (ks.foldl delete m).get k = if k ∈ ks then none else m.get k := by
  induction ks generalizing m with
  | nil => rfl
  | cons x ks ih =>
    rw [List.foldl_cons, ih, get_delete]; by_cases hx : k = x <;> simp [hx]

/-- Deleting keys from a column without negative shares loses nothing exactly when they had
no share. -/
lemma total_foldl_delete (h : ∀ k v, m.get k = some v → 0 ≤ f k v) (ks : List K) :
    total f (ks.foldl delete m) ≤ total f m ∧
      (total f (ks.foldl delete m) = total f m ↔ ∀ k ∈ ks, share f m k = 0) := by
  induction ks generalizing m with
  | nil => simp
  | cons x ks ih =>
    have hdel : ∀ k v, (m.delete x).get k = some v → 0 ≤ f k v := by
      intro k v hv; rw [get_delete] at hv
      split at hv
      · cases hv
      · exact h k v hv
    obtain ⟨hle, hiff⟩ := ih hdel
    have hx := share_nonneg h x
    have htot := total_delete f m x
    have hshare : ∀ k, k ≠ x → share f (m.delete x) k = share f m k := fun k hk =>
      share_eq_of_get (get_delete_of_ne hk)
    rw [List.foldl_cons]
    refine ⟨by omega, fun heq => ?_, fun hall => ?_⟩
    · have hall := hiff.mp (by omega); intro k hk
      by_cases hkx : k = x
      · rw [hkx]; omega
      · rw [← hshare k hkx]; exact hall k ((List.mem_cons.mp hk).resolve_left hkx)
    · have hx0 := hall x (List.mem_cons_self ..)
      have hrest := hiff.mpr fun k hk => by
        by_cases hkx : k = x
        · rw [hkx]; simp [share]
        · rw [hshare k hkx]; exact hall k (List.mem_cons_of_mem _ hk)
      omega

end Column
end TronRs.Core

namespace TronRs

export Core.Column (get_empty get_put get_put_self get_put_of_ne isSome_get_put get_delete get_delete_of_ne get_ofFn
  total_put share_le_total)

end TronRs

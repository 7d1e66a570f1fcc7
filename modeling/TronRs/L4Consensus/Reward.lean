import TronRs.Core.Bytes
import TronRs.Core.I64

/-!
# The split of a block reward

`crates/consensus/src/reward.rs`: the witness keeps a percentage of the reward, the voters share
the rest by the weight of their votes. All divisions round down.

* `rewardSplit_iff`: the amounts are the exact ones, and nearly all of the reward is paid out,
  unless the product of the reward and the percentage leaves the 64-bit range far enough.
* `whole_reward_kept_back`: the multiplication saturates, so the witness that is to get everything
  gets a hundredth of it.
-/
namespace TronRs

open TronRs.Core

/-- `brokerage.clamp(0, 100)`. -/
def clampPercent (brokerage : Int64) : Int64 := if brokerage < 0 then 0 else if 100 < brokerage then 100 else brokerage

/-- The cut of the witness and the pool of the voters. Mirrors consensus/reward.rs:17. -/
def splitReward (value brokerage : Int64) : Int64 × Int64 :=
  let witnessCut := value.saturatingMul (clampPercent brokerage) / 100
  (witnessCut, value - witnessCut)

/-- Mirrors consensus/reward.rs:27. The sum and the products are 128-bit numbers, which as many weights as a
vector can hold do not leave. -/
def distributeToVoters (pool : Int64) (votes : List (Bytes × Int64)) : List (Bytes × Int64) :=
  let total := exactSum (votes.map Prod.snd)
  if total ≤ 0 ∨ pool ≤ 0 then votes.map fun v => (v.1, 0)
  else votes.map fun v => (v.1, Int64.ofInt ((pool.toInt * v.2.toInt).tdiv total))

/-! ## What is to be paid -/

/-- The percentage of the witness, between 0 and 100. -/
def percent (brokerage : Int64) : Int := max 0 (min brokerage.toInt 100)

/-- The share of a weight in a pool, rounded down. -/
def share (pool total weight : Int) : Int := if total = 0 then 0 else pool * weight / total

/-- The reward is split exactly, and what is not paid out is less than the number of voters. -/
structure RewardSplit (value brokerage : Int64) (votes : List (Bytes × Int64)) : Prop where
  cut : (splitReward value brokerage).1.toInt = value.toInt * percent brokerage / 100
  pool : (splitReward value brokerage).2.toInt = value.toInt - value.toInt * percent brokerage / 100
  shares : (distributeToVoters (splitReward value brokerage).2 votes).map (fun s => (s.1, s.2.toInt)) =
    votes.map fun v => (v.1, share (splitReward value brokerage).2.toInt
      (exactSum (votes.map Prod.snd)) v.2.toInt)
  atMost : (splitReward value brokerage).1.toInt +
    exactSum ((distributeToVoters (splitReward value brokerage).2 votes).map Prod.snd) ≤ value.toInt
  nearly : 0 < exactSum (votes.map Prod.snd) → value.toInt - votes.length <
    (splitReward value brokerage).1.toInt +
      exactSum ((distributeToVoters (splitReward value brokerage).2 votes).map Prod.snd)

/-! ## Shares that are rounded down -/

/-- What the roundings lose, added up: between nothing and one unit short of a unit for every weight. -/
lemma mul_sum_shares (pool : Int) {total : Int} (htotal : 0 < total) (weights : List Int64) :
    total * (weights.map fun w => pool * w.toInt / total).sum ≤ pool * exactSum weights ∧
      pool * exactSum weights + weights.length ≤
        total * ((weights.map fun w => pool * w.toInt / total).sum + weights.length) := by
  induction weights with
  | nil => simp
  | cons w weights ih =>
    have hdiv := Int.mul_ediv_add_emod (pool * w.toInt) total
    have hnonneg := Int.emod_nonneg (pool * w.toInt) htotal.ne'
    have hlt := Int.emod_lt_of_pos (pool * w.toInt) htotal
    simp only [List.map_cons, List.sum_cons, Int64.exactSum_cons, List.length_cons, Nat.cast_add, Nat.cast_one,
      Int.mul_add]
    rw [Int.mul_add] at ih; omega

/-- The shares of all weights make up the pool, up to less than one unit for each. -/
lemma sum_shares (pool : Int) {weights : List Int64} (htotal : 0 < exactSum weights) :
    (weights.map fun w => pool * w.toInt / exactSum weights).sum ≤ pool ∧
      pool - weights.length < (weights.map fun w => pool * w.toInt / exactSum weights).sum := by
  obtain ⟨hle, hge⟩ := mul_sum_shares pool htotal weights
  have hne : 0 < weights.length := by
    refine List.length_pos_iff.mpr fun h => ?_
    rw [h] at htotal; exact absurd htotal (by simp)
  rw [Int.mul_comm pool] at hle hge; refine ⟨Int.le_of_mul_le_mul_left hle htotal, ?_⟩
  have hlt : exactSum weights * pool < exactSum weights *
      ((weights.map fun w => pool * w.toInt / exactSum weights).sum + weights.length) := by
    omega
  have := Int.lt_of_mul_lt_mul_left hlt htotal.le
  omega

/-! ## What is paid -/

section
variable {value pool : Int64} {votes : List (Bytes × Int64)} (brokerage : Int64)

lemma toInt_clampPercent : (clampPercent brokerage).toInt = percent brokerage := by
  have h100 : (100 : Int64).toInt = 100 := rfl; unfold clampPercent percent
  simp only [lt_iff_toInt_lt, toInt_zero, h100]
  split
  · rw [toInt_zero]; omega
  · split
    · rw [h100]; omega
    · omega

lemma percent_bounds : 0 ≤ percent brokerage ∧ percent brokerage ≤ 100 := by
  unfold percent; omega

variable (h : 0 ≤ value.toInt)
include h

lemma mul_percent_bounds : 0 ≤ value.toInt * percent brokerage ∧ value.toInt * percent brokerage ≤ value.toInt * 100 :=
  ⟨Int.mul_nonneg h (percent_bounds brokerage).1, Int.mul_le_mul_of_nonneg_left (percent_bounds brokerage).2 h⟩

/-- The product stops at the largest amount there is. -/
lemma toInt_splitReward_cut : (splitReward value brokerage).1.toInt =
    min (value.toInt * percent brokerage) Int64.maxValue.toInt / 100 := by
  have hprod := (mul_percent_bounds brokerage h).1
  have hmax := Int64.toInt_maxValue
  have hsat : (value.saturatingMul (clampPercent brokerage)).toInt =
      min (value.toInt * percent brokerage) Int64.maxValue.toInt := by
    rw [Int64.saturatingMul, toInt_clampPercent, Int64.clamp, if_neg (by omega), hmax]
    split
    · rw [hmax]; omega
    · rw [toInt_ofInt_of_fits ⟨by omega, by omega⟩]; omega
  show (value.saturatingMul (clampPercent brokerage) / 100).toInt = _
  rw [Int64.toInt_div_of_nonneg (by rw [hsat, hmax]; omega), hsat]
  rfl

/-- The witness gets a part of the reward, and the voters the rest. -/
lemma toInt_splitReward : 0 ≤ (splitReward value brokerage).1.toInt ∧
    (splitReward value brokerage).1.toInt ≤ value.toInt ∧
    (splitReward value brokerage).2.toInt = value.toInt - (splitReward value brokerage).1.toInt := by
  have hcut := toInt_splitReward_cut brokerage h
  have hprod := mul_percent_bounds brokerage h
  have hmax := Int64.toInt_maxValue
  have hlt := value.toInt_lt; rw [hmax] at hcut; refine ⟨by omega, by omega, ?_⟩
  show (value - (splitReward value brokerage).1).toInt = _; exact toInt_sub_of_fits ⟨by omega, by omega⟩

lemma cut_exact_iff : (splitReward value brokerage).1.toInt = value.toInt * percent brokerage / 100 ↔
      value.toInt * percent brokerage / 100 ≤ Int64.maxValue.toInt / 100 := by
  have hcut := toInt_splitReward_cut brokerage h
  have hmax := Int64.toInt_maxValue
  rw [hmax] at hcut ⊢; omega

omit h

/-- Every voter gets the share of the weight. -/
lemma distributeToVoters_eq (hpool : 0 ≤ pool.toInt) (hvotes : ∀ v ∈ votes, 0 ≤ v.2.toInt) :
    (distributeToVoters pool votes).map (fun s => (s.1, s.2.toInt)) =
      votes.map fun v => (v.1, share pool.toInt (exactSum (votes.map Prod.snd)) v.2.toInt) := by
  have htotal := Int64.exactSum_map_nonneg hvotes
  unfold distributeToVoters; simp only [le_iff_toInt_le, toInt_zero]
  split
  · rename_i hzero; rw [List.map_map]
    refine List.map_congr_left fun v hv => ?_
    -- nobody has a weight, or there is nothing to share
    have hnone : share pool.toInt (exactSum (votes.map Prod.snd)) v.2.toInt = 0 := by
      unfold share
      rcases hzero with h | h
      · rw [if_pos (by omega)]
      · rw [show pool.toInt = 0 by omega]; simp
    simp [hnone]
  · rename_i hsome; rw [List.map_map]
    refine List.map_congr_left fun v hv => ?_
    have hw := hvotes v hv
    have hle := Int64.toInt_le_exactSum hvotes hv
    have hlt := pool.toInt_lt
    have hbound : pool.toInt * v.2.toInt / exactSum (votes.map Prod.snd) ≤ pool.toInt :=
      Int.ediv_le_of_le_mul (by omega) (Int.mul_le_mul_of_nonneg_left hle hpool)
    have hnonneg : 0 ≤ pool.toInt * v.2.toInt / exactSum (votes.map Prod.snd) :=
      Int.ediv_nonneg (Int.mul_nonneg hpool hw) htotal
    rw [Function.comp_apply, share, if_neg (by omega), Int.tdiv_eq_ediv_of_nonneg (Int.mul_nonneg hpool hw),
      toInt_ofInt_of_fits ⟨by omega, by omega⟩]

lemma exactSum_distributeToVoters (hpool : 0 ≤ pool.toInt) (hvotes : ∀ v ∈ votes, 0 ≤ v.2.toInt) :
    exactSum ((distributeToVoters pool votes).map Prod.snd) ≤ pool.toInt ∧ (0 < exactSum (votes.map Prod.snd) →
        pool.toInt - votes.length < exactSum ((distributeToVoters pool votes).map Prod.snd)) := by
  have hsum : exactSum ((distributeToVoters pool votes).map Prod.snd) = ((votes.map Prod.snd).map fun w =>
      share pool.toInt (exactSum (votes.map Prod.snd)) w.toInt).sum := by
    have h := congrArg (fun shares => (shares.map Prod.snd).sum) (distributeToVoters_eq hpool hvotes)
    simpa [exactSum, Function.comp_def] using h
  rw [hsum]
  by_cases htotal : 0 < exactSum (votes.map Prod.snd)
  · obtain ⟨hle, hlt⟩ := sum_shares pool.toInt htotal
    simp only [share, if_neg htotal.ne']; rw [List.length_map] at hlt; exact ⟨hle, fun _ => hlt⟩
  · have hzero : exactSum (votes.map Prod.snd) = 0 := by have := Int64.exactSum_map_nonneg hvotes; omega
    refine ⟨?_, fun h => absurd h htotal⟩; simpa [share, hzero, Function.comp_def] using hpool

/-- **When the reward is split exactly.** The cut of the witness and the shares of the voters are the exact ones, and
less than a unit for each voter is left over, exactly when the cut does not come from a saturated product. -/
theorem rewardSplit_iff (hvalue : 0 ≤ value.toInt) (brokerage : Int64) (hvotes : ∀ v ∈ votes, 0 ≤ v.2.toInt) :
    RewardSplit value brokerage votes ↔ value.toInt * percent brokerage / 100 ≤ Int64.maxValue.toInt / 100 := by
  refine ⟨fun h => (cut_exact_iff brokerage hvalue).mp h.cut, fun hcond => ?_⟩
  obtain ⟨hnonneg, hle, hpool⟩ := toInt_splitReward brokerage hvalue
  have hcut := (cut_exact_iff brokerage hvalue).mpr hcond
  have hpool0 : 0 ≤ (splitReward value brokerage).2.toInt := by omega
  obtain ⟨hatMost, hnearly⟩ := exactSum_distributeToVoters hpool0 hvotes
  refine ⟨hcut, by rw [hpool, hcut], distributeToVoters_eq hpool0 hvotes, by omega, fun htotal => ?_⟩
  have := hnearly htotal; omega

/-- A reward of 1001 at the default 20 percent, for three voters. -/
theorem rewardSplit_iff_three : (splitReward 1001 20).1 = 200 ∧
    distributeToVoters (splitReward 1001 20).2 [([1], 1), ([2], 1), ([3], 4)] = [([1], 133), ([2], 133), ([3], 534)] ∧
    RewardSplit 1001 20 [([1], 1), ([2], 1), ([3], 4)] := by
  have hvalue : 0 ≤ (1001 : Int64).toInt := by decide
  have hvotes : ∀ v ∈ [(([1] : Bytes), (1 : Int64)), ([2], 1), ([3], 4)], 0 ≤ v.2.toInt := by decide
  exact ⟨by decide, by decide, (rewardSplit_iff hvalue 20 hvotes).mpr (by decide)⟩

end

/-- At 100 percent the witness gets a hundredth of the largest reward, and the voters the rest. -/
theorem whole_reward_kept_back : ∃ value brokerage : Int64, 0 ≤ value.toInt ∧
    splitReward value brokerage = (92233720368547758, 9131138316486228049) ∧
    value.toInt * percent brokerage / 100 = 9223372036854775807 ∧ ¬ RewardSplit value brokerage [] := by
  have hcut : (splitReward Int64.maxValue 100).1.toInt ≠ Int64.maxValue.toInt * percent 100 / 100 := by decide
  exact ⟨Int64.maxValue, 100, by decide, by decide, by decide, fun h => hcut h.cut⟩

end TronRs

import TronRs.L3Actuators.Trx.Records

/-!
# The global stake weights

The weight of an account in a resource is its stake in whole TRX, counted apart for Stake 1.0 and
for Stake 2.0 (with what it has delegated); three properties hold the sums over all accounts.
Stake 1.0 changes them by the difference of the weights before and after. Stake 2.0 changes them by
the whole TRX of the amount that moves, which is the same only when the fractions do not carry.

* `WeightsOk due s`: the properties hold the sums, but for what is `due` inside an operation.
* `Refreeze.counted_all`: what cancelling counts for a resource is what it stakes again.
* `stake_weights`: along every run whose amounts do not carry, the properties hold the sums.
* `fractions_lose_weight`: without that a weight becomes negative.
-/
namespace TronRs

open TronRs.Core

variable {r : Int32} {amount : Int64}

/-! ## The weight of an account -/

/-- The resources that have a weight. -/
def weighted : List Int32 := [bandwidth, energy, tronPower]

lemma mem_weighted : r ∈ weighted ↔ r = bandwidth ∨ r = energy ∨ r = tronPower := by simp [weighted]

lemma resources_ne : energy ≠ bandwidth ∧ tronPower ≠ bandwidth ∧ tronPower ≠ energy ∧ bandwidth ≠ energy ∧
    bandwidth ≠ tronPower ∧ energy ≠ tronPower := by decide

/-- The stake of Stake 1.0. -/
def stakedV1 (a : Account) (r : Int32) : Int :=
  if r = energy then (stakedIn (frozenEnergy a)).toInt
  else if r = tronPower then (stakedIn a.tronPower).toInt
  else exactSum (a.frozen.map Frozen.frozenBalance)

/-- The stake of Stake 2.0, with what has been delegated. -/
def stakedV2 (a : Account) (r : Int32) : Int :=
  stakedFor r a.frozenV2 + if r = tronPower then 0 else (ownerDelegated a r).toInt

/-- The stake of an account in whole TRX. -/
def accountWeight (r : Int32) (a : Account) : Int := stakedV1 a r / 1000000 + stakedV2 a r / 1000000

/-- What the weights of all accounts add up to. -/
def weightTotal (s : WorldState) (r : Int32) : Int := Column.total (fun _ => accountWeight r) s.account

/-- What the property of the resource holds. -/
def weightOf (s : WorldState) (r : Int32) : Int := (s.getProp (weightKey r)).toInt

lemma weightKey_injective {r' : Int32} (hr : r ∈ weighted) (hr' : r' ∈ weighted)
    (h : weightKey r' = weightKey r) : r' = r := by
  have hall : ∀ r ∈ weighted, ∀ r' ∈ weighted, weightKey r' = weightKey r → r' = r := by decide
  exact hall r hr r' hr' h

lemma totalWeightKey_eq (hr : r ∈ weighted) : totalWeightKey r = some (weightKey r) := by
  have hall : ∀ r ∈ weighted, totalWeightKey r = some (weightKey r) := by decide
  exact hall r hr

lemma WorldState.addWeight_eq (s : WorldState) (hr : r ∈ weighted) (delta : Int64) :
    s.addWeight r delta = s.addProp (weightKey r) delta := by rw [WorldState.addWeight, totalWeightKey_eq hr]

lemma mem_weighted_of_allowed {allowNew : Bool} (h : resourceAllowed allowNew r = true) : r ∈ weighted := by
  simp only [resourceAllowed, Bool.or_eq_true, Bool.and_eq_true, decide_eq_true_eq] at h
  rcases h with (rfl | rfl) | ⟨rfl, -⟩ <;> decide

/-- The weight of a solvent account is part of its worth. -/
lemma Solvent.accountWeight_le {single : Prop} {a : Account} (h : Solvent single a) (hr : r ∈ weighted) :
    0 ≤ accountWeight r a ∧ accountWeight r a ≤ trxWorth a := by
  have hb := h.balance
  have ha := h.allowance
  have hf := Int64.exactSum_map_nonneg h.frozen
  have he := h.energy
  have hp := h.power
  have hs := h.stakes.sum r
  have hs' := h.stakes.stakedFor_le r
  have hu := Int64.exactSum_map_nonneg h.unfreezing
  have hdb := h.delegated bandwidth rfl
  have hde := h.delegated TronRs.energy rfl
  rcases mem_weighted.mp hr with rfl | rfl | rfl <;>
    simp [accountWeight, stakedV1, stakedV2, trxWorth, resources_ne]
  all_goals omega

/-! ## The invariant -/

def WeightsOk (due : Int32 → Int) (s : WorldState) : Prop := ∀ r ∈ weighted, weightTotal s r = weightOf s r + due r

section Weights
variable {single : Prop} {total owed : Int} {due due' : Int32 → Int} {s t : WorldState} {a : Address} {x y : Account}
variable {r : Int32} {delta : Int64} {d : Int} {v : Int64} {res : ExecutionResult} {c : UnfreezeBalanceV2Contract}

/-- The weights of all accounts are part of all there is. -/
lemma TrxOk.weightTotal_le {due : Address → Int32 → Int} (h : TrxOk single total 0 due s) (hr : r ∈ weighted) :
    0 ≤ weightTotal s r ∧ weightTotal s r ≤ total := by
  have hweight := fun a x hx => (h.accounts a x hx).accountWeight_le hr
  refine ⟨Finset.sum_nonneg fun a _ => Column.share_nonneg (fun b y hy => (hweight b y hy).1) a, ?_⟩
  have hle : weightTotal s r ≤ trxTotal s := by
    refine Finset.sum_le_sum fun a _ => ?_
    unfold Column.share
    cases hx : s.account.get a with
    | none => exact le_rfl
    | some x => exact (hweight a x hx).2
  have hs := h.supply; omega

lemma WeightsOk.congr (h : WeightsOk due s) (haccount : t.account = s.account)
    (hprop : ∀ r ∈ weighted, t.getProp (weightKey r) = s.getProp (weightKey r)) : WeightsOk due t := by
  intro r hr; rw [weightTotal, haccount, weightOf, hprop r hr]; exact h r hr

/-- An account is written, and the difference of its weights is due. -/
lemma WeightsOk.putAccount (h : WeightsOk due s) (hx : s.getAccount a = some x)
    (hy : ∀ r ∈ weighted, accountWeight r y + due r = accountWeight r x + due' r) :
    WeightsOk due' (s.putAccount a y) := by
  intro r hr
  have hput : weightTotal (s.putAccount a y) r = weightTotal s r - (s.getAccount a).elim 0 (accountWeight r) +
      accountWeight r y := total_put (fun _ => accountWeight r) s.account a y
  rw [hx, Option.elim_some] at hput; have hold := h r hr
  have hnew := hy r hr; show _ = weightOf s r + due' r; omega

lemma WeightsOk.keep (h : WeightsOk due s) (hx : s.getAccount a = some x)
    (hy : ∀ r ∈ weighted, accountWeight r y = accountWeight r x) : WeightsOk due (s.putAccount a y) :=
  h.putAccount hx fun r hr => by rw [hy r hr]

/-- A property takes what is due. -/
lemma WeightsOk.settle {owe : Address → Int32 → Int} (h : WeightsOk due s)
    (htrx : TrxOk single total 0 owe s) (hr : r ∈ weighted) (hdelta : delta.toInt = due r)
    (hrest : ∀ r' ∈ weighted, r' ≠ r → due' r' = due r') (hzero : due' r = 0) :
    WeightsOk due' (s.addProp (weightKey r) delta) := by
  intro r' hr'; have hold := h r' hr'; show weightTotal s r' = _
  by_cases hrr : r' = r
  · subst hrr; obtain ⟨h0, hle⟩ := htrx.weightTotal_le hr
    have hbound := htrx.bound
    have hsum : weightOf (s.addProp (weightKey r') delta) r' = weightOf s r' + delta.toInt := by
      unfold weightOf WorldState.addProp at *
      rw [getProp_putProp_self]; exact Int64.toInt_saturatingAdd_of_fits ⟨by omega, by omega⟩
    omega
  · have hkey : weightKey r' ≠ weightKey r := fun heq => hrr (weightKey_injective hr hr' heq)
    have hsame : weightOf (s.addProp (weightKey r) delta) r' = weightOf s r' := by
      unfold weightOf WorldState.addProp; rw [getProp_putProp_of_ne _ _ hkey]
    have hd := hrest r' hr' hrr; omega

/-- The weight of an account changes in one resource, and its property takes the difference. -/
lemma WeightsOk.change (h : WeightsOk 0 s) (htrx : TrxOk single total 0 0 (s.putAccount a y))
    (hx : s.getAccount a = some x) (hr : r ∈ weighted)
    (hrest : ∀ r' ∈ weighted, r' ≠ r → accountWeight r' y = accountWeight r' x)
    (hdelta : accountWeight r y = accountWeight r x + delta.toInt) :
    WeightsOk 0 ((s.putAccount a y).addProp (weightKey r) delta) := by
  have hput : WeightsOk (fun r' => if r' = r then delta.toInt else 0) (s.putAccount a y) := by
    refine h.putAccount hx fun r' hr' => ?_
    rw [Pi.zero_apply, Int.add_zero]
    split
    · rename_i hrr; rw [hrr, hdelta]
    · rename_i hrr; rw [hrest r' hr' hrr, Int.add_zero]
  exact hput.settle htrx hr (if_pos rfl).symm (fun _ _ hne => (if_neg hne).symm) rfl

/-! ## Stake 2.0 -/

lemma toInt_div_trxPrecision (h : 0 ≤ v.toInt) : (v / trxPrecision).toInt = v.toInt / 1000000 :=
  Int64.toInt_div_of_nonneg h

lemma accountWeight_of_moved (hg : StakesMoved x.frozenV2 y.frozenV2 r d)
    (hV1 : ∀ r, stakedV1 y r = stakedV1 x r) (hdel : ∀ r, ownerDelegated y r = ownerDelegated x r) (r' : Int32) :
    accountWeight r' y = stakedV1 x r' / 1000000 + (stakedV2 x r' + if r' = r then d else 0) / 1000000 := by
  rw [accountWeight, hV1, stakedV2, hg.staked, hdel, stakedV2, Int.add_right_comm]

/-- A stake of Stake 2.0 moves by an amount that carries no fraction over. -/
lemma WeightsOk.changeV2 (h : WeightsOk 0 s)
    (htrx : TrxOk single total 0 0 (s.putAccount a y)) (hx : s.getAccount a = some x) (hr : r ∈ weighted)
    (hg : StakesMoved x.frozenV2 y.frozenV2 r d) (hV1 : ∀ r, stakedV1 y r = stakedV1 x r)
    (hdel : ∀ r, ownerDelegated y r = ownerDelegated x r)
    (hdelta : (stakedV2 x r + d) / 1000000 = stakedV2 x r / 1000000 + delta.toInt) :
    WeightsOk 0 ((s.putAccount a y).addProp (weightKey r) delta) := by
  have hweight := accountWeight_of_moved hg hV1 hdel
  refine h.change htrx hx hr (fun r' _ hne => ?_) ?_
  · rw [hweight, if_neg hne, Int.add_zero, accountWeight]
  · rw [hweight, if_pos rfl, hdelta, accountWeight]; omega

/-- The fraction of the amount and of the stake do not make up another TRX. -/
def FreezeBalanceV2Actuator.NoCarry (c : FreezeBalanceV2Contract) (s : WorldState) : Prop :=
  ∀ owner x, Address.ofBytes c.ownerAddress = some owner → s.getAccount owner = some x →
    stakedV2 x c.resource % 1000000 + c.frozenBalance.toInt % 1000000 < 1000000

lemma FreezeBalanceV2Actuator.weightsOk {c : FreezeBalanceV2Contract}
    (h : WeightsOk 0 s) (htrx : TrxOk single total 0 0 s) (hv : validate c s = .ok v) (hcarry : NoCarry c s)
    (hrun : execute c s = .ok res t) : WeightsOk 0 t := by
  have hpos := validate_pos hv
  have hr : c.resource ∈ weighted := by
    simp only [validate, check_rules] at hv; obtain ⟨-, -, -, -, _, -, -, -, -, -, -, -, -, hr, -⟩ := hv
    exact mem_weighted_of_allowed hr
  have htrx' := trxOk htrx hv hrun
  obtain ⟨owner, x, left, gs, ho, hx, -, hgs, rfl⟩ := execute_ok hrun
  rw [WorldState.addWeight_eq _ hr] at htrx' ⊢; have hno := hcarry owner x ho hx
  have hdelta := toInt_div_trxPrecision hpos.le
  exact h.changeV2 (htrx'.congr rfl rfl) hx hr (stake_ok hgs) (fun _ => rfl) (fun _ => rfl) (by omega)

/-- The fraction of the stake covers the fraction of the amount. -/
def UnfreezeBalanceV2Actuator.NoBorrow (c : UnfreezeBalanceV2Contract) (s : WorldState) : Prop :=
  ∀ owner x, Address.ofBytes c.ownerAddress = some owner → s.getAccount owner = some x →
    c.unfreezeBalance.toInt % 1000000 ≤ stakedV2 x c.resource % 1000000

lemma UnfreezeBalanceV2Actuator.validate_weighted (h : validate c s = .ok v) : c.resource ∈ weighted := by
  simp only [validate, bind_eq_ok] at h; obtain ⟨_, -, _, -, x, -, _, hcheck, -⟩ := h
  unfold checkResource at hcheck
  split at hcheck
  · rename_i hr; rw [hr]; decide
  split at hcheck
  · rename_i hr; rw [hr]; decide
  · split at hcheck
    · rename_i hr; rw [hr.1]; decide
    · cases hcheck

lemma UnfreezeBalanceV2Actuator.weightsOk
    (h : WeightsOk 0 s) (htrx : TrxOk single total 0 0 s) (hv : validate c s = .ok v) (hborrow : NoBorrow c s)
    (hrun : execute c s = .ok res t) : WeightsOk 0 t := by
  have hpos := validate_pos hv
  have hr : c.resource ∈ weighted := validate_weighted hv
  have htrx' := trxOk htrx hv hrun
  obtain ⟨owner, x, f, left, expire, ho, hx, hf, hleft, rfl⟩ := execute_ok hrun
  rw [WorldState.addWeight_eq _ hr] at htrx' ⊢; obtain ⟨hleft, -⟩ := debit_eq_some.mp hleft
  have hno := hborrow owner x ho hx
  have hdiv := toInt_div_trxPrecision hpos.le
  have hdelta : (-(c.unfreezeBalance / trxPrecision)).toInt = -(c.unfreezeBalance.toInt / 1000000) := by
    rw [Int64.toInt_neg_of_nonneg (by omega), hdiv]
  exact h.changeV2 (htrx'.congr rfl rfl) hx hr (stakesMoved_set left hf) (fun _ => rfl) (fun _ => rfl) (by omega)

lemma WithdrawExpireUnfreezeActuator.weightsOk {c : OwnerOnly} (h : WeightsOk due s)
    (hrun : execute c s = .ok res t) : WeightsOk due t := by
  obtain ⟨owner, x, sum, -, hx, -, rfl⟩ := execute_ok hrun
  exact h.keep hx fun _ _ => rfl

end Weights

/-! ## Cancelling -/

/-- What has not matured of the unfreezing list of a resource. -/
def unmatured (now : Int64) (r : Int32) (us : List UnFreezeV2) : Int :=
  exactSum ((us.filter fun u => ¬ u.unfreezeExpireTime ≤ now ∧ u.type = r).map UnFreezeV2.unfreezeAmount)

lemma unmatured_cons (now : Int64) (r : Int32) (u : UnFreezeV2) (us : List UnFreezeV2) : unmatured now r (u :: us) =
      (if ¬ u.unfreezeExpireTime ≤ now ∧ u.type = r then u.unfreezeAmount.toInt else 0) + unmatured now r us := by
  unfold unmatured
  by_cases hu : ¬ u.unfreezeExpireTime ≤ now ∧ u.type = r
  · rw [List.filter_cons_of_pos (by simpa using hu), if_pos hu, List.map_cons, Int64.exactSum_cons]
  · rw [List.filter_cons_of_neg (by simpa using hu), if_neg hu, Int.zero_add]

namespace Refreeze
variable {single : Prop} {r : Refreeze} {sum : Int} (now : Int64)

/-- What the loop has counted for a resource. -/
def counted (r : Refreeze) (q : Int32) : Int :=
  if q = bandwidth then r.net.toInt else if q = TronRs.energy then r.energy.toInt else r.power.toInt

lemma toInt_counted_count {q q' : Int32} (hq : q ∈ weighted) (hq' : q' ∈ weighted)
    (hfits : Int64.Fits (r.counted q + amount.toInt)) :
    (r.count q amount).counted q' = r.counted q' + if q' = q then amount.toInt else 0 := by
  rcases mem_weighted.mp hq with rfl | rfl | rfl <;> rcases mem_weighted.mp hq' with rfl | rfl | rfl <;>
    simp only [count, counted, resources_ne, ↓reduceIte, Int.add_zero] at hfits ⊢
  all_goals exact toInt_add_of_fits hfits

/-- One iteration stakes and counts what has not matured. -/
lemma next_spec {u : UnFreezeV2} (h : r.Holds single sum) (hu : 0 ≤ u.unfreezeAmount.toInt)
    (hsum : sum + u.unfreezeAmount.toInt < 2 ^ 63)
    (hc : ∀ q ∈ weighted, 0 ≤ r.counted q ∧ r.counted q ≤ stakedFor q r.frozenV2) :
    ∀ q ∈ weighted, stakedFor q (next now r u).frozenV2 = stakedFor q r.frozenV2 + unmatured now q [u] ∧
      (next now r u).counted q = r.counted q + unmatured now q [u] := by
  intro q hq; have hnil : unmatured now q [] = 0 := rfl; rw [unmatured_cons, hnil, Int.add_zero]
  have hstakes := h.stakes
  have hw := h.withdraw
  have htotal := h.sum; unfold next
  by_cases hm : u.unfreezeExpireTime ≤ now
  · rw [if_pos hm, if_neg (fun hn => hn.1 hm), Int.add_zero, Int.add_zero]; exact ⟨rfl, rfl⟩
  have hmoved : StakesMoved r.frozenV2 (restake r.frozenV2 u.type u.unfreezeAmount) u.type u.unfreezeAmount.toInt := by
    refine stakesMoved_restake fun f hf => ?_
    have hfirst := hstakes.first hf
    have hstaked := hstakes.sum u.type
    have hle := hstakes.stakedFor_le u.type; exact ⟨by omega, by omega⟩
  rw [if_neg hm, frozenV2_count, hmoved.staked]
  simp only [hm, not_false_eq_true, true_and, eq_comm (a := u.type)]
  by_cases htype : u.type ∈ weighted
  · have hle := hstakes.stakedFor_le u.type
    obtain ⟨h0, hcle⟩ := hc u.type htype
    exact toInt_counted_count (r := { r with frozenV2 := restake r.frozenV2 u.type u.unfreezeAmount }) htype hq
      ⟨by dsimp only [counted] at *; omega, by dsimp only [counted] at *; omega⟩
  · have hne : q ≠ u.type := fun heq => htype (heq ▸ hq)
    have hcount : ∀ r' : Refreeze, r'.count u.type u.unfreezeAmount = r' := fun r' => by
      rw [mem_weighted, not_or, not_or] at htype; simp only [count, htype, ↓reduceIte]
    rw [hcount, if_neg hne, Int.add_zero]; rfl

/-- The loop stakes and counts what has not matured. -/
lemma foldl_spec {us : List UnFreezeV2} (h : r.Holds single sum) (hus : ∀ u ∈ us, 0 ≤ u.unfreezeAmount.toInt)
    (hsum : sum + exactSum (us.map UnFreezeV2.unfreezeAmount) < 2 ^ 63)
    (hc : ∀ q ∈ weighted, 0 ≤ r.counted q ∧ r.counted q ≤ stakedFor q r.frozenV2) :
    ∀ q ∈ weighted, stakedFor q (us.foldl (next now) r).frozenV2 = stakedFor q r.frozenV2 + unmatured now q us ∧
      (us.foldl (next now) r).counted q = r.counted q + unmatured now q us := by
  induction us generalizing r sum with
  | nil => exact fun q _ => ⟨(Int.add_zero _).symm, (Int.add_zero _).symm⟩
  | cons u us ih =>
    have hu := hus u (by simp)
    have hrest : ∀ v ∈ us, 0 ≤ v.unfreezeAmount.toInt := fun v hv => hus v (by simp [hv])
    have hnn := Int64.exactSum_map_nonneg hrest
    simp only [List.map_cons, Int64.exactSum_cons, ← Int.add_assoc] at hsum
    have hnext := next_spec now h hu (by omega) hc
    have hone : ∀ q, 0 ≤ unmatured now q [u] := fun q => Int64.exactSum_map_nonneg fun v hv => by
      have hv := List.mem_of_mem_filter hv; rw [List.mem_singleton.mp hv]; exact hu
    have hheld : (next now r u).Holds single (sum + u.unfreezeAmount.toInt) := h.next hu (by omega)
    have hall := ih hheld hrest hsum fun q hq => by
      obtain ⟨hs, hcount⟩ := hnext q hq
      have hold := hc q hq
      have h1 := hone q; omega
    intro q hq; obtain ⟨hs, hcount⟩ := hnext q hq
    obtain ⟨hs', hcount'⟩ := hall q hq
    have hsplit : unmatured now q (u :: us) = unmatured now q [u] + unmatured now q us := by
      rw [unmatured_cons, unmatured_cons]; have hnil : unmatured now q [] = 0 := rfl; omega
    rw [List.foldl_cons]; omega

lemma counted_all {x : Account} (hx : Solvent single x) (hworth : trxWorth x < 2 ^ 63) :
    ∀ q ∈ weighted, stakedFor q (all now x).frozenV2 = stakedFor q x.frozenV2 + unmatured now q x.unfrozenV2 ∧
      (all now x).counted q = unmatured now q x.unfrozenV2 := by
  have hzero : ∀ q, counted ⟨x.frozenV2, 0, 0, 0, 0⟩ q = 0 := fun q => by
    unfold counted
    repeat' split
    all_goals rfl
  have hspec := foldl_spec now (holds_start hx) hx.unfreezing (stakes_unfreezing_lt hx hworth) fun q _ => by
    rw [hzero]; exact ⟨le_rfl, hx.stakes.sum q⟩
  intro q hq; obtain ⟨hs, hc⟩ := hspec q hq; rw [hzero, Int.zero_add] at hc
  exact ⟨hs, hc⟩

end Refreeze

section Cancel
variable {single : Prop} {total : Int} {due due' : Int32 → Int} {s t : WorldState} {r : Int32}

namespace CancelAllUnfreezeV2Actuator
variable {owe : Address → Int32 → Int}

lemma account_refrozen (s : WorldState) (k : Property) (amount : Int64) :
    (refrozen s k amount).account = s.account := by
  unfold refrozen; split <;> rfl

lemma delegation_refrozen (s : WorldState) (k : Property) (amount : Int64) :
    (refrozen s k amount).delegation = s.delegation := by
  unfold refrozen; split <;> rfl

/-- For no resource does the fraction of what is staked again and of the stake make up another TRX. -/
def NoCarry (c : OwnerOnly) (s : WorldState) : Prop :=
  ∀ owner x, Address.ofBytes c.ownerAddress = some owner → s.getAccount owner = some x → ∀ r ∈ weighted,
    stakedV2 x r % 1000000 +
      unmatured (s.getProp .latestBlockHeaderTimestamp) r x.unfrozenV2 % 1000000 < 1000000

lemma weightsOk_refrozen (h : WeightsOk due s)
    (htrx : TrxOk single total 0 owe s) (hr : r ∈ weighted) (h0 : 0 ≤ amount.toInt)
    (hdue : due r = amount.toInt / 1000000) (hrest : ∀ r' ∈ weighted, r' ≠ r → due' r' = due r') (hzero : due' r = 0) :
    WeightsOk due' (refrozen s (weightKey r) amount) := by
  unfold refrozen
  split
  · rename_i hamount; rw [hamount, toInt_zero] at hdue; intro r' hr'
    have hold := h r' hr'
    by_cases hrr : r' = r
    · subst hrr; omega
    · rw [hrest r' hr' hrr]; exact hold
  · exact h.settle htrx hr (by rw [toInt_div_trxPrecision h0, hdue]) hrest hzero

/-- The three properties take their parts one after the other. -/
lemma weightsOk_refrozen_all {q : Refreeze}
    (h : WeightsOk (fun r => q.counted r / 1000000) s) (htrx : TrxOk single total 0 owe s)
    (h0 : ∀ r ∈ weighted, 0 ≤ q.counted r) :
    WeightsOk 0 (refrozen (refrozen (refrozen s .totalNetWeight q.net) .totalEnergyWeight q.energy)
      .totalTronPowerWeight q.power) := by
  have hnet : WeightsOk (fun r => if r = bandwidth then 0 else q.counted r / 1000000)
      (refrozen s .totalNetWeight q.net) :=
    weightsOk_refrozen (r := bandwidth) h htrx (by decide) (h0 bandwidth (by decide)) rfl
    (fun _ _ hne => if_neg hne) rfl
  have henergy : WeightsOk (fun r => if r = tronPower then q.power.toInt / 1000000 else 0)
      (refrozen (refrozen s .totalNetWeight q.net) .totalEnergyWeight q.energy) := by
    refine weightsOk_refrozen (r := energy) hnet (trxOk_refrozen htrx _ _) (by decide) (h0 energy (by decide)) rfl
      (fun r' hr' hne => ?_) rfl
    rcases mem_weighted.mp hr' with rfl | rfl | rfl
    · rfl
    · exact absurd rfl hne
    · rfl
  exact weightsOk_refrozen (r := tronPower) henergy (trxOk_refrozen (trxOk_refrozen htrx _ _) _ _) (by decide)
    (h0 tronPower (by decide)) rfl (fun _ _ hne => (if_neg hne).symm) rfl

lemma weightsOk {c : OwnerOnly} {res : ExecutionResult} (h : WeightsOk 0 s) (htrx : TrxOk single total 0 0 s)
    (hcarry : NoCarry c s) (hrun : execute c s = .ok res t) : WeightsOk 0 t := by
  have htrx' := trxOk htrx hrun
  obtain ⟨owner, x, q, sum, ho, hx, hq, -, rfl⟩ := execute_ok hrun
  have hsolvent := htrx.accounts owner x hx
  have hworth := htrx.worth_le hx
  have hbound := htrx.bound
  have hcount := Refreeze.counted_all (s.getProp .latestBlockHeaderTimestamp) hsolvent (by omega)
  have hnn : ∀ r, 0 ≤ unmatured (s.getProp .latestBlockHeaderTimestamp) r x.unfrozenV2 := fun r =>
    Int64.exactSum_map_nonneg fun u hu => hsolvent.unfreezing u (List.mem_of_mem_filter hu)
  rw [← hq] at hcount; have hno := hcarry owner x ho hx
  have htrx1 : TrxOk single total 0 0 (s.putAccount owner
      { x with unfrozenV2 := [], frozenV2 := q.frozenV2, balance := sum }) := by
    refine htrx'.congr ?_ ?_
    · rw [account_refrozen, account_refrozen, account_refrozen]
    · rw [delegation_refrozen, delegation_refrozen, delegation_refrozen]
  have hput : WeightsOk (fun r => q.counted r / 1000000)
      (s.putAccount owner { x with unfrozenV2 := [], frozenV2 := q.frozenV2, balance := sum }) := by
    refine h.putAccount hx fun r hr => ?_
    obtain ⟨hs, hc⟩ := hcount r hr
    have hfraction := hno r hr
    have hnn := hnn r
    have hsame : stakedV1 { x with unfrozenV2 := [], frozenV2 := q.frozenV2, balance := sum } r = stakedV1 x r := rfl
    have hstaked : stakedV2 { x with unfrozenV2 := [], frozenV2 := q.frozenV2, balance := sum } r =
        stakedV2 x r + unmatured (s.getProp .latestBlockHeaderTimestamp) r x.unfrozenV2 := by
      show stakedFor r q.frozenV2 + (if r = tronPower then 0 else (ownerDelegated x r).toInt) = _
      rw [hs, stakedV2]; omega
    rw [accountWeight, accountWeight, hsame, hstaked, hc, Pi.zero_apply]; omega
  refine weightsOk_refrozen_all hput htrx1 fun r hr => ?_
  rw [(hcount r hr).2]; exact hnn r

end CancelAllUnfreezeV2Actuator
end Cancel

/-! ## Delegating -/

section Delegating
variable {single : Prop} {total : Int} {s t : WorldState} {x y : Account} {r : Int32} {res : ExecutionResult}
variable {v : Int64}

lemma SameParts.stakedV1_eq (h : SameParts x y) (r : Int32) : stakedV1 y r = stakedV1 x r := by
  rw [stakedV1, stakedV1, h.frozen, h.energy, h.power]

/-- What goes from a stake to the delegated amount keeps its weight. -/
lemma accountWeight_moved {gs : List FreezeV2} {d : Int64} (hr : resourceValid r = true)
    (hg : StakesMoved x.frozenV2 gs r (-d.toInt)) (hd : Int64.Fits ((ownerDelegated x r).toInt + d.toInt)) {r' : Int32}
    (hr' : r' ∈ weighted) :
    accountWeight r' (addOwnerDelegated { x with frozenV2 := gs } r d) = accountWeight r' x := by
  have hsame := sameParts_addOwnerDelegated { x with frozenV2 := gs } r d
  have hV1 : stakedV1 (addOwnerDelegated { x with frozenV2 := gs } r d) r' = stakedV1 x r' := hsame.stakedV1_eq r'
  have hV2 : stakedV2 (addOwnerDelegated { x with frozenV2 := gs } r d) r' = stakedV2 x r' := by
    unfold stakedV2; rw [hsame.stakes, hg.staked]
    by_cases hpower : r' = tronPower
    · have hne : tronPower ≠ r := fun heq => by rw [← heq] at hr; cases hr
      rw [if_pos hpower, if_pos hpower, hpower, if_neg hne]; omega
    · have hvalid : resourceValid r' = true := by
        rcases mem_weighted.mp hr' with rfl | rfl | rfl
        · rfl
        · rfl
        · exact absurd rfl hpower
      rw [if_neg hpower, if_neg hpower, toInt_ownerDelegated_add (x := { x with frozenV2 := gs }) hr hd hvalid]
      show _ + _ + ((ownerDelegated x r').toInt + _) = _; split <;> omega
  rw [accountWeight, accountWeight, hV1, hV2]

lemma accountWeight_addReceiverAcquired (x : Account) (r r' : Int32) (d : Int64) :
    accountWeight r' (addReceiverAcquired x r d) = accountWeight r' x := by
  have hsame := sameParts_addReceiverAcquired x r d
  rw [accountWeight, accountWeight, hsame.stakedV1_eq, stakedV2, stakedV2, hsame.stakes,
    ownerDelegated_addReceiverAcquired]

lemma DelegateResourceActuator.weightsOk {c : DelegateResourceContract} (h : WeightsOk 0 s)
    (htrx : TrxOk single total 0 0 s) (hv : validate c s = .ok v) (hrun : execute c s = .ok res t) : WeightsOk 0 t := by
  obtain ⟨o, p, x', ho', hp', hown', -, hpos, hr, hle⟩ := validate_amount hv
  obtain ⟨owner, receiver, x, y, z, rec, expire, ho, hp, hown, rfl, hz, -, -, rfl⟩ := execute_ok hrun
  obtain rfl := Option.some.inj (ho.symm.trans ho')
  obtain rfl := Option.some.inj (hown.symm.trans hown')
  obtain ⟨-, hall⟩ := amount_le htrx hown hr hle
  have hbound := htrx.bound
  have hlow := (ownerDelegated x c.resource).le_toInt
  have howner := h.keep hown fun r' hr' =>
    accountWeight_moved hr (stakesMoved htrx hown hr hpos hle) ⟨by omega, by omega⟩ hr'
  have hreceiver := howner.keep hz fun r' _ => accountWeight_addReceiverAcquired z c.resource r' c.balance
  exact hreceiver.congr rfl fun _ _ => rfl

lemma UnDelegateResourceActuator.weightsOk {c : UnDelegateResourceContract} (h : WeightsOk 0 s)
    (htrx : TrxOk single total 0 0 s) (hv : validate c s = .ok v) (hcounts : LockCounts c s)
    (hrun : execute c s = .ok res t) : WeightsOk 0 t := by
  obtain ⟨owner, receiver, u, x, m, ho, hp, hm, hu, hown, rfl⟩ := execute_ok hrun
  have hr := validate_resource hv
  obtain ⟨hpos, hle⟩ := balance_le htrx hv hcounts ho hp
  have hmerged := (mergeExpiredLock_spec htrx hr owner receiver (s.getProp .latestBlockHeaderTimestamp)).1
  have htrxm : TrxOk single total 0 0 m := hm ▸ trxOk_releaseReceiver hmerged c.balance
  have hweights : WeightsOk 0 (mergeExpiredLock s owner receiver c.resource (s.getProp .latestBlockHeaderTimestamp)) :=
    h.congr account_mergeExpiredLock fun r _ => (quiet_getProp List.not_mem_nil).mergeExpiredLock ..
  have hreleased : WeightsOk 0 m := by
    rw [hm, releaseReceiver]
    split
    · rename_i z hz
      exact hweights.keep hz fun r' _ => accountWeight_addReceiverAcquired z c.resource r' (-c.balance)
    · exact hweights
  have hu' := hu; rw [hm, getDelegation_releaseReceiver] at hu'
  rw [recordAmount, hu', Option.elim_some] at hle; have hown' := hown
  rw [getAccount_storeDelegation] at hown'
  obtain ⟨hdelegated, hmoved⟩ := withdraw_stakes htrxm hr hpos hle hu hown'
  have hneg := Int64.toInt_neg_of_nonneg hpos.le
  have hlt := (ownerDelegated x c.resource).toInt_lt
  have hstored : WeightsOk 0 (m.storeDelegation owner receiver false
      (recSetFrozen u c.resource (recFrozen u c.resource - c.balance))) :=
    hreleased.congr (account_storeDelegation ..) fun r _ => (quiet_getProp List.not_mem_nil).storeDelegation ..
  refine hstored.keep hown fun r' hr' => ?_
  rw [addFrozenV2_addOwnerDelegated]; exact accountWeight_moved hr hmoved ⟨by omega, by omega⟩ hr'

end Delegating

/-! ## Stake 1.0 -/

section StakeOne
variable {single : Prop} {total : Int} {s t : WorldState} {x y : Account} {r r' : Int32} {res : ExecutionResult}

lemma toInt_frozenBalance (h : Solvent single x) (hworth : trxWorth x < 2 ^ 63) (r : Int32) :
    (frozenBalance x r).toInt = stakedV1 x r := by
  unfold frozenBalance stakedV1
  split
  · rfl
  · split
    · rfl
    · exact frozen_toInt h hworth

lemma stakedV1_setFrozen (x : Account) (v expire : Int64) (hr : r ∈ weighted) (hr' : r' ∈ weighted) :
    stakedV1 (setFrozen x r v expire) r' = if r' = r then v.toInt else stakedV1 x r' := by
  rcases mem_weighted.mp hr with rfl | rfl | rfl <;> rcases mem_weighted.mp hr' with rfl | rfl | rfl <;>
    simp [setFrozen, stakedV1, resources_ne, frozenEnergy, stakedIn]

lemma stakedV2_setFrozen (x : Account) (r r' : Int32) (v expire : Int64) :
    stakedV2 (setFrozen x r v expire) r' = stakedV2 x r' := by
  have hdel : ownerDelegated (setFrozen x r v expire) r' = ownerDelegated x r' := by
    unfold setFrozen; dsimp only
    split
    · exact ownerDelegated_withEnergy ..
    · split <;> rfl
  have hstakes : (setFrozen x r v expire).frozenV2 = x.frozenV2 := by
    unfold setFrozen; dsimp only
    split
    · rfl
    · split <;> rfl
  rw [stakedV2, stakedV2, hdel, hstakes]

/-- A weight changes by the difference of the whole TRX. -/
lemma WeightsOk.settleV1 {a : Address} {delta : Int64} (h : WeightsOk 0 s)
    (htrx : TrxOk single total 0 0 (s.putAccount a y)) (hx : s.getAccount a = some x) (hr : r ∈ weighted)
    (hV1 : ∀ r' ∈ weighted, r' ≠ r → stakedV1 y r' = stakedV1 x r') (hV2 : ∀ r', stakedV2 y r' = stakedV2 x r')
    (hdelta : delta.toInt = stakedV1 y r / 1000000 - stakedV1 x r / 1000000) :
    WeightsOk 0 ((s.putAccount a y).addProp (weightKey r) delta) := by
  refine h.change htrx hx hr (fun r' hr' hne => ?_) ?_
  · rw [accountWeight, accountWeight, hV1 r' hr' hne, hV2]
  · rw [accountWeight, accountWeight, hV2]; omega

/-- The difference that Stake 1.0 adds is exact. -/
lemma toInt_weight_sub {new old : Int64} (hnew : 0 ≤ new.toInt) (hold : 0 ≤ old.toInt) :
    (new / trxPrecision - old / trxPrecision).toInt = new.toInt / 1000000 - old.toInt / 1000000 := by
  have hn := toInt_div_trxPrecision hnew
  have ho := toInt_div_trxPrecision hold
  have hnlt := new.toInt_lt
  have holt := old.toInt_lt; rw [toInt_sub_of_fits ⟨by omega, by omega⟩, hn, ho]

lemma FreezeBalanceActuator.weightsOk {c : FreezeBalanceContract} {v : Int64} (h : WeightsOk 0 s)
    (htrx : TrxOk single total 0 0 s) (hv : validate c s = .ok v) (hrun : execute c s = .ok res t) : WeightsOk 0 t := by
  have hvalid : c.resource ∈ weighted ∧ 0 < c.frozenBalance.toInt := by
    simp only [validate, check_rules] at hv
    obtain ⟨_, -, -, -, _, -, -, hpos, -, -, -, -, -, -, -, hr, -⟩ := hv
    exact ⟨mem_weighted_of_allowed hr, lt_iff_toInt_lt.mp hpos⟩
  obtain ⟨hr, hpos⟩ := hvalid
  have htrx' := trxOk htrx hv hrun
  obtain ⟨owner, x, expire, new, left, -, hx, hnew, -, rfl⟩ := execute_ok hrun
  have hworth := htrx.worth_le hx
  have hbound := htrx.bound
  have hsolvent := htrx.accounts owner x hx
  have hnew := checkedAdd_eq_some.mp hnew
  have hold := frozenBalance_nonneg (r := c.resource) hsolvent (by omega)
  have hV1 : ∀ r' ∈ weighted, stakedV1 (setFrozen { x with balance := left } c.resource new expire) r' =
      if r' = c.resource then new.toInt else stakedV1 x r' := fun r' hr' => stakedV1_setFrozen _ new expire hr hr'
  refine h.settleV1 (htrx'.congr rfl rfl) hx hr (fun r' hr' hne => ?_) (fun r' => stakedV2_setFrozen ..) ?_
  · rw [hV1 r' hr', if_neg hne]
  · rw [hV1 c.resource hr, if_pos rfl, ← toInt_frozenBalance hsolvent (by omega)]
    exact toInt_weight_sub (by omega) hold

namespace UnfreezeBalanceActuator
variable {c : UnfreezeBalanceContract} {v : Int64}

lemma validate_weighted (h : validate c s = .ok v) : c.resource ∈ weighted := by
  simp only [validate, bind_eq_ok] at h; obtain ⟨_, -, _, -, x, -, h⟩ := h
  by_cases hb : c.resource = bandwidth
  · rw [hb]; decide
  by_cases he : c.resource = energy
  · rw [he]; decide
  · by_cases hp : c.resource = tronPower
    · rw [hp]; decide
    · simp [hb, he, hp, throw, throwThe, MonadExceptOf.throw, bind, Except.bind] at h

lemma staked_takeFrozen {now : Int64} (h : takeFrozen now x r = (v, y)) :
    (∀ r' ∈ weighted, r' ≠ r → stakedV1 y r' = stakedV1 x r') ∧ ∀ r', stakedV2 y r' = stakedV2 x r' := by
  unfold takeFrozen at h
  by_cases hb : r = bandwidth
  · rw [if_pos hb] at h; obtain ⟨-, rfl⟩ := Prod.mk.inj h; refine ⟨fun r' hr' hne => ?_, fun _ => rfl⟩
    rcases mem_weighted.mp hr' with rfl | rfl | rfl
    · exact absurd hb.symm hne
    · rfl
    · rfl
  · rw [if_neg hb] at h
    by_cases he : r = energy
    · rw [if_pos he] at h; obtain ⟨-, rfl⟩ := Prod.mk.inj h
      refine ⟨fun r' _ hne => ?_, fun r' => ?_⟩
      · have hne' : r' ≠ energy := fun heq => hne (heq.trans he.symm)
        rw [stakedV1, stakedV1, if_neg hne', if_neg hne']
      · rw [stakedV2, stakedV2, ownerDelegated_withEnergy]
    · rw [if_neg he] at h
      by_cases hp : r = tronPower
      · rw [if_pos hp] at h; obtain ⟨-, rfl⟩ := Prod.mk.inj h; refine ⟨fun r' _ hne => ?_, fun _ => rfl⟩
        have hne' : r' ≠ tronPower := fun heq => hne (heq.trans hp.symm)
        rw [stakedV1, stakedV1, if_neg hne', if_neg hne']; rfl
      · rw [if_neg hp] at h; obtain ⟨-, rfl⟩ := Prod.mk.inj h; exact ⟨fun _ _ _ => rfl, fun _ => rfl⟩

lemma weightsOk (h : WeightsOk 0 s) (htrx : TrxOk single total 0 0 s)
    (hv : validate c s = .ok v) (hrun : execute c s = .ok res t) : WeightsOk 0 t := by
  have hr := validate_weighted hv
  have htrx' := trxOk htrx hrun
  obtain ⟨owner, x, v, y, sum, -, hx, htake, -, rfl⟩ := execute_ok hrun
  have hput : TrxOk single total 0 0 (s.putAccount owner { y with balance := sum }) := htrx'.congr rfl rfl
  have hworth := htrx.worth_le hx
  have hbound := htrx.bound
  have hsolvent := htrx.accounts owner x hx
  have hy := getAccount_putAccount_self s owner { y with balance := sum }
  have hworthy := hput.worth_le hy
  have hsolventy := hput.accounts owner _ hy
  obtain ⟨hV1, hV2⟩ := staked_takeFrozen htake; refine h.settleV1 hput hx hr hV1 hV2 ?_
  rw [← toInt_frozenBalance hsolvent (by omega), ← toInt_frozenBalance hsolventy (by omega)]
  exact toInt_weight_sub (frozenBalance_nonneg hsolventy (by omega)) (frozenBalance_nonneg hsolvent (by omega))

end UnfreezeBalanceActuator
end StakeOne

/-! ## Runs -/

/-- The amount that a step of Stake 2.0 moves carries no fraction over. -/
def WholeTrx (s : WorldState) : ContractStep → Prop
  | .apply .freezeBalanceV2 c => FreezeBalanceV2Actuator.NoCarry c s
  | .apply .unfreezeBalanceV2 c => UnfreezeBalanceV2Actuator.NoBorrow c s
  | .apply .cancelAllUnfreezeV2 c => CancelAllUnfreezeV2Actuator.NoCarry c s
  | _ => True

/-- A step that meets both conditions. -/
def WeighsExactly (s : WorldState) (l : ContractStep) : Prop := CountsLocks s l ∧ WholeTrx s l

/-- Nobody has a stake, and the weights are zero. -/
structure WeightsStart (s : WorldState) : Prop where
  ledger : LedgerStart s
  unstaked : ∀ a x, s.getAccount a = some x → ∀ r ∈ weighted, stakedV1 x r = 0 ∧ stakedFor r x.frozenV2 = 0
  zero : ∀ r ∈ weighted, s.getProp (weightKey r) = 0

structure WeightsInv (total : Int) (s : WorldState) : Prop where
  trx : TrxOk False total 0 0 s
  weights : WeightsOk 0 s

section
variable {total : Int} {s t : WorldState} {pf : Platform} {ty : ContractType} {a : Actuator (Message ty)}
  {c : Message ty}
variable {res : ExecutionResult}

lemma WeightsStart.inv (h : WeightsStart s) : WeightsInv (trxTotal s) s where
  trx := h.ledger.inv.owners
  weights r hr := by
    have hnone : weightTotal s r = 0 := Finset.sum_eq_zero fun a _ => by
      unfold Column.share
      cases hx : s.account.get a with
      | none => rfl
      | some x =>
        obtain ⟨hV1, hV2⟩ := h.unstaked a x hx r hr
        have hdel : (if r = tronPower then 0 else (ownerDelegated x r).toInt) = 0 := by
          rcases mem_weighted.mp hr with rfl | rfl | rfl
          · exact congrArg Int64.toInt (h.ledger.empty.delegated a x hx _ rfl)
          · exact congrArg Int64.toInt (h.ledger.empty.delegated a x hx _ rfl)
          · rfl
        show accountWeight r x = 0; rw [accountWeight, hV1, stakedV2, hV2, hdel]; rfl
    rw [hnone, weightOf, h.zero r hr]; rfl

lemma WeightsInv.run (h : WeightsInv total s) (hr : route pf ty = some a) (hty : ty ∈ stakeTypes)
    (hok : WeighsExactly s (.apply ty c)) (hx : a.run c s = .ok res t) : WeightsInv total t := by
  obtain ⟨⟨v, hv⟩, hx⟩ := Actuator.run_ok hx
  obtain ⟨hcounts, hwhole⟩ := hok
  obtain ⟨htrx, hweights⟩ := h; refine ⟨trxOk_stake hr hty hcounts htrx hv hx, ?_⟩
  cases ty <;> cases hr
  case freezeBalance => exact FreezeBalanceActuator.weightsOk hweights htrx hv hx
  case unfreezeBalance => exact UnfreezeBalanceActuator.weightsOk hweights htrx hv hx
  case freezeBalanceV2 => exact FreezeBalanceV2Actuator.weightsOk hweights htrx hv hwhole hx
  case unfreezeBalanceV2 => exact UnfreezeBalanceV2Actuator.weightsOk hweights htrx hv hwhole hx
  case cancelAllUnfreezeV2 => exact CancelAllUnfreezeV2Actuator.weightsOk hweights htrx hwhole hx
  case withdrawExpireUnfreeze => exact WithdrawExpireUnfreezeActuator.weightsOk hweights hx
  case delegateResource => exact DelegateResourceActuator.weightsOk hweights htrx hv hx
  case unDelegateResource => exact UnDelegateResourceActuator.weightsOk hweights htrx hv hcounts hx
  all_goals exact absurd hty (by decide)

/-- **The stake weights.** Along every run of the staking contracts whose steps of Stake 2.0 carry no fraction of a TRX
over, the properties hold the weights of all accounts, and so are never negative. -/
theorem stake_weights {ls : List ContractStep} (hs : WeightsStart s)
    (hrun : ((contractRuns pf stakeTypes (fun k _ => k ∉ weightCounters) WeightsStart).guard WeighsExactly).Run
      s ls t) : ∀ r ∈ weighted, weightOf t r = weightTotal t r ∧ 0 ≤ weightOf t r := by
  have hinv : WeightsInv (trxTotal s) t := by
    refine hrun.preserves (fun s l t h hstep => ?_) hs.inv
    cases l with
    | setProperty k v =>
      obtain ⟨-, hk, rfl⟩ := hstep; refine ⟨h.trx.congr rfl rfl, h.weights.congr rfl fun r hr => ?_⟩
      have hall : ∀ r ∈ weighted, weightKey r ∈ weightCounters := by decide
      exact getProp_putProp_of_ne s v fun heq => hk (heq ▸ hall r hr)
    | apply =>
      obtain ⟨hok, hty, a, res, hr, hx⟩ := hstep; exact h.run hr hty hok hx
  intro r hr; have hsum := (hinv.weights r hr).trans (Int.add_zero _)
  exact ⟨hsum.symm, hsum ▸ (hinv.trx.weightTotal_le hr).1⟩

end

/-! ## Fractions -/

instance FreezeBalanceV2Actuator.decidableNoCarry (c : FreezeBalanceV2Contract) (s : WorldState) :
    Decidable (NoCarry c s) :=
  inferInstanceAs (Decidable (AtAccount s c.ownerAddress fun _ => _ < _))

instance UnfreezeBalanceV2Actuator.decidableNoBorrow (c : UnfreezeBalanceV2Contract) (s : WorldState) :
    Decidable (NoBorrow c s) :=
  inferInstanceAs (Decidable (AtAccount s c.ownerAddress fun _ => _ ≤ _))

instance CancelAllUnfreezeV2Actuator.decidableNoCarry (c : OwnerOnly) (s : WorldState) : Decidable (NoCarry c s) :=
  inferInstanceAs (Decidable (AtAccount s c.ownerAddress fun _ => ∀ r ∈ weighted, _ < _))

instance (s : WorldState) (l : ContractStep) : Decidable (WholeTrx s l) := by
  unfold WholeTrx
  split
  · exact FreezeBalanceV2Actuator.decidableNoCarry _ s
  · exact UnfreezeBalanceV2Actuator.decidableNoBorrow _ s
  · exact CancelAllUnfreezeV2Actuator.decidableNoCarry _ s
  · infer_instance

instance (s : WorldState) (l : ContractStep) : Decidable (WeighsExactly s l) := inferInstanceAs (Decidable (_ ∧ _))

lemma weightsStart_stakers : WeightsStart stakers where
  ledger := ledgerStart_stakers
  unstaked := by
    have h : ∀ a x, stakers.account.get a = some x → ∀ r ∈ weighted, stakedV1 x r = 0 ∧ stakedFor r x.frozenV2 = 0 := by
      decide
    exact h
  zero := by decide

/-- Three TRX staked, of which one stays delegated. -/
theorem stake_weights_three : ∃ t, ((contractRuns Platform.blank stakeTypes (fun k _ => k ∉ weightCounters)
      WeightsStart).guard WeighsExactly).Run stakers
        [freezeThree, delegateTwo, .setProperty .latestBlockHeaderTimestamp 3000, withdrawOne] t ∧
    weightOf t bandwidth = 3 ∧ weightOf t bandwidth = weightTotal t bandwidth := by
  have h : (Lts.exec (Lts.guardStep WeighsExactly (ContractStep.next Platform.blank stakeTypes
      fun k _ => k ∉ weightCounters)) stakers
      [freezeThree, delegateTwo, .setProperty .latestBlockHeaderTimestamp 3000, withdrawOne]).map
      (fun t => weightOf t bandwidth) = some 3 := by decide +kernel
  obtain ⟨t, hrun, ht⟩ := ContractStep.exists_run h
  exact ⟨t, hrun, ht, (stake_weights weightsStart_stakers hrun bandwidth (by decide)).1⟩

def freezeHalves : ContractStep :=
  .apply .freezeBalanceV2 { ownerAddress := (Address.ofNat 0xaa).asBytes, frozenBalance := 1500000 }

def unfreezeThree : ContractStep :=
  .apply .unfreezeBalanceV2 { ownerAddress := (Address.ofNat 0xaa).asBytes, unfreezeBalance := 3000000 }

/-- One and a half TRX count as one, twice; the three TRX they make up are taken off the weight as three. -/
theorem fractions_lose_weight : WeightsStart stakers ∧
    ∃ ls t, (contractRuns Platform.blank stakeTypes (fun k _ => k ∉ weightCounters) WeightsStart).Run stakers ls t ∧
      weightOf t bandwidth = -1 ∧ weightTotal t bandwidth = 0 := by
  have hrun : (Lts.exec (ContractStep.next Platform.blank stakeTypes fun k _ => k ∉ weightCounters) stakers
      [freezeHalves, freezeHalves, unfreezeThree]).map (fun t => (weightOf t bandwidth, weightTotal t bandwidth)) =
        some (-1, 0) := by decide +kernel
  obtain ⟨t, ht, hw⟩ := Lts.Run.exists_of_exec

    (fun _ _ _ => ContractStep.step_of_next) hrun
  exact ⟨weightsStart_stakers, _, t, ht, Prod.mk.inj hw⟩

end TronRs

import TronRs.L3Actuators.Governance
import TronRs.L3Actuators.Trx.Accounts

/-!
# Staking keeps the TRX of an account

Freezing, unfreezing and withdrawing move TRX between the fields of one account. Each of these
operations writes the owner's account once, so all there is to show is that the new account is
worth as much as the old one and that no part of it is negative.

* `StakesMoved`: what adding to one stake does to the list of stakes.
* `Refreeze.Holds`: the loop of `cancel_unfreeze.rs` divides the unfreezing list between the
  stakes and the payout.
* `trxOk` of each actuator.
-/
namespace TronRs

open TronRs.Core
open UnFreezeV2 (unfreezeAmount)

variable {single : Prop}

/-- A wrapping sum is exact when nothing in it is negative and all of it fits. -/
lemma toInt_sumI64 {α : Type} {f : α → Int64} {xs : List α} (h : ∀ x ∈ xs, 0 ≤ (f x).toInt)
    (hsum : exactSum (xs.map f) < 2 ^ 63) : (sumI64 (xs.map f)).toInt = exactSum (xs.map f) := by
  have hmem : ∀ v ∈ xs.map f, 0 ≤ v.toInt := fun v hv => by obtain ⟨x, hx, rfl⟩ := List.mem_map.mp hv; exact h x hx
  have hfold : (sumI64 (xs.map f)).toInt = (0 : Int64).toInt + exactSum (xs.map f) :=
    Int64.toInt_foldl (fun _ _ => toInt_add_of_fits) hmem (by rw [toInt_zero]; omega)
  rw [hfold, toInt_zero, Int.zero_add]

/-! ## The list of stakes -/

/-- The stakes `gs` are the stakes `fs` with `delta` more in resource `r`. -/
structure StakesMoved (fs gs : List FreezeV2) (r : Int32) (delta : Int) : Prop where
  sum : exactSum (gs.map FreezeV2.amount) = exactSum (fs.map FreezeV2.amount) + delta
  staked : ∀ r', stakedFor r' gs = stakedFor r' fs + if r' = r then delta else 0
  rest : ∀ r', (stakesOf r' gs).tail = (stakesOf r' fs).tail
  types : (fs.map FreezeV2.type).Nodup → (gs.map FreezeV2.type).Nodup

section Stakes
variable {fs gs : List FreezeV2} {r : Int32} {f : FreezeV2} {v : Int64} {delta : Int}

lemma StakesMoved.ok (h : StakesMoved fs gs r delta) (hfs : StakesOk fs) (h0 : 0 ≤ stakedFor r fs + delta) :
    StakesOk gs where
  sum r' := by
    have hold := hfs.sum r'; rw [h.staked]
    split
    · rename_i hr; rw [hr]; exact h0
    · omega
  rest r' := by rw [h.rest]; exact hfs.rest r'
  rest_lt r' := by rw [h.rest]; exact hfs.rest_lt r'

lemma map_type_setFrozenV2 (r : Int32) (v : Int64) (fs : List FreezeV2) :
    (setFrozenV2 r v fs).map FreezeV2.type = fs.map FreezeV2.type := by
  induction fs with
  | nil => rfl
  | cons g gs ih =>
    unfold setFrozenV2
    split
    · rfl
    · simp [ih]

/-- Only the first stake of the resource is set. -/
lemma stakesOf_setFrozenV2 (r' : Int32) (hf : fs.find? (·.type = r) = some f) : stakesOf r' (setFrozenV2 r v fs) =
      if r' = r then { f with amount := v } :: (stakesOf r fs).tail else stakesOf r' fs := by
  induction fs with
  | nil => cases hf
  | cons x xs ih =>
    unfold setFrozenV2
    by_cases hx : x.type = r
    · simp only [List.find?_cons, hx, decide_true, Option.some.injEq] at hf; subst hf
      by_cases hr : r' = r
      · simp [stakesOf, hx, hr]
      · have hne : ¬ r = r' := Ne.symm hr; simp [stakesOf, hx, hr, hne]
    · simp only [List.find?_cons, hx, decide_false] at hf; have hrest := ih hf
      unfold stakesOf at hrest ⊢; rw [if_neg hx, List.filter_cons, hrest]
      by_cases hr : r' = r
      · simp [hx, hr]
      · simp only [if_neg hr, List.filter_cons]

lemma exactSum_setFrozenV2 (hf : fs.find? (·.type = r) = some f) :
    exactSum ((setFrozenV2 r v fs).map FreezeV2.amount) =
      exactSum (fs.map FreezeV2.amount) + (v.toInt - f.amount.toInt) := by
  induction fs with
  | nil => cases hf
  | cons x xs ih =>
    rw [List.find?_cons] at hf; unfold setFrozenV2
    by_cases hx : x.type = r
    · simp only [hx, decide_true, Option.some.injEq] at hf; subst hf
      simp only [hx, ↓reduceIte, List.map_cons, Int64.exactSum_cons]; omega
    · simp only [hx, decide_false] at hf; have hrest := ih hf
      simp only [hx, ↓reduceIte, List.map_cons, Int64.exactSum_cons]; omega

lemma stakesMoved_set (v : Int64) (hf : fs.find? (·.type = r) = some f) :
    StakesMoved fs (setFrozenV2 r v fs) r (v.toInt - f.amount.toInt) := by
  refine ⟨exactSum_setFrozenV2 hf, fun r' => ?_, fun r' => ?_, fun hn => by rw [map_type_setFrozenV2]; exact hn⟩
  · rw [stakedFor, stakesOf_setFrozenV2 r' hf]
    split
    · rename_i hr; rw [stakedFor, hr, stakesOf_of_find hf]
      simp only [List.map_cons, Int64.exactSum_cons, List.tail_cons]; omega
    · rw [Int.add_zero]; rfl
  · rw [stakesOf_setFrozenV2 r' hf]
    split
    · rename_i hr; rw [hr, List.tail_cons]
    · rfl

lemma stakesMoved_add (v : Int64) (hf : fs.find? (·.type = r) = none) : StakesMoved fs (fs ++ [⟨r, v⟩]) r v.toInt := by
  have hnil : stakesOf r fs = [] := List.filter_eq_nil_iff.mpr (List.find?_eq_none.mp hf)
  have hof : ∀ r', stakesOf r' (fs ++ [⟨r, v⟩]) = if r' = r then [⟨r, v⟩] else stakesOf r' fs := fun r' => by
    have happ : stakesOf r' (fs ++ [⟨r, v⟩]) = stakesOf r' fs ++ stakesOf r' [⟨r, v⟩] := List.filter_append ..
    rw [happ]
    split
    · rename_i hr; rw [hr, hnil]; simp [stakesOf]
    · rename_i hr; simp [stakesOf, Ne.symm hr]
  refine ⟨by simp, fun r' => ?_, fun r' => ?_, fun hn => ?_⟩
  · rw [stakedFor, hof, stakedFor]
    split
    · rename_i hr; simp [hr, hnil]
    · rw [Int.add_zero]
  · rw [hof]
    split
    · rename_i hr; rw [hr, hnil]; rfl
    · rfl
  · simp only [List.find?_eq_none, decide_eq_true_eq] at hf
    simp only [List.map_append, List.map_cons, List.map_nil]
    refine List.nodup_append.mpr ⟨hn, List.nodup_singleton r, fun t ht t' ht' => ?_⟩
    obtain ⟨g, hg, rfl⟩ := List.mem_map.mp ht; rw [List.mem_singleton.mp ht']; exact hf g hg

/-- `restake` moves the amount as long as the first stake stays in range. -/
lemma stakesMoved_restake (h : ∀ f, fs.find? (·.type = r) = some f → Int64.Fits (f.amount.toInt + v.toInt)) :
    StakesMoved fs (Refreeze.restake fs r v) r v.toInt := by
  unfold Refreeze.restake
  split
  · rename_i f hf; have hset := stakesMoved_set (f.amount + v) hf
    rwa [toInt_add_of_fits (h f hf), show f.amount.toInt + v.toInt - f.amount.toInt = v.toInt by omega] at hset
  · rename_i hf; exact stakesMoved_add v hf

end Stakes

/-- The stakes of an account are replaced; what they gain comes from the rest of it. -/
lemma Solvent.withStakes {x : Account} {gs : List FreezeV2} {r : Int32} {delta : Int} (h : Solvent single x)
    (hg : StakesMoved x.frozenV2 gs r delta) (h0 : 0 ≤ stakedFor r x.frozenV2 + delta) :
    Solvent single { x with frozenV2 := gs } :=
  { h with
    stakes := hg.ok h.stakes h0
    types := fun hs => hg.types (h.types hs) }

section
variable {total owed : Int} {due : Address → Int32 → Int} {s t : WorldState} {res : ExecutionResult}
variable {x : Account} {r : Int32} {v : Int64}

/-- The global weights are properties, which hold no TRX. -/
lemma TrxOk.addWeight (h : TrxOk single total owed due s) (r : Int32) (delta : Int64) :
    TrxOk single total owed due (s.addWeight r delta) := by
  unfold WorldState.addWeight
  split
  · exact h.congr rfl rfl
  · exact h

/-! ## Stake 2.0 -/

namespace FreezeBalanceV2Actuator
variable {c : FreezeBalanceV2Contract} {v : Int64}

lemma validate_pos (h : validate c s = .ok v) : 0 < c.frozenBalance.toInt := by
  simp only [validate, check_rules] at h; obtain ⟨-, -, -, -, -, -, -, hpos, -⟩ := h
  exact lt_iff_toInt_lt.mp hpos

lemma stake_ok {x : Account} {gs : List FreezeV2} (h : stake x c.resource c.frozenBalance = .ok gs) :
    StakesMoved x.frozenV2 gs c.resource c.frozenBalance.toInt := by
  unfold stake at h
  split at h
  · rename_i f hf; obtain ⟨sum, hsum, h⟩ := bind_eq_ok.mp h
    have hsum := checkedAdd_eq_some.mp (orThrow_eq_ok.mp hsum)
    obtain rfl := pure_eq_ok.mp h
    have hset := stakesMoved_set sum hf
    rwa [show sum.toInt - f.amount.toInt = c.frozenBalance.toInt by omega] at hset
  · rename_i hf; obtain rfl := pure_eq_ok.mp h; exact stakesMoved_add c.frozenBalance hf

lemma trxOk (h : TrxOk single total 0 due s) (hv : validate c s = .ok v) (hrun : execute c s = .ok res t) :
    TrxOk single total 0 due t := by
  have hpos := validate_pos hv
  obtain ⟨owner, x, left, gs, -, hx, hleft, hgs, rfl⟩ := execute_ok hrun
  have hsolvent := h.accounts owner x hx
  have hmoved := stake_ok hgs
  have hstaked := hsolvent.stakes.sum c.resource
  obtain ⟨hleft, hleft0⟩ := debit_eq_some.mp hleft
  refine TrxOk.addWeight ?_ _ _
  refine h.pay hx ?_ le_rfl ?_ fun _ => rfl
  · exact { hsolvent.withStakes hmoved (by omega) with balance := hleft0 }
  · have hsum := hmoved.sum; simp only [trxWorth, frozenEnergy, ownerDelegated]; omega

end FreezeBalanceV2Actuator

namespace UnfreezeBalanceV2Actuator
variable {c : UnfreezeBalanceV2Contract} {v : Int64}

lemma validate_pos (h : validate c s = .ok v) : 0 < c.unfreezeBalance.toInt := by
  simp only [validate, check_rules] at h; obtain ⟨-, -, -, -, _, -, -, -, -, hpos, -⟩ := h
  exact lt_iff_toInt_lt.mp hpos.1

lemma trxOk (h : TrxOk single total 0 due s) (hv : validate c s = .ok v) (hrun : execute c s = .ok res t) :
    TrxOk single total 0 due t := by
  have hpos := validate_pos hv
  obtain ⟨owner, x, f, left, expire, -, hx, hf, hleft, rfl⟩ := execute_ok hrun
  have hsolvent := h.accounts owner x hx
  obtain ⟨hleft, hleft0⟩ := debit_eq_some.mp hleft
  have hmoved := stakesMoved_set left hf
  have hfirst := hsolvent.stakes.first hf; refine TrxOk.addWeight ?_ _ _
  refine h.pay hx ?_ le_rfl ?_ fun _ => rfl
  · refine { hsolvent.withStakes hmoved (by omega) with unfreezing := fun u hu => ?_ }
    rcases List.mem_append.mp hu with hu | hu
    · exact hsolvent.unfreezing u hu
    · rw [List.mem_singleton.mp hu]; exact hpos.le
  · have hsum := hmoved.sum
    simp only [trxWorth, frozenEnergy, ownerDelegated, List.map_append, Int64.exactSum_append, List.map_cons,
      List.map_nil,
      Int64.exactSum_cons, Int64.exactSum_nil]
    omega

end UnfreezeBalanceV2Actuator

/-- What has matured and what has not make up the unfreezing list. -/
lemma WithdrawExpireUnfreezeActuator.exactSum_matured (now : Int64) (us : List UnFreezeV2) :
    exactSum ((matured now us).map unfreezeAmount) +
      exactSum ((us.filter fun u => ¬ u.unfreezeExpireTime ≤ now).map unfreezeAmount) =
    exactSum (us.map unfreezeAmount) := by
  have hsplit := Int64.exactSum_filter unfreezeAmount (fun u => u.unfreezeExpireTime ≤ now) us
  simpa only [matured, decide_not] using hsplit

namespace WithdrawExpireUnfreezeActuator
variable {c : OwnerOnly}

lemma trxOk (h : TrxOk single total 0 due s) (hrun : execute c s = .ok res t) : TrxOk single total 0 due t := by
  obtain ⟨owner, x, sum, -, hx, hsum, rfl⟩ := execute_ok hrun
  have hsolvent := h.accounts owner x hx
  have hworth := h.worth_le hx
  have hbound := h.bound
  have hsplit := exactSum_matured (s.getProp .latestBlockHeaderTimestamp) x.unfrozenV2
  have hparts := hsolvent.parts.unfreezing
  have hmatured : ∀ u ∈ matured (s.getProp .latestBlockHeaderTimestamp) x.unfrozenV2, 0 ≤ u.unfreezeAmount.toInt :=
    fun u hu => hsolvent.unfreezing u (List.mem_of_mem_filter hu)
  have hrest : ∀ u ∈ x.unfrozenV2.filter fun u => ¬ u.unfreezeExpireTime ≤ s.getProp .latestBlockHeaderTimestamp,
    0 ≤ u.unfreezeAmount.toInt := fun u hu => hsolvent.unfreezing u (List.mem_of_mem_filter hu)
  have hnn := Int64.exactSum_map_nonneg hmatured
  have hnn' := Int64.exactSum_map_nonneg hrest
  have hpaid := toInt_sumI64 hmatured (by omega)
  have hsum := checkedAdd_eq_some.mp hsum
  refine h.pay hx { hsolvent with balance := ?_, unfreezing := hrest } le_rfl ?_ fun _ => rfl
  · have hbal := hsolvent.balance; show 0 ≤ sum.toInt; omega
  · simp only [trxWorth, frozenEnergy, ownerDelegated]; omega

end WithdrawExpireUnfreezeActuator

/-- The stakes and the payout of the loop so far, which hold `sum`. -/
structure Refreeze.Holds (single : Prop) (r : Refreeze) (sum : Int) : Prop where
  sum : exactSum (r.frozenV2.map FreezeV2.amount) + r.withdraw.toInt = sum
  stakes : StakesOk r.frozenV2
  types : single → (r.frozenV2.map FreezeV2.type).Nodup
  withdraw : 0 ≤ r.withdraw.toInt

namespace Refreeze
variable {now : Int64} {r : Refreeze} {sum : Int} {x : Account}

lemma frozenV2_count (r : Refreeze) (resource : Int32) (amount : Int64) :
    (r.count resource amount).frozenV2 = r.frozenV2 := by
  unfold count
  repeat' split
  all_goals rfl

lemma withdraw_count (r : Refreeze) (resource : Int32) (amount : Int64) :
    (r.count resource amount).withdraw = r.withdraw := by
  unfold count
  repeat' split
  all_goals rfl

lemma Holds.next {u : UnFreezeV2} (h : r.Holds single sum) (hu : 0 ≤ u.unfreezeAmount.toInt)
    (hsum : sum + u.unfreezeAmount.toInt < 2 ^ 63) :
    (Refreeze.next now r u).Holds single (sum + u.unfreezeAmount.toInt) := by
  obtain ⟨htotal, hstakes, htypes, hwithdraw⟩ := h
  have hnn := hstakes.nonneg; unfold Refreeze.next
  split
  · have hadd := toInt_add_of_fits (a := r.withdraw) (b := u.unfreezeAmount) ⟨by omega, by omega⟩
    exact ⟨by dsimp only; omega, hstakes, htypes, by dsimp only; omega⟩
  have hstaked := hstakes.sum u.type
  have hle := hstakes.stakedFor_le u.type
  have hmoved : StakesMoved r.frozenV2 (restake r.frozenV2 u.type u.unfreezeAmount) u.type u.unfreezeAmount.toInt := by
    refine stakesMoved_restake fun f hf => ?_
    have hfirst := hstakes.first hf; exact ⟨by omega, by omega⟩
  have hmsum := hmoved.sum
  constructor
  · rw [frozenV2_count, withdraw_count]; dsimp only; omega
  · rw [frozenV2_count]; exact hmoved.ok hstakes (by omega)
  · rw [frozenV2_count]
    exact fun hs => hmoved.types (htypes hs)
  · rw [withdraw_count]; exact hwithdraw

/-- The loop divides the unfreezing list between the stakes and the payout. -/
lemma Holds.foldl {us : List UnFreezeV2} (h : r.Holds single sum) (hus : ∀ u ∈ us, 0 ≤ u.unfreezeAmount.toInt)
    (hsum : sum + exactSum (us.map unfreezeAmount) < 2 ^ 63) :
    (us.foldl (Refreeze.next now) r).Holds single (sum + exactSum (us.map unfreezeAmount)) := by
  induction us generalizing r sum with
  | nil => simpa using h
  | cons u us ih =>
    have hrest : ∀ v ∈ us, 0 ≤ v.unfreezeAmount.toInt := fun v hv => hus v (by simp [hv])
    have hnn := Int64.exactSum_map_nonneg hrest
    simp only [List.map_cons, Int64.exactSum_cons, ← Int.add_assoc] at hsum ⊢
    exact ih (h.next (hus u (by simp)) (by omega)) hrest hsum

/-- The stakes and the unfreezing list of an account together fit. -/
lemma stakes_unfreezing_lt (hx : Solvent single x) (hworth : trxWorth x < 2 ^ 63) :
    exactSum (x.frozenV2.map FreezeV2.amount) + exactSum (x.unfrozenV2.map unfreezeAmount) < 2 ^ 63 := by
  have hb := hx.balance
  have ha := hx.allowance
  have hf := Int64.exactSum_map_nonneg hx.frozen
  have he := hx.energy
  have hp := hx.power
  have hdb := hx.delegated bandwidth rfl
  have hde := hx.delegated TronRs.energy rfl; unfold trxWorth at hworth; omega

lemma holds_start (hx : Solvent single x) : Refreeze.Holds single ⟨x.frozenV2, 0, 0, 0, 0⟩
    (exactSum (x.frozenV2.map FreezeV2.amount)) := ⟨by simp, hx.stakes, hx.types, by simp⟩

lemma holds_all (now : Int64) (hx : Solvent single x) (hworth : trxWorth x < 2 ^ 63) :
    (Refreeze.all now x).Holds single (exactSum (x.frozenV2.map FreezeV2.amount) +
      exactSum (x.unfrozenV2.map unfreezeAmount)) :=
  (holds_start hx).foldl hx.unfreezing (stakes_unfreezing_lt hx hworth)

end Refreeze

namespace CancelAllUnfreezeV2Actuator
variable {c : OwnerOnly}

lemma trxOk_refrozen (h : TrxOk single total owed due s) (k : Property) (amount : Int64) :
    TrxOk single total owed due (refrozen s k amount) := by
  unfold refrozen
  split
  · exact h
  · exact h.congr rfl rfl

lemma trxOk (h : TrxOk single total 0 due s) (hrun : execute c s = .ok res t) : TrxOk single total 0 due t := by
  obtain ⟨owner, x, r, sum, -, hx, hr, hsum, rfl⟩ := execute_ok hrun
  have hsolvent := h.accounts owner x hx
  have hworth := h.worth_le hx
  have hbound := h.bound
  obtain ⟨htotal, hstakes, htypes, hwithdraw⟩ :=
    Refreeze.holds_all (s.getProp .latestBlockHeaderTimestamp) hsolvent (by omega)
  rw [← hr] at htotal hstakes htypes hwithdraw; have hsum := checkedAdd_eq_some.mp hsum
  refine trxOk_refrozen (trxOk_refrozen (trxOk_refrozen ?_ _ _) _ _) _ _
  refine h.pay hx ?_ le_rfl ?_ fun _ => rfl
  · refine { hsolvent with balance := ?_, stakes := hstakes, types := htypes, unfreezing := nofun }
    have hbal := hsolvent.balance; show 0 ≤ sum.toInt; omega
  · simp only [trxWorth, frozenEnergy, ownerDelegated, List.map_nil, Int64.exactSum_nil]; omega

end CancelAllUnfreezeV2Actuator

lemma WithdrawBalanceActuator.trxOk {c : OwnerOnly} (h : TrxOk single total 0 due s) (hx : execute c s = .ok res t) :
    TrxOk single total 0 due t := by
  apply ok_elim hx; simp only [execute, ok_rules]; intro owner _ x hx sum hsum
  have hsolvent := h.accounts owner x hx
  have hsum := checkedAdd_eq_some.mp hsum
  refine h.pay hx { hsolvent with balance := ?_, allowance := le_rfl } le_rfl ?_ fun _ => rfl
  · have hbal := hsolvent.balance
    have hall := hsolvent.allowance; show 0 ≤ sum.toInt; omega
  · simp only [trxWorth, frozenEnergy, ownerDelegated, toInt_zero]; omega

/-! ## Stake 1.0 -/

/-- The stake for energy is replaced; the rest of the resource record stays. -/
lemma ownerDelegated_withEnergy (x : Account) (o : Option Frozen) (r : Int32) :
    ownerDelegated { x with accountResource := some { x.accountResource.getD {} with
      frozenBalanceForEnergy := o } } r = ownerDelegated x r := by
  unfold ownerDelegated; cases x.accountResource <;> rfl

lemma frozen_toInt (h : Solvent single x) (hworth : trxWorth x < 2 ^ 63) :
    (sumI64 (x.frozen.map Frozen.frozenBalance)).toInt = exactSum (x.frozen.map Frozen.frozenBalance) := by
  have hle := h.parts.frozen; exact toInt_sumI64 h.frozen (by omega)

lemma frozenBalance_nonneg (h : Solvent single x) (hworth : trxWorth x < 2 ^ 63) : 0 ≤ (frozenBalance x r).toInt := by
  unfold frozenBalance
  split
  · exact h.energy
  · split
    · exact h.power
    · rw [frozen_toInt h hworth]; exact Int64.exactSum_map_nonneg h.frozen

lemma setFrozen_spec (r : Int32) (expire : Int64) (h : Solvent single x) (hworth : trxWorth x < 2 ^ 63)
    (hv : 0 ≤ v.toInt) : Solvent single (setFrozen x r v expire) ∧
      trxWorth (setFrozen x r v expire) + (frozenBalance x r).toInt = trxWorth x + v.toInt ∧
      ∀ r', ownerDelegated (setFrozen x r v expire) r' = ownerDelegated x r' := by
  have hfrozen := frozen_toInt h hworth; unfold setFrozen frozenBalance
  by_cases he : r = energy
  · have hdel := ownerDelegated_withEnergy x (some ⟨v, expire⟩)
    simp only [he, ↓reduceIte]
    refine ⟨{ h with energy := hv, delegated := fun r' hr => ?_ }, ?_, hdel⟩
    · rw [hdel]; exact h.delegated r' hr
    · simp only [trxWorth, hdel]
      simp only [frozenEnergy, stakedIn, Option.bind_some, Option.map_some, Option.getD_some]; omega
  · by_cases hp : r = tronPower
    · simp only [if_neg he, if_pos hp]; refine ⟨{ h with power := hv }, ?_, fun _ => rfl⟩
      simp only [trxWorth, frozenEnergy, ownerDelegated, stakedIn, Option.map_some, Option.getD_some]
      omega
    · simp only [if_neg he, if_neg hp]
      refine ⟨{ h with frozen := fun f hf => ?_ }, ?_, fun _ => rfl⟩
      · rw [List.mem_singleton.mp hf]; exact hv
      · simp only [trxWorth, frozenEnergy, ownerDelegated, List.map_cons, List.map_nil, Int64.exactSum_cons,
          Int64.exactSum_nil]
        omega

lemma FreezeBalanceActuator.trxOk {c : FreezeBalanceContract} (h : TrxOk single total 0 due s)
    (hv : validate c s = .ok v) (hrun : execute c s = .ok res t) : TrxOk single total 0 due t := by
  have hpos : 0 < c.frozenBalance.toInt := by
    simp only [validate, check_rules] at hv; obtain ⟨-, -, -, -, -, -, -, hpos, -⟩ := hv
    exact lt_iff_toInt_lt.mp hpos
  obtain ⟨owner, x, expire, new, left, -, hx, hnew, hleft, rfl⟩ := execute_ok hrun
  have hsolvent := h.accounts owner x hx
  have hworth := h.worth_le hx
  have hbound := h.bound
  have hnew := checkedAdd_eq_some.mp hnew
  obtain ⟨hleft, hleft0⟩ := debit_eq_some.mp hleft
  -- first the payment, then the stake that it goes to
  have hpaid : Solvent single { x with balance := left } := { hsolvent with balance := hleft0 }
  have hless : trxWorth { x with balance := left } = trxWorth x - c.frozenBalance.toInt := by
    simp only [trxWorth, frozenEnergy, ownerDelegated]; omega
  have hold : 0 ≤ (frozenBalance x c.resource).toInt := frozenBalance_nonneg hsolvent (by omega)
  obtain ⟨hset, hsum, hdel⟩ := setFrozen_spec (v := new) c.resource expire hpaid (by omega) (by omega)
  have hsame : frozenBalance { x with balance := left } c.resource = frozenBalance x c.resource := rfl
  rw [hsame] at hsum; exact (h.pay hx hset le_rfl (by omega) hdel).congr rfl rfl

/-- What is taken out of the stakes of a resource is what the account loses. -/
lemma UnfreezeBalanceActuator.takeFrozen_spec {y : Account} {now : Int64} (h : Solvent single x)
    (hworth : trxWorth x < 2 ^ 63) (htake : takeFrozen now x r = (v, y)) :
    Solvent single y ∧ trxWorth y + v.toInt = trxWorth x ∧ 0 ≤ v.toInt ∧
    ∀ r', ownerDelegated y r' = ownerDelegated x r' := by
  unfold takeFrozen at htake
  by_cases hb : r = bandwidth
  · rw [if_pos hb] at htake; obtain ⟨rfl, rfl⟩ := Prod.mk.inj htake
    have hsplit := Int64.exactSum_filter Frozen.frozenBalance (fun f => f.expireTime ≤ now) x.frozen
    have hmatured : ∀ f ∈ x.frozen.filter (·.expireTime ≤ now), 0 ≤ f.frozenBalance.toInt :=
      fun f hf => h.frozen f (List.mem_of_mem_filter hf)
    have hrest : ∀ f ∈ x.frozen.filter fun f => !decide (f.expireTime ≤ now), 0 ≤ f.frozenBalance.toInt :=
      fun f hf => h.frozen f (List.mem_of_mem_filter hf)
    have hnn := Int64.exactSum_map_nonneg hmatured
    have hnn' := Int64.exactSum_map_nonneg hrest
    have hle := h.parts.frozen
    have hsum := toInt_sumI64 hmatured (by omega); simp only [decide_not]
    refine ⟨{ h with frozen := hrest }, ?_, by omega, fun _ => rfl⟩
    simp only [trxWorth, frozenEnergy, ownerDelegated]; omega
  · rw [if_neg hb] at htake
    by_cases he : r = energy
    · rw [if_pos he] at htake; obtain ⟨rfl, rfl⟩ := Prod.mk.inj htake
      have hdel := ownerDelegated_withEnergy x none
      refine ⟨{ h with energy := le_rfl, delegated := fun r' hr => ?_ }, ?_, h.energy, hdel⟩
      · rw [hdel]; exact h.delegated r' hr
      · simp only [trxWorth, hdel]
        simp only [frozenEnergy, stakedIn, Option.bind_some, Option.map_none, Option.getD_none, toInt_zero]
        omega
    · rw [if_neg he] at htake
      by_cases hp : r = tronPower
      · rw [if_pos hp] at htake; obtain ⟨rfl, rfl⟩ := Prod.mk.inj htake
        refine ⟨{ h with power := le_rfl }, ?_, h.power, fun _ => rfl⟩
        simp only [trxWorth, frozenEnergy, ownerDelegated, stakedIn, Option.map_none, Option.getD_none,
          toInt_zero]
        omega
      · rw [if_neg hp] at htake; obtain ⟨rfl, rfl⟩ := Prod.mk.inj htake
        exact ⟨h, by simp, le_rfl, fun _ => rfl⟩

lemma UnfreezeBalanceActuator.trxOk {c : UnfreezeBalanceContract} (h : TrxOk single total 0 due s)
    (hrun : execute c s = .ok res t) : TrxOk single total 0 due t := by
  obtain ⟨owner, x, v, y, sum, -, hx, htake, hsum, rfl⟩ := execute_ok hrun
  have hworth := h.worth_le hx
  have hbound := h.bound
  obtain ⟨hy, hworthy, hv, hdel⟩ := takeFrozen_spec (h.accounts owner x hx) (by omega) htake
  have hsum := checkedAdd_eq_some.mp hsum
  have hbal := hy.balance
  refine TrxOk.congr (h.pay hx ?_ le_rfl ?_ ?_) rfl rfl
  · exact { hy with balance := by dsimp only; omega }
  · rw [← hworthy]; simp only [trxWorth, frozenEnergy, ownerDelegated]; omega
  · exact hdel

end
end TronRs

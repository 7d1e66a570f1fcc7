import TronRs.L3Actuators.Trx.Stakes

/-!
# Delegating keeps the TRX of an account

Delegating moves TRX from a stake to the delegated amount of the same account and adds a record
of it; withdrawing goes the other way. Withdrawing takes no more than the records of the pair
hold, and the delegated amount is the sum of all the records of its owner, so it cannot become
negative.

* `dueAt`: the amount by which records and account differ inside an operation.
* `moveDelegated_spec`: the owner's side of both operations.
* `UnDelegateResourceActuator.available_le`: what `validate` counts as available is in the
  unlocked record once a matured lock has been merged, unless the lock has expiry time zero.
-/
namespace TronRs

open TronRs.Core

variable {single : Prop} {res : ExecutionResult} {gs : List FreezeV2} {r' : Int32} {owner : Address} {r : Int32}

/-! ## What is due inside an operation -/

/-- `v` is due for one owner and resource, and nothing else. -/
def dueAt (owner : Address) (r : Int32) (v : Int) : Address → Int32 → Int :=
  fun a r' => if a = owner ∧ r' = r then v else 0

lemma dueAt_self (owner : Address) (r : Int32) (v : Int) : dueAt owner r v owner r = v := by simp [dueAt]

lemma dueAt_of_ne (v : Int) (a : Address) (h : r' ≠ r) : dueAt owner r v a r' = 0 := by simp [dueAt, h]

lemma dueAt_zero (owner : Address) (r : Int32) : dueAt owner r 0 = 0 := by
  funext a r'; simp [dueAt]

lemma dueAt_other {b : Address} (r : Int32) (v w : Int) (h : b ≠ owner) : dueAt owner r v b = dueAt owner r w b := by
  funext r'; simp [dueAt, h]

/-! ## Records -/

lemma recFrozen_eq_zero {rec : DelegatedResource} (h : recIsEmpty rec = true) (r : Int32) : recFrozen rec r = 0 := by
  simp only [recIsEmpty, Bool.and_eq_true, decide_eq_true_eq] at h; unfold recFrozen
  split
  · exact h.1
  · exact h.2

lemma recFrozen_newDelegation (owner receiver : Address) (r : Int32) :
    recFrozen (newDelegation owner receiver) r = 0 := by
  unfold recFrozen; split <;> rfl

/-- The record of a pair, or a new one. -/
lemma toInt_recFrozen_getD (s : WorldState) (owner receiver : Address) (lock : Bool) (r : Int32) :
    (recFrozen ((s.getDelegation owner receiver lock).getD (newDelegation owner receiver)) r).toInt =
      recordAmount s owner receiver lock r := by
  unfold recordAmount
  cases s.getDelegation owner receiver lock with
  | none => rw [Option.getD_none, recFrozen_newDelegation]; rfl
  | some => rfl

/-- A record is stored, or deleted when it is empty. -/
lemma get_storeDelegation (s : WorldState) (owner receiver : Address) (lock : Bool) (rec : DelegatedResource) :
    (s.storeDelegation owner receiver lock rec).delegation.get (owner, receiver, lock) = some rec ∨
      (s.storeDelegation owner receiver lock rec).delegation.get (owner, receiver, lock) = none ∧
        ∀ r, recFrozen rec r = 0 := by
  unfold WorldState.storeDelegation
  split
  · rename_i he; exact .inr ⟨Column.get_delete_self .., recFrozen_eq_zero he⟩
  · exact .inl (get_put_self ..)

lemma getAccount_storeDelegation (s : WorldState) (owner receiver : Address) (lock : Bool) (rec : DelegatedResource)
    (a : Address) : (s.storeDelegation owner receiver lock rec).getAccount a = s.getAccount a := by
  rw [WorldState.getAccount, account_storeDelegation, WorldState.getAccount]

lemma recordAmount_storeDelegation (s : WorldState) (owner receiver : Address) (lock : Bool) (rec : DelegatedResource)
    (r : Int32) : recordAmount (s.storeDelegation owner receiver lock rec) owner receiver lock r =
      (recFrozen rec r).toInt := by
  unfold recordAmount WorldState.getDelegation
  rcases get_storeDelegation s owner receiver lock rec with hget | ⟨hget, hzero⟩
  · rw [hget, Option.elim_some]
  · rw [hget, Option.elim_none, hzero, toInt_zero]

namespace TrxOk
variable {total owed v w : Int} {s : WorldState} {owner receiver : Address} {lock : Bool} {r : Int32}
variable {rec : DelegatedResource}

/-- The amount of one resource in one record is stored. -/
lemma storeDelegation (h : TrxOk single total owed (dueAt owner r v) s) (hr : resourceValid r = true)
    (h0 : 0 ≤ (recFrozen rec r).toInt)
    (hamount : (recFrozen rec r).toInt + v = recordAmount s owner receiver lock r + w)
    (hother : ∀ r', resourceValid r' = true → r' ≠ r →
      (recFrozen rec r').toInt = recordAmount s owner receiver lock r') :
    TrxOk single total owed (dueAt owner r w) (s.storeDelegation owner receiver lock rec) := by
  have hget := get_storeDelegation s owner receiver lock rec
  refine h.writeRecord (fun r' hr' => ?_) ?_ hget (fun k hk => ?_) (fun r' hr' => ?_) fun b hb =>
    dueAt_other r w v hb
  · by_cases hrr : r' = r
    · rw [hrr]; exact h0
    · rw [hother r' hr' hrr]; exact h.recordAmount_nonneg hr' ..
  · unfold WorldState.storeDelegation; split <;> rfl
  · unfold WorldState.storeDelegation
    split
    · exact get_delete_of_ne hk
    · exact get_put_of_ne hk
  · by_cases hrr : r' = r
    · subst hrr; rw [dueAt_self, dueAt_self]; omega
    · rw [dueAt_of_ne w owner hrr, dueAt_of_ne v owner hrr, hother r' hr' hrr]

/-- The record of a pair, or a new one, with another amount of one resource. -/
lemma storeAmount {n : Int64} (h : TrxOk single total owed (dueAt owner r v) s) (hr : resourceValid r = true)
    (hrec : ∀ r', recFrozen rec r' = recFrozen (recSetFrozen
      ((s.getDelegation owner receiver lock).getD (newDelegation owner receiver)) r n) r')
    (h0 : 0 ≤ n.toInt) (hw : n.toInt + v = recordAmount s owner receiver lock r + w) :
    TrxOk single total owed (dueAt owner r w) (s.storeDelegation owner receiver lock rec) := by
  have hnew : recFrozen rec r = n := (hrec r).trans (recFrozen_recSetFrozen ..)
  refine h.storeDelegation hr (by rw [hnew]; exact h0) (by rw [hnew]; exact hw) fun r' hr' hne => ?_
  rw [hrec, recFrozen_recSetFrozen_of_ne _ _ hr hr' hne, toInt_recFrozen_getD]

end TrxOk

/-- A record with something in it is not deleted. -/
lemma WorldState.storeDelegation_of_pos (s : WorldState) (owner receiver : Address) (lock : Bool)
    {rec : DelegatedResource} (h : 0 < (recFrozen rec r).toInt) :
    s.storeDelegation owner receiver lock rec = s.putDelegation owner receiver lock rec := by
  unfold WorldState.storeDelegation
  refine if_neg fun he => ?_
  rw [recFrozen_eq_zero he, toInt_zero] at h; omega

/-! ## Accounts -/

/-- Two accounts differ at most in what they have delegated or acquired. -/
structure SameParts (x y : Account) : Prop where
  balance : y.balance = x.balance
  allowance : y.allowance = x.allowance
  frozen : y.frozen = x.frozen
  energy : frozenEnergy y = frozenEnergy x
  power : y.tronPower = x.tronPower
  stakes : y.frozenV2 = x.frozenV2
  unfreezing : y.unfrozenV2 = x.unfrozenV2

section Accounts
variable {x y : Account} {r : Int32} {d : Int64}

lemma SameParts.solvent (h : SameParts x y) (hx : Solvent single x)
    (hdel : ∀ r, resourceValid r = true → 0 ≤ (ownerDelegated y r).toInt) : Solvent single y where
  balance := by rw [h.balance]; exact hx.balance
  allowance := by rw [h.allowance]; exact hx.allowance
  frozen := by rw [h.frozen]; exact hx.frozen
  energy := by rw [h.energy]; exact hx.energy
  power := by rw [h.power]; exact hx.power
  stakes := by rw [h.stakes]; exact hx.stakes
  unfreezing := by rw [h.unfreezing]; exact hx.unfreezing
  delegated := hdel
  types := by rw [h.stakes]; exact hx.types

lemma SameParts.worth (h : SameParts x y) :
    trxWorth y + ((ownerDelegated x bandwidth).toInt + (ownerDelegated x TronRs.energy).toInt) =
      trxWorth x + ((ownerDelegated y bandwidth).toInt + (ownerDelegated y TronRs.energy).toInt) := by
  simp only [trxWorth, h.balance, h.allowance, h.frozen, h.energy, h.power, h.stakes, h.unfreezing]
  omega

lemma sameParts_addOwnerDelegated (x : Account) (r : Int32) (d : Int64) : SameParts x (addOwnerDelegated x r d) := by
  unfold addOwnerDelegated
  split
  · constructor <;> rfl
  · refine ⟨rfl, rfl, rfl, ?_, rfl, rfl, rfl⟩; unfold frozenEnergy; cases x.accountResource <;> rfl

lemma sameParts_addReceiverAcquired (x : Account) (r : Int32) (d : Int64) :
    SameParts x (addReceiverAcquired x r d) := by
  unfold addReceiverAcquired
  generalize (if d < 0 ∧ receiverAcquired x r < -d then 0 else receiverAcquired x r + d) = v
  split
  · constructor <;> rfl
  · refine ⟨rfl, rfl, rfl, ?_, rfl, rfl, rfl⟩; unfold frozenEnergy; cases x.accountResource <;> rfl

lemma ownerDelegated_addReceiverAcquired (x : Account) (r r' : Int32) (d : Int64) :
    ownerDelegated (addReceiverAcquired x r d) r' = ownerDelegated x r' := by
  unfold addReceiverAcquired
  generalize (if d < 0 ∧ receiverAcquired x r < -d then 0 else receiverAcquired x r + d) = v
  split
  · rfl
  · unfold ownerDelegated; cases x.accountResource <;> rfl

/-- What `add_owner_delegated` does, seen from every resource. -/
lemma toInt_ownerDelegated_add (hr : resourceValid r = true)
    (hd : Int64.Fits ((ownerDelegated x r).toInt + d.toInt)) (hr' : resourceValid r' = true) :
    (ownerDelegated (addOwnerDelegated x r d) r').toInt =
      (ownerDelegated x r').toInt + if r' = r then d.toInt else 0 := by
  have hget : ∀ o : Option AccountResource, (o.getD {}).delegatedFrozenV2BalanceForEnergy =
      (o.map AccountResource.delegatedFrozenV2BalanceForEnergy).getD 0 := fun o => by cases o <;> rfl
  rw [resourceValid_iff] at hr hr'
  rcases hr with rfl | rfl <;> rcases hr' with rfl | rfl
  · rw [if_pos rfl]; exact toInt_add_of_fits hd
  · exact (Int.add_zero _).symm
  · exact (Int.add_zero _).symm
  · rw [if_pos rfl]; have hadd := toInt_add_of_fits hd; rw [← hadd]
    exact congrArg (fun v => (v + d).toInt) (hget x.accountResource)

/-- TRX moves between the stakes and the delegated amount of a resource. -/
lemma moveDelegated_spec (hx : Solvent single x) (hr : resourceValid r = true)
    (hg : StakesMoved x.frozenV2 gs r (-d.toInt)) (hs : 0 ≤ stakedFor r x.frozenV2 + -d.toInt)
    (h0 : 0 ≤ (ownerDelegated x r).toInt + d.toInt) (h1 : (ownerDelegated x r).toInt + d.toInt < 2 ^ 63) :
    Solvent single (addOwnerDelegated { x with frozenV2 := gs } r d) ∧
      trxWorth (addOwnerDelegated { x with frozenV2 := gs } r d) = trxWorth x ∧
      ∀ r', resourceValid r' = true → (ownerDelegated (addOwnerDelegated { x with frozenV2 := gs } r d) r').toInt =
        (ownerDelegated x r').toInt + if r' = r then d.toInt else 0 := by
  have hfits : Int64.Fits ((ownerDelegated x r).toInt + d.toInt) := ⟨by omega, h1⟩
  have hdel : ∀ r', resourceValid r' = true →
      (ownerDelegated (addOwnerDelegated { x with frozenV2 := gs } r d) r').toInt =
        (ownerDelegated x r').toInt + if r' = r then d.toInt else 0 :=
    fun r' hr' => toInt_ownerDelegated_add hr hfits hr'
  have hsame := sameParts_addOwnerDelegated { x with frozenV2 := gs } r d
  refine ⟨hsame.solvent (hx.withStakes hg hs) fun r' hr' => ?_, ?_, hdel⟩
  · rw [hdel r' hr']; have hold := hx.delegated r' hr'
    split
    · rename_i hrr; rw [hrr]; exact h0
    · omega
  · have hworth := hsame.worth
    have hsum := hg.sum
    have hb := hdel bandwidth rfl
    have he := hdel TronRs.energy rfl
    have hstakes : trxWorth { x with frozenV2 := gs } = trxWorth x - d.toInt := by
      simp only [trxWorth, frozenEnergy, ownerDelegated]; omega
    have hbase : ∀ r', ownerDelegated { x with frozenV2 := gs } r' = ownerDelegated x r' := fun _ => rfl
    rw [hbase, hbase, hstakes] at hworth
    rw [resourceValid_iff] at hr
    rcases hr with rfl | rfl
    · rw [if_pos rfl] at hb; rw [if_neg (by decide)] at he; omega
    · rw [if_neg (by decide)] at hb; rw [if_pos rfl] at he; omega

/-- What can be delegated is the sum of the stakes. -/
lemma toInt_frozenV2Amount (hx : StakesOk x.frozenV2) (hsum : stakedFor r x.frozenV2 < 2 ^ 63) :
    (frozenV2Amount x r).toInt = stakedFor r x.frozenV2 := by
  have hdef : frozenV2Amount x r = ((stakesOf r x.frozenV2).map FreezeV2.amount).foldl Int64.saturatingAdd 0 := rfl
  cases hf : x.frozenV2.find? (·.type = r) with
  | none =>
    have hnil : stakesOf r x.frozenV2 = [] := List.filter_eq_nil_iff.mpr (List.find?_eq_none.mp hf)
    rw [hdef, stakedFor, hnil]; rfl
  | some f =>
    have hlow := f.amount.le_toInt
    have hlt := f.amount.toInt_lt
    have hmem : ∀ v ∈ (stakesOf r x.frozenV2).tail.map FreezeV2.amount, 0 ≤ v.toInt := by
      intro v hv; obtain ⟨g, hg, rfl⟩ := List.mem_map.mp hv; exact hx.rest r g hg
    have hfirst : ((0 : Int64).saturatingAdd f.amount).toInt = f.amount.toInt := by
      rw [Int64.toInt_saturatingAdd_of_fits (by rw [toInt_zero, Int.zero_add]; exact ⟨hlow, hlt⟩),
        toInt_zero, Int.zero_add]
    rw [stakedFor, stakesOf_of_find hf, List.map_cons, Int64.exactSum_cons] at hsum
    rw [hdef, stakedFor, stakesOf_of_find hf, List.map_cons, List.foldl_cons, Int64.exactSum_cons,
      Int64.toInt_foldl (fun _ _ => Int64.toInt_saturatingAdd_of_fits) hmem (by rw [hfirst]; exact hsum), hfirst]

/-- What can be delegated is staked. -/
lemma le_stakedFor {b : Int64} (hx : Solvent single x) (hworth : trxWorth x < 2 ^ 63)
    (hle : b ≤ frozenV2Amount x r) : b.toInt ≤ stakedFor r x.frozenV2 := by
  have hparts := hx.parts.stakes
  have hstaked := hx.stakes.stakedFor_le r
  rwa [le_iff_toInt_le, toInt_frozenV2Amount hx.stakes (by omega)] at hle

end Accounts

/-- The owner's side of both operations. -/
lemma TrxOk.moveDelegated {total v : Int} {s : WorldState} {x y : Account} {d : Int64}
    (h : TrxOk single total 0 (dueAt owner r v) s) (hx : s.getAccount owner = some x)
    (hr : resourceValid r = true) (hy : y = addOwnerDelegated { x with frozenV2 := gs } r d)
    (hg : StakesMoved x.frozenV2 gs r (-d.toInt)) (hs : 0 ≤ stakedFor r x.frozenV2 + -d.toInt)
    (h0 : 0 ≤ (ownerDelegated x r).toInt + d.toInt) (h1 : (ownerDelegated x r).toInt + d.toInt < 2 ^ 63) :
    TrxOk single total 0 (dueAt owner r (v - d.toInt)) (s.putAccount owner y) := by
  subst hy; obtain ⟨hsolvent, hworth, hdel⟩ := moveDelegated_spec (h.accounts owner x hx) hr hg hs h0 h1
  refine h.putAccount hx hsolvent le_rfl (by omega) (fun r' hr' => ?_) fun b hb => dueAt_other _ _ _ hb
  rw [hdel r' hr']
  by_cases hrr : r' = r
  · subst hrr; rw [if_pos rfl, dueAt_self, dueAt_self]; omega
  · rw [if_neg hrr, dueAt_of_ne _ _ hrr, dueAt_of_ne _ _ hrr]; omega

/-- What an account has acquired is not its TRX. -/
lemma TrxOk.acquire {total owed : Int} {due : Address → Int32 → Int} {s : WorldState} {a : Address} {x : Account}
    (h : TrxOk single total owed due s) (hx : s.getAccount a = some x) (r : Int32) (d : Int64) :
    TrxOk single total owed due (s.putAccount a (addReceiverAcquired x r d)) := by
  have hsame := sameParts_addReceiverAcquired x r d
  have hdel := ownerDelegated_addReceiverAcquired x r (d := d)
  have hsolvent := h.accounts a x hx
  have hworth := hsame.worth; rw [hdel, hdel] at hworth
  refine h.pay hx (hsame.solvent hsolvent fun r' hr' => ?_) h.owes (by omega) hdel; rw [hdel]
  exact hsolvent.delegated r' hr'

/-! ## Delegating -/

namespace DelegateResourceActuator
variable {c : DelegateResourceContract} {total : Int} {s t : WorldState} {v : Int64} {owner : Address} {x : Account}

lemma validate_amount (h : validate c s = .ok v) : ∃ owner receiver x,
    Address.ofBytes c.ownerAddress = some owner ∧ Address.ofBytes c.receiverAddress = some receiver ∧
      s.getAccount owner = some x ∧ receiver ≠ owner ∧ 0 < c.balance.toInt ∧ resourceValid c.resource = true ∧
      c.balance ≤ frozenV2Amount x c.resource := by
  simp only [validate, check_rules, parseAddress_eq_ok] at h
  obtain ⟨owner, ho, x, hx, -, hpos, -, hr, -, hle, receiver, hrec, -, hne, -⟩ := h
  have hone : trxPrecision.toInt = 1000000 := rfl
  have hpos := le_iff_toInt_le.mp hpos; exact ⟨owner, receiver, x, ho, hrec, hx, hne, by omega, hr, hle⟩

variable (h : TrxOk single total 0 0 s)
include h

variable (hown : s.getAccount owner = some x)
include hown

/-- What is delegated now and what was delegated before is part of all there is. -/
lemma amount_le (hr : resourceValid c.resource = true) (hle : c.balance ≤ frozenV2Amount x c.resource) :
    c.balance.toInt ≤ stakedFor c.resource x.frozenV2 ∧
      (ownerDelegated x c.resource).toInt + c.balance.toInt ≤ total := by
  have hsolvent := h.accounts owner x hown
  have hworth := h.worth_le hown
  have hbound := h.bound
  have hstaked := le_stakedFor hsolvent (by omega) hle
  have hsum := hsolvent.stakes.stakedFor_le c.resource
  have hparts := hsolvent.parts.delegated c.resource hr
  exact ⟨hstaked, by omega⟩

/-- The owner's stakes lose what is delegated. -/
lemma stakesMoved
    (hr : resourceValid c.resource = true) (hpos : 0 < c.balance.toInt)
    (hle : c.balance ≤ frozenV2Amount x c.resource) :
    StakesMoved x.frozenV2 (Refreeze.restake x.frozenV2 c.resource (-c.balance)) c.resource (-c.balance.toInt) := by
  have hsolvent := h.accounts owner x hown
  obtain ⟨hstaked, -⟩ := amount_le h hown hr hle
  rw [← Int64.toInt_neg_of_nonneg hpos.le]
  refine stakesMoved_restake fun f hf => ?_
  have hfirst := hsolvent.stakes.first hf
  have hlt := f.amount.toInt_lt
  have hneg := Int64.toInt_neg_of_nonneg hpos.le
  exact ⟨by omega, by omega⟩

/-- The new amount of the record is exact. -/
lemma toInt_record {receiver : Address} {rec : DelegatedResource} (hr : resourceValid c.resource = true)
    (hpos : 0 < c.balance.toInt) (hle : c.balance ≤ frozenV2Amount x c.resource)
    (hrec : rec = (s.getDelegation owner receiver c.lock).getD (newDelegation owner receiver)) :
    (recFrozen rec c.resource + c.balance).toInt =
      recordAmount s owner receiver c.lock c.resource + c.balance.toInt := by
  obtain ⟨-, hall⟩ := amount_le h hown hr hle
  have hbound := h.bound
  have hpair := h.recordAmount_le hr owner receiver
  have hlock := h.recordAmount_nonneg hr owner receiver true
  have hunlock := h.recordAmount_nonneg hr owner receiver false
  rw [delegatedBy, hown, Option.elim_some, Pi.zero_apply, Pi.zero_apply] at hpair
  have hpart : 0 ≤ recordAmount s owner receiver c.lock c.resource ∧
      recordAmount s owner receiver c.lock c.resource ≤ (ownerDelegated x c.resource).toInt := by
    cases c.lock
    · exact ⟨hunlock, by omega⟩
    · exact ⟨hlock, by omega⟩
  have hold := toInt_recFrozen_getD s owner receiver c.lock c.resource
  rw [hrec, toInt_add_of_fits ⟨by omega, by omega⟩, hold]

omit hown

lemma trxOk (hv : validate c s = .ok v) (hrun : execute c s = .ok res t) : TrxOk single total 0 0 t := by
  obtain ⟨o, p, x', ho', hp', hown', -, hpos, hr, hle⟩ := validate_amount hv
  obtain ⟨owner, receiver, x, y, z, rec, expire, ho, hp, hown, rfl, hz, hrec, -, rfl⟩ := execute_ok hrun
  obtain rfl := Option.some.inj (ho.symm.trans ho')
  obtain rfl := Option.some.inj (hown.symm.trans hown')
  have hsolvent := h.accounts owner x hown
  obtain ⟨hstaked, hall⟩ := amount_le h hown hr hle
  have hbound := h.bound
  have hdel0 := hsolvent.delegated c.resource hr
  have hmoved := stakesMoved h hown hr hpos hle
  have hsum := toInt_record h hown hr hpos hle hrec
  have hnn := h.recordAmount_nonneg hr owner receiver c.lock
  rw [← dueAt_zero owner c.resource] at h
  have howner := h.moveDelegated hown hr rfl hmoved (by omega) (by omega) (by omega)
  have hreceiver := howner.acquire hz c.resource c.balance
  rw [← WorldState.storeDelegation_of_pos, ← dueAt_zero owner c.resource]
  · refine hreceiver.storeAmount hr (fun r' => ?_) (n := recFrozen rec c.resource + c.balance) (by omega) ?_
    · rw [recFrozen_recSetExpire, hrec]; rfl
    · show _ = recordAmount s owner receiver c.lock c.resource + 0; omega
  · rw [recFrozen_recSetExpire, recFrozen_recSetFrozen]; omega

end DelegateResourceActuator

/-! ## Withdrawing a delegation -/

namespace UnDelegateResourceActuator
variable {c : UnDelegateResourceContract} {total : Int} {s t : WorldState} {owner receiver : Address} {r : Int32}
variable {now : Int64} {v b : Int64} {u : DelegatedResource} {x : Account}

/-- Both records of a pair together fit. -/
lemma toInt_merged {lock : DelegatedResource} (h : TrxOk single total 0 0 s) (hr : resourceValid r = true)
    (hlock : s.getDelegation owner receiver true = some lock) :
    (recFrozen ((s.getDelegation owner receiver false).getD (newDelegation owner receiver)) r +
      recFrozen lock r).toInt =
      recordAmount s owner receiver false r + (recFrozen lock r).toInt := by
  have hlocked : recordAmount s owner receiver true r = (recFrozen lock r).toInt := by
    rw [recordAmount, hlock, Option.elim_some]
  have hlock0 := h.recordAmount_nonneg hr owner receiver true
  have hunlock0 := h.recordAmount_nonneg hr owner receiver false
  have hpair := h.recordAmount_le hr owner receiver
  have hall := h.delegatedBy_le hr owner
  have hbound := h.bound; rw [Pi.zero_apply, Pi.zero_apply] at hpair
  have hold := toInt_recFrozen_getD s owner receiver false r
  rw [toInt_add_of_fits ⟨by omega, by omega⟩, hold]

/-- Merging a lock keeps what the pair has, and a matured lock ends up in the unlocked record. -/
lemma mergeExpiredLock_spec (h : TrxOk single total 0 0 s) (hr : resourceValid r = true) (owner receiver : Address)
    (now : Int64) : TrxOk single total 0 0 (mergeExpiredLock s owner receiver r now) ∧
      ∀ lock, s.getDelegation owner receiver true = some lock →
        ¬ (recFrozen lock r = 0 ∨ recExpire lock r = 0 ∨ now ≤ recExpire lock r) →
        recordAmount (mergeExpiredLock s owner receiver r now) owner receiver false r =
          recordAmount s owner receiver false r + (recFrozen lock r).toInt := by
  rcases mergeExpiredLock_cases s owner receiver r now with ⟨hstay, heq⟩ | ⟨lock, unlock, hlock, rfl, hmerge, heq⟩
  · rw [heq]; exact ⟨h, fun lock hlock hmerge => absurd (hstay lock hlock) hmerge⟩
  rw [heq]; have hsum := toInt_merged h hr hlock
  have hlock0 := h.records _ lock hlock r hr
  have hunlock0 := h.recordAmount_nonneg hr owner receiver false
  have hne : recFrozen lock r ≠ 0 := fun h0 => hmerge (.inl h0)
  have hpos : (recFrozen lock r).toInt ≠ 0 := fun h0 => hne (toInt_inj.mp h0)
  -- first the unlocked record grows, then the lock is emptied
  rw [← dueAt_zero owner r] at h ⊢
  have hmerged : TrxOk single total 0 (dueAt owner r (recFrozen lock r).toInt) (s.putDelegation owner receiver false
      (recSetFrozen ((s.getDelegation owner receiver false).getD (newDelegation owner receiver)) r
        (recFrozen ((s.getDelegation owner receiver false).getD (newDelegation owner receiver)) r +
          recFrozen lock r))) := by
    rw [← WorldState.storeDelegation_of_pos]
    · exact h.storeAmount hr (fun _ => rfl) (by omega) (by omega)
    · rw [recFrozen_recSetFrozen]; omega
  have hlock' : ∀ rec, (s.putDelegation owner receiver false rec).getDelegation owner receiver true = some lock :=
    fun rec => (get_put_of_ne (by simp)).trans hlock
  refine ⟨hmerged.storeAmount hr (fun r' => ?_) (n := 0) le_rfl ?_, fun lock' hlock'' _ => ?_⟩
  · rw [hlock', Option.getD_some, recFrozen_recSetExpire]
  · rw [recordAmount, hlock', Option.elim_some, toInt_zero]; omega
  · cases hlock.symm.trans hlock''; rw [recordAmount, getDelegation_storeDelegation_true, ← hsum]
    have hget := get_put_self s.delegation (owner, receiver, false)
    rw [WorldState.getDelegation, WorldState.putDelegation, hget, Option.elim_some, recFrozen_recSetFrozen]

/-- The lock of the pair, if it has expiry time zero, holds nothing once the block time is positive.
A lock with expiry time zero counts as available but is never merged. -/
def LockCounts (c : UnDelegateResourceContract) (s : WorldState) : Prop :=
  ∀ owner receiver lock, Address.ofBytes c.ownerAddress = some owner →
    Address.ofBytes c.receiverAddress = some receiver → s.getDelegation owner receiver true = some lock →
    recExpire lock c.resource = 0 → 0 < s.getProp .latestBlockHeaderTimestamp → recFrozen lock c.resource = 0

instance decidableLockCounts (c : UnDelegateResourceContract) (s : WorldState) : Decidable (LockCounts c s) :=
  decidable_of_iff (∀ owner ∈ Address.ofBytes c.ownerAddress, ∀ receiver ∈ Address.ofBytes c.receiverAddress,
      ∀ lock ∈ s.getDelegation owner receiver true,
        recExpire lock c.resource = 0 → 0 < s.getProp .latestBlockHeaderTimestamp → recFrozen lock c.resource = 0)
    ⟨fun h owner receiver lock ho hr hl => h owner ho receiver hr lock hl,
      fun h owner ho receiver hr lock hl => h owner receiver lock ho hr hl⟩

variable (h : TrxOk single total 0 0 s)
include h

/-- What counts as available is in the unlocked record once a matured lock has been merged. -/
lemma available_le (hr : resourceValid r = true)
    (hcounts : ∀ lock, s.getDelegation owner receiver true = some lock → recExpire lock r = 0 → 0 < now →
      recFrozen lock r = 0) :
    (available (s.getDelegation owner receiver false) (s.getDelegation owner receiver true) r now).toInt ≤
      recordAmount (mergeExpiredLock s owner receiver r now) owner receiver false r := by
  have hunlock : (((s.getDelegation owner receiver false).map (recFrozen · r)).getD 0).toInt =
      recordAmount s owner receiver false r := by
    unfold recordAmount; cases s.getDelegation owner receiver false <;> rfl
  obtain ⟨-, hmerge⟩ := mergeExpiredLock_spec h hr owner receiver now
  unfold available
  cases hlock : s.getDelegation owner receiver true with
  | none =>
    have hstay : mergeExpiredLock s owner receiver r now = s := by simp [mergeExpiredLock, hlock]
    rw [hstay]; exact hunlock.le
  | some lock =>
    have hstay : recFrozen lock r = 0 ∨ recExpire lock r = 0 ∨ now ≤ recExpire lock r →
        mergeExpiredLock s owner receiver r now = s := fun hcond => by
      simp only [mergeExpiredLock, hlock]; exact if_pos hcond
    dsimp only
    by_cases hexp : recExpire lock r < now
    · rw [if_pos hexp]
      by_cases hzero : recFrozen lock r = 0
      · rw [hstay (.inl hzero), hzero, Int64.add_zero]; exact hunlock.le
      have hlt := lt_iff_toInt_lt.mp hexp
      have hnz : recExpire lock r ≠ 0 := fun h0 => hzero (hcounts lock hlock h0 (h0 ▸ hexp))
      have hmatured : ¬ (recFrozen lock r = 0 ∨ recExpire lock r = 0 ∨ now ≤ recExpire lock r) := by
        rintro (h0 | h0 | hle)
        · exact hzero h0
        · exact hnz h0
        · rw [le_iff_toInt_le] at hle; omega
      have hsame : ((s.getDelegation owner receiver false).map (recFrozen · r)).getD 0 =
          recFrozen ((s.getDelegation owner receiver false).getD (newDelegation owner receiver)) r := by
        cases s.getDelegation owner receiver false with
        | none => exact (recFrozen_newDelegation ..).symm
        | some => rfl
      rw [hmerge lock hlock hmatured, hsame, toInt_merged h hr hlock]
    · rw [if_neg hexp]
      have hle : now ≤ recExpire lock r := by rw [lt_iff_toInt_lt] at hexp; rw [le_iff_toInt_le]; omega
      rw [hstay (.inr (.inr hle))]; exact hunlock.le

/-- What the receiver has acquired goes down. -/
lemma trxOk_releaseReceiver (b : Int64) : TrxOk single total 0 0 (releaseReceiver s receiver r b) := by
  unfold releaseReceiver
  split
  · rename_i x hx; exact h.acquire hx r (-b)
  · exact h

omit h in
lemma validate_resource (h : validate c s = .ok v) : resourceValid c.resource = true := by
  simp only [validate, check_rules] at h; obtain ⟨-, -, -, -, -, -, -, -, -, -, -, -, -, hr, -⟩ := h
  exact hr

omit h in
/-- The order of the two changes to the owner's account does not matter. -/
lemma addFrozenV2_addOwnerDelegated (x : Account) (r : Int32) (d b : Int64) :
    addFrozenV2 (addOwnerDelegated x r d) r b =
      addOwnerDelegated { x with frozenV2 := Refreeze.restake x.frozenV2 r b } r d := by
  unfold addFrozenV2 addOwnerDelegated; split <;> rfl

/-- What is in the unlocked record has been delegated, and the owner's stakes have room for it. -/
lemma withdraw_stakes (hr : resourceValid r = true) (hpos : 0 < b.toInt) (hb : b.toInt ≤ (recFrozen u r).toInt)
    (hu : s.getDelegation owner receiver false = some u) (hown : s.getAccount owner = some x) :
    b.toInt ≤ (ownerDelegated x r).toInt ∧
      StakesMoved x.frozenV2 (Refreeze.restake x.frozenV2 r b) r (-(-b).toInt) := by
  have hamount : recordAmount s owner receiver false r = (recFrozen u r).toInt := by
    rw [recordAmount, hu, Option.elim_some]
  have hlock0 := h.recordAmount_nonneg hr owner receiver true
  have hpair := h.recordAmount_le hr owner receiver
  rw [delegatedBy, hown, Option.elim_some, Pi.zero_apply, Pi.zero_apply] at hpair
  have hsolvent := h.accounts owner x hown
  have hworth := h.worth_le hown
  have hbound := h.bound
  have hparts := hsolvent.parts.delegated r hr
  have hstaked := hsolvent.stakes.sum r
  have hsum := hsolvent.stakes.stakedFor_le r; refine ⟨by omega, ?_⟩
  rw [Int64.toInt_neg_of_nonneg hpos.le, Int.neg_neg]
  refine stakesMoved_restake fun f hf => ?_
  have hfirst := hsolvent.stakes.first hf; exact ⟨by omega, by omega⟩

/-- An amount goes from the unlocked record back to the owner's stake. -/
lemma withdraw (hr : resourceValid r = true) (hpos : 0 < b.toInt) (hb : b.toInt ≤ (recFrozen u r).toInt)
    (hu : s.getDelegation owner receiver false = some u) (hx : (s.storeDelegation owner receiver false
      (recSetFrozen u r (recFrozen u r - b))).getAccount owner = some x) :
    TrxOk single total 0 0 ((s.storeDelegation owner receiver false
      (recSetFrozen u r (recFrozen u r - b))).putAccount owner (addFrozenV2 (addOwnerDelegated x r (-b)) r b)) := by
  have hamount : recordAmount s owner receiver false r = (recFrozen u r).toInt := by
    rw [recordAmount, hu, Option.elim_some]
  have hlt := (recFrozen u r).toInt_lt
  have hsub := toInt_sub_of_fits (a := recFrozen u r) (b := b) ⟨by omega, by omega⟩
  have hown : s.getAccount owner = some x := by rwa [getAccount_storeDelegation] at hx
  obtain ⟨hdelegated, hmoved⟩ := withdraw_stakes h hr hpos hb hu hown
  have hstaked := (h.accounts owner x hown).stakes.sum r
  have hdlt := (ownerDelegated x r).toInt_lt
  have hneg := Int64.toInt_neg_of_nonneg hpos.le
  rw [← dueAt_zero owner r] at h
  have hrecord : TrxOk single total 0 (dueAt owner r (-b.toInt)) (s.storeDelegation owner receiver false
      (recSetFrozen u r (recFrozen u r - b))) :=
    h.storeAmount hr (fun r' => by rw [hu, Option.getD_some]) (by omega) (by omega)
  have hdone := hrecord.moveDelegated hx hr (addFrozenV2_addOwnerDelegated x r (-b) b) hmoved (by omega) (by omega)
    (by omega)
  rwa [hneg, Int.sub_neg, Int.add_left_neg, dueAt_zero] at hdone

/-- What is withdrawn is in the unlocked record, once a matured lock has been merged. -/
lemma balance_le (hv : validate c s = .ok v) (hcounts : LockCounts c s)
    (ho : Address.ofBytes c.ownerAddress = some owner) (hrec : Address.ofBytes c.receiverAddress = some receiver) :
    0 < c.balance.toInt ∧ c.balance.toInt ≤ recordAmount (mergeExpiredLock s owner receiver c.resource
      (s.getProp .latestBlockHeaderTimestamp)) owner receiver false c.resource := by
  obtain ⟨-, o, p, -, ho', hrec', -, -, hpos, hle⟩ := validate_ok hv
  cases ho.symm.trans ho'; cases hrec.symm.trans hrec'; rw [Int64.pos_iff] at hpos
  rw [le_iff_toInt_le] at hle
  exact ⟨hpos, hle.trans (available_le h (validate_resource hv) fun lock hlock he hnow =>
    hcounts owner receiver lock ho hrec hlock he hnow)⟩

lemma trxOk (hv : validate c s = .ok v)
    (hcounts : LockCounts c s) (hrun : execute c s = .ok res t) : TrxOk single total 0 0 t := by
  obtain ⟨owner, receiver, u, x, m, ho, hrec, rfl, hu, hown, rfl⟩ := execute_ok hrun
  have hr := validate_resource hv
  obtain ⟨hpos, hle⟩ := balance_le h hv hcounts ho hrec
  have hmerged := (mergeExpiredLock_spec h hr owner receiver (s.getProp .latestBlockHeaderTimestamp)).1
  have hu' := hu; rw [getDelegation_releaseReceiver] at hu'
  rw [recordAmount, hu', Option.elim_some] at hle
  exact withdraw (trxOk_releaseReceiver hmerged c.balance) hr hpos hle hu hown

end UnDelegateResourceActuator
end TronRs

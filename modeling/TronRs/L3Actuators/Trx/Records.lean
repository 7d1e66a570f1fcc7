import TronRs.L3Actuators.Trx.Conservation

/-!
# The ledger of delegations

The same delegated amounts are kept three times: in the records of each pair, in what the owner's
account says it has delegated, and in what the receiver's account says it has acquired. `TrxOk`
keeps the records and the owners together; here the receivers join them.

* `AcquiredOk due s`: the records that name a receiver make up what it has acquired, but for what
  is `due` inside an operation.
* `TrxOk.receivedTotal_le`: no receiver has more than there is TRX, so its counter does not wrap.
* `delegation_ledger`: along every run the three agree and `add_receiver_acquired` never has to
  floor, as long as no withdrawal meets a lock with expiry time zero.
* `zero_expiry_breaks_ledger`: without that the records wrap.
* `stakes_unique`, `zero_expiry_overdraws_stake`: the same for the stakes of Stake 2.0, of which no account has
  two for one resource.
-/
namespace TronRs

open TronRs.Core
open Platform (blank)

/-! ## What a receiver has acquired -/

/-- What the records that name a receiver add up to. -/
def receivedTotal (s : WorldState) (receiver : Address) (r : Int32) : Int :=
  Column.total (fun k rec => if k.2.1 = receiver then (recFrozen rec r).toInt else 0) s.delegation

/-- What a receiver's account says it has acquired. -/
def acquiredBy (s : WorldState) (receiver : Address) (r : Int32) : Int :=
  (s.getAccount receiver).elim 0 fun a => (receiverAcquired a r).toInt

/-- The flooring branch of `add_receiver_acquired`. -/
def Floors (a : Account) (r : Int32) (delta : Int64) : Prop := delta < 0 ∧ receiverAcquired a r < -delta

section Accounts
variable {x : Account} {r r' : Int32} {d : Int64}

lemma receiverAcquired_addOwnerDelegated (x : Account) (r r' : Int32) (d : Int64) :
    receiverAcquired (addOwnerDelegated x r d) r' = receiverAcquired x r' := by
  unfold addOwnerDelegated
  split
  · rfl
  · unfold receiverAcquired; cases x.accountResource <;> rfl

/-- What `add_receiver_acquired` does when it does not floor, seen from every resource. -/
lemma toInt_receiverAcquired_add (hr : resourceValid r = true) (hfloor : ¬ Floors x r d)
    (hd : Int64.Fits ((receiverAcquired x r).toInt + d.toInt)) (hr' : resourceValid r' = true) :
    (receiverAcquired (addReceiverAcquired x r d) r').toInt =
      (receiverAcquired x r').toInt + if r' = r then d.toInt else 0 := by
  have hnext : (if d < 0 ∧ receiverAcquired x r < -d then 0 else receiverAcquired x r + d) = receiverAcquired x r + d :=
    if_neg hfloor
  have hadd := toInt_add_of_fits hd; simp only [addReceiverAcquired, hnext]
  rw [resourceValid_iff] at hr hr'
  rcases hr with rfl | rfl <;> rcases hr' with rfl | rfl
  · rw [if_pos rfl, if_pos rfl, ← hadd]; rfl
  · exact (Int.add_zero _).symm
  · exact (Int.add_zero _).symm
  · rw [if_pos rfl, ← hadd]; rfl

end Accounts

/-! ## The receivers' side of the invariant -/

def AcquiredOk (due : Address → Int32 → Int) (s : WorldState) : Prop :=
  ∀ a r, resourceValid r = true → receivedTotal s a r = acquiredBy s a r + due a r

section Acquired
variable {single : Prop} {total v w : Int} {due : Address → Int32 → Int} {s t : WorldState}
variable {a owner receiver : Address} {lock : Bool} {x y : Account} {r : Int32}
variable {res : ExecutionResult} {c : OwnerOnly}

/-- An account is written that has acquired as much as before. -/
lemma AcquiredOk.keep (h : AcquiredOk due s) (hx : s.getAccount a = some x)
    (hy : ∀ r, receiverAcquired y r = receiverAcquired x r) : AcquiredOk due (s.putAccount a y) := by
  intro b r hr
  have hacc : acquiredBy (s.putAccount a y) b r = acquiredBy s b r := by
    unfold acquiredBy
    by_cases hb : b = a
    · subst hb; rw [getAccount_putAccount_self, hx, Option.elim_some, Option.elim_some, hy]
    · rw [getAccount_putAccount_of_ne s y hb]
  rw [hacc]; exact h b r hr

lemma AcquiredOk.congr (h : AcquiredOk due s) (haccount : t.account = s.account)
    (hdelegation : t.delegation = s.delegation) : AcquiredOk due t := by
  intro a r hr; rw [receivedTotal, hdelegation, acquiredBy, WorldState.getAccount, haccount]
  exact h a r hr

/-- A receiver's counter changes, and what it gains is no longer due. -/
lemma AcquiredOk.acquire {d : Int64} (h : AcquiredOk (dueAt receiver r v) s) (hx : s.getAccount receiver = some x)
    (hr : resourceValid r = true) (hfloor : ¬ Floors x r d) (hd : Int64.Fits ((receiverAcquired x r).toInt + d.toInt)) :
    AcquiredOk (dueAt receiver r (v - d.toInt)) (s.putAccount receiver (addReceiverAcquired x r d)) := by
  intro b r' hr'; have hold := h b r' hr'; show receivedTotal s b r' = _
  unfold acquiredBy at hold ⊢
  by_cases hb : b = receiver
  · subst hb; rw [hx, Option.elim_some] at hold
    rw [getAccount_putAccount_self, Option.elim_some, toInt_receiverAcquired_add hr hfloor hd hr']
    by_cases hrr : r' = r
    · subst hrr; rw [dueAt_self] at hold ⊢; rw [if_pos rfl]
      omega
    · rw [dueAt_of_ne _ _ hrr] at hold ⊢; rw [if_neg hrr]; omega
  · rw [getAccount_putAccount_of_ne s _ hb, dueAt_other r _ v hb]; exact hold

/-- The amount of one resource in one record is stored, and what it gains is due. -/
lemma AcquiredOk.storeAmount {rec : DelegatedResource} {n : Int64} (h : AcquiredOk (dueAt receiver r v) s)
    (hr : resourceValid r = true) (hrec : ∀ r', recFrozen rec r' = recFrozen (recSetFrozen
      ((s.getDelegation owner receiver lock).getD (newDelegation owner receiver)) r n) r')
    (hw : n.toInt + v = recordAmount s owner receiver lock r + w) :
    AcquiredOk (dueAt receiver r w) (s.storeDelegation owner receiver lock rec) := by
  intro b r' hr'; have hold := h b r' hr'
  have hframe : ∀ k, k ≠ (owner, receiver, lock) →
      (s.storeDelegation owner receiver lock rec).delegation.get k = s.delegation.get k := fun k hk => by
    unfold WorldState.storeDelegation
    split
    · exact get_delete_of_ne hk
    · exact get_put_of_ne hk
  have htot : receivedTotal (s.storeDelegation owner receiver lock rec) b r' = receivedTotal s b r' +
      if receiver = b then recordAmount (s.storeDelegation owner receiver lock rec) owner receiver lock r' -
        recordAmount s owner receiver lock r' else 0 :=
    Column.groupTotal_write hframe b
  have hacc : acquiredBy (s.storeDelegation owner receiver lock rec) b r' = acquiredBy s b r' := by
    unfold WorldState.storeDelegation; split <;> rfl
  rw [htot, hacc, hold, recordAmount_storeDelegation, hrec]
  by_cases hb : receiver = b
  · subst hb; rw [if_pos rfl]
    by_cases hrr : r' = r
    · subst hrr; rw [recFrozen_recSetFrozen, dueAt_self, dueAt_self]; omega
    · rw [recFrozen_recSetFrozen_of_ne _ _ hr hr' hrr, toInt_recFrozen_getD, dueAt_of_ne _ _ hrr, dueAt_of_ne _ _ hrr]
      omega
  · rw [if_neg hb, dueAt_other r w v (Ne.symm hb)]; omega

/-- What any receiver has, together with what one account can still delegate, is part of all there is. -/
lemma TrxOk.receivedTotal_add_le (h : TrxOk single total 0 0 s) (hr : resourceValid r = true)
    (hx : s.getAccount owner = some x) (a : Address) : receivedTotal s a r + stakedFor r x.frozenV2 ≤ total := by
  have hrecords : ∀ k rec, s.delegation.get k = some rec → 0 ≤ (recFrozen rec r).toInt :=
    fun k rec hk => h.records k rec hk r hr
  -- the records of all owners are what the accounts have delegated
  have hall : receivedTotal s a r ≤ ∑ o ∈ s.delegation.keys.image Prod.fst, delegatedBy s o r := by
    have hle : receivedTotal s a r ≤ Column.total (fun _ rec => (recFrozen rec r).toInt) s.delegation :=
      Column.groupTotal_le_total hrecords a
    rw [← Column.sum_groupTotal Prod.fst] at hle
    refine hle.trans (le_of_eq (Finset.sum_congr rfl fun o _ => ?_))
    exact (h.delegated o r hr).trans (Int.add_zero _)
  have hpart : ∀ o, 0 ≤ delegatedBy s o r ∧ delegatedBy s o r ≤ Column.share (fun _ => trxWorth) s.account o :=
    fun o => by
    unfold delegatedBy Column.share; show _ ∧ _ ≤ (s.getAccount o).elim 0 trxWorth
    cases ho : s.getAccount o with
    | none => exact ⟨le_rfl, le_rfl⟩
    | some y =>
      have hsolvent := h.accounts o y ho
      have hparts := hsolvent.parts.delegated r hr
      have hstakes := hsolvent.stakes.nonneg
      exact ⟨hsolvent.delegated r hr, by dsimp only [Option.elim_some]; omega⟩
  -- each account has at least what it has delegated, and the owner its stake on top
  obtain ⟨U, howner, hkeys, howners⟩ : ∃ U : Finset Address, owner ∈ U ∧ s.account.keys ⊆ U ∧
      s.delegation.keys.image Prod.fst ⊆ U :=
    ⟨insert owner (s.account.keys ∪ s.delegation.keys.image Prod.fst), Finset.mem_insert_self ..,
      Finset.subset_union_left.trans (Finset.subset_insert ..),
      Finset.subset_union_right.trans (Finset.subset_insert ..)⟩
  have hworth : trxTotal s = ∑ o ∈ U, Column.share (fun _ => trxWorth) s.account o := Column.total_eq_sum _ hkeys
  have hsub : ∑ o ∈ s.delegation.keys.image Prod.fst, delegatedBy s o r ≤ ∑ o ∈ U, delegatedBy s o r :=
    Finset.sum_le_sum_of_subset_of_nonneg howners fun o _ _ => (hpart o).1
  have hone := Finset.single_le_sum (fun o _ => Int.sub_nonneg.mpr (hpart o).2) howner
  rw [Finset.sum_sub_distrib] at hone; have hsolvent := h.accounts owner x hx
  have hparts := hsolvent.parts.delegated r hr
  have hstaked := hsolvent.stakes.stakedFor_le r
  have hown : Column.share (fun _ => trxWorth) s.account owner - delegatedBy s owner r =
      trxWorth x - (ownerDelegated x r).toInt := by
    rw [Column.share_of_some hx, delegatedBy, hx, Option.elim_some]
  have hs := h.supply; omega

/-- A record of a receiver is part of what it has received. -/
lemma TrxOk.recordAmount_le_received (h : TrxOk single total 0 0 s) (hr : resourceValid r = true)
    (owner receiver : Address) (lock : Bool) : recordAmount s owner receiver lock r ≤ receivedTotal s receiver r :=
  Column.share_le_groupTotal
    (fun k rec hk => h.records k rec hk r hr) (owner, receiver, lock)

/-! ## Delegating and withdrawing -/

lemma DelegateResourceActuator.acquiredOk {c : DelegateResourceContract} {v : Int64}
    (h : TrxOk single total 0 0 s) (hacq : AcquiredOk 0 s) (hv : validate c s = .ok v)
    (hrun : execute c s = .ok res t) : AcquiredOk 0 t := by
  obtain ⟨o, p, x', ho', hp', hown', hne, hpos, hr, hle⟩ := validate_amount hv
  obtain ⟨owner, receiver, x, y, z, rec, expire, ho, hp, hown, rfl, hz, hrec, -, rfl⟩ := execute_ok hrun
  obtain rfl := Option.some.inj (ho.symm.trans ho')
  obtain rfl := Option.some.inj (hp.symm.trans hp')
  obtain rfl := Option.some.inj (hown.symm.trans hown')
  obtain ⟨hstaked, -⟩ := amount_le h hown hr hle
  have hsum := toInt_record h hown hr hpos hle hrec
  have hnn := h.recordAmount_nonneg hr owner receiver c.lock
  have hbound := h.bound
  have hz' := hz; rw [getAccount_putAccount_of_ne s _ hne] at hz'
  -- the receiver's counter has room, because the owner still has what it delegates
  have hroom := h.receivedTotal_add_le hr hown receiver
  have hcount := hacq receiver c.resource hr
  rw [acquiredBy, hz', Option.elim_some, Pi.zero_apply, Pi.zero_apply] at hcount
  have hlow := (receiverAcquired z c.resource).le_toInt
  have hfloor : ¬ Floors z c.resource c.balance := fun hf => by
    have hneg := lt_iff_toInt_lt.mp hf.1; rw [toInt_zero] at hneg; omega
  rw [← dueAt_zero receiver c.resource] at hacq ⊢
  have howner := hacq.keep hown fun r => receiverAcquired_addOwnerDelegated (addFrozenV2 x c.resource (-c.balance))
    c.resource r c.balance
  have hreceiver := howner.acquire hz hr hfloor ⟨by omega, by omega⟩
  rw [← WorldState.storeDelegation_of_pos]
  · refine hreceiver.storeAmount hr (fun r' => ?_) (n := recFrozen rec c.resource + c.balance) ?_
    · rw [recFrozen_recSetExpire, hrec]; rfl
    · show _ = recordAmount s owner receiver c.lock c.resource + 0; omega
  · rw [recFrozen_recSetExpire, recFrozen_recSetFrozen]; omega

namespace UnDelegateResourceActuator
variable {c : UnDelegateResourceContract} {v : Int64}

lemma acquiredOk_merge (h : TrxOk single total 0 0 s) (hacq : AcquiredOk 0 s) (hr : resourceValid r = true)
    (owner receiver : Address) (now : Int64) : AcquiredOk 0 (mergeExpiredLock s owner receiver r now) := by
  rcases mergeExpiredLock_cases s owner receiver r now with ⟨-, heq⟩ | ⟨lock, unlock, hlock, rfl, hmerge, heq⟩
  · rw [heq]; exact hacq
  rw [heq]; have hsum := toInt_merged h hr hlock
  have hlock0 := h.records _ lock hlock r hr
  have hunlock0 := h.recordAmount_nonneg hr owner receiver false
  have hne : recFrozen lock r ≠ 0 := fun h0 => hmerge (.inl h0)
  have hpos : (recFrozen lock r).toInt ≠ 0 := fun h0 => hne (toInt_inj.mp h0)
  have hlock' : ∀ rec, (s.putDelegation owner receiver false rec).getDelegation owner receiver true = some lock :=
    fun rec => (get_put_of_ne (by simp)).trans hlock
  rw [← dueAt_zero receiver r] at hacq ⊢
  have hmerged : AcquiredOk (dueAt receiver r (recFrozen lock r).toInt) (s.putDelegation owner receiver false
      (recSetFrozen ((s.getDelegation owner receiver false).getD (newDelegation owner receiver)) r
        (recFrozen ((s.getDelegation owner receiver false).getD (newDelegation owner receiver)) r +
          recFrozen lock r))) := by
    rw [← WorldState.storeDelegation_of_pos]
    · exact hacq.storeAmount hr (fun _ => rfl) (by omega)
    · rw [recFrozen_recSetFrozen]; omega
  refine hmerged.storeAmount hr (fun r' => ?_) (n := 0) ?_
  · rw [hlock', Option.getD_some, recFrozen_recSetExpire]
  · rw [recordAmount, hlock', Option.elim_some, toInt_zero]; omega

/-- The receiver has acquired at least what is withdrawn. -/
lemma exists_acquired (h : TrxOk single total 0 0 s) (hacq : AcquiredOk 0 s) (hv : validate c s = .ok v)
    (hcounts : LockCounts c s) (ho : Address.ofBytes c.ownerAddress = some owner)
    (hp : Address.ofBytes c.receiverAddress = some receiver) : 0 < c.balance.toInt ∧
      ∃ x, s.getAccount receiver = some x ∧ c.balance.toInt ≤ (receiverAcquired x c.resource).toInt := by
  have hr := validate_resource hv
  obtain ⟨hpos, hle⟩ := balance_le h hv hcounts ho hp
  have hmerged := (mergeExpiredLock_spec h hr owner receiver (s.getProp .latestBlockHeaderTimestamp)).1
  have hpart := hmerged.recordAmount_le_received hr owner receiver false
  have hcount := acquiredOk_merge h hacq hr owner receiver (s.getProp .latestBlockHeaderTimestamp) receiver
    c.resource hr
  rw [acquiredBy, WorldState.getAccount, account_mergeExpiredLock, Pi.zero_apply, Pi.zero_apply] at hcount
  refine ⟨hpos, ?_⟩
  cases hx : s.account.get receiver with
  | none =>
    rw [hx, Option.elim_none] at hcount; omega
  | some x =>
    rw [hx, Option.elim_some] at hcount; exact ⟨x, hx, by omega⟩

lemma not_floors {b : Int64} (hb : b.toInt ≤ (receiverAcquired x r).toInt) : ¬ Floors x r (-b) := by
  intro hf; have hlt := hf.2; rw [Int64.neg_neg, lt_iff_toInt_lt] at hlt
  omega

lemma acquiredOk {res : ExecutionResult} (h : TrxOk single total 0 0 s) (hacq : AcquiredOk 0 s)
    (hv : validate c s = .ok v) (hcounts : LockCounts c s) (hrun : execute c s = .ok res t) : AcquiredOk 0 t := by
  obtain ⟨owner, receiver, u, x, m, ho, hp, hm, hu, hown, rfl⟩ := execute_ok hrun
  have hr := validate_resource hv
  obtain ⟨hpos, y, hy, hle⟩ := exists_acquired h hacq hv hcounts ho hp
  obtain ⟨-, hrecord⟩ := balance_le h hv hcounts ho hp
  have hmerged := acquiredOk_merge h hacq hr owner receiver (s.getProp .latestBlockHeaderTimestamp)
  have hy' : (mergeExpiredLock s owner receiver c.resource
      (s.getProp .latestBlockHeaderTimestamp)).getAccount receiver =
      some y := by
    rw [WorldState.getAccount, account_mergeExpiredLock]; exact hy
  have hneg := Int64.toInt_neg_of_nonneg hpos.le
  have hlt := (receiverAcquired y c.resource).toInt_lt
  rw [← dueAt_zero receiver c.resource] at hmerged ⊢
  have hreleased : AcquiredOk (dueAt receiver c.resource c.balance.toInt) m := by
    rw [hm, releaseReceiver, hy']
    have hacquired := hmerged.acquire hy' hr (not_floors hle) ⟨by omega, by omega⟩
    rwa [hneg, Int.sub_neg, Int.zero_add] at hacquired
  have hamount : recordAmount m owner receiver false c.resource = (recFrozen u c.resource).toInt := by
    rw [recordAmount, hu, Option.elim_some]
  have hu' := hu; rw [hm, getDelegation_releaseReceiver] at hu'
  rw [recordAmount, hu', Option.elim_some] at hrecord; have hult := (recFrozen u c.resource).toInt_lt
  have hsub := toInt_sub_of_fits (a := recFrozen u c.resource) (b := c.balance) ⟨by omega, by omega⟩
  have hstored : AcquiredOk (dueAt receiver c.resource 0) (m.storeDelegation owner receiver false
      (recSetFrozen u c.resource (recFrozen u c.resource - c.balance))) :=
    hreleased.storeAmount hr (fun r' => by rw [hu, Option.getD_some]) (by omega)
  exact hstored.keep hown fun r' => receiverAcquired_addOwnerDelegated x c.resource r' (-c.balance)

end UnDelegateResourceActuator

/-! ## Staking -/

variable (h : AcquiredOk due s)
include h

lemma AcquiredOk.addWeight (r : Int32) (delta : Int64) : AcquiredOk due (s.addWeight r delta) := by
  unfold WorldState.addWeight
  split
  · exact h.congr rfl rfl
  · exact h

lemma AcquiredOk.refrozen (k : Property) (amount : Int64) :
    AcquiredOk due (CancelAllUnfreezeV2Actuator.refrozen s k amount) := by
  unfold CancelAllUnfreezeV2Actuator.refrozen
  split
  · exact h
  · exact h.congr rfl rfl

lemma FreezeBalanceV2Actuator.acquiredOk {c : FreezeBalanceV2Contract}
    (hrun : execute c s = .ok res t) : AcquiredOk due t := by
  obtain ⟨owner, x, left, gs, -, hx, -, -, rfl⟩ := execute_ok hrun
  refine AcquiredOk.addWeight ?_ _ _
  exact h.keep hx fun _ => rfl

lemma UnfreezeBalanceV2Actuator.acquiredOk {c : UnfreezeBalanceV2Contract} (hrun : execute c s = .ok res t) :
    AcquiredOk due t := by
  obtain ⟨owner, x, f, left, expire, -, hx, -, -, rfl⟩ := execute_ok hrun
  refine AcquiredOk.addWeight ?_ _ _
  exact h.keep hx fun _ => rfl

lemma WithdrawExpireUnfreezeActuator.acquiredOk (hrun : execute c s = .ok res t) : AcquiredOk due t := by
  obtain ⟨owner, x, sum, -, hx, -, rfl⟩ := execute_ok hrun
  exact h.keep hx fun _ => rfl

lemma CancelAllUnfreezeV2Actuator.acquiredOk (hrun : execute c s = .ok res t) : AcquiredOk due t := by
  obtain ⟨owner, x, r, sum, -, hx, -, -, rfl⟩ := execute_ok hrun
  refine AcquiredOk.refrozen (AcquiredOk.refrozen (AcquiredOk.refrozen ?_ _ _) _ _) _ _
  exact h.keep hx fun _ => rfl

end Acquired

/-! ## Runs -/

/-- The contracts of Stake 2.0. -/
def ledgerTypes : List ContractType :=
  [.delegateResource, .unDelegateResource, .freezeBalanceV2, .unfreezeBalanceV2, .cancelAllUnfreezeV2,
    .withdrawExpireUnfreeze]

/-- A step that makes `add_receiver_acquired` floor. -/
def FloorsReceiver (s : WorldState) : ContractStep → Prop
  | .apply .delegateResource c => ∃ receiver x, Address.ofBytes c.receiverAddress = some receiver ∧
      s.getAccount receiver = some x ∧ Floors x c.resource c.balance
  | .apply .unDelegateResource c => ∃ receiver x, Address.ofBytes c.receiverAddress = some receiver ∧
      s.getAccount receiver = some x ∧ Floors x c.resource (-c.balance)
  | _ => False

/-- Nobody has delegated anything, and the TRX of all accounts fits. -/
structure LedgerStart (s : WorldState) : Prop where
  empty : NoDelegations s
  accounts : ∀ a x, s.getAccount a = some x → NonNegative x
  bound : trxTotal s < 2 ^ 63

/-- The records agree with both sides. -/
structure LedgerInv (total : Int) (s : WorldState) : Prop where
  owners : TrxOk False total 0 0 s
  receivers : AcquiredOk 0 s

section
variable {total : Int} {s t : WorldState} {pf : Platform} {ty : ContractType} {a : Actuator (Message ty)}
  {c : Message ty}
variable {res : ExecutionResult}

lemma LedgerStart.inv (h : LedgerStart s) : LedgerInv (trxTotal s) s where
  owners := .of_nonNegative h.accounts nofun h.bound (fun k rec hk => by rw [h.empty.records] at hk; cases hk)
    fun a _ hr => h.empty.recordTotal_eq a hr
  receivers a r hr := by
    have hnone : receivedTotal s a r = 0 := Finset.sum_eq_zero fun k _ => Column.share_of_none (h.empty.records k)
    rw [hnone, acquiredBy]
    cases hx : s.getAccount a with
    | none => rfl
    | some x => rw [Option.elim_some, h.empty.acquired a x hx r hr]; rfl

lemma LedgerInv.run (h : LedgerInv total s) (hr : route pf ty = some a) (hty : ty ∈ ledgerTypes)
    (hcounts : CountsLocks s (.apply ty c)) (hx : a.run c s = .ok res t) : LedgerInv total t := by
  obtain ⟨⟨v, hv⟩, hx⟩ := Actuator.run_ok hx
  obtain ⟨howners, hreceivers⟩ := h
  have hstake : ∀ ty ∈ ledgerTypes, ty ∈ stakeTypes := by decide
  refine ⟨trxOk_stake hr (hstake ty hty) hcounts howners hv hx, ?_⟩; cases ty <;> cases hr
  case delegateResource => exact DelegateResourceActuator.acquiredOk howners hreceivers hv hx
  case unDelegateResource => exact UnDelegateResourceActuator.acquiredOk howners hreceivers hv hcounts hx
  case freezeBalanceV2 => exact FreezeBalanceV2Actuator.acquiredOk hreceivers hx
  case unfreezeBalanceV2 => exact UnfreezeBalanceV2Actuator.acquiredOk hreceivers hx
  case cancelAllUnfreezeV2 => exact CancelAllUnfreezeV2Actuator.acquiredOk hreceivers hx
  case withdrawExpireUnfreeze => exact WithdrawExpireUnfreezeActuator.acquiredOk hreceivers hx
  all_goals exact absurd hty (by decide)

lemma LedgerInv.not_floorsReceiver (h : LedgerInv total s) (hr : route pf ty = some a)
    (hcounts : CountsLocks s (.apply ty c)) (hx : a.run c s = .ok res t) : ¬ FloorsReceiver s (.apply ty c) := by
  obtain ⟨⟨v, hv⟩, hx⟩ := Actuator.run_ok hx; cases ty <;> cases hr
  case delegateResource =>
    rintro ⟨receiver, x, -, -, hneg, -⟩
    obtain ⟨-, -, -, -, -, -, -, hpos, -⟩ := DelegateResourceActuator.validate_amount hv
    rw [lt_iff_toInt_lt, toInt_zero] at hneg; omega
  case unDelegateResource =>
    rintro ⟨receiver, x, hp, hget, hfloors⟩
    obtain ⟨-, owner, -, -, ho, -⟩ := UnDelegateResourceActuator.validate_ok hv
    obtain ⟨-, y, hy, hle⟩ := UnDelegateResourceActuator.exists_acquired h.owners h.receivers hv hcounts ho hp
    cases hget.symm.trans hy; exact UnDelegateResourceActuator.not_floors hle hfloors
  all_goals exact id

/-- **The ledger of delegations.** Along every run of the contracts of Stake 2.0 whose withdrawals meet no lock with
expiry time zero, the records make up what each owner has delegated and what each receiver has acquired, and the
receiver's counter never has to be floored. -/
theorem delegation_ledger {ls : List ContractStep} (hs : LedgerStart s)
    (hrun : ((contractRuns pf ledgerTypes (fun _ _ => True) LedgerStart).guard CountsLocks).Run s ls t) :
    (∀ a r, resourceValid r = true → delegatedBy t a r = recordTotal t a r) ∧
    (∀ a r, resourceValid r = true → acquiredBy t a r = receivedTotal t a r) ∧
    ∀ l u, ((contractRuns pf ledgerTypes (fun _ _ => True) LedgerStart).guard CountsLocks).step t l u →
      ¬ FloorsReceiver t l := by
  have hinv : LedgerInv (trxTotal s) t := by
    refine hrun.preserves (fun s l t h hstep => ?_) hs.inv
    cases l with
    | setProperty =>
      obtain ⟨-, -, rfl⟩ := hstep; exact ⟨h.owners.congr rfl rfl, h.receivers.congr rfl rfl⟩
    | apply =>
      obtain ⟨hcounts, hty, a, res, hr, hx⟩ := hstep
      exact h.run hr hty hcounts hx
  refine ⟨fun a r hr => ?_, fun a r hr => ?_, fun l u hstep => ?_⟩
  · exact ((hinv.owners.delegated a r hr).trans (Int.add_zero _)).symm
  · exact ((hinv.receivers a r hr).trans (Int.add_zero _)).symm
  cases l with
  | setProperty => exact id
  | apply =>
    obtain ⟨hcounts, -, a, res, hr, hx⟩ := hstep; exact hinv.not_floorsReceiver hr hcounts hx

end

lemma ledgerStart_stakers : LedgerStart stakers :=
  ⟨noDelegations_stakers, trxStart_stakers.accounts, by decide⟩

/-- Two TRX delegated and one withdrawn again, in all three places. -/
theorem delegation_ledger_one : ∃ t, ((contractRuns blank ledgerTypes (fun _ _ => True) LedgerStart).guard
      CountsLocks).Run
      stakers [freezeThree, delegateTwo, .setProperty .latestBlockHeaderTimestamp 3000, withdrawOne] t ∧
    recordTotal t (Address.ofNat 0xaa) bandwidth = 1000000 ∧
    delegatedBy t (Address.ofNat 0xaa) bandwidth = recordTotal t (Address.ofNat 0xaa) bandwidth ∧
    acquiredBy t (Address.ofNat 0xbb) bandwidth = receivedTotal t (Address.ofNat 0xbb) bandwidth := by
  have h : (Lts.exec (Lts.guardStep CountsLocks (ContractStep.next blank ledgerTypes fun _ _ => True)) stakers
      [freezeThree, delegateTwo, .setProperty .latestBlockHeaderTimestamp 3000, withdrawOne]).map
      (fun t => recordTotal t (Address.ofNat 0xaa) bandwidth) = some 1000000 := by decide +kernel
  obtain ⟨t, hrun, ht⟩ := ContractStep.exists_run h
  obtain ⟨hown, hrec, -⟩ := delegation_ledger ledgerStart_stakers hrun
  exact ⟨t, hrun, ht, hown _ _ rfl, hrec _ _ rfl⟩

/-- Withdrawing a lock that ends at time zero leaves a negative amount in the unlocked record, and a second such lock
wraps the locked one: the records no longer make up what the owner has delegated. -/
theorem zero_expiry_breaks_ledger : LedgerStart whale ∧
    ∃ ls t, (contractRuns blank ledgerTypes (fun _ _ => True) LedgerStart).Run whale ls t ∧
      recordTotal t (Address.ofNat 0xaa) bandwidth = 1000000 - 3 * 2 ^ 62 ∧
      delegatedBy t (Address.ofNat 0xaa) bandwidth = 1000000 + 2 ^ 62 := by
  have haccounts : ∀ a x, whale.account.get a = some x → NonNegative x := by decide
  have hrun : (Lts.exec (ContractStep.next blank ledgerTypes fun _ _ => True) whale
      [delegateBandwidth 1000000 false 0, lockToZero, withdrawBandwidth 4611686018427387904, lockToZero]).map
      (fun t => (recordTotal t (Address.ofNat 0xaa) bandwidth, delegatedBy t (Address.ofNat 0xaa) bandwidth)) =
        some (1000000 - 3 * 2 ^ 62, 1000000 + 2 ^ 62) := by decide +kernel
  obtain ⟨t, ht, hsums⟩ := Lts.Run.exists_of_exec (fun _ _ _ => ContractStep.step_of_next) hrun
  exact ⟨⟨noDelegations_whale, haccounts, by decide⟩, _, t, ht, Prod.mk.inj hsums⟩

/-! ## One stake for each resource -/

open UnfreezeBalanceV2Actuator in
/-- The first stake of a resource is all there is. -/
lemma frozenAmount_eq_frozenV2Amount {x : Account} (h : (x.frozenV2.map FreezeV2.type).Nodup) (r : Int32) :
    frozenAmount x r = frozenV2Amount x r := by
  have hfind : findFrozenV2 x r = (stakesOf r x.frozenV2).head? := List.head?_filter.symm
  have hfold : frozenV2Amount x r = ((stakesOf r x.frozenV2).map FreezeV2.amount).foldl Int64.saturatingAdd 0 := rfl
  rw [frozenAmount, hfind, hfold]
  cases hfs : stakesOf r x.frozenV2 with
  | nil => rfl
  | cons f fs =>
    have hmem : f ∈ stakesOf r x.frozenV2 := by rw [hfs]; exact List.mem_cons_self
    obtain ⟨hf, htype⟩ := List.mem_filter.mp hmem
    rw [← of_decide_eq_true htype, stakesOf_of_nodup h hf] at hfs; cases hfs
    show f.amount = Int64.saturatingAdd 0 f.amount
    have hfits : Int64.Fits ((0 : Int64).toInt + f.amount.toInt) := by
      rw [toInt_zero, Int.zero_add]; exact fits_toInt _
    rw [← toInt_inj, Int64.toInt_saturatingAdd_of_fits hfits, toInt_zero, Int.zero_add]

def restakeTypes : List ContractType :=
  [.freezeBalanceV2, .unfreezeBalanceV2, .cancelAllUnfreezeV2, .delegateResource, .unDelegateResource]

/-- Nobody has staked anything in Stake 2.0, the TRX of all accounts fits and what was delegated is on record. -/
structure Unstaked (s : WorldState) : Prop where
  accounts : ∀ a x, s.getAccount a = some x → NonNegative x ∧ x.frozenV2 = []
  bound : trxTotal s < 2 ^ 63
  records : ∀ k rec, s.delegation.get k = some rec → ∀ r, resourceValid r = true → 0 ≤ (recFrozen rec r).toInt
  delegated : ∀ a r, resourceValid r = true → recordTotal s a r = delegatedBy s a r

lemma NoDelegations.unstaked {s : WorldState} (h : NoDelegations s) (hlt : trxTotal s < 2 ^ 63)
    (haccounts : ∀ a x, s.account.get a = some x → NonNegative x ∧ x.frozenV2 = []) : Unstaked s :=
  ⟨haccounts, hlt, fun k rec hk => (by rw [h.records] at hk; cases hk), fun a _ hr => h.recordTotal_eq a hr⟩

/-- **One stake for each resource.** Along every run whose withdrawals meet no lock with expiry time zero, no account
has two stakes for a resource or a negative one, so reading the first and adding them up is the same. -/
theorem stakes_unique {s t : WorldState} {pf : Platform} {ls : List ContractStep} (hs : Unstaked s)
    (hrun : ((contractRuns pf restakeTypes (fun _ _ => True) Unstaked).guard CountsLocks).Run s ls t)
    {a : Address} {x : Account} (hx : t.getAccount a = some x) : (x.frozenV2.map FreezeV2.type).Nodup ∧
      (∀ f ∈ x.frozenV2, 0 ≤ f.amount) ∧ ∀ r, UnfreezeBalanceV2Actuator.frozenAmount x r = frozenV2Amount x r := by
  have hinv : TrxOk True (trxTotal s) 0 0 t := by
    refine hrun.preserves (fun s l t h hstep => ?_) (.of_nonNegative (fun a x hx => (hs.accounts a x hx).1)
      (fun _ a x hx => by simp [(hs.accounts a x hx).2]) hs.bound hs.records hs.delegated)
    cases l with
    | setProperty =>
      obtain ⟨-, -, rfl⟩ := hstep; exact h.congr rfl rfl
    | apply ty =>
      obtain ⟨hcounts, hty, a, res, hr, hrun⟩ := hstep
      obtain ⟨⟨v, hv⟩, hexec⟩ := Actuator.run_ok hrun
      have hstake : ∀ ty ∈ restakeTypes, ty ∈ stakeTypes := by decide
      exact trxOk_stake hr (hstake ty hty) hcounts h hv hexec
  have hsolvent := hinv.accounts a x hx
  have hnodup := hsolvent.types trivial
  refine ⟨hnodup, fun f hf => ?_, frozenAmount_eq_frozenV2Amount hnodup⟩
  rw [le_iff_toInt_le, toInt_zero]; exact (hsolvent.nonNegative trivial).stakes f hf

/-- Three TRX staked and two of them delegated. -/
theorem stakes_unique_delegated : ∃ t x, ((contractRuns blank restakeTypes (fun _ _ => True) Unstaked).guard
      CountsLocks).Run stakers [freezeThree, delegateTwo] t ∧ t.getAccount (Address.ofNat 0xaa) = some x ∧
    x.frozenV2.map FreezeV2.amount = [1000000] ∧ (x.frozenV2.map FreezeV2.type).Nodup := by
  have h : (Lts.exec (Lts.guardStep CountsLocks (ContractStep.next blank restakeTypes fun _ _ => True)) stakers
      [freezeThree, delegateTwo]).map (fun t => (t.getAccount (Address.ofNat 0xaa)).map fun x =>
        x.frozenV2.map FreezeV2.amount) = some (some [1000000]) := by decide +kernel
  obtain ⟨t, hrun, ht⟩ := ContractStep.exists_run h
  obtain ⟨x, hx, hamounts⟩ := Option.map_eq_some_iff.mp ht
  exact ⟨t, x, hrun, hx, hamounts, (stakes_unique (noDelegations_stakers.unstaked (by decide) (by decide)) hrun hx).1⟩

/-- An account whose TRX nearly fills the range, at time 8000. -/
def unstakedWhale : WorldState :=
  { account := ((∅ : Column Address Account).put (Address.ofNat 0xaa) { balance := 9223372036853775808 }).put
      (Address.ofNat 0xbb) {}
    properties := ((∅ : Column Property Int64).put .unfreezeDelayDays 14).put .latestBlockHeaderTimestamp 8000 }

/-- A lock that ends at time zero is merged with the unlocked record without being counted. Done twice, the wrapped
records let the owner withdraw more than was delegated, which wraps the stake. -/
theorem zero_expiry_overdraws_stake : Unstaked unstakedWhale ∧
    ∃ ls t x, (contractRuns blank restakeTypes (fun _ _ => True) Unstaked).Run unstakedWhale ls t ∧
      t.getAccount (Address.ofNat 0xaa) = some x ∧ x.frozenV2.map FreezeV2.amount = [-9223372036852775808] := by
  have h : (Lts.exec (ContractStep.next blank restakeTypes fun _ _ => True) unstakedWhale
      [.apply .freezeBalanceV2 { ownerAddress := (Address.ofNat 0xaa).asBytes, frozenBalance := 9223372036853775808 },
        delegateBandwidth 1000000 false 0, delegateBandwidth 9223372036852775808 true 768614336404564648,
        withdrawBandwidth 9223372036852775808, delegateBandwidth 9223372036852775808 true 768614336404564648,
        withdrawBandwidth 9223372036852775808, delegateBandwidth 1000000 true 100, withdrawBandwidth 5000000]).map
      (fun t => (t.getAccount (Address.ofNat 0xaa)).map fun x => x.frozenV2.map FreezeV2.amount) =
        some (some [-9223372036852775808]) := by decide +kernel
  obtain ⟨t, hrun, ht⟩ := Lts.Run.exists_of_exec (fun _ _ _ => ContractStep.step_of_next) h
  obtain ⟨x, hx, hamounts⟩ := Option.map_eq_some_iff.mp ht
  exact ⟨(noDelegations_of_accounts rfl (by decide)).unstaked (by decide) (by decide), _, t, x, hrun, hx, hamounts⟩

end TronRs

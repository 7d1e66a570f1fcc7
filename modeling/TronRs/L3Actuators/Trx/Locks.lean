import TronRs.L3Actuators.Runs
import TronRs.L3Actuators.Trx.Delegations

/-!
# Locked delegations

A delegation with `lock` cannot be withdrawn before its expiry time, `now` plus the lock period
(`crates/actuators/src/delegate.rs:326`). The locked record of a pair is shared by all the locks of a resource: each
adds its amount and writes its own expiry time.

* `delegationRuns`: delegations and withdrawals one after the other, while the block time goes on.
* `lock_honoured`: as long as no delegation of the run overflows, the records of the pair hold the locked amount until
  the lock period is over. `lock_overflows`: a lock period whose end does not fit 64 bits locks nothing.
* `still_accepted_iff`: a new delegation leaves what could be withdrawn before, unless it is a lock and part of that
  amount is in a lock that has expired. `matured_lock_frozen`: then the new expiry time holds for the old amount too.
-/
namespace TronRs

open TronRs.Core

/-! ## The records of a pair -/

lemma recExpire_recSetExpire (rec : DelegatedResource) (r : Int32) (v : Int64) :
    recExpire (recSetExpire rec r v) r = v := by
  unfold recExpire recSetExpire; split <;> rfl

lemma recExpire_recSetExpire_of_ne (rec : DelegatedResource) {r r' : Int32} (v : Int64) (hr : resourceValid r = true)
    (hr' : resourceValid r' = true) (hne : r' ≠ r) : recExpire (recSetExpire rec r v) r' = recExpire rec r' := by
  rw [resourceValid_iff] at hr hr'
  rcases hr with rfl | rfl <;> rcases hr' with rfl | rfl
  · exact absurd rfl hne
  · rfl
  · rfl
  · exact absurd rfl hne

lemma recExpire_recSetFrozen (rec : DelegatedResource) (r r' : Int32) (v : Int64) :
    recExpire (recSetFrozen rec r v) r' = recExpire rec r' := by
  unfold recExpire recSetFrozen; split <;> split <;> rfl

/-- The time of the block being applied. -/
def WorldState.now (s : WorldState) : Int64 := s.getProp .latestBlockHeaderTimestamp

/-- Writing an account removes none. -/
lemma WorldState.isSome_getAccount_putAccount {s : WorldState} {a b : Address} {x : Account}
    (h : (s.getAccount b).isSome) : ((s.putAccount a x).getAccount b).isSome := by
  by_cases hb : b = a
  · subst hb; rw [getAccount_putAccount_self]; rfl
  · rwa [getAccount_putAccount_of_ne s x hb]

section Records
variable {s : WorldState} {owner receiver o p : Address} {lock k : Bool} {r r' : Int32} {rec l : DelegatedResource}

lemma getDelegation_putDelegation : (s.putDelegation owner receiver lock rec).getDelegation o p k =
    if (o, p, k) = (owner, receiver, lock) then some rec else s.getDelegation o p k := get_put ..

lemma getDelegation_storeDelegation_of_ne (h : (o, p, k) ≠ (owner, receiver, lock)) :
    (s.storeDelegation owner receiver lock rec).getDelegation o p k = s.getDelegation o p k := by
  unfold WorldState.storeDelegation
  split
  · exact get_delete_of_ne h
  · exact get_put_of_ne h

/-- A record with an amount in it is stored. -/
lemma getDelegation_storeDelegation_self (h : recFrozen rec r ≠ 0) :
    (s.storeDelegation owner receiver lock rec).getDelegation owner receiver lock = some rec := by
  unfold WorldState.storeDelegation
  rw [if_neg]
  · exact get_put_self ..
  · exact fun hempty => h (recFrozen_eq_zero hempty r)

lemma properties_storeDelegation : (s.storeDelegation owner receiver lock rec).properties = s.properties := by
  unfold WorldState.storeDelegation; split <;> rfl

end Records

namespace UnDelegateResourceActuator
variable {c : UnDelegateResourceContract} {s t : WorldState} {owner receiver o p : Address} {r r' : Int32}
variable {now balance : Int64} {l : DelegatedResource}

lemma properties_mergeExpiredLock : (mergeExpiredLock s owner receiver r now).properties = s.properties := by
  rcases mergeExpiredLock_cases s owner receiver r now with ⟨-, h⟩ | ⟨lock, unlock, -, -, -, h⟩
  · rw [h]
  · rw [h, properties_storeDelegation]; rfl

lemma getDelegation_mergeExpiredLock_of_ne (h : (o, p) ≠ (owner, receiver)) (k : Bool) :
    (mergeExpiredLock s owner receiver r now).getDelegation o p k = s.getDelegation o p k := by
  have hne : ∀ k', (o, p, k) ≠ (owner, receiver, k') := by
    intro k' heq; obtain ⟨ho, hrest⟩ := Prod.mk.inj heq; exact h (Prod.ext ho (Prod.mk.inj hrest).1)
  rcases mergeExpiredLock_cases s owner receiver r now with ⟨-, heq⟩ | ⟨lock, unlock, -, -, -, heq⟩
  · rw [heq]
  · rw [heq, getDelegation_storeDelegation_of_ne (hne true), getDelegation_putDelegation, if_neg (hne false)]

/-- Merging one resource leaves the lock of the other. -/
lemma lock_mergeExpiredLock_of_ne (now : Int64) (hr : resourceValid r = true) (hr' : resourceValid r' = true)
    (hne : r' ≠ r) (hl : s.getDelegation owner receiver true = some l) (hpos : recFrozen l r' ≠ 0) :
    ∃ l', (mergeExpiredLock s owner receiver r now).getDelegation owner receiver true = some l' ∧
      recFrozen l' r' = recFrozen l r' ∧ recExpire l' r' = recExpire l r' := by
  rcases mergeExpiredLock_cases s owner receiver r now with ⟨-, heq⟩ | ⟨lock, unlock, hlock, -, -, heq⟩
  · rw [heq]; exact ⟨l, hl, rfl, rfl⟩
  cases hl.symm.trans hlock
  have hfrozen : recFrozen (recSetExpire (recSetFrozen l r 0) r 0) r' = recFrozen l r' := by
    rw [recFrozen_recSetExpire, recFrozen_recSetFrozen_of_ne _ _ hr hr' hne]
  rw [heq]; refine ⟨_, getDelegation_storeDelegation_self (hfrozen ▸ hpos), hfrozen, ?_⟩
  rw [recExpire_recSetExpire_of_ne _ _ hr hr' hne, recExpire_recSetFrozen]

/-- It leaves the unlocked amount of the other, too. -/
lemma recordAmount_mergeExpiredLock_of_ne (s : WorldState) (owner receiver : Address) (now : Int64)
    (hr : resourceValid r = true) (hr' : resourceValid r' = true) (hne : r' ≠ r) :
    recordAmount (mergeExpiredLock s owner receiver r now) owner receiver false r' =
      recordAmount s owner receiver false r' := by
  rcases mergeExpiredLock_cases s owner receiver r now with ⟨-, heq⟩ | ⟨lock, unlock, -, rfl, -, heq⟩
  · rw [heq]
  · rw [heq, recordAmount, getDelegation_storeDelegation_true, getDelegation_putDelegation, if_pos rfl,
      Option.elim_some, recFrozen_recSetFrozen_of_ne _ _ hr hr' hne, toInt_recFrozen_getD]

/-- Before the expiry time nothing is merged. -/
lemma mergeExpiredLock_of_le (hl : s.getDelegation owner receiver true = some l) (h : now ≤ recExpire l r) :
    mergeExpiredLock s owner receiver r now = s := by
  rcases mergeExpiredLock_cases s owner receiver r now with ⟨-, heq⟩ | ⟨lock, unlock, hlock, -, hmerge, -⟩
  · exact heq
  · cases hl.symm.trans hlock; exact absurd (.inr (.inr h)) hmerge

lemma properties_releaseReceiver : (releaseReceiver s receiver r balance).properties = s.properties := by
  unfold releaseReceiver; split <;> rfl

end UnDelegateResourceActuator

namespace DelegateResourceActuator
variable {c : DelegateResourceContract} {s t : WorldState}

/-- The end of the lock period, as an exact integer. -/
def lockEnd (c : DelegateResourceContract) (s : WorldState) : Int :=
  s.now.toInt + (lockPeriodBlocks c).toInt * 3000

/-- The expiry time that is stored. -/
def expireTime (c : DelegateResourceContract) (s : WorldState) : Int64 :=
  if c.lock then s.now + lockPeriodBlocks c * blockProducedIntervalMs else 0

/-- Neither the lock period in milliseconds nor its end overflows. -/
def ExactExpiry (c : DelegateResourceContract) (s : WorldState) : Prop :=
  c.lock = true → (lockPeriodBlocks c).toInt * 3000 < 2 ^ 63 ∧ lockEnd c s < 2 ^ 63

/-- The expiry time and the new amount of the record are computed without overflow. -/
structure Exact (c : DelegateResourceContract) (s : WorldState) : Prop where
  expiry : ExactExpiry c s
  amount : ∀ owner receiver, Address.ofBytes c.ownerAddress = some owner →
    Address.ofBytes c.receiverAddress = some receiver →
    recordAmount s owner receiver c.lock c.resource + c.balance.toInt < 2 ^ 63

/-- The record of the pair after the delegation. -/
def delegated (c : DelegateResourceContract) (s : WorldState) (owner receiver : Address) : DelegatedResource :=
  let rec' := (s.getDelegation owner receiver c.lock).getD (newDelegation owner receiver)
  recSetExpire (recSetFrozen rec' c.resource (recFrozen rec' c.resource + c.balance)) c.resource (expireTime c s)

/-- What an accepted delegation checks of its lock. -/
lemma validate_lock {v : Int64} (h : validate c s = .ok v) (hlock : c.lock = true) {owner receiver : Address}
    (ho : Address.ofBytes c.ownerAddress = some owner) (hr : Address.ofBytes c.receiverAddress = some receiver) :
    0 ≤ lockPeriodBlocks c ∧ ∀ l, s.getDelegation owner receiver true = some l →
      recExpire l c.resource - s.now ≤ lockPeriodBlocks c * blockProducedIntervalMs := by
  simp only [validate, check_rules, parseAddress_eq_ok, hlock, if_true] at h
  obtain ⟨o, ho', _, _, _, _, _, _, _, _, p, hp', _, _, _, _, _, hcheck, _⟩ := h
  cases ho.symm.trans ho'; cases hr.symm.trans hp'; simp only [checkLock, check_rules] at hcheck
  obtain ⟨-, hperiod, hremain⟩ := hcheck; refine ⟨hperiod, fun l hl => ?_⟩; rw [hl] at hremain
  exact (ensure_eq_ok.mp hremain)

/-- **An accepted delegation** writes one record. -/
theorem run_spec {res : ExecutionResult} (h : delegateResourceActuator.run c s = .ok res t) : ∃ owner receiver,
    Address.ofBytes c.ownerAddress = some owner ∧ Address.ofBytes c.receiverAddress = some receiver ∧
      resourceValid c.resource = true ∧ 0 < c.balance.toInt ∧ t.properties = s.properties ∧
      (∀ o p k, t.getDelegation o p k =
        if (o, p, k) = (owner, receiver, c.lock) then some (delegated c s owner receiver) else s.getDelegation o p k) ∧
      ∀ a, (s.getAccount a).isSome → (t.getAccount a).isSome := by
  obtain ⟨⟨v, hv⟩, hx⟩ := Actuator.run_ok h
  obtain ⟨o', p', -, ho', hp', -, -, hpos, hvalid, -⟩ := validate_amount hv
  obtain ⟨owner, receiver, x, y, z, rec, expire, ho, hp, -, -, hz, rfl, rfl, rfl⟩ := execute_ok hx
  refine ⟨owner, receiver, ho, hp, hvalid, hpos, rfl, fun o p k => getDelegation_putDelegation, fun a ha => ?_⟩
  exact WorldState.isSome_getAccount_putAccount (WorldState.isSome_getAccount_putAccount ha)

end DelegateResourceActuator

/-! ## A lock holds -/

/-- The locked record of the pair holds `amount` at least until `due`, which is less than `2 ^ 63` from now, and the
unlocked record holds no negative amount. -/
structure Locked (owner receiver : Address) (r : Int32) (amount due : Int) (s : WorldState) : Prop where
  locked : ∃ l, s.getDelegation owner receiver true = some l ∧ amount ≤ (recFrozen l r).toInt ∧
    due ≤ (recExpire l r).toInt ∧ (recExpire l r).toInt - s.now.toInt < 2 ^ 63
  unlocked : 0 ≤ recordAmount s owner receiver false r

namespace Locked
variable {owner receiver : Address} {r : Int32} {amount due : Int} {s t : WorldState}

variable (h : Locked owner receiver r amount due s)
include h

lemma le_records : amount ≤ recordAmount s owner receiver true r + recordAmount s owner receiver false r := by
  obtain ⟨l, hl, hamount, -, -⟩ := h.locked
  have hu := h.unlocked
  have hrec : recordAmount s owner receiver true r = (recFrozen l r).toInt := by
    rw [recordAmount, hl, Option.elim_some]
  omega

omit h in
lemma now_of_properties (h : t.properties = s.properties) : t.now = s.now := by
  unfold WorldState.now WorldState.getProp; rw [h]

lemma putProp {v : Int64} (hv : s.now ≤ v) :
    Locked owner receiver r amount due (s.putProp .latestBlockHeaderTimestamp v) := by
  obtain ⟨l, hl, hamount, hdue, hnear⟩ := h.locked
  refine ⟨⟨l, hl, hamount, hdue, ?_⟩, h.unlocked⟩; rw [WorldState.now, getProp_putProp_self]
  rw [le_iff_toInt_le] at hv; omega

lemma congr (hprops : t.properties = s.properties)
    (hget : ∀ k, t.getDelegation owner receiver k = s.getDelegation owner receiver k) :
    Locked owner receiver r amount due t := by
  obtain ⟨l, hl, hrest⟩ := h.locked
  refine ⟨⟨l, (hget true).trans hl, ?_⟩, ?_⟩
  · rw [now_of_properties hprops]; exact hrest
  · rw [recordAmount, hget]; exact h.unlocked

end Locked

namespace DelegateResourceActuator
variable {c : DelegateResourceContract} {s t : WorldState} {owner receiver : Address} {r : Int32} {amount due : Int}
variable {v : Int64} {l : DelegatedResource} {res : ExecutionResult}

lemma toInt_expireTime (hlock : c.lock = true) (hperiod : 0 ≤ lockPeriodBlocks c) (h : ExactExpiry c s) :
    (lockPeriodBlocks c * blockProducedIntervalMs).toInt = (lockPeriodBlocks c).toInt * 3000 ∧
      (expireTime c s).toInt = lockEnd c s := by
  obtain ⟨hms, hend⟩ := h hlock; rw [le_iff_toInt_le, toInt_zero] at hperiod
  have hnow := s.now.le_toInt
  have hmul : (lockPeriodBlocks c * blockProducedIntervalMs).toInt = (lockPeriodBlocks c).toInt * 3000 := by
    refine Int64.toInt_mul_of_fits ?_; show Int64.Fits ((lockPeriodBlocks c).toInt * 3000)
    exact ⟨by omega, by omega⟩
  refine ⟨hmul, ?_⟩; unfold lockEnd at hend ⊢; rw [expireTime, if_pos hlock, toInt_add_of_fits, hmul]
  rw [hmul]; exact ⟨by omega, by omega⟩

lemma recFrozen_delegated : recFrozen (delegated c s owner receiver) c.resource =
    recFrozen ((s.getDelegation owner receiver c.lock).getD (newDelegation owner receiver)) c.resource + c.balance := by
  rw [delegated, recFrozen_recSetExpire, recFrozen_recSetFrozen]

lemma recExpire_delegated : recExpire (delegated c s owner receiver) c.resource = expireTime c s :=
  recExpire_recSetExpire ..

/-- The new amount, when it does not overflow. -/
lemma toInt_recFrozen_delegated (hpos : 0 < c.balance.toInt)
    (hfits : recordAmount s owner receiver c.lock c.resource + c.balance.toInt < 2 ^ 63) :
    (recFrozen (delegated c s owner receiver) c.resource).toInt =
      recordAmount s owner receiver c.lock c.resource + c.balance.toInt := by
  have hold := toInt_recFrozen_getD s owner receiver c.lock c.resource
  rw [recFrozen_delegated, toInt_add_of_fits, hold]; rw [hold]
  have hlow := (recFrozen ((s.getDelegation owner receiver c.lock).getD (newDelegation owner receiver))
    c.resource).le_toInt
  exact ⟨by omega, by omega⟩

/-- The other resource of the record. -/
lemma delegated_of_ne (hr : resourceValid c.resource = true) (hr' : resourceValid r = true) (hne : r ≠ c.resource) :
    recFrozen (delegated c s owner receiver) r =
        recFrozen ((s.getDelegation owner receiver c.lock).getD (newDelegation owner receiver)) r ∧
      recExpire (delegated c s owner receiver) r =
        recExpire ((s.getDelegation owner receiver c.lock).getD (newDelegation owner receiver)) r := by
  refine ⟨?_, ?_⟩
  · rw [delegated, recFrozen_recSetExpire, recFrozen_recSetFrozen_of_ne _ _ hr hr' hne]
  · rw [delegated, recExpire_recSetExpire_of_ne _ _ hr hr' hne, recExpire_recSetFrozen]

/-- A lock that is there can only be extended. -/
lemma lockEnd_ge (hv : validate c s = .ok v) (hlock : c.lock = true)
    (hexact : ExactExpiry c s) (ho : Address.ofBytes c.ownerAddress = some owner)
    (hp : Address.ofBytes c.receiverAddress = some receiver) (hl : s.getDelegation owner receiver true = some l)
    (htime : s.now.toInt ≤ (recExpire l c.resource).toInt)
    (hnear : (recExpire l c.resource).toInt - s.now.toInt < 2 ^ 63) : (recExpire l c.resource).toInt ≤ lockEnd c s := by
  obtain ⟨hperiod, hremain⟩ := validate_lock hv hlock ho hp
  obtain ⟨hmul, -⟩ := toInt_expireTime hlock hperiod hexact
  have hle := le_iff_toInt_le.mp (hremain l hl)
  rw [hmul, toInt_sub_of_fits ⟨by omega, by omega⟩] at hle; unfold lockEnd; omega

/-- A new lock on top of one that is there. -/
lemma relocked (hv : validate c s = .ok v) (hlock : c.lock = true)
    (hpos : 0 < c.balance.toInt) (hvalid : resourceValid c.resource = true) (hr : resourceValid r = true)
    (hexact : Exact c s) (ho : Address.ofBytes c.ownerAddress = some owner)
    (hp : Address.ofBytes c.receiverAddress = some receiver) (hl : s.getDelegation owner receiver true = some l)
    (htime : s.now.toInt ≤ (recExpire l r).toInt) (hnear : (recExpire l r).toInt - s.now.toInt < 2 ^ 63) :
    (recFrozen l r).toInt ≤ (recFrozen (delegated c s owner receiver) r).toInt ∧
      (recExpire l r).toInt ≤ (recExpire (delegated c s owner receiver) r).toInt ∧
      (recExpire (delegated c s owner receiver) r).toInt - s.now.toInt < 2 ^ 63 := by
  by_cases hres : r = c.resource
  · subst hres; obtain ⟨hperiod, -⟩ := validate_lock hv hlock ho hp
    obtain ⟨-, hexpire⟩ := toInt_expireTime hlock hperiod hexact.expiry
    have hend := lockEnd_ge hv hlock hexact.expiry ho hp hl htime hnear
    have hms := (hexact.expiry hlock).1
    have hsum := toInt_recFrozen_delegated hpos (hexact.amount owner receiver ho hp)
    rw [hlock, recordAmount, hl, Option.elim_some] at hsum; rw [hsum, recExpire_delegated, hexpire]
    unfold lockEnd at hend ⊢; exact ⟨by omega, by omega, by omega⟩
  · obtain ⟨hfrozen, hexpire⟩ := delegated_of_ne hvalid hr hres
    rw [hfrozen, hexpire, hlock, hl]; exact ⟨le_rfl, le_rfl, hnear⟩

/-- A delegation adds to the unlocked amount or leaves it. -/
lemma recordAmount_delegated (hpos : 0 < c.balance.toInt) (hvalid : resourceValid c.resource = true)
    (hr : resourceValid r = true) (hfits : recordAmount s owner receiver c.lock c.resource + c.balance.toInt < 2 ^ 63) :
    recordAmount s owner receiver c.lock r ≤ (recFrozen (delegated c s owner receiver) r).toInt := by
  by_cases hres : r = c.resource
  · subst hres; rw [toInt_recFrozen_delegated hpos hfits]; omega
  · rw [(delegated_of_ne hvalid hr hres).1, toInt_recFrozen_getD]

lemma locked (h : Locked owner receiver r amount due s) (hr : resourceValid r = true)
    (hrun : delegateResourceActuator.run c s = .ok res t) (hexact : Exact c s) (htime : s.now.toInt ≤ due) :
    Locked owner receiver r amount due t := by
  obtain ⟨⟨v, hv⟩, -⟩ := Actuator.run_ok hrun
  obtain ⟨o, p, ho, hp, hvalid, hpos, hprops, hget, -⟩ := run_spec hrun
  by_cases hpair : (owner, receiver) = (o, p)
  · obtain ⟨rfl, rfl⟩ := Prod.mk.inj hpair
    have hfits := hexact.amount owner receiver ho hp
    obtain ⟨l, hl, hamount, hdue, hnear⟩ := h.locked
    have hunlocked := h.unlocked
    cases hlock : c.lock with
    | true =>
      obtain ⟨hfrozen, hexpire, hnear'⟩ := relocked hv hlock hpos hvalid hr hexact ho hp hl (by omega) hnear
      refine ⟨⟨delegated c s owner receiver, by rw [hget, hlock, if_pos rfl], by omega, by omega, ?_⟩, ?_⟩
      · rwa [Locked.now_of_properties hprops]
      · rwa [recordAmount, hget, if_neg (by simp [hlock])]
    | false =>
      refine ⟨⟨l, ?_, hamount, hdue, ?_⟩, ?_⟩
      · rw [hget, if_neg (by simp [hlock]), hl]
      · rwa [Locked.now_of_properties hprops]
      · have hmore := recordAmount_delegated hpos hvalid hr hfits
        rw [hlock] at hmore; rw [recordAmount, hget, hlock, if_pos rfl, Option.elim_some]; omega
  · refine h.congr hprops fun k => ?_
    rw [hget, if_neg]; intro heq; obtain ⟨h1, h2⟩ := Prod.mk.inj heq
    exact hpair (Prod.ext h1 (Prod.mk.inj h2).1)

lemma locked_self (hlock : c.lock = true)
    (ho : Address.ofBytes c.ownerAddress = some owner) (hp : Address.ofBytes c.receiverAddress = some receiver)
    (hrun : delegateResourceActuator.run c s = .ok res t) (hexact : Exact c s)
    (hrecords : ∀ k, 0 ≤ recordAmount s owner receiver k c.resource) :
    Locked owner receiver c.resource c.balance.toInt (lockEnd c s) t := by
  obtain ⟨⟨v, hv⟩, -⟩ := Actuator.run_ok hrun
  obtain ⟨o, p, ho', hp', hvalid, hpos, hprops, hget, -⟩ := run_spec hrun
  cases ho.symm.trans ho'; cases hp.symm.trans hp'; obtain ⟨hperiod, -⟩ := validate_lock hv hlock ho hp
  obtain ⟨-, hexpire⟩ := toInt_expireTime hlock hperiod hexact.expiry
  have hsum := toInt_recFrozen_delegated hpos (hexact.amount owner receiver ho hp)
  have hms := (hexact.expiry hlock).1
  have hold := hrecords c.lock
  refine ⟨⟨delegated c s owner receiver, by rw [hget, hlock, if_pos rfl], by omega, ?_, ?_⟩, ?_⟩
  · rw [recExpire_delegated, hexpire]
  · rw [recExpire_delegated, hexpire, Locked.now_of_properties hprops]; unfold lockEnd; omega
  · rw [recordAmount, hget, if_neg (by simp [hlock])]; exact hrecords false

end DelegateResourceActuator

namespace UnDelegateResourceActuator
variable {c : UnDelegateResourceContract} {s t : WorldState} {owner receiver : Address} {r : Int32} {amount due : Int}
variable {res : ExecutionResult}

lemma delegation_releaseReceiver {b : Int64} : (releaseReceiver s receiver r b).delegation = s.delegation := by
  unfold releaseReceiver; split <;> rfl

lemma delegation_storeDelegation_congr {o p : Address} {k : Bool} {rec : DelegatedResource}
    (h : t.delegation = s.delegation) :
    (t.storeDelegation o p k rec).delegation = (s.storeDelegation o p k rec).delegation := by
  unfold WorldState.storeDelegation
  split
  · exact congrArg (Column.delete · (o, p, k)) h
  · exact congrArg (Column.put · (o, p, k) rec) h

/-- **An accepted withdrawal**: a matured lock is merged, and the amount is taken from the unlocked record. -/
theorem run_spec (h : unDelegateResourceActuator.run c s = .ok res t) : ∃ owner receiver u,
    Address.ofBytes c.ownerAddress = some owner ∧ Address.ofBytes c.receiverAddress = some receiver ∧
      resourceValid c.resource = true ∧ 0 < c.balance ∧
      c.balance ≤ available (s.getDelegation owner receiver false) (s.getDelegation owner receiver true) c.resource
        s.now ∧ t.properties = s.properties ∧
      (mergeExpiredLock s owner receiver c.resource s.now).getDelegation owner receiver false = some u ∧
      ∀ o p k, t.getDelegation o p k =
        ((mergeExpiredLock s owner receiver c.resource s.now).storeDelegation owner receiver
        false (recSetFrozen u c.resource (recFrozen u c.resource - c.balance))).getDelegation o p k := by
  obtain ⟨⟨v, hv⟩, hx⟩ := Actuator.run_ok h
  obtain ⟨-, o, p, -, ho, hp, -, -, hpos, hle⟩ := validate_ok hv
  obtain ⟨owner, receiver, u, x, m, ho', hp', rfl, hu, -, rfl⟩ := execute_ok hx
  cases ho.symm.trans ho'; cases hp.symm.trans hp'
  refine ⟨o, p, u, ho, hp, validate_resource hv, hpos, hle, ?_, ?_, fun o' p' k => ?_⟩
  · show (WorldState.storeDelegation _ _ _ _ _).properties = _
    rw [properties_storeDelegation, properties_releaseReceiver, properties_mergeExpiredLock]
  · rw [← hu]; exact congrArg (Column.get · (o, p, false)) delegation_releaseReceiver.symm
  · exact congrArg (Column.get · (o', p', k)) (delegation_storeDelegation_congr delegation_releaseReceiver)

/-- What can be withdrawn while the lock holds is in the unlocked record. -/
lemma available_of_le {u l : DelegatedResource} {now : Int64} (h : now ≤ recExpire l r) :
    available (some u) (some l) r now = recFrozen u r := by
  rw [le_iff_toInt_le] at h
  refine if_neg fun hlt => ?_
  rw [lt_iff_toInt_lt] at hlt; omega

lemma locked (h : Locked owner receiver r amount due s) (hamount : 0 < amount)
    (hr : resourceValid r = true) (hrun : unDelegateResourceActuator.run c s = .ok res t) (htime : s.now.toInt ≤ due) :
    Locked owner receiver r amount due t := by
  obtain ⟨o, p, u, -, -, hvalid, hpos, hle, hprops, hu, hget⟩ := run_spec hrun
  by_cases hpair : (owner, receiver) = (o, p)
  · obtain ⟨rfl, rfl⟩ := Prod.mk.inj hpair
    obtain ⟨l, hl, hfrozen, hdue, hnear⟩ := h.locked
    have hunlocked := h.unlocked
    by_cases hres : r = c.resource
    · -- the lock holds: nothing is merged, and the amount is in the unlocked record
      subst hres; have hstay : s.now ≤ recExpire l c.resource := le_iff_toInt_le.mpr (by omega)
      rw [mergeExpiredLock_of_le hl hstay] at hu hget; rw [hu, hl, available_of_le hstay] at hle
      rw [le_iff_toInt_le] at hle; rw [Int64.pos_iff] at hpos
      have hlt := (recFrozen u c.resource).toInt_lt
      refine ⟨⟨l, ?_, hfrozen, hdue, ?_⟩, ?_⟩
      · rw [hget, getDelegation_storeDelegation_of_ne (by simp), hl]
      · rwa [Locked.now_of_properties hprops]
      · rw [recordAmount, hget, ← recordAmount, recordAmount_storeDelegation, recFrozen_recSetFrozen,
          toInt_sub_of_fits ⟨by omega, by omega⟩]
        omega
    · -- the other resource
      have hne : recFrozen l r ≠ 0 := by intro hzero; rw [hzero, toInt_zero] at hfrozen; omega
      obtain ⟨l', hl', hf', he'⟩ := lock_mergeExpiredLock_of_ne s.now hvalid hr hres hl hne
      refine ⟨⟨l', ?_, by rwa [hf'], by rwa [he'], ?_⟩, ?_⟩
      · rw [hget, getDelegation_storeDelegation_of_ne (by simp), hl']
      · rwa [he', Locked.now_of_properties hprops]
      rw [recordAmount, hget, ← recordAmount, recordAmount_storeDelegation,
        recFrozen_recSetFrozen_of_ne _ _ hvalid hr hres]
      have hsame := recordAmount_mergeExpiredLock_of_ne s owner receiver s.now hvalid hr hres
      rw [recordAmount, hu, Option.elim_some] at hsame; omega
  · refine h.congr hprops fun k => ?_
    rw [hget, getDelegation_storeDelegation_of_ne, getDelegation_mergeExpiredLock_of_ne hpair]
    intro heq; obtain ⟨h1, h2⟩ := Prod.mk.inj heq; exact hpair (Prod.ext h1 (Prod.mk.inj h2).1)

end UnDelegateResourceActuator

/-! ## Runs -/

/-- Time does not go back. -/
def TimeGoesOn (s : WorldState) : ContractStep → Prop
  | .setProperty _ v => s.now ≤ v
  | _ => True

/-- Delegations and withdrawals one after the other, while the block time goes on. -/
def delegationRuns (pf : Platform) : Lts WorldState ContractStep :=
  (contractRuns pf [.delegateResource, .unDelegateResource] (fun k _ => k = .latestBlockHeaderTimestamp)
    fun _ => True).guard TimeGoesOn

/-- A delegation does not overflow. -/
def ExactStep (s : WorldState) : ContractStep → Prop
  | .apply .delegateResource c => DelegateResourceActuator.Exact c s
  | _ => True

section Runs
variable {pf : Platform} {owner receiver : Address} {r : Int32} {amount due : Int} {s t : WorldState}
variable {l : ContractStep}

/-- A step is a delegation, a withdrawal, or time going on. -/
lemma delegationRuns_cases (h : (delegationRuns pf).step s l t) :
    (∃ c res, l = .apply .delegateResource c ∧ delegateResourceActuator.run c s = .ok res t) ∨
    (∃ c res, l = .apply .unDelegateResource c ∧ unDelegateResourceActuator.run c s = .ok res t) ∨
    ∃ v, s.now ≤ v ∧ t = s.putProp .latestBlockHeaderTimestamp v := by
  cases l with
  | setProperty k v =>
    obtain ⟨hforward, rfl, rfl⟩ := h; exact .inr (.inr ⟨v, hforward, rfl⟩)
  | apply ty c =>
    obtain ⟨-, hty, a, res, hroute, hrun⟩ := h
    simp only [List.mem_cons, List.not_mem_nil, or_false] at hty
    rcases hty with rfl | rfl
    · cases hroute; exact .inl ⟨c, res, rfl, hrun⟩
    · cases hroute; exact .inr (.inl ⟨c, res, rfl, hrun⟩)

/-- The block time of a run only grows. -/
lemma now_le_of_step (h : (delegationRuns pf).step s l t) : s.now.toInt ≤ t.now.toInt := by
  rcases delegationRuns_cases h with ⟨c, res, -, hrun⟩ | ⟨c, res, -, hrun⟩ | ⟨v, hv, rfl⟩
  · obtain ⟨-, -, -, -, -, -, hprops, -⟩ := DelegateResourceActuator.run_spec hrun
    rw [Locked.now_of_properties hprops]
  · obtain ⟨-, -, -, -, -, -, -, -, hprops, -⟩ := UnDelegateResourceActuator.run_spec hrun
    rw [Locked.now_of_properties hprops]
  · rw [WorldState.now, WorldState.now, getProp_putProp_self]; exact le_iff_toInt_le.mp hv

/-- **One step** within the lock period. -/
theorem Locked.step (h : Locked owner receiver r amount due s) (hamount : 0 < amount)
    (hr : resourceValid r = true) (hstep : (delegationRuns pf).step s l t) (hexact : ExactStep s l)
    (htime : s.now.toInt ≤ due) : Locked owner receiver r amount due t := by
  rcases delegationRuns_cases hstep with ⟨c, res, rfl, hrun⟩ | ⟨c, res, rfl, hrun⟩ | ⟨v, hv, rfl⟩
  · exact DelegateResourceActuator.locked h hr hrun hexact htime
  · exact UnDelegateResourceActuator.locked h hamount hr hrun htime
  · exact h.putProp hv

/-- **A whole run** that ends within the lock period. -/
theorem Locked.run {ls : List ContractStep} (hrun : ((delegationRuns pf).guard ExactStep).Run s ls t)
    (h : Locked owner receiver r amount due s) (hamount : 0 < amount) (hr : resourceValid r = true)
    (htime : t.now.toInt ≤ due) : Locked owner receiver r amount due t := by
  -- while the time is within the lock period the lock holds; time only grows, so it was within it all along
  have hkept : ∀ s l t, (s.now.toInt ≤ due → Locked owner receiver r amount due s) →
      ((delegationRuns pf).guard ExactStep).step s l t → t.now.toInt ≤ due → Locked owner receiver r amount due t := by
    intro s l t hs hstep ht; have hle := now_le_of_step hstep.2
    exact (hs (by omega)).step hamount hr hstep.2 hstep.1 (by omega)
  exact hrun.preserves hkept (fun _ => h) htime

end Runs

/-- **A lock is honoured**: after an accepted delegation with `lock`, in every later state of a run in which no
delegation overflows, until the end of the lock period, the records of the pair hold at least the locked amount. -/
theorem lock_honoured {pf : Platform} {c : DelegateResourceContract} {s t u : WorldState} {res : ExecutionResult}
    {owner receiver : Address} {ls : List ContractStep} (hlock : c.lock = true)
    (ho : Address.ofBytes c.ownerAddress = some owner) (hp : Address.ofBytes c.receiverAddress = some receiver)
    (haccepted : delegateResourceActuator.run c s = .ok res t) (hexact : DelegateResourceActuator.Exact c s)
    (hrecords : ∀ k, 0 ≤ recordAmount s owner receiver k c.resource)
    (hrun : ((delegationRuns pf).guard ExactStep).Run t ls u)
    (htime : u.now.toInt ≤ DelegateResourceActuator.lockEnd c s) : c.balance.toInt ≤
      recordAmount u owner receiver true c.resource + recordAmount u owner receiver false c.resource := by
  obtain ⟨-, -, -, -, hvalid, hpos, -⟩ := DelegateResourceActuator.run_spec haccepted
  have hlocked := DelegateResourceActuator.locked_self hlock ho hp haccepted hexact hrecords
  exact (hlocked.run hrun hpos hvalid htime).le_records

instance decidableExact (c : DelegateResourceContract) (s : WorldState) :
    Decidable (DelegateResourceActuator.Exact c s) :=
  decidable_of_iff ((c.lock = true → (DelegateResourceActuator.lockPeriodBlocks c).toInt * 3000 < 2 ^ 63 ∧
      DelegateResourceActuator.lockEnd c s < 2 ^ 63) ∧
    ∀ owner ∈ Address.ofBytes c.ownerAddress, ∀ receiver ∈ Address.ofBytes c.receiverAddress,
      recordAmount s owner receiver c.lock c.resource + c.balance.toInt < 2 ^ 63)
    ⟨fun h => ⟨h.1, fun owner receiver ho hp => h.2 owner ho receiver hp⟩,
      fun h => ⟨h.expiry, fun owner ho receiver hp => h.amount owner receiver ho hp⟩⟩

instance (s : WorldState) (l : ContractStep) : Decidable (ExactStep s l) := by
  unfold ExactStep
  split
  · exact decidableExact _ s
  · infer_instance

instance (s : WorldState) (l : ContractStep) : Decidable (TimeGoesOn s l) := by
  unfold TimeGoesOn
  split <;> infer_instance

/-- An account with ten TRX staked for bandwidth and one without any, at time 8000. -/
def lockers : WorldState :=
  { account := ((∅ : Column Address Account).put (Address.ofNat 0xaa) { frozenV2 := [⟨bandwidth, 10000000⟩] }).put
      (Address.ofNat 0xbb) {}
    properties := (∅ : Column Property Int64).put .latestBlockHeaderTimestamp 8000 }

/-- Three TRX locked for `period` blocks. -/
def lockThree (period : Int64) : DelegateResourceContract :=
  { ownerAddress := (Address.ofNat 0xaa).asBytes, balance := 3000000, lock := true, lockPeriod := period
    receiverAddress := (Address.ofNat 0xbb).asBytes }

def delegateTwoTrx : DelegateResourceContract := { lockThree 0 with balance := 2000000, lock := false }

def withdrawTwo : UnDelegateResourceContract :=
  { ownerAddress := (Address.ofNat 0xaa).asBytes, balance := 2000000, receiverAddress := (Address.ofNat 0xbb).asBytes }

def withdrawThree : UnDelegateResourceContract := { withdrawTwo with balance := 3000000 }

/-- One step of `delegationRuns`, computed. -/
def delegationNext : WorldState → ContractStep → Option WorldState :=
  Lts.guardStep TimeGoesOn (ContractStep.next Platform.blank [.delegateResource, .unDelegateResource]
    fun k _ => k = .latestBlockHeaderTimestamp)

lemma step_of_delegationNext {s t : WorldState} {l : ContractStep} (h : delegationNext s l = some t) :
    (delegationRuns Platform.blank).step s l t :=
  Lts.step_of_guardStep (fun _ _ _ => ContractStep.step_of_next) h

/-- Two TRX more, not locked, can be withdrawn at time 300000, and the lock until 308000 still holds its three. -/
theorem lockThree_honoured : ∃ t u res, delegateResourceActuator.run (lockThree 100) lockers = .ok res t ∧
    ((delegationRuns Platform.blank).guard ExactStep).Run t [.apply .delegateResource delegateTwoTrx,
      .setProperty .latestBlockHeaderTimestamp 300000, .apply .unDelegateResource withdrawTwo] u ∧
    (lockThree 100).balance.toInt ≤ recordAmount u (Address.ofNat 0xaa) (Address.ofNat 0xbb) true bandwidth +
      recordAmount u (Address.ofNat 0xaa) (Address.ofNat 0xbb) false bandwidth := by
  have haccepted : returns (delegateResourceActuator.run (lockThree 100)) lockers = true := by decide +kernel
  obtain ⟨res, haccepted⟩ := ok_of_returns haccepted
  have hexec : (Lts.exec (Lts.guardStep ExactStep delegationNext)
      (stateAfter (delegateResourceActuator.run (lockThree 100)) lockers) [.apply .delegateResource delegateTwoTrx,
        .setProperty .latestBlockHeaderTimestamp 300000, .apply .unDelegateResource withdrawTwo]).map WorldState.now =
      some 300000 := by decide +kernel
  obtain ⟨u, hrun, htime⟩ := Lts.Run.exists_of_exec
    (fun _ _ _ => Lts.step_of_guardStep fun _ _ _ => step_of_delegationNext) hexec
  have hrecords : ∀ k,
      0 ≤ recordAmount lockers (Address.ofNat 0xaa) (Address.ofNat 0xbb) k (lockThree 100).resource := by
    decide
  have ho : Address.ofBytes (lockThree 100).ownerAddress = some (Address.ofNat 0xaa) := by decide
  have hp : Address.ofBytes (lockThree 100).receiverAddress = some (Address.ofNat 0xbb) := by decide
  have hend : u.now.toInt ≤ DelegateResourceActuator.lockEnd (lockThree 100) lockers := by rw [htime]; decide +kernel
  exact ⟨_, u, res, haccepted, hrun, lock_honoured rfl ho hp haccepted (by decide +kernel) hrecords hrun hend⟩

/-- A lock period of `2 ^ 63` milliseconds and a little more ends long before it begins. The three TRX can be withdrawn
at once. -/
theorem lock_overflows : ∃ t u res, delegateResourceActuator.run (lockThree 3074457345618259) lockers = .ok res t ∧
    (∀ k, recordAmount lockers (Address.ofNat 0xaa) (Address.ofNat 0xbb) k bandwidth = 0) ∧
    (delegationRuns Platform.blank).Run t [.apply .unDelegateResource withdrawThree] u ∧
    u.now.toInt ≤ DelegateResourceActuator.lockEnd (lockThree 3074457345618259) lockers ∧
    recordAmount u (Address.ofNat 0xaa) (Address.ofNat 0xbb) true bandwidth +
      recordAmount u (Address.ofNat 0xaa) (Address.ofNat 0xbb) false bandwidth = 0 := by
  have haccepted : returns (delegateResourceActuator.run (lockThree 3074457345618259)) lockers = true := by
    decide +kernel
  obtain ⟨res, haccepted⟩ := ok_of_returns haccepted
  have hexec : (Lts.exec delegationNext (stateAfter (delegateResourceActuator.run (lockThree 3074457345618259)) lockers)
      [.apply .unDelegateResource withdrawThree]).map (fun u => (u.now,
        recordAmount u (Address.ofNat 0xaa) (Address.ofNat 0xbb) true bandwidth +
        recordAmount u (Address.ofNat 0xaa) (Address.ofNat 0xbb) false bandwidth)) = some (8000, 0) := by
    decide +kernel
  obtain ⟨u, hrun, hview⟩ := Lts.Run.exists_of_exec (fun _ _ _ => step_of_delegationNext) hexec
  obtain ⟨htime, hsum⟩ := Prod.mk.inj hview
  exact ⟨_, u, res, haccepted, by decide, hrun, by rw [htime]; decide +kernel, hsum⟩

/-! ## What a new delegation leaves -/

namespace UnDelegateResourceActuator

/-- The withdrawal would be accepted. -/
def Accepts (c : UnDelegateResourceContract) (s : WorldState) : Prop := ∃ v, validate c s = .ok v

/-- The most that can be withdrawn. -/
def withdrawable (s : WorldState) (owner receiver : Address) (r : Int32) : Int64 :=
  available (s.getDelegation owner receiver false) (s.getDelegation owner receiver true) r s.now

/-- What is in the unlocked record. -/
def unlockedAmount (s : WorldState) (owner receiver : Address) (r : Int32) : Int64 :=
  ((s.getDelegation owner receiver false).map (recFrozen · r)).getD 0

/-- Every withdrawal from the pair that would be accepted before is accepted after. -/
def StillAccepted (owner receiver : Address) (r : Int32) (s t : WorldState) : Prop :=
  ∀ c, Address.ofBytes c.ownerAddress = some owner → Address.ofBytes c.receiverAddress = some receiver →
    c.resource = r → Accepts c s → Accepts c t

variable {c : UnDelegateResourceContract} {s t : WorldState} {owner receiver : Address} {r : Int32}

lemma accepts_iff (ho : Address.ofBytes c.ownerAddress = some owner)
    (hp : Address.ofBytes c.receiverAddress = some receiver) : Accepts c s ↔
      (s.getAccount owner).isSome ∧ receiver ≠ owner ∧
      ((s.getDelegation owner receiver false).isSome ∨ (s.getDelegation owner receiver true).isSome) ∧ 0 < c.balance ∧
      resourceValid c.resource = true ∧ c.balance ≤ withdrawable s owner receiver c.resource := by
  constructor
  · intro h; obtain ⟨v, h⟩ := h; simp only [validate, check_rules, parseAddress_eq_ok] at h
    obtain ⟨o, ho', x, hx, p, hp', _, hne, _, hrec, _, hpos, _, hvalid, _, hle, _⟩ := h
    cases ho.symm.trans ho'; cases hp.symm.trans hp'
    exact ⟨Option.isSome_iff_exists.mpr ⟨x, hx⟩, hne, hrec, hpos, hvalid, hle⟩
  · intro h; obtain ⟨haccount, hne, hrec, hpos, hvalid, hle⟩ := h
    obtain ⟨x, hx⟩ := Option.isSome_iff_exists.mp haccount
    refine ⟨0, ?_⟩; simp only [validate, check_rules, parseAddress_eq_ok]
    exact ⟨owner, ho, x, hx, receiver, hp, (), hne, (), hrec, (), hpos, (), hvalid, (), hle, trivial⟩

lemma accepts_iff_isOk : Accepts c s ↔ (validate c s).isOk = true := by
  unfold Accepts
  cases validate c s with
  | ok v => exact ⟨fun _ => rfl, fun _ => ⟨v, rfl⟩⟩
  | error =>
    refine ⟨fun h => ?_, fun h => ?_⟩
    · obtain ⟨v, hv⟩ := h; cases hv
    · cases h

/-- Without a record nothing can be withdrawn. -/
lemma isSome_of_withdrawable_pos (h : 0 < withdrawable s owner receiver r) :
    (s.getDelegation owner receiver false).isSome ∨ (s.getDelegation owner receiver true).isSome := by
  unfold withdrawable at h
  cases hu : s.getDelegation owner receiver false with
  | some => exact .inl rfl
  | none =>
    cases hl : s.getDelegation owner receiver true with
    | some => exact .inr rfl
    | none =>
      rw [hu, hl] at h; have hzero : (0 : Int64) < 0 := h; exact absurd hzero (by decide)

/-- What is accepted is what is at most `withdrawable`. -/
lemma stillAccepted_iff (hvalid : resourceValid r = true) (hne : receiver ≠ owner) (hs : (s.getAccount owner).isSome)
    (ht : (t.getAccount owner).isSome)
    (hrec : (t.getDelegation owner receiver false).isSome ∨ (t.getDelegation owner receiver true).isSome) :
    StillAccepted owner receiver r s t ↔
      (0 < withdrawable s owner receiver r → withdrawable s owner receiver r ≤ withdrawable t owner receiver r) := by
  constructor
  · intro h hpos; have ho := Address.ofBytes_asBytes owner
    have hp := Address.ofBytes_asBytes receiver
    have hall := h ⟨owner.asBytes, r, withdrawable s owner receiver r, receiver.asBytes⟩ ho hp rfl
    rw [accepts_iff ho hp, accepts_iff ho hp] at hall
    exact (hall ⟨hs, hne, isSome_of_withdrawable_pos hpos, hpos, hvalid, Int64.le_refl _⟩).2.2.2.2.2
  · intro h c ho hp hr haccepts; subst hr
    obtain ⟨-, -, -, hpos, -, hle⟩ := (accepts_iff ho hp).mp haccepts
    refine (accepts_iff ho hp).mpr ⟨ht, hne, hrec, hpos, hvalid, Int64.le_trans hle (h ?_)⟩
    exact Int64.lt_of_lt_of_le hpos hle

end UnDelegateResourceActuator

namespace DelegateResourceActuator
variable {c : DelegateResourceContract} {s t : WorldState} {owner receiver : Address}

open UnDelegateResourceActuator

variable {res : ExecutionResult}

/-- A delegation that is not locked adds to what can be withdrawn. -/
lemma withdrawable_unlocked (ho : Address.ofBytes c.ownerAddress = some owner)
    (hp : Address.ofBytes c.receiverAddress = some receiver) (hrun : delegateResourceActuator.run c s = .ok res t)
    (hlock : c.lock = false) :
    withdrawable t owner receiver c.resource = withdrawable s owner receiver c.resource + c.balance := by
  obtain ⟨o, p, ho', hp', -, -, hprops, hget, -⟩ := run_spec hrun
  cases ho.symm.trans ho'; cases hp.symm.trans hp'
  have hunlock : t.getDelegation owner receiver false = some (delegated c s owner receiver) := by
    rw [hget, hlock, if_pos rfl]
  have hlocked : t.getDelegation owner receiver true = s.getDelegation owner receiver true := by
    rw [hget, if_neg (by simp [hlock])]
  have hfrozen : recFrozen (delegated c s owner receiver) c.resource =
      unlockedAmount s owner receiver c.resource + c.balance := by
    rw [recFrozen_delegated, hlock, unlockedAmount]
    cases s.getDelegation owner receiver false with
    | none => rw [Option.getD_none, recFrozen_newDelegation]; rfl
    | some => rfl
  unfold withdrawable; rw [hunlock, hlocked, Locked.now_of_properties hprops]; unfold available
  rw [Option.map_some, Option.getD_some, hfrozen, ← unlockedAmount]
  cases s.getDelegation owner receiver true with
  | none => rfl
  | some =>
    dsimp only
    split
    · rw [Int64.add_assoc, Int64.add_comm c.balance, ← Int64.add_assoc]
    · rfl

/-- A lock leaves the unlocked record only: its expiry time is the new one, not before now. -/
lemma withdrawable_locked (ho : Address.ofBytes c.ownerAddress = some owner)
    (hp : Address.ofBytes c.receiverAddress = some receiver) (hrun : delegateResourceActuator.run c s = .ok res t)
    (hlock : c.lock = true) (hexact : ExactExpiry c s) :
    withdrawable t owner receiver c.resource = unlockedAmount s owner receiver c.resource := by
  obtain ⟨⟨v, hv⟩, -⟩ := Actuator.run_ok hrun
  obtain ⟨o, p, ho', hp', -, -, hprops, hget, -⟩ := run_spec hrun
  cases ho.symm.trans ho'; cases hp.symm.trans hp'; obtain ⟨hperiod, -⟩ := validate_lock hv hlock ho hp
  obtain ⟨-, hexpire⟩ := toInt_expireTime hlock hperiod hexact
  unfold withdrawable
  rw [hget, hget, if_neg (by simp [hlock]), hlock, if_pos rfl, Locked.now_of_properties hprops]
  refine if_neg fun hlt => ?_
  rw [recExpire_delegated, lt_iff_toInt_lt, hexpire, lockEnd] at hlt
  rw [le_iff_toInt_le, toInt_zero] at hperiod; omega

/-- A lock meets no matured amount; a delegation without lock does not overflow. -/
def LeavesMatured (c : DelegateResourceContract) (s : WorldState) (owner receiver : Address) : Prop :=
  0 < withdrawable s owner receiver c.resource →
    if c.lock then withdrawable s owner receiver c.resource ≤ unlockedAmount s owner receiver c.resource
    else (withdrawable s owner receiver c.resource).toInt + c.balance.toInt < 2 ^ 63

lemma leaves_iff (ho : Address.ofBytes c.ownerAddress = some owner)
    (hp : Address.ofBytes c.receiverAddress = some receiver) (hrun : delegateResourceActuator.run c s = .ok res t)
    (hexact : ExactExpiry c s) : (0 < withdrawable s owner receiver c.resource →
      withdrawable s owner receiver c.resource ≤ withdrawable t owner receiver c.resource) ↔
      LeavesMatured c s owner receiver := by
  obtain ⟨-, -, -, -, -, hbalance, -⟩ := run_spec hrun
  refine imp_congr_right fun hpos => ?_
  cases hlock : c.lock with
  | true =>
    rw [withdrawable_locked ho hp hrun hlock hexact]; rfl
  | false =>
    rw [withdrawable_unlocked ho hp hrun hlock]; rw [Int64.pos_iff] at hpos
    have hlt' := c.balance.toInt_lt
    show _ ↔ (withdrawable s owner receiver c.resource).toInt + c.balance.toInt < 2 ^ 63
    rw [le_iff_toInt_le, Int64.toInt_add, Int.bmod_def]; omega

end DelegateResourceActuator

/-- **A new delegation leaves what could be withdrawn** at the same block time exactly when it does not lock what has
matured (and its sum with that does not overflow). -/
theorem still_accepted_iff {c : DelegateResourceContract} {s t : WorldState} {res : ExecutionResult}
    {owner receiver : Address} (ho : Address.ofBytes c.ownerAddress = some owner)
    (hp : Address.ofBytes c.receiverAddress = some receiver) (haccepted : delegateResourceActuator.run c s = .ok res t)
    (hexact : DelegateResourceActuator.ExactExpiry c s) :
    UnDelegateResourceActuator.StillAccepted owner receiver c.resource s t ↔
      DelegateResourceActuator.LeavesMatured c s owner receiver := by
  rw [← DelegateResourceActuator.leaves_iff ho hp haccepted hexact]
  obtain ⟨⟨v, hv⟩, -⟩ := Actuator.run_ok haccepted
  obtain ⟨-, o, p, x, y, ho', hp', hne, hx, -⟩ := DelegateResourceActuator.validate_ok hv
  obtain ⟨o', p', ho'', hp'', hvalid, -, -, hget, hkept⟩ := DelegateResourceActuator.run_spec haccepted
  cases ho.symm.trans ho'; cases hp.symm.trans hp'; cases ho.symm.trans ho''
  cases hp.symm.trans hp''
  have haccount : (s.getAccount owner).isSome := Option.isSome_iff_exists.mpr ⟨x, hx⟩
  refine UnDelegateResourceActuator.stillAccepted_iff hvalid hne haccount (hkept owner haccount) ?_
  cases hlock : c.lock with
  | false => exact .inl (by rw [hget, hlock, if_pos rfl]; rfl)
  | true => exact .inr (by rw [hget, hlock, if_pos rfl]; rfl)

/-- After two TRX are delegated without lock, and can be withdrawn, a lock on three more leaves them. -/
theorem lockThree_leaves : ∃ s t res, stateAfter (delegateResourceActuator.run delegateTwoTrx) lockers = s ∧
    delegateResourceActuator.run (lockThree 100) s = .ok res t ∧
    UnDelegateResourceActuator.StillAccepted (Address.ofNat 0xaa) (Address.ofNat 0xbb) bandwidth s t := by
  have haccepted : returns (delegateResourceActuator.run (lockThree 100))
      (stateAfter (delegateResourceActuator.run delegateTwoTrx) lockers) = true := by decide +kernel
  obtain ⟨res, haccepted⟩ := ok_of_returns haccepted
  have ho : Address.ofBytes (lockThree 100).ownerAddress = some (Address.ofNat 0xaa) := by decide
  have hp : Address.ofBytes (lockThree 100).receiverAddress = some (Address.ofNat 0xbb) := by decide
  refine ⟨_, _, res, rfl, haccepted, (still_accepted_iff ho hp haccepted fun _ => ?_).mpr fun _ => ?_⟩
  · decide +kernel
  · rw [if_pos (by decide)]; decide +kernel

/-- The lock of three TRX until 308000 has expired at 400000, and the three TRX can be withdrawn; once three more are
locked, they cannot. -/
theorem matured_lock_frozen : ∃ s t res,
    (delegationRuns Platform.blank).Run lockers [.apply .delegateResource (lockThree 100),
      .setProperty .latestBlockHeaderTimestamp 400000] s ∧ delegateResourceActuator.run (lockThree 100) s = .ok res t ∧
    DelegateResourceActuator.ExactExpiry (lockThree 100) s ∧
    ¬ UnDelegateResourceActuator.StillAccepted (Address.ofNat 0xaa) (Address.ofNat 0xbb) bandwidth s t := by
  have hexec : (Lts.exec delegationNext lockers [.apply .delegateResource (lockThree 100),
      .setProperty .latestBlockHeaderTimestamp 400000]).map (fun s => (s.now,
        returns (delegateResourceActuator.run (lockThree 100)) s,
        (UnDelegateResourceActuator.validate withdrawThree s).isOk, (UnDelegateResourceActuator.validate withdrawThree
          (stateAfter (delegateResourceActuator.run (lockThree 100)) s)).isOk)) = some (400000, true, true, false) := by
    decide +kernel
  obtain ⟨s, hrun, hview⟩ := Lts.Run.exists_of_exec (fun _ _ _ => step_of_delegationNext) hexec
  obtain ⟨hnow, hview⟩ := Prod.mk.inj hview
  obtain ⟨haccepted, hview⟩ := Prod.mk.inj hview
  obtain ⟨hbefore, hafter⟩ := Prod.mk.inj hview
  obtain ⟨res, haccepted⟩ := ok_of_returns haccepted
  refine ⟨s, _, res, hrun, haccepted, fun _ => ?_, fun hstill => ?_⟩
  · rw [DelegateResourceActuator.lockEnd, hnow]; decide +kernel
  · have hstill := hstill withdrawThree (by decide) (by decide) rfl
    rw [UnDelegateResourceActuator.accepts_iff_isOk, UnDelegateResourceActuator.accepts_iff_isOk, hafter] at hstill
    exact absurd (hstill hbefore) (by decide)

end TronRs

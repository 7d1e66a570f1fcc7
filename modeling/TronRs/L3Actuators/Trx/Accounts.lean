import TronRs.L3Actuators.Delegate
import TronRs.L3Actuators.Transfer

/-!
# TRX in accounts

The places where an account keeps TRX: its balance and allowance, the stakes of Stake 1.0 and
2.0, what it is unfreezing and what it has delegated. `Solvent` says that none of them is
negative, `trxWorth` adds them up.

`TrxOk single total owed due s` is the invariant of the operations that move TRX: the accounts
and what is `owed` by a half-finished operation make up `total`, and the delegation records of
every owner make up what its account says it has delegated, but for what is `due`. Between
operations nothing is owed and nothing is due.

* `TrxOk.putAccount`, `TrxOk.writeRecord`: what one write does to the two.
-/
namespace TronRs

open TronRs.Core
open FreezeV2 (amount)

variable {a : Account} {s : WorldState}

/-! ## What an account is worth -/

/-- Mirrors actuators/delegate.rs:121. -/
def ownerDelegated (a : Account) (resource : Int32) : Int64 :=
  if resource = bandwidth then a.delegatedFrozenV2BalanceForBandwidth
  else (a.accountResource.map AccountResource.delegatedFrozenV2BalanceForEnergy).getD 0

/-- The amount of a single stake, if there is one. -/
def stakedIn (o : Option Frozen) : Int64 := (o.map Frozen.frozenBalance).getD 0

/-- The stakes of one resource; there should be at most one. -/
def stakesOf (r : Int32) (fs : List FreezeV2) : List FreezeV2 := fs.filter (·.type = r)

/-- What the stakes of one resource add up to. -/
def stakedFor (r : Int32) (fs : List FreezeV2) : Int := exactSum ((stakesOf r fs).map amount)

/-- No resource has a negative stake. Only the first stake of a resource ever changes; where there are others, it may
become negative, but not their sum. -/
structure StakesOk (fs : List FreezeV2) : Prop where
  sum : ∀ r, 0 ≤ stakedFor r fs
  rest : ∀ r, ∀ f ∈ (stakesOf r fs).tail, 0 ≤ f.amount.toInt
  rest_lt : ∀ r, exactSum ((stakesOf r fs).tail.map amount) < 2 ^ 63

/-- No amount of TRX in the account is negative. With `single`, no resource has two stakes. -/
structure Solvent (single : Prop) (a : Account) : Prop where
  balance : 0 ≤ a.balance.toInt
  allowance : 0 ≤ a.allowance.toInt
  frozen : ∀ f ∈ a.frozen, 0 ≤ f.frozenBalance.toInt
  energy : 0 ≤ (stakedIn (frozenEnergy a)).toInt
  power : 0 ≤ (stakedIn a.tronPower).toInt
  stakes : StakesOk a.frozenV2
  unfreezing : ∀ u ∈ a.unfrozenV2, 0 ≤ u.unfreezeAmount.toInt
  delegated : ∀ r, resourceValid r = true → 0 ≤ (ownerDelegated a r).toInt
  types : single → (a.frozenV2.map FreezeV2.type).Nodup

/-- All the TRX of an account. -/
def trxWorth (a : Account) : Int :=
  a.balance.toInt + a.allowance.toInt +
  (exactSum (a.frozen.map Frozen.frozenBalance) + (stakedIn (frozenEnergy a)).toInt +
    (stakedIn a.tronPower).toInt) +
  exactSum (a.frozenV2.map amount) + exactSum (a.unfrozenV2.map UnFreezeV2.unfreezeAmount) +
  ((ownerDelegated a bandwidth).toInt + (ownerDelegated a energy).toInt)

variable {single : Prop}

section Stakes
variable {fs : List FreezeV2} {r : Int32} {f : FreezeV2}

/-- The stakes of a resource and the others. -/
lemma stakedFor_add_filter (r : Int32) (fs : List FreezeV2) :
    stakedFor r fs + exactSum ((fs.filter (·.type ≠ r)).map amount) =
      exactSum (fs.map amount) := by
  have hsplit := Int64.exactSum_filter amount (fun f => decide (f.type = r)) fs
  simpa only [stakedFor, stakesOf, ne_eq, decide_not] using hsplit

lemma stakedFor_filter_ne (r r' : Int32) (fs : List FreezeV2) :
    stakedFor r' (fs.filter (·.type ≠ r)) = if r' = r then 0 else stakedFor r' fs := by
  unfold stakedFor stakesOf; rw [List.filter_filter]
  split
  · rename_i hr; subst hr; simp
  rename_i hr; congr 2
  refine List.filter_congr fun f _ => ?_
  by_cases hf : f.type = r'
  · simp [hf, hr]
  · simp [hf]

/-- The stakes of all resources together are not negative either. -/
lemma exactSum_stakes_nonneg : ∀ fs : List FreezeV2, (∀ r, 0 ≤ stakedFor r fs) → 0 ≤ exactSum (fs.map amount)
  | [], _ => le_rfl
  | f :: fs, h => by
    -- the stakes of the first one's resource, and the shorter list of the others
    have hlen := List.length_filter_le (fun g => decide (g.type ≠ f.type)) fs
    have hrest := exactSum_stakes_nonneg ((f :: fs).filter (·.type ≠ f.type)) fun r => by
      rw [stakedFor_filter_ne]
      split
      · exact le_rfl
      · exact h r
    have hsplit := stakedFor_add_filter f.type (f :: fs)
    have hf := h f.type; omega
termination_by fs => fs.length
decreasing_by
  rw [List.filter_cons_of_neg (by simp), List.length_cons]
  omega

lemma StakesOk.nonneg (h : StakesOk fs) : 0 ≤ exactSum (fs.map amount) :=
  exactSum_stakes_nonneg fs h.sum

/-- The stake in one resource is part of all stakes. -/
lemma StakesOk.stakedFor_le (h : StakesOk fs) (r : Int32) : stakedFor r fs ≤ exactSum (fs.map amount) := by
  have hrest := exactSum_stakes_nonneg (fs.filter (·.type ≠ r)) fun r' => by
    rw [stakedFor_filter_ne]
    split
    · exact le_rfl
    · exact h.sum r'
  have hsplit := stakedFor_add_filter r fs; omega

/-- The first stake of a resource and the others of it. -/
lemma stakesOf_of_find (hf : fs.find? (·.type = r) = some f) : stakesOf r fs = f :: (stakesOf r fs).tail := by
  rw [← List.head?_filter] at hf; exact (List.cons_head?_tail hf).symm

/-- The first stake of a resource is at most the sum, and less than it by what fits. -/
lemma StakesOk.first (h : StakesOk fs) (hf : fs.find? (·.type = r) = some f) :
    f.amount.toInt ≤ stakedFor r fs ∧ stakedFor r fs - f.amount.toInt < 2 ^ 63 := by
  have hnn := Int64.exactSum_map_nonneg (h.rest r)
  have hlt := h.rest_lt r; rw [stakedFor, stakesOf_of_find hf, List.map_cons, Int64.exactSum_cons]
  omega

end Stakes

/-- Each part of a solvent account is at most the whole. -/
structure Solvent.Parts (a : Account) : Prop where
  worth : 0 ≤ trxWorth a
  balance : a.balance.toInt ≤ trxWorth a
  frozen : exactSum (a.frozen.map Frozen.frozenBalance) ≤ trxWorth a
  stakes : exactSum (a.frozenV2.map amount) ≤ trxWorth a
  unfreezing : exactSum (a.unfrozenV2.map UnFreezeV2.unfreezeAmount) ≤ trxWorth a
  delegated : ∀ r, resourceValid r = true →
    exactSum (a.frozenV2.map amount) + (ownerDelegated a r).toInt ≤ trxWorth a

lemma Solvent.parts (h : Solvent single a) : Solvent.Parts a := by
  have hb := h.balance
  have ha := h.allowance
  have hf := Int64.exactSum_map_nonneg h.frozen
  have he := h.energy
  have hp := h.power
  have hs := h.stakes.nonneg
  have hu := Int64.exactSum_map_nonneg h.unfreezing
  have hdb := h.delegated bandwidth rfl
  have hde := h.delegated TronRs.energy rfl; constructor
  case delegated =>
    intro r hr; rw [resourceValid_iff] at hr; unfold trxWorth
    rcases hr with rfl | rfl <;> omega
  all_goals unfold trxWorth; omega

/-! ## Accounts without negative amounts -/

/-- No amount of TRX in the account is negative, not even a single stake. -/
@[mk_iff] structure NonNegative (a : Account) : Prop where
  balance : 0 ≤ a.balance.toInt
  allowance : 0 ≤ a.allowance.toInt
  frozen : ∀ f ∈ a.frozen, 0 ≤ f.frozenBalance.toInt
  energy : 0 ≤ (stakedIn (frozenEnergy a)).toInt
  power : 0 ≤ (stakedIn a.tronPower).toInt
  stakes : ∀ f ∈ a.frozenV2, 0 ≤ f.amount.toInt
  unfreezing : ∀ u ∈ a.unfrozenV2, 0 ≤ u.unfreezeAmount.toInt
  delegated : ∀ r, resourceValid r = true → 0 ≤ (ownerDelegated a r).toInt

lemma forall_resourceValid {p : Int32 → Prop} : (∀ r, resourceValid r = true → p r) ↔ p bandwidth ∧ p energy := by
  refine ⟨fun h => ⟨h bandwidth rfl, h energy rfl⟩, fun h r hr => ?_⟩
  rw [resourceValid_iff] at hr
  rcases hr with rfl | rfl
  · exact h.1
  · exact h.2

instance (p : Int32 → Prop) [DecidablePred p] : Decidable (∀ r, resourceValid r = true → p r) :=
  decidable_of_iff _ forall_resourceValid.symm

instance (a : Account) : Decidable (NonNegative a) := decidable_of_iff _ (nonNegative_iff a).symm

/-- What the stakes of an account add up to is part of its worth. -/
lemma NonNegative.stakes_le (h : NonNegative a) : 0 ≤ trxWorth a ∧ exactSum (a.frozenV2.map amount) ≤ trxWorth a := by
  have hb := h.balance
  have ha := h.allowance
  have hf := Int64.exactSum_map_nonneg h.frozen
  have he := h.energy
  have hp := h.power
  have hs := Int64.exactSum_map_nonneg h.stakes
  have hu := Int64.exactSum_map_nonneg h.unfreezing
  have hdb := h.delegated bandwidth rfl
  have hde := h.delegated TronRs.energy rfl; unfold trxWorth; omega

lemma stakesOk_of_nonneg {fs : List FreezeV2} (h : ∀ f ∈ fs, 0 ≤ f.amount.toInt)
    (hlt : exactSum (fs.map amount) < 2 ^ 63) : StakesOk fs := by
  have hof : ∀ r, ∀ f ∈ stakesOf r fs, 0 ≤ f.amount.toInt := fun r f hf => h f (List.mem_of_mem_filter hf)
  refine ⟨fun r => Int64.exactSum_map_nonneg (hof r), fun r f hf => hof r f (List.mem_of_mem_tail hf), fun r => ?_⟩
  have hsplit := stakedFor_add_filter r fs
  have hothers : 0 ≤ exactSum ((fs.filter (·.type ≠ r)).map amount) :=
    Int64.exactSum_map_nonneg fun f hf => h f (List.mem_of_mem_filter hf)
  have htail : exactSum ((stakesOf r fs).tail.map amount) ≤ stakedFor r fs := by
    unfold stakedFor
    cases hfs : stakesOf r fs with
    | nil => exact le_rfl
    | cons f =>
      have hf := hof r f (by rw [hfs]; exact List.mem_cons_self)
      rw [List.tail_cons, List.map_cons, Int64.exactSum_cons]; omega
  omega

lemma NonNegative.solvent (h : NonNegative a) (hlt : trxWorth a < 2 ^ 63)
    (htypes : single → (a.frozenV2.map FreezeV2.type).Nodup) : Solvent single a where
  balance := h.balance
  allowance := h.allowance
  frozen := h.frozen
  energy := h.energy
  power := h.power
  stakes := stakesOk_of_nonneg h.stakes (h.stakes_le.2.trans_lt hlt)
  unfreezing := h.unfreezing
  delegated := h.delegated
  types := htypes

/-- A stake whose resource has no other one. -/
lemma stakesOf_of_nodup {fs : List FreezeV2} {f : FreezeV2} (h : (fs.map FreezeV2.type).Nodup) (hf : f ∈ fs) :
    stakesOf f.type fs = [f] := by
  have hmem : f ∈ stakesOf f.type fs := List.mem_filter.mpr ⟨hf, by simp⟩
  have hnodup : ((stakesOf f.type fs).map FreezeV2.type).Nodup := h.sublist (List.filter_sublist.map _)
  have htype : ∀ g ∈ stakesOf f.type fs, g.type = f.type := fun g hg => by simpa using (List.mem_filter.mp hg).2
  rcases hfs : stakesOf f.type fs with _ | ⟨g, _ | ⟨g', gs⟩⟩
  · rw [hfs] at hmem; cases hmem
  · rw [hfs] at hmem; rw [List.mem_singleton.mp hmem]
  rw [hfs] at hnodup htype
  have hne : g.type ≠ g'.type := by
    simp only [List.map_cons, List.nodup_cons, List.mem_cons, not_or] at hnodup; exact hnodup.1.1
  exact absurd ((htype g (by simp)).trans (htype g' (by simp)).symm) hne

/-- Where no resource has two stakes, no stake is negative. -/
lemma Solvent.nonNegative (h : Solvent single a) (hsingle : single) : NonNegative a where
  balance := h.balance
  allowance := h.allowance
  frozen := h.frozen
  energy := h.energy
  power := h.power
  stakes f hf := by
    have hsum := h.stakes.sum f.type; rw [stakedFor, stakesOf_of_nodup (h.types hsingle) hf] at hsum
    simpa using hsum
  unfreezing := h.unfreezing
  delegated := h.delegated

/-! ## The invariant -/

/-- What the delegation records of an owner add up to. -/
def recordTotal (s : WorldState) (owner : Address) (r : Int32) : Int :=
  Column.total (fun k rec => if k.1 = owner then (recFrozen rec r).toInt else 0) s.delegation

/-- What an owner's account says it has delegated. -/
def delegatedBy (s : WorldState) (owner : Address) (r : Int32) : Int :=
  (s.getAccount owner).elim 0 fun a => (ownerDelegated a r).toInt

/-- Nobody has delegated anything. -/
structure NoDelegations (s : WorldState) : Prop where
  records : ∀ k, s.delegation.get k = none
  delegated : ∀ a x, s.getAccount a = some x → ∀ r, resourceValid r = true → ownerDelegated x r = 0
  acquired : ∀ a x, s.getAccount a = some x → ∀ r, resourceValid r = true → receiverAcquired x r = 0

lemma NoDelegations.recordTotal_eq (h : NoDelegations s) (a : Address) {r : Int32}
    (hr : resourceValid r = true) : recordTotal s a r = delegatedBy s a r := by
  have hrecords : recordTotal s a r = 0 :=
    Finset.sum_eq_zero fun k _ => Column.share_of_none (h.records k)
  rw [hrecords, delegatedBy]
  cases hx : s.getAccount a with
  | none => rfl
  | some x => rw [Option.elim_some, h.delegated a x hx r hr, toInt_zero]

/-- All the TRX in accounts. -/
def trxTotal (s : WorldState) : Int := Column.total (fun _ => trxWorth) s.account

structure TrxOk (single : Prop) (total owed : Int) (due : Address → Int32 → Int) (s : WorldState) : Prop where
  bound : total < 2 ^ 63
  owes : 0 ≤ owed
  accounts : ∀ a x, s.getAccount a = some x → Solvent single x
  supply : trxTotal s + owed = total
  records : ∀ k rec, s.delegation.get k = some rec → ∀ r, resourceValid r = true → 0 ≤ (recFrozen rec r).toInt
  delegated : ∀ a r, resourceValid r = true → recordTotal s a r = delegatedBy s a r + due a r

/-- A state whose accounts hold no negative amounts and whose records agree with them. -/
lemma TrxOk.of_nonNegative (haccounts : ∀ a x, s.getAccount a = some x → NonNegative x)
    (htypes : single → ∀ a x, s.getAccount a = some x → (x.frozenV2.map FreezeV2.type).Nodup)
    (hlt : trxTotal s < 2 ^ 63)
    (hrecords : ∀ k rec, s.delegation.get k = some rec → ∀ r, resourceValid r = true → 0 ≤ (recFrozen rec r).toInt)
    (hdelegated : ∀ a r, resourceValid r = true → recordTotal s a r = delegatedBy s a r) :
    TrxOk single (trxTotal s) 0 0 s := by
  refine ⟨hlt, le_rfl, fun a x hx => ?_, Int.add_zero _, hrecords, fun a r hr => ?_⟩
  · have hle := share_le_total (fun b y hy => (haccounts b y hy).stakes_le.1) a
    rw [Column.share_of_some hx] at hle
    exact (haccounts a x hx).solvent (hle.trans_lt hlt) fun hsingle => htypes hsingle a x hx
  · rw [hdelegated a r hr]; exact (Int.add_zero _).symm

namespace TrxOk
variable {total owed owed' : Int} {due due' : Address → Int32 → Int} {s t : WorldState} {a : Address} {x y : Account}

variable (h : TrxOk single total owed due s)
include h

/-- An account and what is owed together fit. -/
lemma worth_le (hx : s.getAccount a = some x) : trxWorth x + owed ≤ total := by
  have hle := share_le_total (fun b y hy => (h.accounts b y hy).parts.worth) a
  rw [Column.share_of_some hx] at hle; have hs := h.supply; unfold trxTotal at hs
  omega

lemma owed_le : owed ≤ total := by
  have hnn : 0 ≤ trxTotal s :=
    Finset.sum_nonneg fun a _ => Column.share_nonneg (fun b y hy => (h.accounts b y hy).parts.worth) a
  have hs := h.supply; omega

/-- Columns other than the accounts and the delegations do not matter. -/
lemma congr (haccount : t.account = s.account)
    (hdelegation : t.delegation = s.delegation) : TrxOk single total owed due t := by
  have hacc : ∀ a, t.getAccount a = s.getAccount a := fun a => by
    rw [WorldState.getAccount, haccount, WorldState.getAccount]
  constructor
  · exact h.bound
  · exact h.owes
  · intro a x hx; rw [hacc] at hx; exact h.accounts a x hx
  · rw [← h.supply, trxTotal, trxTotal, haccount]
  · intro k rec hk; rw [hdelegation] at hk; exact h.records k rec hk
  · intro a r hr; rw [recordTotal, delegatedBy, hdelegation, hacc]; exact h.delegated a r hr

omit h in
/-- A part of what is owed leaves the accounts for good. -/
lemma spend {fee : Int} (h : TrxOk single total (owed + fee) due s) (hfee : 0 ≤ fee) (howed : 0 ≤ owed) :
    TrxOk single (total - fee) owed due s := by
  have hbound := h.bound
  have hs := h.supply; exact ⟨by omega, howed, h.accounts, by omega, h.records, h.delegated⟩

/-- An account is written: what it loses is owed, and what it delegates is no longer due. -/
lemma write (hy : Solvent single y) (howed : 0 ≤ owed')
    (hsum : owed' + trxWorth y = owed + (s.getAccount a).elim 0 trxWorth)
    (hdue : ∀ r, resourceValid r = true → due' a r + (ownerDelegated y r).toInt = due a r + delegatedBy s a r)
    (hrest : ∀ b, b ≠ a → due' b = due b) : TrxOk single total owed' due' (s.putAccount a y) := by
  refine ⟨h.bound, howed, fun b z hz => ?_, ?_, h.records, fun b r hr => ?_⟩
  · by_cases hb : b = a
    · subst hb; rw [getAccount_putAccount_self] at hz; cases hz
      exact hy
    · rw [getAccount_putAccount_of_ne s y hb] at hz; exact h.accounts b z hz
  · have hput : Column.total (fun _ => trxWorth) (s.putAccount a y).account =
        Column.total (fun _ => trxWorth) s.account - (s.getAccount a).elim 0 trxWorth + trxWorth y :=
      total_put (fun _ => trxWorth) s.account a y
    have hs := h.supply; unfold trxTotal at hs ⊢; omega
  · have hold := h.delegated b r hr; show recordTotal s b r = _
    by_cases hb : b = a
    · subst hb; have hd := hdue r hr; rw [delegatedBy, getAccount_putAccount_self, Option.elim_some]
      omega
    · rw [delegatedBy, getAccount_putAccount_of_ne s y hb, hrest b hb]; exact hold

lemma putAccount (hx : s.getAccount a = some x) (hy : Solvent single y) (howed : 0 ≤ owed')
    (hsum : owed' + trxWorth y = owed + trxWorth x) (hdue : ∀ r, resourceValid r = true →
      due' a r + (ownerDelegated y r).toInt = due a r + (ownerDelegated x r).toInt)
    (hrest : ∀ b, b ≠ a → due' b = due b) : TrxOk single total owed' due' (s.putAccount a y) :=
  h.write hy howed (by rw [hx]; exact hsum) (fun r hr => by rw [delegatedBy, hx]; exact hdue r hr) hrest

/-- An account is written that has delegated as much as before. -/
lemma pay (hx : s.getAccount a = some x) (hy : Solvent single y) (howed : 0 ≤ owed')
    (hsum : owed' + trxWorth y = owed + trxWorth x)
    (hdel : ∀ r, ownerDelegated y r = ownerDelegated x r) : TrxOk single total owed' due (s.putAccount a y) :=
  h.putAccount hx hy howed hsum (fun r _ => by rw [hdel]) fun _ _ => rfl

end TrxOk

/-! ## New accounts -/

section NewAccount
variable (address : Bytes) (type : Int32) (createTime : Int64)

lemma ownerDelegated_new (r : Int32) : ownerDelegated { address, type, createTime } r = 0 := by
  unfold ownerDelegated; split <;> rfl

lemma solvent_new : Solvent single { address, type, createTime } where
  balance := le_rfl
  allowance := le_rfl
  frozen := nofun
  energy := le_rfl
  power := le_rfl
  stakes := ⟨fun _ => le_rfl, fun _ => nofun, fun _ => (by decide : (0 : Int) < 2 ^ 63)⟩
  unfreezing := nofun
  delegated r _ := by rw [ownerDelegated_new]; exact le_rfl
  types _ := List.nodup_nil

/-- A new account holds nothing. -/
lemma TrxOk.putNew {total owed : Int} {due : Address → Int32 → Int} {s : WorldState} {a : Address}
    (h : TrxOk single total owed due s) (hx : s.getAccount a = none) :
    TrxOk single total owed due (s.putAccount a { address, type, createTime }) := by
  refine h.write (solvent_new ..) h.owes ?_ (fun r _ => ?_) fun _ _ => rfl
  · rw [hx]; rfl
  · rw [delegatedBy, hx, ownerDelegated_new]; rfl

end NewAccount

lemma TrxOk.withRecipient {total owed : Int} {due : Address → Int32 → Int}
    (h : TrxOk single total owed due s) (dst : Address) : TrxOk single total owed due (s.withRecipient dst) := by
  unfold WorldState.withRecipient
  split
  · exact h
  · rename_i hx; exact h.putNew _ _ _ (s.accountExists_eq_false.mp (Bool.eq_false_of_not_eq_true hx))

/-! ## Delegation records -/

variable (rec : DelegatedResource)

lemma recFrozen_recSetFrozen (r : Int32) (v : Int64) : recFrozen (recSetFrozen rec r v) r = v := by
  unfold recFrozen recSetFrozen; split <;> rfl

lemma recFrozen_recSetFrozen_of_ne {r r' : Int32} (v : Int64) (hr : resourceValid r = true)
    (hr' : resourceValid r' = true) (hne : r' ≠ r) : recFrozen (recSetFrozen rec r v) r' = recFrozen rec r' := by
  rw [resourceValid_iff] at hr hr'
  rcases hr with rfl | rfl <;> rcases hr' with rfl | rfl
  · exact absurd rfl hne
  · rfl
  · rfl
  · exact absurd rfl hne

lemma recFrozen_recSetExpire (r r' : Int32) (v : Int64) : recFrozen (recSetExpire rec r v) r' = recFrozen rec r' := by
  unfold recFrozen recSetExpire; split <;> split <;> rfl

/-- The amount in a record that may be missing. -/
def recordAmount (s : WorldState) (owner receiver : Address) (lock : Bool) (r : Int32) : Int :=
  (s.getDelegation owner receiver lock).elim 0 fun rec => (recFrozen rec r).toInt

namespace TrxOk
variable {total owed : Int} {due due' : Address → Int32 → Int} {s t : WorldState} {o receiver : Address} {lock : Bool}
variable {r : Int32}

variable (h : TrxOk single total owed due s)
include h

/-- One record is written, or deleted when it is empty; what it gains is due. -/
lemma writeRecord {rec : DelegatedResource}
    (hrec : ∀ r, resourceValid r = true → 0 ≤ (recFrozen rec r).toInt) (haccount : t.account = s.account)
    (hget : t.delegation.get (o, receiver, lock) = some rec ∨
      t.delegation.get (o, receiver, lock) = none ∧ ∀ r, recFrozen rec r = 0)
    (hframe : ∀ k, k ≠ (o, receiver, lock) → t.delegation.get k = s.delegation.get k)
    (hdue : ∀ r, resourceValid r = true →
      due' o r + recordAmount s o receiver lock r = due o r + (recFrozen rec r).toInt)
    (hrest : ∀ b, b ≠ o → due' b = due b) : TrxOk single total owed due' t := by
  have hacc : ∀ a, t.getAccount a = s.getAccount a := fun a => by
    rw [WorldState.getAccount, haccount, WorldState.getAccount]
  refine ⟨h.bound, h.owes, fun a x hx => h.accounts a x (by rw [← hacc]; exact hx), ?_, fun k z hz r hr => ?_,
    fun a r hr => ?_⟩
  · rw [← h.supply, trxTotal, trxTotal, haccount]
  · by_cases hk : k = (o, receiver, lock)
    · subst hk
      rcases hget with hget | ⟨hget, -⟩
      · cases hget.symm.trans hz; exact hrec r hr
      · rw [hget] at hz; cases hz
    · rw [hframe k hk] at hz; exact h.records k z hz r hr
  · -- the total of the owner changes as the record does
    have htot : recordTotal t a r = recordTotal s a r +
        if o = a then recordAmount t o receiver lock r - recordAmount s o receiver lock r else 0 :=
      Column.groupTotal_write hframe a
    have hnew : recordAmount t o receiver lock r = (recFrozen rec r).toInt := by
      unfold recordAmount WorldState.getDelegation
      rcases hget with hget | ⟨hget, hzero⟩
      · rw [hget, Option.elim_some]
      · rw [hget, Option.elim_none, hzero, toInt_zero]
    have hs := h.delegated a r hr
    have hdel : delegatedBy t a r = delegatedBy s a r := by rw [delegatedBy, hacc, delegatedBy]
    rw [hnew] at htot
    by_cases ha : o = a
    · subst ha; have hd := hdue r hr; rw [if_pos rfl] at htot
      omega
    · rw [if_neg ha] at htot; rw [hrest a (Ne.symm ha)]; omega

lemma recordAmount_nonneg (hr : resourceValid r = true)
    (o receiver : Address) (lock : Bool) : 0 ≤ recordAmount s o receiver lock r := by
  unfold recordAmount
  cases hk : s.getDelegation o receiver lock with
  | none => exact le_rfl
  | some rec => exact h.records _ rec hk r hr

/-- What an owner has delegated is part of all there is. -/
lemma delegatedBy_le (hr : resourceValid r = true) (a : Address) : delegatedBy s a r ≤ total := by
  have howes := h.owes; unfold delegatedBy
  cases hx : s.getAccount a with
  | none =>
    have hle := h.owed_le; rw [Option.elim_none]; omega
  | some x =>
    have hle := h.worth_le hx
    have hsolvent := h.accounts a x hx
    have hparts := hsolvent.parts.delegated r hr
    have hstakes := hsolvent.stakes.nonneg; rw [Option.elim_some]; omega

/-- What an owner has delegated to one receiver is part of what it has delegated. -/
lemma recordAmount_le (hr : resourceValid r = true) (o receiver : Address) :
    recordAmount s o receiver false r + recordAmount s o receiver true r ≤ delegatedBy s o r + due o r := by
  have hshare : ∀ l, recordAmount s o receiver l r =
      Column.share (fun k rec => if k.1 = o then (recFrozen rec r).toInt else 0) s.delegation (o, receiver, l) := by
    intro l; unfold Column.share recordAmount WorldState.getDelegation
    cases s.delegation.get (o, receiver, l) <;> simp
  rw [hshare, hshare, ← h.delegated o r hr]
  refine Column.share_add_share_le_total (fun k rec hk => ?_) (by simp)
  split
  · exact h.records k rec hk r hr
  · exact le_rfl

end TrxOk
end TronRs

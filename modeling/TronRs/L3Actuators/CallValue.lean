import TronRs.L2Vm.Value
import TronRs.L3Actuators.SmartContract

/-!
# The value a contract call moves

A call moves its call value without a check, runs code that can only move value by
SELFDESTRUCT, flushes the balances, deletes the destroyed contracts and burns the fee.

* `Holds s T w`: running on `s`, the world `w` has no negative balance and accounts for `T`
  in balances and burned value. SELFDESTRUCT keeps it (`Holds.suicide`), and so does a call
  value that is there to be moved (`Holds.transfer`).
* `call_conserves_iff`: when a call leaves the sum of all balances and the burned amount as
  it was, and no balance negative.
-/
namespace TronRs

open TronRs.Core Vm
open WorldState (getAccount getProp getAccount_burnTrx)
open Platform (blank)

variable {s : WorldState} {owner target : Address} {w : World} {u : Unit}

def trxShare : Address → Account → Int := fun _ a => a.balance.toInt

namespace WorldState

/-- The sum of all balances. -/
def trxTotal (s : WorldState) : Int := Column.total trxShare s.account

def NonNegative (s : WorldState) : Prop := ∀ a acc, s.getAccount a = some acc → 0 ≤ acc.balance.toInt

/-- No value was created or lost on the way from `s` to `t`. -/
def Conserves (s t : WorldState) : Prop :=
  t.trxTotal + t.burned = s.trxTotal + s.burned ∧ t.NonNegative

end WorldState

/-! ## The worth of a world -/

/-- The sum of all balances once the world is flushed, before contracts are deleted. -/
def worth (s : WorldState) (w : World) : Int := Column.total trxShare (flushBalances w s.account)

section Worth
variable {s : WorldState} {w w' : World}

lemma share_flushBalances (hb : w.backend = .state (stateBackend s)) (a : Address) :
    Column.share trxShare (flushBalances w s.account) a = (w.balance a).toInt := by
  unfold Column.share flushBalances World.balance
  rw [Column.get_update, hb]
  cases w.balances.get a with
  | some => rfl
  | none =>
    show Option.elim (s.account.get a) 0 _ = (((s.account.get a).map Account.balance).getD 0).toInt
    cases s.account.get a <;> rfl

lemma get_flushBalances (hb : w.backend = .state (stateBackend s)) {a : Address} {acc : Account}
    (h : (flushBalances w s.account).get a = some acc) : acc.balance = w.balance a := by
  have hs := share_flushBalances hb a
  rw [Column.share, h] at hs
  exact toInt_inj.mp hs

lemma worth_congr (h : w'.balances = w.balances) : worth s w' = worth s w := by
  unfold worth flushBalances
  rw [h]

lemma balance_writeBalance (w : World) (a b : Address) (x : Int64) :
    (w.writeBalance a x).balance b = if b = a then x else w.balance b := by
  unfold World.balance World.writeBalance
  by_cases h : b = a
  · rw [h, get_put_self, if_pos rfl]
  · rw [get_put_of_ne h, if_neg h]

lemma worth_writeBalance (hb : w.backend = .state (stateBackend s)) (a : Address) (x : Int64) :
    worth s (w.writeBalance a x) = worth s w - (w.balance a).toInt + x.toInt := by
  have hget : ∀ b, b ≠ a → (flushBalances (w.writeBalance a x) s.account).get b =
      (flushBalances w s.account).get b := by
    intro b hne; unfold flushBalances World.writeBalance; rw [Column.get_update, Column.get_update]
    dsimp only; rw [get_put_of_ne hne]
  have h := Column.total_sub_share (f := trxShare) hget
  rw [share_flushBalances hb, share_flushBalances (w := w.writeBalance a x) hb, balance_writeBalance, if_pos rfl] at h
  unfold worth
  omega

lemma sameValue_ensureAccount (w : World) (a : Address) : SameValue w (w.ensureAccount a) := by
  unfold World.ensureAccount
  split <;> exact ⟨rfl, rfl, rfl, rfl⟩

end Worth

/-! ## The invariant of a run -/

/-- The world runs on `s`, has no negative balance, and its balances and its burned value
make up `T`. -/
structure Holds (s : WorldState) (T : Int) (w : World) : Prop where
  backend : w.backend = .state (stateBackend s)
  nonneg : ∀ a, 0 ≤ (w.balance a).toInt
  burned : 0 ≤ w.burned.toInt
  total : worth s w + w.burned.toInt = T

namespace Holds
variable {s : WorldState} {T : Int} {w w' : World} {x : Int64} {a b : Address}

lemma congr (h : SameValue w w') (hw : Holds s T w) : Holds s T w' where
  backend := h.backend.trans hw.backend
  nonneg := fun a => by rw [h.balance]; exact hw.nonneg a
  burned := by rw [h.burned]; exact hw.burned
  total := by rw [worth_congr h.balances, h.burned]; exact hw.total

variable (hw : Holds s T w)
include hw

lemma balance_le (a : Address) : (w.balance a).toInt ≤ worth s w := by
  rw [← share_flushBalances hw.backend]
  refine share_le_total (fun k v hv => ?_) a
  show 0 ≤ v.balance.toInt
  rw [get_flushBalances hw.backend hv]
  exact hw.nonneg k

/-- Writing a non-negative balance moves the total by the difference. -/
lemma writeBalance (a : Address) (hx : 0 ≤ x.toInt) :
    Holds s (T - (w.balance a).toInt + x.toInt) (w.writeBalance a x) where
  backend := hw.backend
  nonneg := fun b => by
    rw [balance_writeBalance]
    split
    · exact hx
    · exact hw.nonneg b
  burned := hw.burned
  total := by
    rw [worth_writeBalance hw.backend]; have := hw.total; show worth s w - _ + _ + w.burned.toInt = _
    omega

/-- Two balances never add up to more than everything. -/
lemma add_balance_le (hab : a ≠ b) : (w.balance a).toInt + (w.balance b).toInt ≤ T := by
  have h0 := hw.writeBalance a (x := 0) (by decide)
  have hb := h0.balance_le b
  have ht := h0.total
  rw [balance_writeBalance, if_neg hab.symm] at hb
  have hburn := hw.burned
  simp only [toInt_zero] at ht
  have hkeep : (w.writeBalance a 0).burned = w.burned := rfl
  rw [hkeep] at ht
  omega

/-- What is taken from one account and given to another stays within bounds. -/
lemma move (hab : a ≠ b) {y : Int64} (hx : 0 ≤ x.toInt)
    (hy : 0 ≤ y.toInt) (hsum : x.toInt + y.toInt = (w.balance a).toInt + (w.balance b).toInt) :
    Holds s T ((w.writeBalance a x).writeBalance b y) := by
  have h := (hw.writeBalance a hx).writeBalance b hy
  rw [balance_writeBalance, if_neg hab.symm] at h
  have heq : T - (w.balance a).toInt + x.toInt - (w.balance b).toInt + y.toInt = T := by omega
  rwa [heq] at h

lemma markSuicided (c : Address) : Holds s T (w.markSuicided c) := by
  unfold World.markSuicided
  split
  · exact hw
  · exact ⟨hw.backend, hw.nonneg, hw.burned, hw.total⟩

omit hw

/-- **SELFDESTRUCT moves or burns, and loses nothing.** -/
theorem suicide (hT : T < 2 ^ 63) (hw : Holds s T w) (c b : Address) : Holds s T (w.suicide c b) := by
  unfold World.suicide
  split
  · refine markSuicided ?_ c; have h0 := hw.writeBalance c (x := 0) (by decide)
    have hle := hw.balance_le c
    have hnn := hw.nonneg c
    have hburn := hw.burned
    have htot := hw.total; unfold World.burnBalance
    split
    · rename_i hz
      have heq : T - (w.balance c).toInt + (0 : Int64).toInt = T := by rw [hz, toInt_zero]; omega
      rwa [heq] at h0
    · have hfits : Int64.Fits ((w.writeBalance c 0).burned.toInt + (w.balance c).toInt) := by
        show Int64.Fits (w.burned.toInt + _); exact ⟨by omega, by omega⟩
      refine ⟨h0.backend, h0.nonneg, ?_, ?_⟩
      · show 0 ≤ (Int64.saturatingAdd _ _).toInt; rw [Int64.toInt_saturatingAdd_of_fits hfits]
        show 0 ≤ w.burned.toInt + _; omega
      · show worth s (w.writeBalance c 0) + (Int64.saturatingAdd _ _).toInt = T
        rw [Int64.toInt_saturatingAdd_of_fits hfits, worth_writeBalance hw.backend, toInt_zero]
        show _ + (w.burned.toInt + _) = _; omega
  · rename_i hne; refine markSuicided ?_ c; have hw1 := hw.congr (sameValue_ensureAccount w b)
    have hbal : (w.ensureAccount b).balance c = w.balance c := (sameValue_ensureAccount w b).balance c
    have hle := hw1.add_balance_le (Ne.symm hne)
    have hc := hw1.nonneg c
    have hb := hw1.nonneg b; rw [hbal] at hle hc
    have hfits : Int64.Fits (((w.ensureAccount b).balance b).toInt + (w.balance c).toInt) :=
      ⟨by omega, by omega⟩
    refine hw1.move (Ne.symm hne) (by decide) ?_ ?_
    · rw [Int64.toInt_saturatingAdd_of_fits hfits]; omega
    · rw [Int64.toInt_saturatingAdd_of_fits hfits, hbal, toInt_zero]; omega

end Holds

/-! ## The start of a call -/

def balanceOf (s : WorldState) (a : Address) : Int64 := ((s.getAccount a).map Account.balance).getD 0

lemma balance_withState (s : WorldState) (a : Address) :
    (World.withState (stateBackend s)).balance a = balanceOf s a := rfl

lemma worth_withState (s : WorldState) : worth s (World.withState (stateBackend s)) = s.trxTotal := by
  have heq : flushBalances (World.withState (stateBackend s)) s.account = s.account :=
    Column.ext fun a => by rw [flushBalances, Column.get_update]; rfl
  rw [worth, heq]
  rfl

lemma holds_withState (h : s.NonNegative) : Holds s s.trxTotal (World.withState (stateBackend s)) where
  backend := rfl
  nonneg := fun a => by
    rw [balance_withState, balanceOf]
    cases ha : s.getAccount a with
    | none => exact le_rfl
    | some acc => exact h a acc ha
  burned := le_rfl
  total := by rw [worth_withState]; exact Int.add_zero _

/-- The call value can be moved: the new balances of two different parties are neither
negative nor out of range. A negative call value is one the target pays. -/
def Funded (s : WorldState) (owner target : Address) (callValue : Int64) : Prop :=
  callValue = 0 ∨ (owner ≠ target ∧
    (0 ≤ (balanceOf s owner).toInt - callValue.toInt ∧
      (balanceOf s owner).toInt - callValue.toInt < 2 ^ 63) ∧
    (0 ≤ (balanceOf s target).toInt + callValue.toInt ∧
      (balanceOf s target).toInt + callValue.toInt < 2 ^ 63))

/-- Both accounts are created before either balance is written. -/
lemma transfer_eq (w : World) (src dst : Address) {amount : Int64} (h : amount ≠ 0) :
    ∃ w1, SameValue w w1 ∧ w.transfer src dst amount =
      (w1.writeBalance src (w.balance src - amount)).writeBalance dst (w.balance dst + amount) := by
  refine ⟨(w.ensureAccount src).ensureAccount dst,
    (sameValue_ensureAccount w src).trans (sameValue_ensureAccount _ dst), ?_⟩
  rw [World.transfer, if_neg h]

lemma startWorld_zero (s : WorldState) (owner target : Address) :
    TriggerSmartContractActuator.startWorld s owner target 0 = World.withState (stateBackend s) := by
  simp [TriggerSmartContractActuator.startWorld]

lemma startWorld_of_ne {v : Int64} (h : v ≠ 0) : TriggerSmartContractActuator.startWorld s owner target v =
      (World.withState (stateBackend s)).transfer owner target v := if_pos h

lemma holds_startWorld {v : Int64} (hs : s.NonNegative) (hf : Funded s owner target v) :
    Holds s s.trxTotal (TriggerSmartContractActuator.startWorld s owner target v) := by
  have hw := holds_withState hs
  by_cases h0 : v = 0
  · rw [h0, startWorld_zero]; exact hw
  obtain ⟨hne, hfrom, hto⟩ := hf.resolve_left h0
  obtain ⟨w1, hsame, heq⟩ := transfer_eq (World.withState (stateBackend s)) owner target h0
  rw [startWorld_of_ne h0, heq]; have hw1 := hw.congr hsame; simp only [balance_withState]
  have hsub := toInt_sub_of_fits (a := balanceOf s owner) (b := v) ⟨by omega, by omega⟩
  have hadd := toInt_add_of_fits (a := balanceOf s target) (b := v) ⟨by omega, by omega⟩
  refine hw1.move hne (by omega) (by omega) ?_
  rw [hsame.balance, hsame.balance, balance_withState, balance_withState]; omega

lemma hostBacked_startWorld (s : WorldState) (owner target : Address) (v : Int64) :
    (TriggerSmartContractActuator.startWorld s owner target v).hostBacked = false := by
  by_cases h0 : v = 0
  · rw [h0, startWorld_zero]; rfl
  · obtain ⟨w1, hsame, heq⟩ := transfer_eq (World.withState (stateBackend s)) owner target h0
    rw [startWorld_of_ne h0, heq]; exact World.hostBacked_congr hsame.backend

/-! ## The run and the flush -/

lemma destroys_call {cr : Crypto} {c : TriggerSmartContract} {limit : Nat} {r : CallResult}
    (h : TriggerSmartContractActuator.call cr s owner target c limit = .ok (r, w)) :
    Destroys (TriggerSmartContractActuator.startWorld s owner target c.callValue) w := by
  unfold TriggerSmartContractActuator.call executeCall executeCode at h
  cases hr : runFrame cr (TriggerSmartContractActuator.startWorld s owner target c.callValue)
      ⟨target.body, _, c.data, 0⟩ limit with
  | error e =>
    rw [hr] at h; cases h
  | ok p =>
    rw [hr] at h; cases h; exact destroys_runFrame (hostBacked_startWorld s owner target c.callValue) hr

/-- Nothing was burned inside the VM, and no destroyed contract has anything left. -/
def NothingLost (w : World) : Prop := w.burned = 0 ∧ ∀ a ∈ w.suicides, w.balance a = 0

lemma nonNegative_flushWorld {T : Int} (hw : Holds s T w) : (flushWorld s w).NonNegative := by
  intro a acc ha
  rw [getAccount, account_flushWorld, Column.get_foldl_delete] at ha
  split at ha
  · cases ha
  · rw [get_flushBalances hw.backend ha]; exact hw.nonneg a

/-- **What a flush loses** is what was burned in the VM and what destroyed contracts held. -/
theorem trxTotal_flushWorld {T : Int} (hw : Holds s T w) :
    (flushWorld s w).trxTotal ≤ T ∧ ((flushWorld s w).trxTotal = T ↔ NothingLost w) := by
  have hnn : ∀ k v, (flushBalances w s.account).get k = some v → 0 ≤ trxShare k v := by
    intro k v hv; show 0 ≤ v.balance.toInt; rw [get_flushBalances hw.backend hv]
    exact hw.nonneg k
  obtain ⟨hle, hiff⟩ := Column.total_foldl_delete hnn w.suicides
  have htot := hw.total
  have hburn := hw.burned
  have hworth : Column.total trxShare (flushBalances w s.account) = worth s w := rfl
  rw [hworth] at hle hiff
  rw [WorldState.trxTotal, account_flushWorld]
  refine ⟨by omega, fun heq => ?_, fun ⟨hb0, hs0⟩ => ?_⟩
  · refine ⟨toInt_inj.mp (by rw [toInt_zero]; omega), fun a ha => ?_⟩
    have hshare := hiff.mp (by omega) a ha; rw [share_flushBalances hw.backend] at hshare
    exact toInt_inj.mp hshare
  · have heq := hiff.mpr fun a ha => by rw [share_flushBalances hw.backend, hs0 a ha, toInt_zero]
    rw [hb0, toInt_zero] at htot; omega

/-! ## The fee -/

/-- A fee is charged by debiting and burning it, or not at all. -/
lemma chargeEnergyFee_eq_ok {fee : Int64} {t : WorldState} (h : chargeEnergyFee owner fee s = .ok u t) :
    t = s ∨ ∃ acc b, 0 < fee ∧ s.getAccount owner = some acc ∧ b.toInt = acc.balance.toInt - fee.toInt ∧ 0 ≤ b.toInt ∧
      t = (s.putAccount owner { acc with balance := b }).burnTrx fee := by
  apply ok_elim h
  unfold chargeEnergyFee
  by_cases hf : 0 < fee
  · cases ha : s.getAccount owner with
    | none =>
      simp only [hf, ↓reduceIte, wp_bind, wp_get, ha, wp_pure]; exact .inl trivial
    | some acc =>
      simp only [hf, ↓reduceIte, wp_bind, wp_get, ha, wp_orThrow, wp_modify]
      refine ⟨fun b hb => .inr ⟨acc, b, trivial, rfl, ?_⟩, fun _ => trivial⟩
      obtain ⟨h1, h2⟩ := debit_eq_some.mp hb; exact ⟨h1, h2, rfl⟩
  · simp only [hf, ↓reduceIte, wp_pure]; exact .inl trivial

section Charged
variable {s : WorldState} {owner : Address} {fee b : Int64} {acc : Account}

lemma trxTotal_charged (ha : s.getAccount owner = some acc) (hb : b.toInt = acc.balance.toInt - fee.toInt) :
    ((s.putAccount owner { acc with balance := b }).burnTrx fee).trxTotal = s.trxTotal - fee.toInt := by
  have hshare : Column.share trxShare s.account owner = acc.balance.toInt := by
    rw [getAccount] at ha; rw [Column.share, ha]; rfl
  show Column.total trxShare (s.account.put owner { acc with balance := b }) = _
  rw [total_put, hshare]
  show s.trxTotal - _ + b.toInt = _
  omega

lemma burned_charged (hfits : Int64.Fits (s.burned + fee.toInt)) :
    ((s.putAccount owner { acc with balance := b }).burnTrx fee).burned = s.burned + fee.toInt := by
  show (getProp (WorldState.putProp _ _ _) _).toInt = _
  rw [getProp_putProp_self, Int64.toInt_saturatingAdd_of_fits]
  · rfl
  · exact hfits

end Charged

/-- Charging a fee conserves value. -/
lemma conserves_chargeEnergyFee {fee : Int64} {t : WorldState}
    (h : chargeEnergyFee owner fee s = .ok u t) (hs : s.NonNegative)
    (hsum : s.trxTotal + s.burned < 2 ^ 63) : s.Conserves t := by
  rcases chargeEnergyFee_eq_ok h with rfl | ⟨acc, b, hpos, ha, hb, hnn, rfl⟩
  · exact ⟨rfl, hs⟩
  have hfee := Int64.pos_iff.mp hpos
  have hle : acc.balance.toInt ≤ s.trxTotal := by
    have hshare := share_le_total (fun k v hv => hs k v hv) owner
    rw [getAccount] at ha; rw [Column.share, ha] at hshare; exact hshare
  have hlow := (fits_toInt (s.getProp .burnTrxAmount)).1
  have hburned : s.burned = (s.getProp .burnTrxAmount).toInt := rfl
  refine ⟨?_, fun a x hx => ?_⟩
  · rw [trxTotal_charged ha hb, burned_charged ⟨by omega, by omega⟩]; omega
  rw [getAccount_burnTrx] at hx
  by_cases hao : a = owner
  · rw [hao, getAccount_putAccount_self] at hx; cases hx; exact hnn
  · rw [getAccount_putAccount_of_ne _ _ hao] at hx; exact hs a x hx

/-! ## The whole call -/

namespace TriggerSmartContractActuator
variable {s : WorldState} (b : Int64)

/-- The condition for a call to conserve value: when its run succeeds, its call value could be
moved, and either no contract was destroyed, or the sum of all balances is in range and
nothing was lost with the destroyed ones. -/
def Conserving (cr : Crypto) (limit : Nat) (c : TriggerSmartContract) (s : WorldState) : Prop :=
  ∀ owner target r w, Address.ofBytes c.ownerAddress = some owner →
    Address.ofBytes c.contractAddress = some target → call cr s owner target c limit = .ok (r, w) →
    r.success = true →
    Funded s owner target c.callValue ∧ (w.suicides = [] ∨ (s.trxTotal < 2 ^ 63 ∧ NothingLost w))

/-- The cases in which the condition is known to be necessary: a run that destroys contracts
started from balances in range and a call value that could be moved, and the fee of a run
that destroys none can be added to the burned amount. -/
def Untangled (cr : Crypto) (limit : Nat) (c : TriggerSmartContract) (s : WorldState) : Prop :=
  ∀ owner target r w, Address.ofBytes c.ownerAddress = some owner →
    Address.ofBytes c.contractAddress = some target → call cr s owner target c limit = .ok (r, w) →
    r.success = true →
    if w.suicides = [] then s.burned + (energyToSun r.energyUsed (energyPrice s)).toInt < 2 ^ 63
    else s.trxTotal < 2 ^ 63 ∧ Funded s owner target c.callValue

section Call
variable {cr : Crypto} {limit : Nat} {c : TriggerSmartContract} {s t : WorldState}
variable {owner target : Address} {r : CallResult} {w : World} {fee v : Int64} {a : Address}

lemma burned_startWorld (s : WorldState) (owner target : Address) (v : Int64) :
    (startWorld s owner target v).burned = 0 := by
  by_cases h0 : v = 0
  · rw [h0, startWorld_zero]; rfl
  · obtain ⟨w1, hsame, heq⟩ := transfer_eq (World.withState (stateBackend s)) owner target h0
    rw [startWorld_of_ne h0, heq]; exact hsame.burned

lemma holds_call (hs : s.NonNegative) (hcall : call cr s owner target c limit = .ok (r, w))
    (hf : Funded s owner target c.callValue) (h : w.suicides = [] ∨ s.trxTotal < 2 ^ 63) : Holds s s.trxTotal w := by
  have hstart := holds_startWorld hs hf
  have hd := destroys_call hcall
  rcases h with hnil | hT
  · exact hstart.congr (hd.sameValue_of_nil hnil)
  · exact hd.preserves hstart (fun _ _ hsame h => h.congr hsame) (fun _ c b h => h.suicide hT c b)

/-- A successful run that holds on to everything loses exactly what is not flushed. -/
lemma conserves_flushed (hw : Holds s s.trxTotal w) (hsum : s.trxTotal + s.burned < 2 ^ 63)
    (h : chargeEnergyFee owner fee (flushWorld s w) = .ok () t) : s.Conserves t ↔ NothingLost w := by
  obtain ⟨hle, hiff⟩ := trxTotal_flushWorld hw
  have hburn := burned_flushWorld s w
  obtain ⟨htot, hnn⟩ := conserves_chargeEnergyFee h (nonNegative_flushWorld hw) (by omega)
  rw [← hiff]
  constructor
  · rintro ⟨heq, -⟩; omega
  · intro heq; exact ⟨by omega, hnn⟩

/-- Without destroyed contracts, a written balance is what the flush stores. -/
lemma getAccount_flushWorld (hnil : w.suicides = []) {b : Int64}
    (hb : w.balances.get a = some b) : ∃ acc, (flushWorld s w).getAccount a = some acc ∧ acc.balance = b := by
  refine ⟨withBalance a b (s.account.get a), ?_, rfl⟩
  rw [getAccount, account_flushWorld, hnil, List.foldl_nil, flushBalances, Column.get_update, hb]

/-- A balance that has gone negative stays so: the fee cannot be taken from it. -/
lemma not_nonNegative_of_neg {acc : Account}
    (h : chargeEnergyFee owner fee s = .ok () t) (ha : s.getAccount a = some acc)
    (hneg : acc.balance.toInt < 0) : ¬ t.NonNegative := by
  intro hnn
  rcases chargeEnergyFee_eq_ok h with rfl | ⟨acc', b, hpos, ha', hb, hb0, rfl⟩
  · have := hnn a acc ha; omega
  by_cases hao : a = owner
  · rw [hao, ha'] at ha; cases ha; have hfee := Int64.pos_iff.mp hpos
    omega
  · have hkeep := hnn a acc (by rw [getAccount_burnTrx, getAccount_putAccount_of_ne _ _ hao, ha])
    omega

/-- A call value moved from an account to itself appears out of nothing. -/
lemma worth_startWorld_self (hs : s.NonNegative) (h0 : v ≠ 0) : worth s (startWorld s owner owner v) ≠ s.trxTotal := by
  obtain ⟨w1, hsame, heq⟩ := transfer_eq (World.withState (stateBackend s)) owner owner h0
  have hw1 := (holds_withState hs).congr hsame
  have hw := hw1.total
  rw [hsame.burned] at hw
  have hne : (balanceOf s owner + v).toInt ≠ (balanceOf s owner).toInt := fun h =>
    Int64.add_ne_self _ h0 (toInt_inj.mp h)
  have hback : (w1.writeBalance owner ((World.withState (stateBackend s)).balance owner - v)).backend =
      .state (stateBackend s) := hw1.backend
  rw [startWorld_of_ne h0, heq, worth_writeBalance hback, worth_writeBalance hw1.backend, balance_writeBalance,
    if_pos rfl, hsame.balance, balance_withState]
  have hz : (World.withState (stateBackend s)).burned.toInt = 0 := rfl
  omega

lemma balances_startWorld (h0 : v ≠ 0) (hne : owner ≠ target) :
    (startWorld s owner target v).balances.get owner = some (balanceOf s owner - v) ∧
      (startWorld s owner target v).balances.get target = some (balanceOf s target + v) := by
  obtain ⟨w1, hsame, heq⟩ := transfer_eq (World.withState (stateBackend s)) owner target h0
  rw [startWorld_of_ne h0, heq]
  exact ⟨(get_put_of_ne hne).trans (get_put_self ..), get_put_self ..⟩

/-- **A call value that cannot be moved shows**, unless contracts are destroyed on the way. -/
theorem not_conserves_of_not_funded (hs : s.NonNegative)
    (hcall : call cr s owner target c limit = .ok (r, w)) (hnil : w.suicides = [])
    (hf : ¬ Funded s owner target c.callValue) (hfits : s.burned + fee.toInt < 2 ^ 63)
    (h : chargeEnergyFee owner fee (flushWorld s w) = .ok () t) : ¬ s.Conserves t := by
  have hsame := (destroys_call hcall).sameValue_of_nil hnil
  have h0 : c.callValue ≠ 0 := fun h0 => hf (.inl h0)
  rintro ⟨hsum, hnn⟩
  by_cases hne : owner = target
  · -- the sum is off by the call value, and the fee does not change it
    subst hne
    have htot : (flushWorld s w).trxTotal = worth s (startWorld s owner owner c.callValue) := by
      rw [WorldState.trxTotal, account_flushWorld, hnil, ← worth_congr hsame.balances]; rfl
    have hbad : worth s (startWorld s owner owner c.callValue) ≠ s.trxTotal := worth_startWorld_self hs h0
    have hburn := burned_flushWorld s w
    rcases chargeEnergyFee_eq_ok h with rfl | ⟨acc, b, hpos, ha, hb, hb0, rfl⟩
    · omega
    have hfee := Int64.pos_iff.mp hpos
    have hlow := (fits_toInt (s.getProp .burnTrxAmount)).1
    have hdef : s.burned = (s.getProp .burnTrxAmount).toInt := rfl
    rw [trxTotal_charged ha hb, burned_charged ⟨by omega, by omega⟩] at hsum; omega
  · -- one of the two balances has gone negative
    obtain ⟨hbo, hbt⟩ := balances_startWorld h0 hne
    rw [← hsame.balances] at hbo hbt; obtain ⟨oacc, hao, heo⟩ := getAccount_flushWorld hnil hbo
    obtain ⟨tacc, hat, het⟩ := getAccount_flushWorld hnil hbt
    have hnno := (holds_withState hs).nonneg owner
    have hnnt := (holds_withState hs).nonneg target
    rw [balance_withState] at hnno hnnt; have hv := fits_toInt c.callValue; unfold Int64.Fits at hv
    have hneg : (balanceOf s owner - c.callValue).toInt < 0 ∨ (balanceOf s target + c.callValue).toInt < 0 := by
      by_cases h1 : 2 ^ 63 ≤ (balanceOf s owner).toInt - c.callValue.toInt
      · exact .inl (Int64.toInt_sub_neg h1)
      by_cases h2 : 2 ^ 63 ≤ (balanceOf s target).toInt + c.callValue.toInt
      · exact .inr (Int64.toInt_add_neg h2)
      have hsub := toInt_sub_of_fits (a := balanceOf s owner) (b := c.callValue) ⟨by omega, by omega⟩
      have hadd := toInt_add_of_fits (a := balanceOf s target) (b := c.callValue) ⟨by omega, by omega⟩
      by_contra hcon; rw [not_or, not_lt, not_lt] at hcon
      exact hf (.inr ⟨hne, ⟨by omega, by omega⟩, ⟨by omega, by omega⟩⟩)
    rcases hneg with hneg | hneg
    · rw [← heo] at hneg; exact not_nonNegative_of_neg h hao hneg hnn
    · rw [← het] at hneg; exact not_nonNegative_of_neg h hat hneg hnn

end Call

/-- **Value conservation of contract calls.** From balances that are not negative and that
with the burned amount stay in range, a call that returns `Ok` conserves value under
`Conserving`; and when at most one thing goes wrong at a time, only then. -/
theorem call_conserves_iff (cr : Crypto) (limit : Nat) (c : TriggerSmartContract) {s t : WorldState}
    (hs : s.NonNegative) (hsum : s.trxTotal + s.burned < 2 ^ 63) {v : Int64} (_ : validate c s = .ok v)
    {res : ExecutionResult} (hx : execute cr limit c s = .ok res t) : (Conserving cr limit c s → s.Conserves t) ∧
      (Untangled cr limit c s → s.Conserves t → Conserving cr limit c s) := by
  obtain ⟨owner, target, r, w, ho, ht, hcall, hfee, hcharge⟩ := execute_ok hx
  rw [hfee] at hcharge
  refine ⟨fun hcond => ?_, fun hun hcons => ?_⟩
  · cases hsucc : r.success with
    | false =>
      rw [hsucc] at hcharge; exact conserves_chargeEnergyFee hcharge hs hsum
    | true =>
      rw [hsucc] at hcharge; obtain ⟨hf, hcase⟩ := hcond owner target r w ho ht hcall hsucc
      have hw := holds_call hs hcall hf (hcase.imp_right And.left)
      refine (conserves_flushed hw hsum hcharge).mpr ?_
      rcases hcase with hnil | ⟨-, hlost⟩
      · have hsame := (destroys_call hcall).sameValue_of_nil hnil
        refine ⟨hsame.burned.trans (burned_startWorld ..), fun a ha => ?_⟩; rw [hnil] at ha; cases ha
      · exact hlost
  · intro owner' target' r' w' ho' ht' hcall' hsucc; cases ho.symm.trans ho'; cases ht.symm.trans ht'
    rw [hcall] at hcall'; cases hcall'; rw [hsucc] at hcharge
    have hun := hun owner target r w ho ht hcall hsucc
    by_cases hnil : w.suicides = []
    · rw [if_pos hnil] at hun; refine ⟨?_, .inl hnil⟩; by_contra hf
      exact not_conserves_of_not_funded hs hcall hnil hf hun hcharge hcons
    · rw [if_neg hnil] at hun; have hw := holds_call hs hcall hun.2 (.inr hun.1)
      exact ⟨hun.2, .inr ⟨hun.1, (conserves_flushed hw hsum hcharge).mp hcons⟩⟩

/-! ## Two calls -/

/-- The owner `0xaa` with some balance, and a contract at `0xcc` that stops at once. -/
def stopState (balance : Int64) : WorldState :=
  { account := (∅ : Column Address Account).put (Address.ofNat 0xaa) { balance }
    contractCode := (∅ : Column Address Bytes).put (Address.ofNat 0xcc) [0x00] }

/-- A call of `0xcc` by `0xaa` with call value 5. -/
def payingCall : TriggerSmartContract :=
  { ownerAddress := (Address.ofNat 0xaa).asBytes
    contractAddress := (Address.ofNat 0xcc).asBytes
    callValue := 5 }

lemma nonNegative_stopState {b : Int64} (h : 0 ≤ b.toInt) : (stopState b).NonNegative := by
  intro a acc ha
  by_cases hk : a = Address.ofNat 0xaa
  · rw [hk, getAccount, stopState, get_put_self] at ha; cases ha; exact h
  · rw [getAccount, stopState, get_put_of_ne hk, get_empty] at ha; cases ha

lemma trxTotal_stopState : (stopState b).trxTotal = b.toInt := by
  rw [WorldState.trxTotal, stopState, total_put]
  have h0 : Column.total trxShare (∅ : Column Address Account) = 0 := rfl
  have h1 : Column.share trxShare (∅ : Column Address Account) (Address.ofNat 0xaa) = 0 := by
    rw [Column.share, get_empty]; rfl
  rw [h0, h1]
  show 0 - 0 + b.toInt = b.toInt
  omega

lemma burned_stopState : (stopState b).burned = 0 := rfl

/-- What `f` reads in the state a successful call leaves. -/
def afterCall {β : Type} (s : WorldState) (f : WorldState → β) : Option β :=
  match execute blank.crypto triggerEnergyLimit payingCall s with
  | .ok _ t => some (f t)
  | .error _ _ => none

lemma exists_of_afterCall {β : Type} {f : WorldState → β} {b : β} (h : afterCall s f = some b) :
    ∃ res t, execute blank.crypto triggerEnergyLimit payingCall s = .ok res t ∧ f t = b := by
  unfold afterCall at h
  split at h
  · rename_i res t heq; exact ⟨res, t, heq, Option.some.inj h⟩
  · cases h

/-- An owner with nothing pays 5 and ends at -5. -/
theorem unfunded_call_goes_negative :
    (stopState 0).NonNegative ∧ (stopState 0).trxTotal + (stopState 0).burned < 2 ^ 63 ∧
      validate payingCall (stopState 0) = .ok 0 ∧
      ∃ res t, execute blank.crypto triggerEnergyLimit payingCall (stopState 0) = .ok res t ∧
        (t.getAccount (Address.ofNat 0xaa)).map Account.balance = some (-5) := by
  refine ⟨nonNegative_stopState (by decide), ?_, by rfl, ?_⟩
  · rw [trxTotal_stopState, burned_stopState]; decide
  · exact exists_of_afterCall (by decide +kernel)

/-- An owner with 10 pays 5, and nothing is created or lost. -/
theorem call_conserves_funded : ∃ res t, execute blank.crypto triggerEnergyLimit payingCall (stopState 10) = .ok res t ∧
      (stopState 10).Conserves t := by
  have hdone : afterCall (stopState 10) (fun _ => ()) = some () := by decide +kernel
  obtain ⟨res, t, hx, -⟩ := exists_of_afterCall hdone
  refine ⟨res, t, hx, (call_conserves_iff blank.crypto triggerEnergyLimit payingCall
    (nonNegative_stopState (by decide)) ?_ (by rfl) hx).1 ?_⟩
  · rw [trxTotal_stopState, burned_stopState]; decide
  intro owner target r w ho ht hcall _; cases (Address.ofBytes_asBytes _).symm.trans ho
  cases (Address.ofBytes_asBytes _).symm.trans ht
  have hnil : (call blank.crypto (stopState 10) (Address.ofNat 0xaa) (Address.ofNat 0xcc) payingCall
      triggerEnergyLimit).toOption.map (fun p => p.2.suicides) = some [] := by decide +kernel
  rw [hcall] at hnil
  exact ⟨.inr ⟨by decide, by decide +kernel, by decide +kernel⟩, .inl (Option.some.inj hnil)⟩

end TriggerSmartContractActuator
end TronRs

import TronRs.L3Actuators.Base

/-!
# Transfer actuators

`crates/actuators/src/transfer.rs` and `asset_transfer.rs`. Both create the recipient's
account when it is missing and charge the owner for it.

* `TransferActuator.atomic_iff`: a transfer is atomic exactly when crediting the recipient,
  or (for a recipient that has to be created) debiting the owner, does not overflow.
* `TransferAssetActuator.atomic_iff`: the same for the fee of a token transfer.
-/
namespace TronRs

open TronRs.Core

variable {x : Account}

/-! ## The recipient -/

section Recipient
variable {dst : Address} {fee : Int64} {s : WorldState} {ok : Int64 → WorldState → Prop}
variable {err : Fault → WorldState → Prop}

/-- The creation of a missing recipient, with the fee it costs; both transfers start with
it. -/
def createRecipient (dst : Address) (fee : Int64) : Act Int64 := do
  let s ← get
  if s.accountExists dst then pure fee
  else
    modify (·.createAccount dst)
    pure (fee + s.getProp .createNewAccountFeeInSystemContract)

lemma wp_createRecipient_of_some (h : s.getAccount dst = some x) :
    wp (createRecipient dst fee) s ok err ↔ ok fee s := by
  have hx : s.accountExists dst = true := s.accountExists_eq_true.mpr ⟨x, h⟩
  simp [createRecipient, hx]

lemma wp_createRecipient_of_none (h : s.getAccount dst = none) : wp (createRecipient dst fee) s ok err ↔
    ok (fee + s.getProp .createNewAccountFeeInSystemContract) (s.createAccount dst) := by
  have hx : s.accountExists dst = false := s.accountExists_eq_false.mpr h
  simp [createRecipient, hx]

/-- The state once the recipient has an account. -/
def WorldState.withRecipient (s : WorldState) (dst : Address) : WorldState :=
  if s.accountExists dst then s else s.createAccount dst

lemma wp_createRecipient : wp (createRecipient dst fee) s ok err ↔
      ok (if s.accountExists dst then fee else fee + s.getProp .createNewAccountFeeInSystemContract)
        (s.withRecipient dst) := by
  unfold WorldState.withRecipient; cases hx : s.accountExists dst <;> simp [createRecipient, hx]

lemma createAccount_ne {a : Address} (h : s.getAccount a = none) : s.createAccount a ≠ s := by
  intro heq; have hc := congrArg (fun t => WorldState.getAccount t a) heq
  simp [WorldState.createAccount, h] at hc

end Recipient

/-! ## TRX -/

namespace TransferActuator
variable {v : Int64}

def transferFee : Int64 := 0

/-- The fee of a transfer: the creation of a missing recipient. -/
def fee (s : WorldState) (dst : Address) : Int64 :=
  if s.accountExists dst then transferFee
  else transferFee + s.getProp .createNewAccountFeeInSystemContract

/-- Mirrors actuators/transfer.rs:42. -/
def validate (c : TransferContract) (s : WorldState) : Check Int64 := do
  let owner ← parseAddress c.ownerAddress "Invalid ownerAddress!"
  let dst ← parseAddress c.toAddress "Invalid toAddress!"
  ensure (owner ≠ dst) (invalid "Cannot transfer TRX to yourself.")
  let ownerAccount ← orThrow (s.getAccount owner)
    (invalid "Validate TransferContract error, no OwnerAccount.")
  ensure (0 < c.amount) (invalid "Amount must be greater than 0.")
  let fee := fee s dst
  let total ← orThrow (c.amount.checkedAdd fee) (invalid "long overflow")
  ensure (total ≤ ownerAccount.balance)
    (invalid "Validate TransferContract error, balance is not sufficient.")
  pure fee

/-- Mirrors actuators/transfer.rs:76. -/
def execute (c : TransferContract) : Act ExecutionResult := do
  let owner ← lift (parseAddress c.ownerAddress "Invalid ownerAddress!")
  let dst ← lift (parseAddress c.toAddress "Invalid toAddress!")
  let fee ← createRecipient dst transferFee
  let total ← orThrow (c.amount.checkedAdd fee) (failed "long overflow")
  let ownerAccount ← orThrow ((← get).getAccount owner) (failed "owner account missing")
  let balance ← orThrow (debit ownerAccount.balance total) (failed "balance is not sufficient")
  modify (·.putAccount owner { ownerAccount with balance })
  if fee > 0 then modify (·.burnTrx fee)
  let toAccount ← orThrow ((← get).getAccount dst) (failed "to account missing")
  let balance ← orThrow (toAccount.balance.checkedAdd c.amount) (failed "long overflow")
  modify (·.putAccount dst { toAccount with balance })
  pure ⟨fee⟩

variable {c : TransferContract} {s : WorldState}

lemma validate_ok (h : validate c s = .ok v) : ∃ owner dst account total, Address.ofBytes c.ownerAddress = some owner ∧
      Address.ofBytes c.toAddress = some dst ∧ owner ≠ dst ∧ s.getAccount owner = some account ∧
      0 < c.amount ∧ c.amount.checkedAdd (fee s dst) = some total ∧ total ≤ account.balance := by
  simp only [validate, check_rules, parseAddress_eq_ok] at h
  obtain ⟨owner, ho, dst, hd, -, hne, account, ha, -, hp, total, ht, -, hb, -⟩ := h
  exact ⟨owner, dst, account, total, ho, hd, hne, ha, hp, ht, hb⟩

/-- Crediting an existing recipient fits, and so does paying the fee of a missing one. -/
def Fits (c : TransferContract) (s : WorldState) : Prop :=
  ∀ owner dst account, Address.ofBytes c.ownerAddress = some owner →
    Address.ofBytes c.toAddress = some dst → s.getAccount owner = some account →
    match s.getAccount dst with
    | some x => Int64.Fits (x.balance.toInt + c.amount.toInt)
    | none => Int64.Fits (account.balance.toInt -
        (c.amount.toInt + (s.getProp .createNewAccountFeeInSystemContract).toInt))

variable {owner dst : Address} {account : Account}

lemma fits_iff (ho : Address.ofBytes c.ownerAddress = some owner) (hd : Address.ofBytes c.toAddress = some dst)
    (ha : s.getAccount owner = some account) : Fits c s ↔ match s.getAccount dst with
      | some x => Int64.Fits (x.balance.toInt + c.amount.toInt)
      | none => Int64.Fits (account.balance.toInt -
        (c.amount.toInt + (s.getProp .createNewAccountFeeInSystemContract).toInt)) :=
  atParties_iff (P := fun x dst => match dst with
    | some y => Int64.Fits (y.balance.toInt + c.amount.toInt)
    | none => Int64.Fits (x.balance.toInt -
      (c.amount.toInt + (s.getProp .createNewAccountFeeInSystemContract).toInt))) ho hd ha

/-- An existing recipient costs nothing, a missing one the creation fee. -/
lemma fee_of_some (h : s.getAccount dst = some x) : fee s dst = 0 := by
  rw [fee, s.accountExists_eq_true.mpr ⟨x, h⟩]; rfl

lemma fee_of_none (h : s.getAccount dst = none) : fee s dst = s.getProp .createNewAccountFeeInSystemContract := by
  rw [fee, s.accountExists_eq_false.mpr h]; exact Int64.zero_add _

lemma executes_iff (hv : validate c s = .ok v) : (∃ t, execute c s = .ok ⟨v⟩ t) ↔ Fits c s := by
  simp only [validate, check_rules, parseAddress_eq_ok] at hv
  obtain ⟨owner, ho, dst, hd, -, hne, account, ha, -, hp, total, ht, -, hb, rfl⟩ := hv
  have htot := checkedAdd_eq_some.mp ht
  have hle := le_iff_toInt_le.mp hb
  have hpos := Int64.pos_iff.mp hp; rw [exists_ok_iff, fits_iff ho hd ha]
  cases hx : s.getAccount dst with
  | some x =>
    have hex : s.accountExists dst = true := s.accountExists_eq_true.mpr ⟨x, hx⟩
    rw [fee_of_some hx] at ht htot ⊢; rw [toInt_zero] at htot
    obtain ⟨b, hbal⟩ := exists_debit_of_le (a := total) (by omega) (by omega)
    simp [execute, createRecipient, parseAddress_ok ho, parseAddress_ok hd, hex, transferFee, ht, ha,
      hbal, getAccount_putAccount_of_ne _ _ hne.symm, hx, Int64.exists_checkedAdd]
  | none =>
    have hex : s.accountExists dst = false := s.accountExists_eq_false.mpr hx
    rw [fee_of_none hx] at ht htot ⊢
    have hfits : Int64.Fits (account.balance.toInt -
        (c.amount.toInt + (s.getProp .createNewAccountFeeInSystemContract).toInt)) ↔
        ∃ b, debit account.balance total = some b := by
      rw [exists_debit_iff, ← htot, Int64.Fits]; omega
    have hroom : ∃ b, (0 : Int64).checkedAdd c.amount = some b := ⟨c.amount, checkedAdd_eq_some.mpr (by simp)⟩
    have hzero : (s.freshAccount dst).balance = 0 := rfl
    rw [hfits]
    simp [execute, createRecipient, parseAddress_ok ho, parseAddress_ok hd, hex, transferFee, ht, ha,
      WorldState.createAccount, getAccount_putAccount_of_ne _ _ hne,
      getAccount_putAccount_of_ne _ _ hne.symm, hzero, hroom]

lemma atomic_iff (hv : validate c s = .ok v) : Atomic (execute c) s ↔ Fits c s := by
  refine ⟨fun hat => ?_, fun hfit => ?_⟩
  · obtain ⟨owner, dst, account, total, ho, hd, hne, ha, hp, ht, hb⟩ := validate_ok hv
    have htot := checkedAdd_eq_some.mp ht
    have hle := le_iff_toInt_le.mp hb
    have hpos := Int64.pos_iff.mp hp; rw [fits_iff ho hd ha]; by_contra hnf
    cases hx : s.getAccount dst with
    | some =>
      -- the recipient exists: no fee, and the owner has been debited when its credit overflows
      rw [hx] at hnf; rw [fee_of_some hx] at ht htot; rw [toInt_zero] at htot
      obtain ⟨b, hbal⟩ := exists_debit_of_le (a := total) (by omega) (by omega)
      refine not_atomic_of_wp ?_ hat
      have hdiff : s.putAccount owner { account with balance := b } ≠ s := by
        intro heq; have h1 := congrArg (fun t => WorldState.getAccount t owner) heq
        simp only [getAccount_putAccount_self, ha, Option.some.injEq] at h1
        have h2 := congrArg (fun a => a.balance.toInt) h1
        have h3 := (debit_eq_some.mp hbal).1; simp only at h2; omega
      simp [execute, parseAddress_ok ho, parseAddress_ok hd, transferFee, ht, ha, hbal,
        getAccount_putAccount_of_ne _ _ hne.symm, hx, Int64.checkedAdd_eq_none.mpr hnf,
        wp_createRecipient_of_some hx, wp_ite, hdiff, failed]
    | none =>
      -- the recipient has been created when the owner's debit fails
      rw [hx] at hnf; rw [fee_of_none hx] at ht htot; dsimp only at hnf
      rw [← htot] at hnf
      have hbal : debit account.balance total = none := debit_eq_none.mpr fun h => hnf ⟨by omega, h.2⟩
      have hget : (s.createAccount dst).getAccount owner = some account := by
        rw [WorldState.createAccount, getAccount_putAccount_of_ne _ _ hne, ha]
      refine not_atomic_of_wp ?_ hat
      simp [execute, parseAddress_ok ho, parseAddress_ok hd, transferFee, ht, hbal,
        hget, wp_createRecipient_of_none hx, createAccount_ne hx, failed]
  · obtain ⟨t, ht⟩ := (executes_iff hv).mpr hfit; exact atomic_of_ok ht

end TransferActuator

def transferActuator : Actuator TransferContract := ⟨TransferActuator.validate, TransferActuator.execute⟩

/-! ## TRC10 tokens -/

namespace TransferAssetActuator
variable {v : Int64}

def transferAssetFee : Int64 := 0

/-- Mirrors actuators/asset_transfer.rs:59. -/
def assetKey (c : TransferAssetContract) : Bytes := Bytes.utf8Lossy c.assetName

/-- The check of the recipient: its token balance must not overflow; a missing recipient
costs the owner the creation fee, which is returned. -/
def recipientFee (c : TransferAssetContract) (s : WorldState) (dst : Address) (ownerAccount : Account) : Check Int64 :=
  match s.getAccount dst with
  | some toAccount =>
    match toAccount.assetV2.get (assetKey c) with
    | some b => do
      let _ ← orThrow (b.checkedAdd c.amount) (invalid "long overflow")
      pure transferAssetFee
    | none => pure transferAssetFee
  | none => do
    let fee := transferAssetFee + s.getProp .createNewAccountFeeInSystemContract
    ensure (fee ≤ ownerAccount.balance)
      (invalid "Validate TransferAssetActuator error, insufficient fee.")
    pure fee

/-- Mirrors actuators/asset_transfer.rs:65. -/
def validate (c : TransferAssetContract) (s : WorldState) : Check Int64 := do
  let owner ← parseAddress c.ownerAddress "Invalid ownerAddress"
  let dst ← parseAddress c.toAddress "Invalid toAddress"
  ensure (0 < c.amount) (invalid "Amount must be greater than 0.")
  ensure (owner ≠ dst) (invalid "Cannot transfer asset to yourself.")
  let ownerAccount ← orThrow (s.getAccount owner) (invalid "No owner account!")
  let assetBalance := (ownerAccount.assetV2.get (assetKey c)).getD 0
  ensure (0 < assetBalance) (invalid "assetBalance must be greater than 0.")
  ensure (c.amount ≤ assetBalance) (invalid "assetBalance is not sufficient.")
  recipientFee c s dst ownerAccount

/-- Mirrors actuators/asset_transfer.rs:119. -/
def execute (c : TransferAssetContract) : Act ExecutionResult := do
  let owner ← lift (parseAddress c.ownerAddress "Invalid ownerAddress")
  let dst ← lift (parseAddress c.toAddress "Invalid toAddress")
  let key := assetKey c
  let fee ← createRecipient dst transferAssetFee
  let ownerAccount ← orThrow ((← get).getAccount owner) (failed "owner account missing")
  let newOwnerAsset ← orThrow (debit ((ownerAccount.assetV2.get key).getD 0) c.amount)
    (failed "reduceAssetAmount failed !")
  let balance ← orThrow (debit ownerAccount.balance fee)
    (failed "Validate TransferAssetActuator error, insufficient fee.")
  modify (·.putAccount owner
    { ownerAccount with assetV2 := ownerAccount.assetV2.put key newOwnerAsset, balance })
  let toAccount ← orThrow ((← get).getAccount dst) (failed "to account missing")
  let newToAsset ← orThrow (((toAccount.assetV2.get key).getD 0).checkedAdd c.amount)
    (failed "long overflow")
  modify (·.putAccount dst { toAccount with assetV2 := toAccount.assetV2.put key newToAsset })
  if fee > 0 then modify (·.burnTrx fee)
  pure ⟨fee⟩

variable {c : TransferAssetContract} {s : WorldState}

lemma validate_ok (h : validate c s = .ok v) : ∃ owner dst account, Address.ofBytes c.ownerAddress = some owner ∧
      Address.ofBytes c.toAddress = some dst ∧ owner ≠ dst ∧ s.getAccount owner = some account ∧
      0 < c.amount ∧ c.amount ≤ (account.assetV2.get (assetKey c)).getD 0 ∧ recipientFee c s dst account = .ok v := by
  simp only [validate, check_rules, parseAddress_eq_ok] at h
  obtain ⟨owner, ho, dst, hd, -, hp, -, hne, account, ha, -, -, -, hb, hr⟩ := h
  exact ⟨owner, dst, account, ho, hd, hne, ha, hp, hb, hr⟩

/-- The creation fee of a missing recipient can be taken from the owner's balance. -/
def FeeFits (c : TransferAssetContract) (s : WorldState) : Prop :=
  ∀ owner dst account, Address.ofBytes c.ownerAddress = some owner →
    Address.ofBytes c.toAddress = some dst → s.getAccount owner = some account →
    s.getAccount dst = none →
    Int64.Fits (account.balance.toInt - (s.getProp .createNewAccountFeeInSystemContract).toInt)

/-- An existing recipient's token balance has room for the amount. -/
lemma recipient_room {dst : Address} {account : Account}
    (h : recipientFee c s dst account = .ok v) (hx : s.getAccount dst = some x) :
    ∃ b, ((x.assetV2.get (assetKey c)).getD 0).checkedAdd c.amount = some b := by
  simp only [recipientFee, hx] at h
  cases hk : x.assetV2.get (assetKey c) with
  | none => exact ⟨c.amount, checkedAdd_eq_some.mpr (by simp)⟩
  | some =>
    simp only [hk, check_rules] at h; obtain ⟨t, ht, -⟩ := h; exact ⟨t, ht⟩

/-- The owner can pay: the creation fee of a missing recipient, and nothing otherwise, which only a negative balance
does not cover. -/
def FeeCovered (c : TransferAssetContract) (s : WorldState) : Prop :=
  AtParties s c.ownerAddress c.toAddress fun x dst => match dst with
    | some _ => 0 ≤ x.balance.toInt
    | none => Int64.Fits (x.balance.toInt - (s.getProp .createNewAccountFeeInSystemContract).toInt)

lemma executes_iff (hv : validate c s = .ok v) : (∃ t, execute c s = .ok ⟨v⟩ t) ↔ FeeCovered c s := by
  obtain ⟨owner, dst, account, ho, hd, hne, ha, hp, hb, hr⟩ := validate_ok hv
  have hle := le_iff_toInt_le.mp hb
  have hpos := Int64.pos_iff.mp hp
  obtain ⟨left, hleft⟩ := exists_debit_of_le (by omega) hle
  rw [exists_ok_iff, FeeCovered, atParties_iff ho hd ha]
  cases hx : s.getAccount dst with
  | some x =>
    have hex : s.accountExists dst = true := s.accountExists_eq_true.mpr ⟨x, hx⟩
    have hv0 : v = 0 := by
      simp only [recipientFee, hx] at hr
      split at hr
      · simp only [check_rules] at hr; obtain ⟨-, -, hr⟩ := hr; exact hr.symm
      · exact (pure_eq_ok.mp hr).symm
    have hpays : 0 ≤ account.balance.toInt ↔ ∃ b, debit account.balance 0 = some b := by
      have hlt := account.balance.toInt_lt; rw [exists_debit_iff, toInt_zero]; omega
    rw [hpays, hv0]
    simp [execute, createRecipient, parseAddress_ok ho, parseAddress_ok hd, hex, transferAssetFee, ha,
      hleft, getAccount_putAccount_of_ne _ _ hne.symm, hx, recipient_room hr hx]
  | none =>
    have hex : s.accountExists dst = false := s.accountExists_eq_false.mpr hx
    simp only [recipientFee, hx, check_rules, transferAssetFee, Int64.zero_add] at hr
    obtain ⟨-, hfee, rfl⟩ := hr
    have hfle := le_iff_toInt_le.mp hfee
    have hpays : Int64.Fits (account.balance.toInt - (s.getProp .createNewAccountFeeInSystemContract).toInt) ↔
        ∃ b, debit account.balance (s.getProp .createNewAccountFeeInSystemContract) = some b := by
      rw [exists_debit_iff, Int64.Fits]; omega
    have hroom : ∃ b, (0 : Int64).checkedAdd c.amount = some b := ⟨c.amount, checkedAdd_eq_some.mpr (by simp)⟩
    have hnone : (s.freshAccount dst).assetV2.get (assetKey c) = none := get_empty _
    rw [hpays]
    simp [execute, createRecipient, parseAddress_ok ho, parseAddress_ok hd, hex, transferAssetFee, ha,
      hleft, WorldState.createAccount, getAccount_putAccount_of_ne _ _ hne,
      getAccount_putAccount_of_ne _ _ hne.symm, hnone, hroom]

lemma atomic_iff (hv : validate c s = .ok v) : Atomic (execute c) s ↔ FeeFits c s := by
  obtain ⟨owner, dst, account, ho, hd, hne, ha, hp, hb, hr⟩ := validate_ok hv
  have hle := le_iff_toInt_le.mp hb
  have hpos := lt_iff_toInt_lt.mp hp; simp only [toInt_zero] at hpos
  obtain ⟨left, hleft⟩ := exists_debit (b := (account.assetV2.get (assetKey c)).getD 0) (a := c.amount)
    (by omega) (by have := ((account.assetV2.get (assetKey c)).getD 0).toInt_lt; omega)
  cases hx : s.getAccount dst with
  | some x =>
    -- no fee: nothing is written before the owner's account, and nothing fails after it
    obtain ⟨room, hroom⟩ := recipient_room hr hx
    have hget : ∀ y, (s.putAccount owner y).getAccount dst = some x := fun y => by
      rw [getAccount_putAccount_of_ne _ _ hne.symm, hx]
    refine iff_of_true (atomic_of_wp ?_) ?_
    · simp [execute, parseAddress_ok ho, parseAddress_ok hd, transferAssetFee, ha,
        hget, hroom, wp_createRecipient_of_some hx, wp_ite]
    · intro o d a _ hd' _ hn; cases hd.symm.trans hd'; rw [hx] at hn
      cases hn
  | none =>
    simp only [recipientFee, hx, check_rules] at hr; obtain ⟨-, hfee, -⟩ := hr
    rw [transferAssetFee, Int64.zero_add] at hfee; have hfle := le_iff_toInt_le.mp hfee
    have hget : (s.createAccount dst).getAccount owner = some account := by
      rw [WorldState.createAccount, getAccount_putAccount_of_ne _ _ hne, ha]
    constructor
    · intro hat o d a ho' hd' ha' _; cases ho.symm.trans ho'; cases ha.symm.trans ha'
      by_contra hnf; refine not_atomic_of_wp ?_ hat
      have hbal : debit account.balance (s.getProp .createNewAccountFeeInSystemContract) = none :=
        debit_eq_none.mpr fun h => hnf ⟨by omega, h.2⟩
      simp [execute, parseAddress_ok ho, parseAddress_ok hd, transferAssetFee, hget,
        hleft, hbal, wp_createRecipient_of_none hx, createAccount_ne hx, failed]
    · intro hfit
      have hcov : FeeCovered c s := by
        rw [FeeCovered, atParties_iff ho hd ha, hx]; exact hfit owner dst account ho hd ha hx
      obtain ⟨t, ht⟩ := (executes_iff hv).mpr hcov; exact atomic_of_ok ht

end TransferAssetActuator

def transferAssetActuator : Actuator TransferAssetContract :=
  ⟨TransferAssetActuator.validate, TransferAssetActuator.execute⟩

end TronRs

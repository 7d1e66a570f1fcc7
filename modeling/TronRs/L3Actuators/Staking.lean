import TronRs.L3Actuators.Assets

/-!
# Staking actuators

`crates/actuators/src/freeze_v1.rs`, `freeze_v2.rs`, `withdraw_unfreeze.rs` and
`cancel_unfreeze.rs`. All of them read, compute the owner's new account, store it and then
adjust a global weight, so all of them are atomic.
-/
namespace TronRs

open TronRs.Core

variable {resource : Int32} {delta v : Int64} {s t : WorldState} {res : ExecutionResult}
variable {err : Fault → WorldState → Prop}

def trxPrecision : Int64 := 1000000
def frozenPeriodMs : Int64 := 86400000

/-- `ResourceCode` numbers. -/
def bandwidth : Int32 := 0
def energy : Int32 := 1
def tronPower : Int32 := 2

/-- A wrapping sum, as `iter().sum()` computes it. -/
def sumI64 (xs : List Int64) : Int64 := xs.foldl (· + ·) 0

/-- Sets the amount of the first stake of a resource. -/
def setFrozenV2 (resource : Int32) (amount : Int64) : List FreezeV2 → List FreezeV2
  | [] => []
  | f :: fs => if f.type = resource then { f with amount } :: fs else f :: setFrozenV2 resource amount fs

/-- The first stake of a resource. -/
def findFrozenV2 (a : Account) (resource : Int32) : Option FreezeV2 :=
  a.frozenV2.find? (·.type = resource)

/-- The resources a stake may name; the third one needs the new resource model. -/
def resourceAllowed (allowNew : Bool) (resource : Int32) : Bool :=
  resource = bandwidth || resource = energy || (resource = tronPower && allowNew)

/-- `state.get_prop_i64(ALLOW_NEW_RESOURCE_MODEL_KEY)? > 0`. -/
def allowNewResource (s : WorldState) : Bool := 0 < s.getProp .allowNewResourceModel

/-- The message of a resource code a freeze does not accept. -/
def resourceError (allowNew : Bool) : String :=
  if allowNew then "ResourceCode error, valid ResourceCode[BANDWIDTH、ENERGY、TRON_POWER]"
  else "ResourceCode error, valid ResourceCode[BANDWIDTH、ENERGY]"

/-! ## Stake 2.0 -/

def defaultUnfreezeDelayDays : Int64 := 14
def unfreezeMaxTimes : Nat := 32

/-- Mirrors actuators/freeze_v2.rs:69. -/
def totalWeightKey (resource : Int32) : Option Property :=
  if resource = bandwidth then some .totalNetWeight
  else if resource = energy then some .totalEnergyWeight
  else if resource = tronPower then some .totalTronPowerWeight
  else none

/-- Adds to the global weight of a resource, if it has one. -/
def addWeight (resource : Int32) (delta : Int64) : Act Unit :=
  match totalWeightKey resource with
  | some key => modify (·.addProp key delta)
  | none => pure ()

/-- The state with a weight changed. -/
def WorldState.addWeight (s : WorldState) (resource : Int32) (delta : Int64) : WorldState :=
  match totalWeightKey resource with
  | some key => s.addProp key delta
  | none => s

lemma wp_addWeight_iff {ok : Unit → WorldState → Prop} :
    wp (addWeight resource delta) s ok err ↔ ok () (s.addWeight resource delta) := by
  unfold addWeight WorldState.addWeight; cases totalWeightKey resource <;> exact Iff.rfl

lemma wp_addWeight : wp (addWeight resource delta) s (fun _ _ => True) err := by
  unfold addWeight; cases totalWeightKey resource <;> simp

@[simp] lemma returns_addWeight {ok : Unit → WorldState → Prop} :
    Returns (addWeight resource delta) s ok ↔ ok () (s.addWeight resource delta) := wp_addWeight_iff

namespace FreezeBalanceV2Actuator
variable {c : FreezeBalanceV2Contract} {s : WorldState}

/-- Mirrors actuators/freeze_v2.rs:107. -/
def validate (c : FreezeBalanceV2Contract) (s : WorldState) : Check Int64 := do
  ensure (0 < s.getProp .unfreezeDelayDays)
    (invalid "Not support FreezeV2 transaction, need to be opened by the committee")
  let owner ← parseAddress c.ownerAddress "Invalid address"
  let shown := hex owner.asBytes
  let ownerAccount ← orThrow (s.getAccount owner) (invalid s!"Account[{shown}] not exists")
  ensure (0 < c.frozenBalance) (invalid "frozenBalance must be positive")
  ensure (trxPrecision ≤ c.frozenBalance) (invalid "frozenBalance must be greater than or equal to 1 TRX")
  ensure (c.frozenBalance ≤ ownerAccount.balance)
    (invalid "frozenBalance must be less than or equal to accountBalance")
  ensure (resourceAllowed (allowNewResource s) c.resource) (invalid (resourceError (allowNewResource s)))
  pure 0

/-- The owner's stakes after adding to one of them. -/
def stake (a : Account) (resource : Int32) (amount : Int64) : Check (List FreezeV2) :=
  match findFrozenV2 a resource with
  | some entry => do
    let total ← orThrow (entry.amount.checkedAdd amount) (failed "long overflow")
    pure (setFrozenV2 resource total a.frozenV2)
  | none => pure (a.frozenV2 ++ [⟨resource, amount⟩])

/-- Mirrors actuators/freeze_v2.rs:155. -/
def execute (c : FreezeBalanceV2Contract) : Act ExecutionResult := do
  let owner ← lift (parseAddress c.ownerAddress "Invalid address")
  let account ← orThrow ((← get).getAccount owner) (failed "owner account missing")
  let balance ← orThrow (debit account.balance c.frozenBalance) (failed "balance is not sufficient")
  let frozenV2 ← lift (stake account c.resource c.frozenBalance)
  modify (·.putAccount owner { account with frozenV2, balance })
  addWeight c.resource (c.frozenBalance / trxPrecision)
  pure ⟨0⟩

lemma atomic (c : FreezeBalanceV2Contract) (s : WorldState) : Atomic (execute c) s := by
  apply atomic_of_wp; simp [execute, wp_addWeight]

lemma execute_ok
    (h : execute c s = .ok res t) : ∃ owner x balance frozenV2, Address.ofBytes c.ownerAddress = some owner ∧
      s.getAccount owner = some x ∧ debit x.balance c.frozenBalance = some balance ∧
      stake x c.resource c.frozenBalance = .ok frozenV2 ∧
      t = (s.putAccount owner { x with frozenV2, balance }).addWeight c.resource (c.frozenBalance / trxPrecision) := by
  apply ok_elim h; simp only [execute, ok_rules, wp_addWeight_iff]
  intro owner ho x hx balance hbalance frozenV2 hfrozen
  exact ⟨owner, x, balance, frozenV2, parseAddress_eq_ok.mp ho, hx, hbalance, hfrozen, rfl⟩

/-- The stake has room for the amount. -/
def StakeFits (c : FreezeBalanceV2Contract) (s : WorldState) : Prop :=
  AtAccount s c.ownerAddress fun x => ∀ entry, findFrozenV2 x c.resource = some entry →
    Int64.Fits (entry.amount.toInt + c.frozenBalance.toInt)

lemma exists_stake {a : Account} {resource : Int32} {amount : Int64} : (∃ fs, stake a resource amount = .ok fs) ↔
      ∀ entry, findFrozenV2 a resource = some entry → Int64.Fits (entry.amount.toInt + amount.toInt) := by
  unfold stake
  cases findFrozenV2 a resource with
  | none => simp
  | some =>
    simp only [check_rules, Option.some.injEq, forall_eq', ← Int64.exists_checkedAdd]
    constructor
    · intro h; obtain ⟨-, total, ht, -⟩ := h; exact ⟨total, ht⟩
    · intro h; obtain ⟨total, ht⟩ := h; exact ⟨_, total, ht, rfl⟩

lemma executes_iff (hv : validate c s = .ok v) : (∃ t, execute c s = .ok ⟨v⟩ t) ↔ StakeFits c s := by
  simp only [validate, check_rules, parseAddress_eq_ok] at hv
  obtain ⟨-, -, owner, ho, x, hx, -, hpos, -, -, -, hle, -, -, rfl⟩ := hv
  rw [Int64.pos_iff] at hpos
  obtain ⟨b, hb⟩ := exists_debit_of_le (by omega) (le_iff_toInt_le.mp hle)
  rw [exists_ok_iff, StakeFits, atAccount_iff ho hx]
  simp [execute, parseAddress_ok ho, hx, hb, exists_stake]

end FreezeBalanceV2Actuator

def freezeBalanceV2Actuator : Actuator FreezeBalanceV2Contract :=
  ⟨FreezeBalanceV2Actuator.validate, FreezeBalanceV2Actuator.execute⟩

namespace UnfreezeBalanceV2Actuator
variable {c : UnfreezeBalanceV2Contract} {s : WorldState}

/-- Mirrors actuators/freeze_v2.rs:335. -/
def hasFrozen (a : Account) (resource : Int32) : Bool :=
  a.frozenV2.any fun f => f.type = resource && 0 < f.amount

/-- Mirrors actuators/freeze_v2.rs:342. -/
def frozenAmount (a : Account) (resource : Int32) : Int64 :=
  ((findFrozenV2 a resource).map FreezeV2.amount).getD 0

/-- The resource check: a known resource, of which something is frozen. -/
def checkResource (allowNew : Bool) (a : Account) (resource : Int32) : Check Unit :=
  if resource = bandwidth then ensure (hasFrozen a bandwidth) (invalid "no frozenBalance(BANDWIDTH)")
  else if resource = energy then ensure (hasFrozen a energy) (invalid "no frozenBalance(Energy)")
  else if resource = tronPower ∧ allowNew then
    ensure (hasFrozen a tronPower) (invalid "no frozenBalance(TronPower)")
  else throw (invalid (if allowNew then
      "ResourceCode error.valid ResourceCode[BANDWIDTH、Energy、TRON_POWER]"
    else "ResourceCode error.valid ResourceCode[BANDWIDTH、Energy]"))

/-- Mirrors actuators/freeze_v2.rs:213. -/
def validate (c : UnfreezeBalanceV2Contract) (s : WorldState) : Check Int64 := do
  ensure (0 < s.getProp .unfreezeDelayDays)
    (invalid "Not support UnfreezeV2 transaction, need to be opened by the committee")
  let owner ← parseAddress c.ownerAddress "Invalid address"
  let shown := hex owner.asBytes
  let account ← orThrow (s.getAccount owner) (invalid s!"Account[{shown}] does not exist")
  checkResource (allowNewResource s) account c.resource
  let asked := c.unfreezeBalance
  ensure (0 < asked ∧ asked ≤ frozenAmount account c.resource)
    (invalid s!"Invalid unfreeze_balance, [{asked}] is error")
  let now := s.getProp .latestBlockHeaderTimestamp
  ensure ((account.unfrozenV2.filter (now < ·.unfreezeExpireTime)).length < unfreezeMaxTimes)
    (invalid "Invalid unfreeze operation, unfreezing times is over limit")
  pure 0

/-- Mirrors actuators/freeze_v2.rs:328. -/
def unfreezeDelayMs (s : WorldState) : Check Int64 :=
  orThrow ((positiveOr (s.getProp .unfreezeDelayDays) defaultUnfreezeDelayDays).checkedMul frozenPeriodMs)
    (failed "long overflow")

/-- Mirrors actuators/freeze_v2.rs:282. -/
def execute (c : UnfreezeBalanceV2Contract) : Act ExecutionResult := do
  let owner ← lift (parseAddress c.ownerAddress "Invalid address")
  let now := (← get).getProp .latestBlockHeaderTimestamp
  let account ← orThrow ((← get).getAccount owner) (failed "owner account missing")
  let entry ← orThrow (findFrozenV2 account c.resource) (failed "no frozenBalance")
  let amount ← orThrow (debit entry.amount c.unfreezeBalance) (failed "frozenBalance is not sufficient")
  let delay ← lift (unfreezeDelayMs (← get))
  let expireTime ← orThrow (now.checkedAdd delay) (failed "long overflow")
  modify (·.putAccount owner { account with
    frozenV2 := setFrozenV2 c.resource amount account.frozenV2
    unfrozenV2 := account.unfrozenV2 ++ [⟨c.resource, c.unfreezeBalance, expireTime⟩] })
  addWeight c.resource (-(c.unfreezeBalance / trxPrecision))
  pure ⟨0⟩

lemma atomic (c : UnfreezeBalanceV2Contract) (s : WorldState) : Atomic (execute c) s := by
  apply atomic_of_wp; simp [execute, wp_addWeight]

lemma execute_ok
    (h : execute c s = .ok res t) : ∃ owner x entry amount expireTime, Address.ofBytes c.ownerAddress = some owner ∧
      s.getAccount owner = some x ∧ findFrozenV2 x c.resource = some entry ∧
      debit entry.amount c.unfreezeBalance = some amount ∧ t = (s.putAccount owner { x with
        frozenV2 := setFrozenV2 c.resource amount x.frozenV2
        unfrozenV2 := x.unfrozenV2 ++ [⟨c.resource, c.unfreezeBalance, expireTime⟩] }).addWeight c.resource
          (-(c.unfreezeBalance / trxPrecision)) := by
  apply ok_elim h; simp only [execute, ok_rules, wp_addWeight_iff]
  intro owner ho x hx entry hentry amount hamount delay _ expireTime _
  exact ⟨owner, x, entry, amount, expireTime, parseAddress_eq_ok.mp ho, hx, hentry, hamount, rfl⟩

/-- The time the stake is released fits, and so does the delay on its own. -/
def DelayFits (s : WorldState) : Prop :=
  Int64.Fits ((s.getProp .unfreezeDelayDays).toInt * 86400000) ∧
    Int64.Fits ((s.getProp .latestBlockHeaderTimestamp).toInt + (s.getProp .unfreezeDelayDays).toInt * 86400000)

lemma exists_expireTime {now : Int64} (h : 0 < s.getProp .unfreezeDelayDays) :
    (∃ delay, unfreezeDelayMs s = .ok delay ∧ ∃ time, now.checkedAdd delay = some time) ↔
      Int64.Fits ((s.getProp .unfreezeDelayDays).toInt * 86400000) ∧
        Int64.Fits (now.toInt + (s.getProp .unfreezeDelayDays).toInt * 86400000) := by
  have hp : frozenPeriodMs.toInt = 86400000 := rfl
  unfold unfreezeDelayMs positiveOr; rw [if_pos h]
  simp only [orThrow_eq_ok, Int64.exists_checkedAdd, Int64.checkedMul]; rw [hp]
  by_cases hfit : Int64.Fits ((s.getProp .unfreezeDelayDays).toInt * 86400000)
  · have hmul : (s.getProp .unfreezeDelayDays * frozenPeriodMs).toInt =
        (s.getProp .unfreezeDelayDays).toInt * 86400000 := Int64.toInt_mul_of_fits hfit
    rw [if_pos hfit]; simp only [Option.some.injEq, exists_eq_left', hmul, hfit, true_and]
  · simp [hfit]

lemma executes_iff (hv : validate c s = .ok v) : (∃ t, execute c s = .ok ⟨v⟩ t) ↔ DelayFits s := by
  simp only [validate, check_rules, parseAddress_eq_ok] at hv
  obtain ⟨-, hdays, owner, ho, x, hx, -, -, -, ⟨hpos, hle⟩, -, -, rfl⟩ := hv
  rw [Int64.pos_iff] at hpos; rw [le_iff_toInt_le] at hle
  -- something is frozen, because what is asked for is positive
  obtain ⟨entry, hentry⟩ : ∃ entry, findFrozenV2 x c.resource = some entry := by
    refine Option.ne_none_iff_exists'.mp fun hn => ?_
    rw [frozenAmount, hn, Option.map_none, Option.getD_none, toInt_zero] at hle; omega
  rw [frozenAmount, hentry, Option.map_some, Option.getD_some] at hle
  obtain ⟨b, hb⟩ := exists_debit_of_le (by omega) hle
  rw [exists_ok_iff, DelayFits, ← exists_expireTime hdays]
  simp [execute, parseAddress_ok ho, hx, hentry, hb]

end UnfreezeBalanceV2Actuator

def unfreezeBalanceV2Actuator : Actuator UnfreezeBalanceV2Contract :=
  ⟨UnfreezeBalanceV2Actuator.validate, UnfreezeBalanceV2Actuator.execute⟩

namespace WithdrawExpireUnfreezeActuator
variable {c : OwnerOnly} {s : WorldState}

/-- The matured part of the unfreezing list. -/
def matured (now : Int64) (us : List UnFreezeV2) : List UnFreezeV2 := us.filter (·.unfreezeExpireTime ≤ now)

/-- Mirrors actuators/withdraw_unfreeze.rs:29. -/
def maturedTotal (c : OwnerOnly) (s : WorldState) : Check (Address × Int64) := do
  let owner ← parseAddress c.ownerAddress "Invalid address"
  let account ← orThrow (s.getAccount owner) (invalid "Account does not exist")
  let now := s.getProp .latestBlockHeaderTimestamp
  pure (owner, sumI64 ((matured now account.unfrozenV2).map UnFreezeV2.unfreezeAmount))

/-- Mirrors actuators/withdraw_unfreeze.rs:44. -/
def validate (c : OwnerOnly) (s : WorldState) : Check Int64 := do
  let (_, total) ← maturedTotal c s
  ensure (0 < total) (invalid "no unFreeze balance to withdraw")
  pure 0

/-- Mirrors actuators/withdraw_unfreeze.rs:54. -/
def execute (c : OwnerOnly) : Act ExecutionResult := do
  let owner ← lift (parseAddress c.ownerAddress "Invalid address")
  let now := (← get).getProp .latestBlockHeaderTimestamp
  let account ← orThrow ((← get).getAccount owner) (failed "owner account missing")
  let total := sumI64 ((matured now account.unfrozenV2).map UnFreezeV2.unfreezeAmount)
  let balance ← orThrow (account.balance.checkedAdd total) (failed "long overflow")
  modify (·.putAccount owner { account with
    balance
    unfrozenV2 := account.unfrozenV2.filter fun u => ¬ u.unfreezeExpireTime ≤ now })
  pure ⟨0⟩

lemma atomic (c : OwnerOnly) (s : WorldState) : Atomic (execute c) s := by
  apply atomic_of_wp; simp [execute]

lemma execute_ok
    (h : execute c s = .ok res t) : ∃ owner x balance, Address.ofBytes c.ownerAddress = some owner ∧
      s.getAccount owner = some x ∧ x.balance.checkedAdd (sumI64 ((matured
        (s.getProp .latestBlockHeaderTimestamp) x.unfrozenV2).map UnFreezeV2.unfreezeAmount)) = some balance ∧
      t = s.putAccount owner { x with
        balance
        unfrozenV2 := x.unfrozenV2.filter fun u =>
          ¬ u.unfreezeExpireTime ≤ s.getProp .latestBlockHeaderTimestamp } := by
  apply ok_elim h; simp only [execute, ok_rules]; intro owner ho x hx balance hbalance
  exact ⟨owner, x, balance, parseAddress_eq_ok.mp ho, hx, hbalance, rfl⟩

/-- The balance has room for what has matured. -/
def PayoutFits (c : OwnerOnly) (s : WorldState) : Prop :=
  AtAccount s c.ownerAddress fun x => Int64.Fits (x.balance.toInt +
    (sumI64 ((matured (s.getProp .latestBlockHeaderTimestamp) x.unfrozenV2).map UnFreezeV2.unfreezeAmount)).toInt)

lemma executes_iff (hv : validate c s = .ok v) : (∃ t, execute c s = .ok ⟨v⟩ t) ↔ PayoutFits c s := by
  simp only [validate, maturedTotal, bind_assoc, check_rules, parseAddress_eq_ok] at hv
  obtain ⟨owner, ho, x, hx, -, -, -, -, rfl⟩ := hv
  rw [exists_ok_iff, PayoutFits, atAccount_iff ho hx]
  simp [execute, parseAddress_ok ho, hx, Int64.exists_checkedAdd]

end WithdrawExpireUnfreezeActuator

def withdrawExpireUnfreezeActuator : Actuator OwnerOnly :=
  ⟨WithdrawExpireUnfreezeActuator.validate, WithdrawExpireUnfreezeActuator.execute⟩

/-- What `cancel_unfreeze.rs` accumulates: the stakes, what has been staked again for each of
the three resources, and what is paid out. -/
structure Refreeze where
  frozenV2 : List FreezeV2
  net : Int64 := 0
  energy : Int64 := 0
  power : Int64 := 0
  withdraw : Int64 := 0

namespace Refreeze

/-- Adds to the stake of a resource, starting one if there is none. -/
def restake (fs : List FreezeV2) (resource : Int32) (amount : Int64) : List FreezeV2 :=
  match fs.find? (·.type = resource) with
  | some f => setFrozenV2 resource (f.amount + amount) fs
  | none => fs ++ [⟨resource, amount⟩]

/-- Counts an amount for its resource; other resource numbers are not counted. -/
def count (r : Refreeze) (resource : Int32) (amount : Int64) : Refreeze :=
  if resource = bandwidth then { r with net := r.net + amount }
  else if resource = TronRs.energy then { r with energy := r.energy + amount }
  else if resource = tronPower then { r with power := r.power + amount }
  else r

/-- One iteration of the loop. -/
def next (now : Int64) (r : Refreeze) (u : UnFreezeV2) : Refreeze :=
  if u.unfreezeExpireTime ≤ now then { r with withdraw := r.withdraw + u.unfreezeAmount }
  else { r with frozenV2 := restake r.frozenV2 u.type u.unfreezeAmount }.count u.type u.unfreezeAmount

/-- The loop over the unfreezing list. -/
def all (now : Int64) (a : Account) : Refreeze := a.unfrozenV2.foldl (next now) ⟨a.frozenV2, 0, 0, 0, 0⟩

end Refreeze

namespace CancelAllUnfreezeV2Actuator
variable {key : Property} {amount : Int64} {s : WorldState} {ok : Unit → WorldState → Prop} {c : OwnerOnly}

/-- Mirrors actuators/cancel_unfreeze.rs:33. -/
def validate (c : OwnerOnly) (s : WorldState) : Check Int64 := do
  requireFeature s .allowCancelAllUnfreezeV2
    "Not support CancelAllUnfreezeV2 transaction, need to be opened by the committee"
  let owner ← parseAddress c.ownerAddress "Invalid address"
  let account ← orThrow (s.getAccount owner) (invalid "Account does not exist")
  ensure (account.unfrozenV2 ≠ []) (invalid "no unfreezeV2 list to cancel")
  pure 0

/-- The weight of what was staked again, for one resource. -/
def addRefrozen (key : Property) (amount : Int64) : Act Unit :=
  if amount = 0 then pure () else modify (·.addProp key (amount / trxPrecision))

/-- The state with the weight of what was staked again. -/
def refrozen (s : WorldState) (key : Property) (amount : Int64) : WorldState :=
  if amount = 0 then s else s.addProp key (amount / trxPrecision)

lemma wp_addRefrozen_iff : wp (addRefrozen key amount) s ok err ↔ ok () (refrozen s key amount) := by
  unfold addRefrozen refrozen; split <;> exact Iff.rfl

/-- Mirrors actuators/cancel_unfreeze.rs:49. -/
def execute (c : OwnerOnly) : Act ExecutionResult := do
  let owner ← lift (parseAddress c.ownerAddress "Invalid address")
  let now := (← get).getProp .latestBlockHeaderTimestamp
  let account ← orThrow ((← get).getAccount owner) (failed "owner account missing")
  let r := Refreeze.all now account
  let balance ← orThrow (account.balance.checkedAdd r.withdraw) (failed "long overflow")
  modify (·.putAccount owner { account with unfrozenV2 := [], frozenV2 := r.frozenV2, balance })
  addRefrozen .totalNetWeight r.net
  addRefrozen .totalEnergyWeight r.energy
  addRefrozen .totalTronPowerWeight r.power
  pure ⟨0⟩

lemma atomic (c : OwnerOnly) (s : WorldState) : Atomic (execute c) s := by
  apply atomic_of_wp; simp [execute, addRefrozen, wp_ite]

lemma execute_ok (h : execute c s = .ok res t) : ∃ owner x r balance, Address.ofBytes c.ownerAddress = some owner ∧
      s.getAccount owner = some x ∧ r = Refreeze.all (s.getProp .latestBlockHeaderTimestamp) x ∧
      x.balance.checkedAdd r.withdraw = some balance ∧ t = refrozen (refrozen (refrozen
        (s.putAccount owner { x with unfrozenV2 := [], frozenV2 := r.frozenV2, balance })
        .totalNetWeight r.net) .totalEnergyWeight r.energy) .totalTronPowerWeight r.power := by
  apply ok_elim h; simp only [execute, ok_rules, wp_addRefrozen_iff]
  intro owner ho x hx balance hbalance
  exact ⟨owner, x, _, balance, parseAddress_eq_ok.mp ho, hx, rfl, hbalance, rfl⟩

/-- The balance has room for what is paid out. -/
def PayoutFits (c : OwnerOnly) (s : WorldState) : Prop :=
  AtAccount s c.ownerAddress fun x => Int64.Fits (x.balance.toInt +
    (Refreeze.all (s.getProp .latestBlockHeaderTimestamp) x).withdraw.toInt)

@[simp] lemma returns_addRefrozen :
    Returns (addRefrozen key amount) s ok ↔ ok () (refrozen s key amount) := wp_addRefrozen_iff

lemma executes_iff (hv : validate c s = .ok v) : (∃ t, execute c s = .ok ⟨v⟩ t) ↔ PayoutFits c s := by
  simp only [validate, check_rules, parseAddress_eq_ok] at hv
  obtain ⟨-, -, owner, ho, x, hx, -, -, rfl⟩ := hv
  rw [exists_ok_iff, PayoutFits, atAccount_iff ho hx]
  simp [execute, parseAddress_ok ho, hx, Int64.exists_checkedAdd]

end CancelAllUnfreezeV2Actuator

def cancelAllUnfreezeV2Actuator : Actuator OwnerOnly :=
  ⟨CancelAllUnfreezeV2Actuator.validate, CancelAllUnfreezeV2Actuator.execute⟩

/-! ## Stake 1.0 -/

def defaultMinFrozenTime : Int64 := 3
def defaultMaxFrozenTime : Int64 := 3

/-- Mirrors actuators/freeze_v1.rs:56. -/
def weightKey (resource : Int32) : Property :=
  if resource = energy then .totalEnergyWeight
  else if resource = tronPower then .totalTronPowerWeight
  else .totalNetWeight

/-- The frozen energy stake of an account. -/
def frozenEnergy (a : Account) : Option Frozen := a.accountResource.bind AccountResource.frozenBalanceForEnergy

/-- Mirrors actuators/freeze_v1.rs:65. -/
def frozenBalance (a : Account) (resource : Int32) : Int64 :=
  if resource = energy then ((frozenEnergy a).map Frozen.frozenBalance).getD 0
  else if resource = tronPower then (a.tronPower.map Frozen.frozenBalance).getD 0
  else sumI64 (a.frozen.map Frozen.frozenBalance)

/-- Mirrors actuators/freeze_v1.rs:79. -/
def setFrozen (a : Account) (resource : Int32) (balance expireTime : Int64) : Account :=
  let frozen : Frozen := ⟨balance, expireTime⟩
  if resource = energy then
    { a with accountResource := some { a.accountResource.getD {} with frozenBalanceForEnergy := some frozen } }
  else if resource = tronPower then { a with tronPower := some frozen }
  else { a with frozen := [frozen] }

namespace FreezeBalanceActuator
variable {c : FreezeBalanceContract} {s : WorldState}

/-- Mirrors actuators/freeze_v1.rs:193. -/
def frozenTimeBounds (s : WorldState) : Int64 × Int64 :=
  (positiveOr (s.getProp .minFrozenTime) defaultMinFrozenTime,
    positiveOr (s.getProp .maxFrozenTime) defaultMaxFrozenTime)

/-- Mirrors actuators/freeze_v1.rs:105. -/
def validate (c : FreezeBalanceContract) (s : WorldState) : Check Int64 := do
  let owner ← parseAddress c.ownerAddress "Invalid address"
  ensure (c.receiverAddress = []) (invalid "delegated V1 freeze (receiver) is not supported")
  let shown := hex owner.asBytes
  let account ← orThrow (s.getAccount owner) (invalid s!"Account[{shown}] not exists")
  ensure (0 < c.frozenBalance) (invalid "frozenBalance must be positive")
  ensure (trxPrecision ≤ c.frozenBalance) (invalid "frozenBalance must be greater than or equal to 1 TRX")
  ensure (c.frozenBalance ≤ account.balance)
    (invalid "frozenBalance must be less than or equal to accountBalance")
  let (min, max) := frozenTimeBounds s
  ensure (min ≤ c.frozenDuration ∧ c.frozenDuration ≤ max)
    (invalid s!"frozenDuration must be less than {max} days and more than {min} days")
  ensure (resourceAllowed (allowNewResource s) c.resource) (invalid (resourceError (allowNewResource s)))
  pure 0

/-- Mirrors actuators/freeze_v1.rs:158. -/
def execute (c : FreezeBalanceContract) : Act ExecutionResult := do
  let owner ← lift (parseAddress c.ownerAddress "Invalid address")
  let now := (← get).getProp .latestBlockHeaderTimestamp
  let expireTime ← orThrow (now.checkedAdd (c.frozenDuration.saturatingMul frozenPeriodMs))
    (failed "long overflow")
  let account ← orThrow ((← get).getAccount owner) (failed "owner account missing")
  let old := frozenBalance account c.resource
  let new ← orThrow (old.checkedAdd c.frozenBalance) (failed "long overflow")
  let balance ← orThrow (debit account.balance c.frozenBalance) (failed "balance is not sufficient")
  modify (·.putAccount owner (setFrozen { account with balance } c.resource new expireTime))
  modify (·.addProp (weightKey c.resource) (new / trxPrecision - old / trxPrecision))
  pure ⟨0⟩

lemma atomic (c : FreezeBalanceContract) (s : WorldState) : Atomic (execute c) s := by
  apply atomic_of_wp; simp [execute]

lemma execute_ok
    (h : execute c s = .ok res t) : ∃ owner x expireTime new balance, Address.ofBytes c.ownerAddress = some owner ∧
      s.getAccount owner = some x ∧ (frozenBalance x c.resource).checkedAdd c.frozenBalance = some new ∧
      debit x.balance c.frozenBalance = some balance ∧
      t = (s.putAccount owner (setFrozen { x with balance } c.resource new expireTime)).addProp (weightKey c.resource)
        (new / trxPrecision - frozenBalance x c.resource / trxPrecision) := by
  apply ok_elim h; simp only [execute, ok_rules]
  intro owner ho expireTime _ x hx new hnew balance hbalance
  exact ⟨owner, x, expireTime, new, balance, parseAddress_eq_ok.mp ho, hx, hnew, hbalance, rfl⟩

/-- The expiry time fits, and so does the stake with the amount added. -/
def StakeFits (c : FreezeBalanceContract) (s : WorldState) : Prop :=
  Int64.Fits ((s.getProp .latestBlockHeaderTimestamp).toInt +
      (c.frozenDuration.saturatingMul frozenPeriodMs).toInt) ∧
    AtAccount s c.ownerAddress fun x => Int64.Fits ((frozenBalance x c.resource).toInt + c.frozenBalance.toInt)

lemma executes_iff (hv : validate c s = .ok v) : (∃ t, execute c s = .ok ⟨v⟩ t) ↔ StakeFits c s := by
  simp only [validate, check_rules, parseAddress_eq_ok] at hv
  obtain ⟨owner, ho, -, -, x, hx, -, hpos, -, -, -, hle, -, -, -, -, rfl⟩ := hv
  rw [Int64.pos_iff] at hpos
  obtain ⟨b, hb⟩ := exists_debit_of_le (by omega) (le_iff_toInt_le.mp hle)
  rw [exists_ok_iff, StakeFits, atAccount_iff ho hx]
  simp [execute, parseAddress_ok ho, hx, hb, Int64.exists_checkedAdd]

end FreezeBalanceActuator

def freezeBalanceActuator : Actuator FreezeBalanceContract :=
  ⟨FreezeBalanceActuator.validate, FreezeBalanceActuator.execute⟩

namespace UnfreezeBalanceActuator
variable {c : UnfreezeBalanceContract} {s : WorldState}

/-- A single stake that is positive and has matured; the messages carry the resource's name. -/
def checkMatured (now : Int64) (name : String) : Option Frozen → Check Unit
  | some f => do
    ensure (0 < f.frozenBalance) (invalid s!"no frozenBalance({name})")
    ensure (f.expireTime ≤ now) (invalid s!"It's not time to unfreeze({name}).")
  | none => throw (invalid s!"no frozenBalance({name})")

/-- Mirrors actuators/freeze_v1.rs:219. -/
def validate (c : UnfreezeBalanceContract) (s : WorldState) : Check Int64 := do
  let owner ← parseAddress c.ownerAddress "Invalid address"
  ensure (c.receiverAddress = []) (invalid "delegated V1 unfreeze (receiver) is not supported")
  let shown := hex owner.asBytes
  let account ← orThrow (s.getAccount owner) (invalid s!"Account[{shown}] does not exist")
  let now := s.getProp .latestBlockHeaderTimestamp
  if c.resource = bandwidth then
    ensure (account.frozen ≠ []) (invalid "no frozenBalance(BANDWIDTH)")
    ensure (account.frozen.any (·.expireTime ≤ now)) (invalid "It's not time to unfreeze(BANDWIDTH).")
  else if c.resource = energy then checkMatured now "Energy" (frozenEnergy account)
  else if c.resource = tronPower then checkMatured now "TronPower" account.tronPower
  else throw (invalid "ResourceCode error, valid ResourceCode[BANDWIDTH、ENERGY]")
  pure 0

/-- What is paid out, and the account without the stakes it comes from. -/
def takeFrozen (now : Int64) (a : Account) (resource : Int32) : Int64 × Account :=
  if resource = bandwidth then
    (sumI64 ((a.frozen.filter (·.expireTime ≤ now)).map Frozen.frozenBalance),
      { a with frozen := a.frozen.filter fun f => ¬ f.expireTime ≤ now })
  else if resource = energy then
    (((frozenEnergy a).map Frozen.frozenBalance).getD 0,
      { a with accountResource := some { a.accountResource.getD {} with frozenBalanceForEnergy := none } })
  else if resource = tronPower then
    ((a.tronPower.map Frozen.frozenBalance).getD 0, { a with tronPower := none })
  else (0, a)

/-- Mirrors actuators/freeze_v1.rs:274. -/
def execute (c : UnfreezeBalanceContract) : Act ExecutionResult := do
  let owner ← lift (parseAddress c.ownerAddress "Invalid address")
  let now := (← get).getProp .latestBlockHeaderTimestamp
  let account ← orThrow ((← get).getAccount owner) (failed "owner account missing")
  let old := frozenBalance account c.resource
  let (unfreeze, account) := takeFrozen now account c.resource
  let balance ← orThrow (account.balance.checkedAdd unfreeze) (failed "long overflow")
  modify (·.putAccount owner { account with balance })
  let new := frozenBalance account c.resource
  modify (·.addProp (weightKey c.resource) (new / trxPrecision - old / trxPrecision))
  pure ⟨0⟩

lemma atomic (c : UnfreezeBalanceContract) (s : WorldState) : Atomic (execute c) s := by
  apply atomic_of_wp; simp [execute]

lemma execute_ok (h : execute c s = .ok res t) : ∃ owner x v y balance, Address.ofBytes c.ownerAddress = some owner ∧
      s.getAccount owner = some x ∧ takeFrozen (s.getProp .latestBlockHeaderTimestamp) x c.resource = (v, y) ∧
      y.balance.checkedAdd v = some balance ∧ t = (s.putAccount owner { y with balance }).addProp (weightKey c.resource)
        (frozenBalance { y with balance } c.resource / trxPrecision - frozenBalance x c.resource / trxPrecision) := by
  apply ok_elim h; simp only [execute, ok_rules]; intro owner ho x hx balance hbalance
  exact ⟨owner, x, _, _, balance, parseAddress_eq_ok.mp ho, hx, rfl, hbalance, rfl⟩

lemma balance_takeFrozen (now : Int64) (a : Account) (resource : Int32) :
    (takeFrozen now a resource).2.balance = a.balance := by
  unfold takeFrozen
  split
  · rfl
  · split
    · rfl
    · split <;> rfl

/-- The balance has room for what is unfrozen. -/
def PayoutFits (c : UnfreezeBalanceContract) (s : WorldState) : Prop :=
  AtAccount s c.ownerAddress fun x => Int64.Fits (x.balance.toInt +
    (takeFrozen (s.getProp .latestBlockHeaderTimestamp) x c.resource).1.toInt)

lemma executes_iff (hv : validate c s = .ok v) : (∃ t, execute c s = .ok ⟨v⟩ t) ↔ PayoutFits c s := by
  simp only [validate, check_rules, parseAddress_eq_ok] at hv; obtain ⟨owner, ho, -, -, x, hx, hv⟩ := hv
  have hv0 : v = 0 := by
    split at hv
    · obtain ⟨-, -, hv⟩ := bind_eq_ok.mp hv
      obtain ⟨-, -, hv⟩ := bind_eq_ok.mp hv; exact (pure_eq_ok.mp hv).symm
    split at hv
    · obtain ⟨-, -, hv⟩ := bind_eq_ok.mp hv; exact (pure_eq_ok.mp hv).symm
    · split at hv
      · obtain ⟨-, -, hv⟩ := bind_eq_ok.mp hv; exact (pure_eq_ok.mp hv).symm
      · cases hv
  rw [exists_ok_iff, PayoutFits, atAccount_iff ho hx, hv0]
  simp [execute, parseAddress_ok ho, hx, balance_takeFrozen, Int64.exists_checkedAdd]

end UnfreezeBalanceActuator

def unfreezeBalanceActuator : Actuator UnfreezeBalanceContract :=
  ⟨UnfreezeBalanceActuator.validate, UnfreezeBalanceActuator.execute⟩

end TronRs

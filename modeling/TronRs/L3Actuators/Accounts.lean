import TronRs.L3Actuators.Base

/-!
# Account actuators

`crates/actuators/src/account.rs` and `permission.rs`.

* `CreateAccountActuator.atomic_iff`: creating an account is atomic exactly when taking the
  fee from the owner does not overflow, which only a negative fee can make it do.
* `UpdateAccountActuator.atomic`, `SetAccountIdActuator.atomic`,
  `AccountPermissionUpdateActuator.atomic`: the others write last.
-/
namespace TronRs

open TronRs.Core

/-! ## Creating an account -/

namespace CreateAccountActuator

/-- Mirrors actuators/account.rs:64. -/
def validate (c : AccountCreateContract) (s : WorldState) : Check Int64 := do
  let owner ← parseAddress c.ownerAddress "Invalid ownerAddress"
  let target ← parseAddress c.accountAddress "Invalid account address"
  let ownerAccount ← orThrow (s.getAccount owner) (invalid "Account has not existed")
  ensure (s.accountExists target = false) (invalid "Account has existed")
  let fee := s.getProp .createAccountFee
  ensure (fee ≤ ownerAccount.balance)
    (invalid "Validate CreateAccountActuator error, insufficient fee.")
  pure fee

/-- Mirrors actuators/account.rs:85. The fresh account is stored, then stored again with
the requested type, before the owner pays. -/
def execute (c : AccountCreateContract) : Act ExecutionResult := do
  let owner ← lift (parseAddress c.ownerAddress "Invalid ownerAddress")
  let target ← lift (parseAddress c.accountAddress "Invalid account address")
  let s ← get
  let fee := s.getProp .createAccountFee
  let created := s.freshAccount target
  modify (·.createAccount target)
  modify (·.putAccount target { created with type := c.type })
  let s ← get
  let ownerAccount ← orThrow (s.getAccount owner) (failed "owner account missing")
  let balance ← orThrow (debit ownerAccount.balance fee) (failed "balance is not sufficient")
  modify (·.putAccount owner { ownerAccount with balance })
  if fee > 0 then modify (·.burnTrx fee)
  pure ⟨fee⟩

variable {c : AccountCreateContract} {s : WorldState} {v : Int64}

lemma validate_ok (h : validate c s = .ok v) : v = s.getProp .createAccountFee ∧
    ∃ owner target account, Address.ofBytes c.ownerAddress = some owner ∧
      Address.ofBytes c.accountAddress = some target ∧ s.getAccount owner = some account ∧
      s.getAccount target = none ∧ s.getProp .createAccountFee ≤ account.balance := by
  simp only [validate, check_rules, parseAddress_eq_ok, WorldState.accountExists_eq_false] at h
  obtain ⟨owner, ho, target, ht, account, ha, -, hn, -, hf, rfl⟩ := h
  exact ⟨rfl, owner, target, account, ho, ht, ha, hn, hf⟩

/-- The fee can be taken from the owner's balance. -/
def FeeFits (c : AccountCreateContract) (s : WorldState) : Prop :=
  ∀ owner account, Address.ofBytes c.ownerAddress = some owner → s.getAccount owner = some account →
    Int64.Fits (account.balance.toInt - (s.getProp .createAccountFee).toInt)

lemma executes_iff (hv : validate c s = .ok v) : (∃ t, execute c s = .ok ⟨v⟩ t) ↔ FeeFits c s := by
  obtain ⟨hfee, owner, target, account, ho, ht, ha, hn, hf⟩ := validate_ok hv
  have hne : owner ≠ target := by rintro rfl; rw [ha] at hn; cases hn
  have hle := le_iff_toInt_le.mp hf
  have hcond : FeeFits c s ↔ Int64.Fits (account.balance.toInt - (s.getProp .createAccountFee).toInt) :=
    ⟨fun h => h owner account ho ha, fun h => (atAccount_iff ho ha).mpr h⟩
  rw [exists_ok_iff, hcond, hfee]
  simp [execute, parseAddress_ok ho, parseAddress_ok ht, WorldState.createAccount,
    getAccount_putAccount_of_ne _ _ hne, ha, exists_debit_iff, Int64.Fits]
  omega

lemma atomic_iff (hv : validate c s = .ok v) : Atomic (execute c) s ↔ FeeFits c s := by
  obtain ⟨hfee, owner, target, account, ho, ht, ha, hn, hf⟩ := validate_ok hv
  have hne : owner ≠ target := by rintro rfl; rw [ha] at hn; cases hn
  have hle := le_iff_toInt_le.mp hf
  have hget : ∀ x y, ((s.putAccount target x).putAccount target y).getAccount owner = some account := by
    intro x y; rw [getAccount_putAccount_of_ne _ _ hne, getAccount_putAccount_of_ne _ _ hne, ha]
  constructor
  · intro hat o a ho' ha'; cases ho.symm.trans ho'; cases ha.symm.trans ha'
    by_contra hnf; refine not_atomic_of_wp ?_ hat
    have hd : debit account.balance (s.getProp .createAccountFee) = none :=
      debit_eq_none.mpr fun h => hnf ⟨by omega, h.2⟩
    have hne' : ∀ x y, (s.putAccount target x).putAccount target y ≠ s := by
      intro x y heq; have := congrArg (fun t => WorldState.getAccount t target) heq
      simp [hn] at this
    simp [execute, parseAddress_ok ho, parseAddress_ok ht, hd, hget, hne', failed,
      WorldState.createAccount]
  · intro hfit; obtain ⟨t, ht⟩ := (executes_iff hv).mpr hfit; exact atomic_of_ok ht

end CreateAccountActuator

def createAccountActuator : Actuator AccountCreateContract :=
  ⟨CreateAccountActuator.validate, CreateAccountActuator.execute⟩

/-! ## Name, id and permissions -/

def maxAccountNameLen : Nat := 200
def minAccountIdLen : Nat := 8
def maxAccountIdLen : Nat := 32

/-- Mirrors actuators/account.rs:40. -/
def validAccountName (name : Bytes) : Bool := name.length ≤ maxAccountNameLen

/-- Printable, non-blank ASCII. -/
def isReadable (b : Bytes) : Bool := b.all fun x => 0x21 ≤ x && x ≤ 0x7e

/-- Mirrors actuators/account.rs:45. -/
def validAccountId (id : Bytes) : Bool :=
  minAccountIdLen ≤ id.length && id.length ≤ maxAccountIdLen && isReadable id

namespace UpdateAccountActuator

/-- Mirrors actuators/account.rs:128. -/
def validate (c : AccountUpdateContract) (s : WorldState) : Check Int64 := do
  ensure (validAccountName c.accountName) (invalid "Invalid accountName")
  let owner ← parseAddress c.ownerAddress "Invalid ownerAddress"
  let account ← orThrow (s.getAccount owner) (invalid "Account does not exist")
  ensure (account.accountName = [] ∨ s.getProp .allowUpdateAccountName ≠ 0)
    (invalid "This account name is already existed")
  pure 0

/-- Mirrors actuators/account.rs:145. -/
def execute (c : AccountUpdateContract) : Act ExecutionResult := do
  let owner ← lift (parseAddress c.ownerAddress "Invalid ownerAddress")
  let account ← orThrow ((← get).getAccount owner) (failed "owner account missing")
  modify (·.putAccount owner { account with accountName := c.accountName })
  pure ⟨0⟩

lemma atomic (c : AccountUpdateContract) (s : WorldState) : Atomic (execute c) s := by
  apply atomic_of_wp; simp [execute]

lemma executes {c : AccountUpdateContract} {s : WorldState} {v : Int64} (hv : validate c s = .ok v) :
    ∃ t, execute c s = .ok ⟨v⟩ t := by
  simp only [validate, check_rules, parseAddress_eq_ok] at hv
  obtain ⟨-, -, owner, ho, x, hx, -, -, rfl⟩ := hv
  rw [exists_ok_iff]; simp [execute, parseAddress_ok ho, hx]

end UpdateAccountActuator

def updateAccountActuator : Actuator AccountUpdateContract :=
  ⟨UpdateAccountActuator.validate, UpdateAccountActuator.execute⟩

namespace SetAccountIdActuator

/-- Mirrors actuators/account.rs:172. -/
def validate (c : SetAccountIdContract) (s : WorldState) : Check Int64 := do
  ensure (validAccountId c.accountId) (invalid "Invalid accountId")
  let owner ← parseAddress c.ownerAddress "Invalid ownerAddress"
  let account ← orThrow (s.getAccount owner) (invalid "Account has not existed")
  ensure (account.accountId = []) (invalid "This account id already set")
  pure 0

/-- Mirrors actuators/account.rs:186. -/
def execute (c : SetAccountIdContract) : Act ExecutionResult := do
  let owner ← lift (parseAddress c.ownerAddress "Invalid ownerAddress")
  let account ← orThrow ((← get).getAccount owner) (failed "owner account missing")
  modify (·.putAccount owner { account with accountId := c.accountId })
  pure ⟨0⟩

lemma atomic (c : SetAccountIdContract) (s : WorldState) : Atomic (execute c) s := by
  apply atomic_of_wp; simp [execute]

lemma executes {c : SetAccountIdContract} {s : WorldState} {v : Int64} (hv : validate c s = .ok v) :
    ∃ t, execute c s = .ok ⟨v⟩ t := by
  simp only [validate, check_rules, parseAddress_eq_ok] at hv
  obtain ⟨-, -, owner, ho, x, hx, -, -, rfl⟩ := hv
  rw [exists_ok_iff]; simp [execute, parseAddress_ok ho, hx]

end SetAccountIdActuator

def setAccountIdActuator : Actuator SetAccountIdContract :=
  ⟨SetAccountIdActuator.validate, SetAccountIdActuator.execute⟩

def maxActivePermissions : Nat := 8
def maxKeys : Nat := 5

/-- The loop of `check_permission`: the sum of the key weights. -/
def sumWeights : Int64 → List Key → Check Int64
  | sum, [] => pure sum
  | sum, k :: keys => do
    ensure (0 < k.weight) (invalid "key's weight should be greater than 0")
    ensure (k.address.length = addressLen ∧ k.address.head? = some addressPrefix)
      (invalid "key is not a validate address")
    let sum ← orThrow (sum.checkedAdd k.weight) (invalid "long overflow")
    sumWeights sum keys

/-- Mirrors actuators/permission.rs:26. -/
def checkPermission (p : Permission) : Check Unit := do
  ensure (p.keys ≠ [] ∧ p.keys.length ≤ maxKeys)
    (invalid s!"number of keys in permission should not be greater than {maxKeys}")
  ensure (0 < p.threshold) (invalid "permission's threshold should be greater than 0")
  let weightSum ← sumWeights 0 p.keys
  ensure (p.threshold ≤ weightSum) (invalid "sum of all key's weight should not be less than threshold")

namespace AccountPermissionUpdateActuator

/-- Mirrors actuators/permission.rs:64. -/
def validate (c : AccountPermissionUpdateContract) (s : WorldState) : Check Int64 := do
  let owner ← parseAddress c.ownerAddress "invalid ownerAddress"
  ensure (s.accountExists owner) (invalid "ownerAddress account does not exist")
  let ownerPerm ← orThrow c.owner (invalid "owner permission is missing")
  checkPermission ownerPerm
  ensure (c.actives.length ≤ maxActivePermissions)
    (invalid s!"number of active permissions should not be greater than {maxActivePermissions}")
  ensure (c.actives ≠ []) (invalid "active permission is missing")
  c.actives.forM checkPermission
  pure 0

/-- Mirrors actuators/permission.rs:90. -/
def execute (c : AccountPermissionUpdateContract) : Act ExecutionResult := do
  let owner ← lift (parseAddress c.ownerAddress "invalid ownerAddress")
  let account ← orThrow ((← get).getAccount owner) (failed "owner account missing")
  modify (·.putAccount owner { account with
    ownerPermission := c.owner
    witnessPermission := c.witness
    activePermission := c.actives })
  pure ⟨0⟩

lemma atomic (c : AccountPermissionUpdateContract) (s : WorldState) : Atomic (execute c) s := by
  apply atomic_of_wp; simp [execute]

lemma executes {c : AccountPermissionUpdateContract} {s : WorldState} {v : Int64} (hv : validate c s = .ok v) :
    ∃ t, execute c s = .ok ⟨v⟩ t := by
  simp only [validate, check_rules, parseAddress_eq_ok, WorldState.accountExists_eq_true] at hv
  obtain ⟨owner, ho, -, ⟨x, hx⟩, -, -, -, -, -, -, -, -, -, -, rfl⟩ := hv
  rw [exists_ok_iff]; simp [execute, parseAddress_ok ho, hx]

end AccountPermissionUpdateActuator

def accountPermissionUpdateActuator : Actuator AccountPermissionUpdateContract :=
  ⟨AccountPermissionUpdateActuator.validate, AccountPermissionUpdateActuator.execute⟩

end TronRs

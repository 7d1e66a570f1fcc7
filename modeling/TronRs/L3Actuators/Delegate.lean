import TronRs.L3Actuators.Staking

/-!
# Resource delegation

`crates/actuators/src/delegate.rs`. A delegation from an owner to a receiver is kept in two
records, one locked and one not; withdrawing first moves a matured lock into the unlocked
record.

* `DelegateResourceActuator.atomic`: delegating is atomic once validated.
* `UnDelegateResourceActuator.atomic_iff`: withdrawing is atomic unless the only record is a
  lock with expiry time zero, which counts as available but is never merged; then the
  receiver's account has already been written when the unlocked record is found missing.
-/
namespace TronRs

open TronRs.Core

def blockProducedIntervalMs : Int64 := 3000
def delegatePeriodMs : Int64 := 3 * 86400000

/-- Mirrors actuators/delegate.rs:89. -/
def defaultLockPeriodBlocks : Int64 := delegatePeriodMs / blockProducedIntervalMs

/-- Mirrors actuators/delegate.rs:96. -/
def frozenV2Amount (a : Account) (resource : Int32) : Int64 :=
  ((a.frozenV2.filter (·.type = resource)).map FreezeV2.amount).foldl Int64.saturatingAdd 0

/-- Mirrors actuators/delegate.rs:107. -/
def addFrozenV2 (a : Account) (resource : Int32) (delta : Int64) : Account :=
  { a with frozenV2 := Refreeze.restake a.frozenV2 resource delta }

/-- Mirrors actuators/delegate.rs:133. -/
def addOwnerDelegated (a : Account) (resource : Int32) (delta : Int64) : Account :=
  if resource = bandwidth then
    { a with delegatedFrozenV2BalanceForBandwidth := a.delegatedFrozenV2BalanceForBandwidth + delta }
  else
    let r := a.accountResource.getD {}
    { a with accountResource := some { r with
      delegatedFrozenV2BalanceForEnergy := r.delegatedFrozenV2BalanceForEnergy + delta } }

/-- Mirrors actuators/delegate.rs:144. -/
def receiverAcquired (a : Account) (resource : Int32) : Int64 :=
  if resource = bandwidth then a.acquiredDelegatedFrozenV2BalanceForBandwidth
  else (a.accountResource.map AccountResource.acquiredDelegatedFrozenV2BalanceForEnergy).getD 0

/-- Mirrors actuators/delegate.rs:158: never below zero. -/
def addReceiverAcquired (a : Account) (resource : Int32) (delta : Int64) : Account :=
  let cur := receiverAcquired a resource
  let next := if delta < 0 ∧ cur < -delta then 0 else cur + delta
  if resource = bandwidth then { a with acquiredDelegatedFrozenV2BalanceForBandwidth := next }
  else { a with accountResource := some { a.accountResource.getD {} with
    acquiredDelegatedFrozenV2BalanceForEnergy := next } }

namespace WorldState

def getDelegation (s : WorldState) (owner receiver : Address) (lock : Bool) : Option DelegatedResource :=
  s.delegation.get (owner, receiver, lock)

def putDelegation (s : WorldState) (owner receiver : Address) (lock : Bool) (rec : DelegatedResource) :
    WorldState := { s with delegation := s.delegation.put (owner, receiver, lock) rec }

def deleteDelegation (s : WorldState) (owner receiver : Address) (lock : Bool) : WorldState :=
  { s with delegation := s.delegation.delete (owner, receiver, lock) }

end WorldState

def recFrozen (r : DelegatedResource) (resource : Int32) : Int64 :=
  if resource = bandwidth then r.frozenBalanceForBandwidth else r.frozenBalanceForEnergy

def recSetFrozen (r : DelegatedResource) (resource : Int32) (value : Int64) : DelegatedResource :=
  if resource = bandwidth then { r with frozenBalanceForBandwidth := value }
  else { r with frozenBalanceForEnergy := value }

def recExpire (r : DelegatedResource) (resource : Int32) : Int64 :=
  if resource = bandwidth then r.expireTimeForBandwidth else r.expireTimeForEnergy

def recSetExpire (r : DelegatedResource) (resource : Int32) (value : Int64) : DelegatedResource :=
  if resource = bandwidth then { r with expireTimeForBandwidth := value }
  else { r with expireTimeForEnergy := value }

def recIsEmpty (r : DelegatedResource) : Bool :=
  r.frozenBalanceForBandwidth = 0 && r.frozenBalanceForEnergy = 0

/-- Mirrors actuators/delegate.rs:264. -/
def resourceValid (resource : Int32) : Bool := resource = bandwidth || resource = energy

lemma resourceValid_iff {r : Int32} : resourceValid r = true ↔ r = bandwidth ∨ r = energy := by simp [resourceValid]

/-- An empty record between two accounts. -/
def newDelegation (owner receiver : Address) : DelegatedResource :=
  { src := owner.asBytes, dst := receiver.asBytes }

/-- The record stored again, or removed when nothing is left in it. -/
def WorldState.storeDelegation (s : WorldState) (owner receiver : Address) (lock : Bool)
    (rec : DelegatedResource) : WorldState :=
  if recIsEmpty rec then s.deleteDelegation owner receiver lock
  else s.putDelegation owner receiver lock rec

variable {res : ExecutionResult} {t : WorldState}

/-! ## Delegating -/

namespace DelegateResourceActuator

/-- Mirrors actuators/delegate.rs:403. -/
def lockPeriodBlocks (c : DelegateResourceContract) : Int64 :=
  if c.lockPeriod = 0 then defaultLockPeriodBlocks else c.lockPeriod

/-- The checks of a locked delegation. -/
def checkLock (c : DelegateResourceContract) (s : WorldState) (owner receiver : Address) : Check Unit := do
  let lockPeriod := lockPeriodBlocks c
  ensure (0 ≤ lockPeriod) (invalid "The lock period of delegate resource cannot be less than 0")
  match s.getDelegation owner receiver true with
  | some existing =>
    let now := s.getProp .latestBlockHeaderTimestamp
    let remain := recExpire existing c.resource - now
    ensure (remain ≤ lockPeriod * blockProducedIntervalMs)
      (invalid ("The lock period this time cannot be less than the remaining time of the " ++
        "last lock period"))
  | none => pure ()

/-- Mirrors actuators/delegate.rs:280. -/
def validate (c : DelegateResourceContract) (s : WorldState) : Check Int64 := do
  let owner ← parseAddress c.ownerAddress "Invalid address"
  let shown := hex c.ownerAddress
  let ownerAccount ← orThrow (s.getAccount owner) (invalid s!"Account[{shown}] does not exist")
  ensure (trxPrecision ≤ c.balance) (invalid "delegateBalance must be greater than or equal to 1 TRX")
  ensure (resourceValid c.resource)
    (invalid "ResourceCode error, valid ResourceCode[BANDWIDTH, ENERGY]")
  let name := if c.resource = bandwidth then "FreezeBandwidthV2" else "FreezeEnergyV2"
  ensure (c.balance ≤ frozenV2Amount ownerAccount c.resource)
    (invalid s!"delegateBalance must be less than or equal to available {name} balance")
  let receiver ← parseAddress c.receiverAddress "Invalid receiverAddress"
  ensure (receiver ≠ owner) (invalid "receiverAddress must not be the same as ownerAddress")
  let shown := hex c.receiverAddress
  let receiverAccount ← orThrow (s.getAccount receiver) (invalid s!"Account[{shown}] does not exist")
  if c.lock then checkLock c s owner receiver
  ensure (receiverAccount.type ≠ accountTypeContract)
    (invalid "Do not allow delegate resources to contract addresses")
  pure 0

/-- Mirrors actuators/delegate.rs:358. -/
def execute (c : DelegateResourceContract) : Act ExecutionResult := do
  let owner ← lift (parseAddress c.ownerAddress "Invalid address")
  let receiver ← lift (parseAddress c.receiverAddress "Invalid receiverAddress")
  let now := (← get).getProp .latestBlockHeaderTimestamp
  let ownerAccount ← orThrow ((← get).getAccount owner) (failed "owner account missing")
  let ownerAccount := addFrozenV2 ownerAccount c.resource (-c.balance)
  modify (·.putAccount owner (addOwnerDelegated ownerAccount c.resource c.balance))
  let receiverAccount ← orThrow ((← get).getAccount receiver) (failed "receiver account missing")
  modify (·.putAccount receiver (addReceiverAcquired receiverAccount c.resource c.balance))
  let expire := if c.lock then now + lockPeriodBlocks c * blockProducedIntervalMs else 0
  let rec' := ((← get).getDelegation owner receiver c.lock).getD (newDelegation owner receiver)
  let rec' := recSetFrozen rec' c.resource (recFrozen rec' c.resource + c.balance)
  modify (·.putDelegation owner receiver c.lock (recSetExpire rec' c.resource expire))
  pure ⟨0⟩

variable {c : DelegateResourceContract} {s : WorldState} {v : Int64}

lemma validate_ok (h : validate c s = .ok v) : v = 0 ∧
    ∃ owner receiver x y, Address.ofBytes c.ownerAddress = some owner ∧
      Address.ofBytes c.receiverAddress = some receiver ∧ receiver ≠ owner ∧
      s.getAccount owner = some x ∧ s.getAccount receiver = some y := by
  simp only [validate, check_rules, parseAddress_eq_ok] at h
  obtain ⟨owner, ho, x, hx, -, -, -, -, -, -, receiver, hr, -, hne, y, hy, h⟩ := h
  refine ⟨?_, owner, receiver, x, y, ho, hr, hne, hx, hy⟩
  split at h
  · simp only [check_rules] at h; obtain ⟨-, -, -, -, h⟩ := h; exact h.symm
  · simp only [check_rules] at h; obtain ⟨-, -, h⟩ := h; exact h.symm

lemma executes (hv : validate c s = .ok v) : ∃ t, execute c s = .ok ⟨v⟩ t := by
  obtain ⟨rfl, owner, receiver, x, y, ho, hr, hne, hx, hy⟩ := validate_ok hv
  rw [exists_ok_iff]
  simp [execute, parseAddress_ok ho, parseAddress_ok hr, hx,
    getAccount_putAccount_of_ne _ _ hne, hy]

lemma atomic (hv : validate c s = .ok v) : Atomic (execute c) s := by
  obtain ⟨t, ht⟩ := executes hv; exact atomic_of_ok ht

lemma execute_ok (h : execute c s = .ok res t) :
    ∃ owner receiver x y z rec expire, Address.ofBytes c.ownerAddress = some owner ∧
      Address.ofBytes c.receiverAddress = some receiver ∧ s.getAccount owner = some x ∧
      y = addOwnerDelegated (addFrozenV2 x c.resource (-c.balance)) c.resource c.balance ∧
      (s.putAccount owner y).getAccount receiver = some z ∧
      rec = (s.getDelegation owner receiver c.lock).getD (newDelegation owner receiver) ∧ expire = (if c.lock then
        s.getProp .latestBlockHeaderTimestamp + lockPeriodBlocks c * blockProducedIntervalMs else 0) ∧
      t = ((s.putAccount owner y).putAccount receiver (addReceiverAcquired z c.resource c.balance)).putDelegation owner
        receiver c.lock (recSetExpire (recSetFrozen rec c.resource (recFrozen rec c.resource + c.balance)) c.resource
          expire) := by
  apply ok_elim h; simp only [execute, ok_rules]; intro owner ho receiver hr x hx z hz
  exact ⟨owner, receiver, x, _, z, _, _, parseAddress_eq_ok.mp ho, parseAddress_eq_ok.mp hr, hx, rfl, hz, rfl, rfl, rfl⟩

end DelegateResourceActuator

def delegateResourceActuator : Actuator DelegateResourceContract :=
  ⟨DelegateResourceActuator.validate, DelegateResourceActuator.execute⟩

/-! ## Withdrawing a delegation -/

variable (lock : Bool)

lemma account_storeDelegation (s : WorldState) (owner receiver : Address) (lock : Bool) (rec : DelegatedResource) :
    (s.storeDelegation owner receiver lock rec).account = s.account := by
  unfold WorldState.storeDelegation; split <;> rfl

namespace UnDelegateResourceActuator

/-- What `validate` counts as available: the unlocked record, and a lock that expires before
now. -/
def available (unlock lock : Option DelegatedResource) (resource : Int32) (now : Int64) : Int64 :=
  let fromUnlock := (unlock.map (recFrozen · resource)).getD 0
  match lock with
  | some l => if recExpire l resource < now then fromUnlock + recFrozen l resource else fromUnlock
  | none => fromUnlock

/-- Mirrors actuators/delegate.rs:424. -/
def validate (c : UnDelegateResourceContract) (s : WorldState) : Check Int64 := do
  let owner ← parseAddress c.ownerAddress "Invalid address"
  let shown := hex c.ownerAddress
  let _ ← orThrow (s.getAccount owner) (invalid s!"Account[{shown}] does not exist")
  let receiver ← parseAddress c.receiverAddress "Invalid receiverAddress"
  ensure (receiver ≠ owner) (invalid "receiverAddress must not be the same as ownerAddress")
  let now := s.getProp .latestBlockHeaderTimestamp
  let unlock := s.getDelegation owner receiver false
  let lock := s.getDelegation owner receiver true
  ensure (unlock.isSome ∨ lock.isSome) (invalid "delegated Resource does not exist")
  let balance := c.balance
  ensure (0 < balance) (invalid "unDelegateBalance must be more than 0 TRX")
  ensure (resourceValid c.resource)
    (invalid "ResourceCode error, valid ResourceCode[BANDWIDTH, ENERGY]")
  let total := available unlock lock c.resource now
  let name := if c.resource = bandwidth then "BANDWIDTH" else "Energy"
  ensure (balance ≤ total)
    (invalid (s!"insufficient delegatedFrozenBalance({name}), request={balance}, " ++
      s!"unlock_balance={total}"))
  pure 0

/-- Moves a matured lock into the unlocked record. Mirrors actuators/delegate.rs:525. -/
def mergeExpiredLock (s : WorldState) (owner receiver : Address) (resource : Int32) (now : Int64) : WorldState :=
  match s.getDelegation owner receiver true with
  | none => s
  | some lock =>
    let expire := recExpire lock resource
    let locked := recFrozen lock resource
    if locked = 0 ∨ expire = 0 ∨ now ≤ expire then s
    else
      let unlock := (s.getDelegation owner receiver false).getD (newDelegation owner receiver)
      let merged := recFrozen unlock resource + locked
      let s := s.putDelegation owner receiver false (recSetFrozen unlock resource merged)
      s.storeDelegation owner receiver true (recSetExpire (recSetFrozen lock resource 0) resource 0)

/-- What the receiver has acquired goes down; a missing receiver is skipped. -/
def releaseReceiver (s : WorldState) (receiver : Address) (resource : Int32) (balance : Int64) : WorldState :=
  match s.getAccount receiver with
  | some a => s.putAccount receiver (addReceiverAcquired a resource (-balance))
  | none => s

/-- Mirrors actuators/delegate.rs:482. -/
def execute (c : UnDelegateResourceContract) : Act ExecutionResult := do
  let owner ← lift (parseAddress c.ownerAddress "Invalid address")
  let receiver ← lift (parseAddress c.receiverAddress "Invalid receiverAddress")
  let now := (← get).getProp .latestBlockHeaderTimestamp
  modify (mergeExpiredLock · owner receiver c.resource now)
  modify (releaseReceiver · receiver c.resource c.balance)
  let unlock ← orThrow ((← get).getDelegation owner receiver false) (failed "unlocked delegation missing")
  let unlock := recSetFrozen unlock c.resource (recFrozen unlock c.resource - c.balance)
  modify (·.storeDelegation owner receiver false unlock)
  let ownerAccount ← orThrow ((← get).getAccount owner) (failed "owner account missing")
  let ownerAccount := addOwnerDelegated ownerAccount c.resource (-c.balance)
  modify (·.putAccount owner (addFrozenV2 ownerAccount c.resource c.balance))
  pure ⟨0⟩

variable {c : UnDelegateResourceContract} {s : WorldState} {owner receiver : Address} {resource : Int32}
variable {now balance : Int64} (rec : DelegatedResource)

lemma validate_ok {v : Int64} (h : validate c s = .ok v) : v = 0 ∧
    ∃ owner receiver x, Address.ofBytes c.ownerAddress = some owner ∧
      Address.ofBytes c.receiverAddress = some receiver ∧ receiver ≠ owner ∧
      s.getAccount owner = some x ∧ 0 < c.balance ∧
      c.balance ≤ available (s.getDelegation owner receiver false) (s.getDelegation owner receiver true)
        c.resource (s.getProp .latestBlockHeaderTimestamp) := by
  simp only [validate, check_rules, parseAddress_eq_ok] at h
  obtain ⟨owner, ho, x, hx, receiver, hr, -, hne, -, -, -, hp, -, -, -, hle, rfl⟩ := h
  exact ⟨rfl, owner, receiver, x, ho, hr, hne, hx, hp, hle⟩

lemma execute_ok (h : execute c s = .ok res t) : ∃ owner receiver u x m, Address.ofBytes c.ownerAddress = some owner ∧
      Address.ofBytes c.receiverAddress = some receiver ∧
      m = releaseReceiver (mergeExpiredLock s owner receiver c.resource (s.getProp .latestBlockHeaderTimestamp))
        receiver c.resource c.balance ∧ m.getDelegation owner receiver false = some u ∧
      (m.storeDelegation owner receiver false
        (recSetFrozen u c.resource (recFrozen u c.resource - c.balance))).getAccount owner = some x ∧
      t = (m.storeDelegation owner receiver false
        (recSetFrozen u c.resource (recFrozen u c.resource - c.balance))).putAccount owner
          (addFrozenV2 (addOwnerDelegated x c.resource (-c.balance)) c.resource c.balance) := by
  apply ok_elim h; simp only [execute, ok_rules]; intro owner ho receiver hr u hu x hx
  exact ⟨owner, receiver, u, x, _, parseAddress_eq_ok.mp ho, parseAddress_eq_ok.mp hr, rfl, hu, hx, rfl⟩

/-- Nothing happens, or the lock has expired and its amount moves to the unlocked record. -/
lemma mergeExpiredLock_cases (s : WorldState) (owner receiver : Address) (resource : Int32) (now : Int64) :
    (∀ lock, s.getDelegation owner receiver true = some lock →
        recFrozen lock resource = 0 ∨ recExpire lock resource = 0 ∨ now ≤ recExpire lock resource) ∧
      mergeExpiredLock s owner receiver resource now = s ∨ ∃ lock unlock,
      s.getDelegation owner receiver true = some lock ∧
      unlock = (s.getDelegation owner receiver false).getD (newDelegation owner receiver) ∧
      ¬ (recFrozen lock resource = 0 ∨ recExpire lock resource = 0 ∨ now ≤ recExpire lock resource) ∧
      mergeExpiredLock s owner receiver resource now = (s.putDelegation owner receiver false
          (recSetFrozen unlock resource (recFrozen unlock resource + recFrozen lock resource))).storeDelegation
            owner receiver true (recSetExpire (recSetFrozen lock resource 0) resource 0) := by
  unfold mergeExpiredLock
  cases hlock : s.getDelegation owner receiver true with
  | none => exact .inl ⟨by simp, rfl⟩
  | some lock =>
    dsimp only
    split
    · rename_i hstay; exact .inl ⟨fun l hl => Option.some.inj hl ▸ hstay, rfl⟩
    · rename_i hmerge; exact .inr ⟨lock, _, rfl, rfl, hmerge, rfl⟩

lemma account_mergeExpiredLock : (mergeExpiredLock s owner receiver resource now).account = s.account := by
  rcases mergeExpiredLock_cases s owner receiver resource now with ⟨-, h⟩ | ⟨lock, unlock, -, -, -, h⟩
  · rw [h]
  · rw [h, account_storeDelegation]; rfl

lemma getDelegation_storeDelegation_true :
    (s.storeDelegation owner receiver true rec).getDelegation owner receiver false =
      s.getDelegation owner receiver false := by
  have hne : (owner, receiver, false) ≠ (owner, receiver, true) := by simp
  unfold WorldState.storeDelegation
  split
  · exact get_delete_of_ne hne
  · exact get_put_of_ne hne

variable (resource now) in
/-- An unlocked record stays, and a lock that qualifies is merged into one. -/
lemma getDelegation_mergeExpiredLock (h : (∃ u, s.getDelegation owner receiver false = some u) ∨
      ∃ l, s.getDelegation owner receiver true = some l ∧ recFrozen l resource ≠ 0 ∧
        recExpire l resource ≠ 0 ∧ recExpire l resource < now) :
    ∃ u, (mergeExpiredLock s owner receiver resource now).getDelegation owner receiver false = some u := by
  rcases mergeExpiredLock_cases s owner receiver resource now with ⟨hstay, heq⟩ | ⟨lock, unlock, -, -, -, heq⟩
  · rw [heq]
    rcases h with hu | ⟨l, hl, h0, he, hlt⟩
    · exact hu
    rw [lt_iff_toInt_lt] at hlt
    rcases hstay l hl with h1 | h1 | h1
    · exact absurd h1 h0
    · exact absurd h1 he
    · rw [le_iff_toInt_le] at h1; omega
  · rw [heq, getDelegation_storeDelegation_true]; exact ⟨_, get_put_self ..⟩

lemma getDelegation_releaseReceiver : (releaseReceiver s receiver resource balance).getDelegation owner receiver lock =
      s.getDelegation owner receiver lock := by
  unfold releaseReceiver; split <;> rfl

lemma getAccount_releaseReceiver (hne : receiver ≠ owner) :
    (releaseReceiver s receiver resource balance).getAccount owner = s.getAccount owner := by
  unfold releaseReceiver
  split
  · exact getAccount_putAccount_of_ne _ _ hne.symm
  · rfl

lemma releaseReceiver_eq_self : releaseReceiver s receiver resource balance = s ↔
    ∀ a, s.getAccount receiver = some a → addReceiverAcquired a resource (-balance) = a := by
  unfold releaseReceiver
  cases ha : s.getAccount receiver with
  | none => simp
  | some a =>
    dsimp only
    constructor
    · intro h a' ha'; cases ha'; have h1 := congrArg (fun t => WorldState.getAccount t receiver) h
      simpa [ha] using h1
    · intro h; rw [h a rfl]; have hp : s.account.put receiver a = s.account := Column.put_get ha
      simp [WorldState.putAccount, hp]

/-- The lock that is counted as available but never merged: it has expiry time zero. The
withdrawal then stops after taking the amount from the receiver. -/
def LockMerges (c : UnDelegateResourceContract) (s : WorldState) : Prop :=
  ∀ owner receiver lock a, Address.ofBytes c.ownerAddress = some owner →
    Address.ofBytes c.receiverAddress = some receiver →
    s.getDelegation owner receiver false = none → s.getDelegation owner receiver true = some lock →
    recExpire lock c.resource = 0 → s.getAccount receiver = some a →
    addReceiverAcquired a c.resource (-c.balance) = a

/-- A lock that is all there is to withdraw from has an expiry time. -/
def LockDated (c : UnDelegateResourceContract) (s : WorldState) : Prop :=
  ∀ owner receiver lock, Address.ofBytes c.ownerAddress = some owner →
    Address.ofBytes c.receiverAddress = some receiver → s.getDelegation owner receiver false = none →
    s.getDelegation owner receiver true = some lock → recExpire lock c.resource ≠ 0

/-- Validation leaves two cases: there is an unlocked record once the lock is merged, or there is only a lock without
expiry time. -/
lemma unlocked_or_undated (ho : Address.ofBytes c.ownerAddress = some owner)
    (hr : Address.ofBytes c.receiverAddress = some receiver) (hp : 0 < c.balance)
    (hle : c.balance ≤ available (s.getDelegation owner receiver false) (s.getDelegation owner receiver true)
      c.resource (s.getProp .latestBlockHeaderTimestamp)) : ((∃ u, (mergeExpiredLock s owner receiver c.resource
        (s.getProp .latestBlockHeaderTimestamp)).getDelegation owner receiver false = some u) ∧ LockDated c s) ∨
      (s.getDelegation owner receiver false = none ∧
        ∃ l, s.getDelegation owner receiver true = some l ∧ recExpire l c.resource = 0) := by
  rw [Int64.pos_iff] at hp; rw [le_iff_toInt_le] at hle
  cases hu : s.getDelegation owner receiver false with
  | some u =>
    refine .inl ⟨getDelegation_mergeExpiredLock _ _ (.inl ⟨u, hu⟩), fun o r l ho' hr' hn => ?_⟩
    cases ho.symm.trans ho'; cases hr.symm.trans hr'; rw [hu] at hn
    cases hn
  | none =>
    -- only a lock is left, so it is what made the balance available
    rw [hu] at hle
    cases hl : s.getDelegation owner receiver true with
    | none =>
      rw [hl] at hle; simp only [available, Option.map_none, Option.getD_none, toInt_zero] at hle; omega
    | some l =>
      rw [hl] at hle; simp only [available, Option.map_none, Option.getD_none, Int64.zero_add] at hle
      split at hle
      · rename_i hexp
        have h0 : recFrozen l c.resource ≠ 0 := by intro h; rw [h, toInt_zero] at hle; omega
        by_cases he : recExpire l c.resource = 0
        · exact .inr ⟨rfl, l, rfl, he⟩
        · refine .inl ⟨getDelegation_mergeExpiredLock _ _ (.inr ⟨l, hl, h0, he, hexp⟩), fun o r l' ho' hr' _ hl' => ?_⟩
          cases ho.symm.trans ho'; cases hr.symm.trans hr'; cases hl.symm.trans hl'
          exact he
      · rw [toInt_zero] at hle; omega

lemma mergeExpiredLock_undated {l : DelegatedResource} (hl : s.getDelegation owner receiver true = some l)
    (he : recExpire l resource = 0) : mergeExpiredLock s owner receiver resource now = s := by
  simp [mergeExpiredLock, hl, he]

/-- Once there is an unlocked record to take from, nothing fails. -/
lemma executes_of_unlocked {x : Account} {u : DelegatedResource} (ho : Address.ofBytes c.ownerAddress = some owner)
    (hr : Address.ofBytes c.receiverAddress = some receiver) (hne : receiver ≠ owner)
    (hx : s.getAccount owner = some x) (hu : (mergeExpiredLock s owner receiver c.resource
      (s.getProp .latestBlockHeaderTimestamp)).getDelegation owner receiver false = some u) :
    ∃ t, execute c s = .ok ⟨0⟩ t := by
  have hacc : ∀ t : WorldState, ∀ rec, (t.storeDelegation owner receiver false rec).getAccount owner =
      t.getAccount owner := fun t rec => by
    unfold WorldState.storeDelegation; split <;> rfl
  have hget : (mergeExpiredLock s owner receiver c.resource
      (s.getProp .latestBlockHeaderTimestamp)).getAccount owner = some x := by
    rw [WorldState.getAccount, account_mergeExpiredLock]; exact hx
  rw [exists_ok_iff]
  simp [execute, parseAddress_ok ho, parseAddress_ok hr, getDelegation_releaseReceiver,
    hu, hacc, getAccount_releaseReceiver hne, hget]

lemma executes_iff {v : Int64} (hv : validate c s = .ok v) : (∃ t, execute c s = .ok ⟨v⟩ t) ↔ LockDated c s := by
  obtain ⟨rfl, owner, receiver, x, ho, hr, hne, hx, hp, hle⟩ := validate_ok hv
  rcases unlocked_or_undated ho hr hp hle with ⟨⟨u, hu⟩, hdated⟩ | ⟨hu, l, hl, he⟩
  · exact iff_of_true (executes_of_unlocked ho hr hne hx hu) hdated
  refine iff_of_false ?_ fun h => h owner receiver l ho hr hu hl he
  rw [exists_ok_iff]
  simp [execute, parseAddress_ok ho, parseAddress_ok hr, mergeExpiredLock_undated hl he,
    getDelegation_releaseReceiver, hu]

lemma atomic_iff {v : Int64} (hv : validate c s = .ok v) : Atomic (execute c) s ↔ LockMerges c s := by
  obtain ⟨-, owner, receiver, x, ho, hr, hne, hx, hp, hle⟩ := validate_ok hv
  rcases unlocked_or_undated ho hr hp hle with ⟨⟨u, hu⟩, hdated⟩ | ⟨hu, l, hl, he⟩
  · obtain ⟨t, ht⟩ := executes_of_unlocked ho hr hne hx hu
    exact iff_of_true (atomic_of_ok ht) fun o r l a ho' hr' hn hl' he => absurd he (hdated o r l ho' hr' hn hl')
  have hcond : LockMerges c s ↔ releaseReceiver s receiver c.resource c.balance = s := by
    rw [releaseReceiver_eq_self]
    constructor
    · intro h a ha; exact h owner receiver l a ho hr hu hl he ha
    · intro h o r l' a ho' hr' _ _ _ ha; cases hr.symm.trans hr'; exact h a ha
  rw [hcond]
  constructor
  · intro hat; by_contra hd; refine not_atomic_of_wp ?_ hat
    simp [execute, parseAddress_ok ho, parseAddress_ok hr, mergeExpiredLock_undated hl he,
      getDelegation_releaseReceiver, hu, hd, failed]
  · intro hd; apply atomic_of_wp
    simp [execute, parseAddress_ok ho, parseAddress_ok hr, mergeExpiredLock_undated hl he, hu, hd]

end UnDelegateResourceActuator

def unDelegateResourceActuator : Actuator UnDelegateResourceContract :=
  ⟨UnDelegateResourceActuator.validate, UnDelegateResourceActuator.execute⟩

end TronRs

import TronRs.L3Actuators.Assets

/-!
# Witnesses, votes and proposals

`crates/actuators/src/witness.rs`, `vote.rs`, `withdraw.rs`, `brokerage.rs` and `proposal.rs`.
All atomic; registering a witness stores the witness before it takes the fee, so there it is
validation that rules the late errors out (`WitnessCreateActuator.atomic`).
-/
namespace TronRs

open TronRs.Core

/-! ## Witnesses -/

def defaultAccountUpgradeCost : Int64 := 9999000000

/-- Mirrors actuators/witness.rs:103. -/
def accountUpgradeCost (s : WorldState) : Int64 :=
  positiveOr (s.getProp .accountUpgradeCost) defaultAccountUpgradeCost

namespace WitnessCreateActuator
variable {c : WitnessCreateContract} {s : WorldState} {v : Int64}

/-- Mirrors actuators/witness.rs:123. -/
def validate (c : WitnessCreateContract) (s : WorldState) : Check Int64 := do
  let owner ← parseAddress c.ownerAddress "Invalid address"
  ensure (validUrl c.url) (invalid "Invalid url")
  let shown := hex owner.asBytes
  let account ← orThrow (s.getAccount owner) (invalid s!"account[{shown}] not exists")
  ensure (s.witnessExists owner = false) (invalid s!"Witness[{shown}] has existed")
  let cost := accountUpgradeCost s
  ensure (cost ≤ account.balance) (invalid "balance < AccountUpgradeCost")
  pure cost

/-- Mirrors actuators/witness.rs:150. -/
def execute (c : WitnessCreateContract) : Act ExecutionResult := do
  let owner ← lift (parseAddress c.ownerAddress "Invalid address")
  let cost := accountUpgradeCost (← get)
  modify (·.putWitness { address := owner.asBytes, url := Bytes.utf8Lossy c.url, isJobs := true })
  let account ← orThrow ((← get).getAccount owner) (failed "owner account missing")
  let balance ← orThrow (debit account.balance cost) (failed "balance is not sufficient")
  modify (·.putAccount owner { account with isWitness := true, balance })
  modify (·.burnTrx cost)
  pure ⟨cost⟩

lemma validate_ok (h : validate c s = .ok v) :
    v = accountUpgradeCost s ∧ ∃ owner account, Address.ofBytes c.ownerAddress = some owner ∧
    s.getAccount owner = some account ∧
      accountUpgradeCost s ≤ account.balance := by
  simp only [validate, check_rules, parseAddress_eq_ok] at h
  obtain ⟨owner, ho, -, -, account, ha, -, -, -, hc, rfl⟩ := h
  exact ⟨rfl, owner, account, ho, ha, hc⟩

lemma executes (hv : validate c s = .ok v) : ∃ t, execute c s = .ok ⟨v⟩ t := by
  obtain ⟨rfl, owner, account, ho, ha, hc⟩ := validate_ok hv
  have hpos : 0 < (accountUpgradeCost s).toInt := positiveOr_pos (by decide)
  obtain ⟨b, hb⟩ := exists_debit_of_le (by omega) (le_iff_toInt_le.mp hc)
  have hget : ∀ w, (s.putWitness w).getAccount owner = some account := fun _ => ha
  rw [exists_ok_iff]; simp [execute, parseAddress_ok ho, hget, hb]

lemma atomic (hv : validate c s = .ok v) : Atomic (execute c) s := by
  obtain ⟨t, ht⟩ := executes hv; exact atomic_of_ok ht

end WitnessCreateActuator

def witnessCreateActuator : Actuator WitnessCreateContract :=
  ⟨WitnessCreateActuator.validate, WitnessCreateActuator.execute⟩

namespace WitnessUpdateActuator

/-- Mirrors actuators/witness.rs:199. -/
def validate (c : WitnessUpdateContract) (s : WorldState) : Check Int64 := do
  let owner ← parseAddress c.ownerAddress "Invalid address"
  ensure (s.accountExists owner) (invalid "account does not exist")
  ensure (validUrl c.updateUrl) (invalid "Invalid url")
  ensure (s.witnessExists owner) (invalid "Witness does not exist")
  pure 0

/-- Mirrors actuators/witness.rs:218. -/
def execute (c : WitnessUpdateContract) : Act ExecutionResult := do
  let owner ← lift (parseAddress c.ownerAddress "Invalid address")
  let witness ← orThrow ((← get).getWitness owner) (failed "Witness does not exist")
  modify (·.putWitness { witness with url := Bytes.utf8Lossy c.updateUrl })
  pure ⟨0⟩

lemma atomic (c : WitnessUpdateContract) (s : WorldState) : Atomic (execute c) s := by
  apply atomic_of_wp; simp [execute]

lemma executes {c : WitnessUpdateContract} {s : WorldState} {v : Int64} (hv : validate c s = .ok v) :
    ∃ t, execute c s = .ok ⟨v⟩ t := by
  simp only [validate, check_rules, parseAddress_eq_ok] at hv
  obtain ⟨owner, ho, -, -, -, -, -, hw, rfl⟩ := hv
  obtain ⟨w, hw⟩ := Option.isSome_iff_exists.mp hw
  rw [exists_ok_iff]; simp [execute, parseAddress_ok ho, WorldState.getWitness, hw]

end WitnessUpdateActuator

def witnessUpdateActuator : Actuator WitnessUpdateContract :=
  ⟨WitnessUpdateActuator.validate, WitnessUpdateActuator.execute⟩

namespace UpdateBrokerageActuator

/-- Mirrors actuators/brokerage.rs:32. -/
def validate (c : UpdateBrokerageContract) (s : WorldState) : Check Int64 := do
  requireFeature s .changeDelegation "contract type error, unexpected type [UpdateBrokerageContract]"
  let owner ← parseAddress c.ownerAddress "Invalid address"
  ensure (0 ≤ c.brokerage ∧ c.brokerage ≤ 100) (invalid "brokerage must be in the range of [0, 100]")
  let shown := hex owner.asBytes
  ensure (s.witnessExists owner) (invalid s!"Account[{shown}] is not a witness")
  pure 0

/-- Mirrors actuators/brokerage.rs:59. -/
def execute (c : UpdateBrokerageContract) : Act ExecutionResult := do
  let owner ← lift (parseAddress c.ownerAddress "Invalid address")
  modify (·.putBrokerage owner c.brokerage.toInt64)
  pure ⟨0⟩

lemma atomic (c : UpdateBrokerageContract) (s : WorldState) : Atomic (execute c) s := by
  apply atomic_of_wp; simp [execute]

lemma executes {c : UpdateBrokerageContract} {s : WorldState} {v : Int64} (hv : validate c s = .ok v) :
    ∃ t, execute c s = .ok ⟨v⟩ t := by
  simp only [validate, check_rules, parseAddress_eq_ok] at hv
  obtain ⟨-, -, owner, ho, -, -, -, -, rfl⟩ := hv
  rw [exists_ok_iff]; simp [execute, parseAddress_ok ho]

end UpdateBrokerageActuator

def updateBrokerageActuator : Actuator UpdateBrokerageContract :=
  ⟨UpdateBrokerageActuator.validate, UpdateBrokerageActuator.execute⟩

/-! ## Votes and allowances -/

def maxVoteNumber : Nat := 30

/-- Mirrors actuators/vote.rs:132. -/
def tronPowerSun (a : Account) : Int64 := (a.frozenV2.map FreezeV2.amount).foldl Int64.saturatingAdd 0

namespace VoteWitnessActuator

/-- The loop of `validate`: every vote is for a witness, and the counts add up. -/
def sumVotes (s : WorldState) : Int64 → List Vote → Check Int64
  | sum, [] => pure sum
  | sum, v :: vs => do
    let witness ← parseAddress v.voteAddress "Invalid vote address!"
    ensure (0 < v.voteCount) (invalid "vote count must be greater than 0")
    let shown := hex v.voteAddress
    ensure (s.witnessExists witness) (invalid s!"Witness[{shown}] not exists")
    let sum ← orThrow (sum.checkedAdd v.voteCount) (invalid "long overflow")
    sumVotes s sum vs

/-- Mirrors actuators/vote.rs:56. -/
def validate (c : VoteWitnessContract) (s : WorldState) : Check Int64 := do
  let owner ← parseAddress c.ownerAddress "Invalid address"
  ensure (c.votes ≠ []) (invalid "VoteNumber must more than 0")
  ensure (c.votes.length ≤ maxVoteNumber) (invalid s!"VoteNumber more than maxVoteNumber {maxVoteNumber}")
  let sum ← sumVotes s 0 c.votes
  let shown := hex c.ownerAddress
  let ownerAccount ← orThrow (s.getAccount owner) (invalid s!"Account[{shown}] not exists")
  let power := tronPowerSun ownerAccount
  let scaled ← orThrow (sum.checkedMul 1000000) (invalid "long overflow")
  ensure (scaled ≤ power)
    (invalid s!"The total number of votes[{scaled}] is greater than the tronPower[{power}]")
  pure 0

/-- Mirrors actuators/vote.rs:106. -/
def execute (c : VoteWitnessContract) : Act ExecutionResult := do
  let owner ← lift (parseAddress c.ownerAddress "Invalid address")
  let account ← orThrow ((← get).getAccount owner) (failed "owner account missing")
  modify (·.putAccount owner { account with votes := c.votes })
  pure ⟨0⟩

lemma atomic (c : VoteWitnessContract) (s : WorldState) : Atomic (execute c) s := by
  apply atomic_of_wp; simp [execute]

lemma executes {c : VoteWitnessContract} {s : WorldState} {v : Int64} (hv : validate c s = .ok v) :
    ∃ t, execute c s = .ok ⟨v⟩ t := by
  simp only [validate, check_rules, parseAddress_eq_ok] at hv
  obtain ⟨owner, ho, -, -, -, -, -, -, x, hx, -, -, -, -, rfl⟩ := hv
  rw [exists_ok_iff]; simp [execute, parseAddress_ok ho, hx]

end VoteWitnessActuator

def voteWitnessActuator : Actuator VoteWitnessContract :=
  ⟨VoteWitnessActuator.validate, VoteWitnessActuator.execute⟩

namespace WithdrawBalanceActuator

def withdrawIntervalMs : Int64 := 86400000

/-- Mirrors actuators/withdraw.rs:33. -/
def validate (c : OwnerOnly) (s : WorldState) : Check Int64 := do
  let owner ← parseAddress c.ownerAddress "Invalid address"
  let account ← orThrow (s.getAccount owner) (invalid "Account does not exist")
  ensure (0 < account.allowance) (invalid "witnessAccount does not have any allowance")
  let now := s.getProp .latestBlockHeaderTimestamp
  ensure (withdrawIntervalMs ≤ now - account.latestWithdrawTime)
    (invalid "The last withdraw time is less than 24 hours")
  pure 0

/-- Mirrors actuators/withdraw.rs:50. -/
def execute (c : OwnerOnly) : Act ExecutionResult := do
  let owner ← lift (parseAddress c.ownerAddress "Invalid address")
  let now := (← get).getProp .latestBlockHeaderTimestamp
  let account ← orThrow ((← get).getAccount owner) (failed "owner account missing")
  let balance ← orThrow (account.balance.checkedAdd account.allowance) (failed "long overflow")
  modify (·.putAccount owner { account with balance, allowance := 0, latestWithdrawTime := now })
  pure ⟨0⟩

lemma atomic (c : OwnerOnly) (s : WorldState) : Atomic (execute c) s := by
  apply atomic_of_wp; simp [execute]

/-- The balance has room for the allowance. -/
def AllowanceFits (c : OwnerOnly) (s : WorldState) : Prop :=
  AtAccount s c.ownerAddress fun x => Int64.Fits (x.balance.toInt + x.allowance.toInt)

lemma executes_iff {c : OwnerOnly} {s : WorldState} {v : Int64} (hv : validate c s = .ok v) :
    (∃ t, execute c s = .ok ⟨v⟩ t) ↔ AllowanceFits c s := by
  simp only [validate, check_rules, parseAddress_eq_ok] at hv
  obtain ⟨owner, ho, x, hx, -, -, -, -, rfl⟩ := hv
  rw [exists_ok_iff, AllowanceFits, atAccount_iff ho hx]
  simp [execute, parseAddress_ok ho, hx, Int64.exists_checkedAdd]

end WithdrawBalanceActuator

def withdrawBalanceActuator : Actuator OwnerOnly :=
  ⟨WithdrawBalanceActuator.validate, WithdrawBalanceActuator.execute⟩

/-! ## Proposals -/

def maintenanceTimeIntervalMs : Int64 := 6 * 3600 * 1000

/-- Mirrors actuators/proposal.rs:65: the parameter ids 0 to 26. -/
def allowedParamId (id : Int64) : Bool := 0 ≤ id && id ≤ 26

namespace WorldState

def getProposal (s : WorldState) (id : Int64) : Option Proposal := s.proposal.get id

def putProposal (s : WorldState) (p : Proposal) : WorldState :=
  { s with proposal := s.proposal.put p.proposalId p }

end WorldState

/-- An account that exists; every proposal actuator starts with it. -/
def proposalOwner (ownerAddress : Bytes) (s : WorldState) : Check Address := do
  let owner ← parseAddress ownerAddress "Invalid address"
  let shown := hex owner.asBytes
  ensure (s.accountExists owner) (invalid s!"Account[{shown}] not exists")
  pure owner

/-- A proposal that has been created. -/
def existingProposal (id : Int64) (s : WorldState) : Check Proposal := do
  ensure (id ≤ s.getProp .latestProposalNum) (invalid s!"Proposal[{id}] not exists")
  orThrow (s.getProposal id) (invalid s!"Proposal[{id}] not exists")

/-- A proposal that can still be decided. -/
def openProposal (id : Int64) (p : Proposal) (s : WorldState) : Check Unit := do
  ensure (s.getProp .latestBlockHeaderTimestamp < p.expirationTime) (invalid s!"Proposal[{id}] expired")
  ensure (p.state ≠ proposalCanceled) (invalid s!"Proposal[{id}] canceled")

lemma proposalOwner_eq_ok {b : Bytes} {s : WorldState} {owner : Address} (h : proposalOwner b s = .ok owner) :
    Address.ofBytes b = some owner := by
  simp only [proposalOwner, check_rules, parseAddress_eq_ok] at h; obtain ⟨_, ho, -, -, rfl⟩ := h
  exact ho

lemma existingProposal_eq_ok {id : Int64} {s : WorldState} {p : Proposal} (h : existingProposal id s = .ok p) :
    s.getProposal id = some p := by
  simp only [existingProposal, check_rules] at h; obtain ⟨-, -, h⟩ := h; exact h

namespace ProposalCreateActuator

/-- Mirrors actuators/proposal.rs:134. -/
def validate (c : ProposalCreateContract) (s : WorldState) : Check Int64 := do
  let owner ← proposalOwner c.ownerAddress s
  let shown := hex owner.asBytes
  ensure (s.witnessExists owner) (invalid s!"Witness[{shown}] not exists")
  ensure (c.parameters ≠ []) (invalid "This proposal has no parameter.")
  c.parameters.forM fun (key, _) =>
    ensure (allowedParamId key) (invalid s!"Bad chain parameter id [{key}]")
  pure 0

/-- Mirrors actuators/proposal.rs:166. -/
def execute (c : ProposalCreateContract) : Act ExecutionResult := do
  let owner ← lift (parseAddress c.ownerAddress "Invalid address")
  let id := (← get).getProp .latestProposalNum + 1
  let now := (← get).getProp .latestBlockHeaderTimestamp
  let expirationTime ← orThrow (now.checkedAdd maintenanceTimeIntervalMs) (failed "long overflow")
  modify (·.putProposal {
    proposalId := id
    proposerAddress := owner.asBytes
    parameters := c.parameters
    expirationTime
    createTime := now
    state := proposalPending })
  modify (·.putProp .latestProposalNum id)
  pure ⟨0⟩

lemma atomic (c : ProposalCreateContract) (s : WorldState) : Atomic (execute c) s := by
  apply atomic_of_wp; simp [execute]

/-- The expiry time of the proposal fits. -/
def ExpiryFits (s : WorldState) : Prop :=
  Int64.Fits ((s.getProp .latestBlockHeaderTimestamp).toInt + maintenanceTimeIntervalMs.toInt)

lemma executes_iff {c : ProposalCreateContract} {s : WorldState} {v : Int64} (hv : validate c s = .ok v) :
    (∃ t, execute c s = .ok ⟨v⟩ t) ↔ ExpiryFits s := by
  simp only [validate, check_rules] at hv; obtain ⟨owner, ho, -, -, -, -, -, -, rfl⟩ := hv
  rw [exists_ok_iff, ExpiryFits]
  simp [execute, parseAddress_ok (proposalOwner_eq_ok ho), Int64.exists_checkedAdd]

end ProposalCreateActuator

def proposalCreateActuator : Actuator ProposalCreateContract :=
  ⟨ProposalCreateActuator.validate, ProposalCreateActuator.execute⟩

namespace ProposalApproveActuator

/-- Mirrors actuators/proposal.rs:207. -/
def validate (c : ProposalApproveContract) (s : WorldState) : Check Int64 := do
  let owner ← proposalOwner c.ownerAddress s
  let shown := hex owner.asBytes
  ensure (s.witnessExists owner) (invalid s!"Witness[{shown}] not exists")
  let id := c.proposalId
  let proposal ← existingProposal id s
  openProposal id proposal s
  let already := proposal.approvals.contains owner.asBytes
  if c.isAddApproval then
    ensure (already = false) (invalid s!"Witness[{shown}]has approved proposal[{id}] before")
  else
    ensure (already = true) (invalid s!"Witness[{shown}]has not approved proposal[{id}] before")
  pure 0

/-- Mirrors actuators/proposal.rs:258. -/
def execute (c : ProposalApproveContract) : Act ExecutionResult := do
  let owner ← lift (parseAddress c.ownerAddress "Invalid address")
  let id := c.proposalId
  let proposal ← orThrow ((← get).getProposal id) (failed s!"Proposal[{id}] not exists")
  let approvals := if c.isAddApproval then proposal.approvals ++ [owner.asBytes]
    else proposal.approvals.filter (· ≠ owner.asBytes)
  modify (·.putProposal { proposal with approvals })
  pure ⟨0⟩

lemma atomic (c : ProposalApproveContract) (s : WorldState) : Atomic (execute c) s := by
  apply atomic_of_wp; simp [execute]

lemma executes {c : ProposalApproveContract} {s : WorldState} {v : Int64} (hv : validate c s = .ok v) :
    ∃ t, execute c s = .ok ⟨v⟩ t := by
  simp only [validate, bind_eq_ok] at hv; obtain ⟨owner, ho, -, -, p, hp, -, -, hv⟩ := hv
  have hv0 : v = 0 := by
    split at hv
    · obtain ⟨-, -, hv⟩ := bind_eq_ok.mp hv; exact (pure_eq_ok.mp hv).symm
    · obtain ⟨-, -, hv⟩ := bind_eq_ok.mp hv; exact (pure_eq_ok.mp hv).symm
  rw [exists_ok_iff, hv0]
  simp [execute, parseAddress_ok (proposalOwner_eq_ok ho), existingProposal_eq_ok hp]

end ProposalApproveActuator

def proposalApproveActuator : Actuator ProposalApproveContract :=
  ⟨ProposalApproveActuator.validate, ProposalApproveActuator.execute⟩

namespace ProposalDeleteActuator

/-- Mirrors actuators/proposal.rs:293. -/
def validate (c : ProposalDeleteContract) (s : WorldState) : Check Int64 := do
  let owner ← proposalOwner c.ownerAddress s
  let id := c.proposalId
  let proposal ← existingProposal id s
  let shown := hex owner.asBytes
  ensure (proposal.proposerAddress = owner.asBytes)
    (invalid s!"Proposal[{id}] is not proposed by {shown}")
  openProposal id proposal s
  pure 0

/-- Mirrors actuators/proposal.rs:330. -/
def execute (c : ProposalDeleteContract) : Act ExecutionResult := do
  let id := c.proposalId
  let proposal ← orThrow ((← get).getProposal id) (failed s!"Proposal[{id}] not exists")
  modify (·.putProposal { proposal with state := proposalCanceled })
  pure ⟨0⟩

lemma atomic (c : ProposalDeleteContract) (s : WorldState) : Atomic (execute c) s := by
  apply atomic_of_wp; simp [execute]

lemma executes {c : ProposalDeleteContract} {s : WorldState} {v : Int64} (hv : validate c s = .ok v) :
    ∃ t, execute c s = .ok ⟨v⟩ t := by
  simp only [validate, check_rules] at hv; obtain ⟨-, -, p, hp, -, -, -, -, rfl⟩ := hv
  rw [exists_ok_iff]; simp [execute, existingProposal_eq_ok hp]

end ProposalDeleteActuator

def proposalDeleteActuator : Actuator ProposalDeleteContract :=
  ⟨ProposalDeleteActuator.validate, ProposalDeleteActuator.execute⟩

end TronRs

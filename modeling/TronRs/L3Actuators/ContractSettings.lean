import TronRs.L3Actuators.Base

/-!
# Settings of a deployed contract

`crates/actuators/src/update_setting.rs`, `update_energy_limit.rs` and `clear_abi.rs`. Each
lets the origin account of a contract change one field of its record; they differ in the
field, its check, the feature that gates them and the wording of their messages.
-/
namespace TronRs

open TronRs.Core

variable {s : WorldState} {missing : String} {contractAddr owner : Address} {record : SmartContract} {v : Int64}

/-- The record of a contract that `owner` deployed. -/
def ownedContract (s : WorldState) (owner contractAddr : Address) (missing : String) : Check SmartContract := do
  let record ← orThrow (s.getContract contractAddr) (invalid missing)
  let shown := hex owner.asBytes
  ensure (record.originAddress = owner.asBytes)
    (invalid s!"Account[{shown}] is not the owner of the contract")
  pure record

/-- The owner and the contract of a request; the owner's account must exist. -/
def settingParties (s : WorldState) (ownerAddress contractAddress : Bytes) (missing : String) :
    Check (Address × Address) := do
  let owner ← parseAddress ownerAddress "Invalid address"
  let contractAddr ← parseAddress contractAddress "Invalid address"
  let shown := hex owner.asBytes
  ensure (s.accountExists owner) (invalid s!"Account[{shown}] {missing}")
  pure (owner, contractAddr)

/-- Reads the record of a contract, changes it and stores it. -/
def editContract (contractAddress : Bytes) (missing : String) (f : SmartContract → SmartContract) :
    Act ExecutionResult := do
  let contractAddr ← lift (parseAddress contractAddress "Invalid address")
  let record ← orThrow ((← get).getContract contractAddr) (failed missing)
  modify (·.putContract contractAddr (f record))
  pure ⟨0⟩

lemma atomic_editContract (b : Bytes) (missing : String) (f : SmartContract → SmartContract)
    (s : WorldState) : Atomic (editContract b missing f) s := by
  apply atomic_of_wp; simp [editContract]

lemma settingParties_eq_ok {b b' : Bytes}
    (h : settingParties s b b' missing = .ok (owner, contractAddr)) : Address.ofBytes b' = some contractAddr := by
  simp only [settingParties, check_rules, parseAddress_eq_ok] at h; obtain ⟨_, -, _, hc, -, -, h⟩ := h
  cases h; exact hc

lemma ownedContract_eq_ok
    (h : ownedContract s owner contractAddr missing = .ok record) : s.getContract contractAddr = some record := by
  simp only [ownedContract, check_rules] at h; obtain ⟨_, hr, -, -, rfl⟩ := h; exact hr

lemma executes_editContract {b : Bytes} {f : SmartContract → SmartContract} (hc : Address.ofBytes b = some contractAddr)
    (hr : s.getContract contractAddr = some record) : ∃ t, editContract b missing f s = .ok ⟨0⟩ t := by
  rw [exists_ok_iff]; simp [editContract, parseAddress_ok hc, hr]

namespace UpdateSettingActuator

/-- Mirrors actuators/update_setting.rs:32. -/
def validate (c : UpdateSettingContract) (s : WorldState) : Check Int64 := do
  let (owner, contractAddr) ← settingParties s c.ownerAddress c.contractAddress "does not exist"
  ensure (0 ≤ c.consumeUserResourcePercent ∧ c.consumeUserResourcePercent ≤ 100)
    (invalid "percent not in [0, 100]")
  let _ ← ownedContract s owner contractAddr "Contract does not exist"
  pure 0

/-- Mirrors actuators/update_setting.rs:62. -/
def execute (c : UpdateSettingContract) : Act ExecutionResult :=
  editContract c.contractAddress "Contract does not exist" fun record =>
    { record with consumeUserResourcePercent := c.consumeUserResourcePercent }

lemma executes {c : UpdateSettingContract} {s : WorldState} (hv : validate c s = .ok v) :
    ∃ t, execute c s = .ok ⟨v⟩ t := by
  simp only [validate, check_rules] at hv
  obtain ⟨⟨owner, contractAddr⟩, hp, -, -, record, hr, rfl⟩ := hv
  exact executes_editContract (settingParties_eq_ok hp) (ownedContract_eq_ok hr)

end UpdateSettingActuator

def updateSettingActuator : Actuator UpdateSettingContract :=
  ⟨UpdateSettingActuator.validate, UpdateSettingActuator.execute⟩

namespace UpdateEnergyLimitActuator

/-- Mirrors actuators/update_energy_limit.rs:37. -/
def validate (c : UpdateEnergyLimitContract) (s : WorldState) : Check Int64 := do
  requireFeature s .allowTvmConstantinople
    "contract type error, unexpected type [UpdateEnergyLimitContract]"
  let (owner, contractAddr) ← settingParties s c.ownerAddress c.contractAddress "does not exist"
  ensure (0 < c.originEnergyLimit) (invalid "origin energy limit must be > 0")
  let _ ← ownedContract s owner contractAddr "Contract does not exist"
  pure 0

/-- Mirrors actuators/update_energy_limit.rs:74. -/
def execute (c : UpdateEnergyLimitContract) : Act ExecutionResult :=
  editContract c.contractAddress "Contract does not exist" fun record =>
    { record with originEnergyLimit := c.originEnergyLimit }

lemma executes {c : UpdateEnergyLimitContract} {s : WorldState} (hv : validate c s = .ok v) :
    ∃ t, execute c s = .ok ⟨v⟩ t := by
  simp only [validate, check_rules] at hv
  obtain ⟨-, -, ⟨owner, contractAddr⟩, hp, -, -, record, hr, rfl⟩ := hv
  exact executes_editContract (settingParties_eq_ok hp) (ownedContract_eq_ok hr)

end UpdateEnergyLimitActuator

def updateEnergyLimitActuator : Actuator UpdateEnergyLimitContract :=
  ⟨UpdateEnergyLimitActuator.validate, UpdateEnergyLimitActuator.execute⟩

namespace ClearAbiActuator

/-- Mirrors actuators/clear_abi.rs:40. -/
def validate (c : ClearAbiContract) (s : WorldState) : Check Int64 := do
  requireFeature s .allowTvmConstantinople "contract type error,unexpected type [ClearABIContract]"
  let (owner, contractAddr) ← settingParties s c.ownerAddress c.contractAddress "not exists"
  let _ ← ownedContract s owner contractAddr "Contract not exists"
  pure 0

/-- Mirrors actuators/clear_abi.rs:72. -/
def execute (c : ClearAbiContract) : Act ExecutionResult :=
  editContract c.contractAddress "Contract not exists" fun record => { record with abi := none }

lemma executes {c : ClearAbiContract} {s : WorldState} (hv : validate c s = .ok v) : ∃ t, execute c s = .ok ⟨v⟩ t := by
  simp only [validate, check_rules] at hv
  obtain ⟨-, -, ⟨owner, contractAddr⟩, hp, record, hr, rfl⟩ := hv
  exact executes_editContract (settingParties_eq_ok hp) (ownedContract_eq_ok hr)

end ClearAbiActuator

def clearAbiActuator : Actuator ClearAbiContract := ⟨ClearAbiActuator.validate, ClearAbiActuator.execute⟩

end TronRs

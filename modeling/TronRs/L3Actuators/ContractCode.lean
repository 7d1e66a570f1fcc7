import TronRs.L2Vm.Reads
import TronRs.L3Actuators.ChainStore

/-!
# The code of deployed contracts

Code is written in two places only: a deployment stores the code its constructor returned, and a
flush removes the code of the contracts that destroyed themselves. Nothing checks that the
address of a deployment is free.

* `code_kept_iff`: a transaction that succeeds keeps the code and the origin of every contract
  with code, and empties the code of those that executed SELFDESTRUCT, exactly when it is not a
  deployment over existing code that ends in other code or another origin.
* `code_overwritten`: a deployment at the address of another contract.
-/
namespace TronRs

open TronRs.Core Vm
open TriggerSmartContractActuator (startWorld)

variable {c : TriggerSmartContract} {sc : SmartContract} {ty : ContractType} {addr : Address} {u : WorldState}

/-! ## Transactions that run the virtual machine -/

/-- A message for the virtual machine. -/
inductive VmTx where
  | trigger (c : TriggerSmartContract)
  | create (c : CreateSmartContract)

namespace VmTx
variable (cr : Crypto)

def run : VmTx → Act ExecutionResult
  | trigger c => (triggerSmartContractActuator cr triggerEnergyLimit).run c
  | create c => (createSmartContractActuator cr).run c

/-- The frame that is run: the code of the target, or the constructor. -/
def root (s : WorldState) : VmTx → Option Frame
  | trigger c => do
    let owner ← Address.ofBytes c.ownerAddress
    let target ← Address.ofBytes c.contractAddress
    let world := startWorld s owner target c.callValue
    some ⟨world, ⟨target.body, world.getCode target.body, c.data, 0⟩, triggerEnergyLimit⟩
  | create c => do
    let sc ← c.newContract
    let owner ← Address.ofBytes c.ownerAddress
    let addr := CreateSmartContractActuator.deployAddress sc owner
    some ⟨World.withState (stateBackend s), ⟨addr.body, sc.bytecode, [], 0⟩, deployEnergyLimit⟩

/-- The world that is flushed to the state: nothing when the run fails. -/
def flushed (s : WorldState) (l : VmTx) : Option World := do
  let f ← l.root s
  match executeCode cr f.world f.ctx.address f.ctx.code f.ctx.calldata f.limit f.ctx.depth with
  | .ok (r, w) => if r.success then some w else none
  | .error _ => none

/-- The contracts that executed SELFDESTRUCT, unless that was undone. -/
def destroyed (s : WorldState) (l : VmTx) : List Address := ((l.flushed cr s).map World.suicides).getD []

end VmTx

def vmTx : (ty : ContractType) → Message ty → Option VmTx
  | .triggerSmartContract, c => some (.trigger c)
  | .createSmartContract, c => some (.create c)
  | _, _ => none

/-- The message a transaction brings to the virtual machine, if it is one for it. -/
def Transaction.vmTx (pf : Platform) (tx : Transaction) : Option VmTx := do
  let raw ← tx.rawData
  let contract ← raw.contract.head?
  match unpack pf contract (.ofI32 contract.type) with
  | .ok c => TronRs.vmTx _ c
  | .error _ => none

/-- The contracts that executed SELFDESTRUCT in a transaction. -/
def destroyedBy (pf : Platform) (tx : Transaction) (s : WorldState) : List Address :=
  (tx.vmTx pf).elim [] (VmTx.destroyed pf.crypto s)

/-! ## The property and its condition -/

def WorldState.origin (s : WorldState) (a : Address) : Option Bytes :=
  (s.getContract a).map SmartContract.originAddress

/-- Every contract with code keeps its code and its origin; one that destroyed itself has no code. -/
def CodeKept (destroyed : List Address) (s t : WorldState) : Prop :=
  ∀ a, s.getCode a ≠ [] →
    if a ∈ destroyed then t.getCode a = [] else t.getCode a = s.getCode a ∧ t.origin a = s.origin a

/-- The code that is stored: what the constructor returned, or else the bytecode itself. -/
def CreateSmartContractActuator.runtime (sc : SmartContract) (r : CallResult) : Bytes :=
  if r.returnData = [] then sc.bytecode else r.returnData

open CreateSmartContractActuator in
/-- A deployment at an address that has code does not destroy it, ends in the same code and names
the same origin. -/
def VmTx.Redeploys (cr : Crypto) (s : WorldState) : VmTx → Prop
  | .trigger _ => True
  | .create c => ∀ sc owner r w, c.newContract = some sc → Address.ofBytes c.ownerAddress = some owner →
      construct cr s (deployAddress sc owner) sc.bytecode = .ok (r, w) →
      s.getCode (deployAddress sc owner) ≠ [] →
      deployAddress sc owner ∉ w.suicides ∧ runtime sc r = s.getCode (deployAddress sc owner) ∧
        s.origin (deployAddress sc owner) = some sc.originAddress

/-! ## What a flush does to code -/

section Flush
variable {s : WorldState} {w : World} {cr : Crypto} {r : CallResult}

/-- A world that holds no code of its own only removes code. -/
lemma getCode_flushWorld (hc : w.code = ∅) (a : Address) :
    (flushWorld s w).getCode a = if a ∈ w.suicides then [] else s.getCode a := by
  rw [WorldState.getCode, contractCode_flushWorld, Column.get_foldl_delete, get_flushCode, hc, get_empty]
  split <;> rfl

/-- A run on chain state ends on chain state, with no code of its own. -/
lemma code_executeCode {address code data : Bytes} {limit depth : Nat}
    {w0 : World} (hb : w0.backend = .state (stateBackend s)) (hc : w0.code = ∅)
    (h : executeCode cr w0 address code data limit depth = .ok (r, w)) : w.code = ∅ := by
  obtain ⟨e, hr, -⟩ := executeCode_ok h
  have hhost : w0.hostBacked = false := by rw [World.hostBacked, hb]
  exact (untouched_code.runFrame hhost hr).1.trans hc

lemma startWorld_eq (s : WorldState) (owner target : Address) (v : Int64) : (startWorld s owner target v).code = ∅ ∧
      (startWorld s owner target v).backend = .state (stateBackend s) := by
  unfold startWorld World.transfer World.ensureAccount World.writeBalance
  dsimp only
  repeat' split
  all_goals exact ⟨rfl, rfl⟩

lemma construct_nil (h : CreateSmartContractActuator.construct cr s addr [] = .ok (r, w)) : w.suicides = [] := by
  cases h; rfl

end Flush

/-! ## Calls and deployments that succeed -/

variable {pf : Platform} {cr : Crypto} {s t : WorldState} {res : ExecutionResult}

lemma triggerSmartContract_ok {limit : Nat} (h : (triggerSmartContractActuator cr limit).run c s = .ok res t) :
    ∃ owner target r w, Address.ofBytes c.ownerAddress = some owner ∧ Address.ofBytes c.contractAddress = some target ∧
      TriggerSmartContractActuator.call cr s owner target c limit = .ok (r, w) ∧
      t.outside = (if r.success then flushWorld s w else s).outside := by
  obtain ⟨owner, target, r, w, ho, ht, hr, -, hcharge⟩ := TriggerSmartContractActuator.execute_ok (Actuator.run_ok h).2
  exact ⟨owner, target, r, w, ho, ht, hr, (frame_chargeEnergyFee _ _).ok hcharge⟩

lemma flushed_trigger {owner target : Address} {r : CallResult} {w : World}
    (ho : Address.ofBytes c.ownerAddress = some owner) (ht : Address.ofBytes c.contractAddress = some target)
    (hr : TriggerSmartContractActuator.call cr s owner target c triggerEnergyLimit = .ok (r, w)) :
    (VmTx.trigger c).flushed cr s = if r.success then some w else none := by
  unfold TriggerSmartContractActuator.call executeCall at hr; simp [VmTx.flushed, VmTx.root, ho, ht, hr]

lemma flushed_create {c : CreateSmartContract} {owner : Address} {r : CallResult} {w : World}
    (hsc : c.newContract = some sc) (ho : Address.ofBytes c.ownerAddress = some owner)
    (hr : CreateSmartContractActuator.construct cr s (CreateSmartContractActuator.deployAddress sc owner)
      sc.bytecode = .ok (r, w)) (hs : r.success = true) : (VmTx.create c).flushed cr s = some w := by
  unfold CreateSmartContractActuator.construct at hr; simp [VmTx.flushed, VmTx.root, hsc, ho, hr, hs]

open CreateSmartContractActuator in
lemma createSmartContract_ok {c : CreateSmartContract} (h : (createSmartContractActuator cr).run c s = .ok res t) :
    ∃ sc owner r w, c.newContract = some sc ∧ Address.ofBytes c.ownerAddress = some owner ∧
      construct cr s (deployAddress sc owner) sc.bytecode = .ok (r, w) ∧ r.success = true ∧
      t.outside = (deploy s (deployAddress sc owner) sc r w).outside := by
  obtain ⟨sc, owner, r, w, hsc, ho, hr, hs, -, hcharge⟩ := execute_ok (Actuator.run_ok h).2
  exact ⟨sc, owner, r, w, hsc, ho, hr, hs, (frame_chargeEnergyFee _ _).ok hcharge⟩

lemma getCode_congr (h : t.outside = u.outside) (a : Address) : t.getCode a = u.getCode a :=
  congrArg (fun o : Outside => (o.contractCode.get a).getD []) h

lemma origin_congr (h : t.outside = u.outside) (a : Address) : t.origin a = u.origin a :=
  congrArg (fun o : Outside => (o.contract.get a).map SmartContract.originAddress) h

lemma codeKept_of_outside (h : t.outside = s.outside) : CodeKept [] s t := fun a _ => by
  rw [if_neg List.not_mem_nil]; exact ⟨getCode_congr h a, origin_congr h a⟩

lemma codeKept_trigger (h : (triggerSmartContractActuator cr triggerEnergyLimit).run c s = .ok res t) :
    CodeKept ((VmTx.trigger c).destroyed cr s) s t := by
  obtain ⟨owner, target, r, w, ho, ht, hr, hout⟩ := triggerSmartContract_ok h
  have hdes : (VmTx.trigger c).destroyed cr s = if r.success then w.suicides else [] := by
    rw [VmTx.destroyed, flushed_trigger ho ht hr]; split <;> rfl
  obtain ⟨hc, hb⟩ := startWorld_eq s owner target c.callValue
  have hcode : w.code = ∅ := code_executeCode hb hc hr
  rw [hdes]
  by_cases hs : r.success
  · rw [if_pos hs] at hout ⊢; intro a _
    rw [getCode_congr hout, getCode_flushWorld hcode, origin_congr hout, WorldState.origin, WorldState.getContract,
      contract_flushWorld]
    split
    · rfl
    · exact ⟨rfl, rfl⟩
  · rw [if_neg hs] at hout ⊢; exact codeKept_of_outside hout

section Deploy
open CreateSmartContractActuator

lemma getCode_deploy {r : CallResult} {w : World} (hc : w.code = ∅) (a : Address) : (deploy s addr sc r w).getCode a =
      if a = addr then runtime sc r else if a ∈ w.suicides then [] else s.getCode a := by
  show (((flushWorld s w).contractCode.put addr (runtime sc r)).get a).getD [] = _; rw [get_put]
  split
  · rfl
  · exact getCode_flushWorld hc a

lemma origin_deploy (addr : Address) (sc : SmartContract) (r : CallResult) (w : World) (a : Address) :
    (deploy s addr sc r w).origin a = if a = addr then some sc.originAddress else s.origin a := by
  show (((flushWorld s w).contract.put addr _).get a).map SmartContract.originAddress = _
  rw [get_put, contract_flushWorld]; split <;> rfl

lemma codeKept_create_iff {c : CreateSmartContract} (h : (createSmartContractActuator cr).run c s = .ok res t) :
    CodeKept ((VmTx.create c).destroyed cr s) s t ↔ (VmTx.create c).Redeploys cr s := by
  obtain ⟨sc, owner, r, w, hsc, ho, hr, hs, hout⟩ := createSmartContract_ok h
  have hdes : (VmTx.create c).destroyed cr s = w.suicides := by rw [VmTx.destroyed, flushed_create hsc ho hr hs]; rfl
  have hcode : w.code = ∅ := code_executeCode rfl rfl hr
  rw [hdes]
  constructor
  · intro hkept sc' owner' r' w' hsc' ho' hr' hne; cases hsc.symm.trans hsc'; cases ho.symm.trans ho'
    rw [hr] at hr'; cases hr'; have hat := hkept _ hne
    rw [getCode_congr hout, getCode_deploy hcode, if_pos rfl, origin_congr hout, origin_deploy, if_pos rfl] at hat
    split at hat
    · -- a constructor that ran some code leaves some code
      rename_i hmem
      have hnil : sc.bytecode = [] := by
        unfold runtime at hat
        split at hat
        · exact hat
        · contradiction
      rw [hnil] at hr; rw [construct_nil hr] at hmem; cases hmem
    · rename_i hmem; exact ⟨hmem, hat.1, hat.2.symm⟩
  · intro hre a hne; rw [getCode_congr hout, getCode_deploy hcode, origin_congr hout, origin_deploy]
    by_cases ha : a = deployAddress sc owner
    · subst ha; obtain ⟨hmem, hrun, horig⟩ := hre sc owner r w hsc ho hr hne
      rw [if_neg hmem, if_pos rfl, if_pos rfl]; exact ⟨hrun, horig.symm⟩
    rw [if_neg ha, if_neg ha]
    split
    · rfl
    · exact ⟨rfl, rfl⟩

end Deploy

/-! ## All transactions -/

lemma codeKept_editContract {b : Bytes} {missing : String} {f : SmartContract → SmartContract}
    (hf : ∀ record, (f record).originAddress = record.originAddress)
    (h : editContract b missing f s = .ok res t) : CodeKept [] s t := by
  apply ok_elim h
  simp only [editContract, ok_rules]; intro addr _ record hrec a _; rw [if_neg List.not_mem_nil]
  refine ⟨rfl, ?_⟩
  show ((s.contract.put addr (f record)).get a).map SmartContract.originAddress = (s.contract.get a).map _
  rw [get_put]
  split
  · rename_i ha; rw [ha, show s.contract.get addr = some record from hrec]
    exact congrArg some (hf record)
  · rfl

lemma codeKept_contracts_iff {a : Actuator (Message ty)} (ha : route pf ty = some a)
    (hty : ty.writesContracts = true) {c : Message ty} (h : a.run c s = .ok res t) :
    CodeKept ((vmTx ty c).elim [] (VmTx.destroyed pf.crypto s)) s t ↔
      ∀ l, vmTx ty c = some l → l.Redeploys pf.crypto s := by
  cases ty <;> cases ha <;> cases hty
  case triggerSmartContract =>
    refine iff_of_true (codeKept_trigger h) fun l hl => ?_
    cases hl; trivial
  case createSmartContract =>
    refine (codeKept_create_iff h).trans ⟨fun hre l hl => ?_, fun hre => hre _ rfl⟩; cases hl; exact hre
  case clearAbi | updateSetting | updateEnergyLimit =>
    refine iff_of_true (codeKept_editContract ?_ (Actuator.run_ok h).2) nofun
    exact fun _ => rfl

lemma codeKept_run_iff {a : Actuator (Message ty)} (ha : route pf ty = some a) {c : Message ty}
    (h : a.run c s = .ok res t) : CodeKept ((vmTx ty c).elim [] (VmTx.destroyed pf.crypto s)) s t ↔
      ∀ l, vmTx ty c = some l → l.Redeploys pf.crypto s := by
  cases hty : ty.writesContracts with
  | false =>
    have hnone : vmTx ty c = none := by
      cases ty <;> first | rfl | cases hty
    have hout := (frame_system ha hty c).ok (Actuator.run_ok h).2
    rw [hnone]; exact iff_of_true (codeKept_of_outside hout) nofun
  | true => exact codeKept_contracts_iff ha hty h

/-- **Deployed code is kept.** When a transaction succeeds, every contract that had code has the
same code and the same origin afterwards, or executed SELFDESTRUCT and has no code, exactly when the
transaction is not a deployment over existing code that ends in other code or another origin. -/
theorem code_kept_iff {tx : Transaction} (h : applyTransaction pf tx s = .ok res t) :
    CodeKept (destroyedBy pf tx s) s t ↔ ∀ l, tx.vmTx pf = some l → l.Redeploys pf.crypto s := by
  obtain ⟨raw, contract, a, c, hraw, hcontract, ha, hc, hrun⟩ := applyTransaction_ok h
  have htx : tx.vmTx pf = vmTx _ c := by simp [Transaction.vmTx, hraw, hcontract, hc]
  rw [destroyedBy, htx]; exact codeKept_run_iff ha hrun

/-! ## Runs on fixed inputs -/

/-- `0xaa` deploys a contract at an address of its choice. -/
def deployment (addr : Address) (bytecode : Bytes) : CreateSmartContract where
  ownerAddress := (Address.ofNat 0xaa).asBytes
  newContract := some {
    originAddress := (Address.ofNat 0xaa).asBytes
    contractAddress := addr.asBytes
    bytecode }

/-- A platform that decodes every deployment as the given one. -/
def deployPlatform (c : CreateSmartContract) : Platform :=
  { Platform.blank with codec := { Platform.blank.codec with
      decode := fun ty _ => match ty with
        | .createSmartContract => .ok c
        | _ => .error "not decoded" } }

def deployTx : Transaction := { rawData := some { contract := [{ type := 30, parameter := some {} }] } }

/-- `0xcc` has a contract of `0xbb`. -/
def occupied : WorldState where
  contract := (∅ : Column Address SmartContract).put (Address.ofNat 0xcc)
    { originAddress := (Address.ofNat 0xbb).asBytes }
  contractCode := (∅ : Column Address Bytes).put (Address.ofNat 0xcc) [0x00]

/-- A deployment at a free address. -/
theorem code_kept_iff_free_address : ∃ res t,
    applyTransaction (deployPlatform (deployment (Address.ofNat 0xdd) [0x5b])) deployTx occupied = .ok res t ∧
    t.getCode (Address.ofNat 0xdd) = [0x5b] ∧
    CodeKept (destroyedBy (deployPlatform (deployment (Address.ofNat 0xdd) [0x5b])) deployTx occupied) occupied t := by
  let pf := deployPlatform (deployment (Address.ofNat 0xdd) [0x5b])
  have hrun : applyTransaction pf deployTx occupied = .ok _ _ := rfl
  refine ⟨_, _, hrun, by decide +kernel, (code_kept_iff hrun).mpr fun l hl => ?_⟩; cases hl
  intro sc owner r w hsc ho _ hne; cases hsc; cases ho
  exact absurd (by decide +kernel) hne

/-- A deployment at the address of a contract replaces its code and its origin. -/
theorem code_overwritten : ∃ pf tx s res t a, applyTransaction pf tx s = .ok res t ∧ s.getCode a = [0x00] ∧
    destroyedBy pf tx s = [] ∧ t.getCode a = [0x5b] ∧ s.origin a = some (Address.ofNat 0xbb).asBytes ∧
    t.origin a = some (Address.ofNat 0xaa).asBytes :=
  ⟨deployPlatform (deployment (Address.ofNat 0xcc) [0x5b]), deployTx, occupied, _, _, Address.ofNat 0xcc, rfl,
    by decide +kernel, by decide +kernel, by decide +kernel, by decide +kernel, by decide +kernel⟩

end TronRs

import TronRs.L2Vm.Engine
import TronRs.L3Actuators.Base
import TronRs.L3Actuators.VmHost

/-!
# Smart-contract actuators

`crates/actuators/src/smart_contract.rs`. A call or a deployment runs the VM on a world that
reads through to the state, flushes the world when the run succeeded, and then charges the
owner for the energy.

* `TriggerSmartContractActuator.atomic_iff`: a call is atomic exactly when, after a
  successful run that changed something, the owner can pay the energy fee.
* `CreateSmartContractActuator.atomic_iff`: for a deployment also the failing constructor
  counts, whose energy fee is charged before the error is returned.
-/
namespace TronRs

open TronRs.Core Vm

variable {s t : WorldState} {owner : Address} {fee : Int64} {err : Fault → WorldState → Prop} {res : ExecutionResult}
variable {m : Act ExecutionResult}

def deployEnergyLimit : Nat := 3000000
def triggerEnergyLimit : Nat := 10000000
def defaultEnergyFeeSun : Int64 := 100

/-- Mirrors vm/lib.rs:24. -/
def energyToSun (energyUsed : Nat) (price : Int64) : Int64 :=
  Int64.ofInt (max 0 (min (energyUsed * price.toInt) (2 ^ 63 - 1)))

/-- Mirrors actuators/smart_contract.rs:47. -/
def energyPrice (s : WorldState) : Int64 :=
  if 0 < s.getProp .energyFee then s.getProp .energyFee else defaultEnergyFeeSun

/-- Mirrors actuators/smart_contract.rs:54: a missing owner is not charged. -/
def chargeEnergyFee (owner : Address) (fee : Int64) : Act Unit := do
  if 0 < fee then
    match (← get).getAccount owner with
    | none => pure ()
    | some acc =>
      let balance ← orThrow (debit acc.balance fee) (failed "insufficient balance for energy fee")
      modify (·.putAccount owner { acc with balance })
      modify (·.burnTrx fee)

/-- A run of the VM inside an actuator: a panic of the VM is a panic of the actuator. -/
def runVm {α : Type} (r : Except Abort α) : Check α :=
  match r with
  | .ok a => .ok a
  | .error _ => .error .panic

lemma runVm_eq_ok {α : Type} {r : Except Abort α} {a : α} : runVm r = .ok a ↔ r = .ok a := by
  cases r <;> simp [runVm]

/-- The owner can pay an energy fee, or is not there to be charged. -/
def CanPay (s : WorldState) (owner : Address) (fee : Int64) : Prop :=
  0 < fee → ∀ acc, s.getAccount owner = some acc → fee ≤ acc.balance

lemma wp_chargeEnergyFee_of_canPay (h : CanPay s owner fee) :
    wp (chargeEnergyFee owner fee) s (fun _ _ => True) err := by
  unfold chargeEnergyFee
  by_cases hf : 0 < fee
  · cases ha : s.getAccount owner with
    | none => simp [hf, ha]
    | some acc =>
      have hle := le_iff_toInt_le.mp (h hf acc ha)
      have hpos := Int64.pos_iff.mp hf
      obtain ⟨b, hb⟩ := exists_debit (b := acc.balance) (a := fee) (by omega) (by have := acc.balance.toInt_lt; omega)
      simp [hf, ha, hb]
  · simp [hf]

/-- Charging an owner that cannot pay fails and changes nothing. -/
lemma wp_chargeEnergyFee_of_not_canPay {ok : Unit → WorldState → Prop} (h : ¬ CanPay s owner fee) :
    wp (chargeEnergyFee owner fee) s ok err ↔ err (failed "insufficient balance for energy fee") s := by
  simp only [CanPay, Classical.not_imp, not_forall] at h; obtain ⟨hf, acc, ha, hlt⟩ := h
  have hd : debit acc.balance fee = none := by rw [debit_eq_none]; rw [le_iff_toInt_le] at hlt; omega
  simp [chargeEnergyFee, hf, ha, hd]

/-- A program that reaches `t` without failing and then charges the owner is atomic exactly
when it has written nothing or the owner can pay. -/
lemma atomic_iff_canPay (h : ∀ ok err, wp m s ok err ↔ wp (chargeEnergyFee owner fee) t (fun _ u => ok ⟨fee⟩ u) err) :
    Atomic m s ↔ (t ≠ s → CanPay t owner fee) := by
  by_cases hpay : CanPay t owner fee
  · refine iff_of_true (atomic_of_wp ?_) fun _ => hpay
    rw [h]; exact wp_chargeEnergyFee_of_canPay hpay
  constructor
  · intro hat hne; refine absurd hat (not_atomic_of_wp ?_)
    rw [h, wp_chargeEnergyFee_of_not_canPay hpay]; exact ⟨Fault.err_ne_panic, hne⟩
  intro himp
  have hsame : t = s := by by_contra hne; exact hpay (himp hne)
  refine atomic_of_wp ?_; rw [h, wp_chargeEnergyFee_of_not_canPay hpay]
  exact fun _ => hsame

/-! ## Calls -/

namespace TriggerSmartContractActuator
variable {v : Int64}

/-- Mirrors actuators/smart_contract.rs:86. -/
def validate (c : TriggerSmartContract) (s : WorldState) : Check Int64 := do
  let _ ← parseAddress c.ownerAddress "Invalid ownerAddress"
  let target ← parseAddress c.contractAddress "Invalid contractAddress"
  ensure (s.getCode target ≠ []) (invalid "Contract does not exist")
  pure 0

/-- The world a call starts in: the call value has been moved. -/
def startWorld (s : WorldState) (owner target : Address) (callValue : Int64) : World :=
  let world := World.withState (stateBackend s)
  if callValue ≠ 0 then world.transfer owner target callValue else world

/-- The run of a call. -/
def call (cr : Crypto) (s : WorldState) (owner target : Address) (c : TriggerSmartContract)
    (energyLimit : Nat) : Except Abort (CallResult × World) :=
  executeCall cr (startWorld s owner target c.callValue) target.body c.data energyLimit 0

/-- Mirrors actuators/smart_contract.rs:95. -/
def execute (cr : Crypto) (energyLimit : Nat) (c : TriggerSmartContract) : Act ExecutionResult := do
  let owner ← lift (parseAddress c.ownerAddress "Invalid ownerAddress")
  let target ← lift (parseAddress c.contractAddress "Invalid contractAddress")
  let s ← get
  let price := energyPrice s
  let (r, world) ← lift (runVm (call cr s owner target c energyLimit))
  if r.success then modify (flushWorld · world)
  let fee := energyToSun r.energyUsed price
  chargeEnergyFee owner fee
  pure ⟨fee⟩

/-- Whenever the run succeeds and changes the state, the owner can pay for it afterwards. -/
def FeeCovered (cr : Crypto) (energyLimit : Nat) (c : TriggerSmartContract) (s : WorldState) : Prop :=
  ∀ owner target r w, Address.ofBytes c.ownerAddress = some owner →
    Address.ofBytes c.contractAddress = some target → call cr s owner target c energyLimit = .ok (r, w) →
    r.success = true → flushWorld s w ≠ s →
    CanPay (flushWorld s w) owner (energyToSun r.energyUsed (energyPrice s))

variable {cr : Crypto} {energyLimit : Nat} {c : TriggerSmartContract} {s : WorldState}

lemma validate_ok (h : validate c s = .ok v) : ∃ owner target, Address.ofBytes c.ownerAddress = some owner ∧
      Address.ofBytes c.contractAddress = some target ∧ s.getCode target ≠ [] := by
  simp only [validate, check_rules, parseAddress_eq_ok] at h
  obtain ⟨owner, ho, target, ht, -, hc, -⟩ := h; exact ⟨owner, target, ho, ht, hc⟩

/-- A call that returns: a successful run is flushed, and then the owner is charged. -/
lemma execute_ok (h : execute cr energyLimit c s = .ok res t) :
    ∃ owner target r w, Address.ofBytes c.ownerAddress = some owner ∧ Address.ofBytes c.contractAddress = some target ∧
      call cr s owner target c energyLimit = .ok (r, w) ∧ res.fee = energyToSun r.energyUsed (energyPrice s) ∧
      chargeEnergyFee owner res.fee (if r.success then flushWorld s w else s) = .ok () t := by
  apply ok_elim h
  simp only [execute, ok_rules, wp_ite, parseAddress_eq_ok, runVm_eq_ok]
  rintro owner ho target ht ⟨r, w⟩ hr
  refine ⟨fun hs => wp_iff.mpr ⟨fun _ t hcharge => ?_, fun _ _ _ => trivial⟩,
    fun hs => wp_iff.mpr ⟨fun _ t hcharge => ?_, fun _ _ _ => trivial⟩⟩
  · exact ⟨owner, target, r, w, ho, ht, hr, rfl, by rw [if_pos hs]; exact hcharge⟩
  · exact ⟨owner, target, r, w, ho, ht, hr, rfl, by rw [if_neg hs]; exact hcharge⟩

lemma atomic_iff (hv : validate c s = .ok v) : Atomic (execute cr energyLimit c) s ↔ FeeCovered cr energyLimit c s := by
  obtain ⟨owner, target, ho, ht, -⟩ := validate_ok hv
  have hcond : FeeCovered cr energyLimit c s ↔ ∀ r w, call cr s owner target c energyLimit = .ok (r, w) →
      r.success = true → flushWorld s w ≠ s →
      CanPay (flushWorld s w) owner (energyToSun r.energyUsed (energyPrice s)) := by
    constructor
    · intro h r w; exact h owner target r w ho ht
    · intro h o t r w ho' ht'; cases ho.symm.trans ho'; cases ht.symm.trans ht'
      exact h r w
  rw [hcond]
  cases hr : call cr s owner target c energyLimit with
  | error =>
    refine iff_of_true (atomic_of_wp ?_) nofun
    simp [execute, parseAddress_ok ho, parseAddress_ok ht, hr, runVm]
  | ok res =>
    obtain ⟨r, w⟩ := res
    have htail : ∀ okc err, wp (execute cr energyLimit c) s okc err ↔
        wp (chargeEnergyFee owner (energyToSun r.energyUsed (energyPrice s)))
          (if r.success then flushWorld s w else s)
          (fun _ u => okc ⟨energyToSun r.energyUsed (energyPrice s)⟩ u) err := by
      intro okc err
      by_cases hs : r.success = true <;>
        simp [execute, parseAddress_ok ho, parseAddress_ok ht, hr, runVm, hs]
    rw [atomic_iff_canPay htail]
    by_cases hs : r.success = true
    · rw [if_pos hs]; exact ⟨fun h r' w' he _ => by cases he; exact h, fun h => h r w rfl hs⟩
    · rw [if_neg hs]
      refine iff_of_true (fun h => absurd rfl h) fun r' w' he hs' => ?_
      cases he; exact absurd hs' hs

end TriggerSmartContractActuator

def triggerSmartContractActuator (cr : Crypto) (energyLimit : Nat) : Actuator TriggerSmartContract :=
  ⟨TriggerSmartContractActuator.validate, TriggerSmartContractActuator.execute cr energyLimit⟩

/-! ## Deployments -/

namespace CreateSmartContractActuator
variable {v : Int64}

/-- Mirrors actuators/smart_contract.rs:140. -/
def validate (c : CreateSmartContract) (_ : WorldState) : Check Int64 := do
  let _ ← parseAddress c.ownerAddress "Invalid ownerAddress"
  ensure c.newContract.isSome (invalid "No contract body")
  pure 0

/-- Where the contract is deployed: at the address it names, or else at the owner's. -/
def deployAddress (sc : SmartContract) (owner : Address) : Address :=
  (Address.ofBytes sc.contractAddress).getD owner

/-- The run of the constructor. -/
def construct (cr : Crypto) (s : WorldState) (addr : Address) (init : Bytes) : Except Abort (CallResult × World) :=
  executeCode cr (World.withState (stateBackend s)) addr.body init [] deployEnergyLimit 0

/-- The state after a successful constructor: its writes, the contract record and the code
it returned. -/
def deploy (s : WorldState) (addr : Address) (sc : SmartContract) (r : CallResult) (w : World) : WorldState :=
  let runtime := if r.returnData = [] then sc.bytecode else r.returnData
  ((flushWorld s w).putContract addr { sc with contractAddress := addr.asBytes }).putCode addr runtime

/-- Mirrors actuators/smart_contract.rs:148. -/
def execute (cr : Crypto) (c : CreateSmartContract) : Act ExecutionResult := do
  let sc ← orThrow c.newContract (failed "No contract body")
  let owner ← lift (parseAddress c.ownerAddress "Invalid ownerAddress")
  let addr := deployAddress sc owner
  let s ← get
  let price := energyPrice s
  let (r, world) ← lift (runVm (construct cr s addr sc.bytecode))
  let fee := energyToSun r.energyUsed price
  if r.success then
    modify (deploy · addr sc r world)
    chargeEnergyFee owner fee
    pure ⟨fee⟩
  else
    chargeEnergyFee owner fee
    throw (failed "contract constructor reverted")

/-- A successful deployment that changed something can be paid for, and a failing
constructor is never charged. -/
def FeeCovered (cr : Crypto) (c : CreateSmartContract) (s : WorldState) : Prop :=
  ∀ sc owner r w, c.newContract = some sc → Address.ofBytes c.ownerAddress = some owner →
    construct cr s (deployAddress sc owner) sc.bytecode = .ok (r, w) →
    if r.success then
      deploy s (deployAddress sc owner) sc r w ≠ s →
        CanPay (deploy s (deployAddress sc owner) sc r w) owner (energyToSun r.energyUsed (energyPrice s))
    else
      0 < energyToSun r.energyUsed (energyPrice s) → ∀ acc, s.getAccount owner = some acc →
        acc.balance < energyToSun r.energyUsed (energyPrice s)

variable {cr : Crypto} {c : CreateSmartContract} {s : WorldState}

lemma validate_ok (h : validate c s = .ok v) :
    ∃ owner sc, Address.ofBytes c.ownerAddress = some owner ∧ c.newContract = some sc := by
  simp only [validate, check_rules, parseAddress_eq_ok, Option.isSome_iff_exists] at h
  obtain ⟨owner, ho, -, ⟨sc, hsc⟩, -⟩ := h; exact ⟨owner, sc, ho, hsc⟩

/-- A deployment that returns: the contract is stored, and then the owner is charged. -/
lemma execute_ok (h : execute cr c s = .ok res t) :
    ∃ sc owner r w, c.newContract = some sc ∧ Address.ofBytes c.ownerAddress = some owner ∧
      construct cr s (deployAddress sc owner) sc.bytecode = .ok (r, w) ∧ r.success = true ∧
      res.fee = energyToSun r.energyUsed (energyPrice s) ∧
      chargeEnergyFee owner res.fee (deploy s (deployAddress sc owner) sc r w) = .ok () t := by
  apply ok_elim h
  simp only [execute, ok_rules, wp_ite, wp_throw, parseAddress_eq_ok, runVm_eq_ok]
  rintro sc hsc owner ho ⟨r, w⟩ hr
  refine ⟨fun hs => wp_iff.mpr ⟨fun _ t hcharge => ?_, fun _ _ _ => trivial⟩,
    fun _ => wp_iff.mpr ⟨fun _ _ _ => trivial, fun _ _ _ => trivial⟩⟩
  exact ⟨sc, owner, r, w, hsc, ho, hr, hs, rfl, hcharge⟩

/-- A failing constructor: the error comes after the fee has been charged. -/
lemma atomic_iff_of_failed {owner : Address} {fee : Int64}
    (h : ∀ ok err, wp m s ok err ↔ wp (chargeEnergyFee owner fee) s
      (fun _ u => err (failed "contract constructor reverted") u) err) :
    Atomic m s ↔ (0 < fee → ∀ acc, s.getAccount owner = some acc → acc.balance < fee) := by
  by_cases hf : 0 < fee
  · rw [forall_prop_of_true hf]
    cases ha : s.getAccount owner with
    | none =>
      refine iff_of_true (atomic_of_wp ?_) nofun; rw [h]; simp [chargeEnergyFee, hf, ha]
    | some acc =>
      by_cases hle : fee ≤ acc.balance
      · -- the fee is taken, and the account with it
        have hle' := le_iff_toInt_le.mp hle
        have hpos := Int64.pos_iff.mp hf
        obtain ⟨b, hb⟩ := exists_debit (b := acc.balance) (a := fee) (by omega)
          (by have := acc.balance.toInt_lt; omega)
        have hbal := (debit_eq_some.mp hb).1
        have hne : (s.putAccount owner { acc with balance := b }).burnTrx fee ≠ s := by
          intro heq; have h1 := congrArg (fun t => WorldState.getAccount t owner) heq
          simp only [WorldState.getAccount_burnTrx, getAccount_putAccount_self, ha,
            Option.some.injEq] at h1
          have h2 := congrArg (fun a => a.balance.toInt) h1
          simp only at h2; omega
        refine iff_of_false (not_atomic_of_wp ?_) fun hlt => ?_
        · rw [h]; simp [chargeEnergyFee, hf, ha, hb, hne, failed]
        · have := lt_iff_toInt_lt.mp (hlt acc rfl); omega
      · have hd : debit acc.balance fee = none := by rw [debit_eq_none]; rw [le_iff_toInt_le] at hle; omega
        refine iff_of_true (atomic_of_wp ?_) fun a ha' => ?_
        · rw [h]; simp [chargeEnergyFee, hf, ha, hd]
        · cases ha'; exact Int64.not_le.mp hle
  · refine iff_of_true (atomic_of_wp ?_) fun hf' => absurd hf' hf
    rw [h]; simp [chargeEnergyFee, hf]

lemma atomic_iff (hv : validate c s = .ok v) : Atomic (execute cr c) s ↔ FeeCovered cr c s := by
  obtain ⟨owner, sc, ho, hsc⟩ := validate_ok hv
  cases hr : construct cr s (deployAddress sc owner) sc.bytecode with
  | error =>
    refine iff_of_true (atomic_of_wp ?_) fun sc' o r w hsc' ho' hr' => ?_
    · simp [execute, parseAddress_ok ho, hsc, hr, runVm]
    · cases hsc.symm.trans hsc'; cases ho.symm.trans ho'; rw [hr] at hr'
      cases hr'
  | ok res =>
    obtain ⟨r, w⟩ := res
    have hcond : FeeCovered cr c s ↔ if r.success then
          deploy s (deployAddress sc owner) sc r w ≠ s → CanPay (deploy s (deployAddress sc owner) sc r w) owner
              (energyToSun r.energyUsed (energyPrice s))
        else
          0 < energyToSun r.energyUsed (energyPrice s) → ∀ acc, s.getAccount owner = some acc →
            acc.balance < energyToSun r.energyUsed (energyPrice s) := by
      constructor
      · intro h; exact h sc owner r w hsc ho hr
      · intro h sc' o r' w' hsc' ho' hr'; cases hsc.symm.trans hsc'; cases ho.symm.trans ho'
        rw [hr] at hr'; cases hr'; exact h
    rw [hcond]
    by_cases hs : r.success = true
    · rw [if_pos hs]
      refine atomic_iff_canPay fun okc err => ?_
      simp [execute, parseAddress_ok ho, hsc, hr, runVm, hs]
    · rw [if_neg hs]
      refine atomic_iff_of_failed fun okc err => ?_
      simp [execute, parseAddress_ok ho, hsc, hr, runVm, hs]

end CreateSmartContractActuator

def createSmartContractActuator (cr : Crypto) : Actuator CreateSmartContract :=
  ⟨CreateSmartContractActuator.validate, CreateSmartContractActuator.execute cr⟩

end TronRs

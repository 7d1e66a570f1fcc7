import TronRs.Core.Effect
import TronRs.L1State.WorldState

/-!
# Actuators

`crates/actuators/src/lib.rs`. An actuator checks a contract against the state
(`validate`, which only reads) and then applies it (`execute`, which writes as it goes and
keeps what it wrote when it fails). `Actuator.run` is what `apply_transaction` does with
every routed contract.

* `Atomic m s`: when `m` returns an error from `s`, the state is the one it started with.
* `Actuator.atomic_run_iff`: validation never breaks atomicity; only `execute` can.
-/
namespace TronRs

open TronRs.Core

variable {b a fee : Int64} {s t : WorldState} {α C : Type} {msg : String} {c : C} {x : Account}

/-- Mirrors actuators/lib.rs:39. Reads from a typed state never fail, so there is no
`State` error. -/
inductive ActuatorError where
  | validate (msg : String)
  | execute (msg : String)
  deriving DecidableEq

/-- How an actuator stops: with an error, or by a panic (no value is returned at all). -/
inductive Fault where
  | err (e : ActuatorError)
  | panic
  deriving DecidableEq

abbrev Check := Except Fault
abbrev Act := EStateM Fault WorldState

/-- `ActuatorError::Validate(msg)`. -/
def invalid (msg : String) : Fault := .err (.validate msg)

/-- `ActuatorError::Execute(msg)`. -/
def failed (msg : String) : Fault := .err (.execute msg)

/-- Mirrors actuators/lib.rs:58. -/
structure ExecutionResult where
  fee : Int64
  deriving DecidableEq

/-- The `parse_address` of every actuator module, with the module's own message. -/
def parseAddress (b : Bytes) (msg : String) : Check Address := orThrow (Address.ofBytes b) (invalid msg)

/-- Mirrors actuators/lib.rs:69. -/
def requireFeature (s : WorldState) (key : Property) (msg : String) : Check Unit :=
  ensure (s.featureEnabled key) (invalid msg)

def hexDigit (n : Nat) : Char := if n < 10 then Char.ofNat (48 + n) else Char.ofNat (87 + n)

/-- Lower-case hexadecimal text of a byte string. -/
def hex (b : Bytes) : String :=
  String.ofList (b.flatMap fun x => [hexDigit (x.toNat / 16), hexDigit (x.toNat % 16)])

/-- `checked_sub(amount).filter(|b| *b >= 0)`: what is left of a balance, if it covers the
amount. -/
def debit (balance amount : Int64) : Option Int64 := (balance.checkedSub amount).filter (0 ≤ ·)

lemma debit_eq_some {c : Int64} : debit b a = some c ↔ c.toInt = b.toInt - a.toInt ∧ 0 ≤ c.toInt := by
  simp only [debit, Option.filter_eq_some_iff, Int64.checkedSub_eq_some, decide_eq_true_eq,
    le_iff_toInt_le, toInt_zero]

lemma debit_eq_none : debit b a = none ↔ ¬ (0 ≤ b.toInt - a.toInt ∧ b.toInt - a.toInt < 2 ^ 63) := by
  rw [Option.eq_none_iff_forall_ne_some]
  constructor
  · intro h hc; have hf : Int64.Fits (b.toInt - a.toInt) := ⟨by omega, hc.2⟩
    refine h (b - a) (debit_eq_some.mpr ?_); rw [toInt_sub_of_fits hf]; exact ⟨rfl, hc.1⟩
  · intro h c hc; have hc' := debit_eq_some.mp hc
    have hlt := c.toInt_lt; omega

lemma exists_debit (h0 : 0 ≤ b.toInt - a.toInt) (h1 : b.toInt - a.toInt < 2 ^ 63) : ∃ c, debit b a = some c :=
  Option.ne_none_iff_exists'.mp fun hd => debit_eq_none.mp hd ⟨h0, h1⟩

lemma exists_debit_iff : (∃ c, debit b a = some c) ↔ 0 ≤ b.toInt - a.toInt ∧ b.toInt - a.toInt < 2 ^ 63 := by
  rw [← Option.ne_none_iff_exists', ne_eq, debit_eq_none, not_not]

/-- An amount between zero and the balance can be taken from it. -/
lemma exists_debit_of_le (h0 : 0 ≤ a.toInt) (h : a.toInt ≤ b.toInt) : ∃ c, debit b a = some c :=
  exists_debit (by omega) (by have := b.toInt_lt; omega)

/-- A statement about the account an address names, if there is one. -/
def AtAccount (s : WorldState) (b : Bytes) (P : Account → Prop) : Prop :=
  ∀ owner x, Address.ofBytes b = some owner → s.getAccount owner = some x → P x

lemma atAccount_iff {b : Bytes} {P : Account → Prop} {owner : Address}
    (ho : Address.ofBytes b = some owner) (hx : s.getAccount owner = some x) : AtAccount s b P ↔ P x := by
  refine ⟨fun h => h owner x ho hx, fun h o y ho' hy => ?_⟩; cases ho.symm.trans ho'
  cases hx.symm.trans hy; exact h

instance AtAccount.decidable (s : WorldState) (b : Bytes) (P : Account → Prop) [DecidablePred P] :
    Decidable (AtAccount s b P) :=
  decidable_of_iff (∀ owner ∈ Address.ofBytes b, ∀ x ∈ s.getAccount owner, P x)
    ⟨fun h owner x ho hx => h owner ho x hx, fun h owner ho x hx => h owner x ho hx⟩

/-- The same with what is stored at a second address. -/
def AtParties (s : WorldState) (b b' : Bytes) (P : Account → Option Account → Prop) : Prop :=
  ∀ owner dst x, Address.ofBytes b = some owner → Address.ofBytes b' = some dst → s.getAccount owner = some x →
    P x (s.getAccount dst)

lemma atParties_iff {b b' : Bytes} {P : Account → Option Account → Prop} {owner dst : Address}
    (ho : Address.ofBytes b = some owner) (hd : Address.ofBytes b' = some dst)
    (hx : s.getAccount owner = some x) : AtParties s b b' P ↔ P x (s.getAccount dst) := by
  refine ⟨fun h => h owner dst x ho hd hx, fun h o d y ho' hd' hy => ?_⟩; cases ho.symm.trans ho'
  cases hd.symm.trans hd'; cases hx.symm.trans hy; exact h

/-! ## Fees -/

/-- `if fee > 0 { state.burn_trx(fee) }`, as most actuators end. -/
def burnFee (s : WorldState) (fee : Int64) : WorldState := if 0 < fee then s.burnTrx fee else s

lemma burned_burnFee (h0 : 0 ≤ fee.toInt) (h : (s.getProp .burnTrxAmount).toInt + fee.toInt < 2 ^ 63) :
    ((burnFee s fee).getProp .burnTrxAmount).toInt = (s.getProp .burnTrxAmount).toInt + fee.toInt := by
  unfold burnFee
  split
  · have hlow := (s.getProp .burnTrxAmount).le_toInt
    rw [WorldState.burnTrx, WorldState.addProp, getProp_putProp_self]
    exact Int64.toInt_saturatingAdd_of_fits ⟨by omega, h⟩
  · rename_i hneg; rw [lt_iff_toInt_lt, toInt_zero] at hneg; omega

lemma account_burnFee (s : WorldState) (fee : Int64) : (burnFee s fee).account = s.account := by
  unfold burnFee; split <;> rfl

lemma getProp_burnFee_of_ne (s : WorldState) (fee : Int64) {k : Property} (hk : k ≠ .burnTrxAmount) :
    (burnFee s fee).getProp k = s.getProp k := by
  unfold burnFee
  split
  · exact s.getProp_putProp_of_ne _ hk
  · rfl

lemma wp_burn_then {k : Unit → Act α} {ok : α → WorldState → Prop} {err : Fault → WorldState → Prop} :
    wp (if fee > 0 then (modify (·.burnTrx fee) >>= k) else k ()) s ok err ↔ wp (k ()) (burnFee s fee) ok err := by
  unfold burnFee; split <;> simp

/-! ## Actuators -/

/-- `validate` and `execute` of one contract type. -/
structure Actuator (C : Type) where
  validate : C → WorldState → Check Int64
  execute : C → Act ExecutionResult

/-- `actuator.validate(state)?; actuator.execute(state)`. -/
def Actuator.run {C : Type} (a : Actuator C) (c : C) : Act ExecutionResult := do
  let s ← get
  let _ ← lift (a.validate c s)
  a.execute c

/-! ## Atomicity -/

/-- An error leaves the state as it was. -/
def Atomic {α : Type} (m : Act α) (s : WorldState) : Prop :=
  ∀ e t, m s = .error (.err e) t → t = s

lemma Fault.err_ne_panic {e : ActuatorError} : Fault.err e ≠ .panic := nofun

variable {m : Act α}

lemma atomic_of_wp (h : wp m s (fun _ _ => True) (fun e t => e ≠ .panic → t = s)) : Atomic m s := by
  intro e t hm; have ht := error_of_wp h hm; exact ht Fault.err_ne_panic

lemma atomic_of_ok {a : α} (h : m s = .ok a t) : Atomic m s := by
  intro e u hm; rw [h] at hm; cases hm

/-- An error for certain, in a state that differs. -/
lemma not_atomic_of_wp (h : wp m s (fun _ _ => False) (fun e t => e ≠ .panic ∧ t ≠ s)) : ¬ Atomic m s := by
  intro ha; unfold wp at h
  split at h
  · exact h
  rename_i e t hm
  cases e with
  | panic => exact h.1 rfl
  | err e => exact h.2 (ha e t hm)

@[simp] lemma parseAddress_eq_ok {b : Bytes} {a : Address} :
    parseAddress b msg = .ok a ↔ Address.ofBytes b = some a := orThrow_eq_ok

/-- Only the wrong-address message can come out of `parseAddress`, and only on a bad address. -/
lemma parseAddress_ok {b : Bytes} {a : Address}
    (h : Address.ofBytes b = some a) : parseAddress b msg = .ok a := parseAddress_eq_ok.mpr h

lemma Actuator.run_eq (a : Actuator C) (c : C) (s : WorldState) : a.run c s = match a.validate c s with
      | .ok _ => a.execute c s
      | .error e => .error e s := by
  unfold Actuator.run; simp only [bind, EStateM.bind, get, getThe, MonadStateOf.get, EStateM.get, lift]
  cases a.validate c s <;> rfl

lemma Actuator.run_of_validate {a : Actuator C} {v : Int64}
    (h : a.validate c s = .ok v) : a.run c s = a.execute c s := by
  rw [Actuator.run_eq, h]

lemma Actuator.run_ok {a : Actuator C} {res : ExecutionResult}
    (h : a.run c s = .ok res t) : (∃ v, a.validate c s = .ok v) ∧ a.execute c s = .ok res t := by
  rw [Actuator.run_eq] at h
  cases hv : a.validate c s with
  | error =>
    rw [hv] at h; cases h
  | ok v =>
    rw [hv] at h; exact ⟨⟨v, rfl⟩, h⟩

lemma Actuator.atomic_run_iff {a : Actuator C} :
    Atomic (a.run c) s ↔ ((∃ v, a.validate c s = .ok v) → Atomic (a.execute c) s) := by
  unfold Atomic; simp only [Actuator.run_eq]
  cases a.validate c s with
  | ok | error => simp

end TronRs

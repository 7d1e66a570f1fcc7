import TronRs.Core.Lts
import TronRs.L3Actuators.Executor

/-!
# Runs of system contracts

Contracts of some types are validated and executed one after the other, and in between the
properties of the state change: above all the block time, but also what the committee decides.
`contractRuns` is the system of these steps. A contract that fails is not a step of it.
-/
namespace TronRs

open TronRs.Core

inductive ContractStep where
  | setProperty (key : Property) (value : Int64)
  | apply (ty : ContractType) (c : Message ty)

/-- The runs over the contract types `types`, between which properties change as `settable` allows. -/
def contractRuns (pf : Platform) (types : List ContractType) (settable : Property → Int64 → Prop)
    (init : WorldState → Prop) : Lts WorldState ContractStep where
  init := init
  step s l t := match l with
    | .setProperty k v => settable k v ∧ t = s.putProp k v
    | .apply ty c => ty ∈ types ∧ ∃ a res, route pf ty = some a ∧ a.run c s = .ok res t

/-- One step, computed. -/
def ContractStep.next (pf : Platform) (types : List ContractType) (settable : Property → Int64 → Prop)
    [∀ k v, Decidable (settable k v)] (s : WorldState) : ContractStep → Option WorldState
  | .setProperty k v => if settable k v then some (s.putProp k v) else none
  | .apply ty c =>
    if ty ∈ types then (route pf ty).bind fun a => if returns (a.run c) s then some (stateAfter (a.run c) s) else none
    else none

variable {settable : Property → Int64 → Prop} {types : List ContractType} {init : WorldState → Prop} {pf : Platform}

lemma ContractStep.step_of_next [∀ k v, Decidable (settable k v)] {s t : WorldState} {l : ContractStep}
    (h : l.next pf types settable s = some t) : (contractRuns pf types settable init).step s l t := by
  cases l with
  | setProperty k v =>
    simp only [ContractStep.next] at h
    split at h
    · rename_i hk; exact ⟨hk, (Option.some.inj h).symm⟩
    · cases h
  | apply ty c =>
    simp only [ContractStep.next] at h
    split at h
    · rename_i hty; obtain ⟨a, ha, h⟩ := Option.bind_eq_some_iff.mp h
      split at h
      · rename_i hret; obtain ⟨res, hres⟩ := ok_of_returns hret; cases h
        exact ⟨hty, a, res, ha, hres⟩
      · cases h
    · cases h

/-- What following the labels shows of the last state, a run shows whose steps all meet `ok`. -/
lemma ContractStep.exists_run
    [∀ k v, Decidable (settable k v)] {ok : WorldState → ContractStep → Prop} [∀ s l, Decidable (ok s l)]
    {s : WorldState} {ls : List ContractStep} {O : Type} {obs : WorldState → O} {o : O}
    (h : (Lts.exec (Lts.guardStep ok (ContractStep.next pf types settable)) s ls).map obs = some o) :
    ∃ t, ((contractRuns pf types settable init).guard ok).Run s ls t ∧ obs t = o :=
  Lts.Run.exists_of_exec (fun _ _ _ => Lts.step_of_guardStep fun _ _ _ => step_of_next) h

end TronRs

import TronRs.L2Vm.Step

/-!
# Every frame ends

`runFrame` hands its loop one unit of fuel more than its energy limit. This module shows
that the fuel is never what ends a run.

* `runLoop_ne_fuel`: with more fuel than energy left, the loop does not run out of fuel.
* `runLoop_fuel_irrelevant`: any two such amounts give the same result, so a nested frame
  inside the loop is `runFrame` itself (`start_runLoop_eq`, `step_runLoop_eq`).
-/
namespace TronRs.Vm

open TronRs.Core

variable {cr : Crypto} {n : Nat} {ctx : Ctx} {byte : UInt8} {m : Machine}

/-! ## Programs that run nested frames only on what is left -/

/-- `p` and `q` behave the same on machines with at most `b` energy left. -/
def Agree (b : Nat) {α : Type} (p q : Op α) : Prop := ∀ m, m.meter.remaining ≤ b → p m = q m

namespace Agree
variable {α β : Type} {b : Nat} {sub sub' : SubRun}

lemma refl (p : Op α) : Agree b p p := fun _ _ => rfl

lemma bind_quiet {p : Op α} {f g : α → Op β} (hp : Quiet p) (h : ∀ a, Agree b (f a) (g a)) :
    Agree b (p >>= f) (p >>= g) := fun m hm => by
  show EStateM.bind p f m = EStateM.bind p g m; unfold EStateM.bind
  cases hr : p m with
  | error => rfl
  | ok a m1 => exact h a m1 ((hp.ok hr).remaining.trans hm)

lemma bind_same {p q : Op α} {f : α → Op β} (h : Agree b p q) : Agree b (p >>= f) (q >>= f) :=
  fun m hm => by show EStateM.bind p f m = EStateM.bind q f m; unfold EStateM.bind; rw [h m hm]

variable (h : ∀ w c lim, lim ≤ b → sub w c lim = sub' w c lim)
include h

lemma callContract
    (depth : Nat) (callee code input : Bytes) (gas : U256) : Agree b (Vm.callContract sub depth callee code input gas)
      (Vm.callContract sub' depth callee code input gas) := fun m hm => by
  have hlim : min (low64 gas) (m.meter.remaining - m.meter.remaining / 64) ≤ b := by omega
  unfold Vm.callContract; show EStateM.bind _ _ m = EStateM.bind _ _ m; unfold EStateM.bind
  simp only [MonadState.get, getThe, MonadStateOf.get, EStateM.get]; rw [h _ _ _ hlim]

lemma dispatchCall
    (depth : Nat) (addrWord gas : U256) (input : Bytes) : Agree b (Vm.dispatchCall cr sub depth addrWord gas input)
      (Vm.dispatchCall cr sub' depth addrWord gas input) := by
  refine bind_quiet .get fun m => ?_
  dsimp only
  split
  · exact refl _
  · split
    · exact refl _
    · exact callContract h _ _ _ _ _

lemma callOp (depth : Nat) : Agree b (Vm.callOp cr sub depth) (Vm.callOp cr sub' depth) :=
  bind_quiet .pop fun _ => bind_quiet .pop fun _ => bind_quiet .pop fun _ =>
    bind_quiet .pop fun _ => bind_quiet .pop fun _ => bind_quiet .pop fun _ =>
    bind_quiet .pop fun _ => bind_quiet (.chargeMem _) fun _ => bind_quiet .get fun _ =>
    bind_same (dispatchCall h _ _ _ _)

end Agree

/-- The step's result depends only on nested runs with less energy than is left: CALL has
paid its base cost before it runs the callee. -/
lemma step_congr {sub sub' : SubRun} (h : ∀ w c lim, lim < m.meter.remaining → sub w c lim = sub' w c lim) :
    step cr sub ctx byte m = step cr sub' ctx byte m := by
  unfold step
  cases hop : OpCode.fromU8 byte with
  | none => rfl
  | some op =>
    by_cases hc : op = .call
    · subst hc; dsimp only; rw [if_pos (by decide)]
      show EStateM.bind _ _ m = EStateM.bind _ _ m; unfold EStateM.bind
      cases hr : charge (baseCost .call) m with
      | error => rfl
      | ok u m1 =>
        obtain ⟨h1, h2, h3⟩ := charge_eq_ok hr
        have hlt : m1.meter.remaining < m.meter.remaining := by
          unfold EnergyMeter.remaining; simp only [baseCost] at h2; omega
        exact Agree.bind_same (Agree.callOp (fun w c lim hlim => h w c lim (by omega)) _) m1 le_rfl
    · dsimp only; rw [instr_sub_irrelevant hc sub sub']

/-- A nested result with running out of fuel turned into a panic. -/
def noFuel : Except Abort (Exec × World) → Except Abort (Exec × World)
  | .error .fuel => .error .panic
  | r => r

lemma noFuel_ne (r : Except Abort (Exec × World)) : noFuel r ≠ .error .fuel := by
  unfold noFuel
  split
  · exact nofun
  · assumption

lemma noFuel_of_ne {r : Except Abort (Exec × World)} (h : r ≠ .error .fuel) : noFuel r = r := by
  unfold noFuel
  split
  · exact absurd rfl h
  · rfl

lemma step_ne_fuel {sub : SubRun} {m' : Machine} (h : ∀ w c lim, lim < m.meter.remaining → sub w c lim ≠ .error .fuel) :
    step cr sub ctx byte m ≠ .error (.abort .fuel) m' := by
  intro hs
  -- replace every fuel failure of a nested frame by a panic: the step cannot tell
  have hcongr : step cr sub ctx byte m = step cr (fun w c lim => noFuel (sub w c lim)) ctx byte m :=
    step_congr fun w c lim hl => (noFuel_of_ne (h w c lim hl)).symm
  rw [hcongr] at hs
  cases (step_spec cr ctx byte).error hs with
  | fuel _ hf => exact noFuel_ne _ hf

/-! ## Fuel -/

variable (w : World) (c : Ctx) (lim : Nat)

lemma Machine.init_remaining : (Machine.init w lim).meter.remaining = lim := rfl

lemma runLoop_ne_fuel (n : Nat) : ∀ (ctx : Ctx) (m : Machine), m.meter.used ≤ m.meter.limit →
    m.meter.remaining < n → runLoop cr n ctx m ≠ .error .fuel := by
  induction n with
  | zero => intro _ m _ h; omega
  | succ n ih =>
    intro ctx m hb hn hr
    have hsub : ∀ w c lim, lim < m.meter.remaining → start (runLoop cr n) w c lim ≠ .error .fuel := by
      intro w c lim hlim hs; unfold start at hs
      split at hs
      · cases hs
      · exact ih c (Machine.init w lim) (Nat.zero_le lim) (by rw [Machine.init_remaining]; omega) hs
    simp only [runLoop] at hr
    split at hr
    · cases hr
    split at hr
    · rename_i u m' hstep; have he := (step_spec cr ctx _).ok hstep
      have hs := ok_of_wp (step_spends m) hstep; refine ih ctx m' (he.bounded hb) ?_ hr
      have h1 := he.limit
      have h2 := he.bounded hb; unfold EnergyMeter.remaining at hn ⊢; omega
    · cases hr
    · rename_i e m' hstep; cases hr; exact step_ne_fuel hsub hstep

/-- **Fuel is irrelevant** once it exceeds the energy left. -/
theorem runLoop_fuel_irrelevant (n : Nat) : ∀ (k : Nat) (ctx : Ctx) (m : Machine),
    m.meter.used ≤ m.meter.limit → m.meter.remaining < n → m.meter.remaining < k →
    runLoop cr n ctx m = runLoop cr k ctx m := by
  induction n with
  | zero => intro k _ m _ h; omega
  | succ n ih =>
    intro k ctx m hb hn hk
    obtain ⟨k, rfl⟩ : ∃ j, k = j + 1 := ⟨k - 1, by omega⟩
    have hsub : ∀ w c lim, lim < m.meter.remaining → start (runLoop cr n) w c lim = start (runLoop cr k) w c lim := by
      intro w c lim hlim; unfold start
      split
      · rfl
      · refine ih k c (Machine.init w lim) (Nat.zero_le lim) ?_ ?_ <;>
          rw [Machine.init_remaining] <;> omega
    simp only [runLoop]
    split
    · rfl
    rw [step_congr hsub]
    split
    · rename_i u m' hstep; have he := (step_spec cr ctx _).ok hstep
      have hs := ok_of_wp (step_spends m) hstep
      have h1 := he.limit
      have h2 := he.bounded hb
      refine ih k ctx m' h2 ?_ ?_ <;> unfold EnergyMeter.remaining at hn hk ⊢ <;> omega
    · rfl
    · rfl

/-- A nested frame in a loop with enough fuel is `runFrame`. -/
lemma start_runLoop_eq {lim : Nat} (h : lim < n) : start (runLoop cr n) w c lim = runFrame cr w c lim := by
  unfold runFrame start
  split
  · rfl
  · exact runLoop_fuel_irrelevant n (lim + 1) c _ (Nat.zero_le _) h (Nat.lt_succ_self _)

/-- The loop's nested frames are `runFrame`: fuel does not show in a step. -/
lemma step_runLoop_eq (h : m.meter.remaining ≤ n) :
    step cr (start (runLoop cr n)) ctx byte m = step cr (runFrame cr) ctx byte m :=
  step_congr fun w c lim hlim => start_runLoop_eq w c (by omega)

lemma runFrame_ne_fuel : runFrame cr w c lim ≠ .error .fuel := by
  unfold runFrame start
  split
  · exact nofun
  · exact runLoop_ne_fuel _ c _ (Nat.zero_le _) (Nat.lt_succ_self _)

end TronRs.Vm

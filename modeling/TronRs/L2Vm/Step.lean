import TronRs.L2Vm.Engine

/-!
# What one instruction can do

Everything later modules need to know about `step` is in `step_spec` and `step_charges`.

* An instruction is `Local` unless it is SSTORE, CALL or SELFDESTRUCT: it moves the stack,
  memory and the meter, and leaves the world alone.
* `WorldStep` lists what an instruction that does not end in SELFDESTRUCT can do to the
  world: nothing, one storage write, or one nested frame that is committed or reverted.
* `step_charges`: an instruction that does not end the frame costs at least one unit of
  energy, and a nested frame gets less than what was left.
-/
namespace TronRs.Vm

open TronRs.Core

variable {n : Nat} {sub : SubRun} {a : Bytes} {m m' m1 m2 m3 : Machine} {cr : Crypto} {ctx : Ctx} {byte : UInt8}
variable {op : OpCode} {e : Stop}

/-- Nothing but the stack, memory, program counter and meter changed. -/
structure Local (m m' : Machine) : Prop where
  world : m'.world = m.world
  dropped : m'.dropped = m.dropped
  limit : m'.meter.limit = m.meter.limit
  used : m.meter.used ≤ m'.meter.used
  bounded : m.meter.used ≤ m.meter.limit → m'.meter.used ≤ m'.meter.limit

namespace Local

lemma refl (m : Machine) : Local m m := ⟨rfl, rfl, rfl, le_rfl, id⟩

lemma trans {a b c : Machine} (h1 : Local a b) (h2 : Local b c) : Local a c where
  world := h2.world.trans h1.world
  dropped := h2.dropped.trans h1.dropped
  limit := h2.limit.trans h1.limit
  used := h1.used.trans h2.used
  bounded := fun h => h2.bounded (h1.bounded h)

lemma of_meter {m m' : Machine} (hw : m'.world = m.world) (hd : m'.dropped = m.dropped)
    (hm : m'.meter = m.meter) : Local m m' :=
  ⟨hw, hd, by rw [hm], by rw [hm], by rw [hm]; exact id⟩

end Local

/-- A stop that neither destroys a contract nor comes from running out of fuel. -/
def Plain : Stop → Prop
  | .halt h _ => h ≠ .selfDestruct
  | .abort a => a ≠ .fuel

/-- A program over the machine that leaves the world alone. -/
def Quiet {α : Type} (p : Op α) : Prop := Keeps Local (fun m e m' => Plain e ∧ Local m m') p

namespace Quiet
variable {α β : Type} {p : Op α}

lemma bind {f : α → Op β} (hp : Quiet p) (hf : ∀ a, Quiet (f a)) : Quiet (p >>= f) :=
  Keeps.bind hp hf (fun _ _ _ h => h) (fun _ _ _ _ h1 h2 => ⟨h2.1, h1.trans h2.2⟩) (fun _ _ _ h1 h2 => h1.trans h2)

lemma pure (a : α) : Quiet (Pure.pure a) := fun m => Local.refl m

lemma get : Quiet (MonadState.get : Op Machine) := fun m => Local.refl m

/-- Reading the machine first: what follows may depend on what was read. -/
lemma read {f : Machine → Op β} (hf : ∀ m, wp (f m) m (fun _ t => Local m t)
    (fun e t => Plain e ∧ Local m t)) : Quiet (MonadState.get >>= f) := fun m => by
  rw [wp_bind, wp_get]; exact hf m

lemma throw (he : Plain e) : Quiet (MonadExcept.throw e : Op α) :=
  fun m => ⟨he, Local.refl m⟩

lemma halt {h : Halt} (hh : h ≠ .selfDestruct) : Quiet (Vm.halt h : Op α) := throw hh

lemma badOpcode (byte : UInt8) : Quiet (Vm.halt (.badOpcode byte) : Op α) := halt (by simp)

lemma after {m m1 : Machine} (h : Local m m1) (hp : Quiet p) :
    wp p m1 (fun _ t => Local m t) (fun e t => Plain e ∧ Local m t) :=
  wp_mono (hp m1) (fun _ _ h1 => h.trans h1) (fun _ _ h1 => ⟨h1.1, h.trans h1.2⟩)

lemma ite {c : Prop} [Decidable c] {q : Op α} (hp : Quiet p) (hq : Quiet q) : Quiet (if c then p else q) := by
  split
  · exact hp
  · exact hq

lemma pop : Quiet Vm.pop := by
  refine read fun m => ?_
  split
  · exact Local.of_meter rfl rfl rfl
  · exact halt (by decide) m

lemma push (v : U256) : Quiet (Vm.push v) := by
  refine read fun m => ?_
  split
  · exact halt (by decide) m
  · exact Local.of_meter rfl rfl rfl

/-- What most instructions end with: a result pushed, and on to the next instruction. -/
lemma pushed (v : U256) : Quiet (Vm.push v >>= fun _ => Pure.pure (none : Option Nat)) :=
    bind (push v) fun _ => pure none

end Quiet

lemma EnergyMeter.charge_eq_some {m m' : EnergyMeter} (h : m.charge n = some m') :
    m'.limit = m.limit ∧ m'.used = m.used + n ∧ m'.used ≤ m'.limit := by
  unfold EnergyMeter.charge at h
  split at h
  · rename_i hc; cases h; exact ⟨rfl, rfl, hc.2⟩
  · cases h

namespace Quiet
variable {α β : Type} (off : Nat) (b : Bytes)

lemma charge (n : Nat) : Quiet (Vm.charge n) := by
  refine read fun m => ?_
  split
  · rename_i meter hm; obtain ⟨h1, h2, h3⟩ := EnergyMeter.charge_eq_some hm
    exact ⟨rfl, rfl, h1, by simp only; omega, fun _ => h3⟩
  · exact halt (by decide) m

lemma expandTo (n : Nat) : Quiet (Vm.expandTo n) := by
  refine read fun m => ?_
  rw [wp_ite]; refine ⟨fun _ => Local.refl m, fun _ => ?_⟩
  simp only [wp_bind, wp_ensure, wp_set, wp_pure]
  exact ⟨fun _ => Local.of_meter rfl rfl rfl, fun _ => ⟨(fun h => by cases h), Local.refl m⟩⟩

lemma chargeMem (n : Nat) : Quiet (Vm.chargeMem n) := bind (expandTo n) fun c => charge c

lemma writeSlice : Quiet (Vm.writeSlice off b) := by
  refine read fun m => ?_
  simp only [wp_bind, wp_ensure, wp_set]
  exact ⟨fun _ => Local.of_meter rfl rfl rfl, fun _ => ⟨(fun h => by cases h), Local.refl m⟩⟩

lemma writeEach : Quiet (Vm.writeEach off b) :=
  ite (pure ()) (writeSlice off b)

lemma binary (f : U256 → U256 → U256) : Quiet (Vm.binary f) :=
  bind pop fun _ => bind pop fun _ => pushed _

lemma copyOp (src : Bytes) : Quiet (Vm.copyOp src) :=
  bind pop fun _ => bind pop fun _ => bind pop fun _ => bind (chargeMem _) fun _ =>
    bind (writeEach _ _) fun _ => pure none

lemma jumpTo (code : Bytes) (dest : U256) : Quiet (Vm.jumpTo code dest) :=
  ite (halt (by decide)) (pure _)

lemma haltWith {h : Halt} (hh : h ≠ .selfDestruct) : Quiet (Vm.haltWith h) :=
  bind pop fun _ => bind pop fun _ => bind (chargeMem _) fun _ => bind get fun _ => throw hh

end Quiet

/-! ## Instructions that touch the world -/

/-- What an instruction can do to the world (and to the ghost count `d` of dropped undo
records) when nested frames are run by `sub` with at most `budget` energy. -/
inductive WorldStep (sub : SubRun) (budget : Nat) (address : Bytes) (w : World) (d : Nat) :
    World → Nat → Prop where
  | same : WorldStep sub budget address w d w d
  | store (slot value : U256) : WorldStep sub budget address w d (w.sstore address slot value) d
  | commit {c : Ctx} {lim : Nat} {e : Exec} {w1 : World} : lim ≤ budget →
      sub w c lim = .ok (e, w1) → haltIsSuccess e.halt = true →
      WorldStep sub budget address w d (w1.commit w.checkpoint)
        (d + e.dropped + (w1.journal.length - w.checkpoint))
  | revert {c : Ctx} {lim : Nat} {e : Exec} {w1 : World} : lim ≤ budget →
      sub w c lim = .ok (e, w1) → haltIsSuccess e.halt = false →
      WorldStep sub budget address w d (w1.revertTo w.checkpoint) (d + e.dropped)

lemma WorldStep.weaken {b b' : Nat} {w w' : World} {d d' : Nat}
    (h : WorldStep sub b a w d w' d') (hb : b ≤ b') : WorldStep sub b' a w d w' d' := by
  cases h with
  | same => exact .same
  | store s v => exact .store s v
  | commit hl hs hh => exact .commit (hl.trans hb) hs hh
  | revert hl hs hh => exact .revert (hl.trans hb) hs hh

/-- One instruction's effect on the machine. -/
structure Effect (sub : SubRun) (address : Bytes) (m m' : Machine) : Prop where
  world : WorldStep sub m.meter.remaining address m.world m.dropped m'.world m'.dropped
  limit : m'.meter.limit = m.meter.limit
  used : m.meter.used ≤ m'.meter.used
  bounded : m.meter.used ≤ m.meter.limit → m'.meter.used ≤ m'.meter.limit

/-- How an instruction can stop the frame: with a plain halt after at most one effect, by
destroying the executing contract, by a panic, or because a nested frame ran out of fuel. -/
inductive EffectErr (sub : SubRun) (address : Bytes) (m : Machine) : Stop → Machine → Prop where
  | plain {h : Halt} {out : Bytes} {m' : Machine} : h ≠ .selfDestruct → Effect sub address m m' →
      EffectErr sub address m (.halt h out) m'
  | destroy {out : Bytes} {m' : Machine} (contract beneficiary : Address) :
      m.world.hostBacked = false → m'.dropped = m.dropped →
      m'.world = m.world.suicide contract beneficiary →
      EffectErr sub address m (.halt .selfDestruct out) m'
  | panic {m' : Machine} : EffectErr sub address m (.abort .panic) m'
  | fuel {w : World} {c : Ctx} {lim : Nat} {m' : Machine} : lim ≤ m.meter.remaining →
      sub w c lim = .error .fuel → EffectErr sub address m (.abort .fuel) m'

lemma EffectErr.of_effect (he : Plain e) (h : Effect sub a m m') : EffectErr sub a m e m' := by
  match e, he with
  | .halt _ _, he => exact .plain he h
  | .abort .panic, _ => exact .panic
  | .abort .fuel, he => exact absurd rfl he

lemma Local.effect (h : Local m m') : Effect sub a m m' :=
  ⟨by rw [h.world, h.dropped]; exact .same, h.limit, h.used, h.bounded⟩

lemma Local.remaining (h : Local m m') : m'.meter.remaining ≤ m.meter.remaining := by
  have h1 := h.limit
  have h2 := h.used; unfold EnergyMeter.remaining; omega

lemma Local.then_effect (h : Local m1 m2) (h' : Effect sub a m2 m3) : Effect sub a m1 m3 where
  world := by
    have hw := h'.world.weaken h.remaining; rwa [h.world, h.dropped] at hw
  limit := h'.limit.trans h.limit
  used := h.used.trans h'.used
  bounded := fun hb => h'.bounded (h.bounded hb)

lemma Effect.then_local (h : Effect sub a m1 m2) (h' : Local m2 m3) : Effect sub a m1 m3 where
  world := by rw [h'.world, h'.dropped]; exact h.world
  limit := h'.limit.trans h.limit
  used := h.used.trans h'.used
  bounded := fun hb => h'.bounded (h.bounded hb)

lemma Local.then_err (h : Local m1 m2) (h' : EffectErr sub a m2 e m3) : EffectErr sub a m1 e m3 := by
  cases h' with
  | plain hh he => exact .plain hh (h.then_effect he)
  | destroy c b hb hd hw =>
    rw [h.world] at hb hw; exact .destroy c b hb (hd.trans h.dropped) hw
  | panic => exact .panic
  | fuel hl hs => exact .fuel (hl.trans h.remaining) hs

/-- A program whose world effect is at most one instruction's. -/
def Acts (sub : SubRun) (address : Bytes) {α : Type} (p : Op α) : Prop :=
  Keeps (Effect sub address) (EffectErr sub address) p

section Acts
variable {sub : SubRun} {a : Bytes} {α β : Type} {cr : Crypto} {byte : UInt8} {f : α → Op β}

lemma Quiet.acts {p : Op α} (h : Quiet p) : Acts sub a p :=
  Keeps.mono h (fun _ _ hl => hl.effect) (fun _ _ _ hl => .of_effect hl.1 hl.2.effect)

lemma Quiet.bind_acts {p : Op α} (hp : Quiet p) (hf : ∀ x, Acts sub a (f x)) : Acts sub a (p >>= f) :=
  Keeps.bind hp hf (fun _ _ _ h => .of_effect h.1 h.2.effect) (fun _ _ _ _ h1 h2 => h1.then_err h2)
    (fun _ _ _ h1 h2 => h1.then_effect h2)

lemma Acts.bind_quiet {p : Op α} (hp : Acts sub a p) (hf : ∀ x, Quiet (f x)) : Acts sub a (p >>= f) :=
  Keeps.bind hp hf (fun _ _ _ h => h) (fun _ _ _ _ h1 h2 => .of_effect h2.1 (h1.then_local h2.2))
    (fun _ _ _ h1 h2 => h1.then_local h2)

lemma charge_getD_bounds (m : EnergyMeter) (n : Nat) :
    ((m.charge n).getD m).limit = m.limit ∧ m.used ≤ ((m.charge n).getD m).used ∧
      (m.used ≤ m.limit → ((m.charge n).getD m).used ≤ ((m.charge n).getD m).limit) := by
  cases h : m.charge n with
  | none => exact ⟨rfl, le_rfl, id⟩
  | some =>
    obtain ⟨h1, h2, h3⟩ := EnergyMeter.charge_eq_some h
    exact ⟨h1, by simp only [Option.getD_some]; omega, fun _ => h3⟩

lemma acts_callContract (depth : Nat) (callee code input : Bytes) (gas : U256) :
    Acts sub a (callContract sub depth callee code input gas) := by
  intro m; unfold callContract; rw [wp_bind, wp_get]
  dsimp only
  have hlim : min (low64 gas) (m.meter.remaining - m.meter.remaining / 64) ≤ m.meter.remaining := by omega
  cases hs : sub m.world ⟨callee, code, input, depth + 1⟩
      (min (low64 gas) (m.meter.remaining - m.meter.remaining / 64)) with
  | error e =>
    cases e with
    | panic => exact .panic
    | fuel => exact .fuel hlim hs
  | ok r =>
    obtain ⟨e, w⟩ := r
    obtain ⟨h1, h2, h3⟩ := charge_getD_bounds m.meter e.energyUsed
    refine ⟨?_, h1, h2, h3⟩
    cases hh : haltIsSuccess e.halt with
    | true => simpa only [if_true] using .commit hlim hs hh
    | false => simpa only [Bool.false_eq_true, if_false, Nat.add_zero] using .revert hlim hs hh

lemma acts_dispatchCall (cr : Crypto) (depth : Nat) (addrWord gas : U256) (input : Bytes) :
    Acts sub a (dispatchCall cr sub depth addrWord gas input) := by
  refine Quiet.bind_acts .get fun m => ?_
  dsimp only
  split
  · exact (Quiet.bind (.charge _) fun _ => .pure _).acts
  · split
    · exact (Quiet.pure _).acts
    · exact acts_callContract _ _ _ _ _

/-- What CALL does once the call has returned: keep the output, copy it to memory, push the flag. Mirrors
vm/src/engine.rs:285-291. -/
def finishCall (retOff retLen : Nat) (r : Bool × Bytes) : Op (Option Nat) := do
  modify fun m => { m with lastReturnData := r.2 }
  if r.1 ∧ retLen > 0 then
    chargeMem (satAdd64 retOff retLen)
    writeSlice retOff (r.2.take (min retLen r.2.length))
  push (ofBool r.1)
  pure none

lemma quiet_finishCall (retOff retLen : Nat) (r : Bool × Bytes) : Quiet (finishCall retOff retLen r) := by
  refine Quiet.bind (fun m => Local.of_meter rfl rfl rfl) fun _ => ?_
  split
  · exact .bind (.chargeMem _) fun _ => .bind (.writeSlice _ _) fun _ => .pushed _
  · exact .pushed _

lemma acts_callOp (cr : Crypto) (depth : Nat) : Acts sub a (callOp cr sub depth) := by
  unfold callOp
  -- seven operands and the argument memory, the call itself, then the return data
  refine Quiet.bind_acts .pop fun _ => Quiet.bind_acts .pop fun _ => Quiet.bind_acts .pop fun _ =>
    Quiet.bind_acts .pop fun _ => Quiet.bind_acts .pop fun _ => Quiet.bind_acts .pop fun _ =>
    Quiet.bind_acts .pop fun _ => Quiet.bind_acts (.chargeMem _) fun _ =>
    Quiet.bind_acts .get fun _ => Acts.bind_quiet (acts_dispatchCall cr depth _ _ _) fun r => quiet_finishCall _ _ r

lemma acts_selfDestructOp (ctx : Ctx) (byte : UInt8) : Acts sub ctx.address (selfDestructOp ctx byte) := by
  intro m; unfold selfDestructOp; rw [wp_bind, wp_get]
  cases hb : m.world.hostBacked with
  | true => exact .plain (by simp) (Local.refl m).effect
  | false =>
    simp only [Bool.false_eq_true, if_false]; rw [wp_bind]
    refine wp_mono (Quiet.pop m) (fun word m1 h1 => ?_) (fun e t h => .of_effect h.1 h.2.effect)
    split
    · rw [wp_bind, wp_get, wp_bind]
      refine wp_mono (Quiet.charge _ m1) (fun _ m2 h2 => ?_) (fun e t h => .of_effect h.1 (h1.trans h.2).effect)
      have h12 := h1.trans h2; rw [wp_bind, wp_modify]
      exact .destroy _ _ hb h12.dropped (by simp only [h12.world]; rfl)
    · exact .of_effect (fun h => by cases h) h1.effect

lemma acts_sstore (ctx : Ctx) : Acts sub ctx.address (instr cr sub ctx byte .sstore) := by
  unfold instr
  refine Quiet.bind_acts .pop fun key => Quiet.bind_acts .pop fun value => Quiet.bind_acts .get
    fun _ => Quiet.bind_acts (.charge _) fun _ => ?_
  exact fun m => ⟨.store key value, rfl, le_rfl, id⟩

/-- Only SSTORE, CALL and SELFDESTRUCT touch the world. -/
lemma quiet_instr {ctx : Ctx} (hstore : op ≠ .sstore) (hcall : op ≠ .call)
    (hdestroy : op ≠ .selfDestruct) : Quiet (instr cr sub ctx byte op) := by
  cases op with
  | sstore => exact absurd rfl hstore
  | call => exact absurd rfl hcall
  | selfDestruct => exact absurd rfl hdestroy
  | add | sub | mul | div | mod | exp | lt | gt | eq | and | or | xor => exact .binary _
  | stop => exact .halt (by decide)
  | isZero | callDataLoad => exact .bind .pop fun _ => .pushed _
  | pop => exact .bind .pop fun _ => .pure none
  | dup1 =>
    refine .read fun m => ?_
    split
    · exact Quiet.pushed _ m
    · exact Quiet.halt (by decide) m
  | swap1 =>
    refine .read fun m => ?_
    split
    · exact Local.of_meter rfl rfl rfl
    · exact Quiet.halt (by decide) m
  | push1 | push2 =>
    refine .read fun m => ?_
    rw [wp_bind, wp_set]
    exact Quiet.after (Local.of_meter rfl rfl rfl) (.pushed _)
  | callDataSize => exact .pushed _
  | returnDataSize => exact .bind .get fun _ => .pushed _
  | returnDataCopy => exact .bind .get fun _ => .copyOp _
  | callDataCopy => exact .copyOp _
  | mload => exact .bind .pop fun _ => .bind (.chargeMem _) fun _ => .bind .get fun _ => .pushed _
  | mstore | mstore8 =>
    exact (.bind .pop fun _ => .bind .pop fun _ => .bind (.chargeMem _) fun _ => .bind (.writeSlice _ _) fun _ =>
      .pure none : Quiet _)
  | sload => exact .bind .pop fun _ => .bind .get fun _ => .pushed _
  | jump => exact .bind .pop fun _ => .jumpTo _ _
  | jumpi => exact .bind .pop fun _ => .bind .pop fun _ => .ite (.pure _) (.jumpTo _ _)
  | jumpdest => exact .pure none
  | ret | revert => exact .haltWith (by decide)
  | voteWitness =>
    exact (.bind .pop fun _ => .bind .pop fun _ => .bind .pop fun _ => .bind .pop fun _ => .bind (.charge _) fun _ =>
      .bind (.chargeMem _) fun _ => .pushed _ : Quiet _)
  | _ => exact .badOpcode byte

lemma acts_instr (cr : Crypto) (ctx : Ctx) (byte : UInt8) (op : OpCode) :
    Acts sub ctx.address (instr cr sub ctx byte op) := by
  by_cases hstore : op = .sstore
  · subst hstore; exact acts_sstore ctx
  by_cases hcall : op = .call
  · subst hcall; exact acts_callOp cr ctx.depth
  · by_cases hdestroy : op = .selfDestruct
    · subst hdestroy; exact acts_selfDestructOp ctx byte
    · exact (quiet_instr hstore hcall hdestroy).acts

/-- **What one instruction can do.** -/
theorem step_spec (cr : Crypto) (ctx : Ctx) (byte : UInt8) : Acts sub ctx.address (step cr sub ctx byte) := by
  unfold step
  split
  · exact (Quiet.badOpcode byte).acts
  rename_i op _; dsimp only
  split
  · refine Quiet.bind_acts (.charge _) fun _ => Acts.bind_quiet (acts_instr cr ctx byte op) fun r m => ?_
    cases r <;> exact Local.of_meter rfl rfl rfl
  · refine Acts.bind_quiet (acts_instr cr ctx byte op) fun r m => ?_
    cases r <;> exact Local.of_meter rfl rfl rfl

end Acts

/-! ## Energy -/

theorem charge_eq_ok {u : Unit} (h : charge n m = .ok u m') :
    m'.meter.limit = m.meter.limit ∧ m'.meter.used = m.meter.used + n ∧ m'.meter.used ≤ m'.meter.limit := by
  have hw : wp (charge n) m (fun _ t => m.meter.charge n = some t.meter) (fun _ _ => True) := by
    unfold charge; rw [wp_bind, wp_get]
    split
    · assumption
    · trivial
  have hc := ok_of_wp hw h; exact EnergyMeter.charge_eq_some hc

/-- When `p` returns, it has charged at least `n`. -/
def Spends (n : Nat) {α : Type} (p : Op α) : Prop :=
  ∀ m, wp p m (fun _ m' => m.meter.used + n ≤ m'.meter.used) (fun _ _ => True)

namespace Spends
variable {α β : Type} {n k : Nat} {p : Op α}

lemma bind {f : α → Op β} (hp : Spends n p) (hf : ∀ a, Spends k (f a)) : Spends (n + k) (p >>= f) := fun m => by
  rw [wp_bind]; refine wp_mono (hp m) (fun a m1 h1 => ?_) (fun _ _ _ => trivial)
  exact wp_mono (hf a m1) (fun _ m2 h2 => by omega) (fun _ _ _ => trivial)

lemma of_quiet (hp : Quiet p) : Spends 0 p := fun m =>
  wp_mono (hp m) (fun _ _ h => h.used) (fun _ _ _ => trivial)

lemma of_acts {sub : SubRun} {a : Bytes} (hp : Acts sub a p) : Spends 0 p := fun m =>
  wp_mono (hp m) (fun _ _ h => h.used) (fun _ _ _ => trivial)

lemma mono (hp : Spends n p) (h : k ≤ n) : Spends k p := fun m =>
  wp_mono (hp m) (fun _ _ h1 => by omega) (fun _ _ _ => trivial)

lemma charge (n : Nat) : Spends n (Vm.charge n) := fun _ =>
  wp_iff.mpr ⟨fun _ _ h => (charge_eq_ok h).2.1.ge, fun _ _ _ => trivial⟩

end Spends

/-- `p` never returns: it always stops the frame. -/
def Ends {α : Type} (p : Op α) : Prop := ∀ m, wp p m (fun _ _ => False) (fun _ _ => True)

namespace Ends
variable {α β : Type} {p : Op α} (h : Halt)

lemma bind {f : α → Op β} (hf : ∀ a, Ends (f a)) : Ends (p >>= f) := fun m => by
  rw [wp_bind, wp_iff]; exact ⟨fun a m1 _ => hf a m1, fun _ _ _ => trivial⟩

lemma halt : Ends (Vm.halt h : Op α) := fun _ => trivial

lemma spends (h : Ends p) (n : Nat) : Spends n p := fun m =>
  wp_mono (h m) (fun _ _ hf => hf.elim) (fun _ _ _ => trivial)

lemma haltWith : Ends (Vm.haltWith h) :=
  bind fun _ => bind fun _ => bind fun _ => bind fun _ _ => trivial

lemma selfDestructOp (ctx : Ctx) (byte : UInt8) : Ends (Vm.selfDestructOp ctx byte) := by
  refine bind fun m => ?_
  dsimp only
  split
  on_goal 1 => refine bind fun _ => ?_
  all_goals
    refine bind fun _ => ?_
    split
    · exact bind fun _ => bind fun _ => bind fun _ => halt _
    · exact halt _

end Ends

lemma sstoreCost_pos (a b : Bool) : 1 ≤ sstoreCost a b := by
  cases a <;> cases b <;> decide

/-- An instruction that is free in the base table ends the frame or charges for itself. -/
lemma spends_instr_of_free (h : op = .sstore ∨ baseCost op = 0) : Spends 1 (instr cr sub ctx byte op) := by
  cases op with
  | stop => exact (Ends.halt _).spends 1
  | ret | revert => exact (Ends.haltWith _).spends 1
  | invalid => exact (Ends.halt _).spends 1
  | selfDestruct => exact (Ends.selfDestructOp ctx byte).spends 1
  | sstore =>
    refine (Spends.bind (.of_quiet .pop) fun _ => .bind (.of_quiet .pop) fun _ =>
      .bind (.of_quiet .get) fun _ => .bind ((Spends.charge _).mono (sstoreCost_pos _ _)) fun _ =>
      fun m => ?_ : Spends (0 + (0 + (0 + (1 + 0)))) _)
    exact le_rfl
  | voteWitness =>
    exact (Spends.bind (.of_quiet .pop) fun _ => .bind (.of_quiet .pop) fun _ =>
      .bind (.of_quiet .pop) fun _ => .bind (.of_quiet .pop) fun _ => .bind (.charge _) fun _ =>
      .bind (.of_quiet (.chargeMem _)) fun _ => .bind (.of_quiet (.push _)) fun _ =>
      .of_quiet (.pure none)).mono (by decide)
  | _ => rcases h with h | h <;> cases h

/-- **Every instruction that does not end the frame costs energy.** -/
theorem step_spends : Spends 1 (step cr sub ctx byte) := by
  unfold step
  split
  · exact (Ends.halt _).spends 1
  rename_i op _; dsimp only
  by_cases hs : op = .sstore
  · rw [if_neg (not_not.mpr hs)]
    refine Spends.bind (k := 0) (spends_instr_of_free (.inl hs)) fun r m => ?_
    cases r <;> exact le_rfl
  · rw [if_pos hs]
    by_cases h0 : baseCost op = 0
    · refine (Spends.bind (k := 1 + 0) (.charge _) fun _ => ?_).mono (by omega)
      refine Spends.bind (spends_instr_of_free (.inr h0)) fun r m => ?_
      cases r <;> exact le_rfl
    · refine (Spends.bind (k := 0 + 0) (.charge _) fun _ => ?_).mono (by omega)
      refine Spends.bind (.of_acts (acts_instr cr ctx byte op : Acts sub _ _)) fun r m => ?_
      cases r <;> exact le_rfl

/-- Only CALL runs nested frames. -/
lemma instr_sub_irrelevant
    (h : op ≠ .call) (sub sub' : SubRun) : instr cr sub ctx byte op = instr cr sub' ctx byte op := by
  cases op with
  | call => exact absurd rfl h
  | _ => rfl

lemma executeCode_ok {address code data : Bytes} {limit depth : Nat} {r : CallResult}
    {w0 w : World} (h : executeCode cr w0 address code data limit depth = .ok (r, w)) :
    ∃ e, runFrame cr w0 ⟨address, code, data, depth⟩ limit = .ok (e, w) ∧ r.success = haltIsSuccess e.halt := by
  unfold executeCode at h
  cases hr : runFrame cr w0 ⟨address, code, data, depth⟩ limit with
  | error =>
    rw [hr] at h; cases h
  | ok =>
    rw [hr] at h; cases h; exact ⟨_, rfl, rfl⟩

end TronRs.Vm

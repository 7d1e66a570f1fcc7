import TronRs.L2Vm.Frames

/-!
# Energy accounting

`EnergyMeter` (`crates/vm/src/lib.rs:29`) over whole executions of `run_frame`, nested frames included.

* `Frame.energyUsed_le`: a frame never uses more than its limit.
* `step_of_startedFrame`: a CALL of a contract is the callee's run on what `startedFrame` forwards, and then
  the rest of the instruction on the machine `afterCall`.
* `callAccounted`: all but a 64th can be forwarded, the caller is charged exactly what the callee used
  (the charge whose result the source ignores succeeds) and keeps its 64th.
* `bounded_execution`: a frame ends, and the frame and all frames below it dispatch at most `2 * E + 1`
  instructions on an energy limit of `E`.
-/
namespace TronRs.Vm

open TronRs.Core
open EnergyMeter (remaining)

variable {cr : Crypto} {f : Frame} {m : Machine}

/-! ## The meter goes up, and not beyond its limit -/

/-- From `m` to `m'` the meter has only been charged. -/
structure Metered (m m' : Machine) : Prop where
  limit : m'.meter.limit = m.meter.limit
  used : m.meter.used ≤ m'.meter.used
  bounded : m.Bounded → m'.Bounded

lemma Metered.of_meter {m' : Machine} (h : m'.meter = m.meter) : Metered m m' where
  limit := by rw [h]
  used := by rw [h]
  bounded hb := by rwa [Machine.Bounded, h]

lemma Metered.trans {a b c : Machine} (h1 : Metered a b) (h2 : Metered b c) : Metered a c where
  limit := h2.limit.trans h1.limit
  used := h1.used.trans h2.used
  bounded hb := h2.bounded (h1.bounded hb)

lemma Local.metered {m' : Machine} (h : Local m m') : Metered m m' := ⟨h.limit, h.used, h.bounded⟩

/-- Whatever the outcome, `p` has only charged the meter. -/
def Meters {α : Type} (p : Op α) : Prop := Keeps Metered (fun m _ m' => Metered m m') p

namespace Meters
variable {α β : Type} {sub : SubRun} {p : Op α} (depth : Nat)

lemma of_quiet (h : Quiet p) : Meters p :=
  Keeps.mono h (fun _ _ hl => hl.metered) (fun _ _ _ hl => hl.2.metered)

lemma bind {k : α → Op β} (hp : Meters p) (hk : ∀ a, Meters (k a)) : Meters (p >>= k) :=
  Keeps.bind hp hk (fun _ _ _ h => h) (fun _ _ _ _ h1 h2 => h1.trans h2) (fun _ _ _ h1 h2 => h1.trans h2)

lemma modifies {g : Machine → Machine} (h : ∀ m, (g m).meter = m.meter) : Meters (modify g : Op PUnit) :=
  fun m => Metered.of_meter (h m)

lemma callContract (callee code input : Bytes) (gas : U256) :
    Meters (Vm.callContract sub depth callee code input gas) := by
  intro m
  unfold Vm.callContract
  rw [wp_bind, wp_get]
  dsimp only
  cases sub m.world ⟨callee, code, input, depth + 1⟩
      (min (low64 gas) (m.meter.remaining - m.meter.remaining / 64)) with
  | error e => exact .of_meter rfl
  | ok r =>
    obtain ⟨h1, h2, h3⟩ := charge_getD_bounds m.meter r.1.energyUsed
    exact ⟨h1, h2, h3⟩

lemma dispatchCall (addrWord gas : U256) (input : Bytes) :
    Meters (Vm.dispatchCall cr sub depth addrWord gas input) := by
  refine bind (of_quiet .get) fun m => ?_
  dsimp only
  split
  · exact of_quiet (.bind (.charge _) fun _ => .pure _)
  · split
    · exact of_quiet (.pure _)
    · exact callContract _ _ _ _ _

variable (ctx : Ctx) (byte : UInt8)

lemma callOp : Meters (Vm.callOp cr sub depth) := by
  unfold Vm.callOp
  refine bind (of_quiet .pop) fun _ => bind (of_quiet .pop) fun _ => bind (of_quiet .pop) fun _ =>
    bind (of_quiet .pop) fun _ => bind (of_quiet .pop) fun _ => bind (of_quiet .pop) fun _ =>
    bind (of_quiet .pop) fun _ => bind (of_quiet (.chargeMem _)) fun _ => bind (of_quiet .get) fun _ =>
    bind (dispatchCall _ _ _ _) fun r => of_quiet (quiet_finishCall _ _ r)

lemma selfDestructOp : Meters (Vm.selfDestructOp ctx byte) := by
  refine bind (of_quiet .get) fun m => ?_
  dsimp only
  split
  -- a host-backed world has stopped before the operand is popped
  on_goal 1 => refine bind (of_quiet (.badOpcode byte)) fun _ => ?_
  all_goals
    refine bind (of_quiet .pop) fun _ => ?_
    split
    · exact bind (of_quiet .get) fun _ => bind (of_quiet (.charge _)) fun _ => bind (modifies fun _ => rfl) fun _ =>
        fun m => .of_meter rfl
    · exact of_quiet (.badOpcode byte)

lemma instr (op : OpCode) : Meters (Vm.instr cr sub ctx byte op) := by
  by_cases hstore : op = .sstore
  · subst hstore
    exact bind (of_quiet .pop) fun _ => bind (of_quiet .pop) fun _ => bind (of_quiet .get) fun _ =>
      bind (of_quiet (.charge _)) fun _ => bind (modifies fun _ => rfl) fun _ => of_quiet (.pure none)
  · by_cases hcall : op = .call
    · subst hcall; exact callOp ctx.depth
    · by_cases hdestroy : op = .selfDestruct
      · subst hdestroy; exact selfDestructOp ctx byte
      · exact of_quiet (quiet_instr hstore hcall hdestroy)

lemma step (cr : Crypto) (ctx : Ctx) (byte : UInt8) : Meters (Vm.step cr sub ctx byte) := by
  unfold Vm.step
  split
  · exact of_quiet (.badOpcode byte)
  rename_i op _
  split
  · refine bind (of_quiet (.charge _)) fun _ => bind (instr ctx byte op) fun r => ?_
    cases r <;> exact modifies fun _ => rfl
  · refine bind (instr ctx byte op) fun r => ?_
    cases r <;> exact modifies fun _ => rfl

end Meters

/-- A loop that returns has used at least what it had used before, and at most its limit. -/
lemma energyUsed_runFrom {ctx : Ctx} {e : Exec} {w : World} (hb : m.Bounded)
    (h : runFrom cr ctx m = .ok (e, w)) : m.meter.used ≤ e.energyUsed ∧ e.energyUsed ≤ m.meter.limit := by
  -- the energy left goes down with every instruction
  induction hr : m.meter.remaining using Nat.strong_induction_on generalizing m with
  | _ r ih =>
    cases hf : ctx.code[m.pc]? with
    | none =>
      rw [runFrom_end hf] at h; cases h; exact ⟨le_rfl, hb⟩
    | some byte =>
      cases hs : step cr (runFrame cr) ctx byte m with
      | ok u m' =>
        have hmet := (Meters.step cr ctx byte).ok hs
        have hpaid := ok_of_wp (step_spends m) hs
        have hb' := hmet.bounded hb
        have hlim := hmet.limit; rw [runFrom_next hb hf hs] at h
        have hle := ih m'.meter.remaining (by unfold remaining at hr ⊢; unfold Machine.Bounded at hb'; omega)
          hb' h rfl
        omega
      | error stop =>
        have hmet := (Meters.step cr ctx byte).error hs
        cases stop with
        | halt =>
          rw [runFrom_halt hf hs] at h; cases h
          exact ⟨hmet.used, (hmet.bounded hb).trans hmet.limit.le⟩
        | abort =>
          rw [runFrom_abort hf hs] at h; cases h

/-- A frame uses at most its limit. -/
lemma Frame.energyUsed_le {e : Exec} {w : World} (h : f.run cr = .ok (e, w)) : e.energyUsed ≤ f.limit := by
  by_cases hd : f.ctx.depth > maxCallDepth
  · rw [run, runFrame, start, if_pos hd] at h; cases h; exact Nat.zero_le _
  · rw [(Head.start (Nat.le_of_not_lt hd)).run_eq] at h
    exact (energyUsed_runFrom (Machine.init_bounded _ _) h).2

/-! ## The call of a contract -/

/-- The caller's machine when the callee has returned. Mirrors vm/engine.rs:278-280. -/
def afterCall (m : Machine) (e : Exec) (w : World) : Machine :=
  { m with
    meter := (m.meter.charge e.energyUsed).getD m.meter
    world := if haltIsSuccess e.halt then w.commit m.world.checkpoint else w.revertTo m.world.checkpoint
    dropped := m.dropped + e.dropped + if haltIsSuccess e.halt then w.journal.length - m.world.checkpoint else 0 }

section Call
variable {sub : SubRun} {ctx : Ctx} {byte : UInt8} {m m1 : Machine} {g : Frame} {depth : Nat}
variable {gas addr value argsOff argsLen retOff retLen : U256} {rest : List U256} {input callee code : Bytes}
variable {e : Exec} {w : World}

variable (h : m.stack = gas :: addr :: value :: argsOff :: argsLen :: retOff :: retLen :: rest)
include h

lemma callFrame_of_stack :
    callFrame depth m = (do
      chargeMem (satAdd64 (low64 argsOff) (low64 argsLen))
      let m ← get
      dispatchFrame depth addr gas (getRange m.mem (low64 argsOff) (low64 argsLen)) : Op (Option Frame))
        { m with stack := rest } := by
  obtain ⟨meter, stack, mem, last, pc, world, dropped⟩ := m
  obtain rfl : stack = _ := h
  rfl

lemma callOp_of_stack : callOp cr sub depth m = (do
      chargeMem (satAdd64 (low64 argsOff) (low64 argsLen))
      let m ← get
      let r ← dispatchCall cr sub depth addr gas (getRange m.mem (low64 argsOff) (low64 argsLen))
      finishCall (low64 retOff) (low64 retLen) r : Op (Option Nat)) { m with stack := rest } := by
  obtain ⟨meter, stack, mem, last, pc, world, dropped⟩ := m
  obtain rfl : stack = _ := h
  rfl

omit h

/-- With fewer than seven operands CALL stops. -/
lemma stack_of_callFrame {o : Option Frame} (h : callFrame depth m = .ok o m1) :
    ∃ gas addr value argsOff argsLen retOff retLen rest,
      m.stack = gas :: addr :: value :: argsOff :: argsLen :: retOff :: retLen :: rest := by
  obtain ⟨meter, stack, mem, last, pc, world, dropped⟩ := m
  rcases stack with _ | ⟨gas, _ | ⟨addr, _ | ⟨value, _ | ⟨argsOff, _ | ⟨argsLen, _ | ⟨retOff, _ | ⟨retLen, rest⟩⟩⟩⟩⟩⟩⟩
  case cons.cons.cons.cons.cons.cons.cons => exact ⟨_, _, _, _, _, _, _, _, rfl⟩
  all_goals cases h

lemma stack_charge {n : Nat} {u : Unit} (h : charge n m = .ok u m1) : m1.stack = m.stack := by
  apply ok_elim h
  unfold charge; rw [wp_bind, wp_get]
  split
  · rfl
  · trivial

/-- All but a 64th of what is left, or what is asked for if that is less. -/
def forwarded (m : Machine) (gas : U256) : Nat :=
  min (low64 gas) (m.meter.remaining - m.meter.remaining / 64)

lemma dispatchFrame_eq_some (cr : Crypto) (sub : SubRun) (h : dispatchFrame depth addr gas input m = .ok (some g) m1) :
    m1 = m ∧ g.world = m.world ∧ g.limit = forwarded m gas ∧ g.ctx.depth = depth + 1 ∧
      dispatchCall cr sub depth addr gas input m =
        callContract sub depth g.ctx.address g.ctx.code g.ctx.calldata gas m := by
  unfold dispatchFrame at h
  obtain ⟨m', u, hget, h⟩ := seq_eq_ok.mp h
  cases hget
  unfold dispatchCall
  show _ ∧ _ ∧ _ ∧ _ ∧ EStateM.bind _ _ m = _
  unfold EStateM.bind
  simp only [MonadState.get, getThe, MonadStateOf.get, EStateM.get]
  cases hpre : (if addr.toNat < 256 then precompileEnergy (addr.toNat % 256) input else none) with
  | some =>
    rw [hpre] at h; cases h
  | none =>
    rw [hpre] at h; dsimp only at h ⊢
    split at h
    · cases h
    · rename_i hcode; rw [if_neg hcode]; cases h
      exact ⟨rfl, rfl, rfl, rfl, rfl⟩

/-- **A CALL of a contract.** The operands and the argument memory are paid for, which leaves the machine `m1`; the
callee runs on what is forwarded; the rest of the instruction follows on what the call returns. -/
theorem step_of_startedFrame (cr : Crypto) (sub : SubRun) (h : startedFrame ctx byte m = .ok (some g) m1) :
    ∃ gas retOff retLen rest, m.stack = gas :: rest ∧ Local m m1 ∧ m.meter.used + 40 ≤ m1.meter.used ∧
      g.world = m1.world ∧ g.limit = forwarded m1 gas ∧ g.ctx.depth = ctx.depth + 1 ∧
      step cr sub ctx byte m = (callContract sub ctx.depth g.ctx.address g.ctx.code g.ctx.calldata gas >>= fun r =>
        finishCall retOff retLen r >>= advance) m1 := by
  unfold startedFrame at h
  cases hop : OpCode.fromU8 byte with
  | none =>
    rw [hop] at h; cases h
  | some op =>
    rw [hop] at h
    cases op with
    | call =>
      obtain ⟨u, m0, hcharge, hcall⟩ := seq_eq_ok.mp h
      obtain ⟨gas, addr, value, argsOff, argsLen, retOff, retLen, rest, hstack⟩ := stack_of_callFrame hcall
      rw [callFrame_of_stack hstack] at hcall; obtain ⟨u', m2, hmem, hcall⟩ := seq_eq_ok.mp hcall
      obtain ⟨m', m2', hget, hcall⟩ := seq_eq_ok.mp hcall
      cases hget; obtain ⟨rfl, hworld, hlimit, hdepth, hdispatch⟩ := dispatchFrame_eq_some cr sub hcall
      have h0 := (Quiet.charge _).ok hcharge
      have hpop : Local m0 { m0 with stack := rest } := .of_meter rfl rfl rfl
      have h1 : Local { m0 with stack := rest } m1 := (Quiet.chargeMem _).ok hmem
      have hpaid := (charge_eq_ok hcharge).2.1
      have hused := h1.used
      refine ⟨gas, low64 retOff, low64 retLen, _, (stack_charge hcharge).symm.trans hstack,
        h0.trans (hpop.trans h1), by simp only [baseCost] at hpaid hused; omega, hworld, hlimit, hdepth, ?_⟩
      -- the callee runs on `m1`, the machine that `startedFrame` leaves
      have hcallOp : callOp cr sub ctx.depth m0 =
          (callContract sub ctx.depth g.ctx.address g.ctx.code g.ctx.calldata gas >>=
            finishCall (low64 retOff) (low64 retLen)) m1 := by
        rw [callOp_of_stack hstack, seq_of_ok hmem, seq_of_ok (rfl : (get : Op Machine) m1 = .ok m1 m1)]
        show EStateM.bind _ _ m1 = EStateM.bind _ _ m1; unfold EStateM.bind; rw [hdispatch]
      rw [step_of_op hop (by decide), seq_of_ok hcharge, ← bind_assoc]
      show EStateM.bind (callOp cr sub ctx.depth) advance m0 = EStateM.bind _ advance m1
      unfold EStateM.bind; rw [hcallOp]
    | _ => cases h

lemma callContract_of_ok (h : sub m.world ⟨callee, code, input, depth + 1⟩ (forwarded m gas) = .ok (e, w)) :
    callContract sub depth callee code input gas m = .ok (haltIsSuccess e.halt, e.returnData) (afterCall m e w) := by
  unfold callContract
  rw [seq_of_ok (rfl : (get : Op Machine) m = .ok m m)]
  rw [forwarded] at h
  rw [h]
  rfl

lemma callContract_of_error {a : Abort}
    (h : sub m.world ⟨callee, code, input, depth + 1⟩ (forwarded m gas) = .error a) :
    callContract sub depth callee code input gas m = .error (.abort a) m := by
  unfold callContract
  rw [seq_of_ok (rfl : (get : Op Machine) m = .ok m m)]
  rw [forwarded] at h
  rw [h]
  rfl

/-- The same with the callee's run: the instruction goes on from `afterCall`, or stops as the callee did. -/
lemma step_of_run (cr : Crypto) (h : startedFrame ctx byte m = .ok (some g) m1) :
    ∃ gas retOff retLen rest, m.stack = gas :: rest ∧ Local m m1 ∧ m.meter.used + 40 ≤ m1.meter.used ∧
      g.limit = forwarded m1 gas ∧ (∀ e w, g.run cr = .ok (e, w) → step cr (runFrame cr) ctx byte m =
        (finishCall retOff retLen (haltIsSuccess e.halt, e.returnData) >>= advance) (afterCall m1 e w)) ∧
      ∀ a, g.run cr = .error a → step cr (runFrame cr) ctx byte m = .error (.abort a) m1 := by
  obtain ⟨gas, retOff, retLen, rest, hstack, hlocal, hpaid, hworld, hlimit, hdepth, hstep⟩ :=
    step_of_startedFrame cr (runFrame cr) h
  have hrun : g.run cr = runFrame cr m1.world ⟨g.ctx.address, g.ctx.code, g.ctx.calldata, ctx.depth + 1⟩
      (forwarded m1 gas) := by
    rw [Frame.run, hworld, hlimit, ← hdepth]
  refine ⟨gas, retOff, retLen, rest, hstack, hlocal, hpaid, hlimit, fun e w hok => ?_, fun a herr => ?_⟩
  · rw [hstep, seq_of_ok (callContract_of_ok (hrun.symm.trans hok))]
  · rw [hstep, seq_of_error (callContract_of_error (hrun.symm.trans herr))]

/-- A callee that uses no more than was forwarded can be charged, and leaves the caller its 64th. -/
lemma afterCall_accounted (hb : m.Bounded) (hlim : m.meter.limit < 2 ^ 64) (he : e.energyUsed ≤ forwarded m gas) :
    m.meter.charge e.energyUsed = some (afterCall m e w).meter ∧
      (afterCall m e w).meter.used = m.meter.used + e.energyUsed ∧
      m.meter.remaining / 64 ≤ (afterCall m e w).meter.remaining := by
  have hfits : m.meter.used + e.energyUsed ≤ m.meter.limit := by
    unfold forwarded remaining at he; unfold Machine.Bounded at hb; omega
  have hcharge : m.meter.charge e.energyUsed = some { m.meter with used := m.meter.used + e.energyUsed } := by
    rw [EnergyMeter.charge, if_pos ⟨by omega, hfits⟩]
  have hmeter : (afterCall m e w).meter = { m.meter with used := m.meter.used + e.energyUsed } := by
    rw [afterCall, hcharge]; rfl
  refine ⟨by rw [hcharge, hmeter], by rw [hmeter], ?_⟩
  rw [hmeter]
  unfold forwarded remaining at he
  unfold remaining
  dsimp only
  omega

end Call

/-- What holds of the call of `g` that the frame `f` makes at `m`: `m1` is the caller's machine when it forwards the
energy, and `afterCall m1 e w` the one it goes on with when the callee has returned. -/
structure CallAccounted (cr : Crypto) (f : Frame) (byte : UInt8) (m : Machine) (g : Frame) (m1 : Machine) : Prop where
  forwards : g.limit ≤ m1.meter.remaining - m1.meter.remaining / 64
  returns : ∃ e w, g.run cr = .ok (e, w)
  charged : ∀ e w, g.run cr = .ok (e, w) → ∃ retOff retLen,
    step cr (runFrame cr) f.ctx byte m =
      (finishCall retOff retLen (haltIsSuccess e.halt, e.returnData) >>= advance) (afterCall m1 e w) ∧
    m1.meter.charge e.energyUsed = some (afterCall m1 e w).meter ∧
    (afterCall m1 e w).meter.used = m1.meter.used + e.energyUsed ∧
    m1.meter.remaining / 64 ≤ (afterCall m1 e w).meter.remaining

lemma Frame.run_cases (cr : Crypto) (f : Frame) : (∃ e w, f.run cr = .ok (e, w)) ∨ f.run cr = .error .panic := by
  have hfuel : f.run cr ≠ .error .fuel := runFrame_ne_fuel _ _ _
  cases h : f.run cr with
  | ok r => exact .inl ⟨r.1, r.2, rfl⟩
  | error a =>
    cases a with
    | panic => exact .inr rfl
    | fuel => exact absurd h hfuel

/-- In a frame that does not panic no callee does. -/
lemma callAccounted {byte : UInt8} {m1 : Machine} {g : Frame} (hlim : f.limit < 2 ^ 64)
    (hrun : f.run cr ≠ .error .panic) (hm : f.Head cr m) (hf : f.ctx.code[m.pc]? = some byte)
    (hg : startedFrame f.ctx byte m = .ok (some g) m1) : CallAccounted cr f byte m g m1 := by
  obtain ⟨gas, retOff, retLen, rest, -, hlocal, -, hlimit, hreturned, hstopped⟩ := step_of_run cr hg
  obtain ⟨hb, hml⟩ := hm.bounded
  have hl1 := hlocal.limit
  refine ⟨by rw [hlimit]; exact Nat.min_le_right _ _, ?_, fun e w hok => ?_⟩
  · rcases g.run_cases cr with hok | hpanic
    · exact hok
    · exact absurd (hm.run_of_abort hf (hstopped _ hpanic)) hrun
  · have hused : e.energyUsed ≤ forwarded m1 gas := hlimit ▸ Frame.energyUsed_le hok
    exact ⟨retOff, retLen, hreturned e w hok, afterCall_accounted (hlocal.bounded hb) (by omega) hused⟩

/-- A frame as it is run from outside the VM: its energy limit is a `u64`. -/
def Frame.entry (w : World) (ctx : Ctx) (limit : UInt64) : Frame := ⟨w, ctx, limit.toNat⟩

/-- A frame whose code calls the contract `0xcc`, on 1000 energy. -/
def callingFrame : Frame := .entry nestedWorld ⟨[], callCode 0xcc, [], 0⟩ 1000

/-! ## How many instructions are dispatched -/

/-- The instructions the loop dispatches from `m` on, those of nested frames included, as far as `n` levels and
iterations show. -/
def dispatched (cr : Crypto) : Nat → Ctx → Machine → Nat
  | 0, _, _ => 0
  | n + 1, ctx, m =>
    match ctx.code[m.pc]? with
    | none => 0
    | some byte =>
      let nested :=
        match observe (startedFrame ctx byte) m with
        | some g => if g.ctx.depth > maxCallDepth then 0 else dispatched cr n g.ctx (Machine.init g.world g.limit)
        | none => 0
      let later :=
        match step cr (runFrame cr) ctx byte m with
        | .ok _ m' => dispatched cr n ctx m'
        | .error .. => 0
      1 + nested + later

/-- The instructions dispatched in a frame and in the frames below it. -/
def Frame.dispatched (cr : Crypto) (n : Nat) (f : Frame) : Nat :=
  if f.ctx.depth > maxCallDepth then 0 else Vm.dispatched cr n f.ctx (Machine.init f.world f.limit)

example : callingFrame.dispatched noCrypto 100 = 11 := by decide +kernel

section Dispatched
variable {n : Nat} {ctx : Ctx} {m : Machine} {byte : UInt8} {m' : Machine}

lemma dispatched_end (hf : ctx.code[m.pc]? = none) : dispatched cr (n + 1) ctx m = 0 := by
  rw [dispatched, hf]

/-- The instructions dispatched in the frame that an instruction starts. -/
def nestedDispatched (cr : Crypto) (n : Nat) (ctx : Ctx) (byte : UInt8) (m : Machine) : Nat :=
  ((observe (startedFrame ctx byte) m).map (Frame.dispatched cr n)).getD 0

lemma dispatched_next (hf : ctx.code[m.pc]? = some byte) (hs : step cr (runFrame cr) ctx byte m = .ok () m') :
    dispatched cr (n + 1) ctx m = 1 + nestedDispatched cr n ctx byte m + dispatched cr n ctx m' := by
  rw [dispatched, hf]
  dsimp only
  rw [hs, nestedDispatched]
  cases observe (startedFrame ctx byte) m <;> rfl

lemma dispatched_last {stop : Stop} (hf : ctx.code[m.pc]? = some byte)
    (hs : step cr (runFrame cr) ctx byte m = .error stop m') :
    dispatched cr (n + 1) ctx m = 1 + nestedDispatched cr n ctx byte m := by
  rw [dispatched, hf]
  dsimp only
  rw [hs, nestedDispatched]
  cases observe (startedFrame ctx byte) m <;> rfl

/-- The loop dispatches at most twice as many instructions as it has energy left, and one; when it returns, at most
twice as many as it has used, and one. -/
def DispatchBound (cr : Crypto) (n : Nat) : Prop :=
  ∀ (ctx : Ctx) (m : Machine), m.Bounded → m.meter.limit < 2 ^ 64 →
    dispatched cr n ctx m ≤ 2 * m.meter.remaining + 1 ∧
    ∀ e w, runFrom cr ctx m = .ok (e, w) → dispatched cr n ctx m + 2 * m.meter.used ≤ 2 * e.energyUsed + 1

lemma DispatchBound.frame (h : DispatchBound cr n) {g : Frame} (hlim : g.limit < 2 ^ 64) :
    g.dispatched cr n ≤ 2 * g.limit + 1 ∧ ∀ e w, g.run cr = .ok (e, w) → g.dispatched cr n ≤ 2 * e.energyUsed + 1 := by
  rw [Frame.dispatched]
  split
  · exact ⟨Nat.zero_le _, fun e w _ => Nat.zero_le _⟩
  rename_i hd
  obtain ⟨hleft, hused⟩ := h g.ctx (Machine.init g.world g.limit) (Machine.init_bounded _ _) hlim
  refine ⟨hleft, fun e w hok => ?_⟩; rw [(Frame.Head.start (Nat.le_of_not_lt hd)).run_eq] at hok
  exact hused e w hok

lemma nestedDispatched_of_none (h : observe (startedFrame ctx byte) m = none) :
    nestedDispatched cr n ctx byte m = 0 := by
  rw [nestedDispatched, h]
  rfl

lemma exists_of_observe {α : Type} {p : Op (Option α)} {x : α} (h : observe p m = some x) :
    ∃ m1, p m = .ok (some x) m1 := by
  unfold observe at h
  split at h
  · rename_i r m1 hp; exact ⟨m1, by rw [hp, h]⟩
  · cases h

/-- A nested frame is paid for by the CALL that starts it, whatever comes of the instruction. -/
lemma nestedDispatched_le (ctx : Ctx) (byte : UInt8) (h : DispatchBound cr n) (hb : m.Bounded)
    (hlim : m.meter.limit < 2 ^ 64) : nestedDispatched cr n ctx byte m ≤ 2 * m.meter.remaining ∧
    (∀ m', step cr (runFrame cr) ctx byte m = .ok () m' →
      nestedDispatched cr n ctx byte m + 2 * m.meter.used + 2 ≤ 2 * m'.meter.used) ∧
    ∀ halt out m', step cr (runFrame cr) ctx byte m = .error (.halt halt out) m' →
      nestedDispatched cr n ctx byte m + 2 * m.meter.used ≤ 2 * m'.meter.used := by
  cases hobs : observe (startedFrame ctx byte) m with
  | none =>
    rw [nestedDispatched_of_none hobs]
    refine ⟨Nat.zero_le _, fun m' hs => ?_, fun halt out m' hs => ?_⟩
    · have := ok_of_wp (step_spends m) hs; omega
    · have := ((Meters.step cr ctx byte).error hs).used
      omega
  | some g =>
    obtain ⟨m1, hg⟩ := exists_of_observe hobs
    obtain ⟨gas, retOff, retLen, rest, -, hlocal, hpaid, hlimit, hstep, hstopped⟩ := step_of_run cr hg
    have hb1 : m1.Bounded := hlocal.bounded hb
    have hl1 := hlocal.limit
    have hfwd : g.limit ≤ m1.meter.remaining := by rw [hlimit, forwarded]; omega
    have hleft : m1.meter.remaining + 40 ≤ m.meter.remaining := by
      unfold remaining; unfold Machine.Bounded at hb1; omega
    have hglim : g.limit < 2 ^ 64 := by unfold remaining at hfwd; omega
    obtain ⟨hbound, hreturned⟩ := h.frame hglim
    have hnested : nestedDispatched cr n ctx byte m = g.dispatched cr n := by rw [nestedDispatched, hobs]; rfl
    rw [hnested]; refine ⟨by omega, ?_⟩
    rcases g.run_cases cr with ⟨e, w, hok⟩ | hpanic
    · have hcount := hreturned e w hok
      have hused : e.energyUsed ≤ forwarded m1 gas := hlimit ▸ Frame.energyUsed_le hok
      obtain ⟨-, hcharged, -⟩ := afterCall_accounted (w := w) hb1 (by omega) hused
      rw [hstep e w hok]
      have hrest : Meters (finishCall retOff retLen (haltIsSuccess e.halt, e.returnData) >>= advance) := by
        refine .bind (.of_quiet (quiet_finishCall _ _ _)) fun r => ?_
        cases r <;> exact .modifies fun _ => rfl
      refine ⟨fun m' hs => ?_, fun halt out m' hs => ?_⟩
      · have := (hrest.ok hs).used; omega
      · have := (hrest.error hs).used; omega
    · rw [hstopped _ hpanic]; refine ⟨fun m' hs => ?_, fun halt out m' hs => ?_⟩ <;> cases hs

/-- The count never passes twice the energy, and one: by induction on how long the run is watched. -/
lemma dispatchBound (n : Nat) : DispatchBound cr n := by
  induction n with
  | zero =>
    intro ctx m hb hlim; refine ⟨Nat.zero_le _, fun e w hok => ?_⟩
    have hused := (energyUsed_runFrom hb hok).1; rw [dispatched]; omega
  | succ n ih =>
    intro ctx m hb hlim
    cases hf : ctx.code[m.pc]? with
    | none =>
      rw [dispatched_end hf, runFrom_end hf]; refine ⟨Nat.zero_le _, fun e w hok => ?_⟩; cases hok
      simp only [Machine.exec]; omega
    | some byte =>
      obtain ⟨hleft, hnext, hlast⟩ := nestedDispatched_le ctx byte ih hb hlim
      cases hs : step cr (runFrame cr) ctx byte m with
      | ok u m' =>
        have hmet := (Meters.step cr ctx byte).ok hs
        have hpaid := hnext m' hs
        have hb' : m'.Bounded := hmet.bounded hb
        have hl' := hmet.limit
        obtain ⟨ih1, ih2⟩ := ih ctx m' hb' (by omega); rw [dispatched_next hf hs, runFrom_next hb hf hs]
        refine ⟨?_, fun e w hok => ?_⟩
        · unfold remaining at ih1 ⊢; unfold Machine.Bounded at hb'; omega
        · have := ih2 e w hok; omega
      | error stop m' =>
        rw [dispatched_last hf hs]; refine ⟨by omega, fun e w hok => ?_⟩
        cases stop with
        | halt halt out =>
          have hpaid := hlast halt out m' hs; rw [runFrom_halt hf hs] at hok; cases hok
          simp only [Machine.exec]; omega
        | abort =>
          rw [runFrom_abort hf hs] at hok; cases hok

end Dispatched

/-- **Bounded execution.** On every energy limit `E` a frame ends without running out of fuel, with any fuel beyond `E`,
and however long it is watched, it and the frames below it dispatch at most `2 * E + 1` instructions. -/
theorem bounded_execution (cr : Crypto) (w : World) (ctx : Ctx) (limit : UInt64) :
    (∀ n, limit.toNat < n → start (runLoop cr n) w ctx limit.toNat = (Frame.entry w ctx limit).run cr) ∧
    (Frame.entry w ctx limit).run cr ≠ .error .fuel ∧
    ∀ n, (Frame.entry w ctx limit).dispatched cr n ≤ 2 * limit.toNat + 1 :=
  ⟨fun _ hn => start_runLoop_eq w ctx hn, runFrame_ne_fuel _ _ _,
    fun n => ((dispatchBound n).frame limit.toNat_lt).1⟩

end TronRs.Vm

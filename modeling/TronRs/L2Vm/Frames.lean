import TronRs.Core.Lts
import TronRs.L2Vm.Reads

/-!
# A frame as a transition system

`run_frame` (`crates/vm/src/engine.rs:82`) as the runs of its loop: `Frame.loop` steps from one
instruction to the next, a nested frame being a whole run of `run_frame`. `Head cr f m` says that the
loop of the frame `f` gets to the machine `m`, about to fetch the instruction at `m.pc`.

* `Head.induction`: what holds at the start and is kept by every instruction holds at every head.
* `Head.run_eq`: what the frame returns is what the loop returns from any of its heads, so a head where
  the loop ends decides the result (`Head.run_of_end`, `Head.run_of_halt`, `Head.run_of_abort`).
* `Head.ends`: the loop always gets to such a head.
-/
namespace TronRs.Vm

open TronRs.Core

variable {cr : Crypto} {out : Bytes} {a : Abort}

namespace Frame

/-- `run_frame` on the frame's arguments. -/
def run (cr : Crypto) (f : Frame) : Except Abort (Exec × World) := runFrame cr f.world f.ctx f.limit

/-- The loop of `run_frame`, one step for each instruction that does not end the frame. -/
def loop (cr : Crypto) (f : Frame) : Lts Machine UInt8 where
  init m := f.ctx.depth ≤ maxCallDepth ∧ m = Machine.init f.world f.limit
  step m byte m' := f.ctx.code[m.pc]? = some byte ∧ step cr (runFrame cr) f.ctx byte m = .ok () m'

/-- The loop of the frame gets to `m`. -/
def Head (cr : Crypto) (f : Frame) (m : Machine) : Prop :=
  ∃ m0 bytes, (f.loop cr).init m0 ∧ (f.loop cr).Run m0 bytes m

/-- The machine after `n` instructions, if the frame gets that far. -/
def headAt (cr : Crypto) (f : Frame) : Nat → Option Machine
  | 0 => if f.ctx.depth ≤ maxCallDepth then some (Machine.init f.world f.limit) else none
  | n + 1 => (headAt cr f n).bind fun m => (f.ctx.code[m.pc]?).bind fun byte =>
    (outcome (step cr (runFrame cr) f.ctx byte) m).toOption.map Prod.snd

end Frame

/-- Its meter has not been charged beyond its limit. -/
def Machine.Bounded (m : Machine) : Prop := m.meter.used ≤ m.meter.limit

lemma Machine.init_bounded (w : World) (lim : Nat) : (Machine.init w lim).Bounded := Nat.zero_le lim

/-! ## One iteration -/

/-- The end of the loop body: a jump, or the next instruction. -/
def advance : Option Nat → Op Unit
  | some d => modify fun m => { m with pc := d }
  | none => modify fun m => { m with pc := m.pc + 1 }

lemma step_of_op {sub : SubRun} {ctx : Ctx} {byte : UInt8} {op : OpCode} (h : OpCode.fromU8 byte = some op)
    (hstore : op ≠ .sstore) :
    step cr sub ctx byte = charge (baseCost op) >>= fun _ => instr cr sub ctx byte op >>= advance := by
  unfold step; rw [h]; dsimp only
  rw [if_pos hstore]; rfl

/-- The loop with enough fuel. -/
def runFrom (cr : Crypto) (ctx : Ctx) (m : Machine) : Except Abort (Exec × World) :=
  runLoop cr (m.meter.remaining + 1) ctx m

section Iteration
variable {ctx : Ctx} {m m' : Machine} {byte : UInt8}

lemma runFrom_end (hf : ctx.code[m.pc]? = none) : runFrom cr ctx m = .ok (m.exec .stop [], m.world) := by
  rw [runFrom, runLoop, hf]

/-- Neither the rest of the loop nor a nested frame sees the fuel. -/
lemma runFrom_next (hb : m.Bounded) (hf : ctx.code[m.pc]? = some byte)
    (hs : step cr (runFrame cr) ctx byte m = .ok () m') : runFrom cr ctx m = runFrom cr ctx m' := by
  rw [runFrom, runLoop, hf]; dsimp only; rw [step_runLoop_eq le_rfl, hs]
  have he := (step_spec cr ctx byte).ok hs
  have hu := ok_of_wp (step_spends m) hs
  refine runLoop_fuel_irrelevant _ _ ctx m' (he.bounded hb) ?_ (Nat.lt_succ_self _); have h1 := he.limit
  have h2 := he.bounded hb; unfold EnergyMeter.remaining; omega

lemma runFrom_halt {h : Halt} (hf : ctx.code[m.pc]? = some byte)
    (hs : step cr (runFrame cr) ctx byte m = .error (.halt h out) m') :
    runFrom cr ctx m = .ok (m'.exec h out, m'.world) := by
  rw [runFrom, runLoop, hf]; dsimp only; rw [step_runLoop_eq le_rfl, hs]

lemma runFrom_abort (hf : ctx.code[m.pc]? = some byte)
    (hs : step cr (runFrame cr) ctx byte m = .error (.abort a) m') : runFrom cr ctx m = .error a := by
  rw [runFrom, runLoop, hf]; dsimp only; rw [step_runLoop_eq le_rfl, hs]

end Iteration

/-! ## Heads -/

namespace Frame.Head
variable {f : Frame} {m m' : Machine} {byte : UInt8}

lemma start (hd : f.ctx.depth ≤ maxCallDepth) : f.Head cr (Machine.init f.world f.limit) :=
  ⟨_, [], ⟨hd, rfl⟩, .nil _⟩

variable (h : f.Head cr m)
include h

lemma next (hf : f.ctx.code[m.pc]? = some byte)
    (hs : step cr (runFrame cr) f.ctx byte m = .ok () m') : f.Head cr m' := by
  obtain ⟨m0, bytes, hinit, hrun⟩ := h; exact ⟨m0, bytes ++ [byte], hinit, hrun.snoc ⟨hf, hs⟩⟩

lemma depth_le : f.ctx.depth ≤ maxCallDepth := by
  obtain ⟨_, _, hinit, _⟩ := h; exact hinit.1

/-- What holds at the start and is kept by every instruction holds at every head. -/
lemma induction {P : Machine → Prop} (hstart : P (Machine.init f.world f.limit))
    (hstep : ∀ m byte m', P m → f.ctx.code[m.pc]? = some byte → step cr (runFrame cr) f.ctx byte m = .ok () m' → P m') :
    P m := by
  obtain ⟨m0, bytes, hinit, hrun⟩ := h
  obtain ⟨-, rfl⟩ := hinit; refine hrun.preserves ?_ hstart; intro s l t hs hl
  exact hstep s l t hs hl.1 hl.2

lemma bounded : m.Bounded ∧ m.meter.limit = f.limit := by
  refine h.induction (P := fun m => m.Bounded ∧ m.meter.limit = f.limit) ⟨Machine.init_bounded _ _, rfl⟩ ?_
  intro m byte m' hm _ hs; have he := (step_spec cr f.ctx byte).ok hs
  exact ⟨he.bounded hm.1, he.limit.trans hm.2⟩

omit h in
lemma of_headAt {n : Nat} (h : f.headAt cr n = some m) : f.Head cr m := by
  induction n generalizing m with
  | zero =>
    rw [headAt] at h
    split at h
    · rename_i hd; cases h; exact start hd
    · cases h
  | succ n ih =>
    obtain ⟨m1, hm1, h⟩ := Option.bind_eq_some_iff.mp h
    obtain ⟨byte, hf, h⟩ := Option.bind_eq_some_iff.mp h
    obtain ⟨u, m2, hs, rfl⟩ := exists_of_outcome h
    exact (ih hm1).next hf hs

/-- What a frame returns can be read off any of its heads. -/
lemma run_eq : f.run cr = runFrom cr f.ctx m := by
  have hinv : m.Bounded ∧ f.run cr = runFrom cr f.ctx m := by
    refine h.induction (P := fun m => m.Bounded ∧ f.run cr = runFrom cr f.ctx m) ⟨Machine.init_bounded _ _, ?_⟩ ?_
    · rw [run, runFrame, Vm.start, if_neg (by have := h.depth_le; omega)]
      rfl
    · intro m byte m' hm hf hs; refine ⟨((step_spec cr f.ctx byte).ok hs).bounded hm.1, ?_⟩
      rw [hm.2, runFrom_next hm.1 hf hs]
  exact hinv.2

lemma run_of_end (hf : f.ctx.code[m.pc]? = none) : f.run cr = .ok (m.exec .stop [], m.world) := by
  rw [h.run_eq, runFrom_end hf]

lemma run_of_halt {halt : Halt} (hf : f.ctx.code[m.pc]? = some byte)
    (hs : step cr (runFrame cr) f.ctx byte m = .error (.halt halt out) m') :
    f.run cr = .ok (m'.exec halt out, m'.world) := by
  rw [h.run_eq, runFrom_halt hf hs]

lemma run_of_abort (hf : f.ctx.code[m.pc]? = some byte)
    (hs : step cr (runFrame cr) f.ctx byte m = .error (.abort a) m') : f.run cr = .error a := by
  rw [h.run_eq, runFrom_abort hf hs]

lemma ends : ∃ m1, f.Head cr m1 ∧ (f.ctx.code[m1.pc]? = none ∨
    ∃ byte e m2, f.ctx.code[m1.pc]? = some byte ∧ step cr (runFrame cr) f.ctx byte m1 = .error e m2) := by
  -- the energy left goes down with every instruction
  induction hr : m.meter.remaining using Nat.strong_induction_on generalizing m with
  | _ r ih =>
    cases hf : f.ctx.code[m.pc]? with
    | none => exact ⟨m, h, .inl hf⟩
    | some byte =>
      cases hs : step cr (runFrame cr) f.ctx byte m with
      | error e m2 => exact ⟨m, h, .inr ⟨byte, e, m2, hf, hs⟩⟩
      | ok u m2 =>
        have he := (step_spec cr f.ctx byte).ok hs
        have hu := ok_of_wp (step_spends m) hs
        have hlim := he.limit
        have hle := he.bounded h.bounded.1; refine ih m2.meter.remaining ?_ (h.next hf hs) rfl
        unfold EnergyMeter.remaining at hr ⊢; omega

end Frame.Head
end TronRs.Vm

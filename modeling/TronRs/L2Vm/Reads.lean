import TronRs.L2Vm.Rollback

/-!
# What a run never writes, and what it loads

No instruction writes code or changes the backend: `Untouched` collects what a function of the
world has to be insensitive to, and `Untouched.runFrame` carries it through a whole run.

`loads` lists the SLOADs of a run in the order of execution, those of nested frames included.
`startedFrame` is the frame a CALL starts.

* `mem_loads`: an SLOAD is executed at the address of the run or at an address that has code.
-/
namespace TronRs.Vm

open TronRs.Core

variable {m : Machine} {cr : Crypto}

/-! ## What a run never writes -/

/-- The world operations of the engine leave `f` alone. -/
structure Untouched {γ : Type} (f : World → γ) : Prop where
  sstore : ∀ w a k v, w.hostBacked = false → f (w.sstore a k v) = f w
  suicide : ∀ w c b, f (w.suicide c b) = f w
  undo : ∀ w e, f (w.undo e) = f w
  journal : ∀ w j, f { w with journal := j } = f w

section Untouched
variable {γ : Type} {f : World → γ} {sub : SubRun} {w w' : World}

/-- One instruction, when nested frames leave `f` alone. -/
lemma Untouched.worldStep (h : Untouched f) (hsub : Meets (fun w _ _ w' _ => f w' = f w) sub) {b : Nat} {a : Bytes}
    {d d' : Nat} (hb : w.hostBacked = false) (hs : WorldStep sub b a w d w' d') : f w' = f w := by
  cases hs with
  | same => rfl
  | store s v => exact h.sstore w a s v hb
  | commit hl hs => exact (h.journal _ _).trans (hsub _ _ _ _ _ hb hs).2
  | revert hl hs => exact (World.revertTo_congr h.undo h.journal _ _).trans (hsub _ _ _ _ _ hb hs).2

lemma Untouched.frameRule (h : Untouched f) : FrameRule fun w _ _ w' _ => f w' = f w where
  idle _ _ _ _ := rfl
  destroy w _ c b := h.suicide w c b
  step hsub hb hs _ _ _ hrest := hrest.trans (h.worldStep hsub hb hs)

/-- **What every world operation leaves alone, a frame leaves alone.** -/
theorem Untouched.runFrame (h : Untouched f) {cr : Crypto} {c : Ctx} {lim : Nat} {e : Exec}
    (hb : w.hostBacked = false) (hr : runFrame cr w c lim = .ok (e, w')) : f w' = f w ∧ w'.backend = w.backend :=
  (h.frameRule.runFrame w c lim e w' hb hr).symm

end Untouched

lemma untouched_code : Untouched World.code where
  sstore w a k v _ := by unfold World.sstore; split <;> rfl
  suicide w c b := by
    unfold World.suicide World.markSuicided World.burnBalance World.ensureAccount World.writeBalance
    dsimp only
    repeat' split
    all_goals rfl
  undo w e := by
    cases e with
    | storage key prev => cases prev <;> rfl
    | _ => rfl
  journal _ _ := rfl

/-! ## The frame a CALL starts -/

/-- What a nested frame is run with. -/
structure Frame where
  world : World
  ctx : Ctx
  limit : Nat

/-- The frame of `dispatchCall`: none for a precompile or an address without code. -/
def dispatchFrame (depth : Nat) (addrWord requestedGas : U256) (input : Bytes) : Op (Option Frame) := do
  let m ← get
  match if addrWord.toNat < 256 then precompileEnergy (addrWord.toNat % 256) input else none with
  | some _ => pure none
  | none =>
    let callee := wordBody addrWord
    let code := m.world.getCode callee
    if code = [] then pure none
    else
      let remaining := m.meter.remaining
      let limit := min (low64 requestedGas) (remaining - remaining / 64)
      pure (some ⟨m.world, ⟨callee, code, input, depth + 1⟩, limit⟩)

/-- The frame of `callOp`, reached by the same pops and charges. -/
def callFrame (depth : Nat) : Op (Option Frame) := do
  let requestedGas ← pop
  let addrWord ← pop
  let _value ← pop
  let argsOff := low64 (← pop)
  let argsLen := low64 (← pop)
  let _retOff ← pop
  let _retLen ← pop
  chargeMem (satAdd64 argsOff argsLen)
  let m ← get
  dispatchFrame depth addrWord requestedGas (getRange m.mem argsOff argsLen)

/-- The frame an instruction starts, if any. -/
def startedFrame (ctx : Ctx) (byte : UInt8) : Op (Option Frame) := do
  match OpCode.fromU8 byte with
  | some .call => do
    charge (baseCost .call)
    callFrame ctx.depth
  | _ => pure none

/-- What a program that only looks finds. -/
def observe {α : Type} (p : Op (Option α)) (m : Machine) : Option α :=
  match p m with
  | .ok r _ => r
  | .error .. => none

lemma observe_bind {α β : Type} {r : Op β} {q : β → Op (Option α)} {m' : Machine} {b : β} (h : r m = .ok b m') :
    observe (r >>= q) m = observe (q b) m' := by
  show (match EStateM.bind r q m with
    | .ok r _ => r
    | .error .. => none) = _
  unfold EStateM.bind; rw [h]; rfl

lemma observe_get_bind {α : Type} {q : Machine → Op (Option α)} :
    observe (MonadState.get >>= q) m = observe (q m) m := observe_bind rfl

/-! ## The SLOADs of a run -/

/-- One SLOAD: the address and the slot, and the world it is executed on. -/
structure Load where
  address : Bytes
  slot : U256
  world : World

/-- What the SLOAD pushes. -/
def Load.value (x : Load) : U256 := x.world.sload x.address x.slot

/-- The SLOAD an instruction executes, if any. -/
def executedLoad (ctx : Ctx) (byte : UInt8) : Op (Option Load) := do
  match OpCode.fromU8 byte with
  | some .sload => do
    charge (baseCost .sload)
    let key ← pop
    let m ← get
    pure (some ⟨ctx.address, key, m.world⟩)
  | _ => pure none

/-- The SLOADs of the loop and of the frames it starts, in the order of execution. -/
def loads (cr : Crypto) : Nat → Ctx → Machine → List Load
  | 0, _, _ => []
  | n + 1, ctx, m =>
    match ctx.code[m.pc]? with
    | none => []
    | some byte =>
      let here := (observe (executedLoad ctx byte) m).toList
      let nested :=
        match observe (startedFrame ctx byte) m with
        | some f => if f.ctx.depth > maxCallDepth then [] else loads cr n f.ctx (Machine.init f.world f.limit)
        | none => []
      let later :=
        match step cr (start (runLoop cr n)) ctx byte m with
        | .ok _ m' => loads cr n ctx m'
        | .error .. => []
      here ++ nested ++ later

/-- The SLOADs of a frame. -/
def frameLoads (cr : Crypto) (f : Frame) : List Load :=
  if f.ctx.depth > maxCallDepth then [] else loads cr (f.limit + 1) f.ctx (Machine.init f.world f.limit)

/-! ### Where they are executed -/

/-- Whatever `p` finds on a machine satisfies `P` for its world. -/
def Finds {α : Type} (P : World → α → Prop) (p : Op (Option α)) : Prop :=
  ∀ m x, observe p m = some x → P m.world x

namespace Finds
variable {α β : Type} {P : World → α → Prop}

lemma pure_none : Finds P (pure none) := fun m x h => by cases h

/-- Programs that leave the world alone may come first. -/
lemma bind {r : Op β} {q : β → Op (Option α)} (hr : Quiet r) (h : ∀ b, Finds P (q b)) : Finds P (r >>= q) := by
  intro m x hx
  cases hm : r m with
  | error =>
    have hnone : observe (r >>= q) m = none := by
      show (match EStateM.bind r q m with
        | .ok r _ => r
        | .error .. => none) = none
      unfold EStateM.bind; rw [hm]
    rw [hnone] at hx; cases hx
  | ok b m1 => rw [observe_bind hm] at hx; rw [← (hr.ok hm).world]; exact h b m1 x hx

lemma get_bind {q : Machine → Op (Option α)} (h : ∀ m x, observe (q m) m = some x → P m.world x) :
    Finds P (MonadState.get >>= q) := fun m x hx =>
  h m x (observe_get_bind.symm.trans hx)

end Finds

variable (ctx : Ctx) (byte : UInt8)

/-- A CALL starts its frame on the current world, at an address with code. -/
lemma finds_startedFrame : Finds (fun w f => f.world = w ∧ w.getCode f.ctx.address ≠ []) (startedFrame ctx byte) := by
  unfold startedFrame
  split
  · refine .bind (.charge _) fun _ => .bind .pop fun _ => .bind .pop fun _ => .bind .pop fun _ => .bind .pop fun _ =>
      .bind .pop fun _ => .bind .pop fun _ => .bind .pop fun _ => .bind (.chargeMem _) fun _ => .bind .get fun _ => ?_
    refine .get_bind fun m f hf => ?_
    dsimp only at hf
    split at hf
    · cases hf
    · split at hf
      · cases hf
      · rename_i hcode; cases hf; exact ⟨rfl, hcode⟩
  · exact .pure_none

lemma finds_executedLoad : Finds (fun w x => x.world = w ∧ x.address = ctx.address) (executedLoad ctx byte) := by
  unfold executedLoad
  split
  · refine .bind (.charge _) fun _ => .bind .pop fun _ => .get_bind fun m x hx => ?_
    cases hx; exact ⟨rfl, rfl⟩
  · exact .pure_none

/-- The address of an SLOAD of a run on chain state: the run's own, or one with code. -/
def Load.Within (b : StateBackend) (ctx : Ctx) (x : Load) : Prop :=
  (x.address = ctx.address ∨ b.getCode x.address ≠ []) ∧ x.world.backend = .state b

lemma mem_loads {b : StateBackend} (n : Nat) : ∀ (ctx : Ctx) (m : Machine),
    m.world.backend = .state b → m.world.code = ∅ → ∀ x ∈ loads cr n ctx m, x.Within b ctx := by
  induction n with
  | zero => intro _ _ _ _ x hx; cases hx
  | succ n ih =>
    intro ctx m hb hc x hx
    have hhost : m.world.hostBacked = false := by rw [World.hostBacked, hb]
    unfold loads at hx
    split at hx
    · cases hx
    rename_i byte _; simp only [List.mem_append] at hx
    rcases hx with (hx | hx) | hx
    · obtain ⟨hw, ha⟩ := finds_executedLoad ctx byte m x (by simpa using hx)
      exact ⟨.inl ha, by rw [hw, hb]⟩
    · -- a nested frame: its address has code, in chain state because a run writes none
      split at hx
      · rename_i f hf; obtain ⟨hw, hcode⟩ := finds_startedFrame ctx byte m f hf
        rw [World.getCode, hc, hb] at hcode
        split at hx
        · cases hx
        obtain ⟨ha, hbk⟩ := ih f.ctx (Machine.init f.world f.limit) (hw ▸ hb) (hw ▸ hc) x hx
        refine ⟨.inr ?_, hbk⟩
        rcases ha with ha | ha
        · rw [ha]; exact hcode
        · exact ha
      · cases hx
    · split at hx
      · rename_i m1 hstep; have hs := ((step_spec cr ctx byte).ok hstep).world
        have hsub : Meets _ (start (runLoop cr n)) :=
          untouched_code.frameRule.start (untouched_code.frameRule.runLoop n)
        exact ih ctx m1 ((hs.backend hsub hhost).trans hb) ((untouched_code.worldStep hsub hhost hs).trans hc) x hx
      · cases hx

lemma mem_frameLoads {b : StateBackend} {f : Frame} (hb : f.world.backend = .state b)
    (hc : f.world.code = ∅) {x : Load} (hx : x ∈ frameLoads cr f) : x.Within b f.ctx := by
  unfold frameLoads at hx
  split at hx
  · cases hx
  · exact mem_loads _ _ _ hb hc x hx

end TronRs.Vm

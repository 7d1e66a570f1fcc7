import TronRs.Core.Logged
import TronRs.L2Vm.Energy

/-!
# The memory of a frame, traced

The instructions of `Engine` that touch memory, with a log of what they do to it. `mem.expand_to(end)` resizes
before `charge!` pays, and an access is indexed after that (`crates/vm/src/engine.rs:183`); the log has one event
for each of these moments, so that a statement about every moment of a frame is one about its log.

* `erases_step`: forgetting the log, a traced instruction is the instruction.
* `Frame.Point cr f s`: the frame `f` is at some time at the machine and log `s`, at a loop head or where it stops.
* `Trail d size log`: how the log of a frame at depth `d` grows while everything asked for is paid, and `LogEnd` how it
  ends. `Frame.Point.cases`: nothing else happens. Every fact about the memory of a frame is derived from these two.
-/
namespace TronRs.Vm

open TronRs.Core TronRs.Core.Logged

variable {cr : Crypto} {input : Bytes}

/-- What a frame does with its memory. -/
inductive MemEvent where
  /-- `expand_to(stop)` is called on `size` bytes. -/
  | ask (size stop : Nat)
  /-- It has left `size` bytes. -/
  | sized (size : Nat)
  /-- The charge for it has succeeded. -/
  | paid (cost : Nat)
  /-- The range `off..off + len` of `size` bytes is indexed. -/
  | index (off len size : Nat)
  /-- The frame `g` is run, on the memory there is. -/
  | enter (g : Frame)

abbrev Traced := Logged Stop Machine MemEvent

/-- `charge!(mem.expand_to(stop))`. -/
def touch (stop : Nat) : Traced PUnit := do
  let m ← state
  emit (.ask m.mem.length stop)
  let cost ← silent (expandTo stop)
  let m ← state
  emit (.sized m.mem.length)
  silent (charge cost)
  emit (.paid cost)

def index (off len : Nat) : Traced PUnit := do
  let m ← state
  emit (.index off len m.mem.length)

/-- `copyOp`; an empty copy indexes nothing. -/
def tracedCopy (src : Bytes) : Traced (Option Nat) := do
  let dest := low64 (← silent pop)
  let off := low64 (← silent pop)
  let len := low64 (← silent pop)
  touch (satAdd64 dest len)
  if len ≠ 0 then index dest len
  silent (writeEach dest (padded src off len))
  pure none

/-- `haltWith`. -/
def tracedHalt (h : Halt) : Traced (Option Nat) := do
  let off := low64 (← silent pop)
  let len := low64 (← silent pop)
  touch (satAdd64 off len)
  index off len
  let m ← state
  throw (.halt h (getRange m.mem off len))

/-- `finishCall`. -/
def tracedFinish (retOff retLen : Nat) (r : Bool × Bytes) : Traced (Option Nat) := do
  silent (modify fun m => { m with lastReturnData := r.2 })
  if r.1 ∧ retLen > 0 then
    touch (satAdd64 retOff retLen)
    index retOff (min retLen r.2.length)
    silent (writeSlice retOff (r.2.take (min retLen r.2.length)))
  silent (push (ofBool r.1))
  pure none

def enter : Option Frame → Traced PUnit
  | some g => emit (.enter g)
  | none => pure ⟨⟩

/-- `callOp`; `dispatchFrame` finds the frame that is run, if any. -/
def tracedCall (cr : Crypto) (sub : SubRun) (depth : Nat) : Traced (Option Nat) := do
  let requestedGas ← silent pop
  let addrWord ← silent pop
  let _value ← silent pop
  let argsOff := low64 (← silent pop)
  let argsLen := low64 (← silent pop)
  let retOff := low64 (← silent pop)
  let retLen := low64 (← silent pop)
  touch (satAdd64 argsOff argsLen)
  index argsOff argsLen
  let m ← state
  let input := getRange m.mem argsOff argsLen
  let g ← silent (dispatchFrame depth addrWord requestedGas input)
  enter g
  let r ← silent (dispatchCall cr sub depth addrWord requestedGas input)
  tracedFinish retOff retLen r

/-- `instr`; the instructions that do not touch memory log nothing. -/
def tracedInstr (cr : Crypto) (sub : SubRun) (ctx : Ctx) (byte : UInt8) : OpCode → Traced (Option Nat)
  | .returnDataCopy => do
    let m ← state
    tracedCopy m.lastReturnData
  | .callDataCopy => tracedCopy ctx.calldata
  | .mload => do
    let off := low64 (← silent pop)
    touch (satAdd64 off 32)
    index off 32
    let m ← state
    silent (push (wordOfBe (padded m.mem off 32)))
    pure none
  | .mstore => do
    let off := low64 (← silent pop)
    let val ← silent pop
    touch (satAdd64 off 32)
    index off 32
    silent (writeSlice off (wordToBe val))
    pure none
  | .mstore8 => do
    let off := low64 (← silent pop)
    let val ← silent pop
    touch (satAdd64 off 1)
    index off 1
    silent (writeSlice off [UInt8.ofNat val.toNat])
    pure none
  | .call => tracedCall cr sub ctx.depth
  | .ret => tracedHalt .ret
  | .revert => tracedHalt .revert
  | .voteWitness => do
    let amountLen := low64 (← silent pop)
    let amountOff := low64 (← silent pop)
    let witnessLen := low64 (← silent pop)
    let witnessOff := low64 (← silent pop)
    silent (charge voteWitnessEnergy)
    touch (voteWitnessMemNeeded witnessOff witnessLen amountOff amountLen)
    silent (push 0)
    pure none
  | op => silent (instr cr sub ctx byte op)

/-- `step`. -/
def tracedStep (cr : Crypto) (sub : SubRun) (ctx : Ctx) (byte : UInt8) : Traced Unit :=
  match OpCode.fromU8 byte with
  | none => silent (halt (.badOpcode byte))
  | some op => do
    if op ≠ .sstore then silent (charge (baseCost op))
    let r ← tracedInstr cr sub ctx byte op
    silent (advance r)

/-! ## Forgetting the log -/

section Erasure
variable {sub : SubRun} {α : Type} {q : Op α}

lemma erases_touch (stop : Nat) : Erases (touch stop) (chargeMem stop) := by
  refine .state_bind fun _ => .emit_bind ?_
  refine .bind (.silent _) fun cost => .state_bind fun _ => .emit_bind ⟨fun s => ?_⟩
  rw [wp_bind, wp_silent]
  exact wp_iff.mpr ⟨fun _ _ h => h, fun _ _ h => h⟩

lemma erases_index {off len : Nat} {k : PUnit → Traced α} (h : Erases (k ⟨⟩) q) :
    Erases (index off len >>= k) q := ⟨fun s => h.at_state (s.1, _ :: s.2)⟩

lemma erases_copy (src : Bytes) : Erases (tracedCopy src) (copyOp src) := by
  refine .bind (.silent _) fun dest => .bind (.silent _) fun off => .bind (.silent _) fun len =>
    .bind (erases_touch _) fun _ => ?_
  split
  · exact erases_index (.bind (.silent _) fun _ => .pure none)
  · exact .bind (.silent _) fun _ => .pure none

lemma erases_halt (h : Halt) : Erases (tracedHalt h) (haltWith h) :=
  .bind (.silent _) fun _ => .bind (.silent _) fun _ => .bind (erases_touch _) fun _ =>
    erases_index (.get_bind fun _ => .throw _)

lemma erases_finish (retOff retLen : Nat) (r : Bool × Bytes) :
    Erases (tracedFinish retOff retLen r) (finishCall retOff retLen r) := by
  refine .bind (.silent _) fun _ => ?_
  split
  · exact .bind (erases_touch _) fun _ => erases_index (.bind (.silent _) fun _ =>
      .bind (.silent _) fun _ => .pure none)
  · exact .bind (.silent _) fun _ => .pure none

/-- Finding the frame only looks. -/
lemma dispatchFrame_returns (depth : Nat) (addr gas : U256) (input : Bytes) (m : Machine) :
    ∃ g, dispatchFrame depth addr gas input m = .ok g m := by
  unfold dispatchFrame
  rw [seq_of_ok (rfl : (get : Op Machine) m = .ok m m)]
  cases (if addr.toNat < 256 then precompileEnergy (addr.toNat % 256) input else none) with
  | some => exact ⟨none, rfl⟩
  | none =>
    dsimp only
    split
    · exact ⟨none, rfl⟩
    · exact ⟨some _, rfl⟩

lemma erases_enter {depth : Nat} {addr gas : U256} {p : Traced α}
    (h : Erases p q) : Erases (silent (dispatchFrame depth addr gas input) >>= fun g => enter g >>= fun _ => p) q := by
  refine ⟨fun s => ?_⟩
  obtain ⟨g, hg⟩ := dispatchFrame_returns depth addr gas input s.1
  rw [wp_bind, wp_silent]
  refine wp_of_ok hg ?_
  cases g with
  | none => exact h.at_state s
  | some g => exact h.at_state (s.1, .enter g :: s.2)

lemma erases_call (depth : Nat) : Erases (tracedCall cr sub depth) (callOp cr sub depth) :=
  .bind (.silent _) fun _ => .bind (.silent _) fun _ => .bind (.silent _) fun _ => .bind (.silent _) fun _ =>
    .bind (.silent _) fun _ => .bind (.silent _) fun _ => .bind (.silent _) fun _ => .bind (erases_touch _) fun _ =>
    erases_index (.get_bind fun _ => erases_enter (.bind (.silent _) fun r => erases_finish _ _ r))

lemma erases_instr (ctx : Ctx) (byte : UInt8) (op : OpCode) :
    Erases (tracedInstr cr sub ctx byte op) (instr cr sub ctx byte op) := by
  cases op with
  | returnDataCopy => exact .get_bind fun m => erases_copy m.lastReturnData
  | callDataCopy => exact erases_copy _
  | mload =>
    exact .bind (.silent _) fun _ => .bind (erases_touch _) fun _ =>
      erases_index (.get_bind fun _ => .bind (.silent _) fun _ => .pure none)
  | mstore | mstore8 =>
    exact .bind (.silent _) fun _ => .bind (.silent _) fun _ => .bind (erases_touch _) fun _ =>
      erases_index (.bind (.silent _) fun _ => .pure none)
  | call => exact erases_call ctx.depth
  | ret | revert => exact erases_halt _
  | voteWitness =>
    exact .bind (.silent _) fun _ => .bind (.silent _) fun _ => .bind (.silent _) fun _ => .bind (.silent _) fun _ =>
      .bind (.silent _) fun _ => .bind (erases_touch _) fun _ => .bind (.silent _) fun _ => .pure none
  | _ =>
    unfold tracedInstr; exact .silent _

/-- **Forgetting the log, a traced instruction is the instruction.** -/
theorem erases_step (cr : Crypto) (sub : SubRun) (ctx : Ctx) (byte : UInt8) :
    Erases (tracedStep cr sub ctx byte) (step cr sub ctx byte) := by
  unfold tracedStep step
  cases OpCode.fromU8 byte with
  | none => exact .silent _
  | some op =>
    dsimp only
    split
    · refine .bind (.silent _) fun _ => .bind (erases_instr ctx byte op) fun r => ?_
      cases r <;> exact .silent _
    · refine .bind (erases_instr ctx byte op) fun r => ?_
      cases r <;> exact .silent _

end Erasure

/-! ## How a log grows -/

/-- The words `expand_to(stop)` computes; the sum wraps. -/
def newWords (stop : Nat) : Nat := (stop + 31) % 2 ^ 64 / 32

/-- What `expand_to(stop)` does to `size` bytes of memory, and what it asks for it. -/
inductive Expands (size stop : Nat) : Nat → Nat → Prop where
  | within : stop ≤ size → Expands size stop size 0
  | resized : size < stop → newWords stop * 32 < 2 ^ 63 →
      Expands size stop (newWords stop * 32) (memoryExpansionCost ((size + 31) / 32) (newWords stop))

/-- The log of a frame at call depth `d` whose memory has `size` bytes and whose expansions have all been paid. An
access is indexed right after the expansion it needs. -/
inductive Trail (d : Nat) : Nat → List MemEvent → Prop where
  | start : Trail d 0 []
  | paid {size stop size' cost : Nat} {l : List MemEvent} : Trail d size l → Expands size stop size' cost →
      Trail d size' (.paid cost :: .sized size' :: .ask size stop :: l)
  | index {size size0 stop cost off len : Nat} {l : List MemEvent} :
      Trail d size (.paid cost :: .sized size :: .ask size0 stop :: l) → satAdd64 off len ≤ stop →
      Trail d size (.index off len size :: .paid cost :: .sized size :: .ask size0 stop :: l)
  | enter {size : Nat} {g : Frame} {l : List MemEvent} : Trail d size l → g.ctx.depth = d + 1 →
      Trail d size (.enter g :: l)

/-- How the log of a frame ends when an instruction stops it. -/
inductive LogEnd (sub : SubRun) (d : Nat) : Stop → Nat → List MemEvent → Prop where
  | trail {e : Stop} {size : Nat} {l : List MemEvent} : e ≠ .abort .panic → Trail d size l → LogEnd sub d e size l
  | unpaid {size stop size' cost : Nat} {l : List MemEvent} : Trail d size l → Expands size stop size' cost →
      LogEnd sub d (.halt .outOfEnergy []) size' (.sized size' :: .ask size stop :: l)
  | tooLarge {size stop : Nat} {l : List MemEvent} : Trail d size l → size < stop → 2 ^ 63 ≤ newWords stop * 32 →
      LogEnd sub d (.abort .panic) size (.ask size stop :: l)
  | outside {size off len : Nat} {l : List MemEvent} : Trail d size (.index off len size :: l) → size < off + len →
      LogEnd sub d (.abort .panic) size (.index off len size :: l)
  | nested {size : Nat} {g : Frame} {l : List MemEvent} : Trail d size (.enter g :: l) →
      sub g.world g.ctx g.limit = .error .panic → LogEnd sub d (.abort .panic) size (.enter g :: l)

lemma length_padded (src : Bytes) (off len : Nat) : (padded src off len).length = len := by
  simp [padded]

lemma length_resize (n : Nat) (data : Bytes) : (resize n data).length = n := by
  simp only [resize, List.length_append, List.length_take, List.length_replicate]
  omega

/-- `p` neither resizes memory nor panics. -/
structure Steady {α : Type} (p : Op α) : Prop where
  at_machine : ∀ m, wp p m (fun _ m' => m'.mem.length = m.mem.length)
    (fun e m' => m'.mem.length = m.mem.length ∧ e ≠ .abort .panic)

namespace Steady
variable {α β : Type}

lemma bind {p : Op α} {k : α → Op β} (hp : Steady p) (hk : ∀ a, Steady (k a)) : Steady (p >>= k) := by
  refine ⟨fun m => ?_⟩
  rw [wp_bind]
  refine wp_mono (hp.at_machine m) (fun a m1 h1 => ?_) (fun e m1 h1 => h1)
  exact wp_mono ((hk a).at_machine m1) (fun _ m2 h2 => h2.trans h1) (fun e m2 h2 => ⟨h2.1.trans h1, h2.2⟩)

lemma pure (a : α) : Steady (Pure.pure a : Op α) := ⟨fun _ => rfl⟩

lemma get : Steady (MonadState.get : Op Machine) := ⟨fun _ => rfl⟩

lemma halt (h : Halt) : Steady (Vm.halt h : Op α) := ⟨fun _ => ⟨rfl, fun h => by cases h⟩⟩

lemma modify {g : Machine → Machine} (h : ∀ m, (g m).mem = m.mem) : Steady (modify g : Op PUnit) :=
  ⟨fun m => by rw [wp_modify, h]⟩

lemma ite {c : Prop} [Decidable c] {p q : Op α} (hp : Steady p) (hq : Steady q) : Steady (if c then p else q) := by
  split
  · exact hp
  · exact hq

/-- Reading the machine first, and setting a machine with the same memory. -/
lemma read {k : Machine → Op β} (hk : ∀ m, wp (k m) m (fun _ m' => m'.mem.length = m.mem.length)
    (fun e m' => m'.mem.length = m.mem.length ∧ e ≠ .abort .panic)) : Steady (MonadState.get >>= k) := by
  refine ⟨fun m => ?_⟩
  rw [wp_bind, wp_get]
  exact hk m

lemma pop : Steady Vm.pop := by
  refine read fun m => ?_
  split
  · rfl
  · exact (halt _).at_machine m

lemma push (v : U256) : Steady (Vm.push v) := by
  refine read fun m => ?_
  split
  · exact (halt _).at_machine m
  · rfl

lemma pushed (v : U256) : Steady (Vm.push v >>= fun _ => Pure.pure (none : Option Nat)) :=
    bind (push v) fun _ => pure none

lemma charge (n : Nat) : Steady (Vm.charge n) := by
  refine read fun m => ?_
  split
  · rfl
  · exact (halt _).at_machine m

lemma binary (f : U256 → U256 → U256) : Steady (Vm.binary f) :=
  bind pop fun _ => bind pop fun _ => pushed _

lemma jumpTo (code : Bytes) (dest : U256) : Steady (Vm.jumpTo code dest) := ite (halt _) (pure _)

lemma selfDestructOp (ctx : Ctx) (byte : UInt8) : Steady (Vm.selfDestructOp ctx byte) := by
  refine bind get fun m => ?_
  dsimp only
  split
  on_goal 1 => refine bind (halt _) fun _ => ?_
  all_goals
    refine bind pop fun _ => ?_
    split
    · exact bind get fun _ => bind (charge _) fun _ => bind (modify fun _ => rfl) fun _ => halt _
    · exact halt _

lemma advance (r : Option Nat) : Steady (Vm.advance r) := by
  cases r <;> exact modify fun _ => rfl

end Steady

/-- The instructions that call `expand_to`. -/
def OpCode.touchesMemory : OpCode → Bool
  | .returnDataCopy | .callDataCopy | .mload | .mstore | .mstore8 | .call | .ret | .revert | .voteWitness => true
  | _ => false

section Tracks
variable {sub : SubRun} {ctx : Ctx} {byte : UInt8} {op : OpCode}

lemma tracedInstr_of_not (h : op.touchesMemory = false) :
    tracedInstr cr sub ctx byte op = silent (instr cr sub ctx byte op) := by
  cases op with
  | returnDataCopy | callDataCopy | mload | mstore | mstore8 | call | ret | revert | voteWitness => cases h
  | _ => rfl

lemma steady_instr (h : op.touchesMemory = false) : Steady (instr cr sub ctx byte op) := by
  cases op with
  | returnDataCopy | callDataCopy | mload | mstore | mstore8 | call | ret | revert | voteWitness => cases h
  | add | sub | mul | div | mod | exp | lt | gt | eq | and | or | xor => exact .binary _
  | stop => exact .halt _
  | isZero | callDataLoad => exact .bind .pop fun _ => .pushed _
  | pop => exact .bind .pop fun _ => .pure none
  | dup1 =>
    refine .read fun m => ?_
    split
    · exact (Steady.pushed _).at_machine m
    · exact (Steady.halt _).at_machine m
  | swap1 =>
    refine .read fun m => ?_
    split
    · rfl
    · exact (Steady.halt _).at_machine m
  | push1 | push2 =>
    refine .read fun m => ?_
    rw [wp_bind, wp_set]; exact (Steady.pushed _).at_machine _
  | callDataSize => exact .pushed _
  | returnDataSize => exact .bind .get fun _ => .pushed _
  | sload => exact .bind .pop fun _ => .bind .get fun _ => .pushed _
  | sstore =>
    exact .bind .pop fun _ => .bind .pop fun _ => .bind .get fun _ => .bind (.charge _) fun _ =>
      .bind (.modify fun _ => rfl) fun _ => .pure none
  | jump => exact .bind .pop fun _ => .jumpTo _ _
  | jumpi => exact .bind .pop fun _ => .bind .pop fun _ => .ite (.pure _) (.jumpTo _ _)
  | jumpdest => exact .pure none
  | selfDestruct => exact .selfDestructOp ctx byte
  | _ => exact .halt _

/-- From a paid log `p` comes to a paid log, or stops in one of the ways a log can end. -/
structure Tracks (sub : SubRun) (d : Nat) {α : Type} (p : Traced α) : Prop where
  at_point : ∀ m l, Trail d m.mem.length l → wp p (m, l) (fun _ s => Trail d s.1.mem.length s.2)
    (fun e s => LogEnd sub d e s.1.mem.length s.2)

namespace Tracks
variable {α β : Type} {d stop : Nat}

lemma bind {p : Traced α} {k : α → Traced β} (hp : Tracks sub d p) (hk : ∀ a, Tracks sub d (k a)) :
    Tracks sub d (p >>= k) := by
  refine ⟨fun m l hl => ?_⟩
  rw [wp_bind]
  exact wp_mono (hp.at_point m l hl) (fun a s hs => (hk a).at_point s.1 s.2 hs) (fun e s he => he)

lemma pure (a : α) : Tracks sub d (Pure.pure a) := ⟨fun _ _ hl => hl⟩

lemma state : Tracks sub d (Logged.state : Traced Machine) := ⟨fun _ _ hl => hl⟩

lemma silent {p : Op α} (h : Steady p) : Tracks sub d (Logged.silent p) := by
  refine ⟨fun m l hl => ?_⟩
  rw [wp_silent]
  refine wp_mono (h.at_machine m) (fun a m' hm => ?_) (fun e m' hm => ?_)
  · exact hm ▸ hl
  · exact .trail hm.2 (hm.1 ▸ hl)

lemma expandTo (stop : Nat) (m : Machine) :
    wp (Vm.expandTo stop) m (fun cost m' => Expands m.mem.length stop m'.mem.length cost)
      (fun e m' => e = .abort .panic ∧ m' = m ∧ m.mem.length < stop ∧ 2 ^ 63 ≤ newWords stop * 32) := by
  unfold Vm.expandTo
  rw [wp_bind, wp_get, wp_ite]
  refine ⟨fun hle => .within hle, fun hlt => ?_⟩
  simp only [wp_bind, wp_ensure, wp_set, wp_pure]
  refine ⟨fun hfits => ?_, fun hbig => ?_⟩
  · rw [length_resize]; exact .resized (Nat.lt_of_not_le hlt) hfits
  · exact ⟨trivial, trivial, Nat.lt_of_not_le hlt, Nat.le_of_not_lt hbig⟩

lemma charge (n : Nat) (m : Machine) :
    wp (Vm.charge n) m (fun _ m' => m'.mem = m.mem) (fun e m' => e = .halt .outOfEnergy [] ∧ m' = m) := by
  unfold Vm.charge
  rw [wp_bind, wp_get]
  split
  · rfl
  · exact ⟨rfl, rfl⟩

/-- After a touch the log ends with it; what comes next may rely on that. -/
lemma touch_bind {k : PUnit → Traced α}
    (hk : ∀ m l size cost, Trail d m.mem.length (.paid cost :: .sized m.mem.length :: .ask size stop :: l) →
      wp (k ⟨⟩) (m, .paid cost :: .sized m.mem.length :: .ask size stop :: l) (fun _ s => Trail d s.1.mem.length s.2)
        (fun e s => LogEnd sub d e s.1.mem.length s.2)) : Tracks sub d (Vm.touch stop >>= k) := by
  refine ⟨fun m l hl => ?_⟩
  unfold Vm.touch
  simp only [wp_bind, wp_state, wp_emit, wp_silent]
  refine wp_mono (expandTo stop m) (fun cost m1 h1 => ?_) (fun e m1 h1 => ?_)
  · refine wp_mono (charge cost m1) (fun _ m2 h2 => ?_) (fun e m2 h2 => ?_)
    · rw [← h2] at h1 ⊢; exact hk m2 l m.mem.length cost (.paid hl h1)
    · obtain ⟨rfl, rfl⟩ := h2; exact .unpaid hl h1
  · obtain ⟨rfl, rfl, hlt, hbig⟩ := h1; exact .tooLarge hl hlt hbig

lemma touch (stop : Nat) {k : PUnit → Traced α} (hk : Tracks sub d (k ⟨⟩)) : Tracks sub d (Vm.touch stop >>= k) :=
  touch_bind fun m _ _ _ hl => hk.at_point m _ hl

/-- An access within what has been touched. -/
lemma touch_index {off len : Nat} {k : PUnit → Traced α} (h : satAdd64 off len ≤ stop)
    (hk : Tracks sub d (k ⟨⟩)) : Tracks sub d (Vm.touch stop >>= fun _ => Vm.index off len >>= k) :=
  touch_bind fun m _ _ _ hl => hk.at_point m _ (.index hl h)

/-- A write panics when the range indexed is not in memory. -/
lemma touch_write {off len : Nat} {b : Bytes} {k : PUnit → Traced α} (h : satAdd64 off len ≤ stop)
    (hlen : b.length = len) (hk : Tracks sub d (k ⟨⟩)) :
    Tracks sub d (Vm.touch stop >>= fun _ => Vm.index off len >>= fun _ => Logged.silent (writeSlice off b) >>= k) := by
  refine touch_bind fun m l size cost hl => ?_
  unfold Vm.index writeSlice
  simp only [wp_bind, wp_state, wp_emit, wp_silent, wp_get, wp_ensure, wp_set]
  refine ⟨fun hin => ?_, fun hout => .outside (.index hl h) (by omega)⟩
  have hsize : (m.mem.take off ++ b ++ m.mem.drop (off + b.length)).length = m.mem.length := by
    simp only [List.length_append, List.length_take, List.length_drop]; omega
  refine hk.at_point _ _ ?_
  rw [hsize]
  exact .index hl h

/-- A call panics only where the frame it runs does. -/
lemma dispatchCall (d : Nat) (addr gas : U256) (input : Bytes) (m : Machine) :
    wp (Vm.dispatchCall cr sub d addr gas input) m (fun _ m' => m'.mem.length = m.mem.length)
      (fun e m' => m'.mem.length = m.mem.length ∧ (e = .abort .panic → ∃ g,
        dispatchFrame d addr gas input m = .ok (some g) m ∧ g.ctx.depth = d + 1 ∧
          sub g.world g.ctx g.limit = .error .panic)) := by
  unfold Vm.dispatchCall dispatchFrame
  rw [wp_bind, wp_get, seq_of_ok (rfl : (get : Op Machine) m = .ok m m)]
  dsimp only
  cases (if addr.toNat < 256 then precompileEnergy (addr.toNat % 256) input else none) with
  | some cost =>
    have hcharge : Steady (Vm.charge cost >>= fun _ =>
        Pure.pure (true, precompileExecute cr (addr.toNat % 256) input)) :=
      .bind (.charge cost) fun _ => .pure _
    exact wp_mono (hcharge.at_machine m) (fun _ _ h => h) (fun e m' h => ⟨h.1, fun he => absurd he h.2⟩)
  | none =>
    dsimp only
    split
    · rfl
    unfold callContract; rw [wp_bind, wp_get]; dsimp only
    cases hs : sub m.world ⟨wordBody addr, m.world.getCode (wordBody addr), input, d + 1⟩
        (min (low64 gas) (m.meter.remaining - m.meter.remaining / 64)) with
    | ok r => rfl
    | error a =>
      refine ⟨rfl, fun he => ⟨_, rfl, rfl, ?_⟩⟩; cases he; exact hs

/-- The frame that is run is the last thing in the log when it panics. -/
lemma enter_dispatch {addr gas : U256} {k : Bool × Bytes → Traced α} (hk : ∀ r, Tracks sub d (k r)) :
    Tracks sub d (Logged.silent (dispatchFrame d addr gas input) >>= fun g => Vm.enter g >>= fun _ =>
      Logged.silent (Vm.dispatchCall cr sub d addr gas input) >>= k) := by
  refine ⟨fun m l hl => ?_⟩
  obtain ⟨g, hg⟩ := dispatchFrame_returns d addr gas input m
  rw [wp_bind, wp_silent]
  refine wp_of_ok hg ?_
  cases g with
  | none =>
    show wp (Logged.silent (Vm.dispatchCall cr sub d addr gas input) >>= k) (m, l) _ _
    rw [wp_bind, wp_silent]
    refine wp_mono (dispatchCall d addr gas input m) (fun r m' hm => ?_) (fun e m' he => ?_)
    · exact (hk r).at_point m' l (hm ▸ hl)
    · refine .trail (fun hpanic => ?_) (he.1 ▸ hl); obtain ⟨g', hg', -⟩ := he.2 hpanic; rw [hg] at hg'
      cases hg'
  | some g =>
    have hdepth := (dispatchFrame_eq_some cr sub hg).2.2.2.1
    show wp (Logged.silent (Vm.dispatchCall cr sub d addr gas input) >>= k) (m, .enter g :: l) _ _
    rw [wp_bind, wp_silent]
    refine wp_mono (dispatchCall d addr gas input m) (fun r m' hm => ?_) (fun e m' he => ?_)
    · exact (hk r).at_point m' _ (hm ▸ .enter hl hdepth)
    have hl' : Trail d m'.mem.length (.enter g :: l) := he.1 ▸ .enter hl hdepth
    by_cases hpanic : e = .abort .panic
    · obtain ⟨g', hg', -, hs⟩ := he.2 hpanic; rw [hg] at hg'; cases hg'
      subst hpanic; exact .nested hl' hs
    · exact .trail hpanic hl'

lemma copy (src : Bytes) : Tracks sub d (tracedCopy src) := by
  refine bind (silent .pop) fun dest => bind (silent .pop) fun off => bind (silent .pop) fun len => ?_
  dsimp only
  split
  · rename_i hlen
    have hne : padded src (low64 off) (low64 len) ≠ [] := by
      intro h; have := congrArg List.length h; rw [length_padded] at this
      exact hlen this
    rw [writeEach, if_neg hne]; exact touch_write le_rfl (length_padded ..) (pure none)
  · rename_i hlen
    have hnil : padded src (low64 off) (low64 len) = [] := by rw [not_not.mp hlen]; rfl
    rw [writeEach, if_pos hnil]; exact touch _ (bind (silent (.pure _)) fun _ => pure none)

lemma halt (h : Halt) : Tracks sub d (tracedHalt h) :=
  bind (silent .pop) fun _ => bind (silent .pop) fun _ => touch_index le_rfl
    ⟨fun _ _ hl => .trail (fun h => by cases h) hl⟩

lemma finish (retOff retLen : Nat) (r : Bool × Bytes) : Tracks sub d (tracedFinish retOff retLen r) := by
  refine bind (silent (.modify fun _ => rfl)) fun _ => ?_
  split
  · refine touch_write ?_ ?_ (bind (silent (.push _)) fun _ => pure none)
    · unfold satAdd64; omega
    · rw [List.length_take]; omega
  · exact bind (silent (.push _)) fun _ => pure none

lemma call : Tracks sub d (tracedCall cr sub d) :=
  bind (silent .pop) fun _ => bind (silent .pop) fun _ => bind (silent .pop) fun _ => bind (silent .pop) fun _ =>
    bind (silent .pop) fun _ => bind (silent .pop) fun _ => bind (silent .pop) fun _ =>
    touch_index le_rfl (bind state fun _ => enter_dispatch fun r => finish _ _ r)

lemma instr (ctx : Ctx) (byte : UInt8) (op : OpCode) : Tracks sub ctx.depth (tracedInstr cr sub ctx byte op) := by
  cases hmem : op.touchesMemory with
  | false =>
    rw [tracedInstr_of_not hmem]; exact silent (steady_instr hmem)
  | true =>
    cases op with
    | returnDataCopy => exact bind state fun m => copy m.lastReturnData
    | callDataCopy => exact copy _
    | mload =>
      exact bind (silent .pop) fun _ =>
        touch_index le_rfl (bind state fun _ => bind (silent (.push _)) fun _ => pure none)
    | mstore =>
      exact bind (silent .pop) fun _ => bind (silent .pop) fun _ =>
        touch_write le_rfl (Bytes.length_be 32 _) (pure none)
    | mstore8 => exact bind (silent .pop) fun _ => bind (silent .pop) fun _ => touch_write le_rfl rfl (pure none)
    | call => exact call
    | ret | revert => exact halt _
    | voteWitness =>
      exact bind (silent .pop) fun _ => bind (silent .pop) fun _ => bind (silent .pop) fun _ =>
        bind (silent .pop) fun _ => bind (silent (.charge _)) fun _ =>
        touch _ (bind (silent (.push _)) fun _ => pure none)
    | _ => cases hmem

/-- **What one instruction does to memory.** -/
theorem step (cr : Crypto) (ctx : Ctx) (byte : UInt8) : Tracks sub ctx.depth (tracedStep cr sub ctx byte) := by
  unfold tracedStep
  cases OpCode.fromU8 byte with
  | none => exact silent (.halt _)
  | some op =>
    dsimp only
    split
    · exact bind (silent (.charge _)) fun _ => bind (instr ctx byte op) fun r => silent (.advance r)
    · exact bind (instr ctx byte op) fun r => silent (.advance r)

end Tracks
end Tracks

/-! ## The points of a frame -/

namespace Frame

/-- `Frame.loop` with the log. -/
def traced (cr : Crypto) (f : Frame) : Lts (Machine × List MemEvent) UInt8 where
  init s := f.ctx.depth ≤ maxCallDepth ∧ s = (Machine.init f.world f.limit, [])
  step s byte s' := f.ctx.code[s.1.pc]? = some byte ∧ tracedStep cr (runFrame cr) f.ctx byte s = .ok () s'

/-- The traced loop gets to `s`. -/
def TracedHead (cr : Crypto) (f : Frame) (s : Machine × List MemEvent) : Prop :=
  ∃ s0 bytes, (f.traced cr).init s0 ∧ (f.traced cr).Run s0 bytes s

/-- The machine and the log at a loop head, or where an instruction stops the frame. -/
inductive Point (cr : Crypto) (f : Frame) : Machine × List MemEvent → Prop where
  | head {s : Machine × List MemEvent} : f.TracedHead cr s → Point cr f s
  | stop {s s' : Machine × List MemEvent} {byte : UInt8} {e : Stop} : f.TracedHead cr s →
      f.ctx.code[s.1.pc]? = some byte → tracedStep cr (runFrame cr) f.ctx byte s = .error e s' → Point cr f s'

variable {f : Frame} {s : Machine × List MemEvent} {m : Machine} {n : Nat}

lemma TracedHead.next {s' : Machine × List MemEvent} {byte : UInt8} (h : f.TracedHead cr s)
    (hf : f.ctx.code[s.1.pc]? = some byte) (hs : tracedStep cr (runFrame cr) f.ctx byte s = .ok () s') :
    f.TracedHead cr s' := by
  obtain ⟨s0, bytes, hinit, hrun⟩ := h
  exact ⟨s0, bytes ++ [byte], hinit, hrun.snoc ⟨hf, hs⟩⟩

/-- What holds at the start and is kept by every traced instruction holds at every head. -/
lemma TracedHead.induction {P : Machine × List MemEvent → Prop} (h : f.TracedHead cr s)
    (hstart : f.ctx.depth ≤ maxCallDepth → P (Machine.init f.world f.limit, []))
    (hstep : ∀ s byte s', P s → f.ctx.code[s.1.pc]? = some byte →
      tracedStep cr (runFrame cr) f.ctx byte s = .ok () s' → P s') : P s := by
  obtain ⟨s0, bytes, hinit, hrun⟩ := h
  obtain ⟨hd, rfl⟩ := hinit
  refine hrun.preserves ?_ (hstart hd)
  intro s byte s' hs hl
  exact hstep s byte s' hs hl.1 hl.2

lemma TracedHead.head (h : f.TracedHead cr s) : f.Head cr s.1 := by
  refine h.induction (P := fun s => f.Head cr s.1) (fun hd => .start hd) ?_
  intro s byte s' hm hf hs
  exact hm.next hf ((erases_step cr (runFrame cr) f.ctx byte).ok hs)

/-- Every head has a log. -/
lemma Head.exists_log (h : f.Head cr m) : ∃ l, f.TracedHead cr (m, l) := by
  have hd := h.depth_le
  refine h.induction (P := fun m => ∃ l, f.TracedHead cr (m, l)) ⟨[], _, [], ⟨hd, rfl⟩, .nil _⟩ ?_
  intro m byte m' hm hf hs
  obtain ⟨l, hl⟩ := hm
  obtain ⟨l', hs'⟩ := (erases_step cr (runFrame cr) f.ctx byte).exists_ok (s := (m, l)) hs
  exact ⟨l', hl.next hf hs'⟩

lemma TracedHead.trail (h : f.TracedHead cr s) : Trail f.ctx.depth s.1.mem.length s.2 := by
  refine h.induction (P := fun s => Trail f.ctx.depth s.1.mem.length s.2) (fun _ => .start) ?_
  intro s byte s' hl _ hs
  have ht := ok_of_wp ((Tracks.step cr f.ctx byte).at_point s.1 s.2 hl) hs
  exact ht

/-- **Nothing else happens to the memory of a frame.** -/
theorem Point.cases (h : f.Point cr s) :
    Trail f.ctx.depth s.1.mem.length s.2 ∨ ∃ e, LogEnd (runFrame cr) f.ctx.depth e s.1.mem.length s.2 := by
  cases h with
  | head hs => exact .inl hs.trail
  | stop hs _ hstop =>
    have hend := error_of_wp ((Tracks.step cr f.ctx _).at_point _ _ hs.trail) hstop
    exact .inr ⟨_, hend⟩

/-- The machine and the log after `n` instructions. -/
def tracedAt (cr : Crypto) (f : Frame) : Nat → Option (Machine × List MemEvent)
  | 0 => if f.ctx.depth ≤ maxCallDepth then some (Machine.init f.world f.limit, []) else none
  | n + 1 => (tracedAt cr f n).bind fun s => (f.ctx.code[s.1.pc]?).bind fun byte =>
    (outcome (tracedStep cr (runFrame cr) f.ctx byte) s).toOption.map Prod.snd

/-- Where instruction `n` leaves the frame, whether it stops it or not. -/
def pointAt (cr : Crypto) (f : Frame) (n : Nat) : Option (Machine × List MemEvent) :=
  (f.tracedAt cr n).bind fun s => (f.ctx.code[s.1.pc]?).map fun byte =>
    stateAfter (tracedStep cr (runFrame cr) f.ctx byte) s

lemma TracedHead.of_tracedAt (h : f.tracedAt cr n = some s) : f.TracedHead cr s := by
  induction n generalizing s with
  | zero =>
    rw [tracedAt] at h
    split at h
    · rename_i hd; cases h; exact ⟨_, [], ⟨hd, rfl⟩, .nil _⟩
    · cases h
  | succ n ih =>
    obtain ⟨s1, hs1, h⟩ := Option.bind_eq_some_iff.mp h
    obtain ⟨byte, hf, h⟩ := Option.bind_eq_some_iff.mp h
    obtain ⟨u, s2, hs, rfl⟩ := exists_of_outcome h
    exact (ih hs1).next hf hs

lemma TracedHead.exists_tracedAt (h : f.TracedHead cr s) : ∃ n, f.tracedAt cr n = some s := by
  refine h.induction (P := fun s => ∃ n, f.tracedAt cr n = some s) (fun hd => ⟨0, if_pos hd⟩) ?_
  intro s byte s' hs hf hstep
  obtain ⟨n, hn⟩ := hs
  refine ⟨n + 1, ?_⟩
  rw [tracedAt, hn, Option.bind_some, hf, Option.bind_some, outcome, hstep]
  rfl

lemma Point.of_pointAt (h : f.pointAt cr n = some s) : f.Point cr s := by
  obtain ⟨s1, hs1, h⟩ := Option.bind_eq_some_iff.mp h
  obtain ⟨byte, hf, rfl⟩ := Option.map_eq_some_iff.mp h
  have hhead := TracedHead.of_tracedAt hs1
  unfold stateAfter
  cases hstep : tracedStep cr (runFrame cr) f.ctx byte s1 with
  | ok u s2 => exact .head (hhead.next hf hstep)
  | error => exact .stop hhead hf hstep

end Frame
end TronRs.Vm

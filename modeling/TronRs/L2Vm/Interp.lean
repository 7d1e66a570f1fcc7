import TronRs.L2Vm.Rollback

/-!
# The single-contract entry point

`crates/vm/src/interp.rs`. `runWithInput` binds a slot map as the storage of a fresh world
and runs the engine on it, at a sentinel address. The engine is the one that runs on a plain
world, but a host stores no zero, knows no code and refuses SELFDESTRUCT.

`Hosts a w w'` relates a host-backed world to a plain one that holds the same slots at `a`;
two machines are `Twin`s when they differ in nothing but such worlds. Every instruction but
SELFDESTRUCT takes twins to twins (`twins_step`), and so does a frame.

* `runWithInput_agrees`: the two entry points give the same result unless the host refuses
  SELFDESTRUCT.
-/
namespace TronRs.Vm

open TronRs.Core

/-- Why single-contract execution stopped. Mirrors vm/interp.rs:42. -/
inductive HostHalt where
  | stop | ret | revert | outOfEnergy | stackUnderflow | stackOverflow | badOpcode (byte : UInt8) | badJump
  deriving DecidableEq, Repr

/-- Mirrors vm/interp.rs:57. -/
structure Outcome where
  halt : HostHalt
  stackTop : Option U256
  energyUsed : Nat
  returnData : Bytes
  deriving DecidableEq

/-- Mirrors vm/interp.rs:87. -/
def mapHalt : Halt → HostHalt
  | .stop | .selfDestruct => .stop
  | .ret => .ret
  | .revert => .revert
  | .outOfEnergy | .depthLimit => .outOfEnergy
  | .stackUnderflow => .stackUnderflow
  | .stackOverflow => .stackOverflow
  | .badOpcode b => .badOpcode b
  | .badJump => .badJump

/-- The slots of the host a world writes to. -/
def World.hostSlots (w : World) : Column U256 U256 :=
  match w.backend with
  | .host slots => slots
  | _ => ∅

/-- Runs a code against a `MemoryHost`; returns the host's slots with the outcome. Mirrors
vm/src/interp.rs:72. -/
def runWithInput (cr : Crypto) (code calldata : Bytes) (limit : Nat) (slots : Column U256 U256) :
    Except Abort (Outcome × Column U256 U256) :=
  (runFrame cr (World.withHost slots) ⟨List.replicate 20 0, code, calldata, 0⟩ limit).map fun (e, w) =>
    (⟨mapHalt e.halt, e.stackTop, e.energyUsed, e.returnData⟩, w.hostSlots)

/-! ## Twin machines -/

/-- A plain world that holds at `a` what a host-backed one holds, neither with any code. -/
structure Hosts (a : Bytes) (w w' : World) : Prop where
  host : w.hostBacked = true
  plain : w'.backend = .world
  hostCode : ∀ b, w.getCode b = []
  plainCode : ∀ b, w'.getCode b = []
  reads : ∀ b k, w.sload b k = w'.sload a k

namespace Hosts
variable {a : Bytes} {w w' : World}

lemma sload_hostSlots (h : Hosts a w w') (k : U256) : (w.hostSlots.get k).getD 0 = w'.sload a k := by
  have hh := h.host; rw [← h.reads a k]; unfold World.hostBacked at hh
  unfold World.hostSlots World.sload
  split at hh
  · rename_i slots hb; rw [hb]
  · cases hh

lemma withHost {slots : Column U256 U256} (hb : w'.backend = .world) (hc : w'.code = ∅)
    (hs : ∀ k, w'.sload a k = (slots.get k).getD 0) : Hosts a (World.withHost slots) w' where
  host := rfl
  plain := hb
  hostCode _ := rfl
  plainCode b := by unfold World.getCode; rw [hb, hc]; rfl
  reads _ k := (hs k).symm

/-- The host deletes the slot on a zero write where the plain world keeps a zero in it. -/
lemma sstore (h : Hosts a w w') (b : Bytes) (k v : U256) : Hosts a (w.sstore b k v) (w'.sstore a k v) := by
  have hh := h.host
  have hp := h.plain
  have hc := h.hostCode
  have hc' := h.plainCode
  have hr := h.reads; unfold World.hostBacked at hh
  split at hh
  · rename_i slots hb
    refine ⟨?_, ?_, fun b => ?_, fun b => ?_, fun b' k' => ?_⟩
    · simp [World.hostBacked, World.sstore, hb]
    · simp [World.sstore, hp]
    · have := hc b; simp only [World.getCode, World.sstore, hb] at this ⊢; exact this
    · have := hc' b; simp only [World.getCode, World.sstore, hp] at this ⊢; exact this
    have := hr b' k'; simp only [World.sload, World.sstore, hb, hp] at this ⊢
    by_cases hk : k' = k
    · subst hk
      by_cases hv : v = 0
      · rw [if_pos hv, get_delete, if_pos rfl, get_put, if_pos rfl, hv]; rfl
      · rw [if_neg hv, get_put, if_pos rfl, get_put, if_pos rfl]
    · have hne : (a, k') ≠ (a, k) := fun h => hk (Prod.mk.inj h).2
      rw [get_put w'.storage, if_neg hne, ← this]
      split
      · rw [get_delete, if_neg hk]
      · rw [get_put, if_neg hk]
  · cases hh

end Hosts

/-- Machines that differ in nothing but their worlds, the first of which is host-backed. -/
def Twin (a : Bytes) (m t : Machine) : Prop := ∃ w', t = { m with world := w' } ∧ Hosts a m.world w'

/-- A host's refusal of SELFDESTRUCT. -/
def Refused (e : Stop) : Prop := e = .halt (.badOpcode 0xff) []

/-- Programs that take twins to twins. -/
abbrev Twins (a : Bytes) {α : Type} (p q : Op α) : Prop := Lockstep (Twin a) Refused p q

namespace Twins
variable {a : Bytes} {α β : Type}

lemma bind {p q : Op α} {f g : α → Op β} (hp : Twins a p q) (hf : ∀ x, Twins a (f x) (g x)) :
    Twins a (p >>= f) (q >>= g) := Lockstep.bind hp hf

lemma read {f g : Machine → Op β} (h : ∀ m w', Hosts a m.world w' → Twins a (f m) (g { m with world := w' })) :
    Twins a (get >>= f) (get >>= g) := by
  refine Lockstep.read ?_; rintro m _ ⟨w', rfl, hw⟩; exact h m w' hw

lemma set {m : Machine} {w' : World} (h : Hosts a m.world w') :
    Twins a (MonadStateOf.set m) (MonadStateOf.set { m with world := w' }) := Lockstep.set ⟨w', rfl, h⟩

lemma halt (h : Halt) : Twins a (Vm.halt h : Op α) (Vm.halt h) := Lockstep.throw _

lemma pop : Twins a Vm.pop Vm.pop := by
  refine read fun m w' hw => ?_
  cases m.stack with
  | cons v => exact bind (set hw) fun _ => .pure v
  | nil => exact halt _

lemma push (v : U256) : Twins a (Vm.push v) (Vm.push v) :=
  read fun _ _ hw => .ite (halt _) (set hw)

lemma charge (n : Nat) : Twins a (Vm.charge n) (Vm.charge n) := by
  refine read fun m w' hw => ?_
  cases m.meter.charge n with
  | some => exact set hw
  | none => exact halt _

lemma expandTo (n : Nat) : Twins a (Vm.expandTo n) (Vm.expandTo n) :=
  read fun _ _ hw => .ite (.pure 0) (bind (.ensure _ _) fun _ => bind (set hw) fun _ => .pure _)

lemma chargeMem (n : Nat) : Twins a (Vm.chargeMem n) (Vm.chargeMem n) := bind (expandTo n) charge

lemma writeSlice (off : Nat) (b : Bytes) : Twins a (Vm.writeSlice off b) (Vm.writeSlice off b) :=
  read fun _ _ hw => bind (.ensure _ _) fun _ => set hw

lemma writeEach (off : Nat) (b : Bytes) : Twins a (Vm.writeEach off b) (Vm.writeEach off b) :=
  .ite (.pure ()) (writeSlice off b)

/-- What most instructions end with: a result pushed, and on to the next instruction. -/
lemma pushed (v : U256) : Twins a (Vm.push v >>= fun _ => pure (none : Option Nat))
    (Vm.push v >>= fun _ => pure none) :=
  bind (push v) fun _ => .pure none

lemma written (off : Nat) (b : Bytes) :
    Twins a (Vm.writeSlice off b >>= fun _ => pure (none : Option Nat)) (Vm.writeSlice off b >>= fun _ => pure none) :=
  bind (writeSlice off b) fun _ => .pure none

lemma binary (f : U256 → U256 → U256) : Twins a (Vm.binary f) (Vm.binary f) :=
  bind pop fun _ => bind pop fun _ => pushed _

lemma copyOp (src : Bytes) : Twins a (Vm.copyOp src) (Vm.copyOp src) :=
  bind pop fun _ => bind pop fun _ => bind pop fun _ =>
    bind (chargeMem _) fun _ => bind (writeEach _ _) fun _ => .pure none

lemma jumpTo (code : Bytes) (dest : U256) : Twins a (Vm.jumpTo code dest) (Vm.jumpTo code dest) :=
  .ite (halt _) (.pure _)

lemma haltWith (h : Halt) : Twins a (Vm.haltWith h) (Vm.haltWith h) :=
  bind pop fun _ => bind pop fun _ => bind (chargeMem _) fun _ =>
    read fun _ _ _ => .throw _

/-- A call reaches the precompiles only: neither world has code to run. -/
lemma dispatchCall (cr : Crypto) (sub sub' : SubRun) (depth : Nat) (addrWord gas : U256) (input : Bytes) :
    Twins a (Vm.dispatchCall cr sub depth addrWord gas input) (Vm.dispatchCall cr sub' depth addrWord gas input) := by
  refine read fun m w' hw => ?_
  dsimp only
  split
  · exact bind (charge _) fun _ => .pure _
  · rw [if_pos (hw.hostCode _), if_pos (hw.plainCode _)]; exact .pure _

lemma callOp (cr : Crypto) (sub sub' : SubRun) (depth : Nat) :
    Twins a (Vm.callOp cr sub depth) (Vm.callOp cr sub' depth) := by
  unfold Vm.callOp
  refine bind pop fun _ => bind pop fun _ => bind pop fun _ => bind pop fun _ => bind pop fun _ => bind pop fun _ =>
    bind pop fun _ => bind (chargeMem _) fun _ => read fun _ _ _ => bind (dispatchCall cr sub sub' depth _ _ _) fun r =>
    bind (.modify ?_) fun _ => ?_
  · rintro m _ ⟨w', rfl, hw⟩; exact ⟨w', rfl, hw⟩
  split
  · exact bind (chargeMem _) fun _ => bind (writeSlice _ _) fun _ => pushed _
  · exact pushed _

/-- The host refuses at once; nothing is said of what the plain world then does. -/
lemma selfDestructOp (ctx ctx' : Ctx) : Twins a (Vm.selfDestructOp ctx 0xff) (Vm.selfDestructOp ctx' 0xff) := by
  refine read fun m w' hw => ?_
  rw [hw.host]
  exact fun _ _ _ => .inl rfl

lemma sload (cr : Crypto) (sub sub' : SubRun) (ctx : Ctx) (byte : UInt8) :
    Twins a (instr cr sub ctx byte .sload) (instr cr sub' { ctx with address := a } byte .sload) := by
  refine bind pop fun key => read fun m w' hw => ?_
  rw [hw.reads ctx.address key]; exact pushed _

lemma sstore (cr : Crypto) (sub sub' : SubRun) (ctx : Ctx) (byte : UInt8) :
    Twins a (instr cr sub ctx byte .sstore) (instr cr sub' { ctx with address := a } byte .sstore) := by
  refine bind pop fun key => bind pop fun value => read fun m w' hw => ?_
  rw [hw.reads ctx.address key]
  refine bind (charge _) fun _ => bind (.modify ?_) fun _ => .pure none
  rintro m _ ⟨w', rfl, hw⟩; exact ⟨_, rfl, hw.sstore ctx.address key value⟩

end Twins

lemma twins_instr {a : Bytes} (cr : Crypto) (sub sub' : SubRun) (ctx : Ctx) (byte : UInt8) (op : OpCode)
    (h : op = .selfDestruct → byte = 0xff) :
    Twins a (instr cr sub ctx byte op) (instr cr sub' { ctx with address := a } byte op) := by
  cases op with
  | sload => exact .sload cr sub sub' ctx byte
  | sstore => exact .sstore cr sub sub' ctx byte
  | call => exact .callOp cr sub sub' ctx.depth
  | selfDestruct =>
    rw [h rfl]; exact .selfDestructOp ctx _
  | add | sub | mul | div | mod | exp | lt | gt | eq | and | or | xor => exact .binary _
  | isZero | callDataLoad => exact .bind .pop fun _ => .pushed _
  | pop => exact .bind .pop fun _ => .pure none
  | dup1 =>
    refine .read fun m w' hw => ?_
    cases m.stack with
    | cons v => exact .pushed v
    | nil => exact .halt _
  | swap1 =>
    refine .read fun m w' hw => ?_
    rcases m.stack with _ | ⟨v, _ | ⟨u, rest⟩⟩
    · exact .halt _
    · exact .halt _
    · exact .bind (.set hw) fun _ => .pure none
  | push1 | push2 => exact .read fun m w' hw => .bind (.set hw) fun _ => .pushed _
  | callDataSize => exact .pushed _
  | returnDataSize => exact .read fun m w' hw => .pushed _
  | returnDataCopy => exact .read fun m w' hw => .copyOp _
  | callDataCopy => exact .copyOp _
  | mload => exact .bind .pop fun _ => .bind (.chargeMem _) fun _ => .read fun m w' hw => .pushed _
  | mstore | mstore8 =>
    exact .bind .pop fun _ => .bind .pop fun _ => .bind (.chargeMem _) fun _ => .written _ _
  | jump => exact .bind .pop fun _ => .jumpTo _ _
  | jumpi => exact .bind .pop fun _ => .bind .pop fun _ => .ite (.pure _) (Twins.jumpTo _ _)
  | jumpdest => exact .pure none
  | ret | revert => exact .haltWith _
  | voteWitness =>
    refine .bind .pop fun _ => .bind .pop fun _ => .bind .pop fun _ => .bind .pop fun _ => ?_
    refine .bind ?_ ?_
    · exact .charge _
    · exact fun _ => .bind (.chargeMem _) fun _ => .pushed _
  | _ => exact .halt _

lemma fromU8_selfDestruct {byte : UInt8} (h : OpCode.fromU8 byte = some .selfDestruct) : byte = 0xff := by
  unfold OpCode.fromU8 at h; split at h
  case h_54 hb => exact UInt8.toNat_inj.mp hb
  all_goals cases h

lemma twins_step {a : Bytes} (cr : Crypto) (sub sub' : SubRun) (ctx : Ctx) (byte : UInt8) :
    Twins a (step cr sub ctx byte) (step cr sub' { ctx with address := a } byte) := by
  unfold step
  split
  · exact Twins.halt _
  rename_i op hop
  have hinstr := twins_instr (a := a) cr sub sub' ctx byte op (fun h => fromU8_selfDestruct (h ▸ hop))
  have hmove : ∀ f : Machine → Nat, (∀ m w, f { m with world := w } = f m) →
      Twins a (modify fun m => { m with pc := f m }) (modify fun m => { m with pc := f m }) := by
    intro f hf
    refine Lockstep.modify fun m m' h => ?_
    obtain ⟨w', rfl, hw⟩ := h; exact ⟨w', by rw [hf], hw⟩
  split
  · refine Lockstep.bind (Twins.charge _) fun _ => Lockstep.bind hinstr fun r => ?_
    cases r with
    | some d => exact hmove (fun _ => d) fun _ _ => rfl
    | none => exact hmove (fun m => m.pc + 1) fun _ _ => rfl
  · refine Lockstep.bind hinstr fun r => ?_
    cases r with
    | some d => exact hmove (fun _ => d) fun _ _ => rfl
    | none => exact hmove (fun m => m.pc + 1) fun _ _ => rfl

/-! ## Frames -/

/-- Results of a host-backed and a plain frame that agree: the same but for the worlds, both
aborted alike, or the host's frame stopped at a SELFDESTRUCT. -/
inductive SameFrame (a : Bytes) : Except Abort (Exec × World) → Except Abort (Exec × World) → Prop where
  | ok {e : Exec} {w w' : World} : Hosts a w w' → SameFrame a (.ok (e, w)) (.ok (e, w'))
  | refused {e : Exec} {w : World} {r : Except Abort (Exec × World)} :
      e.halt = .badOpcode 0xff → SameFrame a (.ok (e, w)) r
  | abort (x : Abort) : SameFrame a (.error x) (.error x)

lemma sameFrame_runLoop {a : Bytes} (cr : Crypto) (n : Nat) : ∀ (ctx : Ctx) (m : Machine) (w' : World),
    Hosts a m.world w' →
      SameFrame a (runLoop cr n ctx m) (runLoop cr n { ctx with address := a } { m with world := w' }) := by
  induction n with
  | zero => exact fun _ _ _ _ => .abort .fuel
  | succ n ih =>
    intro ctx m w' hw; unfold runLoop; dsimp only
    cases ctx.code[m.pc]? with
    | none => exact .ok hw
    | some byte =>
      dsimp only
      have hs := twins_step cr (start (runLoop cr n)) (start (runLoop cr n)) ctx byte m _ ⟨w', rfl, hw⟩
      unfold wp at hs
      split at hs
      · rename_i u m1 h; obtain ⟨_, hq, w1, rfl, hw1⟩ := hs; rw [h, hq]
        exact ih ctx m1 w1 hw1
      rename_i e m1 h
      rcases hs with rfl | ⟨_, hq, w1, rfl, hw1⟩
      · rw [h]; exact .refused rfl
      rw [h, hq]
      cases e with
      | halt => exact .ok hw1
      | abort x => exact .abort x

lemma sameFrame_runFrame {a : Bytes} (cr : Crypto) {w w' : World} (h : Hosts a w w') (code calldata b : Bytes)
    (limit : Nat) :
    SameFrame a (runFrame cr w ⟨b, code, calldata, 0⟩ limit) (runFrame cr w' ⟨a, code, calldata, 0⟩ limit) :=
  sameFrame_runLoop cr (limit + 1) ⟨b, code, calldata, 0⟩ (Machine.init w limit) w' h

/-- The two entry points agree on a result at the address `a`: both return, with the same
energy, stack top and output, halts that correspond and storage that reads the same, or both
panic. -/
def Agrees (a : Bytes) : Except Abort (Outcome × Column U256 U256) → Except Abort (Exec × World) → Prop
  | .ok (o, slots), .ok (e, w) => o.energyUsed = e.energyUsed ∧ o.stackTop = e.stackTop ∧
      o.returnData = e.returnData ∧ o.halt = mapHalt e.halt ∧ ∀ k, (slots.get k).getD 0 = w.sload a k
  | .error .panic, .error .panic => True
  | _, _ => False

/-- **The host path and the world path agree.** A code run against a host and the same code run
at a 20-byte address of a plain world that holds the host's slots there, and no code, give the
same result, unless the host refuses a SELFDESTRUCT. -/
theorem runWithInput_agrees (cr : Crypto) (slots : Column U256 U256) (a : Address) (w : World)
    (hworld : w.backend = .world) (hcode : w.code = ∅) (hslots : ∀ k, w.sload a.body k = (slots.get k).getD 0)
    (code calldata : Bytes) (limit : Nat)
    (hrun : ∀ o slots', runWithInput cr code calldata limit slots = .ok (o, slots') → o.halt ≠ .badOpcode 0xff) :
    Agrees a.body (runWithInput cr code calldata limit slots) (runFrame cr w ⟨a.body, code, calldata, 0⟩ limit) := by
  have hsame := sameFrame_runFrame cr (Hosts.withHost hworld hcode hslots) code calldata (List.replicate 20 0) limit
  have hfuel : runFrame cr w ⟨a.body, code, calldata, 0⟩ limit ≠ .error .fuel := runFrame_ne_fuel _ _ _
  unfold runWithInput at hrun ⊢
  cases hh : runFrame cr (World.withHost slots) ⟨List.replicate 20 0, code, calldata, 0⟩ limit with
  | error x =>
    rw [hh] at hsame
    generalize runFrame cr w ⟨a.body, code, calldata, 0⟩ limit = r at hsame hfuel ⊢
    cases hsame
    cases x with
    | panic => trivial
    | fuel => exact absurd rfl hfuel
  | ok =>
    rw [hh] at hsame hrun
    generalize runFrame cr w ⟨a.body, code, calldata, 0⟩ limit = r' at hsame ⊢
    cases hsame with
    | ok hw => exact ⟨rfl, rfl, rfl, rfl, hw.sload_hostSlots⟩
    | refused he => exact absurd (congrArg mapHalt he) (hrun _ _ rfl)

/-- Slot 7 set, slot 1 cleared, slot 7 read back and returned. -/
def storing : Bytes :=
  [0x60, 42, 0x60, 7, 0x55, 0x60, 0, 0x60, 1, 0x55, 0x60, 7, 0x54, 0x60, 0, 0x52, 0x60, 32, 0x60, 0, 0xf3]

theorem runWithInput_agrees_storing : (runWithInput noCrypto storing [] 100000 (Column.put ∅ 1 5)).map Prod.fst =
        .ok ⟨.ret, none, 25080, wordToBe 42⟩ ∧
      Agrees (Bytes.be 20 9) (runWithInput noCrypto storing [] 100000 (Column.put ∅ 1 5))
        (runFrame noCrypto (World.new.sstore (Bytes.be 20 9) 1 5) ⟨Bytes.be 20 9, storing, [], 0⟩ 100000) := by
  have hrun : (runWithInput noCrypto storing [] 100000 (Column.put ∅ 1 5)).map Prod.fst =
      .ok ⟨.ret, none, 25080, wordToBe 42⟩ := by decide +kernel
  refine ⟨hrun, runWithInput_agrees noCrypto (Column.put ∅ 1 5) ⟨Bytes.be 20 9, Bytes.length_be 20 9⟩ _ rfl rfl
    (fun k => ?_) storing [] 100000 fun o slots' h => ?_⟩
  · simp [World.sload, World.sstore, World.new, get_put, get_empty]
  · rw [h] at hrun; cases hrun; decide

end TronRs.Vm

import TronRs.Core.Effect
import TronRs.L1State.Crypto
import TronRs.L2Vm.Opcode
import TronRs.L2Vm.World

/-!
# The execution loop

`crates/vm/src/engine.rs`, `memory.rs` and `precompile.rs`. One frame is a `Machine`: the
meter, the stack (top first), memory, the last return data, the program counter and the
world. An instruction is a program over it that may stop the frame (`Op`); the macros
`pop!`, `push!` and `charge!` of the source are `pop`, `push` and `charge`.

`runFrame` and its loop call each other through CALL. The loop runs on fuel; `runFrame`
supplies one unit more than its energy limit, which is always enough because every
instruction that does not end the frame costs energy (`Termination`).

`Exec.dropped` is a ghost: how many undo records the commits inside the frame have
discarded. No instruction reads it.
-/
namespace TronRs.Vm

open TronRs.Core

/-- Mirrors vm/frame.rs:21. -/
def maxCallDepth : Nat := 1024
def stackLimit : Nat := 1024

/-- Why a frame stopped. Mirrors vm/frame.rs:314. -/
inductive Halt where
  | stop | ret | revert | selfDestruct | outOfEnergy | stackUnderflow | stackOverflow
  | badOpcode (byte : UInt8) | badJump | depthLimit
  deriving DecidableEq, Repr

/-- Mirrors vm/engine.rs:31. -/
def haltIsSuccess : Halt → Bool
  | .stop | .ret | .selfDestruct => true
  | _ => false

/-- Mirrors vm/engine.rs:24, with the ghost count of dropped undo records. -/
structure Exec where
  halt : Halt
  energyUsed : Nat
  returnData : Bytes
  stackTop : Option U256
  dropped : Nat
  deriving DecidableEq

/-- What a frame is started with: its address, code, calldata and depth. -/
structure Ctx where
  address : Bytes
  code : Bytes
  calldata : Bytes
  depth : Nat

/-- The local variables of `run_frame`, and the world it mutates. -/
structure Machine where
  meter : EnergyMeter
  stack : List U256
  mem : Bytes
  lastReturnData : Bytes
  pc : Nat
  world : World
  dropped : Nat

namespace Machine

def init (w : World) (limit : Nat) : Machine := ⟨.new limit, [], [], [], 0, w, 0⟩

/-- The `stop!` and `stop_out!` macros: the result of halting here. -/
def exec (m : Machine) (h : Halt) (out : Bytes) : Exec :=
  ⟨h, m.meter.used, out, m.stack.head?, m.dropped⟩

end Machine

/-- Why there is no result: a Rust panic, or (never with enough fuel) the end of the fuel. -/
inductive Abort where
  | panic
  | fuel
  deriving DecidableEq, Repr

/-- How an instruction leaves the loop: a halt with its output, or no result at all. -/
inductive Stop where
  | halt (h : Halt) (out : Bytes)
  | abort (a : Abort)
  deriving DecidableEq

abbrev Op := EStateM Stop Machine

/-- Runs a nested frame on a world. -/
abbrev SubRun := World → Ctx → Nat → Except Abort (Exec × World)

/-! ## Stack, energy and memory -/

def halt {α : Type} (h : Halt) : Op α := throw (.halt h [])

def pop : Op U256 := do
  let m ← get
  match m.stack with
  | v :: rest => set { m with stack := rest }; pure v
  | [] => halt .stackUnderflow

def push (v : U256) : Op Unit := do
  let m ← get
  if m.stack.length ≥ stackLimit then halt .stackOverflow
  else set { m with stack := v :: m.stack }

def charge (amount : Nat) : Op Unit := do
  let m ← get
  match m.meter.charge amount with
  | some meter => set { m with meter := meter }
  | none => halt .outOfEnergy

/-- The low 64 bits of a word, as a `usize`. -/
def low64 (v : U256) : Nat := v.toNat % 2 ^ 64

/-- `Vec::resize` with zero fill. -/
def resize (n : Nat) (data : Bytes) : Bytes := data.take n ++ List.replicate (n - data.length) 0

/-- Mirrors vm/memory.rs:21: `end + 31` wraps, and a size over `isize::MAX` is a capacity panic. Every allocation
below that is taken to succeed; one that fails aborts the process, before anything is charged. Returns the energy
to charge. -/
def expandTo (stop : Nat) : Op Nat := do
  let m ← get
  if stop ≤ m.mem.length then pure 0
  else
    let curWords := (m.mem.length + 31) / 32
    let newWords := (stop + 31) % 2 ^ 64 / 32
    ensure (newWords * 32 < 2 ^ 63) (.abort .panic)
    set { m with mem := resize (newWords * 32) m.mem }
    pure (memoryExpansionCost curWords newWords)

/-- `charge!(mem.expand_to(stop))`. -/
def chargeMem (stop : Nat) : Op Unit := do
  let cost ← expandTo stop
  charge cost

/-- `data.get(off..off + len)`: nothing when the range leaves the data. -/
def getRange (data : Bytes) (off len : Nat) : Bytes :=
  if off + len ≤ data.length then (data.drop off).take len else []

/-- `len` bytes of `src` from `off`, zero past its end; the index wraps. -/
def padded (src : Bytes) (off len : Nat) : Bytes :=
  (List.range len).map fun i => src.getD ((off + i) % 2 ^ 64) 0

/-- `data[off..off + n].copy_from_slice(..)`: a range outside the memory panics. -/
def writeSlice (off : Nat) (bytes : Bytes) : Op Unit := do
  let m ← get
  ensure (off + bytes.length ≤ m.mem.length) (.abort .panic)
  set { m with mem := m.mem.take off ++ bytes ++ m.mem.drop (off + bytes.length) }

/-- The byte-by-byte copy loop: an empty copy touches nothing. -/
def writeEach (off : Nat) (bytes : Bytes) : Op Unit :=
  if bytes = [] then pure () else writeSlice off bytes

def wordOfBe (b : Bytes) : U256 := BitVec.ofNat 256 (Bytes.ofBe b)

def wordToBe (v : U256) : Bytes := Bytes.be 32 v.toNat

/-- The 20-byte body in a word's low-order bytes. -/
def wordBody (v : U256) : Bytes := Bytes.be 20 v.toNat

/-! ## Precompiles -/

/-- Mirrors vm/precompile.rs:20. -/
def precompileEnergy (address : Nat) (data : Bytes) : Option Nat :=
  match address with
  | 1 => some 3000
  | 2 => some (60 + (data.length + 31) / 32 * 12)
  | 3 => some (600 + (data.length + 31) / 32 * 120)
  | 4 => some (15 + (data.length + 31) / 32 * 3)
  | _ => none

/-- Mirrors vm/precompile.rs:44. -/
def ecrecover (cr : Crypto) (data : Bytes) : Bytes :=
  let input := resize 128 (data.take 128)
  let v := input.getD 63 0
  if v = 27 ∨ v = 28 then
    match H256.ofSlice (input.take 32) with
    | some hash => match cr.recover hash (input.drop 64) (v - 27) with
      | some pk => List.replicate 12 0 ++ (cr.keccak256 (pk.drop 1)).bytes.drop 12
      | none => List.replicate 32 0
    | none => List.replicate 32 0
  else List.replicate 32 0

/-- Mirrors vm/precompile.rs:31. -/
def precompileExecute (cr : Crypto) (address : Nat) (data : Bytes) : Bytes :=
  match address with
  | 1 => ecrecover cr data
  | 2 => (cr.sha256 data).bytes
  | 3 => (cr.sha256 ((cr.sha256 data).bytes.take 20)).bytes
  | 4 => data
  | _ => []

/-! ## Instructions -/

/-- `a ^ b`, wrapping, by squaring over the low `n` bits of `e`. -/
def powBits : Nat → U256 → Nat → U256
  | 0, _, _ => 1
  | n + 1, a, e => if e % 2 = 1 then powBits n (a * a) (e / 2) * a else powBits n (a * a) (e / 2)

def ofBool (b : Bool) : U256 := if b then 1 else 0

/-- Pops two operands and pushes the result. -/
def binary (f : U256 → U256 → U256) : Op (Option Nat) := do
  let a ← pop
  let b ← pop
  push (f a b)
  pure none

/-- RETURNDATACOPY and CALLDATACOPY: copy from `src` into memory. -/
def copyOp (src : Bytes) : Op (Option Nat) := do
  let dest := low64 (← pop)
  let off := low64 (← pop)
  let len := low64 (← pop)
  chargeMem (satAdd64 dest len)
  writeEach dest (padded src off len)
  pure none

/-- The destination check of JUMP and JUMPI. -/
def jumpTo (code : Bytes) (dest : U256) : Op (Option Nat) := do
  if dest.toNat > code.length ∨ code[low64 dest]? ≠ some 0x5b then halt .badJump
  else pure (some (low64 dest))

/-- The inter-contract branch of CALL: run the callee, charge what it used, then commit or
revert its changes. Mirrors vm/engine.rs:273-281. -/
def callContract (sub : SubRun) (depth : Nat) (callee code input : Bytes) (requestedGas : U256) :
    Op (Bool × Bytes) := do
  let m ← get
  let remaining := m.meter.remaining
  let forwarded := min (low64 requestedGas) (remaining - remaining / 64)
  let cp := m.world.checkpoint
  match sub m.world ⟨callee, code, input, depth + 1⟩ forwarded with
  | .error e => throw (.abort e)
  | .ok (e, w) =>
    let ok := haltIsSuccess e.halt
    set { m with
      meter := (m.meter.charge e.energyUsed).getD m.meter
      world := if ok then w.commit cp else w.revertTo cp
      dropped := m.dropped + e.dropped + if ok then w.journal.length - cp else 0 }
    pure (ok, e.returnData)

/-- Mirrors vm/engine.rs:259-283. -/
def dispatchCall (cr : Crypto) (sub : SubRun) (depth : Nat) (addrWord requestedGas : U256)
    (input : Bytes) : Op (Bool × Bytes) := do
  let m ← get
  let low := addrWord.toNat % 256
  -- `leading_zeros() >= 248` says that only the lowest byte may be set
  match if addrWord.toNat < 256 then precompileEnergy low input else none with
  | some cost =>
    charge cost
    pure (true, precompileExecute cr low input)
  | none =>
    let callee := wordBody addrWord
    let calleeCode := m.world.getCode callee
    if calleeCode = [] then pure (false, [])
    else callContract sub depth callee calleeCode input requestedGas

/-- Mirrors vm/engine.rs:242-292. -/
def callOp (cr : Crypto) (sub : SubRun) (depth : Nat) : Op (Option Nat) := do
  let requestedGas ← pop
  let addrWord ← pop
  let _value ← pop
  let argsOff := low64 (← pop)
  let argsLen := low64 (← pop)
  let retOff := low64 (← pop)
  let retLen := low64 (← pop)
  chargeMem (satAdd64 argsOff argsLen)
  let m ← get
  let input := getRange m.mem argsOff argsLen
  let (success, output) ← dispatchCall cr sub depth addrWord requestedGas input
  modify fun m => { m with lastReturnData := output }
  if success ∧ retLen > 0 then
    chargeMem (satAdd64 retOff retLen)
    writeSlice retOff (output.take (min retLen output.length))
  push (ofBool success)
  pure none

/-- RETURN and REVERT. Mirrors vm/engine.rs:293-300. -/
def haltWith (h : Halt) : Op (Option Nat) := do
  let off := low64 (← pop)
  let len := low64 (← pop)
  chargeMem (satAdd64 off len)
  let m ← get
  throw (.halt h (getRange m.mem off len))

/-- Mirrors vm/engine.rs:314-331. -/
def selfDestructOp (ctx : Ctx) (byte : UInt8) : Op (Option Nat) := do
  let m ← get
  if m.world.hostBacked then halt (.badOpcode byte)
  let word ← pop
  let beneficiary : Address := ⟨wordBody word, Bytes.length_be 20 _⟩
  if h : ctx.address.length = 20 then
    let m ← get
    charge (suicideCost (m.world.accountExists beneficiary))
    modify fun m => { m with world := m.world.suicide ⟨ctx.address, h⟩ beneficiary }
    halt .selfDestruct
  else halt (.badOpcode byte)

/-- The body of one instruction after its base cost: the next program counter when it
jumps, `none` when it falls through. Mirrors vm/engine.rs:137-333. -/
def instr (cr : Crypto) (sub : SubRun) (ctx : Ctx) (byte : UInt8) : OpCode → Op (Option Nat)
  | .stop => halt .stop
  | .add => binary (· + ·)
  | .sub => binary (· - ·)
  | .mul => binary (· * ·)
  | .div => binary fun a b => if b = 0 then 0 else a / b
  | .mod => binary fun a b => if b = 0 then 0 else a % b
  | .exp => binary fun a b => powBits 256 a b.toNat
  | .lt => binary fun a b => ofBool (a < b)
  | .gt => binary fun a b => ofBool (a > b)
  | .eq => binary fun a b => ofBool (a = b)
  | .isZero => do
    let a ← pop
    push (ofBool (a = 0))
    pure none
  | .and => binary (· &&& ·)
  | .or => binary (· ||| ·)
  | .xor => binary (· ^^^ ·)
  | .pop => do
    let _ ← pop
    pure none
  | .dup1 => do
    let m ← get
    match m.stack with
    | v :: _ => push v; pure none
    | [] => halt .stackUnderflow
  | .swap1 => do
    let m ← get
    match m.stack with
    | a :: b :: rest => set { m with stack := b :: a :: rest }; pure none
    | _ => halt .stackUnderflow
  | .push1 => do
    let m ← get
    set { m with pc := m.pc + 1 }
    push (BitVec.ofNat 256 (ctx.code.getD (m.pc + 1) 0).toNat)
    pure none
  | .push2 => do
    let m ← get
    set { m with pc := m.pc + 2 }
    push (BitVec.ofNat 256 ((ctx.code.getD (m.pc + 1) 0).toNat * 256 + (ctx.code.getD (m.pc + 2) 0).toNat))
    pure none
  | .callDataLoad => do
    let off := low64 (← pop)
    push (wordOfBe (padded ctx.calldata off 32))
    pure none
  | .callDataSize => do
    push (BitVec.ofNat 256 ctx.calldata.length)
    pure none
  | .returnDataSize => do
    let m ← get
    push (BitVec.ofNat 256 m.lastReturnData.length)
    pure none
  | .returnDataCopy => do
    let m ← get
    copyOp m.lastReturnData
  | .callDataCopy => copyOp ctx.calldata
  | .mload => do
    let off := low64 (← pop)
    chargeMem (satAdd64 off 32)
    let m ← get
    push (wordOfBe (padded m.mem off 32))
    pure none
  | .mstore => do
    let off := low64 (← pop)
    let val ← pop
    chargeMem (satAdd64 off 32)
    writeSlice off (wordToBe val)
    pure none
  | .mstore8 => do
    let off := low64 (← pop)
    let val ← pop
    chargeMem (satAdd64 off 1)
    writeSlice off [UInt8.ofNat val.toNat]
    pure none
  | .sload => do
    let key ← pop
    let m ← get
    push (m.world.sload ctx.address key)
    pure none
  | .sstore => do
    let key ← pop
    let value ← pop
    let m ← get
    charge (sstoreCost (m.world.sload ctx.address key = 0) (value = 0))
    modify fun m => { m with world := m.world.sstore ctx.address key value }
    pure none
  | .jump => do
    let dest ← pop
    jumpTo ctx.code dest
  | .jumpi => do
    let dest ← pop
    let cond ← pop
    if cond = 0 then pure none else jumpTo ctx.code dest
  | .jumpdest => pure none
  | .call => callOp cr sub ctx.depth
  | .ret => haltWith .ret
  | .revert => haltWith .revert
  | .voteWitness => do
    let amountLen := low64 (← pop)
    let amountOff := low64 (← pop)
    let witnessLen := low64 (← pop)
    let witnessOff := low64 (← pop)
    charge voteWitnessEnergy
    chargeMem (voteWitnessMemNeeded witnessOff witnessLen amountOff amountLen)
    push 0
    pure none
  | .selfDestruct => selfDestructOp ctx byte
  | .sdiv | .callToken | .tokenBalance | .callTokenValue | .callTokenId | .isContract | .freeze
  | .unfreeze | .freezeExpireTime | .withdrawReward | .freezeBalanceV2 | .unfreezeBalanceV2
  | .cancelAllUnfreezeV2 | .withdrawExpireUnfreeze | .delegateResource | .unDelegateResource
  | .invalid => halt (.badOpcode byte)

/-- One iteration of the loop: decode, charge the base cost (SSTORE charges its own), run
the instruction, move on. Mirrors vm/engine.rs:127-334. -/
def step (cr : Crypto) (sub : SubRun) (ctx : Ctx) (byte : UInt8) : Op Unit := do
  match OpCode.fromU8 byte with
  | none => halt (.badOpcode byte)
  | some op =>
    if op ≠ .sstore then charge (baseCost op)
    match ← instr cr sub ctx byte op with
    | some d => modify fun m => { m with pc := d }
    | none => modify fun m => { m with pc := m.pc + 1 }

/-! ## Frames -/

/-- The depth check at the head of `run_frame`, then the loop. -/
def start (loop : Ctx → Machine → Except Abort (Exec × World)) : SubRun := fun w ctx limit =>
  if ctx.depth > maxCallDepth then .ok (⟨.depthLimit, 0, [], none, 0⟩, w)
  else loop ctx (Machine.init w limit)

/-- Mirrors vm/engine.rs:126-336. -/
def runLoop (cr : Crypto) : Nat → Ctx → Machine → Except Abort (Exec × World)
  | 0, _, _ => .error .fuel
  | n + 1, ctx, m =>
    match ctx.code[m.pc]? with
    | none => .ok (m.exec .stop [], m.world)
    | some byte =>
      match step cr (start (runLoop cr n)) ctx byte m with
      | .ok _ m' => runLoop cr n ctx m'
      | .error (.halt h out) m' => .ok (m'.exec h out, m'.world)
      | .error (.abort e) _ => .error e

/-- Mirrors vm/engine.rs:82. -/
def runFrame (cr : Crypto) : SubRun := fun w ctx limit => start (runLoop cr (limit + 1)) w ctx limit

/-- What the entry points return: success, the energy used and the output. Mirrors
vm/src/frame.rs:330. -/
structure CallResult where
  success : Bool
  halt : Halt
  energyUsed : Nat
  returnData : Bytes
  deriving DecidableEq

/-- Runs a given code against the world. Mirrors vm/engine.rs:64. -/
def executeCode (cr : Crypto) (w : World) (address code calldata : Bytes) (limit depth : Nat) :
    Except Abort (CallResult × World) :=
  (runFrame cr w ⟨address, code, calldata, depth⟩ limit).map fun (e, w') =>
    (⟨haltIsSuccess e.halt, e.halt, e.energyUsed, e.returnData⟩, w')

/-- Runs the code stored at an address. Mirrors vm/engine.rs:44. -/
def executeCall (cr : Crypto) (w : World) (address calldata : Bytes) (limit depth : Nat) :
    Except Abort (CallResult × World) :=
  executeCode cr w address (w.getCode address) calldata limit depth

end TronRs.Vm

import TronRs.Core.Bytes

/-!
# Opcodes and their energy

`crates/vm/src/opcode.rs` and `crates/vm/src/energy.rs`. Energy amounts are `u64`;
they are `Nat` here with the wrapping written out where the source can wrap.
-/
namespace TronRs.Vm

/-- A TVM opcode. Mirrors vm/opcode.rs:11. -/
inductive OpCode where
  | stop | add | mul | sub | div | sdiv | mod | exp | lt | gt | eq | isZero | and | or | xor
  | callDataLoad | callDataSize | callDataCopy | returnDataSize | returnDataCopy
  | pop | mload | mstore | mstore8 | sload | sstore | jump | jumpi | jumpdest
  | push1 | push2 | dup1 | swap1
  | callToken | tokenBalance | callTokenValue | callTokenId | isContract | freeze | unfreeze
  | freezeExpireTime | voteWitness | withdrawReward | freezeBalanceV2 | unfreezeBalanceV2
  | cancelAllUnfreezeV2 | withdrawExpireUnfreeze | delegateResource | unDelegateResource
  | call | ret | revert | invalid | selfDestruct
  deriving DecidableEq, Repr

namespace OpCode

/-- Mirrors vm/opcode.rs:71. -/
def fromU8 (b : UInt8) : Option OpCode :=
  match b.toNat with
  | 0x00 => some .stop | 0x01 => some .add | 0x02 => some .mul | 0x03 => some .sub
  | 0x04 => some .div | 0x05 => some .sdiv | 0x06 => some .mod | 0x0a => some .exp
  | 0x10 => some .lt | 0x11 => some .gt | 0x14 => some .eq | 0x15 => some .isZero
  | 0x16 => some .and | 0x17 => some .or | 0x18 => some .xor
  | 0x35 => some .callDataLoad | 0x36 => some .callDataSize | 0x37 => some .callDataCopy
  | 0x3d => some .returnDataSize | 0x3e => some .returnDataCopy
  | 0x50 => some .pop | 0x51 => some .mload | 0x52 => some .mstore | 0x53 => some .mstore8
  | 0x54 => some .sload | 0x55 => some .sstore | 0x56 => some .jump | 0x57 => some .jumpi
  | 0x5b => some .jumpdest | 0x60 => some .push1 | 0x61 => some .push2
  | 0x80 => some .dup1 | 0x90 => some .swap1
  | 0xd0 => some .callToken | 0xd1 => some .tokenBalance | 0xd2 => some .callTokenValue
  | 0xd3 => some .callTokenId | 0xd4 => some .isContract | 0xd5 => some .freeze
  | 0xd6 => some .unfreeze | 0xd7 => some .freezeExpireTime | 0xd8 => some .voteWitness
  | 0xd9 => some .withdrawReward | 0xda => some .freezeBalanceV2
  | 0xdb => some .unfreezeBalanceV2 | 0xdc => some .cancelAllUnfreezeV2
  | 0xdd => some .withdrawExpireUnfreeze | 0xde => some .delegateResource
  | 0xdf => some .unDelegateResource
  | 0xf1 => some .call | 0xf3 => some .ret | 0xfd => some .revert | 0xfe => some .invalid
  | 0xff => some .selfDestruct
  | _ => none

end OpCode

/-! ## Energy -/

def zeroTier : Nat := 0
def baseTier : Nat := 2
def veryLowTier : Nat := 3
def lowTier : Nat := 5
def midTier : Nat := 8
def highTier : Nat := 10
def expEnergy : Nat := 10
def sloadEnergy : Nat := 50
def setSstore : Nat := 20000
def clearSstore : Nat := 5000
def resetSstore : Nat := 5000
def memoryWord : Nat := 3
def newAcctCall : Nat := 25000
def suicideEnergy : Nat := 0
def voteWitnessEnergy : Nat := 30000

/-- Mirrors vm/energy.rs:39. -/
def suicideCost (beneficiaryExists : Bool) : Nat :=
  suicideEnergy + if beneficiaryExists then 0 else newAcctCall

/-- Mirrors vm/energy.rs:91. -/
def baseCost : OpCode → Nat
  | .stop | .ret | .revert | .invalid => zeroTier
  | .add | .sub | .lt | .gt | .eq | .isZero | .and | .or | .xor | .pop => veryLowTier
  | .mul | .div | .sdiv | .mod => lowTier
  | .push1 | .push2 | .dup1 | .swap1 => veryLowTier
  | .jumpdest => 1
  | .jump => midTier
  | .jumpi => highTier
  | .mload | .mstore | .mstore8 => veryLowTier
  | .callDataLoad => veryLowTier
  | .callDataSize | .returnDataSize => baseTier
  | .callDataCopy | .returnDataCopy => veryLowTier
  | .exp => expEnergy
  | .sload => sloadEnergy
  | .sstore => 0
  | .selfDestruct => suicideEnergy
  | .voteWitness => zeroTier
  | .isContract | .tokenBalance | .callTokenValue | .callTokenId => baseTier
  | .call => 40
  | .callToken => 40
  | .freeze | .unfreeze | .freezeExpireTime | .withdrawReward | .freezeBalanceV2
  | .unfreezeBalanceV2 | .cancelAllUnfreezeV2 | .withdrawExpireUnfreeze
  | .delegateResource | .unDelegateResource => baseTier

/-- Mirrors vm/energy.rs:124. -/
def sstoreCost (currentIsZero newIsZero : Bool) : Nat :=
  match currentIsZero, newIsZero with
  | true, false => setSstore
  | false, true => clearSstore
  | _, _ => resetSstore

/-- `u64` addition that stops at the largest value. -/
def satAdd64 (a b : Nat) : Nat := min (a + b) (2 ^ 64 - 1)

def satMul64 (a b : Nat) : Nat := min (a * b) (2 ^ 64 - 1)

/-- The quadratic memory price of `w` words, with the `u64` product wrapping. -/
def memoryCost (w : Nat) : Nat := (memoryWord * w + (w * w) % 2 ^ 64 / 512) % 2 ^ 64

/-- Mirrors vm/energy.rs:134; the subtraction wraps. -/
def memoryExpansionCost (curWords newWords : Nat) : Nat :=
  if newWords ≤ curWords then 0 else (memoryCost newWords + 2 ^ 64 - memoryCost curWords) % 2 ^ 64

/-- Mirrors vm/energy.rs:53. -/
def voteWitnessMemNeeded (witnessOffset witnessLen amountOffset amountLen : Nat) : Nat :=
  let extent := fun off len => satAdd64 (satAdd64 off (satMul64 len 32)) 32
  max (extent witnessOffset witnessLen) (extent amountOffset amountLen)

/-- Metered energy of one frame. Mirrors vm/lib.rs:31. -/
structure EnergyMeter where
  limit : Nat
  used : Nat
  deriving DecidableEq, Repr

namespace EnergyMeter

def new (limit : Nat) : EnergyMeter := ⟨limit, 0⟩

/-- The meter after charging `amount`, or `none` when it does not fit. Mirrors
vm/src/lib.rs:42. -/
def charge (m : EnergyMeter) (amount : Nat) : Option EnergyMeter :=
  if m.used + amount < 2 ^ 64 ∧ m.used + amount ≤ m.limit then some { m with used := m.used + amount }
  else none

/-- Mirrors vm/lib.rs:52. -/
def remaining (m : EnergyMeter) : Nat := m.limit - m.used

end EnergyMeter
end TronRs.Vm

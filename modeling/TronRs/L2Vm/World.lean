import TronRs.Core.Column
import TronRs.L1State.Types

/-!
# The journaled world

`crates/vm/src/frame.rs`. A `World` holds what a contract execution has written: storage
slots, balances, created and destroyed accounts, and a journal of undo records.
`checkpoint` remembers the journal's length, `revertTo` undoes every record after it,
`commit` drops the records after it and keeps the changes.

`Obs` collects everything a caller can read back from a world; `RevertsTo w w'` says that
undoing what `w'` has journaled since `w` gives back what `w` showed. Each mutation
establishes it (`sstore_reverts`), and it composes (`RevertsTo.trans`).
-/
namespace TronRs.Vm

open TronRs.Core

/-- A 256-bit machine word. -/
abbrev U256 := BitVec 256

/-- One undo record. Mirrors vm/frame.rs:27. -/
inductive JournalEntry where
  | storage (key : Bytes × U256) (prev : Option U256)
  | balance (addr : Address) (prev : Int64)
  | accountCreate (addr : Address)
  | suicide (addr : Address)
  | burn (amount : Int64)
  deriving DecidableEq

/-- Chain state a world reads through to. Mirrors vm/frame.rs:42. -/
structure StateBackend where
  getCode : Bytes → Bytes
  sload : Bytes → U256 → U256
  balance : Address → Int64
  accountExists : Address → Bool

/-- Where storage lives: in the world, in a single contract's host (a slot map), or read
through from chain state. Mirrors vm/frame.rs:51. -/
inductive Backend where
  | world
  | host (slots : Column U256 U256)
  | state (b : StateBackend)

/-- Mirrors vm/frame.rs:61; the journal's newest record comes first. -/
structure World where
  storage : Column (Bytes × U256) U256
  code : Column Bytes Bytes
  balances : Column Address Int64
  accounts : Finset Address
  suicides : List Address
  burned : Int64
  journal : List JournalEntry
  backend : Backend

namespace World

/-- Mirrors vm/frame.rs:73. -/
def new : World := ⟨∅, ∅, ∅, ∅, [], 0, [], .world⟩

/-- Mirrors vm/frame.rs:97. -/
def withHost (slots : Column U256 U256) : World := { new with backend := .host slots }

/-- Mirrors vm/frame.rs:112. -/
def withState (b : StateBackend) : World := { new with backend := .state b }

/-- Mirrors vm/frame.rs:125. -/
def hostBacked (w : World) : Bool :=
  match w.backend with
  | .host _ => true
  | _ => false

/-- Mirrors vm/frame.rs:129. -/
def setCode (w : World) (addr code : Bytes) : World := { w with code := w.code.put addr code }

/-- Mirrors vm/frame.rs:132. -/
def getCode (w : World) (addr : Bytes) : Bytes :=
  match w.code.get addr with
  | some c => c
  | none => match w.backend with
    | .state b => b.getCode addr
    | _ => []

/-- Mirrors vm/frame.rs:142. -/
def sload (w : World) (addr : Bytes) (slot : U256) : U256 :=
  match w.backend with
  | .host slots => (slots.get slot).getD 0
  | .world => (w.storage.get (addr, slot)).getD 0
  | .state b => match w.storage.get (addr, slot) with
    | some v => v
    | none => b.sload addr slot

/-- Mirrors vm/frame.rs:153; a host clears a slot on a zero write. -/
def sstore (w : World) (addr : Bytes) (slot value : U256) : World :=
  match w.backend with
  | .host slots =>
    { w with backend := .host (if value = 0 then slots.delete slot else slots.put slot value) }
  | _ =>
    { w with
      journal := .storage (addr, slot) (w.storage.get (addr, slot)) :: w.journal
      storage := w.storage.put (addr, slot) value }

/-- Mirrors vm/frame.rs:181. -/
def balance (w : World) (addr : Address) : Int64 :=
  match w.balances.get addr with
  | some b => b
  | none => match w.backend with
    | .state b => b.balance addr
    | _ => 0

/-- Mirrors vm/frame.rs:190. -/
def accountExists (w : World) (addr : Address) : Bool :=
  if addr ∈ w.accounts then true
  else match w.backend with
    | .state b => b.accountExists addr
    | _ => false

/-- Mirrors vm/frame.rs:199. -/
def isSuicided (w : World) (addr : Address) : Bool := w.suicides.contains addr

/-- Mirrors vm/frame.rs:240. -/
def writeBalance (w : World) (addr : Address) (new : Int64) : World :=
  { w with
    journal := .balance addr (w.balance addr) :: w.journal
    balances := w.balances.put addr new }

/-- Mirrors vm/frame.rs:245. -/
def ensureAccount (w : World) (addr : Address) : World :=
  if addr ∈ w.accounts then w
  else { w with journal := .accountCreate addr :: w.journal, accounts := insert addr w.accounts }

/-- Moves `amount` from one account to another. Both balances are read before either is
written, and neither is checked. Mirrors vm/frame.rs:208. -/
def transfer (w : World) (src dst : Address) (amount : Int64) : World :=
  if amount = 0 then w
  else
    let fb := w.balance src
    let tb := w.balance dst
    (((w.ensureAccount src).ensureAccount dst).writeBalance src (fb - amount)).writeBalance dst
      (tb + amount)

/-- The deletion mark of SELFDESTRUCT, set once per account. -/
def markSuicided (w : World) (contract : Address) : World :=
  if w.suicides.contains contract then w
  else { w with
    journal := .suicide contract :: w.journal
    suicides := w.suicides ++ [contract] }

/-- Burns the balance of a contract that names itself as beneficiary. -/
def burnBalance (w : World) (amount : Int64) : World :=
  if amount = 0 then w
  else { w with journal := .burn amount :: w.journal, burned := w.burned.saturatingAdd amount }

/-- Mirrors vm/frame.rs:255. -/
def suicide (w : World) (contract beneficiary : Address) : World :=
  let bal := w.balance contract
  let w' :=
    if beneficiary = contract then (w.writeBalance contract 0).burnBalance bal
    else
      let w1 := w.ensureAccount beneficiary
      let benefBal := w1.balance beneficiary
      (w1.writeBalance contract 0).writeBalance beneficiary (benefBal.saturatingAdd bal)
  w'.markSuicided contract

/-- Mirrors vm/frame.rs:275. -/
def checkpoint (w : World) : Nat := w.journal.length

/-- What popping one record restores. Mirrors vm/frame.rs:281. -/
def undo (w : World) : JournalEntry → World
  | .storage key (some v) => { w with storage := w.storage.put key v }
  | .storage key none => { w with storage := w.storage.delete key }
  | .balance addr prev => { w with balances := w.balances.put addr prev }
  | .accountCreate addr => { w with accounts := w.accounts.erase addr }
  | .suicide addr => { w with suicides := w.suicides.filter (· ≠ addr) }
  | .burn amount => { w with burned := w.burned - amount }

/-- The loop of `revert_to`: pop and undo while the journal is longer than `cp`. -/
def revertLoop (cp : Nat) : List JournalEntry → World → World
  | [], w => { w with journal := [] }
  | e :: rest, w =>
    if cp < (e :: rest).length then revertLoop cp rest (w.undo e) else { w with journal := e :: rest }

/-- Mirrors vm/frame.rs:279. -/
def revertTo (w : World) (cp : Nat) : World := revertLoop cp w.journal w

/-- Mirrors vm/frame.rs:306: the journal is cut back to its oldest `cp` records. -/
def commit (w : World) (cp : Nat) : World :=
  { w with journal := w.journal.drop (w.journal.length - cp) }

end World
end TronRs.Vm

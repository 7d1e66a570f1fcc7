import TronRs.L1State.WorldState
import TronRs.L2Vm.World

/-!
# The VM on top of the world state

`crates/actuators/src/vm_host.rs`. A world reads through to the state it runs on, and what a
successful run wrote is flushed back: storage, balances, code, and the deletion of the
contracts that destroyed themselves.
-/
namespace TronRs

open TronRs.Core Vm

/-- Mirrors actuators/vm_host.rs:19. -/
def addr21 (body : Bytes) : Option Address := if h : body.length = 20 then some ⟨body, h⟩ else none

@[simp] lemma addr21_body (a : Address) : addr21 a.body = some a := by
  simp only [addr21, a.size, ↓reduceDIte]

/-- Mirrors actuators/vm_host.rs:45. -/
def stateBackend (s : WorldState) : StateBackend where
  getCode body := ((addr21 body).map s.getCode).getD []
  sload body slot := ((addr21 body).bind fun a => s.contractStorage.get (a, slot)).getD 0
  balance a := ((s.getAccount a).map Account.balance).getD 0
  accountExists a := s.accountExists a

/-- The storage slots a world has written, under full addresses. -/
def writtenSlots (w : World) : Finset (Address × U256) :=
  w.storage.keys.biUnion fun k =>
    match addr21 k.1 with
    | some a => {(a, k.2)}
    | none => ∅

/-- A zero clears the slot. -/
def flushStorage (w : World) (st : Column (Address × U256) U256) : Column (Address × U256) U256 :=
  Column.ofFn (writtenSlots w ∪ st.keys) fun k =>
    match w.storage.get (k.1.body, k.2) with
    | some v => if v = 0 then none else some v
    | none => st.get k

/-- The account a balance is written to; a missing one is created. -/
def withBalance (addr : Address) (bal : Int64) (old : Option Account) : Account :=
  { old.getD { address := addr.asBytes } with balance := bal }

def flushBalances (w : World) (accounts : Column Address Account) : Column Address Account :=
  Column.update w.balances (fun addr bal old => some (withBalance addr bal old)) accounts

/-- The addresses a world has set code for. -/
def writtenCode (w : World) : Finset Address :=
  w.code.keys.biUnion fun k =>
    match addr21 k with
    | some a => {a}
    | none => ∅

def flushCode (w : World) (codes : Column Address Bytes) : Column Address Bytes :=
  Column.ofFn (writtenCode w ∪ codes.keys) fun a =>
    match w.code.get a.body with
    | some code => some code
    | none => codes.get a

/-- The account and the code of a destroyed contract are removed. -/
def deleteContract (s : WorldState) (a : Address) : WorldState :=
  { s with account := s.account.delete a, contractCode := s.contractCode.delete a }

/-- Mirrors actuators/vm_host.rs:88. -/
def flushWorld (s : WorldState) (w : World) : WorldState :=
  w.suicides.foldl deleteContract { s with
      contractStorage := flushStorage w s.contractStorage
      account := flushBalances w s.account
      contractCode := flushCode w s.contractCode }

/-! ## Reading a flushed state -/

section
variable {w : World} {a : Address}

lemma mem_writtenSlots {k : U256} {v : U256} (hv : w.storage.get (a.body, k) = some v) : (a, k) ∈ writtenSlots w := by
  refine Finset.mem_biUnion.mpr ⟨(a.body, k), Column.mem_keys.mpr (by rw [hv]; rfl), ?_⟩
  rw [addr21_body]; exact Finset.mem_singleton_self _

lemma get_flushStorage (a : Address) (k : U256) (st : Column (Address × U256) U256) :
    (flushStorage w st).get (a, k) = match w.storage.get (a.body, k) with
      | some v => if v = 0 then none else some v
      | none => st.get (a, k) := by
  rw [flushStorage, get_ofFn]
  split
  · rfl
  rename_i hk; rw [Finset.mem_union, not_or] at hk
  cases hv : w.storage.get (a.body, k) with
  | none => exact (Column.not_mem_keys.mp hk.2).symm
  | some => exact absurd (mem_writtenSlots hv) hk.1

lemma mem_writtenCode {code : Bytes} (hc : w.code.get a.body = some code) : a ∈ writtenCode w := by
  refine Finset.mem_biUnion.mpr ⟨a.body, Column.mem_keys.mpr (by rw [hc]; rfl), ?_⟩
  rw [addr21_body]; exact Finset.mem_singleton_self _

lemma get_flushCode (a : Address) (codes : Column Address Bytes) :
    (flushCode w codes).get a = match w.code.get a.body with
      | some code => some code
      | none => codes.get a := by
  rw [flushCode, get_ofFn]
  split
  · rfl
  rename_i hk; rw [Finset.mem_union, not_or] at hk
  cases hc : w.code.get a.body with
  | none => exact (Column.not_mem_keys.mp hk.2).symm
  | some => exact absurd (mem_writtenCode hc) hk.1

end

variable (s : WorldState) (w : World)

/-- Only three columns are written. -/
lemma flushWorld_eq : flushWorld s w = { s with
      account := w.suicides.foldl Column.delete (flushBalances w s.account)
      contractCode := w.suicides.foldl Column.delete (flushCode w s.contractCode)
      contractStorage := flushStorage w s.contractStorage } := by
  have hdel : ∀ (ks : List Address) (u : WorldState), ks.foldl deleteContract u =
      { u with
        account := ks.foldl Column.delete u.account, contractCode := ks.foldl Column.delete u.contractCode } := by
    intro ks
    induction ks with
    | nil => exact fun _ => rfl
    | cons k ks ih => exact fun u => ih (deleteContract u k)
  exact hdel w.suicides _

lemma account_flushWorld :
    (flushWorld s w).account = w.suicides.foldl Column.delete (flushBalances w s.account) := by rw [flushWorld_eq]

lemma contractCode_flushWorld :
    (flushWorld s w).contractCode = w.suicides.foldl Column.delete (flushCode w s.contractCode) := by rw [flushWorld_eq]

lemma contractStorage_flushWorld :
    (flushWorld s w).contractStorage = flushStorage w s.contractStorage := by rw [flushWorld_eq]

lemma burned_flushWorld : (flushWorld s w).burned = s.burned := by rw [flushWorld_eq]; rfl

lemma contract_flushWorld : (flushWorld s w).contract = s.contract := by rw [flushWorld_eq]

end TronRs

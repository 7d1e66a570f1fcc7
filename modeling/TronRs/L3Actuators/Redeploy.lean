import TronRs.Core.Lts
import TronRs.L3Actuators.ContractCode

/-!
# Storage after SELFDESTRUCT

A flush deletes the account and the code of a destroyed contract and leaves its storage rows. They
cannot be read while nothing runs at the address, but a deployment may bring code there again.

* `destroyed_storage_unreachable`: as long as no deployment is made at an address with rows from
  before its destruction, and no constructor destroys its own contract and leaves rows, every SLOAD
  at a destroyed address returns what was written since, and zero where nothing was.
* `destroyed_storage_read_back`: a contract that is deployed again reads what it stored before.
-/
namespace TronRs

open TronRs.Core Vm CreateSmartContractActuator

variable {a : Address} {res : ExecutionResult} {l : VmTx} {x : Load}

/-- The state, with the addresses whose contracts were destroyed so far, and what was written to
each slot by the transactions after its contract was last destroyed. -/
structure History where
  state : WorldState
  destroyed : Finset Address := ∅
  since : Column (Address × U256) U256 := ∅

/-- The writes of a world on top of earlier ones, without those to contracts it destroys. -/
def writtenSince (w : World) (since : Column (Address × U256) U256) : Column (Address × U256) U256 :=
  Column.ofFn (writtenSlots w ∪ since.keys) fun k =>
    if k.1 ∈ w.suicides then none else (w.storage.get (k.1.body, k.2)).or (since.get k)

variable (cr : Crypto)

/-- The history after a transaction that led to `t`. -/
def History.after (h : History) (l : VmTx) (t : WorldState) : History where
  state := t
  destroyed := h.destroyed ∪ (l.destroyed cr h.state).toFinset
  since := (l.flushed cr h.state).elim h.since (writtenSince · h.since)

/-- Runs of successful calls and deployments. -/
def histories : Lts History VmTx where
  init h := h.destroyed = ∅ ∧ h.since = ∅
  step h l h' := ∃ res t, l.run cr h.state = .ok res t ∧ h' = h.after cr l t

/-- The SLOADs of a transaction. -/
def VmTx.loads (s : WorldState) (l : VmTx) : List Load := (l.root s).elim [] (frameLoads cr)

/-- No row of the address is left from before it was destroyed. -/
def History.Clean (h : History) (a : Address) : Prop :=
  ∀ k, (h.state.contractStorage.get (a, k)).getD 0 = (h.since.get (a, k)).getD 0

/-- A deployment is made at an address that was not destroyed or has no row from before; and a
constructor that destroys its own contract leaves no row. -/
def History.Reclaims (h : History) : VmTx → Prop
  | .trigger _ => True
  | .create c => ∀ sc owner, c.newContract = some sc → Address.ofBytes c.ownerAddress = some owner →
      (deployAddress sc owner ∈ h.destroyed → h.Clean (deployAddress sc owner)) ∧
      ∀ r w, construct cr h.state (deployAddress sc owner) sc.bytecode = .ok (r, w) →
        deployAddress sc owner ∈ w.suicides →
        ∀ k, (flushStorage w h.state.contractStorage).get (deployAddress sc owner, k) = none

/-! ## Storage through a flush -/

variable {cr} {s t : WorldState} {w : World} {h : History}

lemma get_writtenSince (a : Address) (k : U256) (since : Column (Address × U256) U256) :
    (writtenSince w since).get (a, k) =
      if a ∈ w.suicides then none else (w.storage.get (a.body, k)).or (since.get (a, k)) := by
  rw [writtenSince, get_ofFn]
  split
  · rfl
  rename_i hk; rw [Finset.mem_union, not_or] at hk
  have hnone : w.storage.get (a.body, k) = none := by
    cases hv : w.storage.get (a.body, k) with
    | none => rfl
    | some => exact absurd (mem_writtenSlots hv) hk.1
  rw [hnone, Column.not_mem_keys.mp hk.2]; split <;> rfl

/-- A flush keeps an address clean that it does not destroy. -/
lemma clean_flush (hclean : h.Clean a) (hmem : a ∉ w.suicides) (k : U256) :
    ((flushStorage w h.state.contractStorage).get (a, k)).getD 0 = ((writtenSince w h.since).get (a, k)).getD 0 := by
  rw [get_flushStorage, get_writtenSince, if_neg hmem]
  cases w.storage.get (a.body, k) with
  | none => exact hclean k
  | some v =>
    dsimp only
    split
    · rename_i hv; rw [hv]; rfl
    · rfl

/-! ## One transaction -/

/-- Code at a destroyed address finds no row from before. -/
def History.Safe (h : History) : Prop := ∀ a ∈ h.destroyed, h.state.getCode a ≠ [] → h.Clean a

lemma storage_congr {u : WorldState} (hout : t.outside = u.outside) : t.contractStorage = u.contractStorage :=
  congrArg Outside.contractStorage hout

lemma History.Safe.trigger (hs : h.Safe) {c : TriggerSmartContract}
    (hrun : (VmTx.trigger c).run cr h.state = .ok res t) : (h.after cr (.trigger c) t).Safe := by
  obtain ⟨owner, target, r, w, ho, ht, hr, hout⟩ := triggerSmartContract_ok hrun
  obtain ⟨hc, hb⟩ := startWorld_eq h.state owner target c.callValue
  have hcode : w.code = ∅ := code_executeCode hb hc hr
  have hflush := flushed_trigger ho ht hr; intro a ha hne k; unfold after at ha hne ⊢
  simp only [VmTx.destroyed, hflush] at ha hne ⊢
  by_cases hsucc : r.success
  · simp only [hsucc, if_true, Option.map_some, Option.getD_some, Option.elim_some, Finset.mem_union,
      List.mem_toFinset] at ha hout ⊢
    rw [getCode_congr hout, getCode_flushWorld hcode] at hne
    split at hne
    · exact absurd rfl hne
    · rename_i hmem; rw [storage_congr hout, contractStorage_flushWorld]
      exact clean_flush (hs a (ha.resolve_right hmem) hne) hmem k
  · simp only [hsucc, Bool.false_eq_true, if_false, Option.map_none, Option.getD_none, Option.elim_none,
      List.toFinset_nil, Finset.union_empty] at ha hout ⊢
    rw [getCode_congr hout] at hne; rw [storage_congr hout]; exact hs a ha hne k

lemma History.Safe.create (hs : h.Safe) {c : CreateSmartContract}
    (hok : h.Reclaims cr (.create c)) (hrun : (VmTx.create c).run cr h.state = .ok res t) :
    (h.after cr (.create c) t).Safe := by
  obtain ⟨sc, owner, r, w, hsc, ho, hr, hsucc, hout⟩ := createSmartContract_ok hrun
  obtain ⟨hclean, hself⟩ := hok sc owner hsc ho
  have hcode : w.code = ∅ := code_executeCode rfl rfl hr
  have hflush := flushed_create hsc ho hr hsucc
  have hstorage : t.contractStorage = flushStorage w h.state.contractStorage :=
    (storage_congr hout).trans (contractStorage_flushWorld h.state w)
  intro a ha hne k; unfold after at ha hne ⊢
  simp only [VmTx.destroyed, hflush, Option.map_some, Option.getD_some, Option.elim_some, Finset.mem_union,
    List.mem_toFinset] at ha hne ⊢
  rw [hstorage]; rw [getCode_congr hout, getCode_deploy hcode] at hne
  by_cases hmem : a ∈ w.suicides
  · -- only the constructor's own contract has code although it was destroyed
    by_cases hd : a = deployAddress sc owner
    · subst hd; rw [hself r w hr hmem k, get_writtenSince, if_pos hmem]
    · rw [if_neg hd, if_pos hmem] at hne; exact absurd rfl hne
  · have hold := ha.resolve_right hmem; refine clean_flush ?_ hmem k
    by_cases hd : a = deployAddress sc owner
    · subst hd; exact hclean hold
    · rw [if_neg hd, if_neg hmem] at hne; exact hs a hold hne

lemma History.Safe.after (hs : h.Safe) (hok : h.Reclaims cr l)
    (hrun : l.run cr h.state = .ok res t) : (h.after cr l t).Safe := by
  cases l with
  | trigger => exact hs.trigger hrun
  | create => exact hs.create hok hrun

/-! ## What is loaded -/

lemma address_eq_of_body {b : Address} (h : a.body = b.body) : a = b := by
  have ha := addr21_body a; rw [h, addr21_body] at ha; exact (Option.some.inj ha).symm

/-- Every SLOAD of a successful transaction is executed on its state, at an address that has code or
where it deploys. -/
lemma within_loads (hrun : l.run cr s = .ok res t)
    (hx : x ∈ l.loads cr s) (ha : x.address = a.body) : x.world.backend = .state (stateBackend s) ∧
      (s.getCode a ≠ [] ∨ ∃ c sc owner, l = .create c ∧ c.newContract = some sc ∧
        Address.ofBytes c.ownerAddress = some owner ∧ a = deployAddress sc owner) := by
  have hcode : (stateBackend s).getCode x.address = s.getCode a := by
    rw [ha]; show ((addr21 a.body).map s.getCode).getD [] = _; rw [addr21_body]
    rfl
  cases l with
  | trigger c =>
    obtain ⟨⟨v, hv⟩, -⟩ := Actuator.run_ok hrun
    obtain ⟨owner, target, ho, ht, htarget⟩ := TriggerSmartContractActuator.validate_ok hv
    obtain ⟨hc, hb⟩ := startWorld_eq s owner target c.callValue
    simp only [VmTx.loads, VmTx.root, ho, ht, Option.bind_eq_bind, Option.bind_some, Option.elim_some] at hx
    obtain ⟨hat, hbk⟩ := mem_frameLoads hb hc hx; refine ⟨hbk, .inl ?_⟩
    rcases hat with hat | hat
    · rw [address_eq_of_body (ha.symm.trans hat)]; exact htarget
    · rwa [hcode] at hat
  | create c =>
    obtain ⟨⟨v, hv⟩, -⟩ := Actuator.run_ok hrun
    obtain ⟨owner, sc, ho, hsc⟩ := CreateSmartContractActuator.validate_ok (s := s) hv
    simp only [VmTx.loads, VmTx.root, hsc, ho, Option.bind_eq_bind, Option.bind_some, Option.elim_some] at hx
    obtain ⟨hat, hbk⟩ := mem_frameLoads rfl rfl hx
    refine ⟨hbk, ?_⟩
    rcases hat with hat | hat
    · exact .inr ⟨c, sc, owner, rfl, hsc, ho, address_eq_of_body (ha.symm.trans hat)⟩
    · rw [hcode] at hat; exact .inl hat

/-- On a clean address, an SLOAD returns what was written since. -/
lemma value_of_clean (hb : x.world.backend = .state (stateBackend h.state))
    (ha : x.address = a.body) (hclean : h.Clean a) :
    x.value = (x.world.storage.get (a.body, x.slot)).getD ((h.since.get (a, x.slot)).getD 0) := by
  rw [Load.value, World.sload, hb, ha]
  cases x.world.storage.get (a.body, x.slot) with
  | some => rfl
  | none =>
    rw [Option.getD_none, ← hclean x.slot]
    show ((addr21 a.body).bind fun a => h.state.contractStorage.get (a, x.slot)).getD 0 = _
    rw [addr21_body]; rfl

/-- **Storage of destroyed contracts is unreachable.** In every run of successful calls and
deployments whose deployments meet the condition, and for every next transaction that meets it,
every SLOAD at an address destroyed before returns what this transaction has written to the slot,
or else what was last written since the destruction, or else zero. -/
theorem destroyed_storage_unreachable {h0 : History} {ls : List VmTx} (hinit : (histories cr).init h0)
    (hruns : ((histories cr).guard (History.Reclaims cr)).Run h0 ls h) {l : VmTx} {res : ExecutionResult}
    (hok : h.Reclaims cr l) (hrun : l.run cr h.state = .ok res t) {x : Load} (hx : x ∈ l.loads cr h.state)
    {a : Address} (hdestroyed : a ∈ h.destroyed) (ha : x.address = a.body) :
    x.value = (x.world.storage.get (a.body, x.slot)).getD ((h.since.get (a, x.slot)).getD 0) := by
  have hsafe : h.Safe := by
    refine hruns.preserves (fun h l h' hs hstep => ?_) fun a ha => ?_
    · obtain ⟨hok, res, t, hrun, rfl⟩ := hstep; exact hs.after hok hrun
    · rw [hinit.1] at ha; exact absurd ha (Finset.notMem_empty a)
  obtain ⟨hb, hcode | ⟨c, sc, owner, rfl, hsc, ho, rfl⟩⟩ := within_loads hrun hx ha
  · exact value_of_clean hb ha (hsafe a hdestroyed hcode)
  · exact value_of_clean hb ha ((hok sc owner hsc ho).1 hdestroyed)

/-! ## Runs on fixed inputs -/

/-- A contract with this code at `0xcc`. -/
def deployed (code : Bytes) : History where
  state := { contractCode := (∅ : Column Address Bytes).put (Address.ofNat 0xcc) code }

def callIt : VmTx :=
  .trigger { ownerAddress := (Address.ofNat 0xaa).asBytes, contractAddress := (Address.ofNat 0xcc).asBytes }

/-- SELFDESTRUCT, and a constructor that loads slot 1. -/
def destroyCode : Bytes := [0x60, 0, 0xff]
def loadCode : Bytes := [0x60, 1, 0x54]

/-- The contract is deployed again. -/
def deployAgain : VmTx := .create (deployment (Address.ofNat 0xcc) loadCode)

/-- What an SLOAD of a deployment shows: address, slot, value and the write in front of it. -/
def shown (x : Load) : Bytes × U256 × U256 × Option U256 :=
  (x.address, x.slot, x.value, x.world.storage.get (x.address, x.slot))

lemma exists_load {o : Bytes × U256 × U256 × Option U256}
    (h : (deployAgain.loads noCrypto s).map shown = [o]) : ∃ x ∈ deployAgain.loads noCrypto s, shown x = o :=
  List.mem_map.mp (h ▸ List.mem_singleton_self o)

/-- The history after the call. -/
def called (code : Bytes) : History :=
  (deployed code).after noCrypto callIt (stateAfter (callIt.run noCrypto) (deployed code).state)

/-- A contract without storage is destroyed and deployed again: the slot reads zero. -/
theorem destroyed_storage_unreachable_clean : ∃ h res t x,
    ((histories noCrypto).guard (History.Reclaims noCrypto)).Run (deployed destroyCode) [callIt] h ∧
    Address.ofNat 0xcc ∈ h.destroyed ∧ h.Reclaims noCrypto deployAgain ∧
    deployAgain.run noCrypto h.state = .ok res t ∧ x ∈ deployAgain.loads noCrypto h.state ∧
    x.address = (Address.ofNat 0xcc).body ∧ x.value = 0 := by
  obtain ⟨res, hcall⟩ := ok_of_returns (m := callIt.run noCrypto) (s := (deployed destroyCode).state)
    (by decide +kernel)
  obtain ⟨res', hagain⟩ := ok_of_returns (m := deployAgain.run noCrypto) (s := (called destroyCode).state)
    (by decide +kernel)
  have hrun : ((histories noCrypto).guard (History.Reclaims noCrypto)).Run (deployed destroyCode) [callIt]
      (called destroyCode) := .cons ⟨trivial, _, _, hcall, rfl⟩ (.nil _)
  have hmem : Address.ofNat 0xcc ∈ (called destroyCode).destroyed := by decide +kernel
  have hrows : (called destroyCode).state.contractStorage = ∅ ∧ (called destroyCode).since = ∅ := by decide +kernel
  have hok : (called destroyCode).Reclaims noCrypto deployAgain := by
    intro sc owner hsc ho; cases hsc; cases ho
    refine ⟨fun _ k => by rw [hrows.1, hrows.2], fun r w hr hself => ?_⟩
    have hnone : (construct noCrypto (called destroyCode).state (Address.ofNat 0xcc) loadCode).toOption.map
        (·.2.suicides) = some [] := by decide +kernel
    have hsome := congrArg (fun r => r.toOption.map fun p => p.2.suicides) hr
    have hnil : w.suicides = [] := Option.some.inj (hsome.symm.trans hnone)
    rw [hnil] at hself; cases hself
  obtain ⟨x, hx, hshown⟩ := exists_load (o := ((Address.ofNat 0xcc).body, 1, 0, none))
    (s := (called destroyCode).state) (by decide +kernel)
  have haddr : x.address = (Address.ofNat 0xcc).body := congrArg Prod.fst hshown
  have hwrite : x.world.storage.get (x.address, x.slot) = none := congrArg (fun o => o.2.2.2) hshown
  refine ⟨called destroyCode, res', _, x, hrun, hmem, hok, hagain, hx, haddr, ?_⟩
  rw [destroyed_storage_unreachable ⟨rfl, rfl⟩ hrun hok hagain hx hmem haddr, hrows.2, ← haddr, hwrite]
  rfl

/-- A contract that has stored 9 in slot 1 is destroyed and deployed again: the constructor loads
the 9. -/
theorem destroyed_storage_read_back : ∃ cr h0 h, ∃ l : VmTx, ∃ res t, ∃ x : Load, ∃ a, (histories cr).init h0 ∧
    (histories cr).Run h0 [callIt] h ∧ a ∈ h.destroyed ∧ l.run cr h.state = .ok res t ∧ x ∈ l.loads cr h.state ∧
    x.address = a.body ∧ x.world.storage.get (a.body, x.slot) = none ∧ h.since.get (a, x.slot) = none ∧
    x.value = 9 := by
  let code : Bytes := [0x60, 9, 0x60, 1, 0x55] ++ destroyCode
  obtain ⟨res, hcall⟩ := ok_of_returns (m := callIt.run noCrypto) (s := (deployed code).state) (by decide +kernel)
  obtain ⟨res', hagain⟩ := ok_of_returns (m := deployAgain.run noCrypto) (s := (called code).state) (by decide +kernel)
  obtain ⟨x, hx, hshown⟩ := exists_load (o := ((Address.ofNat 0xcc).body, 1, 9, none))
    (s := (called code).state) (by decide +kernel)
  have haddr : x.address = (Address.ofNat 0xcc).body := congrArg Prod.fst hshown
  have hslot : x.slot = 1 := congrArg (fun o => o.2.1) hshown
  have hwrite : x.world.storage.get (x.address, x.slot) = none := congrArg (fun o => o.2.2.2) hshown
  refine ⟨noCrypto, deployed code, called code, deployAgain, res', _, x, Address.ofNat 0xcc, ⟨rfl, rfl⟩,
    .cons ⟨_, _, hcall, rfl⟩ (.nil _), by decide +kernel, hagain, hx, haddr, haddr ▸ hwrite, ?_,
    congrArg (fun o => o.2.2.1) hshown⟩
  rw [hslot]; decide +kernel

end TronRs

import TronRs.L2Vm.Reads
import TronRs.L2Vm.Value
import TronRs.L3Actuators.VmHost

/-!
# Flushing a world

A world over the chain state is a journaled overlay: what it has written shadows the state, a
written zero included, and everything else is read through. `flush_world` makes the overlay the
state.

* `call_flushed`: after a call, with or without a transfer before it, the flushed state reads as
  the world did, except that destroyed contracts are gone; accounts change in their balance only,
  and no other column changes.

Storage, balances and code are flushed as they are read (`Flushed.of_listed`). For existence it
matters that an account is created exactly where a balance is written (`Listed`), and that no
balance of a frame that fails is left behind: value is moved by the root transfer and by
SELFDESTRUCT alone, and neither is ever undone.
-/
namespace TronRs

open TronRs.Core Vm

/-- The state `t` is what the world `w` over `s` showed. -/
structure Flushed (s : WorldState) (w : World) (t : WorldState) : Prop where
  sload : ∀ a ∉ w.suicides, ∀ slot, (stateBackend t).sload a.body slot = w.sload a.body slot
  balance : ∀ a ∉ w.suicides, (stateBackend t).balance a = w.balance a
  exists_iff : ∀ a ∉ w.suicides, (stateBackend t).accountExists a = w.accountExists a
  code : ∀ a ∉ w.suicides, (stateBackend t).getCode a.body = w.getCode a.body
  destroyed : ∀ a ∈ w.suicides, t.getAccount a = none ∧ t.contractCode.get a = none
  fields : ∀ a x y, s.getAccount a = some x → t.getAccount a = some y → y = { x with balance := y.balance }
  columns : t = { s with account := t.account, contractCode := t.contractCode, contractStorage := t.contractStorage }

/-! ## Accounts and balances -/

/-- Accounts are created where balances are written; a destroyed contract may have a balance only. -/
structure Listed (w : World) : Prop where
  balances : ∀ a ∈ w.accounts, (w.balances.get a).isSome
  accounts : ∀ a, (w.balances.get a).isSome → a ∈ w.accounts ∨ a ∈ w.suicides

lemma mem_ensureAccount (w : World) (x a : Address) : a ∈ (w.ensureAccount x).accounts ↔ a = x ∨ a ∈ w.accounts := by
  unfold World.ensureAccount
  split
  · rename_i hx; exact ⟨Or.inr, fun h => h.elim (· ▸ hx) id⟩
  · exact Finset.mem_insert

lemma mem_markSuicided (w : World) (x a : Address) : a ∈ (w.markSuicided x).suicides ↔ a = x ∨ a ∈ w.suicides := by
  unfold World.markSuicided
  split
  · rename_i hx; exact ⟨Or.inr, fun h => h.elim (fun heq => heq ▸ List.contains_iff_mem.mp hx) id⟩
  · show a ∈ w.suicides ++ [x] ↔ _; rw [List.mem_append, List.mem_singleton, or_comm]

lemma balances_ensureAccount (w : World) (x : Address) : (w.ensureAccount x).balances = w.balances := by
  unfold World.ensureAccount; split <;> rfl

lemma suicides_ensureAccount (w : World) (x : Address) : (w.ensureAccount x).suicides = w.suicides := by
  unfold World.ensureAccount; split <;> rfl

lemma burnBalance_eq (w : World) (amount : Int64) :
    (w.burnBalance amount).balances = w.balances ∧ (w.burnBalance amount).accounts = w.accounts ∧
      (w.burnBalance amount).suicides = w.suicides := by
  unfold World.burnBalance; split <;> exact ⟨rfl, rfl, rfl⟩

lemma markSuicided_eq (w : World) (x : Address) :
    (w.markSuicided x).balances = w.balances ∧ (w.markSuicided x).accounts = w.accounts := by
  unfold World.markSuicided; split <;> exact ⟨rfl, rfl⟩

lemma backend_transfer (w : World) (src dst : Address) (amount : Int64) :
    (w.transfer src dst amount).backend = w.backend := by
  unfold World.transfer World.ensureAccount World.writeBalance; dsimp only
  repeat' split
  all_goals rfl

namespace Listed
variable {w w' : World}

lemma congr (h : Listed w) (hb : w'.balances = w.balances) (ha : w'.accounts = w.accounts)
    (hs : w'.suicides = w.suicides) : Listed w' := by
  constructor
  · rw [hb, ha]; exact h.balances
  · rw [hb, ha, hs]; exact h.accounts

/-- Balances of `xs` are written, of which `ys` are created and `zs` destroyed. -/
lemma write (h : Listed w) (xs ys zs : List Address)
    (hb : ∀ a, (w'.balances.get a).isSome = true ↔ a ∈ xs ∨ (w.balances.get a).isSome = true)
    (ha : ∀ a, a ∈ w'.accounts ↔ a ∈ ys ∨ a ∈ w.accounts) (hs : ∀ a, a ∈ w'.suicides ↔ a ∈ zs ∨ a ∈ w.suicides)
    (hys : ∀ a ∈ ys, a ∈ xs) (hxs : ∀ a ∈ xs, a ∈ ys ∨ a ∈ zs) : Listed w' := by
  refine ⟨fun a hmem => (hb a).mpr ?_, fun a hget => ?_⟩
  · rcases (ha a).mp hmem with hmem | hmem
    · exact .inl (hys a hmem)
    · exact .inr (h.balances a hmem)
  · rw [ha, hs]
    rcases (hb a).mp hget with hmem | hget
    · exact (hxs a hmem).imp .inl .inl
    · exact (h.accounts a hget).imp .inr .inr

lemma withState (b : StateBackend) : Listed (World.withState b) where
  balances a ha := absurd ha (Finset.notMem_empty a)
  accounts a ha := by
    have hget : (World.withState b).balances.get a = none := get_empty a
    rw [hget] at ha; cases ha

lemma transfer (h : Listed w) (src dst : Address) (amount : Int64) : Listed (w.transfer src dst amount) := by
  unfold World.transfer
  split
  · exact h
  refine h.write [dst, src] [dst, src] [] (fun a => ?_) (fun a => ?_) (fun a => ?_)
    (fun _ ha => ha) fun _ ha => .inl ha
  · show (((_ : World).balances.put src _).put dst _ |>.get a).isSome = true ↔ _
    rw [isSome_get_put, isSome_get_put, balances_ensureAccount, balances_ensureAccount]; simp [or_assoc]
  · show a ∈ ((w.ensureAccount src).ensureAccount dst).accounts ↔ _
    rw [mem_ensureAccount, mem_ensureAccount]; simp [or_assoc]
  · show a ∈ ((w.ensureAccount src).ensureAccount dst).suicides ↔ _
    rw [suicides_ensureAccount, suicides_ensureAccount]; simp

lemma suicide (h : Listed w) (contract beneficiary : Address) : Listed (w.suicide contract beneficiary) := by
  unfold World.suicide; dsimp only
  split
  · refine h.write [contract] [] [contract] (fun a => ?_) (fun a => ?_) (fun a => ?_) nofun fun _ ha => .inr ha
    · rw [(markSuicided_eq _ _).1, (burnBalance_eq _ _).1]
      show ((w.balances.put contract 0).get a).isSome = true ↔ _
      rw [isSome_get_put, List.mem_singleton]
    · rw [(markSuicided_eq _ _).2, (burnBalance_eq _ _).2.1]; simp [World.writeBalance]
    · rw [mem_markSuicided, (burnBalance_eq _ _).2.2, List.mem_singleton]; rfl
  · refine h.write [beneficiary, contract] [beneficiary] [contract] (fun a => ?_) (fun a => ?_)
      (fun a => ?_) (by simp) (by simp)
    · rw [(markSuicided_eq _ _).1]
      show (((w.ensureAccount beneficiary).balances.put contract 0).put beneficiary _ |>.get a).isSome = true ↔ _
      rw [isSome_get_put, isSome_get_put, balances_ensureAccount]; simp [or_assoc]
    · rw [(markSuicided_eq _ _).2]; show a ∈ (w.ensureAccount beneficiary).accounts ↔ _
      rw [mem_ensureAccount, List.mem_singleton]
    · rw [mem_markSuicided, List.mem_singleton]
      show a = contract ∨ a ∈ (w.ensureAccount beneficiary).suicides ↔ _; rw [suicides_ensureAccount]

lemma stable : Stable Listed where
  sstore w a k v _ h := by
    unfold World.sstore; split <;> exact h.congr rfl rfl rfl
  suicide w c b h := h.suicide c b
  unstore w key prev h := by
    cases prev <;> exact h.congr rfl rfl rfl
  journal w j h := h.congr rfl rfl rfl

end Listed

/-! ## The flush -/

section
variable {s : WorldState} {w : World}

lemma getAccount_flush (s : WorldState) (w : World) (a : Address) :
    (flushWorld s w).getAccount a = if a ∈ w.suicides then none else match w.balances.get a with
      | some bal => some (withBalance a bal (s.getAccount a))
      | none => s.getAccount a := by
  rw [WorldState.getAccount, account_flushWorld, Column.get_foldl_delete, flushBalances, Column.get_update]
  cases w.balances.get a <;> rfl

/-- **A flush makes the world the state**, if accounts are created where balances are written. -/
theorem Flushed.of_listed (hb : w.backend = .state (stateBackend s)) (h : Listed w) : Flushed s w (flushWorld s w) where
  sload a _ slot := by
    show (((addr21 a.body).bind fun a => (flushWorld s w).contractStorage.get (a, slot)).getD 0) = _
    rw [addr21_body, contractStorage_flushWorld]
    show ((flushStorage w s.contractStorage).get (a, slot)).getD 0 = _
    rw [get_flushStorage, World.sload, hb]; dsimp only
    cases w.storage.get (a.body, slot) with
    | some v =>
      dsimp only
      split
      · rename_i hv; exact hv.symm
      · rfl
    | none =>
      show _ = ((addr21 a.body).bind fun a => s.contractStorage.get (a, slot)).getD 0; rw [addr21_body]
      rfl
  balance a ha := by
    show (((flushWorld s w).getAccount a).map Account.balance).getD 0 = _
    rw [getAccount_flush, if_neg ha, World.balance, hb]; cases w.balances.get a <;> rfl
  exists_iff a ha := by
    show ((flushWorld s w).getAccount a).isSome = _
    rw [getAccount_flush, if_neg ha, World.accountExists, hb]
    cases hbal : w.balances.get a with
    | some =>
      have hmem : a ∈ w.accounts := (h.accounts a (by rw [hbal]; rfl)).resolve_right ha
      rw [if_pos hmem]; rfl
    | none =>
      have hmem : a ∉ w.accounts := fun hmem => by have hsome := h.balances a hmem; rw [hbal] at hsome; cases hsome
      rw [if_neg hmem]; rfl
  code a ha := by
    show ((addr21 a.body).map (flushWorld s w).getCode).getD [] = _
    rw [addr21_body, Option.map_some, Option.getD_some, WorldState.getCode, contractCode_flushWorld,
      Column.get_foldl_delete, if_neg ha, get_flushCode, World.getCode, hb]
    cases w.code.get a.body with
    | some => rfl
    | none =>
      show _ = ((addr21 a.body).map s.getCode).getD []; rw [addr21_body]; rfl
  destroyed a ha := by
    rw [getAccount_flush, if_pos ha, contractCode_flushWorld, Column.get_foldl_delete, if_pos ha]
    exact ⟨rfl, rfl⟩
  fields a x y hx hy := by
    rw [getAccount_flush] at hy
    split at hy
    · cases hy
    rw [hx] at hy
    cases hbal : w.balances.get a with
    | some | none =>
      rw [hbal] at hy; cases hy; rfl
  columns := by rw [flushWorld_eq]

/-- **A call and its flush.** -/
theorem call_flushed {cr : Crypto} {src dst : Address} {amount : Int64} {address data : Bytes} {limit depth : Nat}
    {r : CallResult} (h : executeCall cr ((World.withState (stateBackend s)).transfer src dst amount) address data limit
      depth = .ok (r, w)) : Flushed s w (flushWorld s w) := by
  obtain ⟨e, hrun, -⟩ := executeCode_ok h
  have hbackend : ((World.withState (stateBackend s)).transfer src dst amount).backend = .state (stateBackend s) := by
    rw [backend_transfer]; rfl
  have hplain : ((World.withState (stateBackend s)).transfer src dst amount).hostBacked = false := by
    unfold World.hostBacked; rw [hbackend]
  refine Flushed.of_listed ?_ (Listed.stable.runFrame hplain hrun ((Listed.withState _).transfer src dst amount))
  exact (untouched_code.runFrame hplain hrun).2.trans hbackend

end

/-- An owner with a hundred sun, and a contract that writes 9 to its slot 1 and destroys itself in favour of `0xdd`. -/
def farewellState : WorldState :=
  { account := (∅ : Column Address Account).put (Address.ofNat 0xaa) { balance := 100 }
    contractCode := (∅ : Column Address Bytes).put (Address.ofNat 0xcc) (storeCode [0x60, 0xdd, 0xff]) }

/-- The call with five sun, as the root of a transaction. -/
def farewell : Except Abort (CallResult × World) :=
  executeCall noCrypto ((World.withState (stateBackend farewellState)).transfer
    (Address.ofNat 0xaa) (Address.ofNat 0xcc) 5)
    (Address.ofNat 0xcc).body [] 1000000 0

theorem call_flushed_farewell : ∃ r w, farewell = .ok (r, w) ∧ r.success = true ∧ w.suicides = [Address.ofNat 0xcc] ∧
    w.balance (Address.ofNat 0xdd) = 5 ∧ Flushed farewellState w (flushWorld farewellState w) := by
  have h : (farewell.toOption.map fun p => (p.1.success, p.2.suicides, p.2.balance (Address.ofNat 0xdd))) =
      some (true, [Address.ofNat 0xcc], 5) := by decide +kernel
  cases hrun : farewell with
  | error =>
    rw [hrun] at h; cases h
  | ok p =>
    rw [hrun] at h; simp only [Except.toOption, Option.map_some, Option.some.injEq, Prod.mk.injEq] at h
    exact ⟨p.1, p.2, rfl, h.1, h.2.1, h.2.2, call_flushed hrun⟩

end TronRs

import TronRs.Core.Effect
import TronRs.Core.Recency
import TronRs.L1State.WorldState

/-!
# The pool of pending transactions

`crates/consensus/src/mempool.rs`: the pool itself, and the pipeline a transaction passes
before it is pooled. An admission that fails leaves the pool as it was, so its result is
an error or the new pool.

* `admitTransaction_badSignature_iff`: the signature step is the only one that reports a bad
  signature, and it depends on the transaction alone.
* `Mempool.WellFormed`: the pool's two records of its transactions agree, whatever is added,
  removed or evicted.
* `pool_represents`: after any calls the pool holds what was added and not dropped since, in the order of
  the last additions.
-/
namespace TronRs

open TronRs.Core

variable {s : WorldState} {raw : TxRaw} {now : Int64} {pool : Mempool} {tx : Transaction}
variable {validate : WorldState → Transaction → Except String Unit}

def maxTxSize : Nat := 512 * 1024
def maxFutureExpirationMs : Int64 := 24 * 60 * 60 * 1000

/-- Why a transaction was refused. Mirrors consensus/mempool.rs:28. -/
inductive AdmitError where
  | tooLarge (size : Nat)
  | noRawData
  | noContract
  | badSignature
  | expired (expiration now : Int64)
  | tooFarInFuture (expiration now : Int64)
  | refBlockMismatch
  | duplicate
  | alreadyIncluded
  | invalid (reason : String)
  | poolFull
  deriving DecidableEq

/-- Mirrors consensus/mempool.rs:54. -/
structure Mempool where
  order : List (H256 × Transaction) := []
  seen : Finset H256 := ∅
  capacity : Nat := 10000

namespace Mempool
variable (pf : Platform) (pool : Mempool)

/-- Mirrors consensus/mempool.rs:60. -/
def new (capacity : Nat) : Mempool := { capacity }

def contains (id : H256) : Bool := id ∈ pool.seen

/-- Mirrors consensus/mempool.rs:78: nothing when the pool is full or has the id. -/
def add (tx : Transaction) : Option Mempool :=
  if pool.capacity ≤ pool.order.length then none
  else
    let id := txId pf tx
    if id ∈ pool.seen then none
    else some { pool with order := pool.order ++ [(id, tx)], seen := insert id pool.seen }

/-- Mirrors consensus/mempool.rs:92. -/
def remove (id : H256) : Mempool :=
  if id ∈ pool.seen then
    { pool with
      order := pool.order.eraseP fun p => p.1 = id
      seen := pool.seen.erase id }
  else pool

/-- Mirrors consensus/mempool.rs:103. -/
def peek (n : Nat) : List Transaction := (pool.order.take n).map Prod.snd

/-- Mirrors consensus/mempool.rs:108. -/
def evictIncluded (b : Block) : Mempool :=
  b.transactions.foldl (fun pool tx => pool.remove (txId pf tx)) pool

/-- A transaction that has not expired; zero means no expiry. -/
def live (now : Int64) (tx : Transaction) : Bool :=
  let exp := (tx.rawData.map TxRaw.expiration).getD 0
  exp = 0 || now < exp

/-- Mirrors consensus/mempool.rs:116. -/
def evictExpired (now : Int64) : Mempool :=
  { pool with
    order := pool.order.filter fun p => live now p.2
    seen := pool.order.foldl (fun seen p => if live now p.2 then seen else seen.erase p.1) pool.seen }

end Mempool

/-! ## Admission -/

variable (pf : Platform)

/-- Mirrors consensus/mempool.rs:135. -/
def verifyRefBlock (s : WorldState) (raw : TxRaw) : Except AdmitError Unit :=
  if raw.refBlockHash = [] then .ok ()
  else
    let head := s.getProp .latestBlockNumber
    match raw.refBlockBytes with
    | [hi, lo] =>
      if head ≤ 0 then .ok ()
      else do
        -- the largest number up to the head with these low 16 bits
        let ref16 := Int64.ofNat (hi.toNat * 256 + lo.toNat)
        let diff := Int64.ofInt ((head - ref16).toInt % 0x10000)
        let block ← orThrow (s.getBlockByNum (head - diff)) AdmitError.refBlockMismatch
        let id ← orThrow (blockIdOf pf block) AdmitError.refBlockMismatch
        ensure ((id.bytes.take 16).drop 8 = raw.refBlockHash) AdmitError.refBlockMismatch
    | _ => .ok ()

/-- Step 3: the signer of the first signature has to be the owner, when an owner is found. -/
def checkSignature (tx : Transaction) : Except AdmitError Unit := do
  let signer ← orThrow (recoverTxSigner pf tx) AdmitError.badSignature
  match txOwnerAddress tx with
  | some owner => ensure (signer.asBytes = owner) AdmitError.badSignature
  | none => pure ()

/-- Step 4: the expiration window; zero means no expiry. -/
def checkExpiration (raw : TxRaw) (now : Int64) : Except AdmitError Unit :=
  if raw.expiration = 0 then .ok ()
  else do
    ensure (now < raw.expiration) (AdmitError.expired raw.expiration now)
    ensure (raw.expiration ≤ now + maxFutureExpirationMs) (AdmitError.tooFarInFuture raw.expiration now)

/-- Mirrors consensus/mempool.rs:177. -/
def admitTransaction (pool : Mempool) (s : WorldState) (tx : Transaction) (now : Int64)
    (validate : WorldState → Transaction → Except String Unit) : Except AdmitError (H256 × Mempool) := do
  let size := (pf.codec.transaction tx).length
  ensure (size ≤ maxTxSize) (AdmitError.tooLarge size)
  let raw ← orThrow tx.rawData AdmitError.noRawData
  ensure (raw.contract ≠ []) AdmitError.noContract
  checkSignature pf tx
  checkExpiration raw now
  verifyRefBlock pf s raw
  let id := txId pf tx
  ensure (pool.contains id = false) AdmitError.duplicate
  ensure ((s.getTransaction id.bytes).isNone) AdmitError.alreadyIncluded
  match validate s tx with
  | .error reason => .error (.invalid reason)
  | .ok () =>
    let pool ← orThrow (pool.add pf tx) AdmitError.poolFull
    pure (id, pool)

variable {pf}

lemma verifyRefBlock_ne_badSignature : verifyRefBlock pf s raw ≠ .error .badSignature := by
  unfold verifyRefBlock
  split
  · nofun
  dsimp only
  split
  · split
    · nofun
    · simp [bind_eq_error]
  · nofun

lemma checkExpiration_ne_badSignature : checkExpiration raw now ≠ .error .badSignature := by
  unfold checkExpiration
  split
  · nofun
  · simp [bind_eq_error]

/-- **Where a bad signature comes from.** A transaction that gets to the signature step is
refused with `badSignature` exactly when that step fails, whatever the pool, the state, the
clock and the validation are. -/
theorem admitTransaction_badSignature_iff
    (hsize : (pf.codec.transaction tx).length ≤ maxTxSize) (hraw : tx.rawData = some raw) (hc : raw.contract ≠ []) :
    admitTransaction pf pool s tx now validate = .error .badSignature ↔
      checkSignature pf tx = .error .badSignature := by
  unfold admitTransaction
  simp only [hraw, bind_eq_error, ensure_eq_error, ensure_eq_ok, orThrow_eq_error, orThrow_eq_ok, hsize,
    hc, not_true_eq_false, false_or, reduceCtorEq, and_false, ne_eq, not_false_eq_true, true_and,
    Option.some.injEq, exists_eq_left', checkExpiration_ne_badSignature, verifyRefBlock_ne_badSignature]
  constructor
  · rintro ⟨-, -, hsig | ⟨-, -, -, -, -, -, -, -, -, -, hlast⟩⟩
    · exact hsig
    cases hv : validate s tx with
    | error => rw [hv] at hlast; cases hlast
    | ok =>
      rw [hv] at hlast; simp [bind_eq_error, pure, Except.pure] at hlast
  · intro hsig; exact ⟨(), (), .inl hsig⟩

/-- What has been admitted was neither pooled nor included, and is pooled now. -/
lemma admitTransaction_ok {pool' : Mempool} {id : H256}
    (h : admitTransaction pf pool s tx now validate = .ok (id, pool')) :
    s.getTransaction (txId pf tx).bytes = none ∧ pool.add pf tx = some pool' := by
  simp only [admitTransaction, check_rules] at h
  obtain ⟨-, -, raw, -, -, -, -, -, -, -, -, -, -, -, -, hnew, h⟩ := h
  refine ⟨Option.isNone_iff_eq_none.mp hnew, ?_⟩
  cases hv : validate s tx with
  | error =>
    rw [hv] at h; cases h
  | ok =>
    rw [hv] at h; obtain ⟨p, hp, hpure⟩ := bind_eq_ok.mp h; cases hpure
    exact orThrow_eq_ok.mp hp

/-- A transaction that passes every check is pooled. -/
lemma admitTransaction_of_checks {pool' : Mempool} (hsize : (pf.codec.transaction tx).length ≤ maxTxSize)
    (hraw : tx.rawData = some raw) (hcontract : raw.contract ≠ []) (hsig : checkSignature pf tx = .ok ())
    (hexp : checkExpiration raw now = .ok ()) (href : verifyRefBlock pf s raw = .ok ())
    (hseen : pool.contains (txId pf tx) = false) (hnew : s.getTransaction (txId pf tx).bytes = none)
    (hvalid : validate s tx = .ok ()) (hadd : pool.add pf tx = some pool') :
    admitTransaction pf pool s tx now validate = .ok (txId pf tx, pool') := by
  simp only [admitTransaction, check_rules]
  refine ⟨(), hsize, raw, hraw, (), hcontract, (), hsig, (), hexp, (), href, (), hseen, (), ?_, ?_⟩
  · rw [hnew, Option.isNone_none]
  · rw [hvalid, hadd]; rfl

/-! ## The pool's records agree -/

namespace Mempool
variable {pool pool' : Mempool} {capacity : Nat}

/-- Every pooled transaction is filed once, under its id, and `seen` holds the ids. -/
structure WellFormed (pf : Platform) (pool : Mempool) : Prop where
  ids : ∀ p ∈ pool.order, p.1 = txId pf p.2
  nodup : (pool.order.map Prod.fst).Nodup
  seen : pool.seen = (pool.order.map Prod.fst).toFinset

lemma add_eq_some {tx : Transaction} (h : pool.add pf tx = some pool') :
    pool.order.length < pool.capacity ∧ txId pf tx ∉ pool.seen ∧
      pool' = { pool with order := pool.order ++ [(txId pf tx, tx)], seen := insert (txId pf tx) pool.seen } := by
  simp only [Mempool.add] at h
  split at h
  · cases h
  rename_i hroom
  split at h
  · cases h
  · rename_i hnew; exact ⟨Nat.lt_of_not_le hroom, hnew, (Option.some.inj h).symm⟩

lemma WellFormed.add (h : pool.WellFormed pf) {tx : Transaction}
    (hadd : pool.add pf tx = some pool') : pool'.WellFormed pf ∧ pool'.seen = insert (txId pf tx) pool.seen := by
  obtain ⟨-, hnew, rfl⟩ := add_eq_some hadd
  refine ⟨⟨fun p hp => ?_, ?_, ?_⟩, rfl⟩
  · rcases List.mem_append.mp hp with hp | hp
    · exact h.ids p hp
    · obtain rfl := List.mem_singleton.mp hp; rfl
  · rw [h.seen, List.mem_toFinset] at hnew; rw [List.map_append, List.nodup_append]
    refine ⟨h.nodup, by simp, fun a ha b hb heq => ?_⟩; rw [heq, List.mem_singleton.mp hb] at ha
    exact hnew ha
  · show insert (txId pf tx) pool.seen = _; rw [h.seen]; ext id
    simp

/-- With distinct ids, removing the first entry of an id removes them all. -/
lemma eraseP_eq_filter {order : List (H256 × Transaction)} (h : (order.map Prod.fst).Nodup) (id : H256) :
    order.eraseP (fun p => p.1 = id) = order.filter fun p => p.1 ≠ id := by
  induction order with
  | nil => rfl
  | cons p rest ih =>
    rw [List.map_cons, List.nodup_cons] at h
    by_cases hp : p.1 = id
    · rw [List.eraseP_cons_of_pos (by simpa using hp), List.filter_cons_of_neg (by simpa using hp)]
      refine (List.filter_eq_self.mpr fun q hq => ?_).symm
      have hne : q.1 ≠ id := fun heq => h.1 (hp ▸ heq ▸ List.mem_map_of_mem hq)
      simpa using hne
    · rw [List.eraseP_cons_of_neg (by simpa using hp), List.filter_cons_of_pos (by simpa using hp), ih h.2]

lemma WellFormed.remove (h : pool.WellFormed pf) (id : H256) :
    (pool.remove id).WellFormed pf ∧ (pool.remove id).seen = pool.seen.erase id := by
  unfold Mempool.remove
  split
  · refine ⟨⟨fun p hp => ?_, ?_, ?_⟩, rfl⟩
    · exact h.ids p (List.mem_of_mem_eraseP hp)
    · exact h.nodup.sublist (List.eraseP_sublist.map _)
    show pool.seen.erase id = _; rw [h.seen, eraseP_eq_filter h.nodup]; ext j
    simp only [Finset.mem_erase, List.mem_toFinset, List.mem_map, List.mem_filter, decide_eq_true_eq]
    constructor
    · rintro ⟨hne, p, hp, rfl⟩; exact ⟨p, ⟨hp, hne⟩, rfl⟩
    · rintro ⟨p, ⟨hp, hne⟩, rfl⟩; exact ⟨hne, p, hp, rfl⟩
  · rename_i hno; exact ⟨h, (Finset.erase_eq_of_notMem hno).symm⟩

/-- Eviction leaves no transaction of the block. -/
lemma WellFormed.evictIncluded (h : pool.WellFormed pf) (b : Block) : (pool.evictIncluded pf b).WellFormed pf ∧
      ∀ id, id ∈ (pool.evictIncluded pf b).seen ↔ id ∈ pool.seen ∧ ∀ tx ∈ b.transactions, txId pf tx ≠ id := by
  unfold Mempool.evictIncluded
  generalize b.transactions = txs
  induction txs generalizing pool with
  | nil => exact ⟨h, fun id => by simp⟩
  | cons tx txs ih =>
    obtain ⟨hwf, hseen⟩ := h.remove (txId pf tx)
    obtain ⟨hwf', hmem⟩ := ih hwf; refine ⟨hwf', fun id => ?_⟩
    rw [List.foldl_cons, hmem, hseen, Finset.mem_erase]
    constructor
    · rintro ⟨⟨hne, hid⟩, hall⟩
      exact ⟨hid, fun t ht => (List.mem_cons.mp ht).elim (fun heq => heq ▸ Ne.symm hne) (hall t)⟩
    · rintro ⟨hid, hall⟩
      exact ⟨⟨Ne.symm (hall tx List.mem_cons_self), hid⟩, fun t ht => hall t (List.mem_cons_of_mem _ ht)⟩

/-- The ids dropped by an expiry leave `seen` one by one. -/
lemma mem_evictExpired_seen (pool : Mempool) (now : Int64) (id : H256) :
    id ∈ (pool.evictExpired now).seen ↔ id ∈ pool.seen ∧ ∀ p ∈ pool.order, live now p.2 = false → p.1 ≠ id := by
  unfold Mempool.evictExpired
  generalize pool.order = order
  induction order using List.reverseRecOn with
  | nil => simp
  | append_singleton order p ih =>
    simp only [List.foldl_append, List.foldl_cons, List.foldl_nil, List.forall_mem_append, List.forall_mem_singleton]
    cases hp : live now p.2 with
    | true => simp [ih]
    | false =>
      simp only [Bool.false_eq_true, if_false, Finset.mem_erase, ih, true_imp_iff, ne_comm (a := id)]
      tauto

lemma WellFormed.evictExpired (h : pool.WellFormed pf) (now : Int64) : (pool.evictExpired now).WellFormed pf := by
  have hsub : (pool.evictExpired now).order.Sublist pool.order := List.filter_sublist
  refine ⟨fun p hp => h.ids p (hsub.subset hp), h.nodup.sublist (hsub.map _), ?_⟩; ext id
  rw [mem_evictExpired_seen, h.seen]
  simp only [Mempool.evictExpired, List.mem_toFinset, List.mem_map, List.mem_filter]
  constructor
  · rintro ⟨⟨p, hp, hid⟩, hdead⟩; refine ⟨p, ⟨hp, ?_⟩, hid⟩; by_contra hlive
    exact hdead p hp (by simpa using hlive) hid
  · rintro ⟨p, ⟨hp, hlive⟩, hid⟩; refine ⟨⟨p, hp, hid⟩, fun q hq hdead hqid => ?_⟩
    -- ids are distinct, so the dead entry would be the live one
    cases List.inj_on_of_nodup_map h.nodup hp hq (hid.trans hqid.symm); rw [hlive] at hdead; cases hdead

/-! ## Any sequence of calls -/

inductive Call where
  | add (tx : Transaction)
  | remove (id : H256)
  | evictIncluded (b : Block)
  | evictExpired (now : Int64)

/-- A pool with the successful additions so far. -/
structure Logged where
  pool : Mempool
  adds : List (H256 × Transaction) := []

def Logged.call (pf : Platform) (s : Logged) : Call → Logged
  | .add tx =>
    match s.pool.add pf tx with
    | some pool => ⟨pool, s.adds ++ [(txId pf tx, tx)]⟩
    | none => s
  | .remove id => { s with pool := s.pool.remove id }
  | .evictIncluded b => { s with pool := s.pool.evictIncluded pf b }
  | .evictExpired now => { s with pool := s.pool.evictExpired now }

/-- The pool is well formed and within its capacity, and lists the ids it still holds in the order of their last
additions, each with the transaction added last. -/
structure Represents (pf : Platform) (capacity : Nat) (s : Logged) : Prop where
  wellFormed : s.pool.WellFormed pf
  room : s.pool.capacity = capacity ∧ s.pool.order.length ≤ capacity
  order : s.pool.order.map Prod.fst = (s.adds.map Prod.fst).dedup.filter (· ∈ s.pool.seen)
  last : ∀ p ∈ s.pool.order, lastUse Prod.fst s.adds p.1 = some p

lemma filter_mem_of_sublist {α : Type} [DecidableEq α] {l l' : List α} (h : l'.Sublist l) (hl : l.Nodup) :
    l.filter (· ∈ l') = l' := by
  induction h with
  | slnil => rfl
  | cons a h ih =>
    rw [List.nodup_cons] at hl
    rw [List.filter_cons_of_neg (by simpa using fun ha => hl.1 (h.subset ha)), ih hl.2]
  | cons_cons a h ih =>
    rw [List.nodup_cons] at hl; rw [List.filter_cons_of_pos (by simp)]
    refine congrArg (a :: ·) ((List.filter_congr fun b hb => ?_).trans (ih hl.2))
    have hne : b ≠ a := fun heq => hl.1 (heq ▸ hb)
    simp [hne]

/-- Dropping entries keeps the order of the others. -/
lemma Represents.drop {s : Logged} (h : Represents pf capacity s) {pool : Mempool}
    (hwf : pool.WellFormed pf) (hsub : pool.order.Sublist s.pool.order) (hcap : pool.capacity = s.pool.capacity) :
    Represents pf capacity { s with pool } where
  wellFormed := hwf
  room := ⟨hcap.trans h.room.1, hsub.length_le.trans h.room.2⟩
  order := by
    have hids := filter_mem_of_sublist (hsub.map Prod.fst) h.wellFormed.nodup
    rw [← hids, h.order, List.filter_filter]
    refine List.filter_congr fun id _ => ?_
    have hmem : id ∈ pool.order.map Prod.fst → id ∈ s.pool.order.map Prod.fst := fun hid => (hsub.map _).subset hid
    simp only [hwf.seen, h.wellFormed.seen, List.mem_toFinset]
    by_cases hid : id ∈ pool.order.map Prod.fst
    · simp [hid, hmem hid]
    · simp [hid]
  last := fun p hp => h.last p (hsub.subset hp)

lemma remove_sublist (pool : Mempool) (id : H256) :
    (pool.remove id).order.Sublist pool.order ∧ (pool.remove id).capacity = pool.capacity := by
  unfold Mempool.remove
  split
  · exact ⟨List.eraseP_sublist, rfl⟩
  · exact ⟨.refl _, rfl⟩

lemma evictIncluded_sublist (pf : Platform) (pool : Mempool) (b : Block) :
    (pool.evictIncluded pf b).order.Sublist pool.order ∧ (pool.evictIncluded pf b).capacity = pool.capacity := by
  unfold Mempool.evictIncluded
  generalize b.transactions = txs
  induction txs generalizing pool with
  | nil => exact ⟨.refl _, rfl⟩
  | cons tx txs ih =>
    obtain ⟨hsub, hcap⟩ := remove_sublist pool (txId pf tx)
    obtain ⟨hsub', hcap'⟩ := ih (pool.remove (txId pf tx))
    exact ⟨hsub'.trans hsub, hcap'.trans hcap⟩

lemma Represents.add {s : Logged} (h : Represents pf capacity s) {tx : Transaction} {pool : Mempool}
    (hadd : s.pool.add pf tx = some pool) : Represents pf capacity ⟨pool, s.adds ++ [(txId pf tx, tx)]⟩ := by
  obtain ⟨hwf, -⟩ := h.wellFormed.add hadd
  obtain ⟨hroom, hnew, rfl⟩ := add_eq_some hadd
  have hids : ∀ p ∈ s.pool.order, p.1 ≠ txId pf tx := by
    intro p hp heq; rw [h.wellFormed.seen, List.mem_toFinset] at hnew
    exact hnew (heq ▸ List.mem_map_of_mem hp)
  refine ⟨hwf, ⟨h.room.1, ?_⟩, ?_, ?_⟩
  · have hcap := h.room.1; simp only [List.length_append, List.length_singleton]; omega
  · simp only [List.map_append, List.map_singleton, dedup_concat, List.filter_append, List.filter_filter]
    rw [h.order]; refine congrArg₂ _ (List.filter_congr fun id _ => ?_) (by simp)
    by_cases hid : id = txId pf tx
    · simp [hid, hnew]
    · simp [hid]
  · intro p hp; rw [lastUse_concat]
    rcases List.mem_append.mp hp with hp | hp
    · rw [if_neg (Ne.symm (hids p hp)), h.last p hp]
    · rw [List.mem_singleton.mp hp, if_pos rfl]

lemma Represents.call {s : Logged} (h : Represents pf capacity s) (c : Call) :
    Represents pf capacity (s.call pf c) := by
  cases c with
  | add tx =>
    simp only [Logged.call]
    cases hadd : s.pool.add pf tx with
    | none => exact h
    | some pool => exact h.add hadd
  | remove id => exact h.drop (h.wellFormed.remove id).1 (remove_sublist _ id).1 (remove_sublist _ id).2
  | evictIncluded b =>
    exact h.drop (h.wellFormed.evictIncluded b).1 (evictIncluded_sublist pf _ b).1 (evictIncluded_sublist pf _ b).2
  | evictExpired now => exact h.drop (h.wellFormed.evictExpired now) List.filter_sublist rfl

/-- **The pool after any sequence of calls**, from an empty one of any capacity. -/
theorem pool_represents (pf : Platform) (capacity : Nat) (calls : List Call) :
    Represents pf capacity (calls.foldl (Logged.call pf) ⟨new capacity, []⟩) := by
  refine List.foldlRecOn calls _ ?_ fun s hs c _ => hs.call c
  exact ⟨⟨by simp [new], by simp [new], rfl⟩, ⟨rfl, Nat.zero_le _⟩, rfl, by simp [new]⟩

end Mempool

end TronRs

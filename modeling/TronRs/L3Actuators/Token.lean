import TronRs.L3Actuators.Base

/-!
# Token balances

The token helpers that `exchange.rs` and `market/mod.rs` both define: a token is TRX,
written `_`, or a TRC10 token, written as its decimal id. `holding` is the abstract view of
an account as a map from tokens to amounts; `debitToken_eq_ok` and `creditToken_eq_ok` say
what a payment does to it.
-/
namespace TronRs

open TronRs.Core

variable {a a' : Account} {id id' : Bytes} {amount n n' : Int64}

/-- The name of TRX: an underscore. -/
def trxSymbol : Bytes := [0x5f]

def isTrx (id : Bytes) : Bool := id = trxSymbol

/-- Mirrors actuators/market/mod.rs:39. -/
def tokenKey (id : Bytes) : Bytes := Bytes.utf8Lossy id

/-- Mirrors actuators/market/mod.rs:44: digits only, no leading zero. -/
def isNumber (id : Bytes) : Bool :=
  id ≠ [] && id.all (fun b => 48 ≤ b && b ≤ 57) && !(1 < id.length && id.head? = some 48)

/-- Mirrors actuators/market/mod.rs:49. -/
def tokenBalance (a : Account) (id : Bytes) : Int64 :=
  if isTrx id then a.balance else (a.assetV2.get (tokenKey id)).getD 0

/-- The account with another balance of one token. -/
def setToken (a : Account) (id : Bytes) (amount : Int64) : Account :=
  if isTrx id then { a with balance := amount }
  else { a with assetV2 := a.assetV2.put (tokenKey id) amount }

/-- Mirrors actuators/market/mod.rs:58. -/
def debitToken (a : Account) (id : Bytes) (amount : Int64) : Check Account := do
  let left ← orThrow (debit (tokenBalance a id) amount)
    (failed (if isTrx id then "balance is not sufficient" else "asset balance is not sufficient"))
  pure (setToken a id left)

/-- Mirrors actuators/market/mod.rs:78. -/
def creditToken (a : Account) (id : Bytes) (amount : Int64) : Check Account := do
  let total ← orThrow ((tokenBalance a id).checkedAdd amount) (failed "long overflow")
  pure (setToken a id total)

/-- `valid_token` of the market: TRX or a number. -/
def validToken (id : Bytes) : Bool := isTrx id || isNumber id

/-! ## Accounts as holdings -/

/-- A token as the balances know it: TRX, or the text of a TRC10 id. -/
inductive Asset where
  | trx
  | trc10 (key : Bytes)
  deriving DecidableEq

/-- The token a token id names. -/
def Asset.ofId (id : Bytes) : Asset := if isTrx id then .trx else .trc10 (tokenKey id)

/-- What an account holds of a token. -/
def holding (a : Account) : Asset → Int
  | .trx => a.balance.toInt
  | .trc10 key => ((a.assetV2.get key).getD 0).toInt

lemma tokenBalance_toInt (a : Account) (id : Bytes) : (tokenBalance a id).toInt = holding a (.ofId id) := by
  unfold tokenBalance Asset.ofId; split <;> rfl

lemma holding_setToken (a : Account) (id : Bytes) (x : Int64) (t : Asset) :
    holding (setToken a id x) t = if t = .ofId id then x.toInt else holding a t := by
  unfold setToken Asset.ofId
  split
  · cases t <;> simp [holding]
  cases t with
  | trx => simp [holding]
  | trc10 =>
    simp only [holding, get_put, Asset.trc10.injEq]; split <;> simp

/-- A debit takes exactly the amount, from that token only, and leaves it non-negative. -/
lemma debitToken_eq_ok (h : debitToken a id amount = .ok a') :
    (∀ t, holding a' t = holding a t - if t = .ofId id then amount.toInt else 0) ∧ 0 ≤ holding a' (.ofId id) := by
  simp only [debitToken, check_rules] at h; obtain ⟨left, hl, rfl⟩ := h
  obtain ⟨heq, hnn⟩ := debit_eq_some.mp hl; rw [tokenBalance_toInt] at heq
  refine ⟨fun t => ?_, ?_⟩
  · rw [holding_setToken]
    split
    · rename_i ht; rw [heq, ht]
    · omega
  · rw [holding_setToken, if_pos rfl]; exact hnn

/-- A credit adds exactly the amount, to that token only. -/
lemma creditToken_eq_ok (h : creditToken a id amount = .ok a') :
    ∀ t, holding a' t = holding a t + if t = .ofId id then amount.toInt else 0 := by
  simp only [creditToken, check_rules] at h; obtain ⟨total, ht, rfl⟩ := h
  have heq := checkedAdd_eq_some.mp ht; rw [tokenBalance_toInt] at heq; intro t
  rw [holding_setToken]
  split
  · rename_i h; rw [heq, h]
  · omega

/-- When a payment can be taken, and when it can be made. -/
lemma exists_debitToken : (∃ a', debitToken a id amount = .ok a') ↔
      0 ≤ holding a (.ofId id) - amount.toInt ∧ holding a (.ofId id) - amount.toInt < 2 ^ 63 := by
  rw [← tokenBalance_toInt, ← exists_debit_iff]; simp only [debitToken, check_rules]
  constructor
  · intro h; obtain ⟨-, left, h, -⟩ := h; exact ⟨left, h⟩
  · intro h; obtain ⟨left, h⟩ := h; exact ⟨_, left, h, rfl⟩

lemma exists_creditToken :
    (∃ a', creditToken a id amount = .ok a') ↔ Int64.Fits (holding a (.ofId id) + amount.toInt) := by
  rw [← tokenBalance_toInt, ← Int64.exists_checkedAdd]; simp only [creditToken, check_rules]
  constructor
  · intro h; obtain ⟨-, total, h, -⟩ := h; exact ⟨total, h⟩
  · intro h; obtain ⟨total, h⟩ := h; exact ⟨_, total, h, rfl⟩

lemma exists_debitToken_of_le (h0 : 0 < amount)
    (h : amount ≤ tokenBalance a id) : ∃ a', debitToken a id amount = .ok a' := by
  rw [Int64.pos_iff] at h0; rw [le_iff_toInt_le, tokenBalance_toInt] at h
  have hlt := (tokenBalance a id).toInt_lt; rw [tokenBalance_toInt] at hlt
  exact exists_debitToken.mpr ⟨by omega, by omega⟩

/-- A second payment sees what the first one has left. -/
lemma exists_debit_debit : (∃ y, debitToken a id n = .ok y ∧ ∃ z, debitToken y id' n' = .ok z) ↔
      (∃ y, debitToken a id n = .ok y) ∧
        0 ≤ holding a (.ofId id') - (if Asset.ofId id' = .ofId id then n.toInt else 0) - n'.toInt ∧
        holding a (.ofId id') - (if Asset.ofId id' = .ofId id then n.toInt else 0) - n'.toInt < 2 ^ 63 := by
  rw [← exists_and_right]
  refine exists_congr fun y => and_congr_right fun hy => ?_
  rw [exists_debitToken, (debitToken_eq_ok hy).1]

lemma exists_credit_credit : (∃ y, creditToken a id n = .ok y ∧ ∃ z, creditToken y id' n' = .ok z) ↔
      (∃ y, creditToken a id n = .ok y) ∧
        Int64.Fits (holding a (.ofId id') + (if Asset.ofId id' = .ofId id then n.toInt else 0) + n'.toInt) := by
  rw [← exists_and_right]
  refine exists_congr fun y => and_congr_right fun hy => ?_
  rw [exists_creditToken, creditToken_eq_ok hy]

lemma exists_debit_credit : (∃ y, debitToken a id n = .ok y ∧ ∃ z, creditToken y id' n' = .ok z) ↔
      (∃ y, debitToken a id n = .ok y) ∧
        Int64.Fits (holding a (.ofId id') - (if Asset.ofId id' = .ofId id then n.toInt else 0) + n'.toInt) := by
  rw [← exists_and_right]
  refine exists_congr fun y => and_congr_right fun hy => ?_
  rw [exists_creditToken, (debitToken_eq_ok hy).1]

/-- An account with another balance holds the same of every other token. -/
lemma holding_withBalance (a : Account) (balance : Int64) (t : Asset) :
    holding { a with balance } t = if t = .trx then balance.toInt else holding a t := by
  cases t with
  | trx => rfl
  | trc10 => simp [holding]

/-! ## Token names -/

/-- Decimal text is its own lossy decoding. -/
lemma tokenKey_of_isNumber (h : isNumber id = true) : tokenKey id = id := by
  refine Bytes.utf8Lossy_of_ascii fun c hc => ?_
  simp only [isNumber, Bool.and_eq_true, List.all_eq_true, decide_eq_true_eq] at h; have := h.1.2 c hc
  have h57 : c.toNat ≤ 57 := UInt8.le_iff_toNat_le.mp this.2
  rw [UInt8.lt_iff_toNat_lt]; show c.toNat < 128; omega

/-- Valid token ids name different tokens. -/
lemma Asset.ofId_injective {x y : Bytes} (hx : validToken x = true) (hy : validToken y = true)
    (h : Asset.ofId x = Asset.ofId y) : x = y := by
  unfold Asset.ofId at h; simp only [validToken, Bool.or_eq_true] at hx hy
  by_cases h1 : isTrx x = true <;> by_cases h2 : isTrx y = true
  · simp only [isTrx, decide_eq_true_eq] at h1 h2; rw [h1, h2]
  · simp [h1, h2] at h
  · simp [h1, h2] at h
  · rw [if_neg h1, if_neg h2, Asset.trc10.injEq] at h
    rwa [tokenKey_of_isNumber (hx.resolve_left h1), tokenKey_of_isNumber (hy.resolve_left h2)] at h

end TronRs

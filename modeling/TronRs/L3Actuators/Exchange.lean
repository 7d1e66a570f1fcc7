import TronRs.L3Actuators.Assets
import TronRs.L3Actuators.Token

/-!
# The Bancor exchange

`crates/actuators/src/exchange.rs`. The four actuators compute the new pool and the new
account first and store both at the end, so they are atomic.
-/
namespace TronRs

open TronRs.Core
open Asset (ofId)

def defaultExchangeCreateFee : Int64 := 1024000000
def defaultExchangeBalanceLimit : Int64 := 1000000000000000

namespace WorldState

def getExchange (s : WorldState) (id : Int64) : Option Exchange := s.exchange.get id

def putExchange (s : WorldState) (ex : Exchange) : WorldState :=
  { s with exchange := s.exchange.put ex.exchangeId ex }

end WorldState

/-- Mirrors actuators/exchange.rs:154. -/
def exchangeCreateFee (s : WorldState) : Int64 :=
  positiveOr (s.getProp .exchangeCreateFee) defaultExchangeCreateFee

/-- Mirrors actuators/exchange.rs:159. -/
def exchangeBalanceLimit (s : WorldState) : Int64 :=
  positiveOr (s.getProp .exchangeBalanceLimit) defaultExchangeBalanceLimit

/-- `(other * quant) / this` in 128 bits, as an i64; mirrors actuators/src/exchange.rs:213.
A zero divisor panics. -/
def proportional (other quant this : Int64) : Check Int64 := do
  ensure (this ≠ 0) Fault.panic
  let v := (other.toInt * quant.toInt).tdiv this.toInt
  ensure (Int64.Fits v) (invalid "long overflow")
  pure (Int64.ofInt v)

/-- The other token of a pool and its proportional quantity; `paired` of the inject and the
withdraw actuator. -/
def paired (ex : Exchange) (tokenId : Bytes) (quant : Int64) : Check (Bytes × Int64) :=
  if tokenId = ex.firstTokenId then do
    let q ← proportional ex.secondTokenBalance quant ex.firstTokenBalance
    pure (ex.secondTokenId, q)
  else do
    let q ← proportional ex.firstTokenBalance quant ex.secondTokenBalance
    pure (ex.firstTokenId, q)

/-- Mirrors actuators/exchange.rs:239: what is bought, and the two new balances. -/
def poolTransaction (fl : Floats) (ex : Exchange) (sellId : Bytes) (sellQuant : Int64) : Int64 × Int64 × Int64 :=
  let fb := ex.firstTokenBalance
  let sb := ex.secondTokenBalance
  if ex.firstTokenId = sellId then
    let buy := fl.bancorExchange fb sb sellQuant
    (buy, fb + sellQuant, sb - buy)
  else
    let buy := fl.bancorExchange sb fb sellQuant
    (buy, fb - buy, sb + sellQuant)

/-- The pool with both of its balances moved, the first argument being that of `tokenId`. -/
def movePool (ex : Exchange) (tokenId : Bytes) (this another : Int64) : Exchange :=
  if tokenId = ex.firstTokenId then
    { ex with
      firstTokenBalance := ex.firstTokenBalance + this
      secondTokenBalance := ex.secondTokenBalance + another }
  else
    { ex with
      secondTokenBalance := ex.secondTokenBalance + this
      firstTokenBalance := ex.firstTokenBalance + another }

/-! ## The two sides of a pool -/

namespace Exchange

/-- The balance of a token of the pool. -/
def side (ex : Exchange) (tokenId : Bytes) : Int64 :=
  if tokenId = ex.firstTokenId then ex.firstTokenBalance else ex.secondTokenBalance

/-- The balance of the other token. -/
def otherSide (ex : Exchange) (tokenId : Bytes) : Int64 :=
  if tokenId = ex.firstTokenId then ex.secondTokenBalance else ex.firstTokenBalance

def otherToken (ex : Exchange) (tokenId : Bytes) : Bytes :=
  if tokenId = ex.firstTokenId then ex.secondTokenId else ex.firstTokenId

end Exchange

/-- What selling to the pool buys. -/
def bought (fl : Floats) (ex : Exchange) (tokenId : Bytes) (quant : Int64) : Int64 :=
  fl.bancorExchange (ex.side tokenId) (ex.otherSide tokenId) quant

lemma proportional_eq_ok {other quant this q : Int64} (h : proportional other quant this = .ok q) :
    this ≠ 0 ∧ q.toInt = (other.toInt * quant.toInt).tdiv this.toInt := by
  simp only [proportional, check_rules] at h; obtain ⟨-, hthis, -, hfits, rfl⟩ := h
  exact ⟨hthis, toInt_ofInt_of_fits hfits⟩

lemma paired_eq (ex : Exchange) (tokenId : Bytes) (quant : Int64) : paired ex tokenId quant =
      (proportional (ex.otherSide tokenId) quant (ex.side tokenId)).map fun q => (ex.otherToken tokenId, q) := by
  unfold paired Exchange.otherSide Exchange.side Exchange.otherToken; split <;> rfl

variable {ex : Exchange}

lemma paired_eq_ok {tokenId anotherId : Bytes} {quant anotherQuant : Int64}
    (h : paired ex tokenId quant = .ok (anotherId, anotherQuant)) : anotherId = ex.otherToken tokenId ∧
      proportional (ex.otherSide tokenId) quant (ex.side tokenId) = .ok anotherQuant := by
  rw [paired_eq] at h
  cases hp : proportional (ex.otherSide tokenId) quant (ex.side tokenId) with
  | error => rw [hp] at h; cases h
  | ok => rw [hp] at h; cases h; exact ⟨rfl, rfl⟩

/-- Selling moves the two balances by what is sold and what is bought. -/
lemma poolTransaction_eq (fl : Floats) (ex : Exchange) (tokenId : Bytes) (quant : Int64) :
    (poolTransaction fl ex tokenId quant).1 = bought fl ex tokenId quant ∧ { ex with
        firstTokenBalance := (poolTransaction fl ex tokenId quant).2.1
        secondTokenBalance := (poolTransaction fl ex tokenId quant).2.2 } =
        movePool ex tokenId quant (-bought fl ex tokenId quant) := by
  unfold poolTransaction movePool bought Exchange.side Exchange.otherSide
  by_cases h : tokenId = ex.firstTokenId
  · simp [h, Int64.sub_eq_add_neg]
  · simp [h, Ne.symm h, Int64.sub_eq_add_neg]

@[simp] lemma exchangeId_movePool (ex : Exchange) (tok : Bytes) (d e : Int64) :
    (movePool ex tok d e).exchangeId = ex.exchangeId := by
  unfold movePool; split <;> rfl

lemma side_movePool (ex : Exchange) (tok : Bytes) (d e : Int64) : (movePool ex tok d e).side tok = ex.side tok + d ∧
      (movePool ex tok d e).otherSide tok = ex.otherSide tok + e ∧
      (movePool ex tok d e).otherToken tok = ex.otherToken tok := by
  unfold movePool Exchange.side Exchange.otherSide Exchange.otherToken
  by_cases h : tok = ex.firstTokenId <;> simp [h]

lemma movePool_back (ex : Exchange) (tok : Bytes) (d e : Int64) :
    movePool (movePool ex tok d e) tok (-d) (-e) = ex := by
  unfold movePool; by_cases h : tok = ex.firstTokenId <;> simp [h, Int64.add_assoc, Int64.add_right_neg]

variable {res : ExecutionResult} {t : WorldState}

/-! ## Creating a pool -/

namespace ExchangeCreateActuator
variable {c : ExchangeCreateContract} {s : WorldState} {v : Int64}

/-- The owner can pay for one side of the pool; TRX also pays the fee. -/
def checkSide (a : Account) (id : Bytes) (amount fee : Int64) (msg : String) : Check Unit :=
  if isTrx id then ensure (amount + fee ≤ a.balance) (invalid "balance is not enough")
  else ensure (amount ≤ tokenBalance a id) (invalid msg)

/-- Mirrors actuators/exchange.rs:264. -/
def validate (c : ExchangeCreateContract) (s : WorldState) : Check Int64 := do
  let owner ← parseAddress c.ownerAddress "Invalid address"
  let shown := hex owner.asBytes
  let account ← orThrow (s.getAccount owner) (invalid s!"account[{shown}] not exists")
  let fee := exchangeCreateFee s
  ensure (fee ≤ account.balance) (invalid "No enough balance for exchange create fee!")
  ensure (validToken c.firstTokenId) (invalid "first token id is not a valid number")
  ensure (validToken c.secondTokenId) (invalid "second token id is not a valid number")
  ensure (c.firstTokenId ≠ c.secondTokenId) (invalid "cannot exchange same tokens")
  ensure (0 < c.firstTokenBalance ∧ 0 < c.secondTokenBalance)
    (invalid "token balance must greater than zero")
  let limit := exchangeBalanceLimit s
  ensure (c.firstTokenBalance ≤ limit ∧ c.secondTokenBalance ≤ limit)
    (invalid s!"token balance must less than {limit}")
  checkSide account c.firstTokenId c.firstTokenBalance fee "first token balance is not enough"
  checkSide account c.secondTokenId c.secondTokenBalance fee "second token balance is not enough"
  pure fee

/-- Mirrors actuators/exchange.rs:324. -/
def execute (c : ExchangeCreateContract) : Act ExecutionResult := do
  let owner ← lift (parseAddress c.ownerAddress "Invalid address")
  let fee := exchangeCreateFee (← get)
  let account ← orThrow ((← get).getAccount owner) (failed "owner account missing")
  let balance ← orThrow (debit account.balance fee) (failed "balance is not sufficient")
  let account ← lift (debitToken { account with balance } c.firstTokenId c.firstTokenBalance)
  let account ← lift (debitToken account c.secondTokenId c.secondTokenBalance)
  modify (·.putAccount owner account)
  if fee > 0 then modify (·.burnTrx fee)
  let s ← get
  let id := s.getProp .latestExchangeNum + 1
  modify (·.putExchange {
    exchangeId := id
    creatorAddress := owner.asBytes
    createTime := s.getProp .latestBlockHeaderTimestamp
    firstTokenId := c.firstTokenId
    firstTokenBalance := c.firstTokenBalance
    secondTokenId := c.secondTokenId
    secondTokenBalance := c.secondTokenBalance })
  modify (·.putProp .latestExchangeNum id)
  pure ⟨fee⟩

lemma atomic (c : ExchangeCreateContract) (s : WorldState) : Atomic (execute c) s := by
  apply atomic_of_wp; simp [execute, wp_ite]

/-- The pool a creation stores. -/
def pool (c : ExchangeCreateContract) (s : WorldState) (owner : Address) : Exchange where
  exchangeId := s.getProp .latestExchangeNum + 1
  creatorAddress := owner.asBytes
  createTime := s.getProp .latestBlockHeaderTimestamp
  firstTokenId := c.firstTokenId
  firstTokenBalance := c.firstTokenBalance
  secondTokenId := c.secondTokenId
  secondTokenBalance := c.secondTokenBalance

lemma validate_ok (h : validate c s = .ok v) :
    validToken c.firstTokenId = true ∧ validToken c.secondTokenId = true ∧ c.firstTokenId ≠ c.secondTokenId ∧
      (0 < c.firstTokenBalance ∧ 0 < c.secondTokenBalance) ∧
      c.firstTokenBalance ≤ exchangeBalanceLimit s ∧ c.secondTokenBalance ≤ exchangeBalanceLimit s := by
  simp only [validate, check_rules] at h
  obtain ⟨-, -, -, -, -, -, -, hfirst, -, hsecond, -, hne, -, hpos, -, hle, -⟩ := h
  exact ⟨hfirst, hsecond, hne, hpos, hle⟩

lemma execute_ok (h : execute c s = .ok res t) :
    ∃ owner x balance y z, Address.ofBytes c.ownerAddress = some owner ∧ s.getAccount owner = some x ∧
      debit x.balance (exchangeCreateFee s) = some balance ∧
      debitToken { x with balance } c.firstTokenId c.firstTokenBalance = .ok y ∧
      debitToken y c.secondTokenId c.secondTokenBalance = .ok z ∧
      t = (((burnFee (s.putAccount owner z) (exchangeCreateFee s)).putExchange (pool c s owner)).putProp
        .latestExchangeNum (s.getProp .latestExchangeNum + 1)) := by
  apply ok_elim h; simp only [execute, ok_rules, wp_burn_then]; intro owner ho x hx balance hb y hy z hz
  refine ⟨owner, x, balance, y, z, parseAddress_eq_ok.mp ho, hx, hb, hy, hz, ?_⟩
  rw [getProp_burnFee_of_ne _ _ (by decide), getProp_burnFee_of_ne _ _ (by decide)]; rfl

/-- The amount of TRX that goes into the pool and the fee add up. -/
def FeeAdds (c : ExchangeCreateContract) (s : WorldState) : Prop :=
  (isTrx c.firstTokenId = true → Int64.Fits (c.firstTokenBalance.toInt + (exchangeCreateFee s).toInt)) ∧
    (isTrx c.secondTokenId = true → Int64.Fits (c.secondTokenBalance.toInt + (exchangeCreateFee s).toInt))

/-- A side that has been checked can be paid once the fee is, unless its sum with the fee wrapped around. -/
lemma checkSide_covers {a : Account} {id : Bytes} {amount fee balance : Int64} {msg : String} {u : Unit}
    (h : checkSide a id amount fee msg = .ok u) (hfee : 0 < fee.toInt) (hpos : 0 < amount)
    (hb : debit a.balance fee = some balance) : (0 ≤ holding { a with balance } (.ofId id) - amount.toInt ∧
        holding { a with balance } (.ofId id) - amount.toInt < 2 ^ 63) ↔
      (isTrx id = true → Int64.Fits (amount.toInt + fee.toInt)) := by
  rw [Int64.pos_iff] at hpos; obtain ⟨hleft, -⟩ := debit_eq_some.mp hb
  have hlt := a.balance.toInt_lt; unfold checkSide at h; rw [holding_withBalance]
  by_cases ht : isTrx id = true
  · rw [if_pos ht, ensure_eq_ok, le_iff_toInt_le] at h; rw [ofId, if_pos ht, if_pos rfl, hleft]
    simp only [ht, forall_const]
    constructor
    · intro hcov; exact ⟨by omega, by omega⟩
    · intro hfit; rw [toInt_add_of_fits hfit] at h; exact ⟨by omega, by omega⟩
  · rw [if_neg ht, ensure_eq_ok, le_iff_toInt_le, tokenBalance_toInt, ofId, if_neg ht] at h
    have hbound := (tokenBalance a id).toInt_lt
    rw [tokenBalance_toInt, ofId, if_neg ht] at hbound
    rw [ofId, if_neg ht, if_neg (by simp)]
    exact iff_of_true ⟨by omega, by omega⟩ fun h => absurd h ht

lemma executes_iff (hv : validate c s = .ok v) : (∃ t, execute c s = .ok ⟨v⟩ t) ↔ FeeAdds c s := by
  obtain ⟨hfirst, hsecond, hne, -⟩ := validate_ok hv
  have hassets : ofId c.secondTokenId ≠ .ofId c.firstTokenId :=
    fun h => hne (Asset.ofId_injective hsecond hfirst h).symm
  simp only [validate, check_rules, parseAddress_eq_ok] at hv
  obtain ⟨owner, ho, x, hx, -, hle, -, -, -, -, -, -, -, ⟨hpos1, hpos2⟩, -, -, u1, hside1, u2, hside2, rfl⟩ := hv
  have hfee : 0 < (exchangeCreateFee s).toInt := positiveOr_pos (by decide)
  obtain ⟨balance, hb⟩ := exists_debit_of_le (by omega) (le_iff_toInt_le.mp hle)
  rw [exists_ok_iff, FeeAdds, ← checkSide_covers hside1 hfee hpos1 hb, ← checkSide_covers hside2 hfee hpos2 hb]
  simp only [execute, returns_bind, returns_lift, returns_get, returns_orThrow, returns_modify, returns_pure,
    returns_ite, ite_self, parseAddress_ok ho, Except.ok.injEq, exists_eq_left', hx, hb, Option.some.injEq,
    and_true]
  rw [exists_debit_debit, exists_debitToken, if_neg hassets, Int.sub_zero]

end ExchangeCreateActuator

def exchangeCreateActuator : Actuator ExchangeCreateContract :=
  ⟨ExchangeCreateActuator.validate, ExchangeCreateActuator.execute⟩

/-! ## Using a pool -/

/-- Mirrors actuators/exchange.rs:379. -/
def loadOwnerAndPool (s : WorldState) (ownerBytes : Bytes) (exchangeId : Int64) (verb : String)
    (requireCreator : Bool) : Check (Address × Account × Exchange) := do
  let owner ← parseAddress ownerBytes "Invalid address"
  let shown := hex owner.asBytes
  let account ← orThrow (s.getAccount owner) (invalid s!"account[{shown}] not exists")
  ensure (0 ≤ account.balance) (invalid s!"No enough balance for exchange {verb} fee!")
  let exchange ← orThrow (s.getExchange exchangeId) (invalid s!"Exchange[{exchangeId}] not exists")
  ensure (requireCreator = false ∨ exchange.creatorAddress = owner.asBytes)
    (invalid s!"account[{shown}] is not creator")
  pure (owner, account, exchange)

lemma loadOwnerAndPool_eq_ok {s : WorldState} {b : Bytes} {id : Int64} {verb : String} {creator : Bool}
    {owner : Address} {x : Account} (h : loadOwnerAndPool s b id verb creator = .ok (owner, x, ex)) :
    Address.ofBytes b = some owner ∧ s.getAccount owner = some x ∧ s.getExchange id = some ex := by
  simp only [loadOwnerAndPool, check_rules, parseAddress_eq_ok] at h
  obtain ⟨_, ho, _, hx, -, -, _, hex, -, -, h⟩ := h
  cases h; exact ⟨ho, hx, hex⟩

/-- The message for a token the owner does not hold enough of. -/
def notEnough (id : Bytes) (another : Bool) : String :=
  if isTrx id then "balance is not enough"
  else if another then "another token balance is not enough"
  else "token balance is not enough"

namespace ExchangeInjectActuator
variable {c : ExchangeQuantContract} {s : WorldState} {v : Int64}

/-- Mirrors actuators/exchange.rs:438. -/
def validate (c : ExchangeQuantContract) (s : WorldState) : Check Int64 := do
  let (_, account, ex) ← loadOwnerAndPool s c.ownerAddress c.exchangeId "inject" true
  ensure (validToken c.tokenId) (invalid "token id is not a valid number")
  ensure (c.tokenId = ex.firstTokenId ∨ c.tokenId = ex.secondTokenId)
    (invalid "token id is not in exchange")
  ensure (ex.firstTokenBalance ≠ 0 ∧ ex.secondTokenBalance ≠ 0)
    (invalid "Token balance in exchange is equal with 0,the exchange has been closed")
  ensure (0 < c.quant) (invalid "injected token quant must greater than zero")
  let (anotherId, anotherQuant) ← paired ex c.tokenId c.quant
  ensure (0 < anotherQuant) (invalid "the calculated token quant  must be greater than 0")
  let moved := movePool ex c.tokenId c.quant anotherQuant
  let limit := exchangeBalanceLimit s
  ensure (moved.firstTokenBalance ≤ limit ∧ moved.secondTokenBalance ≤ limit)
    (invalid s!"token balance must less than {limit}")
  ensure (c.quant ≤ tokenBalance account c.tokenId) (invalid (notEnough c.tokenId false))
  ensure (anotherQuant ≤ tokenBalance account anotherId) (invalid (notEnough anotherId true))
  pure 0

/-- Mirrors actuators/exchange.rs:504. -/
def execute (c : ExchangeQuantContract) : Act ExecutionResult := do
  let owner ← lift (parseAddress c.ownerAddress "Invalid address")
  let ex ← orThrow ((← get).getExchange c.exchangeId) (failed "exchange missing")
  let (anotherId, anotherQuant) ← lift (paired ex c.tokenId c.quant)
  let account ← orThrow ((← get).getAccount owner) (failed "owner account missing")
  let account ← lift (debitToken account c.tokenId c.quant)
  let account ← lift (debitToken account anotherId anotherQuant)
  modify (·.putAccount owner account)
  modify (·.putExchange (movePool ex c.tokenId c.quant anotherQuant))
  pure ⟨0⟩

lemma atomic (c : ExchangeQuantContract) (s : WorldState) : Atomic (execute c) s := by
  apply atomic_of_wp; simp [execute]

lemma validate_ok (h : validate c s = .ok v) :
    ∃ owner x ex q, v = 0 ∧ Address.ofBytes c.ownerAddress = some owner ∧ s.getAccount owner = some x ∧
      s.getExchange c.exchangeId = some ex ∧ (c.tokenId = ex.firstTokenId ∨ c.tokenId = ex.secondTokenId) ∧
      0 < c.quant ∧ paired ex c.tokenId c.quant = .ok (ex.otherToken c.tokenId, q) ∧ 0 < q ∧
      (movePool ex c.tokenId c.quant q).firstTokenBalance ≤ exchangeBalanceLimit s ∧
      (movePool ex c.tokenId c.quant q).secondTokenBalance ≤ exchangeBalanceLimit s ∧
      c.quant ≤ tokenBalance x c.tokenId ∧ q ≤ tokenBalance x (ex.otherToken c.tokenId) := by
  simp only [validate, check_rules] at h
  obtain ⟨⟨owner, x, ex⟩, hload, -, -, -, htok, -, -, -, hpos, ⟨id, q⟩, hp, -, hq, -, hle, -, hx, -, hy, rfl⟩ := h
  obtain ⟨ho, hx', hex⟩ := loadOwnerAndPool_eq_ok hload
  obtain ⟨rfl, -⟩ := paired_eq_ok hp
  exact ⟨owner, x, ex, q, rfl, ho, hx', hex, htok, hpos, hp, hq, hle.1, hle.2, hx, hy⟩

lemma execute_ok (h : execute c s = .ok res t) :
    ∃ owner ex q x y z, Address.ofBytes c.ownerAddress = some owner ∧ s.getExchange c.exchangeId = some ex ∧
      proportional (ex.otherSide c.tokenId) c.quant (ex.side c.tokenId) = .ok q ∧ s.getAccount owner = some x ∧
      debitToken x c.tokenId c.quant = .ok y ∧ debitToken y (ex.otherToken c.tokenId) q = .ok z ∧
      t = (s.putAccount owner z).putExchange (movePool ex c.tokenId c.quant q) := by
  apply ok_elim h; simp only [execute, ok_rules]; rintro owner ho ex hex ⟨id, q⟩ hp x hx y hy z hz
  obtain ⟨rfl, hq⟩ := paired_eq_ok hp
  exact ⟨owner, ex, q, x, y, z, parseAddress_eq_ok.mp ho, hex, hq, hx, hy, hz, rfl⟩

/-- A pool both sides of which are one token takes both amounts from the same balance. -/
def BothCovered (c : ExchangeQuantContract) (s : WorldState) : Prop :=
  AtAccount s c.ownerAddress fun x => ∀ ex, s.getExchange c.exchangeId = some ex →
    ∀ q, proportional (ex.otherSide c.tokenId) c.quant (ex.side c.tokenId) = .ok q →
      ofId (ex.otherToken c.tokenId) = .ofId c.tokenId →
        c.quant.toInt + q.toInt ≤ holding x (.ofId c.tokenId)

lemma executes_iff (hv : validate c s = .ok v) : (∃ t, execute c s = .ok ⟨v⟩ t) ↔ BothCovered c s := by
  obtain ⟨owner, x, ex, q, rfl, ho, hx, hex, -, hpos, hp, hq, -, -, hle, hle'⟩ := validate_ok hv
  have hprop := (paired_eq_ok hp).2; rw [exists_ok_iff, BothCovered, atAccount_iff ho hx]
  simp only [execute, returns_bind, returns_lift, returns_get, returns_orThrow, returns_modify, returns_pure,
    parseAddress_ok ho, Except.ok.injEq, exists_eq_left', hex, hp, hx, Option.some.injEq, and_true, forall_eq',
    hprop]
  rw [exists_debit_debit]; have hfirst := exists_debitToken_of_le hpos hle
  have hbound := (tokenBalance x (ex.otherToken c.tokenId)).toInt_lt
  rw [le_iff_toInt_le, tokenBalance_toInt] at hle'; rw [tokenBalance_toInt] at hbound
  rw [Int64.pos_iff] at hpos hq
  by_cases hsame : ofId (ex.otherToken c.tokenId) = .ofId c.tokenId
  · simp only [hfirst, true_and, hsame, if_true, forall_const]; rw [hsame] at hbound; omega
  · simp only [hfirst, true_and, hsame, if_false, false_implies, iff_true]; omega

end ExchangeInjectActuator

def exchangeInjectActuator : Actuator ExchangeQuantContract :=
  ⟨ExchangeInjectActuator.validate, ExchangeInjectActuator.execute⟩

namespace ExchangeWithdrawActuator
variable {fl : Floats} {c : ExchangeQuantContract} {s : WorldState} {v : Int64}

/-- Mirrors actuators/exchange.rs:560. -/
def validate (fl : Floats) (c : ExchangeQuantContract) (s : WorldState) : Check Int64 := do
  let (_, _, ex) ← loadOwnerAndPool s c.ownerAddress c.exchangeId "withdraw" true
  ensure (validToken c.tokenId) (invalid "token id is not a valid number")
  ensure (c.tokenId = ex.firstTokenId ∨ c.tokenId = ex.secondTokenId) (invalid "token is not in exchange")
  ensure (0 < c.quant) (invalid "withdraw token quant must greater than zero")
  ensure (ex.firstTokenBalance ≠ 0 ∧ ex.secondTokenBalance ≠ 0)
    (invalid "Token balance in exchange is equal with 0,the exchange has been closed")
  let (thisBal, otherBal) := if c.tokenId = ex.firstTokenId then
      (ex.firstTokenBalance, ex.secondTokenBalance)
    else (ex.secondTokenBalance, ex.firstTokenBalance)
  let anotherQuant ← proportional otherBal c.quant thisBal
  ensure (c.quant ≤ thisBal ∧ anotherQuant ≤ otherBal) (invalid "exchange balance is not enough")
  ensure (0 < anotherQuant) (invalid "withdraw another token quant must greater than zero")
  ensure (fl.notPrecise otherBal c.quant thisBal anotherQuant = false) (invalid "Not precise enough")
  pure 0

/-- Mirrors actuators/exchange.rs:614. -/
def execute (c : ExchangeQuantContract) : Act ExecutionResult := do
  let owner ← lift (parseAddress c.ownerAddress "Invalid address")
  let ex ← orThrow ((← get).getExchange c.exchangeId) (failed "exchange missing")
  let (anotherId, anotherQuant) ← lift (paired ex c.tokenId c.quant)
  let account ← orThrow ((← get).getAccount owner) (failed "owner account missing")
  let account ← lift (creditToken account c.tokenId c.quant)
  let account ← lift (creditToken account anotherId anotherQuant)
  modify (·.putAccount owner account)
  modify (·.putExchange (movePool ex c.tokenId (-c.quant) (-anotherQuant)))
  pure ⟨0⟩

lemma atomic (c : ExchangeQuantContract) (s : WorldState) : Atomic (execute c) s := by
  apply atomic_of_wp; simp [execute]

lemma validate_ok (h : validate fl c s = .ok v) :
    ∃ owner x ex q, v = 0 ∧ Address.ofBytes c.ownerAddress = some owner ∧ s.getAccount owner = some x ∧
      s.getExchange c.exchangeId = some ex ∧ (c.tokenId = ex.firstTokenId ∨ c.tokenId = ex.secondTokenId) ∧
      0 < c.quant ∧ proportional (ex.otherSide c.tokenId) c.quant (ex.side c.tokenId) = .ok q ∧
      c.quant ≤ ex.side c.tokenId ∧ q ≤ ex.otherSide c.tokenId ∧ 0 < q := by
  simp only [validate, check_rules] at h
  obtain ⟨⟨owner, x, ex⟩, hload, -, -, -, htok, -, hpos, -, -, h⟩ := h
  obtain ⟨ho, hx, hex⟩ := loadOwnerAndPool_eq_ok hload
  have hsides : (if c.tokenId = ex.firstTokenId then (ex.firstTokenBalance, ex.secondTokenBalance)
      else (ex.secondTokenBalance, ex.firstTokenBalance)) = (ex.side c.tokenId, ex.otherSide c.tokenId) := by
    unfold Exchange.side Exchange.otherSide; split <;> rfl
  simp only [hsides] at h; obtain ⟨q, hq, -, hle, -, hq0, -, -, rfl⟩ := h
  exact ⟨owner, x, ex, q, rfl, ho, hx, hex, htok, hpos, hq, hle.1, hle.2, hq0⟩

lemma execute_ok (h : execute c s = .ok res t) :
    ∃ owner ex q x y z, Address.ofBytes c.ownerAddress = some owner ∧ s.getExchange c.exchangeId = some ex ∧
      proportional (ex.otherSide c.tokenId) c.quant (ex.side c.tokenId) = .ok q ∧ s.getAccount owner = some x ∧
      creditToken x c.tokenId c.quant = .ok y ∧ creditToken y (ex.otherToken c.tokenId) q = .ok z ∧
      t = (s.putAccount owner z).putExchange (movePool ex c.tokenId (-c.quant) (-q)) := by
  apply ok_elim h; simp only [execute, ok_rules]; rintro owner ho ex hex ⟨id, q⟩ hp x hx y hy z hz
  obtain ⟨rfl, hq⟩ := paired_eq_ok hp
  exact ⟨owner, ex, q, x, y, z, parseAddress_eq_ok.mp ho, hex, hq, hx, hy, hz, rfl⟩

/-- The owner has room for both amounts. -/
def PayoutFits (c : ExchangeQuantContract) (s : WorldState) : Prop :=
  AtAccount s c.ownerAddress fun x => ∀ ex, s.getExchange c.exchangeId = some ex →
    ∀ q, proportional (ex.otherSide c.tokenId) c.quant (ex.side c.tokenId) = .ok q →
      Int64.Fits (holding x (.ofId c.tokenId) + c.quant.toInt) ∧
        Int64.Fits (holding x (.ofId (ex.otherToken c.tokenId)) +
          (if ofId (ex.otherToken c.tokenId) = .ofId c.tokenId then c.quant.toInt else 0) + q.toInt)

lemma executes_iff (hv : validate fl c s = .ok v) : (∃ t, execute c s = .ok ⟨v⟩ t) ↔ PayoutFits c s := by
  obtain ⟨owner, x, ex, q, rfl, ho, hx, hex, -, -, hprop, -⟩ := validate_ok hv
  have hp : paired ex c.tokenId c.quant = .ok (ex.otherToken c.tokenId, q) := by rw [paired_eq, hprop]; rfl
  rw [exists_ok_iff, PayoutFits, atAccount_iff ho hx]
  simp only [execute, returns_bind, returns_lift, returns_get, returns_orThrow, returns_modify, returns_pure,
    parseAddress_ok ho, Except.ok.injEq, exists_eq_left', hex, hp, hx, Option.some.injEq, and_true, forall_eq',
    hprop]
  rw [exists_credit_credit, exists_creditToken]

end ExchangeWithdrawActuator

def exchangeWithdrawActuator (fl : Floats) : Actuator ExchangeQuantContract :=
  ⟨ExchangeWithdrawActuator.validate fl, ExchangeWithdrawActuator.execute⟩

namespace ExchangeTransactionActuator
variable {fl : Floats} {c : ExchangeTransactionContract} {s : WorldState} {v : Int64}

/-- Mirrors actuators/exchange.rs:660. -/
def validate (fl : Floats) (c : ExchangeTransactionContract) (s : WorldState) : Check Int64 := do
  let (_, account, ex) ← loadOwnerAndPool s c.ownerAddress c.exchangeId "transaction" false
  ensure (validToken c.tokenId) (invalid "token id is not a valid number")
  ensure (c.tokenId = ex.firstTokenId ∨ c.tokenId = ex.secondTokenId) (invalid "token is not in exchange")
  ensure (0 < c.quant) (invalid "token quant must greater than zero")
  ensure (0 < c.expected) (invalid "token expected must greater than zero")
  ensure (ex.firstTokenBalance ≠ 0 ∧ ex.secondTokenBalance ≠ 0)
    (invalid "Token balance in exchange is equal with 0,the exchange has been closed")
  let tokenBal := if c.tokenId = ex.firstTokenId then ex.firstTokenBalance else ex.secondTokenBalance
  let limit := exchangeBalanceLimit s
  ensure (tokenBal + c.quant ≤ limit) (invalid s!"token balance must less than {limit}")
  ensure (c.quant ≤ tokenBalance account c.tokenId) (invalid (notEnough c.tokenId false))
  let (buy, _, _) := poolTransaction fl ex c.tokenId c.quant
  ensure (c.expected ≤ buy) (invalid "token required must greater than expected")
  pure 0

/-- Mirrors actuators/exchange.rs:719. -/
def execute (fl : Floats) (c : ExchangeTransactionContract) : Act ExecutionResult := do
  let owner ← lift (parseAddress c.ownerAddress "Invalid address")
  let ex ← orThrow ((← get).getExchange c.exchangeId) (failed "exchange missing")
  let (buy, firstTokenBalance, secondTokenBalance) := poolTransaction fl ex c.tokenId c.quant
  let anotherId := if c.tokenId = ex.firstTokenId then ex.secondTokenId else ex.firstTokenId
  let account ← orThrow ((← get).getAccount owner) (failed "owner account missing")
  let account ← lift (debitToken account c.tokenId c.quant)
  let account ← lift (creditToken account anotherId buy)
  modify (·.putAccount owner account)
  modify (·.putExchange { ex with firstTokenBalance, secondTokenBalance })
  pure ⟨0⟩

lemma atomic (fl : Floats) (c : ExchangeTransactionContract) (s : WorldState) : Atomic (execute fl c) s := by
  apply atomic_of_wp; simp [execute]

lemma validate_ok (h : validate fl c s = .ok v) :
    ∃ owner x ex, v = 0 ∧ Address.ofBytes c.ownerAddress = some owner ∧ s.getAccount owner = some x ∧
      s.getExchange c.exchangeId = some ex ∧ (c.tokenId = ex.firstTokenId ∨ c.tokenId = ex.secondTokenId) ∧
      0 < c.quant ∧ 0 < c.expected ∧ (ex.firstTokenBalance ≠ 0 ∧ ex.secondTokenBalance ≠ 0) ∧
      ex.side c.tokenId + c.quant ≤ exchangeBalanceLimit s ∧ c.quant ≤ tokenBalance x c.tokenId ∧
      c.expected ≤ bought fl ex c.tokenId c.quant := by
  simp only [validate, check_rules] at h
  obtain ⟨⟨owner, x, ex⟩, hload, -, -, -, htok, -, hpos, -, hexp, -, hne, -, hlim, -, hbal, -, hbuy, rfl⟩ := h
  obtain ⟨ho, hx, hex⟩ := loadOwnerAndPool_eq_ok hload
  rw [(poolTransaction_eq ..).1] at hbuy
  exact ⟨owner, x, ex, rfl, ho, hx, hex, htok, hpos, hexp, hne, hlim, hbal, hbuy⟩

lemma execute_ok (h : execute fl c s = .ok res t) :
    ∃ owner ex x y z, Address.ofBytes c.ownerAddress = some owner ∧ s.getExchange c.exchangeId = some ex ∧
      s.getAccount owner = some x ∧ debitToken x c.tokenId c.quant = .ok y ∧
      creditToken y (ex.otherToken c.tokenId) (bought fl ex c.tokenId c.quant) = .ok z ∧
      t = (s.putAccount owner z).putExchange (movePool ex c.tokenId c.quant (-bought fl ex c.tokenId c.quant)) := by
  apply ok_elim h; simp only [execute, ok_rules]; intro owner ho ex hex x hx y hy z hz
  obtain ⟨hbuy, hpool⟩ := poolTransaction_eq fl ex c.tokenId c.quant
  rw [hbuy] at hz
  exact ⟨owner, ex, x, y, z, parseAddress_eq_ok.mp ho, hex, hx, hy, hz, congrArg _ hpool⟩

/-- The owner has room for what is bought. -/
def PayoutFits (fl : Floats) (c : ExchangeTransactionContract) (s : WorldState) : Prop :=
  AtAccount s c.ownerAddress fun x => ∀ ex, s.getExchange c.exchangeId = some ex →
    Int64.Fits (holding x (.ofId (ex.otherToken c.tokenId)) -
      (if ofId (ex.otherToken c.tokenId) = .ofId c.tokenId then c.quant.toInt else 0) +
        (bought fl ex c.tokenId c.quant).toInt)

lemma executes_iff (hv : validate fl c s = .ok v) : (∃ t, execute fl c s = .ok ⟨v⟩ t) ↔ PayoutFits fl c s := by
  obtain ⟨owner, x, ex, rfl, ho, hx, hex, -, hpos, -, -, -, hle, -⟩ := validate_ok hv
  have hother : (if c.tokenId = ex.firstTokenId then ex.secondTokenId else ex.firstTokenId) =
      ex.otherToken c.tokenId := rfl
  rw [exists_ok_iff, PayoutFits, atAccount_iff ho hx]
  simp only [execute, returns_bind, returns_lift, returns_get, returns_orThrow, returns_modify, returns_pure,
    parseAddress_ok ho, Except.ok.injEq, exists_eq_left', hex, hx, Option.some.injEq, and_true, forall_eq',
    (poolTransaction_eq ..).1, hother]
  rw [exists_debit_credit, and_iff_right (exists_debitToken_of_le hpos hle)]

end ExchangeTransactionActuator

def exchangeTransactionActuator (fl : Floats) : Actuator ExchangeTransactionContract :=
  ⟨ExchangeTransactionActuator.validate fl, ExchangeTransactionActuator.execute fl⟩

end TronRs

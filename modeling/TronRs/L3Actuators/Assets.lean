import TronRs.L3Actuators.Accounts

/-!
# TRC10 token actuators

`crates/actuators/src/asset_issue.rs`, `participate_asset_issue.rs`, `update_asset.rs` and
`unfreeze_asset.rs`.

* `AssetIssueActuator.atomic_iff`: issuing a token is atomic exactly when the expiry time of
  every frozen part of the supply fits in 64 bits.
* The other three write last and are atomic.
-/
namespace TronRs

open TronRs.Core

/-- `std::str::from_utf8(..).ok().and_then(|s| s.parse::<i64>().ok())`: what every actuator
reads a token id with. -/
def issuedAssetId (b : Bytes) : Option Int64 := if Bytes.isUtf8 b then Bytes.parseI64 b else none

/-- Text as it appears in a message. -/
def showText (b : Bytes) : String := (String.fromUTF8? ⟨b.toArray⟩).getD ""

/-- Mirrors state/lib.rs:326. -/
def assetV2Balance (a : Account) (id : Int64) : Int64 := (a.assetV2.get (Bytes.decimal id)).getD 0

/-- Mirrors state/lib.rs:331. -/
def setAssetV2Balance (a : Account) (id amount : Int64) : Account :=
  { a with assetV2 := a.assetV2.put (Bytes.decimal id) amount }

def maxUrlLen : Nat := 256
def maxAssetDescriptionLen : Nat := 200
def defaultOneDayNetLimit : Int64 := 57600000000

def validUrl (url : Bytes) : Bool := url ≠ [] && url.length ≤ maxUrlLen
def validDescription (desc : Bytes) : Bool := desc.length ≤ maxAssetDescriptionLen

/-- A property that has to be positive, or a default. -/
def positiveOr (v default : Int64) : Int64 := if 0 < v then v else default

lemma positiveOr_pos {v d : Int64} (hd : 0 < d.toInt) : 0 < (positiveOr v d).toInt := by
  unfold positiveOr
  split
  · rename_i h; exact lt_iff_toInt_lt.mp h
  · exact hd

def oneDayNetLimit (s : WorldState) : Int64 := positiveOr (s.getProp .oneDayNetLimit) defaultOneDayNetLimit

/-! ## Issuing -/

namespace AssetIssueActuator

def defaultAssetIssueFee : Int64 := 1024000000
def maxAssetNameLen : Nat := 32
def precisionDecimal : Int32 := 6
def maxFrozenSupplyNumber : Nat := 10
def minFrozenSupplyTime : Int64 := 1
def maxFrozenSupplyTime : Int64 := 3652
def frozenPeriodMs : Int64 := 86400000

/-- Mirrors actuators/asset_issue.rs:56. -/
def validReadable (b : Bytes) (max : Nat) : Bool := b ≠ [] && b.length ≤ max && isReadable b

def lowerAscii (b : UInt8) : UInt8 := if 65 ≤ b && b ≤ 90 then b + 32 else b

/-- `name.eq_ignore_ascii_case(b"trx")`. -/
def isTrxName (name : Bytes) : Bool := name.map lowerAscii = [0x74, 0x72, 0x78]

/-- Mirrors actuators/asset_issue.rs:77. -/
def fee (s : WorldState) : Int64 := positiveOr (s.getProp .assetIssueFee) defaultAssetIssueFee

/-- The frozen-supply loop of `validate`. -/
def checkFrozenSupply : Int64 → List FrozenSupply → Check Unit
  | _, [] => pure ()
  | remain, f :: fs => do
    ensure (0 < f.frozenAmount) (invalid "Frozen supply must be greater than 0!")
    ensure (f.frozenAmount ≤ remain) (invalid "Frozen supply cannot exceed total supply")
    ensure (minFrozenSupplyTime ≤ f.frozenDays ∧ f.frozenDays ≤ maxFrozenSupplyTime)
      (invalid (s!"frozenDuration must be less than {maxFrozenSupplyTime} days and more than " ++
        s!"{minFrozenSupplyTime} days"))
    checkFrozenSupply (remain - f.frozenAmount) fs

/-- Mirrors actuators/asset_issue.rs:88. -/
def validate (c : AssetIssueContract) (s : WorldState) : Check Int64 := do
  let owner ← parseAddress c.ownerAddress "Invalid ownerAddress"
  ensure (validReadable c.name maxAssetNameLen) (invalid "Invalid assetName")
  ensure (isTrxName c.name = false) (invalid "assetName can't be trx")
  ensure (c.precision = 0 ∨ (0 ≤ c.precision ∧ c.precision ≤ precisionDecimal))
    (invalid "precision cannot exceed 6")
  ensure (c.abbr = [] ∨ validReadable c.abbr maxAssetNameLen) (invalid "Invalid abbreviation for token")
  ensure (validUrl c.url) (invalid "Invalid url")
  ensure (validDescription c.description) (invalid "Invalid description")
  let now := s.getProp .latestBlockHeaderTimestamp
  ensure (c.startTime ≠ 0) (invalid "Start time should be not empty")
  ensure (c.endTime ≠ 0) (invalid "End time should be not empty")
  ensure (c.startTime < c.endTime) (invalid "End time should be greater than start time")
  ensure (now < c.startTime) (invalid "Start time should be greater than HeadBlockTime")
  ensure (0 < c.totalSupply) (invalid "TotalSupply must greater than 0!")
  ensure (0 < c.trxNum) (invalid "TrxNum must greater than 0!")
  ensure (0 < c.num) (invalid "Num must greater than 0!")
  ensure (c.publicFreeAssetNetUsage = 0) (invalid "PublicFreeAssetNetUsage must be 0!")
  ensure (c.frozenSupply.length ≤ maxFrozenSupplyNumber)
    (invalid "Frozen supply list length is too long")
  let dayLimit := oneDayNetLimit s
  ensure (0 ≤ c.freeAssetNetLimit ∧ c.freeAssetNetLimit < dayLimit) (invalid "Invalid FreeAssetNetLimit")
  ensure (0 ≤ c.publicFreeAssetNetLimit ∧ c.publicFreeAssetNetLimit < dayLimit)
    (invalid "Invalid PublicFreeAssetNetLimit")
  checkFrozenSupply c.totalSupply c.frozenSupply
  let account ← orThrow (s.getAccount owner) (invalid "Account not exists")
  ensure (account.assetIssuedId = []) (invalid "An account can only issue one asset")
  let fee := fee s
  ensure (fee ≤ account.balance) (invalid "No enough balance for fee!")
  pure fee

/-- When a frozen part of the supply is released. -/
def expireTime (start : Int64) (f : FrozenSupply) : Option Int64 :=
  start.checkedAdd ((f.frozenDays.checkedMul frozenPeriodMs).getD Int64.maxValue)

/-- The frozen-supply loop of `execute`: what is frozen, and what remains liquid. -/
def lockSupply (start : Int64) : List Frozen → Int64 → List FrozenSupply → Check (List Frozen × Int64)
  | frozen, remain, [] => pure (frozen, remain)
  | frozen, remain, f :: fs => do
    let expireTime ← orThrow (expireTime start f) (failed "long overflow")
    lockSupply start (frozen ++ [⟨f.frozenAmount, expireTime⟩]) (remain - f.frozenAmount) fs

/-- Mirrors state/lib.rs:244. -/
def allocateTokenId : Act Int64 := do
  let next := (← get).getTokenIdNum + 1
  modify (·.putProp .tokenIdNum next)
  pure next

/-- Mirrors actuators/asset_issue.rs:182. -/
def execute (c : AssetIssueContract) : Act ExecutionResult := do
  let owner ← lift (parseAddress c.ownerAddress "Invalid ownerAddress")
  let fee := fee (← get)
  let id ← allocateTokenId
  modify (·.putAssetIssue id { c with id := Bytes.decimal id })
  let account ← orThrow ((← get).getAccount owner) (failed "owner account missing")
  let balance ← orThrow (debit account.balance fee) (failed "balance is not sufficient")
  modify (·.burnTrx fee)
  let (frozenSupply, remain) ← lift (lockSupply c.startTime account.frozenSupply c.totalSupply c.frozenSupply)
  let account := setAssetV2Balance { account with balance, frozenSupply } id remain
  modify (·.putAccount owner { account with
    assetIssuedId := Bytes.decimal id
    assetIssuedName := c.name })
  pure ⟨fee⟩

/-- The expiry time of every frozen part fits. -/
def ExpiryFits (c : AssetIssueContract) : Prop :=
  ∀ f ∈ c.frozenSupply, Int64.Fits (c.startTime.toInt + f.frozenDays.toInt * 86400000)

variable {c : AssetIssueContract} {s : WorldState} {v : Int64}

lemma checkFrozenSupply_days {remain : Int64} {fs : List FrozenSupply} {u : Unit}
    (h : checkFrozenSupply remain fs = .ok u) : ∀ f ∈ fs, 1 ≤ f.frozenDays.toInt ∧ f.frozenDays.toInt ≤ 3652 := by
  induction fs generalizing remain with
  | nil => intro f hf; cases hf
  | cons g gs ih =>
    simp only [checkFrozenSupply, check_rules] at h; obtain ⟨-, -, -, -, -, hd, h⟩ := h; intro f hf
    rcases List.mem_cons.mp hf with rfl | hf
    · exact ⟨le_iff_toInt_le.mp hd.1, le_iff_toInt_le.mp hd.2⟩
    · exact ih h f hf

lemma validate_ok (h : validate c s = .ok v) : v = fee s ∧
    ∃ owner account, Address.ofBytes c.ownerAddress = some owner ∧ s.getAccount owner = some account ∧
      fee s ≤ account.balance ∧ ∃ u, checkFrozenSupply c.totalSupply c.frozenSupply = .ok u := by
  simp only [validate, check_rules, parseAddress_eq_ok] at h; obtain ⟨owner, ho, h⟩ := h
  iterate 17 obtain ⟨-, -, h⟩ := h
  obtain ⟨u, hu, account, ha, -, -, -, hf, rfl⟩ := h
  exact ⟨rfl, owner, account, ho, ha, hf, u, hu⟩

lemma expireTime_eq_none {start : Int64} {f : FrozenSupply} (hd : 1 ≤ f.frozenDays.toInt ∧ f.frozenDays.toInt ≤ 3652) :
    expireTime start f = none ↔ ¬ Int64.Fits (start.toInt + f.frozenDays.toInt * 86400000) := by
  have hp : frozenPeriodMs.toInt = 86400000 := rfl
  have hfit : Int64.Fits (f.frozenDays.toInt * frozenPeriodMs.toInt) := by rw [hp]; exact ⟨by omega, by omega⟩
  have hm : f.frozenDays.checkedMul frozenPeriodMs = some (f.frozenDays * frozenPeriodMs) := if_pos hfit
  rw [expireTime, hm, Option.getD_some, Int64.checkedAdd_eq_none, Int64.toInt_mul_of_fits hfit, hp]

/-- The loop returns exactly when no expiry time overflows, and otherwise reports it. -/
lemma lockSupply_cases (start : Int64) (fs : List FrozenSupply) (frozen : List Frozen) (remain : Int64) :
    ((∀ f ∈ fs, expireTime start f ≠ none) ∧ ∃ r, lockSupply start frozen remain fs = .ok r) ∨
    ((∃ f ∈ fs, expireTime start f = none) ∧ lockSupply start frozen remain fs = .error (failed "long overflow")) := by
  induction fs generalizing frozen remain with
  | nil => exact .inl ⟨nofun, _, rfl⟩
  | cons f fs ih =>
    cases he : expireTime start f with
    | none =>
      refine .inr ⟨⟨f, List.mem_cons_self .., he⟩, ?_⟩; simp only [lockSupply, he, orThrow]; rfl
    | some t =>
      have hstep : lockSupply start frozen remain (f :: fs) =
          lockSupply start (frozen ++ [⟨f.frozenAmount, t⟩]) (remain - f.frozenAmount) fs := by
        simp only [lockSupply, he, orThrow]; rfl
      rw [hstep]
      rcases ih (frozen ++ [⟨f.frozenAmount, t⟩]) (remain - f.frozenAmount) with ⟨hall, hr⟩ | ⟨⟨g, hg, hn⟩, hr⟩
      · refine .inl ⟨fun g hg => ?_, hr⟩
        rcases List.mem_cons.mp hg with rfl | hg
        · rw [he]; exact Option.some_ne_none t
        · exact hall g hg
      · exact .inr ⟨⟨g, List.mem_cons_of_mem _ hg, hn⟩, hr⟩

lemma tokenIdNum_succ_ne (s : WorldState) : s.getTokenIdNum + 1 ≠ s.getProp .tokenIdNum := by
  unfold WorldState.getTokenIdNum
  split
  · rename_i h; rw [h]; decide
  · exact Int64.add_one_ne _

lemma executes_iff (hv : validate c s = .ok v) : (∃ t, execute c s = .ok ⟨v⟩ t) ↔ ExpiryFits c := by
  obtain ⟨rfl, owner, account, ho, ha, hf, u, hu⟩ := validate_ok hv
  have hdays := checkFrozenSupply_days hu
  have hpos : 0 < (fee s).toInt := positiveOr_pos (by decide)
  obtain ⟨b, hbal⟩ := exists_debit_of_le (by omega) (le_iff_toInt_le.mp hf)
  have hget : ∀ k x n y, ((s.putProp k x).putAssetIssue n y).getAccount owner = some account :=
    fun _ _ _ _ => ha
  rw [exists_ok_iff]
  rcases lockSupply_cases c.startTime c.frozenSupply account.frozenSupply c.totalSupply with
    ⟨hall, ⟨frozen, remain⟩, hr⟩ | ⟨⟨f, hf, hn⟩, hr⟩
  · refine iff_of_true ?_ fun f hf => ?_
    · simp [execute, parseAddress_ok ho, allocateTokenId, hget, hbal, hr]
    · by_contra hnf; exact hall f hf ((expireTime_eq_none (hdays f hf)).mpr hnf)
  · refine iff_of_false ?_ fun h => (expireTime_eq_none (hdays f hf)).mp hn (h f hf)
    simp [execute, parseAddress_ok ho, allocateTokenId, hget, hbal, hr]

lemma atomic_iff (hv : validate c s = .ok v) : Atomic (execute c) s ↔ ExpiryFits c := by
  refine ⟨fun hat => ?_, fun h => ?_⟩
  · obtain ⟨-, owner, account, ho, ha, hf, u, hu⟩ := validate_ok hv
    have hpos : 0 < (fee s).toInt := positiveOr_pos (by decide)
    obtain ⟨b, hbal⟩ := exists_debit_of_le (by omega) (le_iff_toInt_le.mp hf)
    have hget : ∀ k x n y, ((s.putProp k x).putAssetIssue n y).getAccount owner = some account :=
      fun _ _ _ _ => ha
    intro f hf; by_contra hnf
    rcases lockSupply_cases c.startTime c.frozenSupply account.frozenSupply c.totalSupply with
      ⟨hall, -⟩ | ⟨-, hr⟩
    · exact hall f hf ((expireTime_eq_none (checkFrozenSupply_days hu f hf)).mpr hnf)
    · -- the token id has been allocated and the fee burned when the overflow is found
      refine not_atomic_of_wp ?_ hat
      have hne : ∀ n y z, ((s.putProp .tokenIdNum (s.getTokenIdNum + 1)).putAssetIssue n y).burnTrx z ≠ s := by
        intro n y z heq; have h1 := congrArg (fun t => WorldState.getProp t .tokenIdNum) heq
        have h2 : (((s.putProp .tokenIdNum (s.getTokenIdNum + 1)).putAssetIssue n y).burnTrx z).getProp
            .tokenIdNum = s.getTokenIdNum + 1 := by
          rw [WorldState.burnTrx, WorldState.addProp, getProp_putProp_of_ne _ _ (by decide)]
          exact getProp_putProp_self ..
        exact tokenIdNum_succ_ne s (h2.symm.trans h1)
      simp [execute, parseAddress_ok ho, allocateTokenId, hget, hbal, hr, hne, failed]
  · obtain ⟨t, ht⟩ := (executes_iff hv).mpr h; exact atomic_of_ok ht

end AssetIssueActuator

def assetIssueActuator : Actuator AssetIssueContract :=
  ⟨AssetIssueActuator.validate, AssetIssueActuator.execute⟩

/-! ## Participating -/

/-- `(amount as i128 * num as i128) / trx_num as i128`, as an i64; mirrors
actuators/src/participate_asset_issue.rs:40. A zero divisor panics. -/
def exchangeAmount (amount : Int64) (num trxNum : Int32) : Check Int64 := do
  ensure (trxNum ≠ 0) Fault.panic
  let v := (amount.toInt * num.toInt).tdiv trxNum.toInt
  ensure (Int64.Fits v) (invalid "long overflow")
  pure (Int64.ofInt v)

namespace ParticipateAssetIssueActuator

/-- Mirrors actuators/participate_asset_issue.rs:54. -/
def validate (c : ParticipateAssetIssueContract) (s : WorldState) : Check Int64 := do
  let owner ← parseAddress c.ownerAddress "Invalid ownerAddress"
  let dst ← parseAddress c.toAddress "Invalid toAddress"
  ensure (0 < c.amount) (invalid "Amount must greater than 0!")
  ensure (owner ≠ dst) (invalid "Cannot participate asset Issue yourself !")
  let ownerAccount ← orThrow (s.getAccount owner) (invalid "Account does not exist!")
  ensure (c.amount ≤ ownerAccount.balance) (invalid "No enough balance !")
  let name := showText (Bytes.utf8Lossy c.assetName)
  let id ← orThrow (issuedAssetId c.assetName) (invalid s!"No asset named {name}")
  let asset ← orThrow (s.getAssetIssue id) (invalid s!"No asset named {name}")
  let issuer := hex dst.asBytes
  ensure (asset.ownerAddress = dst.asBytes) (invalid s!"The asset is not issued by {issuer}")
  let now := s.getProp .latestBlockHeaderTimestamp
  ensure (now < asset.endTime ∧ asset.startTime ≤ now) (invalid "No longer valid period!")
  let exchange ← exchangeAmount c.amount asset.num asset.trxNum
  ensure (0 < exchange) (invalid "Can not process the exchange!")
  let toAccount ← orThrow (s.getAccount dst) (invalid "To account does not exist!")
  ensure (exchange ≤ assetV2Balance toAccount id) (invalid "Asset balance is not enough !")
  pure 0

/-- The errors of `exchange_amount`, as `execute` reports them. -/
def exchangeAmountExecute (amount : Int64) (num trxNum : Int32) : Check Int64 :=
  match exchangeAmount amount num trxNum with
  | .error (.err _) => .error (failed "Validate(\"long overflow\")")
  | r => r

/-- Mirrors actuators/participate_asset_issue.rs:108. -/
def execute (c : ParticipateAssetIssueContract) : Act ExecutionResult := do
  let owner ← lift (parseAddress c.ownerAddress "Invalid ownerAddress")
  let dst ← lift (parseAddress c.toAddress "Invalid toAddress")
  let id ← orThrow (issuedAssetId c.assetName) (failed "bad asset name")
  let asset ← orThrow ((← get).getAssetIssue id) (failed "asset record missing")
  let exchange ← lift (exchangeAmountExecute c.amount asset.num asset.trxNum)
  let ownerAccount ← orThrow ((← get).getAccount owner) (failed "owner account missing")
  let balance ← orThrow (debit ownerAccount.balance c.amount) (failed "balance is not sufficient")
  let ownerTokens ← orThrow ((assetV2Balance ownerAccount id).checkedAdd exchange) (failed "long overflow")
  let ownerAccount := setAssetV2Balance { ownerAccount with balance } id ownerTokens
  let toAccount ← orThrow ((← get).getAccount dst) (failed "to account missing")
  let balance ← orThrow (toAccount.balance.checkedAdd c.amount) (failed "long overflow")
  let toTokens ← orThrow (debit (assetV2Balance toAccount id) exchange) (failed "reduceAssetAmount failed !")
  modify (·.putAccount owner ownerAccount)
  modify (·.putAccount dst (setAssetV2Balance { toAccount with balance } id toTokens))
  pure ⟨0⟩

lemma atomic (c : ParticipateAssetIssueContract) (s : WorldState) : Atomic (execute c) s := by
  apply atomic_of_wp; simp [execute]

/-- The owner has room for the tokens, and the issuer for the payment. -/
def CreditsFit (c : ParticipateAssetIssueContract) (s : WorldState) : Prop :=
  AtParties s c.ownerAddress c.toAddress fun x dst => ∀ y, dst = some y →
    ∀ id, issuedAssetId c.assetName = some id → ∀ asset, s.getAssetIssue id = some asset →
    ∀ bought, exchangeAmount c.amount asset.num asset.trxNum = .ok bought →
      Int64.Fits ((assetV2Balance x id).toInt + bought.toInt) ∧ Int64.Fits (y.balance.toInt + c.amount.toInt)

lemma executes_iff {c : ParticipateAssetIssueContract} {s : WorldState} {v : Int64} (hv : validate c s = .ok v) :
    (∃ t, execute c s = .ok ⟨v⟩ t) ↔ CreditsFit c s := by
  simp only [validate, check_rules, parseAddress_eq_ok] at hv
  obtain ⟨owner, ho, dst, hd, -, hp, -, hne, x, hx, -, hb, id, hid, asset, hasset, -, -, -, -, bought, hbought, -,
    hpos, y, hy, -, hle, rfl⟩ := hv
  rw [Int64.pos_iff] at hp hpos
  obtain ⟨b, hbal⟩ := exists_debit_of_le (by omega) (le_iff_toInt_le.mp hb)
  obtain ⟨left, hleft⟩ := exists_debit_of_le (by omega) (le_iff_toInt_le.mp hle)
  have hexec : exchangeAmountExecute c.amount asset.num asset.trxNum = .ok bought := by
    rw [exchangeAmountExecute, hbought]
  rw [exists_ok_iff, CreditsFit, atParties_iff ho hd hx]
  simp [execute, parseAddress_ok ho, parseAddress_ok hd, hid, hasset, hexec, hbought, hx, hy, hbal,
    hleft, Int64.exists_checkedAdd]

end ParticipateAssetIssueActuator

def participateAssetIssueActuator : Actuator ParticipateAssetIssueContract :=
  ⟨ParticipateAssetIssueActuator.validate, ParticipateAssetIssueActuator.execute⟩

/-! ## Updating and unfreezing -/

namespace UpdateAssetActuator

/-- Mirrors actuators/update_asset.rs:61. -/
def validate (c : UpdateAssetContract) (s : WorldState) : Check Int64 := do
  let owner ← parseAddress c.ownerAddress "Invalid ownerAddress"
  let account ← orThrow (s.getAccount owner) (invalid "Account does not exist")
  ensure (account.assetIssuedId ≠ []) (invalid "Account has not issued any asset")
  let id ← orThrow (issuedAssetId account.assetIssuedId) (invalid "Account has not issued any asset")
  ensure ((s.getAssetIssue id).isSome) (invalid "Asset is not existed in AssetIssueV2Store")
  ensure (validUrl c.url) (invalid "Invalid url")
  ensure (validDescription c.description) (invalid "Invalid description")
  let dayLimit := oneDayNetLimit s
  ensure (0 ≤ c.newLimit ∧ c.newLimit < dayLimit) (invalid "Invalid FreeAssetNetLimit")
  ensure (0 ≤ c.newPublicLimit ∧ c.newPublicLimit < dayLimit) (invalid "Invalid PublicFreeAssetNetLimit")
  pure 0

/-- Mirrors actuators/update_asset.rs:98. -/
def execute (c : UpdateAssetContract) : Act ExecutionResult := do
  let owner ← lift (parseAddress c.ownerAddress "Invalid ownerAddress")
  let account ← orThrow ((← get).getAccount owner) (failed "owner account missing")
  let id ← orThrow (issuedAssetId account.assetIssuedId) (failed "owner has no issued asset")
  let asset ← orThrow ((← get).getAssetIssue id) (failed "asset record missing")
  modify (·.putAssetIssue id { asset with
    freeAssetNetLimit := c.newLimit
    publicFreeAssetNetLimit := c.newPublicLimit
    url := c.url
    description := c.description })
  pure ⟨0⟩

lemma atomic (c : UpdateAssetContract) (s : WorldState) : Atomic (execute c) s := by
  apply atomic_of_wp; simp [execute]

lemma executes {c : UpdateAssetContract} {s : WorldState} {v : Int64} (hv : validate c s = .ok v) :
    ∃ t, execute c s = .ok ⟨v⟩ t := by
  simp only [validate, check_rules, parseAddress_eq_ok, Option.isSome_iff_exists] at hv
  obtain ⟨owner, ho, x, hx, -, -, id, hid, -, ⟨asset, hasset⟩, -, -, -, -, -, -, -, -, rfl⟩ := hv
  rw [exists_ok_iff]; simp [execute, parseAddress_ok ho, hx, hid, hasset]

end UpdateAssetActuator

def updateAssetActuator : Actuator UpdateAssetContract :=
  ⟨UpdateAssetActuator.validate, UpdateAssetActuator.execute⟩

namespace UnfreezeAssetActuator

/-- Mirrors actuators/unfreeze_asset.rs:46. -/
def validate (c : OwnerOnly) (s : WorldState) : Check Int64 := do
  let owner ← parseAddress c.ownerAddress "Invalid address"
  let shown := hex owner.asBytes
  let account ← orThrow (s.getAccount owner) (invalid s!"Account[{shown}] does not exist")
  ensure (account.frozenSupply ≠ []) (invalid "no frozen supply balance")
  ensure (account.assetIssuedId ≠ []) (invalid "this account has not issued any asset")
  let now := s.getProp .latestBlockHeaderTimestamp
  ensure (account.frozenSupply.any (·.expireTime ≤ now)) (invalid "It's not time to unfreeze asset supply")
  pure 0

/-- The loop of `execute`: the matured amount, and what stays frozen. -/
def release (now : Int64) : Int64 → List Frozen → List Frozen → Check (Int64 × List Frozen)
  | amount, remaining, [] => pure (amount, remaining)
  | amount, remaining, f :: fs =>
    if f.expireTime ≤ now then do
      let amount ← orThrow (amount.checkedAdd f.frozenBalance) (failed "long overflow")
      release now amount remaining fs
    else release now amount (remaining ++ [f]) fs

/-- Mirrors actuators/unfreeze_asset.rs:70. -/
def execute (c : OwnerOnly) : Act ExecutionResult := do
  let owner ← lift (parseAddress c.ownerAddress "Invalid address")
  let now := (← get).getProp .latestBlockHeaderTimestamp
  let account ← orThrow ((← get).getAccount owner) (failed "owner account missing")
  let id ← orThrow (issuedAssetId account.assetIssuedId) (failed "owner has no issued asset")
  let (amount, remaining) ← lift (release now 0 [] account.frozenSupply)
  let balance ← orThrow ((assetV2Balance account id).checkedAdd amount) (failed "long overflow")
  modify (·.putAccount owner { setAssetV2Balance account id balance with frozenSupply := remaining })
  pure ⟨0⟩

lemma atomic (c : OwnerOnly) (s : WorldState) : Atomic (execute c) s := by
  apply atomic_of_wp; simp [execute]

/-- The amounts that have matured. -/
def matured (now : Int64) (fs : List Frozen) : List Int :=
  (fs.filter (·.expireTime ≤ now)).map (·.frozenBalance.toInt)

lemma release_sum {now amount released : Int64} {remaining rest fs : List Frozen}
    (h : release now amount remaining fs = .ok (released, rest)) :
    released.toInt = amount.toInt + (matured now fs).sum := by
  induction fs generalizing amount remaining with
  | nil =>
    obtain ⟨rfl, rfl⟩ := Prod.mk.inj (Except.ok.inj h)
    simp [matured]
  | cons f fs ih =>
    unfold release at h
    split at h
    · rename_i hf; obtain ⟨next, hnext, h⟩ := bind_eq_ok.mp h
      have hsum := checkedAdd_eq_some.mp (orThrow_eq_ok.mp hnext)
      rw [ih h, hsum]; simp [matured, hf, Int.add_assoc]
    · rename_i hf; rw [ih h]; simp [matured, hf]

/-- The loop returns when no partial sum of the matured amounts overflows. -/
lemma exists_release (now amount : Int64) (remaining fs : List Frozen) :
    (∃ r, release now amount remaining fs = .ok r) ↔ ∀ l, l <+: matured now fs → Int64.Fits (amount.toInt + l.sum) := by
  induction fs generalizing amount remaining with
  | nil =>
    refine iff_of_true ⟨_, rfl⟩ fun l hl => ?_
    rw [List.prefix_nil.mp hl]; simpa using amount.fits_toInt
  | cons f fs ih =>
    unfold release
    by_cases hf : f.expireTime ≤ now
    · have hm : matured now (f :: fs) = f.frozenBalance.toInt :: matured now fs := by simp [matured, hf]
      rw [if_pos hf, hm]
      constructor
      · rintro ⟨r, hr⟩ l hl; obtain ⟨next, hnext, hr⟩ := bind_eq_ok.mp hr
        have hsum := checkedAdd_eq_some.mp (orThrow_eq_ok.mp hnext)
        rcases List.prefix_cons_iff.mp hl with rfl | ⟨l', rfl, hl'⟩
        · simpa using amount.fits_toInt
        · have := (ih next remaining).mp ⟨r, hr⟩ l' hl'; rw [hsum] at this
          rwa [List.sum_cons, ← Int.add_assoc]
      · intro h; have hfirst := h [f.frozenBalance.toInt] (by simp)
        rw [List.sum_singleton] at hfirst; obtain ⟨next, hnext⟩ := Int64.exists_checkedAdd.mpr hfirst
        have hsum := checkedAdd_eq_some.mp hnext
        obtain ⟨r, hr⟩ := (ih next remaining).mpr fun l hl => by
          have := h (f.frozenBalance.toInt :: l) (by simpa using hl)
          rwa [List.sum_cons, ← Int.add_assoc, ← hsum] at this
        exact ⟨r, bind_eq_ok.mpr ⟨next, orThrow_eq_ok.mpr hnext, hr⟩⟩
    · have hm : matured now (f :: fs) = matured now fs := by simp [matured, hf]
      rw [if_neg hf, hm]; exact ih amount _

/-- The owner's token has a number, and there is room for the matured supply. -/
def ReleaseFits (c : OwnerOnly) (s : WorldState) : Prop :=
  AtAccount s c.ownerAddress fun x => ∃ id, issuedAssetId x.assetIssuedId = some id ∧
    (∀ l, l <+: matured (s.getProp .latestBlockHeaderTimestamp) x.frozenSupply → Int64.Fits l.sum) ∧
      Int64.Fits ((assetV2Balance x id).toInt +
        (matured (s.getProp .latestBlockHeaderTimestamp) x.frozenSupply).sum)

lemma executes_iff {c : OwnerOnly} {s : WorldState} {v : Int64} (hv : validate c s = .ok v) :
    (∃ t, execute c s = .ok ⟨v⟩ t) ↔ ReleaseFits c s := by
  simp only [validate, check_rules, parseAddress_eq_ok] at hv
  obtain ⟨owner, ho, x, hx, -, -, -, -, -, -, rfl⟩ := hv
  rw [exists_ok_iff, ReleaseFits, atAccount_iff ho hx]
  simp only [execute, returns_bind, returns_lift, returns_get, returns_orThrow, returns_modify, returns_pure,
    parseAddress_ok ho, Except.ok.injEq, exists_eq_left', hx, Option.some.injEq, and_true]
  refine exists_congr fun id => and_congr_right fun _ => ?_
  have hrel := exists_release (s.getProp .latestBlockHeaderTimestamp) 0 [] x.frozenSupply
  rw [toInt_zero] at hrel; simp only [Int.zero_add] at hrel; rw [← hrel]
  constructor
  · rintro ⟨⟨released, rest⟩, hr, total, htotal⟩; have hsum := release_sum hr
    rw [toInt_zero, Int.zero_add] at hsum; rw [← hsum]
    exact ⟨⟨_, hr⟩, Int64.exists_checkedAdd.mp ⟨total, htotal⟩⟩
  · rintro ⟨⟨⟨released, rest⟩, hr⟩, hfits⟩; have hsum := release_sum hr
    rw [toInt_zero, Int.zero_add] at hsum; rw [← hsum] at hfits
    obtain ⟨total, htotal⟩ := Int64.exists_checkedAdd.mpr hfits
    exact ⟨_, hr, total, htotal⟩

end UnfreezeAssetActuator

def unfreezeAssetActuator : Actuator OwnerOnly :=
  ⟨UnfreezeAssetActuator.validate, UnfreezeAssetActuator.execute⟩

end TronRs

import TronRs.L3Actuators.Executor
import TronRs.L4Consensus.Mempool

/-!
# Who may act for an account

Two readers look at the packed parameter of a transaction: `txOwnerAddress` scans it for a
leading field 1 and compares that with the signer, and `applyTransaction` decodes it and acts
for the `owner_address` it finds. The signature step does its job exactly when the two agree.

* `scanOwner_of_fields`: on a well-formed message the scanner returns the payload of the first
  field when the message starts with the byte `0x0a`, and nothing otherwise.
* `signature_step_authorizes_iff`: when the signature step is an authorization by the owner.
* `account_name_authorizes`: signing with the key of the address written as the account name.
-/
namespace TronRs

open TronRs.Core
open Wire (varintUpTo fields key lastLen)

/-! ## The scanner on well-formed messages -/

/-- Adding seven more bits above `acc`. -/
lemma or_shift_eq_add {acc x j : Nat} (hacc : acc < 2 ^ (7 * j)) (hfit : x * 2 ^ (7 * j) < 2 ^ 64)
    (hj : j ≤ 9) : acc ||| (x <<< (7 * j % 64)) % 2 ^ 64 = acc + x * 2 ^ (7 * j) := by
  have hshift : 7 * j % 64 = 7 * j := Nat.mod_eq_of_lt (by omega)
  rw [hshift, Nat.shiftLeft_eq, Nat.mod_eq_of_lt hfit, Nat.or_comm, Nat.add_comm, ← Nat.shiftLeft_eq,
    Nat.shiftLeft_add_eq_or_of_lt hacc]

lemma seven_bits_fit {x j : Nat} (hx : x < 128) (hj : j ≤ 8) : x * 2 ^ (7 * j) < 2 ^ 64 := by
  have hp : 2 ^ (7 * j) ≤ 2 ^ 56 := Nat.pow_le_pow_right (by omega) (by omega)
  calc x * 2 ^ (7 * j) ≤ 127 * 2 ^ 56 := Nat.mul_le_mul (by omega) hp
    _ < 2 ^ 64 := by norm_num

/-- The length loop agrees with a varint reader that allows ten bytes. -/
lemma scanLength_of_varintUpTo {n j acc i v : Nat} {b rest : Bytes} (hn : n + j = 10)
    (hacc : acc < 2 ^ (7 * j)) (h : varintUpTo n b = some (v, rest)) :
    ∃ k, scanLength (7 * j) acc i b = some (acc + v * 2 ^ (7 * j), i + k) ∧ rest = b.drop k ∧ k ≤ b.length := by
  induction n generalizing j acc i v b rest with
  | zero => simp [varintUpTo] at h
  | succ n ih =>
    cases b with
    | nil => simp [varintUpTo] at h
    | cons x b =>
      have hj : j ≤ 9 := by omega
      have hpow : 2 ^ (7 * (j + 1)) = 128 * 2 ^ (7 * j) := by ring
      simp only [varintUpTo] at h; simp only [scanLength]
      by_cases hx : x.toNat < 128
      · -- the last byte; the tenth one has a single bit
        rw [if_pos hx] at h
        split at h
        · cases h
        rename_i hone; cases h
        have hfit : x.toNat * 2 ^ (7 * j) < 2 ^ 64 := by
          by_cases hn0 : n = 0
          · obtain rfl : j = 9 := by omega
            omega
          · exact seven_bits_fit hx (by omega)
        rw [if_pos hx, Nat.mod_eq_of_lt hx, or_shift_eq_add hacc hfit hj]; exact ⟨1, rfl, rfl, by simp⟩
      · rw [if_neg hx] at h; obtain ⟨⟨v', rest'⟩, hv, heq⟩ := Option.map_eq_some_iff.mp h
        cases heq
        have hn0 : n ≠ 0 := by rintro rfl; simp [varintUpTo] at hv
        have hlt : x.toNat % 128 < 128 := Nat.mod_lt _ (by omega)
        have hfit := seven_bits_fit hlt (show j ≤ 8 by omega)
        rw [if_neg hx, or_shift_eq_add hacc hfit hj]
        obtain ⟨k, hk, hrest, hle⟩ := @ih (j + 1) (acc + x.toNat % 128 * 2 ^ (7 * j)) (i + 1) v' b _
          (by omega) (by rw [hpow]; nlinarith) hv
        refine ⟨k + 1, ?_, hrest, by simpa using hle⟩
        have hshift : 7 * j + 7 = 7 * (j + 1) := by ring
        rw [hshift, hk, hpow]
        congr 2
        · ring
        · omega

/-- The payload of the first field of a message that starts with the byte `0x0a`, the key of
a length-delimited field 1. -/
def leadingOwner (b : Bytes) : Option Bytes :=
  if b.head? = some 0x0a then
    match fields b with
    | some ((_, .len p) :: _) => some p
    | _ => none
  else none

/-- **The scanner on a well-formed message.** -/
theorem scanOwner_of_fields {b : Bytes} {fs : List (Nat × Wire.Payload)} (h : fields b = some fs)
    (hlen : b.length < 2 ^ 64) : scanOwner b = leadingOwner b := by
  unfold scanOwner leadingOwner
  cases b with
  | nil => rfl
  | cons x b =>
    by_cases hx : x = 0x0a
    · subst hx
      have hkey : key (0x0a :: b) = some (1, 2, b) := by
        simp [key, Wire.varint_small (x := 0x0a) (by decide)]
      have hfields := h
      simp only [fields, List.length_cons, Wire.fieldsAux, hkey, Option.bind_some,
        Option.bind_eq_some_iff, Option.map_eq_some_iff] at h
      obtain ⟨⟨n, rest⟩, hn, ⟨p, rest'⟩, hp, fs', hfs, rfl⟩ := h
      obtain ⟨k, hk, rfl, hle⟩ := scanLength_of_varintUpTo (j := 0) (i := 1) rfl Nat.one_pos hn
      simp only [Wire.splitAt?, List.length_drop] at hp
      split at hp
      · rename_i hnle; cases hp
        have hne : b ≠ [] := by rintro rfl; cases hn
        have hpos := List.length_pos_iff.mpr hne
        have hstop : (1 + k + n) % 2 ^ 64 = 1 + k + n := Nat.mod_eq_of_lt (by
          rw [List.length_cons] at hlen
          omega)
        simp only [hfields, List.head?_cons, ↓reduceIte, List.length_cons, List.drop_succ_cons, List.drop_zero,
          ne_eq, not_true_eq_false, or_false]
        rw [if_neg (by omega)]
        have hk' : scanLength 0 0 1 b = some (n, 1 + k) := by simpa using hk
        simp only [hk', Option.bind_some, hstop]; rw [if_pos ⟨by omega, by omega⟩]
        have htake : 1 + k + n = (k + n) + 1 := by omega
        rw [htake, Nat.add_comm 1 k, List.take_succ_cons, List.drop_succ_cons, List.drop_take]; simp
      · cases hp
    · simp [hx]

/-! ## The owner of a message -/

/-- The `owner_address` of a contract message. -/
def ownerAddress : (ty : ContractType) → Message ty → Bytes
  | .accountCreate, c => AccountCreateContract.ownerAddress c
  | .transfer, c => TransferContract.ownerAddress c
  | .transferAsset, c => TransferAssetContract.ownerAddress c
  | .voteWitness, c => VoteWitnessContract.ownerAddress c
  | .witnessCreate, c => WitnessCreateContract.ownerAddress c
  | .assetIssue, c => AssetIssueContract.ownerAddress c
  | .witnessUpdate, c => WitnessUpdateContract.ownerAddress c
  | .participateAssetIssue, c => ParticipateAssetIssueContract.ownerAddress c
  | .accountUpdate, c => AccountUpdateContract.ownerAddress c
  | .freezeBalance, c => FreezeBalanceContract.ownerAddress c
  | .unfreezeBalance, c => UnfreezeBalanceContract.ownerAddress c
  | .updateAsset, c => UpdateAssetContract.ownerAddress c
  | .proposalCreate, c => ProposalCreateContract.ownerAddress c
  | .proposalApprove, c => ProposalApproveContract.ownerAddress c
  | .proposalDelete, c => ProposalDeleteContract.ownerAddress c
  | .setAccountId, c => SetAccountIdContract.ownerAddress c
  | .createSmartContract, c => CreateSmartContract.ownerAddress c
  | .triggerSmartContract, c => TriggerSmartContract.ownerAddress c
  | .updateSetting, c => UpdateSettingContract.ownerAddress c
  | .exchangeCreate, c => ExchangeCreateContract.ownerAddress c
  | .exchangeInject, c | .exchangeWithdraw, c => ExchangeQuantContract.ownerAddress c
  | .exchangeTransaction, c => ExchangeTransactionContract.ownerAddress c
  | .updateEnergyLimit, c => UpdateEnergyLimitContract.ownerAddress c
  | .accountPermissionUpdate, c => AccountPermissionUpdateContract.ownerAddress c
  | .clearAbi, c => ClearAbiContract.ownerAddress c
  | .updateBrokerage, c => UpdateBrokerageContract.ownerAddress c
  | .marketSellAsset, c => MarketSellAssetContract.ownerAddress c
  | .marketCancelOrder, c => MarketCancelOrderContract.ownerAddress c
  | .freezeBalanceV2, c => FreezeBalanceV2Contract.ownerAddress c
  | .unfreezeBalanceV2, c => UnfreezeBalanceV2Contract.ownerAddress c
  | .withdrawBalance, c | .unfreezeAsset, c | .withdrawExpireUnfreeze, c | .cancelAllUnfreezeV2, c =>
    OwnerOnly.ownerAddress c
  | .delegateResource, c => DelegateResourceContract.ownerAddress c
  | .unDelegateResource, c => UnDelegateResourceContract.ownerAddress c
  | .voteAsset, _ | .custom, _ | .getContract, _ | .shieldedTransfer, _ => []

/-- The field number of `owner_address` in the protobuf schema. -/
def ownerField : ContractType → Nat
  | .accountUpdate | .setAccountId | .transferAsset => 2
  | _ => 1

/-- What is used of the generated protobuf code: a decoded message comes from a well-formed
encoding and its owner is the last occurrence of its field, and a transaction's encoding is
at least as long as the parameter inside it. -/
structure Platform.ReadsWire (pf : Platform) : Prop where
  owner : ∀ ty b m, (route pf ty).isSome → pf.codec.decode ty b = .ok m →
    ∃ fs, fields b = some fs ∧ ownerAddress ty m = (lastLen (ownerField ty) fs).getD []
  size : ∀ tx b, parameterValue tx = some b → b.length ≤ (pf.codec.transaction tx).length

variable {pf : Platform} {tx : Transaction}

/-- The signature step fails when no signer is recovered, or when the scanner finds an
address other than the signer's. -/
lemma checkSignature_eq_badSignature_iff : checkSignature pf tx = .error .badSignature ↔
    ∀ g, recoverTxSigner pf tx = some g → ∃ p, txOwnerAddress tx = some p ∧ p ≠ g.asBytes := by
  unfold checkSignature
  cases recoverTxSigner pf tx with
  | none => simp [orThrow, throw, throwThe, MonadExceptOf.throw, bind, Except.bind]
  | some g =>
    cases txOwnerAddress tx with
    | none => simp [orThrow, pure, Except.pure, bind, Except.bind]
    | some p =>
      have hcomm : g.asBytes = p ↔ p = g.asBytes := eq_comm
      simp [orThrow, pure, Except.pure, bind, Except.bind, ensure_eq_error, hcomm]

/-- The first field of the parameter vouches for the signer `g` exactly when the owner is
`g`; a parameter without such a field vouches for everybody. -/
def FirstFieldAgrees (b owner : Bytes) (g : Address) : Prop :=
  match leadingOwner b with
  | some p => p = g.asBytes ↔ owner = g.asBytes
  | none => owner = g.asBytes

/-- **Authorization.** A transaction of a routed type whose parameter decodes passes the
signature step exactly when its signer is the owner it acts for, if and only if the first
field of the parameter agrees with the decoded owner about the signer. -/
theorem signature_step_authorizes_iff (hpf : pf.ReadsWire) {raw : TxRaw} {contract : Contract}
    {any : PackedAny} {m : Message (.ofI32 contract.type)} (hraw : tx.rawData = some raw)
    (hcontract : raw.contract.head? = some contract) (hany : contract.parameter = some any)
    (hroute : (route pf (.ofI32 contract.type)).isSome)
    (hdec : pf.codec.decode (.ofI32 contract.type) any.value = .ok m)
    (hsize : (pf.codec.transaction tx).length ≤ maxTxSize) (pool : Mempool) (s : WorldState) (now : Int64)
    (validate : WorldState → Transaction → Except String Unit) :
    (admitTransaction pf pool s tx now validate ≠ .error .badSignature ↔
      ∃ g, recoverTxSigner pf tx = some g ∧ ownerAddress _ m = g.asBytes) ↔
    ∀ g, recoverTxSigner pf tx = some g → FirstFieldAgrees any.value (ownerAddress _ m) g := by
  have hne : raw.contract ≠ [] := by rintro h; rw [h] at hcontract; cases hcontract
  have hvalue : parameterValue tx = some any.value := by simp [parameterValue, hraw, hcontract, hany]
  obtain ⟨fs, hfs, -⟩ := hpf.owner _ _ m hroute hdec
  have hlen : any.value.length < 2 ^ 64 := by have := hpf.size tx _ hvalue; unfold maxTxSize at hsize; omega
  have hscan : txOwnerAddress tx = leadingOwner any.value := by
    rw [txOwnerAddress, hvalue, Option.bind_some, scanOwner_of_fields hfs hlen]
  rw [ne_eq, admitTransaction_badSignature_iff hsize hraw hne, checkSignature_eq_badSignature_iff, hscan]
  unfold FirstFieldAgrees
  cases recoverTxSigner pf tx with
  | none => simp
  | some => cases leadingOwner any.value <;> simp

/-! ## A platform for fixed inputs -/

/-- Every signature is by `0xaa`, and two message types are decoded field by field. -/
def wirePlatform : Platform where
  crypto := { Platform.blank.crypto with
    keccak256 := fun _ => H256.ofNat 0xaa
    recover := fun _ _ _ => some [] }
  floats := Platform.blank.floats
  codec := { Platform.blank.codec with
    transaction := fun tx => (parameterValue tx).getD []
    decode := fun ty b => match ty with
      | .accountUpdate => match fields b with
        | some fs => .ok { accountName := (lastLen 1 fs).getD [], ownerAddress := (lastLen 2 fs).getD [] }
        | none => .error "not decoded"
      | .withdrawBalance => match fields b with
        | some fs => .ok { ownerAddress := (lastLen 1 fs).getD [] }
        | none => .error "not decoded"
      | _ => .error "not decoded" }

lemma wirePlatform_readsWire : wirePlatform.ReadsWire where
  owner := by
    intro ty b m _ h
    cases ty with
    | accountUpdate | withdrawBalance =>
      cases hf : fields b with
      | none => simp [wirePlatform, hf] at h
      | some fs =>
        simp only [wirePlatform, hf] at h; cases h; exact ⟨fs, rfl, rfl⟩
    | _ => cases h
  size := by intro tx b h; simp [wirePlatform, h]

/-- A signed transaction with one contract. -/
def signedTx (type : Int32) (parameter : Bytes) : Transaction where
  rawData := some { contract := [{ type, parameter := some { value := parameter } }] }
  signature := [List.replicate 65 0]

/-- The account `0xbb` is renamed; the new name is the text of the address `0xaa`. -/
def renameBytes : Bytes :=
  0x0a :: 21 :: (Address.ofNat 0xaa).asBytes ++ 0x12 :: 21 :: (Address.ofNat 0xbb).asBytes

/-- The rename of `0xbb` is signed by `0xaa` and admitted: the scanner takes the account name
for the owner. -/
theorem account_name_authorizes : recoverTxSigner wirePlatform (signedTx 10 renameBytes) = some (Address.ofNat 0xaa) ∧
    wirePlatform.codec.decode .accountUpdate renameBytes =
      .ok { accountName := (Address.ofNat 0xaa).asBytes, ownerAddress := (Address.ofNat 0xbb).asBytes } ∧
    (admitTransaction wirePlatform {} {} (signedTx 10 renameBytes) 0 fun _ _ => .ok ()).toBool = true := by
  refine ⟨by decide +kernel, rfl, by decide +kernel⟩

def withdrawBytes : Bytes := 0x0a :: 21 :: (Address.ofNat 0xaa).asBytes

/-- A withdrawal by `0xaa` under its own signature. -/
theorem signature_step_authorizes_withdrawal :
    FirstFieldAgrees withdrawBytes (Address.ofNat 0xaa).asBytes (Address.ofNat 0xaa) ∧
    (admitTransaction wirePlatform {} {} (signedTx 13 withdrawBytes) 0 (fun _ _ => .ok ()) ≠ .error .badSignature ↔
      ∃ g, recoverTxSigner wirePlatform (signedTx 13 withdrawBytes) = some g ∧
        (Address.ofNat 0xaa).asBytes = g.asBytes) := by
  have hsigner : recoverTxSigner wirePlatform (signedTx 13 withdrawBytes) = some (Address.ofNat 0xaa) := by
    decide +kernel
  have hlead : leadingOwner withdrawBytes = some (Address.ofNat 0xaa).asBytes := by decide +kernel
  have hagrees : FirstFieldAgrees withdrawBytes (Address.ofNat 0xaa).asBytes (Address.ofNat 0xaa) := by
    rw [FirstFieldAgrees, hlead]
  refine ⟨hagrees, (@signature_step_authorizes_iff wirePlatform (signedTx 13 withdrawBytes) wirePlatform_readsWire
    _ { type := 13, parameter := some { value := withdrawBytes } } _
    (OwnerOnly.mk (Address.ofNat 0xaa).asBytes) rfl rfl rfl rfl rfl (by decide) {} {} 0 _).mpr ?_⟩
  intro g hg; rw [hsigner] at hg; cases hg
  exact hagrees

end TronRs

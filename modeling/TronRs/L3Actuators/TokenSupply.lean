import TronRs.Core.Lts
import TronRs.L3Actuators.Assets
import TronRs.L3Actuators.Transfer

/-!
# The supply of TRC10 tokens

The operations on tokens: issuing, transferring, participating in an issue, unfreezing and
updating. `TokensOk owed s` is the invariant of the token data, with `owed id` of token `id`
taken from one account and not yet given to another; between operations nothing is owed.

* `TokensOk.putAccount`: one account is written and what it gains is no longer owed.
* `tokens_step`: what each operation keeps.
* `token_supply`: after every run from a state without tokens the stored ids are those up to
  the counter, every supply is what the accounts have of it plus what its issuer has frozen,
  and supplies never change, as long as the counter of ids does not overflow.
* `token_id_overflows`: the counter is a 64-bit number and wraps.
-/
namespace TronRs

open TronRs.Core
open WorldState (getAssetIssue getAccount getTokenIdNum)

variable {s t : WorldState} {res : ExecutionResult}

/-! ## What an account has of a token -/

lemma issuedAssetId_decimal (id : Int64) : issuedAssetId (Bytes.decimal id) = some id := by
  unfold issuedAssetId
  rw [if_pos (Bytes.isUtf8_of_ascii fun _ => Bytes.ascii_of_mem_decimal), Bytes.parseI64_decimal]

/-- The sum of the frozen parts of a supply. -/
def frozenTotal (fs : List Frozen) : Int := exactSum (fs.map Frozen.frozenBalance)

/-- What an account can spend of a token and, for its issuer, what is still frozen. -/
def tokenHolding (id : Int64) (a : Account) : Int :=
  (assetV2Balance a id).toInt + if a.assetIssuedId = Bytes.decimal id then frozenTotal a.frozenSupply else 0

/-- The supply of a token, zero for one that does not exist. -/
def WorldState.tokenSupply (s : WorldState) (id : Int64) : Int :=
  (s.getAssetIssue id).elim 0 fun asset => asset.totalSupply.toInt

@[simp] lemma frozenTotal_nil : frozenTotal [] = 0 := rfl

@[simp] lemma frozenTotal_cons (f : Frozen) (fs : List Frozen) :
    frozenTotal (f :: fs) = f.frozenBalance.toInt + frozenTotal fs := rfl

@[simp] lemma frozenTotal_append (fs gs : List Frozen) :
    frozenTotal (fs ++ gs) = frozenTotal fs + frozenTotal gs := by
  simp [frozenTotal, Int64.exactSum_append]

lemma frozenTotal_nonneg {fs : List Frozen} (h : ∀ f ∈ fs, 0 ≤ f.frozenBalance.toInt) : 0 ≤ frozenTotal fs := by
  refine Int64.exactSum_nonneg fun x hx => ?_
  obtain ⟨f, hf, rfl⟩ := List.mem_map.mp hx; exact h f hf

/-- Of the token data of the account, only the balance at one key is written. -/
structure BalanceWritten (key : Bytes) (v : Int64) (x y : Account) : Prop where
  balances : y.assetV2 = x.assetV2.put key v
  issuedId : y.assetIssuedId = x.assetIssuedId
  frozen : y.frozenSupply = x.frozenSupply

section BalanceWritten
variable {x y : Account} {key : Bytes} {v : Int64}

lemma assetV2Balance_of_put (h : y.assetV2 = x.assetV2.put key v) (id : Int64) :
    assetV2Balance y id = if Bytes.decimal id = key then v else assetV2Balance x id := by
  rw [assetV2Balance, h, get_put]; split <;> rfl

/-- The balance at a key is what is held of the token whose id it spells. -/
lemma BalanceWritten.tokenHolding (h : BalanceWritten key v x y) (id : Int64) : tokenHolding id y = tokenHolding id x +
      if Bytes.decimal id = key then v.toInt - ((x.assetV2.get key).getD 0).toInt else 0 := by
  rw [TronRs.tokenHolding, TronRs.tokenHolding, h.issuedId, h.frozen, assetV2Balance_of_put h.balances]
  by_cases hk : Bytes.decimal id = key
  · rw [if_pos hk, if_pos hk, assetV2Balance, hk]; omega
  · rw [if_neg hk, if_neg hk]; omega

end BalanceWritten

/-! ## The invariant -/

/-- The token data of one account. -/
structure Holder (s : WorldState) (addr : Address) (a : Account) : Prop where
  balances : ∀ id, 0 ≤ (assetV2Balance a id).toInt
  frozen : ∀ f ∈ a.frozenSupply, 0 ≤ f.frozenBalance.toInt
  issued : a.assetIssuedId = [] ∧ a.frozenSupply = [] ∨ ∃ id asset, a.assetIssuedId = Bytes.decimal id ∧
    s.getAssetIssue id = some asset ∧ asset.ownerAddress = addr.asBytes

lemma Holder.nonneg {addr : Address} {a : Account} (h : Holder s addr a) (id : Int64) : 0 ≤ tokenHolding id a := by
  have hb := h.balances id
  have hf := frozenTotal_nonneg h.frozen; unfold tokenHolding; split <;> omega

/-- The token data of a state in which `owed id` is owed of token `id`. -/
structure TokensOk (owed : Int64 → Int) (s : WorldState) : Prop where
  base : 1000000 ≤ s.getTokenIdNum.toInt
  ids : ∀ id, (s.getAssetIssue id).isSome ↔ 1000001 ≤ id.toInt ∧ id.toInt ≤ s.getTokenIdNum.toInt
  issuers : ∀ id asset, s.getAssetIssue id = some asset → 0 ≤ asset.totalSupply.toInt ∧
    ∃ a x, asset.ownerAddress = a.asBytes ∧ s.getAccount a = some x ∧ x.assetIssuedId = Bytes.decimal id
  holders : ∀ a x, s.getAccount a = some x → Holder s a x
  supply : ∀ id, Column.total (fun _ => tokenHolding id) s.account + owed id = s.tokenSupply id

/-- Every token of the first state is one of the second, with the same supply. -/
def SuppliesKept (s t : WorldState) : Prop :=
  ∀ id asset, s.getAssetIssue id = some asset →
    ∃ asset', t.getAssetIssue id = some asset' ∧ asset'.totalSupply = asset.totalSupply

lemma SuppliesKept.of_asset_eq (h : t.asset = s.asset) : SuppliesKept s t :=
  fun id asset ha => ⟨asset, by rw [getAssetIssue, h]; exact ha, rfl⟩

lemma SuppliesKept.trans {u : WorldState} (h1 : SuppliesKept s t) (h2 : SuppliesKept t u) : SuppliesKept s u := by
  intro id asset ha; obtain ⟨b, hb, hsb⟩ := h1 id asset ha
  obtain ⟨c, hc, hsc⟩ := h2 id b hb; exact ⟨c, hc, hsc.trans hsb⟩

namespace TokensOk
variable {owed owed' : Int64 → Int} {s t : WorldState} {a : Address} {x y : Account}
variable {key : Bytes} {v id : Int64} {asset : AssetIssueContract}

variable (h : TokensOk owed s)
include h

lemma congr (haccount : t.account = s.account) (hasset : t.asset = s.asset)
    (hnum : t.getTokenIdNum = s.getTokenIdNum) : TokensOk owed t := by
  have hget : ∀ id, t.getAssetIssue id = s.getAssetIssue id := fun id => by
    rw [getAssetIssue, hasset, getAssetIssue]
  have hacc : ∀ a, t.getAccount a = s.getAccount a := fun a => by
    rw [getAccount, haccount, getAccount]
  refine ⟨by rw [hnum]; exact h.base, fun id => ?_, fun id asset ha => ?_, fun a x hx => ?_, fun id => ?_⟩
  · rw [hget, hnum]; exact h.ids id
  · rw [hget] at ha; simp only [hacc]; exact h.issuers id asset ha
  · rw [hacc] at hx; obtain ⟨hb, hf, hi⟩ := h.holders a x hx; refine ⟨hb, hf, ?_⟩
    simp only [hget]; exact hi
  · rw [haccount, h.supply, WorldState.tokenSupply, WorldState.tokenSupply, hget]

/-- A property other than the counter of ids. -/
lemma putProp {k : Property} (hk : .tokenIdNum ≠ k) (v : Int64) : TokensOk owed (s.putProp k v) := by
  refine h.congr rfl rfl ?_; simp [getTokenIdNum, getProp_putProp_of_ne s v hk]

lemma burnTrx (fee : Int64) : TokensOk owed (s.burnTrx fee) :=
  h.putProp (by decide) _

/-- An account is written; what it gains is no longer owed. -/
lemma putAccount (hx : s.getAccount a = some x) (hy : Holder s a y) (hid : y.assetIssuedId = x.assetIssuedId)
    (hmove : ∀ id, owed' id + tokenHolding id y = owed id + tokenHolding id x) : TokensOk owed' (s.putAccount a y) := by
  refine ⟨h.base, h.ids, fun id asset ha => ?_, fun b z hz => ?_, fun id => ?_⟩
  · obtain ⟨h0, b, z, hb, hz, hiz⟩ := h.issuers id asset ha
    by_cases hab : b = a
    · subst hab; cases hx.symm.trans hz
      exact ⟨h0, b, y, hb, s.getAccount_putAccount_self b y, hid.trans hiz⟩
    · exact ⟨h0, b, z, hb, (s.getAccount_putAccount_of_ne y hab).trans hz, hiz⟩
  · by_cases hab : b = a
    · subst hab; rw [getAccount_putAccount_self] at hz; cases hz
      exact ⟨hy.balances, hy.frozen, hy.issued⟩
    · rw [getAccount_putAccount_of_ne s y hab] at hz; obtain ⟨hb, hf, hi⟩ := h.holders b z hz
      exact ⟨hb, hf, hi⟩
  · have hput := total_put (fun _ => tokenHolding id) s.account a y
    have hshare := Column.share_of_some (f := fun _ => tokenHolding id) hx
    have hs := h.supply id
    have hm := hmove id; show Column.total _ (s.account.put a y) + owed' id = s.tokenSupply id; omega

lemma writeBalance (hx : s.getAccount a = some x)
    (hy : BalanceWritten key v x y) (h0 : ∀ id, Bytes.decimal id = key → 0 ≤ v.toInt) : TokensOk (fun id => owed id +
      if Bytes.decimal id = key then ((x.assetV2.get key).getD 0).toInt - v.toInt else 0) (s.putAccount a y) := by
  obtain ⟨hbal, hfroz, hiss⟩ := h.holders a x hx
  refine h.putAccount hx ⟨fun id => ?_, ?_, ?_⟩ hy.issuedId fun id => ?_
  · rw [assetV2Balance_of_put hy.balances]
    split
    · rename_i hk; exact h0 id hk
    · exact hbal id
  · rw [hy.frozen]; exact hfroz
  · rw [hy.issuedId, hy.frozen]; exact hiss
  · rw [hy.tokenHolding]; split <;> omega

omit h in
lemma move {w : Int64} {b : Address} {p q : Account} (h : TokensOk 0 s)
    (hx : s.getAccount a = some x) (hy : (s.putAccount a p).getAccount b = some y)
    (hp : BalanceWritten key v x p) (hq : BalanceWritten key w y q)
    (hsum : v.toInt + w.toInt = ((x.assetV2.get key).getD 0).toInt + ((y.assetV2.get key).getD 0).toInt)
    (hv : ∀ id, Bytes.decimal id = key → 0 ≤ ((x.assetV2.get key).getD 0).toInt → 0 ≤ v.toInt)
    (hw : ∀ id, Bytes.decimal id = key → 0 ≤ ((y.assetV2.get key).getD 0).toInt → 0 ≤ w.toInt) :
    TokensOk 0 ((s.putAccount a p).putAccount b q) := by
  have hnn : ∀ {owed u c z}, TokensOk owed u → u.getAccount c = some z → ∀ id, Bytes.decimal id = key →
      0 ≤ ((z.assetV2.get key).getD 0).toInt := by
    intro owed u c z hu hz id hk; have hbal := (hu.holders c z hz).balances id
    rwa [assetV2Balance, hk] at hbal
  have hpaid := h.writeBalance hx hp fun id hk => hv id hk (hnn h hx id hk)
  have hgot := hpaid.writeBalance hy hq fun id hk => hw id hk (hnn hpaid hy id hk)
  refine cast (congrArg (TokensOk · _) (funext fun id => ?_)) hgot; split <;> omega

/-- A new account has no tokens. -/
lemma createAccount (hx : s.getAccount a = none) : TokensOk owed (s.createAccount a) := by
  have hold : ∀ id, tokenHolding id (s.freshAccount a) = 0 := fun id => by
    have hne : (s.freshAccount a).assetIssuedId ≠ Bytes.decimal id := (Bytes.decimal_ne_nil id).symm
    rw [tokenHolding, if_neg hne]; rfl
  refine ⟨h.base, h.ids, fun id asset ha => ?_, fun b z hz => ?_, fun id => ?_⟩
  · obtain ⟨h0, b, z, hb, hz, hiz⟩ := h.issuers id asset ha
    have hab : b ≠ a := fun hab => by rw [hab, hx] at hz; cases hz
    exact ⟨h0, b, z, hb, (s.getAccount_putAccount_of_ne _ hab).trans hz, hiz⟩
  · by_cases hab : b = a
    · subst hab; rw [WorldState.createAccount, getAccount_putAccount_self] at hz; cases hz
      exact ⟨fun id => by rfl, fun f hf => absurd hf List.not_mem_nil, .inl ⟨rfl, rfl⟩⟩
    · rw [WorldState.createAccount, getAccount_putAccount_of_ne s _ hab] at hz
      obtain ⟨hb, hf, hi⟩ := h.holders b z hz; exact ⟨hb, hf, hi⟩
  · have hput := total_put (fun _ => tokenHolding id) s.account a (s.freshAccount a)
    have hshare := Column.share_of_none (f := fun _ => tokenHolding id) hx
    have hs := h.supply id
    have hnew := hold id
    show Column.total _ (s.account.put a (s.freshAccount a)) + owed id = s.tokenSupply id; omega

lemma withRecipient (dst : Address) : TokensOk owed (s.withRecipient dst) := by
  unfold WorldState.withRecipient
  split
  · exact h
  · rename_i hx; exact h.createAccount (s.accountExists_eq_false.mp (Bool.eq_false_of_not_eq_true hx))

/-- A definition is replaced by one of the same supply and owner. -/
lemma putAsset {asset' : AssetIssueContract}
    (ha : s.getAssetIssue id = some asset) (hs : asset'.totalSupply = asset.totalSupply)
    (ho : asset'.ownerAddress = asset.ownerAddress) : TokensOk owed (s.putAssetIssue id asset') := by
  have hget : ∀ i, (s.putAssetIssue id asset').getAssetIssue i = if i = id then some asset' else s.getAssetIssue i :=
    fun i => get_put ..
  refine ⟨h.base, fun i => ?_, fun i b hb => ?_, fun b x hx => ?_, fun i => ?_⟩
  · rw [hget, ← show s.getTokenIdNum = (s.putAssetIssue id asset').getTokenIdNum from rfl, ← h.ids i]
    split
    · rename_i hi; rw [hi, ha]; simp
    · rfl
  · rw [hget] at hb
    split at hb
    · rename_i hi; cases hb; rw [hs, ho, hi]
      exact h.issuers id asset ha
    · exact h.issuers i b hb
  · obtain ⟨hbal, hf, hi⟩ := h.holders b x hx; refine ⟨hbal, hf, hi.imp_right ?_⟩
    rintro ⟨i, c, hxi, hc, hco⟩
    by_cases hi : i = id
    · subst hi; cases ha.symm.trans hc; exact ⟨i, asset', hxi, by rw [hget, if_pos rfl], ho.trans hco⟩
    · exact ⟨i, c, hxi, by rw [hget, if_neg hi, hc], hco⟩
  · have hsup : (s.putAssetIssue id asset').tokenSupply i = s.tokenSupply i := by
      rw [WorldState.tokenSupply, WorldState.tokenSupply, hget]
      split
      · rename_i hi; rw [hi, ha, Option.elim_some, Option.elim_some, hs]
      · rfl
    rw [hsup]; exact h.supply i

omit h

/-- Nothing is held of a token that does not exist. -/
lemma tokenHolding_eq_zero (h : TokensOk 0 s) (hx : s.getAccount a = some x)
    (hid : s.getAssetIssue id = none) : tokenHolding id x = 0 := by
  have hsup := h.supply id; rw [WorldState.tokenSupply, hid, Option.elim_none, Pi.zero_apply] at hsup
  have hle := share_le_total (fun b y hy => (h.holders b y hy).nonneg id) a
  rw [Column.share_of_some hx] at hle; have hnn := (h.holders a x hx).nonneg id; omega

/-- A token is added under the next id, and its issuer gets all of it. -/
lemma addToken (h : TokensOk 0 s) (hx : s.getAccount a = some x)
    (hnil : x.assetIssuedId = []) (hid : id.toInt = s.getTokenIdNum.toInt + 1)
    (haccount : t.account = s.account.put a y) (hasset : t.asset = s.asset.put id asset)
    (hnum : t.getTokenIdNum = id) (hown : asset.ownerAddress = a.asBytes)
    (hbal : y.assetV2 = x.assetV2.put (Bytes.decimal id) v) (hyid : y.assetIssuedId = Bytes.decimal id)
    (hfrozen : ∀ f ∈ y.frozenSupply, 0 ≤ f.frozenBalance.toInt) (hv : 0 ≤ v.toInt)
    (hsum : v.toInt + frozenTotal y.frozenSupply = asset.totalSupply.toInt) : TokensOk 0 t ∧ SuppliesKept s t := by
  have hget : ∀ i, t.getAssetIssue i = if i = id then some asset else s.getAssetIssue i := fun i => by
    rw [getAssetIssue, hasset, get_put]; rfl
  have hacc : ∀ b, t.getAccount b = if b = a then some y else s.getAccount b := fun b => by
    rw [getAccount, haccount, get_put]; rfl
  have hfresh : s.getAssetIssue id = none := by
    cases hs : s.getAssetIssue id with
    | none => rfl
    | some =>
      have hle := ((h.ids id).mp (by rw [hs]; rfl)).2
      omega
  have hne : ∀ {i b}, s.getAssetIssue i = some b → i ≠ id := by rintro i b hb rfl; rw [hfresh] at hb; cases hb
  have hkeep : ∀ {i b}, s.getAssetIssue i = some b → t.getAssetIssue i = some b := fun {i b} hb => by
    rw [hget, if_neg (hne hb), hb]
  have hbase := h.base
  have hfrozen0 := frozenTotal_nonneg hfrozen
  refine ⟨⟨by rw [hnum]; omega, fun i => ?_, fun i b hb => ?_, fun b z hz => ?_, fun i => ?_⟩,
    fun i b hb => ⟨b, hkeep hb, rfl⟩⟩
  · rw [hget, hnum]
    by_cases hi : i = id
    · rw [if_pos hi, hi]; exact iff_of_true rfl ⟨by omega, le_rfl⟩
    · have hii : i.toInt ≠ id.toInt := fun heq => hi (toInt_inj.mp heq)
      rw [if_neg hi, h.ids i]; omega
  · rw [hget] at hb
    split at hb
    · rename_i hi; cases hb; exact ⟨by omega, a, y, hown, by rw [hacc, if_pos rfl], by rw [hyid, hi]⟩
    obtain ⟨h0, d, z, hd, hz, hzid⟩ := h.issuers i b hb
    have hda : d ≠ a := by rintro rfl; cases hx.symm.trans hz; exact Bytes.decimal_ne_nil i (hzid.symm.trans hnil)
    exact ⟨h0, d, z, hd, by rw [hacc, if_neg hda, hz], hzid⟩
  · rw [hacc] at hz
    split at hz
    · rename_i hb; cases hz
      refine ⟨fun i => ?_, hfrozen, .inr ⟨id, asset, hyid, by rw [hget, if_pos rfl], hb ▸ hown⟩⟩
      rw [assetV2Balance_of_put hbal]
      split
      · exact hv
      · exact (h.holders a x hx).balances i
    · obtain ⟨hb, hf, hi⟩ := h.holders b z hz; refine ⟨hb, hf, hi.imp_right ?_⟩
      rintro ⟨i, b, hzi, hb, ho⟩; exact ⟨i, b, hzi, hkeep hb, ho⟩
  · have hput := total_put (fun _ => tokenHolding i) s.account a y
    have hshare := Column.share_of_some (f := fun _ => tokenHolding i) hx
    have hs := h.supply i; rw [haccount]
    by_cases hi : i = id
    · subst hi; have hnone := h.tokenHolding_eq_zero hx hfresh
      have hhold : tokenHolding i y = v.toInt + frozenTotal y.frozenSupply := by
        rw [tokenHolding, assetV2Balance_of_put hbal, if_pos rfl, if_pos hyid]
      rw [WorldState.tokenSupply, hfresh, Option.elim_none] at hs
      rw [WorldState.tokenSupply, hget, if_pos rfl, Option.elim_some]; omega
    · have hdec : Bytes.decimal i ≠ Bytes.decimal id := fun heq => hi (Bytes.decimal_injective heq)
      have hxnil : x.assetIssuedId ≠ Bytes.decimal i := hnil ▸ (Bytes.decimal_ne_nil i).symm
      have hhold : tokenHolding i y = tokenHolding i x := by
        rw [tokenHolding, tokenHolding, assetV2Balance_of_put hbal, if_neg hdec, hyid, if_neg hdec.symm, if_neg hxnil]
      rw [WorldState.tokenSupply, hget, if_neg hi]; rw [WorldState.tokenSupply] at hs; omega

end TokensOk

/-! ## What the operations keep -/

namespace AssetIssueActuator
variable {c : AssetIssueContract} {s t : WorldState} {v : Int64}

/-- What is frozen and what remains add up to the supply, and nothing is negative. -/
lemma lockSupply_ok {start remain left : Int64} {frozen rest : List Frozen} {fs : List FrozenSupply} {u : Unit}
    (hcheck : checkFrozenSupply remain fs = .ok u) (h : lockSupply start frozen remain fs = .ok (rest, left))
    (h0 : 0 ≤ remain.toInt) : left.toInt + frozenTotal rest = remain.toInt + frozenTotal frozen ∧ 0 ≤ left.toInt ∧
      ∀ f ∈ rest, f ∈ frozen ∨ 0 ≤ f.frozenBalance.toInt := by
  induction fs generalizing frozen remain with
  | nil =>
    obtain ⟨rfl, rfl⟩ := Prod.mk.inj (Except.ok.inj h)
    exact ⟨rfl, h0, fun f hf => .inl hf⟩
  | cons f fs ih =>
    simp only [checkFrozenSupply, check_rules] at hcheck
    obtain ⟨-, hpos, -, hle, -, -, hcheck⟩ := hcheck
    obtain ⟨expire, -, h⟩ := bind_eq_ok.mp h
    have hpos := Int64.pos_iff.mp hpos
    have hle := le_iff_toInt_le.mp hle
    have hlt := remain.toInt_lt
    have hsub := toInt_sub_of_fits (a := remain) (b := f.frozenAmount) ⟨by omega, by omega⟩
    obtain ⟨htot, hleft, hmem⟩ := ih hcheck h (by omega)
    rw [frozenTotal_append, frozenTotal_cons, frozenTotal_nil] at htot
    refine ⟨by dsimp only at htot; omega, hleft, fun g hg => ?_⟩
    rcases hmem g hg with hg | hg
    · rcases List.mem_append.mp hg with hg | hg
      · exact .inl hg
      · rw [List.mem_singleton.mp hg]; exact .inr hpos.le
    · exact .inr hg

lemma getTokenIdNum_of_getProp {n : Int64} (h : s.getProp .tokenIdNum = n) (hn : n.toInt ≠ 0) :
    s.getTokenIdNum = n := by
  have hne : s.getProp .tokenIdNum ≠ 0 := fun h0 => hn (by rw [← h, h0]; rfl)
  rw [getTokenIdNum, if_neg hne, h]

lemma validate_supply (h : validate c s = .ok v) : 0 < c.totalSupply.toInt ∧
    ∀ owner account, Address.ofBytes c.ownerAddress = some owner → s.getAccount owner = some account →
      account.assetIssuedId = [] := by
  simp only [validate, check_rules, parseAddress_eq_ok] at h; obtain ⟨owner, ho, h⟩ := h
  iterate 10 obtain ⟨-, -, h⟩ := h
  obtain ⟨-, hpos, h⟩ := h
  iterate 6 obtain ⟨-, -, h⟩ := h
  obtain ⟨-, -, account, ha, -, hnil, -⟩ := h
  refine ⟨lt_iff_toInt_lt.mp hpos, fun owner' account' ho' ha' => ?_⟩; cases ho.symm.trans ho'
  cases ha.symm.trans ha'; exact hnil

lemma tokensOk (hs : TokensOk 0 s) (hv : validate c s = .ok v)
    (hnext : s.getTokenIdNum.toInt + 1 < 2 ^ 63) (h : execute c s = .ok res t) : TokensOk 0 t ∧ SuppliesKept s t := by
  obtain ⟨-, owner, -, ho, -, -, u, hcheck⟩ := validate_ok hv
  obtain ⟨hpos, hnil⟩ := validate_supply hv
  have hbase := hs.base
  have hone := Int64.toInt_one
  have hid : (s.getTokenIdNum + 1).toInt = s.getTokenIdNum.toInt + 1 :=
    toInt_add_of_fits ⟨by omega, by omega⟩
  apply ok_elim h
  simp only [execute, allocateTokenId, ok_rules, parseAddress_ok ho, Except.ok.injEq, forall_eq']
  rintro x hx balance - ⟨frozen, left⟩ hlock; have hxnil := hnil owner x ho hx
  have hfrozen : x.frozenSupply = [] := by
    rcases (hs.holders owner x hx).issued with ⟨-, hf⟩ | ⟨id, -, hxid, -⟩
    · exact hf
    · exact absurd (hxid.symm.trans hxnil) (Bytes.decimal_ne_nil id)
  rw [hfrozen] at hlock; obtain ⟨htot, hleft, hmem⟩ := lockSupply_ok hcheck hlock hpos.le
  rw [frozenTotal_nil] at htot
  refine hs.addToken hx hxnil hid rfl rfl ?_ (Address.asBytes_of_ofBytes ho).symm rfl rfl
    (fun f hf => (hmem f hf).resolve_left List.not_mem_nil) hleft ?_
  · exact getTokenIdNum_of_getProp ((getProp_putProp_of_ne _ _ (by decide)).trans
      (getProp_putProp_self ..)) (by omega)
  · exact htot.trans (add_zero _)

end AssetIssueActuator

namespace TransferAssetActuator
variable {c : TransferAssetContract} {s t : WorldState}

lemma tokensOk {v : Int64} (hs : TokensOk 0 s) (hv : validate c s = .ok v)
    (h : execute c s = .ok res t) : TokensOk 0 t ∧ t.asset = s.asset := by
  obtain ⟨owner, dst, -, ho, hd, hne, -, hp, -, -⟩ := validate_ok hv
  have hpos := Int64.pos_iff.mp hp; apply ok_elim h; have hu := hs.withRecipient dst
  have hasset : (s.withRecipient dst).asset = s.asset := by unfold WorldState.withRecipient; split <;> rfl
  simp only [execute, ok_rules, wp_createRecipient, wp_ite, parseAddress_ok ho, parseAddress_ok hd,
    Except.ok.injEq, forall_eq']
  intro x hx left hleft balance _ y hy sum hsum; obtain ⟨hleft, hleft0⟩ := debit_eq_some.mp hleft
  have hsum := checkedAdd_eq_some.mp hsum
  have hmove := hu.move (q := { y with assetV2 := y.assetV2.put (assetKey c) sum }) hx hy ⟨rfl, rfl, rfl⟩
    ⟨rfl, rfl, rfl⟩ (by omega) (fun _ _ _ => hleft0) fun _ _ _ => by omega
  exact ⟨fun _ => ⟨hmove.burnTrx _, hasset⟩, fun _ => ⟨hmove, hasset⟩⟩

end TransferAssetActuator

namespace ParticipateAssetIssueActuator
variable {c : ParticipateAssetIssueContract} {s t : WorldState} {v : Int64}

lemma validate_ok (h : validate c s = .ok v) : ∃ owner dst,
    Address.ofBytes c.ownerAddress = some owner ∧ Address.ofBytes c.toAddress = some dst ∧ owner ≠ dst ∧
      ∀ id asset, issuedAssetId c.assetName = some id → s.getAssetIssue id = some asset →
        ∃ exchange, exchangeAmount c.amount asset.num asset.trxNum = .ok exchange ∧ 0 < exchange.toInt := by
  simp only [validate, check_rules, parseAddress_eq_ok] at h
  obtain ⟨owner, ho, dst, hd, -, -, -, hne, -, -, -, -, id, hid, asset, ha, -, -, -, -, exchange, he, -, hpos, -⟩ := h
  refine ⟨owner, dst, ho, hd, hne, fun id' asset' hid' ha' => ?_⟩; cases hid.symm.trans hid'
  cases ha.symm.trans ha'; exact ⟨exchange, he, lt_iff_toInt_lt.mp hpos⟩

lemma tokensOk (hs : TokensOk 0 s) (hv : validate c s = .ok v)
    (h : execute c s = .ok res t) : TokensOk 0 t ∧ t.asset = s.asset := by
  obtain ⟨owner, dst, ho, hd, hne, hex⟩ := validate_ok hv
  apply ok_elim h
  simp only [execute, ok_rules, parseAddress_ok ho, parseAddress_ok hd, Except.ok.injEq, forall_eq']
  intro id hid asset ha exchange he x hx _ _ bought hbought y hy _ _ left hleft
  obtain ⟨exchange', he', hpos⟩ := hex id asset hid ha
  rw [exchangeAmountExecute, he'] at he; obtain rfl := Except.ok.inj he
  have hbought := checkedAdd_eq_some.mp hbought
  obtain ⟨hleft, hleft0⟩ := debit_eq_some.mp hleft
  refine ⟨hs.move hx ((s.getAccount_putAccount_of_ne _ hne.symm).trans hy) ⟨rfl, rfl, rfl⟩ ⟨rfl, rfl, rfl⟩ ?_
    (fun _ _ hnn => ?_) fun _ _ _ => hleft0, rfl⟩
  · unfold assetV2Balance at hbought hleft; omega
  · unfold assetV2Balance at hbought; omega

end ParticipateAssetIssueActuator

namespace UpdateAssetActuator
variable {c : UpdateAssetContract} {s t : WorldState}

lemma tokensOk (hs : TokensOk 0 s) (h : execute c s = .ok res t) : TokensOk 0 t ∧ SuppliesKept s t := by
  apply ok_elim h; simp only [execute, ok_rules]; intro owner _ x _ id _ asset ha
  refine ⟨hs.putAsset ha rfl rfl, fun i b hb => ?_⟩
  by_cases hi : i = id
  · subst hi; cases ha.symm.trans hb; exact ⟨_, get_put_self .., rfl⟩
  · exact ⟨b, (get_put_of_ne hi).trans hb, rfl⟩

end UpdateAssetActuator

namespace UnfreezeAssetActuator
variable {c : OwnerOnly} {s t : WorldState}

/-- The loop splits what was frozen into what is released and what stays. -/
lemma release_ok {now amount released : Int64} {remaining rest fs : List Frozen}
    (h : release now amount remaining fs = .ok (released, rest)) :
    released.toInt + frozenTotal rest = amount.toInt + frozenTotal remaining + frozenTotal fs ∧
      (∀ f ∈ rest, f ∈ remaining ∨ f ∈ fs) ∧
      ((∀ f ∈ fs, 0 ≤ f.frozenBalance.toInt) → amount.toInt ≤ released.toInt) := by
  induction fs generalizing amount remaining with
  | nil =>
    obtain ⟨rfl, rfl⟩ := Prod.mk.inj (Except.ok.inj h)
    refine ⟨by simp, fun f hf => .inl hf, fun _ => le_rfl⟩
  | cons f fs ih =>
    unfold release at h
    split at h
    · obtain ⟨next, hnext, h⟩ := bind_eq_ok.mp h
      have hsum := checkedAdd_eq_some.mp (orThrow_eq_ok.mp hnext)
      obtain ⟨htot, hmem, hle⟩ := ih h
      refine ⟨by rw [frozenTotal_cons]; omega, fun g hg => ?_, fun hnn => ?_⟩
      · exact (hmem g hg).imp_right (List.mem_cons_of_mem f)
      · have hf := hnn f (List.mem_cons_self ..)
        have hrest := hle fun g hg => hnn g (List.mem_cons_of_mem f hg)
        omega
    · obtain ⟨htot, hmem, hle⟩ := ih h
      rw [frozenTotal_append, frozenTotal_cons, frozenTotal_nil] at htot
      refine ⟨by rw [frozenTotal_cons]; omega, fun g hg => ?_, fun hnn => ?_⟩
      · rcases hmem g hg with hg | hg
        · rcases List.mem_append.mp hg with hg | hg
          · exact .inl hg
          · exact .inr (List.mem_singleton.mp hg ▸ List.mem_cons_self ..)
        · exact .inr (List.mem_cons_of_mem f hg)
      · exact hle fun g hg => hnn g (List.mem_cons_of_mem f hg)

lemma tokensOk (hs : TokensOk 0 s) (h : execute c s = .ok res t) : TokensOk 0 t ∧ t.asset = s.asset := by
  apply ok_elim h; simp only [execute, ok_rules]
  rintro owner - x hx id hid ⟨released, rest⟩ hr balance hb
  obtain ⟨hbal, hfroz, hiss⟩ := hs.holders owner x hx
  obtain ⟨htot, hmem, hle⟩ := release_ok hr
  have hb : balance.toInt = (assetV2Balance x id).toInt + released.toInt := checkedAdd_eq_some.mp hb
  have hle := hle hfroz; rw [frozenTotal_nil, toInt_zero] at htot; rw [toInt_zero] at hle
  rcases hiss with ⟨hnil, -⟩ | ⟨id', asset, hxid, ha, hown⟩
  · rw [hnil] at hid; cases hid
  rw [hxid, issuedAssetId_decimal] at hid; obtain rfl := Option.some.inj hid
  have hput := assetV2Balance_of_put (y := { setAssetV2Balance x id' balance with frozenSupply := rest }) rfl
  refine ⟨hs.putAccount hx ⟨fun id => ?_, fun f hf => ?_, .inr ⟨id', asset, hxid, ha, hown⟩⟩ rfl fun id => ?_, rfl⟩
  · rw [hput]; have h0 := hbal id'
    split
    · omega
    · exact hbal id
  · exact hfroz f ((hmem f hf).resolve_left List.not_mem_nil)
  · -- the released part moves from the frozen supply to the balance of the token it is of
    have hid : (setAssetV2Balance x id' balance).assetIssuedId = Bytes.decimal id' := hxid
    dsimp only [tokenHolding]; rw [hput, hid, hxid]
    by_cases hk : Bytes.decimal id = Bytes.decimal id'
    · obtain rfl := Bytes.decimal_injective hk; simp only [↓reduceIte]; omega
    · rw [if_neg hk, if_neg (Ne.symm hk), if_neg (Ne.symm hk)]

end UnfreezeAssetActuator

/-! ## Runs -/

inductive TokenOp where
  | issue (c : AssetIssueContract)
  | transfer (c : TransferAssetContract)
  | participate (c : ParticipateAssetIssueContract)
  | unfreeze (c : OwnerOnly)
  | update (c : UpdateAssetContract)

def TokenOp.run : TokenOp → Act ExecutionResult
  | .issue c => assetIssueActuator.run c
  | .transfer c => transferAssetActuator.run c
  | .participate c => participateAssetIssueActuator.run c
  | .unfreeze c => unfreezeAssetActuator.run c
  | .update c => updateAssetActuator.run c

/-- No token has been issued and no account has any token data. -/
structure NoTokens (s : WorldState) : Prop where
  counter : s.getTokenIdNum = WorldState.tokenIdBase
  assets : s.asset = ∅
  accounts : ∀ a x, s.getAccount a = some x → x.assetV2 = ∅ ∧ x.frozenSupply = [] ∧ x.assetIssuedId = []

/-- Accepted token operations from a state without tokens, each in a block of any time. -/
def tokens : Lts WorldState (Int64 × TokenOp) where
  init := NoTokens
  step s l t := ∃ res, l.2.run (s.putProp .latestBlockHeaderTimestamp l.1) = .ok res t

/-- The counter of ids has room for one more. -/
def TokenOp.IdFits (s : WorldState) (l : Int64 × TokenOp) : Prop :=
  match l.2 with
  | .issue _ => s.getTokenIdNum.toInt + 1 < 2 ^ 63
  | _ => True

lemma NoTokens.tokensOk (h : NoTokens s) : TokensOk 0 s := by
  have hasset : ∀ id, s.getAssetIssue id = none := fun id => by rw [getAssetIssue, h.assets, get_empty]
  have hbal : ∀ {a x}, s.getAccount a = some x → ∀ id, assetV2Balance x id = 0 := fun hx id => by
    rw [assetV2Balance, (h.accounts _ _ hx).1, get_empty]; rfl
  have hbase : s.getTokenIdNum.toInt = 1000000 := by rw [h.counter]; rfl
  refine ⟨hbase.ge, fun id => ?_, fun id asset ha => ?_, fun a x hx => ?_, fun id => ?_⟩
  · rw [hasset, hbase]; exact iff_of_false nofun (by omega)
  · rw [hasset] at ha; cases ha
  · obtain ⟨-, hf, hi⟩ := h.accounts a x hx
    exact ⟨fun id => by rw [hbal hx]; rfl, by rw [hf]; nofun, .inl ⟨hi, hf⟩⟩
  rw [WorldState.tokenSupply, hasset, Option.elim_none, Pi.zero_apply, Int.add_zero]
  refine (Column.total_congr (g := fun _ _ => 0) fun a x hx => ?_).trans (Finset.sum_eq_zero fun a _ => ?_)
  · rw [tokenHolding, hbal hx, (h.accounts a x hx).2.1, frozenTotal_nil, ite_self]; rfl
  · unfold Column.share; cases s.account.get a <;> rfl

variable {l : Int64 × TokenOp} (n : Nat)

/-- One operation keeps the invariant and every supply. -/
lemma tokens_step (hs : TokensOk 0 s)
    (h : (tokens.guard TokenOp.IdFits).step s l t) : TokensOk 0 t ∧ SuppliesKept s t := by
  obtain ⟨now, op⟩ := l
  obtain ⟨hfits, res, hrun⟩ := h
  have hnow := hs.putProp (k := .latestBlockHeaderTimestamp) (by decide) now
  have hnum : (s.putProp .latestBlockHeaderTimestamp now).getTokenIdNum = s.getTokenIdNum := by
    unfold getTokenIdNum; rw [getProp_putProp_of_ne _ _ (by decide)]
  have hkept : SuppliesKept s (s.putProp .latestBlockHeaderTimestamp now) := .of_asset_eq rfl
  cases op with
  | issue =>
    obtain ⟨⟨v, hv⟩, hx⟩ := Actuator.run_ok hrun
    exact (AssetIssueActuator.tokensOk hnow hv (by rwa [hnum]) hx).imp_right hkept.trans
  | transfer =>
    obtain ⟨⟨v, hv⟩, hx⟩ := Actuator.run_ok hrun
    exact (TransferAssetActuator.tokensOk hnow hv hx).imp_right .of_asset_eq
  | participate =>
    obtain ⟨⟨v, hv⟩, hx⟩ := Actuator.run_ok hrun
    exact (ParticipateAssetIssueActuator.tokensOk hnow hv hx).imp_right .of_asset_eq
  | unfreeze =>
    exact (UnfreezeAssetActuator.tokensOk hnow (Actuator.run_ok hrun).2).imp_right .of_asset_eq
  | update => exact (UpdateAssetActuator.tokensOk hnow (Actuator.run_ok hrun).2).imp_right hkept.trans

/-- The ids, supplies, amounts and owners of the tokens of a state agree. -/
structure SupplyOk (s : WorldState) : Prop where
  ids : ∀ id, (s.getAssetIssue id).isSome ↔ 1000001 ≤ id.toInt ∧ id.toInt ≤ s.getTokenIdNum.toInt
  supply : ∀ id asset, s.getAssetIssue id = some asset → ∃ a issuer, asset.ownerAddress = a.asBytes ∧
    s.getAccount a = some issuer ∧ asset.totalSupply.toInt =
      Column.total (fun _ x => (assetV2Balance x id).toInt) s.account + frozenTotal issuer.frozenSupply
  supplyNonneg : ∀ id asset, s.getAssetIssue id = some asset → 0 ≤ asset.totalSupply.toInt
  amountsNonneg : ∀ a x, s.getAccount a = some x →
    (∀ id, 0 ≤ (assetV2Balance x id).toInt) ∧ ∀ f ∈ x.frozenSupply, 0 ≤ f.frozenBalance.toInt
  owners : ∀ a x id, s.getAccount a = some x → (x.assetIssuedId = Bytes.decimal id ↔
    ∃ asset, s.getAssetIssue id = some asset ∧ asset.ownerAddress = a.asBytes)

lemma TokensOk.issuedId_iff (h : TokensOk 0 s) {a : Address} {x : Account} {id : Int64}
    (hx : s.getAccount a = some x) : x.assetIssuedId = Bytes.decimal id ↔
      ∃ asset, s.getAssetIssue id = some asset ∧ asset.ownerAddress = a.asBytes := by
  constructor
  · intro hid
    rcases (h.holders a x hx).issued with ⟨hnil, -⟩ | ⟨id', asset, hid', ha, ho⟩
    · exact absurd (hid.symm.trans hnil) (Bytes.decimal_ne_nil id)
    · obtain rfl := Bytes.decimal_injective (hid.symm.trans hid')
      exact ⟨asset, ha, ho⟩
  · rintro ⟨asset, ha, ho⟩; obtain ⟨-, b, y, hb, hy, hid⟩ := h.issuers id asset ha
    obtain rfl := Address.asBytes_injective (ho.symm.trans hb)
    cases hx.symm.trans hy; exact hid

/-- Only the issuer has a part of the supply frozen. -/
lemma TokensOk.supplyOk (h : TokensOk 0 s) : SupplyOk s := by
  refine ⟨h.ids, fun id asset ha => ?_, fun id asset ha => (h.issuers id asset ha).1, fun a x hx =>
    ⟨(h.holders a x hx).balances, (h.holders a x hx).frozen⟩, fun a x id hx => h.issuedId_iff hx⟩
  obtain ⟨-, a, issuer, ho, hissuer, hid⟩ := h.issuers id asset ha
  refine ⟨a, issuer, ho, hissuer, ?_⟩
  have hsplit := Column.total_add (fun _ x => (assetV2Balance x id).toInt)
    (fun _ x => if x.assetIssuedId = Bytes.decimal id then frozenTotal x.frozenSupply else 0) s.account
  have hfrozen := Column.total_eq_share (m := s.account)
    (f := fun _ x => if x.assetIssuedId = Bytes.decimal id then frozenTotal x.frozenSupply else 0)
    fun b y hy hne => if_neg fun hyid => by
      obtain ⟨asset', ha', ho'⟩ := (h.issuedId_iff hy).mp hyid
      cases ha.symm.trans ha'; exact hne (Address.asBytes_injective (ho'.symm.trans ho))
  rw [Column.share_of_some hissuer, if_pos hid] at hfrozen; have hsup := h.supply id
  rw [WorldState.tokenSupply, ha, Option.elim_some, Pi.zero_apply, Int.add_zero] at hsup
  rwa [← hsup, ← hfrozen]

/-- **The supply of every token is accounted for.** In every state that accepted token operations
lead to from a state without tokens, as long as the counter of ids does not overflow: the
stored ids are those from 1000001 up to the counter, every supply is what the accounts have of
the token plus what its issuer has frozen, no amount is negative, and an account has issued
exactly the token whose definition names it. A supply never changes afterwards. -/
theorem token_supply {s t u : WorldState} {ops ops' : List (Int64 × TokenOp)} (h0 : tokens.init s)
    (hrun : (tokens.guard TokenOp.IdFits).Run s ops t) (hrest : (tokens.guard TokenOp.IdFits).Run t ops' u) :
    SupplyOk t ∧ SuppliesKept t u := by
  have hstep : ∀ v l w, TokensOk 0 v → (tokens.guard TokenOp.IdFits).step v l w → TokensOk 0 w :=
    fun v l w hv h => (tokens_step hv h).1
  have ht : TokensOk 0 t := hrun.preserves hstep (NoTokens.tokensOk h0)
  have hkeep : ∀ v l w, TokensOk 0 v ∧ SuppliesKept t v → (tokens.guard TokenOp.IdFits).step v l w →
      TokensOk 0 w ∧ SuppliesKept t w := fun v l w hv h =>
    (tokens_step hv.1 h).imp_right hv.2.trans
  exact ⟨ht.supplyOk, (hrest.preserves hkeep ⟨ht, .of_asset_eq rfl⟩).2⟩

/-! ### A run of all operations -/

instance (s : WorldState) : (l : Int64 × TokenOp) → Decidable (TokenOp.IdFits s l)
  | (_, .issue _) => inferInstanceAs (Decidable (_ < _))
  | (_, .transfer _) | (_, .participate _) | (_, .unfreeze _) | (_, .update _) => isTrue trivial

def TokenOp.next (s : WorldState) (l : Int64 × TokenOp) : Option WorldState :=
  let s' := s.putProp .latestBlockHeaderTimestamp l.1
  if TokenOp.IdFits s l ∧ returns l.2.run s' then some (stateAfter l.2.run s') else none

lemma TokenOp.step_of_next (h : TokenOp.next s l = some t) : (tokens.guard TokenOp.IdFits).step s l t := by
  unfold TokenOp.next at h; dsimp only at h
  split at h
  · rename_i hok; obtain ⟨res, hres⟩ := ok_of_returns hok.2; cases h
    exact ⟨hok.1, res, hres⟩
  · cases h

/-- Two accounts without tokens. -/
def newcomers : WorldState :=
  { account := (Column.put ∅ (Address.ofNat 0xaa) { balance := 2000000000 }).put (Address.ofNat 0xbb)
      { balance := 1000 } }

lemma noTokens_newcomers : NoTokens newcomers := by
  refine ⟨by decide, rfl, fun a x hx => ?_⟩
  have hx : ((Column.put ∅ (Address.ofNat 0xaa) { balance := 2000000000 }).put (Address.ofNat 0xbb)
    { balance := 1000 }).get a = some x := hx
  rw [get_put] at hx
  split at hx
  · cases hx; exact ⟨rfl, rfl, rfl⟩
  rw [get_put] at hx
  split at hx
  · cases hx; exact ⟨rfl, rfl, rfl⟩
  · rw [get_empty] at hx; cases hx

/-- Account `aa` issues a hundred tokens, ten of them frozen for a day. -/
def issueHundred : TokenOp := .issue
  { ownerAddress := (Address.ofNat 0xaa).asBytes, name := [0x61], url := [0x61], totalSupply := 100
    frozenSupply := [⟨10, 1⟩], trxNum := 1, num := 2, startTime := 5, endTime := 50 }

/-- Account `bb` buys four tokens for two TRX. -/
def buyFour : TokenOp := .participate
  ⟨(Address.ofNat 0xbb).asBytes, (Address.ofNat 0xaa).asBytes, Bytes.decimal 1000001, 2⟩

/-- It gives one of them to account `cc`, which is created. -/
def giveOne : TokenOp := .transfer
  ⟨Bytes.decimal 1000001, (Address.ofNat 0xbb).asBytes, (Address.ofNat 0xcc).asBytes, 1⟩

/-- Four tokens are sold before, and one is passed on after, the frozen part is released and the
definition updated. -/
theorem token_supply_trade : ∃ ops t ops' u, (tokens.guard TokenOp.IdFits).Run newcomers ops t ∧
    (tokens.guard TokenOp.IdFits).Run t ops' u ∧ (u.getAssetIssue 1000001).map (·.totalSupply) = some 100 ∧
    SupplyOk t ∧ SuppliesKept t u := by
  let owner := (Address.ofNat 0xaa).asBytes
  have h : ((Lts.exec TokenOp.next newcomers [(0, issueHundred), (10, buyFour)]).map fun t =>
      (Lts.exec TokenOp.next t [(86400005, .unfreeze ⟨owner⟩),
        (86400005, .update ⟨owner, [], [0x62], 0, 0⟩), (86400006, giveOne)]).map fun u =>
          (u.getAssetIssue 1000001).map (·.totalSupply)) = some (some (some 100)) := by decide +kernel
  have hnext : ∀ s l t, TokenOp.next s l = some t → (tokens.guard TokenOp.IdFits).step s l t :=
    fun s l t => TokenOp.step_of_next
  obtain ⟨t, hrun, ht⟩ := Lts.Run.exists_of_exec hnext h
  obtain ⟨u, hrest, hu⟩ := Lts.Run.exists_of_exec hnext ht
  exact ⟨_, t, _, u, hrun, hrest, hu, token_supply noTokens_newcomers hrun hrest⟩

/-! ### The counter of ids -/

/-- An account that can pay for one issue. -/
def richAccount : Account := { balance := 1024000000 }

/-- The first `n` addresses have such an account. -/
def richAccounts (n : Nat) : WorldState :=
  { account := Column.ofFn ((Finset.range n).image Address.ofNat) fun _ => some richAccount }

/-- The `k`-th address issues one token. -/
def issueOne (k : Nat) : AssetIssueContract :=
  { ownerAddress := (Address.ofNat k).asBytes, name := [0x61], url := [0x61], totalSupply := 1
    trxNum := 1, num := 1, startTime := 1, endTime := 2 }

/-- The addresses from `k` on can still issue a token. -/
structure CanIssue (n k : Nat) (s : WorldState) : Prop where
  issueFee : s.getProp .assetIssueFee = 0
  dayLimit : s.getProp .oneDayNetLimit = 0
  accounts : ∀ i, k ≤ i → i < n → s.getAccount (Address.ofNat i) = some richAccount

lemma noTokens_richAccounts : NoTokens (richAccounts n) := by
  refine ⟨rfl, rfl, fun a x hx => ?_⟩
  have hget := get_ofFn ((Finset.range n).image Address.ofNat) (fun _ => some richAccount) a
  rw [show (richAccounts n).getAccount a = _ from hget] at hx
  split at hx
  · cases hx; exact ⟨rfl, rfl, rfl⟩
  · cases hx

lemma canIssue_richAccounts : CanIssue n 0 (richAccounts n) := by
  refine ⟨rfl, rfl, fun i _ hi => ?_⟩
  have hget := get_ofFn ((Finset.range n).image Address.ofNat) (fun _ => some richAccount) (Address.ofNat i)
  rwa [if_pos (Finset.mem_image_of_mem _ (Finset.mem_range.mpr hi))] at hget

lemma validate_issueOne {k : Nat} (hnow : s.getProp .latestBlockHeaderTimestamp = 0)
    (hfee : s.getProp .assetIssueFee = 0) (hday : s.getProp .oneDayNetLimit = 0)
    (hx : s.getAccount (Address.ofNat k) = some richAccount) :
    AssetIssueActuator.validate (issueOne k) s = .ok 1024000000 := by
  simp only [AssetIssueActuator.validate, check_rules, parseAddress_eq_ok]
  refine ⟨Address.ofNat k, Address.ofBytes_asBytes _, ?_⟩
  simp only [AssetIssueActuator.fee, oneDayNetLimit, hnow, hfee, hday, hx, issueOne]
  iterate 17 refine ⟨(), by decide, ?_⟩
  exact ⟨(), rfl, richAccount, rfl, (), rfl, (), by decide, rfl⟩

/-- Issuing a token without a frozen part, once the fee is covered. -/
lemma AssetIssueActuator.execute_unfrozen {c : AssetIssueContract} {owner : Address} {x : Account}
    {balance : Int64} (ho : Address.ofBytes c.ownerAddress = some owner) (hx : s.getAccount owner = some x)
    (hbal : debit x.balance (fee s) = some balance) (hf : c.frozenSupply = []) : ∃ res asset y,
      execute c s = .ok res ((((s.putProp .tokenIdNum (s.getTokenIdNum + 1)).putAssetIssue
        (s.getTokenIdNum + 1) asset).burnTrx (fee s)).putAccount owner y) := by
  have hget : ∀ v i b, ((s.putProp .tokenIdNum v).putAssetIssue i b).getAccount owner = some x := fun _ _ _ => hx
  have hlock : lockSupply c.startTime x.frozenSupply c.totalSupply c.frozenSupply =
      .ok (x.frozenSupply, c.totalSupply) := by rw [hf]; rfl
  have hw : wp (execute c) s (fun _ t => ∃ asset y, t = (((s.putProp .tokenIdNum (s.getTokenIdNum + 1)).putAssetIssue
      (s.getTokenIdNum + 1) asset).burnTrx (fee s)).putAccount owner y) fun _ _ => False := by
    simp [execute, allocateTokenId, parseAddress_ok ho, hget, hbal, hlock]; exact ⟨_, _, rfl⟩
  obtain ⟨res, t, hrun, asset, y, rfl⟩ := exists_ok_of_wp hw
  exact ⟨res, asset, y, hrun⟩

lemma tokens_step_issue {c : AssetIssueContract} {now v : Int64}
    (hv : AssetIssueActuator.validate c (s.putProp .latestBlockHeaderTimestamp now) = .ok v)
    (h : AssetIssueActuator.execute c (s.putProp .latestBlockHeaderTimestamp now) = .ok res t) :
    tokens.step s (now, .issue c) t := ⟨res, (Actuator.run_of_validate hv).trans h⟩

/-- The next address issues a token under the next id, whatever it is. -/
lemma CanIssue.issue {n k : Nat} (h : CanIssue n k s) (hk : k < n) (hn : n ≤ 256 ^ 20) :
    ∃ t, tokens.step s (0, .issue (issueOne k)) t ∧ CanIssue n (k + 1) t ∧
      t.getProp .tokenIdNum = s.getTokenIdNum + 1 ∧ (t.getAssetIssue (s.getTokenIdNum + 1)).isSome := by
  have hx := h.accounts k le_rfl hk
  have hfee : (s.putProp .latestBlockHeaderTimestamp 0).getProp .assetIssueFee = 0 :=
    (getProp_putProp_of_ne _ _ (by decide)).trans h.issueFee
  have hday : (s.putProp .latestBlockHeaderTimestamp 0).getProp .oneDayNetLimit = 0 :=
    (getProp_putProp_of_ne _ _ (by decide)).trans h.dayLimit
  have hnum : (s.putProp .latestBlockHeaderTimestamp 0).getTokenIdNum = s.getTokenIdNum := by
    unfold getTokenIdNum; rw [getProp_putProp_of_ne _ _ (by decide)]
  have hv := validate_issueOne (getProp_putProp_self ..) hfee hday hx
  have hbal : debit richAccount.balance (AssetIssueActuator.fee (s.putProp .latestBlockHeaderTimestamp 0)) =
      some 0 := by
    rw [AssetIssueActuator.fee, hfee]; decide
  obtain ⟨res, asset, y, hrun⟩ := AssetIssueActuator.execute_unfrozen (c := issueOne k)
    (s := s.putProp .latestBlockHeaderTimestamp 0) (Address.ofBytes_asBytes (Address.ofNat k)) hx hbal rfl
  rw [hnum] at hrun
  have hprop : ∀ p, p ≠ .tokenIdNum → p ≠ .burnTrxAmount → p ≠ .latestBlockHeaderTimestamp → ∀ v w fee y,
      (((((s.putProp .latestBlockHeaderTimestamp 0).putProp .tokenIdNum v).putAssetIssue w asset).burnTrx
        fee).putAccount (Address.ofNat k) y).getProp p = s.getProp p := by
    intro p h1 h2 h3 v w fee y
    exact (getProp_putProp_of_ne _ _ h2).trans ((getProp_putProp_of_ne _ _ h1).trans
      (getProp_putProp_of_ne _ _ h3))
  refine ⟨_, tokens_step_issue hv hrun, ⟨?_, ?_, fun i hi hin => ?_⟩, ?_, ?_⟩
  · exact (hprop _ (by decide) (by decide) (by decide) ..).trans h.issueFee
  · exact (hprop _ (by decide) (by decide) (by decide) ..).trans h.dayLimit
  · have hne : Address.ofNat i ≠ Address.ofNat k := fun heq => by
      have := Address.ofNat_injective (by omega) (by omega) heq
      omega
    exact (getAccount_putAccount_of_ne _ _ hne).trans (h.accounts i (by omega) hin)
  · exact (getProp_putProp_of_ne _ _ (by decide)).trans (getProp_putProp_self ..)
  · have hget := get_put_self s.asset (s.getTokenIdNum + 1) asset
    exact Option.isSome_of_eq_some hget

/-- The first `k` addresses issue a token each, as long as the counter goes. -/
lemma exists_run_issues {n : Nat} (hn : n ≤ 256 ^ 20) (k : Nat) (hk : k ≤ n) (hmax : 1000000 + k < 2 ^ 63) :
    ∃ ops t, tokens.Run (richAccounts n) ops t ∧ CanIssue n k t ∧ t.getTokenIdNum.toInt = 1000000 + k := by
  induction k with
  | zero => exact ⟨[], _, .nil _, canIssue_richAccounts n, rfl⟩
  | succ k ih =>
    obtain ⟨ops, s, hrun, hcan, hnum⟩ := ih (by omega) (by omega)
    obtain ⟨t, hstep, hcan', hprop, -⟩ := hcan.issue (by omega) hn
    have hone := Int64.toInt_one
    have hnext : (s.getTokenIdNum + 1).toInt = s.getTokenIdNum.toInt + 1 :=
      toInt_add_of_fits ⟨by omega, by omega⟩
    refine ⟨_, t, hrun.snoc hstep, hcan', ?_⟩
    rw [AssetIssueActuator.getTokenIdNum_of_getProp hprop (by omega)]; omega

/-- When as many accounts as there are ids have issued a token, the counter wraps, and the next token
is stored under a negative id. -/
theorem token_id_overflows : ∃ s ops t, tokens.init s ∧ tokens.Run s ops t ∧ ¬ SupplyOk t := by
  have hn : 2 ^ 63 - 1000000 ≤ 256 ^ 20 := by norm_num
  obtain ⟨ops, s, hrun, hcan, hnum⟩ := exists_run_issues hn (2 ^ 63 - 1000001) (by omega) (by omega)
  obtain ⟨t, hstep, -, -, hstored⟩ := hcan.issue (by omega) hn
  refine ⟨_, _, t, noTokens_richAccounts _, hrun.snoc hstep, fun hok => ?_⟩
  have hmax : s.getTokenIdNum = Int64.maxValue := toInt_inj.mp (hnum.trans (by decide))
  rw [hmax] at hstored; have hbound := ((hok.ids _).mp hstored).1; exact absurd hbound (by decide)

end TronRs

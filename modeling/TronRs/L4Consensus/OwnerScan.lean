import TronRs.L4Consensus.Authorization

/-!
# The owner scanner on any bytes

`tx_owner_address` of `crates/chain/src/lib.rs` reads a length without limiting the number of its bytes,
and adds it to the index without a check. `Authorization` looks at it on well-formed messages; here it
runs on whatever the parameter holds.

* `Robust b`: no shift by 64 or more, no addition that overflows, and the field that a varint of at most
  ten bytes announces, or nothing.
* `robust_iff`: for which bytes that is so.
* `long_length_shifts`: an eleventh length byte is shifted by 70.
-/
namespace TronRs.OwnerScan

open TronRs.Core

variable {b l : Bytes} {s acc i j n : Nat}

/-- The amounts by which the length loop shifts. -/
def scanShifts : Nat → Bytes → List Nat
  | _, [] => []
  | shift, x :: rest => shift :: if x.toNat < 128 then [] else scanShifts (shift + 7) rest

/-- The field that the bytes announce: the byte `0x0a`, a 64-bit varint and that many bytes. -/
def announcedField (b : Bytes) : Option Bytes :=
  if b.head? = some 0x0a then (Wire.varint b.tail).bind fun (len, rest) => (Wire.splitAt? len rest).map Prod.fst
  else none

/-- The scanner gets on to the length loop. -/
def Tagged (b : Bytes) : Prop := 2 ≤ b.length ∧ b.head? = some 0x0a

structure Robust (b : Bytes) : Prop where
  shifts : Tagged b → ∀ s ∈ scanShifts 0 b.tail, s < 64
  sum : Tagged b → ∀ len i, scanLength 0 0 1 b.tail = some (len, i) → i + len < 2 ^ 64
  result : ∀ tx, parameterValue tx = some b → txOwnerAddress tx = announcedField b

/-- The length bytes: up to the first one without the continuation bit, or all there are. -/
def lengthBytes : Bytes → Bytes
  | [] => []
  | x :: rest => x :: if x.toNat < 128 then [] else lengthBytes rest

/-- The number that length bytes write, seven bits each and the lowest first. -/
def lengthValue : Bytes → Nat
  | [] => 0
  | x :: rest => x.toNat % 128 + 128 * lengthValue rest

/-- The last length byte is there. -/
def Ends (l : Bytes) : Prop := ∃ x ∈ l, x.toNat < 128

/-- There are at most ten length bytes. If the last of them is there, then the tag, the length bytes and the
number of bytes they write, cut to 64 bits, add up to less than `2 ^ 64`; and if the number is cut, that sum is
more than the bytes there are. -/
def ShortLength (b : Bytes) : Prop :=
  let l := lengthBytes b.tail
  l.length ≤ 10 ∧ (Ends l → 1 + l.length + lengthValue l % 2 ^ 64 < 2 ^ 64 ∧
    (2 ^ 64 ≤ lengthValue l → b.length < 1 + l.length + lengthValue l % 2 ^ 64))

/-! ## How far the loop gets -/

lemma lengthBytes_last {x : UInt8} (h : x.toNat < 128) (b : Bytes) : lengthBytes (x :: b) = [x] := by
  rw [lengthBytes, if_pos h]

lemma lengthBytes_next {x : UInt8} (h : ¬ x.toNat < 128) (b : Bytes) : lengthBytes (x :: b) = x :: lengthBytes b := by
  rw [lengthBytes, if_neg h]

lemma ends_next {x : UInt8} (h : ¬ x.toNat < 128) (l : Bytes) : Ends (x :: l) ↔ Ends l := by
  simp [Ends, h]

lemma length_lengthBytes (b : Bytes) : (lengthBytes b).length ≤ b.length := by
  induction b with
  | nil => exact le_rfl
  | cons x b ih => rw [lengthBytes]; split <;> simp [ih]

lemma scanShifts_lt_iff : (∀ s ∈ scanShifts (7 * j) b, s < 64) ↔ b = [] ∨ (lengthBytes b).length + j ≤ 10 := by
  induction b generalizing j with
  | nil => simp [scanShifts]
  | cons x b ih =>
    rw [scanShifts, List.forall_mem_cons]
    by_cases hx : x.toNat < 128
    · rw [if_pos hx, lengthBytes_last hx]; simp; omega
    · rw [if_neg hx, lengthBytes_next hx, show 7 * j + 7 = 7 * (j + 1) by ring, ih]
      simp only [List.length_cons, reduceCtorEq, false_or]
      constructor
      · rintro ⟨hj, rfl | hb⟩
        · simp [lengthBytes]; omega
        · omega
      · intro hb; exact ⟨by omega, .inr (by omega)⟩

lemma scanLength_of_not_ends (h : ¬ Ends (lengthBytes b)) : scanLength s acc i b = none := by
  induction b generalizing s acc i with
  | nil => rfl
  | cons x b ih =>
    have hx : ¬ x.toNat < 128 := fun hx => h ⟨x, List.mem_cons_self, hx⟩
    rw [lengthBytes_next hx, ends_next hx] at h; simp only [scanLength]; rw [if_neg hx, ih h]

/-- Seven more bits above `acc`; of the tenth seven only one is kept. -/
lemma or_shift_eq_mod {x : Nat} (hacc : acc < 2 ^ (7 * j)) (hx : x < 128) (hj : j ≤ 9) :
    acc ||| (x <<< (7 * j % 64)) % 2 ^ 64 = (acc + x * 2 ^ (7 * j)) % 2 ^ 64 := by
  by_cases hnine : j = 9
  · subst hnine
    have hbit : (x <<< (7 * 9 % 64)) % 2 ^ 64 = ((x % 2) <<< (7 * 9 % 64)) % 2 ^ 64 := by
      simp only [Nat.shiftLeft_eq, Nat.reduceMul, Nat.reduceMod, Nat.reducePow]; omega
    rw [hbit, or_shift_eq_add hacc (by omega) le_rfl]; omega
  · have hfit := seven_bits_fit hx (show j ≤ 8 by omega)
    have hpow : 2 ^ (7 * j) ≤ 2 ^ 56 := Nat.pow_le_pow_right (by omega) (by omega)
    have hle : x * 2 ^ (7 * j) ≤ 127 * 2 ^ 56 := Nat.mul_le_mul (by omega) hpow
    rw [or_shift_eq_add hacc hfit hj, Nat.mod_eq_of_lt (by omega)]

lemma scanLength_of_ends (hacc : acc < 2 ^ (7 * j)) (hten : (lengthBytes b).length + j ≤ 10)
    (h : Ends (lengthBytes b)) : scanLength (7 * j) acc i b =
      some ((acc + lengthValue (lengthBytes b) * 2 ^ (7 * j)) % 2 ^ 64, i + (lengthBytes b).length) := by
  induction b generalizing j acc i with
  | nil => obtain ⟨x, hx, -⟩ := h; cases hx
  | cons x b ih =>
    have hpow : 2 ^ (7 * (j + 1)) = 128 * 2 ^ (7 * j) := by ring
    have hseven : x.toNat % 128 < 128 := Nat.mod_lt _ (by omega)
    simp only [scanLength]
    by_cases hx : x.toNat < 128
    · rw [lengthBytes_last hx, List.length_singleton] at hten ⊢
      rw [if_pos hx, or_shift_eq_mod hacc hseven (by omega), lengthValue, lengthValue, Nat.mul_zero,
        Nat.add_zero (x.toNat % 128)]
    · rw [lengthBytes_next hx] at h hten ⊢; rw [ends_next hx] at h
      rw [List.length_cons] at hten ⊢
      have hpos : 0 < (lengthBytes b).length := by obtain ⟨y, hy, -⟩ := h; exact List.length_pos_of_mem hy
      rw [if_neg hx, or_shift_eq_add hacc (seven_bits_fit hseven (by omega)) (by omega),
        show 7 * j + 7 = 7 * (j + 1) by ring, ih (by rw [hpow]; nlinarith) (by omega) h, lengthValue, hpow]
      congr 2
      · congr 1; ring
      · omega

lemma varintUpTo_of_not_ends (h : ¬ Ends (lengthBytes b)) : Wire.varintUpTo n b = none := by
  induction b generalizing n with
  | nil => cases n <;> rfl
  | cons x b ih =>
    have hx : ¬ x.toNat < 128 := fun hx => h ⟨x, List.mem_cons_self, hx⟩
    rw [lengthBytes_next hx, ends_next hx] at h
    cases n with
    | zero => rfl
    | succ n => rw [Wire.varintUpTo, if_neg hx, ih h]; rfl

/-- A length of at most ten bytes is a varint exactly when its number fits 64 bits. -/
lemma varintUpTo_of_ends (hn : n + j = 10) (hten : (lengthBytes b).length ≤ n) (h : Ends (lengthBytes b)) :
    Wire.varintUpTo n b = if lengthValue (lengthBytes b) * 2 ^ (7 * j) < 2 ^ 64 then
      some (lengthValue (lengthBytes b), b.drop (lengthBytes b).length) else none := by
  induction b generalizing j n with
  | nil => obtain ⟨x, hx, -⟩ := h; cases hx
  | cons x b ih =>
    cases n with
    | zero => rw [lengthBytes] at hten; cases hten
    | succ n =>
      rw [Wire.varintUpTo]
      by_cases hx : x.toNat < 128
      · rw [if_pos hx, lengthBytes_last hx, lengthValue, lengthValue, Nat.mul_zero, Nat.add_zero,
          Nat.mod_eq_of_lt hx]
        by_cases hlast : n = 0
        · obtain rfl : j = 9 := by omega
          by_cases hone : 2 ≤ x.toNat
          · rw [if_pos ⟨hlast, hone⟩, if_neg (by omega)]
          · rw [if_neg (fun hc => hone hc.2), if_pos (by omega)]; rfl
        · rw [if_neg (fun hc => hlast hc.1), if_pos (seven_bits_fit hx (by omega))]; rfl
      · rw [lengthBytes_next hx] at h hten ⊢; rw [ends_next hx] at h
        have hseven : x.toNat % 128 < 128 := Nat.mod_lt _ (by omega)
        -- the low seven bits do not decide whether the number fits
        have hfits : (x.toNat % 128 + 128 * lengthValue (lengthBytes b)) * 2 ^ (7 * j) < 2 ^ 64 ↔
            lengthValue (lengthBytes b) * 2 ^ (7 * (j + 1)) < 2 ^ 64 := by
          have hsplit : (2 : Nat) ^ 64 = 2 ^ (64 - 7 * (j + 1)) * 2 ^ (7 * (j + 1)) := by
            rw [← Nat.pow_add]; congr 1; have := List.length_cons .. ▸ hten; obtain ⟨y, hy, -⟩ := h
            have := List.length_pos_of_mem hy; omega
          have hpow : 2 ^ (7 * (j + 1)) = 128 * 2 ^ (7 * j) := by ring
          rw [hsplit, Nat.mul_lt_mul_right (by positivity), hpow, ← Nat.mul_assoc,
            Nat.mul_lt_mul_right (by positivity)]
          omega
        rw [if_neg hx, ih (j := j + 1) (by omega) (by simpa using hten) h, lengthValue, List.length_cons,
          List.drop_succ_cons]
        by_cases hfit : lengthValue (lengthBytes b) * 2 ^ (7 * (j + 1)) < 2 ^ 64
        · rw [if_pos hfit, if_pos (hfits.mpr hfit)]; rfl
        · rw [if_neg hfit, if_neg (fun hc => hfit (hfits.mp hc))]; rfl

/-! ## When the scanner is robust -/

/-- A transaction whose parameter holds the bytes. -/
def packed (b : Bytes) : Transaction := { rawData := some { contract := [{ parameter := some { value := b } }] } }

lemma robust_result :
    (∀ tx, parameterValue tx = some b → txOwnerAddress tx = announcedField b) ↔ scanOwner b = announcedField b := by
  refine ⟨fun h => h (packed b) rfl, fun h tx hb => ?_⟩; rw [txOwnerAddress, hb, Option.bind_some, h]

lemma robust_of_not_tagged (h : ¬ Tagged b) : Robust b := by
  refine ⟨fun ht => absurd ht h, fun ht => absurd ht h, robust_result.mpr ?_⟩
  rw [scanOwner, if_pos, announcedField]
  · split
    · rename_i hhead
      have hshort : b.tail = [] := List.length_eq_zero_iff.mp (by
        have : ¬ 2 ≤ b.length := fun hlen => h ⟨hlen, hhead⟩
        rw [List.length_tail]; omega)
      rw [hshort]; rfl
    · rfl
  · by_contra hno; rw [not_or, not_lt, not_not] at hno; exact h hno

lemma Tagged.not_none (ht : Tagged b) : ¬ (b.length < 2 ∨ b.head? ≠ some 0x0a) := by
  rw [not_or, not_lt, not_not]; exact ht

lemma Tagged.tail_ne_nil (ht : Tagged b) : b.tail ≠ [] := by
  intro hnil; have := ht.1; rw [← List.length_eq_zero_iff, List.length_tail] at hnil; omega

/-- The result is right unless the number is cut and what is left of it announces bytes that are there. -/
lemma scanOwner_eq_iff (ht : Tagged b) (hl : lengthBytes b.tail = l) (hends : Ends l) (hten : l.length ≤ 10)
    (hsum : 1 + l.length + lengthValue l % 2 ^ 64 < 2 ^ 64) : scanOwner b = announcedField b ↔
      (2 ^ 64 ≤ lengthValue l → b.length < 1 + l.length + lengthValue l % 2 ^ 64) := by
  have hscan : scanOwner b = if 1 + l.length + lengthValue l % 2 ^ 64 ≤ b.length then
      some ((b.drop (1 + l.length)).take (lengthValue l % 2 ^ 64)) else none := by
    rw [scanOwner, if_neg ht.not_none, List.drop_one, scanLength_of_ends (j := 0) Nat.one_pos (by rw [hl]; exact hten)
      (by rw [hl]; exact hends), hl, Option.bind_some, Nat.mul_zero, Nat.pow_zero, Nat.mul_one, Nat.zero_add]
    dsimp only
    rw [Nat.mod_eq_of_lt hsum, List.drop_take, Nat.add_sub_cancel_left]; simp
  have hvarint : Wire.varint b.tail = if lengthValue l < 2 ^ 64 then some (lengthValue l, b.drop (1 + l.length))
      else none := by
    rw [Wire.varint, varintUpTo_of_ends (j := 0) rfl (by rw [hl]; exact hten) (by rw [hl]; exact hends), hl,
      Nat.mul_zero, Nat.pow_zero, Nat.mul_one, ← List.drop_one, List.drop_drop]
  have hroom : 1 + l.length ≤ b.length := by
    have hle := length_lengthBytes b.tail; have := ht.1; rw [hl, List.length_tail] at hle; omega
  rw [hscan, announcedField, if_pos ht.2, hvarint]
  by_cases hcut : 2 ^ 64 ≤ lengthValue l
  · rw [if_neg (Nat.not_lt.mpr hcut), imp_iff_right hcut, Option.bind_none, ite_eq_right_iff]; simp
  · have hlt : lengthValue l < 2 ^ 64 := Nat.lt_of_not_le hcut
    rw [if_pos hlt, Nat.mod_eq_of_lt hlt, Option.bind_some]
    refine iff_of_true ?_ (fun hc => absurd hc hcut); dsimp only
    rw [Wire.splitAt?, List.length_drop]
    by_cases hall : 1 + l.length + lengthValue l ≤ b.length
    · rw [if_pos hall, if_pos (by omega)]; rfl
    · rw [if_neg hall, if_neg (by omega)]; rfl

/-- **When the owner scanner is robust.** Bytes that start with the tag need a length of at most ten bytes that
neither overflows the index nor is cut to one that fits. -/
theorem robust_iff (b : Bytes) : Robust b ↔ (Tagged b → ShortLength b) := by
  by_cases ht : Tagged b
  swap
  · exact ⟨fun _ ht' => absurd ht' ht, fun _ => robust_of_not_tagged ht⟩
  obtain ⟨l, hl⟩ : ∃ l, lengthBytes b.tail = l := ⟨_, rfl⟩
  have hshifts : (∀ s ∈ scanShifts 0 b.tail, s < 64) ↔ l.length ≤ 10 := by
    rw [← hl]; exact (scanShifts_lt_iff (j := 0)).trans (or_iff_right ht.tail_ne_nil)
  rw [imp_iff_right ht, ShortLength, hl]
  by_cases hends : Ends l
  · have hscan (hten : l.length ≤ 10) : scanLength 0 0 1 b.tail = some (lengthValue l % 2 ^ 64, 1 + l.length) := by
      have hscan := scanLength_of_ends (j := 0) (i := 1) Nat.one_pos (by rw [hl]; exact hten) (by rw [hl]; exact hends)
      rwa [hl, Nat.mul_zero, Nat.pow_zero, Nat.mul_one, Nat.zero_add] at hscan
    constructor
    · intro hr
      have hten := hshifts.mp (hr.shifts ht)
      have hsum := hr.sum ht _ _ (hscan hten)
      exact ⟨hten, fun _ => ⟨hsum, (scanOwner_eq_iff ht hl hends hten hsum).mp (robust_result.mp hr.result)⟩⟩
    · intro hs; obtain ⟨hten, hrest⟩ := hs; obtain ⟨hsum, hcut⟩ := hrest hends
      refine ⟨fun _ => hshifts.mpr hten, fun _ _ _ hsome => ?_,
        robust_result.mpr ((scanOwner_eq_iff ht hl hends hten hsum).mpr hcut)⟩
      cases (hscan hten).symm.trans hsome; exact hsum
  · have hnot : ¬ Ends (lengthBytes b.tail) := by rw [hl]; exact hends
    have hresult : scanOwner b = announcedField b := by
      rw [scanOwner, if_neg ht.not_none, List.drop_one, scanLength_of_not_ends hnot, announcedField, if_pos ht.2,
        Wire.varint, varintUpTo_of_not_ends hnot]
      rfl
    refine ⟨fun hr => ⟨hshifts.mp (hr.shifts ht), fun h => absurd h hends⟩, fun hs => ⟨fun _ => hshifts.mpr hs.1,
      fun _ _ _ hsome => ?_, robust_result.mpr hresult⟩⟩
    rw [scanLength_of_not_ends hnot] at hsome; cases hsome

/-- Ten continued length bytes and a last one: the shift by 70 is taken as one by 6, and an empty owner is found. -/
theorem long_length_shifts : 70 ∈ scanShifts 0 (List.replicate 10 0x80 ++ [0]) ∧
    txOwnerAddress (packed (0x0a :: (List.replicate 10 0x80 ++ [0]))) = some [] ∧
    ¬ Robust (0x0a :: (List.replicate 10 0x80 ++ [0])) := by
  refine ⟨by decide, by decide, fun h => ?_⟩
  exact absurd (h.shifts ⟨by decide, rfl⟩ 70 (by decide)) (by decide)

end TronRs.OwnerScan

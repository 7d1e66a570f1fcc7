import Mathlib

/-!
# Byte strings

Big-endian integers, decimal text and UTF-8 with replacement, all on lists of bytes.
Text is kept as its UTF-8 bytes throughout, so a text key and a byte key are compared
the same way.

* `be_injective`: fixed-width big-endian encoding loses nothing below `256 ^ n`.
* `parseI64_decimal`: the text of an integer is read back as that integer.
* `utf8Lossy_of_ascii`: lossy decoding is the identity on ASCII.
-/
namespace TronRs.Core

abbrev Bytes := List UInt8

/-- Comparing byte strings is lawful; a named instance, for membership tests in definitions. -/
instance Bytes.lawfulBEq : LawfulBEq Bytes := inferInstance

namespace Bytes
variable {n x k : Nat} {c : UInt8} {b : Bytes}

/-! ## Big-endian integers -/

/-- The `n` low-order bytes of `x`, most significant first. -/
def be : Nat → Nat → Bytes
  | 0, _ => []
  | n + 1, x => be n (x / 256) ++ [UInt8.ofNat x]

/-- The number a big-endian byte string denotes. -/
def ofBe (b : Bytes) : Nat := b.foldl (fun acc x => acc * 256 + x.toNat) 0

@[simp] lemma length_be (n x : Nat) : (be n x).length = n := by
  induction n generalizing x with
  | zero => rfl
  | succ n ih => simp [be, ih]

lemma ofBe_append_singleton (b : Bytes) (x : UInt8) : ofBe (b ++ [x]) = ofBe b * 256 + x.toNat := by
  simp [ofBe, List.foldl_append]

lemma ofBe_cons (x : UInt8) (b : Bytes) : ofBe (x :: b) = x.toNat * 256 ^ b.length + ofBe b := by
  induction b using List.reverseRecOn with
  | nil => simp [ofBe]
  | append_singleton b y ih =>
    rw [← List.cons_append, ofBe_append_singleton, ofBe_append_singleton, ih, List.length_append, List.length_singleton,
      Nat.pow_succ]
    ring

lemma ofBe_be (h : x < 256 ^ n) : ofBe (be n x) = x := by
  induction n generalizing x with
  | zero => simp only [Nat.pow_zero, Nat.lt_one_iff] at h; subst h; rfl
  | succ n ih =>
    have hx : x / 256 < 256 ^ n := by rw [Nat.pow_succ] at h; exact Nat.div_lt_of_lt_mul (by omega)
    rw [be, ofBe_append_singleton, ih hx, UInt8.toNat_ofNat']; omega

lemma be_ofBe (b : Bytes) : be b.length (ofBe b) = b := by
  induction b using List.reverseRecOn with
  | nil => rfl
  | append_singleton b x ih =>
    have hx : x.toNat < 256 := x.toNat_lt
    rw [List.length_append, List.length_singleton, be, ofBe_append_singleton,
      show (ofBe b * 256 + x.toNat) / 256 = ofBe b by omega, ih]
    refine congrArg (b ++ [·]) (UInt8.toNat_inj.mp ?_); rw [UInt8.toNat_ofNat']; omega

lemma ofBe_lt (b : Bytes) : ofBe b < 256 ^ b.length := by
  induction b using List.reverseRecOn with
  | nil => exact Nat.one_pos
  | append_singleton b x =>
    have hx : x.toNat < 256 := x.toNat_lt
    rw [ofBe_append_singleton, List.length_append, List.length_singleton, Nat.pow_succ]; omega

lemma be_injective {y : Nat} (hx : x < 256 ^ n) (hy : y < 256 ^ n) (h : be n x = be n y) : x = y := by
  rw [← ofBe_be hx, ← ofBe_be hy, h]

/-- The number in the first `n` bytes, and the rest. -/
def takeBe (n : Nat) (b : Bytes) : Nat × Bytes := (ofBe (b.take n), b.drop n)

lemma takeBe_be (h : x < 256 ^ n) (b : Bytes) : takeBe n (be n x ++ b) = (x, b) := by
  rw [takeBe, List.take_left' (length_be n x), List.drop_left' (length_be n x), ofBe_be h]

lemma ofBe_take_lt (n : Nat) (b : Bytes) : ofBe (b.take n) < 256 ^ n :=
  (ofBe_lt _).trans_le (Nat.pow_le_pow_right (by decide) (List.length_take_le n b))

lemma be_take_append_drop (h : n ≤ b.length) : be n (ofBe (b.take n)) ++ b.drop n = b := by
  have hlen : (b.take n).length = n := List.length_take_of_le h
  conv => enter [1, 1, 1]; rw [← hlen]
  rw [be_ofBe, List.take_append_drop]

/-! ## Chunks -/

/-- The consecutive chunks of `k` bytes; a shorter remainder is dropped. -/
def chunksExact (k : Nat) (b : Bytes) : List Bytes :=
  (List.range (b.length / k)).map fun i => (b.drop (k * i)).take k

@[simp] lemma length_chunksExact (k : Nat) (b : Bytes) : (chunksExact k b).length = b.length / k := by
  simp [chunksExact]

lemma chunksExact_append {c : Bytes} (hk : 0 < k) (hc : c.length = k) (b : Bytes) :
    chunksExact k (c ++ b) = c :: chunksExact k b := by
  have hlen : (c ++ b).length / k = b.length / k + 1 := by
    rw [List.length_append, hc, Nat.add_comm, Nat.add_div_right _ hk]
  rw [chunksExact, hlen, List.range_succ_eq_map, List.map_cons, List.map_map]
  congr 1
  · simp [← hc]
  · refine List.map_congr_left fun i _ => ?_
    have hdrop : k * (i + 1) = c.length + k * i := by rw [hc, Nat.mul_add, Nat.mul_one, Nat.add_comm]
    show ((c ++ b).drop (k * (i + 1))).take k = _; rw [hdrop, List.drop_length_add_append]

/-- Chunks that were joined come apart again. -/
lemma chunksExact_flatMap {α : Type} {f : α → Bytes} (hk : 0 < k) (hf : ∀ a, (f a).length = k) (l : List α) :
    chunksExact k (l.flatMap f) = l.map f := by
  induction l with
  | nil => simp [chunksExact]
  | cons a l ih => rw [List.flatMap_cons, chunksExact_append hk (hf a), ih, List.map_cons]

/-! ## Decimal text -/

/-- The decimal digits of a natural number, as ASCII. -/
def decimalNat (n : Nat) : Bytes :=
  if n = 0 then [48] else (Nat.digits 10 n).reverse.map fun d => UInt8.ofNat (48 + d)

/-- The text of a 64-bit integer. -/
def decimal (x : Int64) : Bytes :=
  if x.toInt < 0 then 45 :: decimalNat x.toInt.natAbs else decimalNat x.toInt.natAbs

/-- Reads a non-empty string of ASCII digits. -/
def parseDigits (b : Bytes) : Option Nat :=
  if b ≠ [] ∧ b.all (fun c => 48 ≤ c && c ≤ 57) then
    some (b.foldl (fun acc c => acc * 10 + (c.toNat - 48)) 0)
  else none

/-- Reads a 64-bit integer: an optional sign, then digits, within range. -/
def parseI64 (b : Bytes) : Option Int64 :=
  let signed : Option Int :=
    match b with
    | 45 :: ds => (parseDigits ds).map fun n => -(n : Int)
    | 43 :: ds => (parseDigits ds).map fun n => (n : Int)
    | ds => (parseDigits ds).map fun n => (n : Int)
  signed.bind fun x => if -2 ^ 63 ≤ x ∧ x < 2 ^ 63 then some (Int64.ofInt x) else none

lemma toNat_digit {d : Nat} (h : d < 10) : (UInt8.ofNat (48 + d)).toNat = 48 + d := by
  rw [UInt8.toNat_ofNat', Nat.mod_eq_of_lt (by omega)]

lemma digit_of_mem_decimalNat (h : c ∈ decimalNat n) : 48 ≤ c.toNat ∧ c.toNat ≤ 57 := by
  unfold decimalNat at h
  split at h
  · rw [List.mem_singleton] at h; rw [h]; decide
  · rw [List.mem_map] at h; obtain ⟨d, hd, rfl⟩ := h
    have hlt : d < 10 := Nat.digits_lt_base (by decide) (List.mem_reverse.mp hd)
    rw [toNat_digit hlt]; omega

lemma decimalNat_ne_nil (n : Nat) : decimalNat n ≠ [] := by
  unfold decimalNat
  split
  · nofun
  · rename_i hn; rw [ne_eq, List.map_eq_nil_iff, List.reverse_eq_nil_iff]
    exact Nat.digits_ne_nil_iff_ne_zero.mpr hn

/-- The digits of a number, read from the most significant one. -/
lemma foldl_digits (ds : List Nat) (h : ∀ d ∈ ds, d < 10) :
    (ds.reverse.map fun d => UInt8.ofNat (48 + d)).foldl (fun acc c => acc * 10 + (c.toNat - 48)) 0 =
      Nat.ofDigits 10 ds := by
  induction ds with
  | nil => rfl
  | cons d ds ih =>
    rw [List.forall_mem_cons] at h
    rw [List.reverse_cons, List.map_append, List.foldl_append, ih h.2, Nat.ofDigits_cons]
    show Nat.ofDigits 10 ds * 10 + ((UInt8.ofNat (48 + d)).toNat - 48) = _; rw [toNat_digit h.1]; omega

lemma parseDigits_decimalNat (n : Nat) : parseDigits (decimalNat n) = some n := by
  have hall : (decimalNat n).all (fun c => 48 ≤ c && c ≤ 57) = true := by
    rw [List.all_eq_true]; intro c hc; obtain ⟨hlo, hhi⟩ := digit_of_mem_decimalNat hc
    rw [Bool.and_eq_true, decide_eq_true_eq, decide_eq_true_eq]
    exact ⟨UInt8.le_iff_toNat_le.mpr hlo, UInt8.le_iff_toNat_le.mpr hhi⟩
  rw [parseDigits, if_pos ⟨decimalNat_ne_nil n, hall⟩]; unfold decimalNat
  split
  · rename_i hn; rw [hn]; rfl
  · rw [foldl_digits _ fun d hd => Nat.digits_lt_base (by decide) hd, Nat.ofDigits_digits]

/-- **Decimal text is read back.** -/
theorem parseI64_decimal (x : Int64) : parseI64 (decimal x) = some x := by
  have hlo := x.le_toInt
  have hhi := x.toInt_lt; unfold decimal
  split
  · have habs : -(x.toInt.natAbs : Int) = x.toInt := by omega
    unfold parseI64
    split
    · rename_i ds heq; cases heq
      simp only [parseDigits_decimalNat, Option.bind_eq_bind, Option.bind_some, Option.pure_def, Option.map_some, habs]
      rw [if_pos ⟨hlo, hhi⟩, Int64.ofInt_toInt]
    · rename_i heq; exact absurd (List.cons.inj heq).1 (by decide)
    · rename_i hne _; exact absurd rfl (hne _)
  · -- the first byte is a digit, not a sign
    have habs : (x.toInt.natAbs : Int) = x.toInt := by omega
    have hread := parseDigits_decimalNat x.toInt.natAbs
    cases hd : decimalNat x.toInt.natAbs with
    | nil => exact absurd hd (decimalNat_ne_nil _)
    | cons c ds =>
      have hc : 48 ≤ c.toNat := (digit_of_mem_decimalNat (n := x.toInt.natAbs) (hd ▸ List.mem_cons_self ..)).1
      rw [hd] at hread; unfold parseI64
      split
      · rename_i heq; cases heq; exact absurd hc (by decide)
      · rename_i heq; cases heq; exact absurd hc (by decide)
      · simp only [hread, Option.bind_eq_bind, Option.bind_some, Option.pure_def, Option.map_some, habs]
        rw [if_pos ⟨hlo, hhi⟩, Int64.ofInt_toInt]

lemma decimal_injective {x y : Int64} (h : decimal x = decimal y) : x = y := by
  have hx := parseI64_decimal x; rw [h, parseI64_decimal] at hx; exact (Option.some.inj hx).symm

lemma decimal_ne_nil (x : Int64) : decimal x ≠ [] := by
  unfold decimal
  split
  · exact List.cons_ne_nil _ _
  · exact decimalNat_ne_nil _

lemma ascii_of_mem_decimal {x : Int64} (h : c ∈ decimal x) : c < 0x80 := by
  have hdigit : ∀ n, c ∈ decimalNat n → c < 0x80 := fun n hc =>
    UInt8.lt_iff_toNat_lt.mpr (Nat.lt_of_le_of_lt (digit_of_mem_decimalNat hc).2 (by decide))
  unfold decimal at h
  split at h
  · rcases List.mem_cons.mp h with rfl | h
    · decide
    · exact hdigit _ h
  · exact hdigit _ h

/-! ## UTF-8 -/

def isCont (b : UInt8) : Bool := 0x80 ≤ b && b ≤ 0xbf

/-- The second byte a three-byte sequence starting with `b` may have. -/
def second3 (b c : UInt8) : Bool :=
  if b = 0xe0 then 0xa0 ≤ c && c ≤ 0xbf
  else if b = 0xed then 0x80 ≤ c && c ≤ 0x9f
  else isCont c

/-- The second byte a four-byte sequence starting with `b` may have. -/
def second4 (b c : UInt8) : Bool :=
  if b = 0xf0 then 0x90 ≤ c && c ≤ 0xbf
  else if b = 0xf4 then 0x80 ≤ c && c ≤ 0x8f
  else isCont c

/-- The first sequence of a byte string: whether it is a well-formed character, and how
many bytes it takes (for a malformed one, the bytes that are replaced together). -/
def utf8Head : Bytes → Bool × Nat
  | [] => (false, 0)
  | b :: rest =>
    if b < 0x80 then (true, 1)
    else if 0xc2 ≤ b ∧ b ≤ 0xdf then
      match rest with
      | c :: _ => if isCont c then (true, 2) else (false, 1)
      | [] => (false, 1)
    else if 0xe0 ≤ b ∧ b ≤ 0xef then
      match rest with
      | c :: d :: _ => if second3 b c then (if isCont d then (true, 3) else (false, 2)) else (false, 1)
      | [c] => (false, if second3 b c then 2 else 1)
      | [] => (false, 1)
    else if 0xf0 ≤ b ∧ b ≤ 0xf4 then
      match rest with
      | c :: d :: e :: _ =>
        if second4 b c then
          if isCont d then (if isCont e then (true, 4) else (false, 3)) else (false, 2)
        else (false, 1)
      | [c, d] => (false, if second4 b c then (if isCont d then 3 else 2) else 1)
      | [c] => (false, if second4 b c then 2 else 1)
      | [] => (false, 1)
    else (false, 1)

/-- The replacement character U+FFFD. -/
def replacement : Bytes := [0xef, 0xbf, 0xbd]

def utf8LossyAux : Nat → Bytes → Bytes
  | 0, _ => []
  | _, [] => []
  | fuel + 1, b =>
    let (ok, n) := utf8Head b
    (if ok then b.take n else replacement) ++ utf8LossyAux fuel (b.drop n)

/-- Text with every malformed sequence replaced. -/
def utf8Lossy (b : Bytes) : Bytes := utf8LossyAux b.length b

def isUtf8Aux : Nat → Bytes → Bool
  | _, [] => true
  | 0, _ => false
  | fuel + 1, b => (utf8Head b).1 && isUtf8Aux fuel (b.drop (utf8Head b).2)

/-- The bytes are well-formed UTF-8. -/
def isUtf8 (b : Bytes) : Bool := isUtf8Aux b.length b

lemma utf8Lossy_of_ascii (h : ∀ c ∈ b, c < 0x80) : utf8Lossy b = b := by
  unfold utf8Lossy
  induction b with
  | nil => rfl
  | cons c b ih =>
    have hc : c < 0x80 := h c (List.mem_cons_self ..)
    have hrest := ih fun x hx => h x (List.mem_cons_of_mem _ hx)
    simp only [List.length_cons, utf8LossyAux, utf8Head, if_pos hc, if_true, List.take_succ_cons,
      List.take_zero, List.drop_succ_cons, List.drop_zero, hrest, List.singleton_append]

lemma isUtf8_of_ascii (h : ∀ c ∈ b, c < 0x80) : isUtf8 b = true := by
  unfold isUtf8
  induction b with
  | nil => rfl
  | cons c b ih =>
    have hc : c < 0x80 := h c (List.mem_cons_self ..)
    have hrest := ih fun x hx => h x (List.mem_cons_of_mem _ hx)
    simp only [List.length_cons, isUtf8Aux, utf8Head, if_pos hc, List.drop_succ_cons, List.drop_zero, hrest,
      Bool.and_self]

end Bytes
end TronRs.Core

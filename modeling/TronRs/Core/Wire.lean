import TronRs.Core.Bytes

/-!
# The protobuf wire format

A message is a sequence of fields, each a key (field number and wire type) and a payload.
`fields` reads a byte string as such a sequence: fields may come in any order, a number may
occur more than once, and a group is skipped with everything in it. `lastLen n` is the
payload a decoder keeps for a singular length-delimited field `n`: the last occurrence wins.
-/
namespace TronRs.Core.Wire

/-- The payload of a field. -/
inductive Payload where
  | varint (n : Nat)
  | fixed (b : Bytes)
  | len (b : Bytes)
  deriving DecidableEq

/-- A base-128 varint of at most `n` bytes; the last byte a 64-bit value has room for carries
one bit. -/
def varintUpTo : Nat → Bytes → Option (Nat × Bytes)
  | 0, _ => none
  | _, [] => none
  | n + 1, x :: rest =>
    if x.toNat < 128 then
      if n = 0 ∧ 2 ≤ x.toNat then none else some (x.toNat, rest)
    else (varintUpTo n rest).map fun (v, rest) => (x.toNat % 128 + 128 * v, rest)

/-- A 64-bit varint. -/
def varint (b : Bytes) : Option (Nat × Bytes) := varintUpTo 10 b

/-- A field key: the field number and the wire type. -/
def key (b : Bytes) : Option (Nat × Nat × Bytes) :=
  (varint b).bind fun (k, rest) =>
    if k < 2 ^ 32 ∧ 8 ≤ k then some (k / 8, k % 8, rest) else none

/-- The first `n` bytes and the rest, when there are that many. -/
def splitAt? (n : Nat) (b : Bytes) : Option (Bytes × Bytes) :=
  if n ≤ b.length then some (b.take n, b.drop n) else none

/-- Reads the fields after some groups have been opened; only fields outside every group
are kept. -/
def fieldsAux : Nat → List Nat → Bytes → Option (List (Nat × Payload))
  | _, [], [] => some []
  | _, _ :: _, [] => none
  | 0, _, _ => none
  | fuel + 1, opened, b =>
    (key b).bind fun (num, wt, rest) =>
      let keep (p : Payload) (fs : List (Nat × Payload)) := if opened = [] then (num, p) :: fs else fs
      match wt with
      | 0 => (varint rest).bind fun (v, rest) => (fieldsAux fuel opened rest).map (keep (.varint v))
      | 1 => (splitAt? 8 rest).bind fun (p, rest) => (fieldsAux fuel opened rest).map (keep (.fixed p))
      | 2 => (varint rest).bind fun (n, rest) => (splitAt? n rest).bind fun (p, rest) =>
          (fieldsAux fuel opened rest).map (keep (.len p))
      | 3 => fieldsAux fuel (num :: opened) rest
      | 4 => match opened with
        | o :: os => if o = num then fieldsAux fuel os rest else none
        | [] => none
      | 5 => (splitAt? 4 rest).bind fun (p, rest) => (fieldsAux fuel opened rest).map (keep (.fixed p))
      | _ => none

/-- The fields of a message, in the order they are written. -/
def fields (b : Bytes) : Option (List (Nat × Payload)) := fieldsAux b.length [] b

/-- The payload kept for a singular length-delimited field. -/
def lastLen (n : Nat) (fs : List (Nat × Payload)) : Option Bytes :=
  fs.foldl (fun acc f =>
    match f with
    | (m, .len p) => if m = n then some p else acc
    | _ => acc) none

/-! ## Writing -/

/-- The bytes of a varint, at most `n` of them. -/
def putVarint : Nat → Nat → Bytes
  | 0, _ => []
  | n + 1, v => if v < 128 then [UInt8.ofNat v] else UInt8.ofNat (v % 128 + 128) :: putVarint n (v / 128)

/-- A length-delimited field, as it is written. -/
def lenField (num : Nat) (p : Bytes) : Bytes := putVarint 10 (8 * num + 2) ++ putVarint 10 p.length ++ p

lemma length_putVarint_le (n v : Nat) : (putVarint n v).length ≤ n := by
  induction n generalizing v with
  | zero => exact Nat.le_refl 0
  | succ n ih =>
    unfold putVarint
    split
    · simp
    · exact Nat.succ_le_succ (ih _)

/-- A field takes its payload and at most twenty bytes more. -/
lemma length_lenField (num : Nat) (p : Bytes) :
    p.length ≤ (lenField num p).length ∧ (lenField num p).length ≤ p.length + 20 := by
  have hkey := length_putVarint_le 10 (8 * num + 2)
  have hlen := length_putVarint_le 10 p.length; simp only [lenField, List.length_append]; omega

lemma length_putVarint_small {v : Nat} (h : v < 128) : (putVarint 10 v).length = 1 := by
  rw [putVarint, if_pos h, List.length_singleton]

lemma length_putVarint_two {v : Nat} (h : 128 ≤ v) (h2 : v < 16384) : (putVarint 10 v).length = 2 := by
  rw [putVarint, if_neg (by omega), putVarint, if_pos (by omega)]; rfl

/-- A field of bytes, left out when there are none. -/
def bytesField (num : Nat) (p : Bytes) : Bytes := if p = [] then [] else lenField num p

/-- An integer field, left out when it is zero; a negative one takes all 64 bits. -/
def intField (num : Nat) (v : Int64) : Bytes :=
  if v = 0 then [] else putVarint 10 (8 * num) ++ putVarint 10 v.toUInt64.toNat

lemma length_bytesField_small {n : Nat} {p : Bytes} (hn : n < 15) (hp : 0 < p.length) (hlen : p.length < 128) :
    (bytesField n p).length = 2 + p.length := by
  have hne : p ≠ [] := List.length_pos_iff.mp hp
  rw [bytesField, if_neg hne, lenField, List.length_append, List.length_append,
    length_putVarint_small (by omega), length_putVarint_small hlen]

/-- The number of a field below 16 takes one byte, whichever it is. -/
lemma length_intField {num : Nat} (hnum : num < 16) (v : Int64) : (intField num v).length = (intField 1 v).length := by
  unfold intField
  split
  · rfl
  · rw [List.length_append, List.length_append, length_putVarint_small (show 8 * num < 128 by omega),
      length_putVarint_small (show 8 * 1 < 128 by decide)]

lemma length_intField_le (v : Int64) : (intField 1 v).length ≤ 11 := by
  unfold intField
  split
  · exact Nat.zero_le _
  · have := length_putVarint_le 10 v.toUInt64.toNat
    rw [List.length_append, length_putVarint_small (by decide)]; omega

lemma varint_small {x : UInt8} (h : x.toNat < 128) (rest : Bytes) : varint (x :: rest) = some (x.toNat, rest) := by
  simp [varint, varintUpTo, h]

end TronRs.Core.Wire

import TronRs.Core.Effect
import TronRs.Core.Stream
import TronRs.L1State.Chain

/-!
# Frames on a channel

`crates/p2p/src/message.rs` and the framing of `crates/p2p/src/channel.rs`: a frame is a type byte
and a payload, and travels behind its length in four bytes. Both ends of a frame check its size, the
reader alone refuses it: `write_frame` writes any frame, and the length it announces is cut to 32 bits.

* `readFrame_writeFrame_iff`: a frame is read back exactly when its payload is within
  `MAX_MESSAGE_SIZE`.
* `framing`: so is a whole stream of them, in any chunks; a frame takes four bytes and what they announce,
  and a larger buffer than the limit is never asked for.
* `decodeNumbers_encodeNumbers`: the block numbers of an inventory or a request are read back.
-/
namespace TronRs

open TronRs.Core
open Reader (readExact poll_bind_eq_ok andThen)

/-- Mirrors p2p/message.rs:10. -/
inductive MessageType where
  | trx
  | block
  | trxs
  | blocks
  | blockHeaders
  | inventory
  | fetchInvData
  | syncBlockChain
  | blockChainInventory
  | fetchBlockHeaders
  | blockInventory
  | trxInventory
  | pbftCommit
  | p2pHello
  | p2pDisconnect
  | p2pPing
  | p2pPong
  deriving DecidableEq

namespace MessageType

/-- The type byte. -/
def code : MessageType → UInt8
  | trx => 0x01
  | block => 0x02
  | trxs => 0x03
  | blocks => 0x04
  | blockHeaders => 0x05
  | inventory => 0x06
  | fetchInvData => 0x07
  | syncBlockChain => 0x08
  | blockChainInventory => 0x09
  | fetchBlockHeaders => 0x11
  | blockInventory => 0x12
  | trxInventory => 0x13
  | pbftCommit => 0x14
  | p2pHello => 0x20
  | p2pDisconnect => 0x21
  | p2pPing => 0x22
  | p2pPong => 0x23

/-- Mirrors p2p/message.rs:32. -/
def fromU8 (b : UInt8) : Option MessageType :=
  match b.toNat with
  | 0x01 => some trx
  | 0x02 => some block
  | 0x03 => some trxs
  | 0x04 => some blocks
  | 0x05 => some blockHeaders
  | 0x06 => some inventory
  | 0x07 => some fetchInvData
  | 0x08 => some syncBlockChain
  | 0x09 => some blockChainInventory
  | 0x11 => some fetchBlockHeaders
  | 0x12 => some blockInventory
  | 0x13 => some trxInventory
  | 0x14 => some pbftCommit
  | 0x20 => some p2pHello
  | 0x21 => some p2pDisconnect
  | 0x22 => some p2pPing
  | 0x23 => some p2pPong
  | _ => none

@[simp] lemma fromU8_code (k : MessageType) : fromU8 k.code = some k := by
  cases k <;> rfl

end MessageType

/-- Mirrors p2p/message.rs:59. -/
structure Frame where
  kind : MessageType
  payload : Bytes
  deriving DecidableEq

def maxMessageSize : Nat := 5 * 1024 * 1024

/-- Mirrors p2p/message.rs:69. -/
inductive FrameError where
  | empty
  | unknownType (b : UInt8)
  | tooLarge (size : Nat)
  deriving DecidableEq

/-- Mirrors p2p/channel.rs:12; the one I/O error of a reliable stream is its end. -/
inductive ChannelError where
  | unexpectedEof
  | frame (e : FrameError)
  | tooLarge (size : Nat)
  deriving DecidableEq

namespace Frame

/-- Mirrors p2p/message.rs:82. -/
def encode (f : Frame) : Bytes := f.kind.code :: f.payload

/-- Mirrors p2p/message.rs:91. -/
def decode : Bytes → Except FrameError Frame
  | [] => .error .empty
  | first :: rest => do
    ensure (rest.length ≤ maxMessageSize) (FrameError.tooLarge rest.length)
    let kind ← orThrow (MessageType.fromU8 first) (FrameError.unknownType first)
    pure ⟨kind, rest⟩

end Frame

/-- The bytes a frame puts on the stream. Mirrors p2p/channel.rs:25. -/
def writeFrame (f : Frame) : Bytes := Bytes.be 4 (UInt32.ofNat f.encode.length).toNat ++ f.encode

/-- Mirrors p2p/channel.rs:37. -/
def readFrame : Reader ChannelError Frame := do
  let lenBuf ← readExact 4 .unexpectedEof
  let len := Bytes.ofBe lenBuf
  Reader.lift (ensure (len ≤ maxMessageSize + 1) (ChannelError.tooLarge len))
  let body ← readExact len .unexpectedEof
  Reader.lift ((Frame.decode body).mapError .frame)

/-- Mirrors p2p/channel.rs:64. -/
def encodeNumbers (nums : List Int64) : Bytes := nums.flatMap numberBytes

/-- Mirrors p2p/channel.rs:72. -/
def decodeNumbers (bytes : Bytes) : List Int64 := (Bytes.chunksExact 8 bytes).map numberOf

variable {f : Frame} (nums : List Int64)

/-! ## Round trips -/

lemma Frame.decode_encode (h : f.payload.length ≤ maxMessageSize) : decode f.encode = .ok f := by
  simp [decode, encode, ensure, orThrow, if_pos h, bind, Except.bind, pure, Except.pure]

lemma MessageType.code_of_fromU8 {b : UInt8} {k : MessageType} (h : fromU8 b = some k) : k.code = b := by
  unfold fromU8 at h; split at h <;> cases h <;> exact UInt8.toNat_inj.mp (Eq.symm ‹b.toNat = _›)

/-- **Frames on the wire.** What decodes to a frame is its encoding, with a payload within the limit. -/
theorem Frame.decode_eq_ok_iff {b : Bytes} : decode b = .ok f ↔ f.encode = b ∧ f.payload.length ≤ maxMessageSize := by
  constructor
  · intro h
    cases b with
    | nil => cases h
    | cons first rest =>
      simp only [decode, check_rules] at h; obtain ⟨_, hlen, kind, hkind, rfl⟩ := h
      exact ⟨by rw [encode, MessageType.code_of_fromU8 hkind], hlen⟩
  · rintro ⟨rfl, hlen⟩; exact decode_encode hlen

/-- What is decoded is within the limit. -/
lemma Frame.length_of_decode {b : Bytes} (h : decode b = .ok f) : f.payload.length ≤ maxMessageSize := by
  cases b with
  | nil => cases h
  | cons => simp only [decode, check_rules] at h; obtain ⟨_, hlen, kind, _, rfl⟩ := h; exact hlen

/-- What is read is within the limit. -/
lemma length_of_readFrame {s t : Stream} (h : readFrame.poll s = some (.ok f, t)) :
    f.payload.length ≤ maxMessageSize := by
  obtain ⟨lenBuf, _, _, h⟩ := poll_bind_eq_ok.mp h
  obtain ⟨_, _, _, h⟩ := poll_bind_eq_ok.mp h
  obtain ⟨body, _, _, h⟩ := poll_bind_eq_ok.mp h
  exact Frame.length_of_decode (mapError_eq_ok.mp (Prod.mk.inj (Option.some.inj h)).1)

/-- The length that is read in front of a frame, unless it was cut. -/
lemma reads_length (h : f.encode.length < 2 ^ 32) :
    (readExact 4 ChannelError.unexpectedEof).Reads (Bytes.be 4 (UInt32.ofNat f.encode.length).toNat)
        (Bytes.be 4 f.encode.length) ∧ Bytes.ofBe (Bytes.be 4 f.encode.length) = f.encode.length := by
  have hread := Reader.reads_readExact (Bytes.be 4 f.encode.length) ChannelError.unexpectedEof
  rw [Bytes.length_be] at hread; rw [UInt32.toNat_ofNat', Nat.mod_eq_of_lt h]
  exact ⟨hread, Bytes.ofBe_be h⟩

lemma readFrame_writeFrame (h : f.payload.length ≤ maxMessageSize) : readFrame.Reads (writeFrame f) f := by
  have hlen : f.encode.length = f.payload.length + 1 := rfl
  have hmax : maxMessageSize = 5242880 := rfl
  obtain ⟨hread, hvalue⟩ := reads_length (f := f) (by omega)
  refine hread.bind ?_
  have hcheck : (ensure (f.encode.length ≤ maxMessageSize + 1) (ChannelError.tooLarge f.encode.length) :
      Except ChannelError Unit) = .ok () := ensure_eq_ok.mpr (by omega)
  dsimp only; rw [hvalue, hcheck]; refine Reader.Reads.bind .lift ?_
  have hdecode : Reader.Reads (Reader.lift ((Frame.decode f.encode).mapError ChannelError.frame)) [] f := by
    rw [Frame.decode_encode h]; exact .lift
  have hbody := (Reader.reads_readExact f.encode ChannelError.unexpectedEof).bind
    (f := fun body => Reader.lift ((Frame.decode body).mapError ChannelError.frame)) hdecode
  rwa [List.append_nil] at hbody

/-- A frame over the limit is refused on its length. -/
lemma readFrame_tooLarge (h : maxMessageSize < f.payload.length) (hfits : f.encode.length < 2 ^ 32)
    (rest : Bytes) (ended : Bool) : readFrame.poll ⟨writeFrame f ++ rest, ended⟩ =
      some (.error (.tooLarge f.encode.length), ⟨f.encode ++ rest, ended⟩) := by
  have hlen : f.encode.length = f.payload.length + 1 := rfl
  obtain ⟨hread, hvalue⟩ := reads_length hfits
  have hcheck : (ensure (f.encode.length ≤ maxMessageSize + 1) (ChannelError.tooLarge f.encode.length) :
      Except ChannelError Unit) = .error (.tooLarge f.encode.length) := ensure_eq_error.mpr ⟨by omega, rfl⟩
  rw [writeFrame, List.append_assoc]; refine (Reader.poll_bind_of_ok (hread _ _)).trans ?_; dsimp only
  rw [hvalue, hcheck]; rfl

lemma readFrame_writeFrame_iff : readFrame.Reads (writeFrame f) f ↔ f.payload.length ≤ maxMessageSize := by
  refine ⟨fun h => ?_, readFrame_writeFrame⟩; exact length_of_readFrame (h [] true)

lemma decodeNumbers_encodeNumbers : decodeNumbers (encodeNumbers nums) = nums := by
  rw [decodeNumbers, encodeNumbers, Bytes.chunksExact_flatMap (by decide) length_numberBytes, List.map_map]
  simp [Function.comp_def, numberOf_numberBytes]

lemma length_encodeNumbers : (encodeNumbers nums).length = 8 * nums.length := by
  rw [encodeNumbers, List.length_flatMap, List.map_congr_left fun n _ => length_numberBytes n, List.map_const',
    List.sum_replicate, smul_eq_mul, Nat.mul_comm]

lemma length_decodeNumbers (b : Bytes) : (decodeNumbers b).length = b.length / 8 := by
  rw [decodeNumbers, List.length_map, Bytes.length_chunksExact]

/-- **Any payload of numbers.** The numbers that are read from a payload are its whole groups of eight
bytes; a shorter rest is dropped. -/
theorem encodeNumbers_decodeNumbers (b : Bytes) : encodeNumbers (decodeNumbers b) = b.take (8 * (b.length / 8)) := by
  generalize hq : b.length / 8 = q
  induction q generalizing b with
  | zero =>
    have hnil : decodeNumbers b = [] := List.eq_nil_of_length_eq_zero ((length_decodeNumbers b).trans hq)
    rw [hnil, Nat.mul_zero, List.take_zero]; rfl
  | succ q ih =>
    have hlen : (b.take 8).length = 8 := by rw [List.length_take]; omega
    have hrest : (b.drop 8).length / 8 = q := by rw [List.length_drop]; omega
    have hdec : decodeNumbers b = numberOf (b.take 8) :: decodeNumbers (b.drop 8) := by
      conv_lhs => rw [← List.take_append_drop 8 b]
      rw [decodeNumbers, Bytes.chunksExact_append (by decide) hlen, List.map_cons]; rfl
    have henc := ih (b.drop 8) hrest
    rw [hdec, encodeNumbers, List.flatMap_cons, numberBytes_numberOf hlen, ← encodeNumbers, henc,
      Nat.mul_succ, Nat.add_comm, List.take_add]

/-- A frame within the limit is read, whether or not it is the last one. -/
lemma poll_writeFrame (h : f.payload.length ≤ maxMessageSize) (ended : Bool) :
    readFrame.poll ⟨writeFrame f, ended⟩ = some (.ok f, ⟨[], ended⟩) := by
  have hread := readFrame_writeFrame h [] ended; rwa [List.append_nil] at hread

lemma length_one_number (n : Int64) : (encodeNumbers [n]).length ≤ maxMessageSize := by
  rw [length_encodeNumbers, List.length_singleton]; decide

/-! ## A stream of frames -/

/-- `read_frame` with the allocation of the body buffer, and the reading into it, left open. -/
def readFrameWith (body : Nat → Reader ChannelError Bytes) : Reader ChannelError Frame := do
  let lenBuf ← readExact 4 .unexpectedEof
  let len := Bytes.ofBe lenBuf
  Reader.lift (ensure (len ≤ maxMessageSize + 1) (ChannelError.tooLarge len))
  let body ← body len
  Reader.lift ((Frame.decode body).mapError .frame)

/-- What a larger buffer would do makes no difference. -/
lemma poll_readFrameWith {body : Nat → Reader ChannelError Bytes}
    (h : ∀ n ≤ maxMessageSize + 1, body n = readExact n .unexpectedEof) (s : Stream) :
    (readFrameWith body).poll s = readFrame.poll s := by
  refine congrArg (Option.bind _) (funext fun p => ?_); obtain ⟨r, t⟩ := p
  cases r with
  | error => rfl
  | ok lenBuf =>
    by_cases hlen : Bytes.ofBe lenBuf ≤ maxMessageSize + 1
    · show (andThen _ fun _ => andThen (body _) _).poll t = _; rw [h _ hlen]; rfl
    · show (andThen (Reader.lift (ensure _ _)) _).poll t = (andThen (Reader.lift (ensure _ _)) _).poll t
      rw [ensure_neg hlen]; rfl

/-- A frame that was read took four bytes and as many as they announce. -/
lemma readFrame_consumes {s t : Stream} (h : readFrame.poll s = some (.ok f, t)) :
    Bytes.ofBe (s.arrived.take 4) ≤ maxMessageSize + 1 ∧ 4 + Bytes.ofBe (s.arrived.take 4) ≤ s.arrived.length ∧
      t = { s with arrived := s.arrived.drop (4 + Bytes.ofBe (s.arrived.take 4)) } := by
  obtain ⟨lenBuf, u, hlen, h⟩ := poll_bind_eq_ok.mp h
  obtain ⟨_, u', hcheck, h⟩ := poll_bind_eq_ok.mp h
  obtain ⟨body, v, hbody, h⟩ := poll_bind_eq_ok.mp h
  obtain ⟨hfour, rfl, rfl⟩ := Reader.readExact_eq_ok.mp hlen
  obtain ⟨hok, rfl⟩ := Prod.mk.inj (Option.some.inj hcheck)
  obtain ⟨hle, -, rfl⟩ := Reader.readExact_eq_ok.mp hbody
  obtain ⟨-, rfl⟩ := Prod.mk.inj (Option.some.inj h)
  rw [List.length_drop] at hle; exact ⟨ensure_eq_ok.mp hok, by omega, by rw [List.drop_drop]⟩

/-- **Framing.** Frames within the limit are read back one by one in any chunks, and then the end is met; on any
stream a call that returns a frame has taken what its length announces, and no buffer exceeds the limit. -/
theorem framing : (∀ (fs : List Frame) (chunks : List Bytes) (n : Nat), (∀ f ∈ fs, f.payload.length ≤ maxMessageSize) →
      chunks.flatten = fs.flatMap writeFrame → fs.length + chunks.length < n →
      readFrame.drain n [] chunks = fs.map .ok ++ [.error .unexpectedEof]) ∧
    (∀ s f t, readFrame.poll s = some (.ok f, t) → Bytes.ofBe (s.arrived.take 4) ≤ maxMessageSize + 1 ∧
      4 + Bytes.ofBe (s.arrived.take 4) ≤ s.arrived.length ∧
      t = { s with arrived := s.arrived.drop (4 + Bytes.ofBe (s.arrived.take 4)) }) ∧
    ∀ body, (∀ n ≤ maxMessageSize + 1, body n = readExact n .unexpectedEof) →
      ∀ s, (readFrameWith body).poll s = readFrame.poll s := by
  refine ⟨fun fs chunks n hfs hchunks hn => ?_, fun s f t => readFrame_consumes, fun body => poll_readFrameWith⟩
  exact Reader.drain_eq rfl rfl (fun f hf => readFrame_writeFrame (hfs f hf)) hchunks hn

/-- Two frames, in chunks of a part of the first and of its end with the second. -/
theorem framing_two : let fs : List Frame := [⟨.block, [7, 8]⟩, ⟨.trx, []⟩]
    readFrame.drain 5 [] [[0, 0, 0, 3], [2, 7, 8, 0, 0, 0, 1, 1]] = fs.map .ok ++ [.error .unexpectedEof] :=
  framing.1 [⟨.block, [7, 8]⟩, ⟨.trx, []⟩] _ 5 (by decide) (by decide) (by decide)

end TronRs

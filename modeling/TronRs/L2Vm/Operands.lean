import TronRs.L2Vm.Traced

/-!
# Operands wider than 64 bits

The memory instructions, the calldata instructions and CALL take 256-bit operands and use their low 64 bits
(`crates/vm/src/engine.rs:169`). `FullWidthAt` says what an instruction does when its operands are read as the integers
they are, `HarmlessAt` when that is also what the narrowed operands do.

* `fails_iff`: a memory instruction halts with OutOfEnergy exactly when the narrowed range, or for CALL what comes
  after it, cannot be paid.
* `operands_full_width_iff`: every instruction of a frame takes its operands at full width exactly when for each the
  narrowing is harmless.
* `narrowed_operands`: a load at `2 ^ 64` that reads offset 0, and a call with `2 ^ 64` energy that forwards none.
-/
namespace TronRs.Vm

open TronRs.Core

variable {cr : Crypto} {src : Bytes} {dest : U256}

/-! ## Halting with OutOfEnergy -/

/-- `p` halts with OutOfEnergy on `m`. -/
def Fails {α : Type} (p : Op α) (m : Machine) : Prop := ∃ m', p m = .error (.halt .outOfEnergy []) m'

/-- `p` never does. -/
structure Affords {α : Type} (p : Op α) : Prop where
  at_machine : ∀ m, wp p m (fun _ _ => True) (fun e _ => e ≠ .halt .outOfEnergy [])

/-- What `expand_to(stop)` asks for cannot be paid. -/
def Unpaid (m : Machine) (stop : Nat) : Prop :=
  ∃ size cost, Expands m.mem.length stop size cost ∧ m.meter.charge cost = none

section Fails
variable {α β : Type} {p : Op α} {k : α → Op β} {m m1 : Machine} {a : α} {n stop : Nat}

lemma fails_seq : Fails (p >>= k) m ↔ Fails p m ∨ ∃ a m1, p m = .ok a m1 ∧ Fails (k a) m1 := by
  cases hp : p m with
  | ok => simp [Fails, seq_of_ok hp, hp]
  | error => simp [Fails, seq_of_error hp, hp]

lemma fails_of_ok (hp : p m = .ok a m1) : Fails (p >>= k) m ↔ Fails (k a) m1 := by
  simp [Fails, seq_of_ok hp]

lemma Affords.not_fails (h : Affords p) (m : Machine) : ¬ Fails p m := by
  intro hf; obtain ⟨m', hm'⟩ := hf; exact error_of_wp (h.at_machine m) hm' rfl

lemma fails_bind_affords (hk : ∀ a, Affords (k a)) : Fails (p >>= k) m ↔ Fails p m := by
  rw [fails_seq]; refine ⟨fun h => ?_, .inl⟩
  rcases h with h | ⟨a, m1, -, h⟩
  · exact h
  · exact absurd h ((hk a).not_fails m1)

lemma fails_charge : Fails (charge n) m ↔ m.meter.charge n = none := by
  unfold charge Fails; rw [seq_of_ok (rfl : (get : Op Machine) m = .ok m m)]
  cases m.meter.charge n with
  | none => exact ⟨fun _ => rfl, fun _ => ⟨m, rfl⟩⟩
  | some =>
    refine ⟨fun h => ?_, fun h => ?_⟩
    · obtain ⟨m', h⟩ := h; cases h
    · cases h

lemma charge_ok_iff {u : Unit} :
    charge n m = .ok u m1 ↔ ∃ meter, m.meter.charge n = some meter ∧ m1 = { m with meter := meter } := by
  unfold charge; rw [seq_of_ok (rfl : (get : Op Machine) m = .ok m m)]
  cases m.meter.charge n with
  | none =>
    refine ⟨fun h => ?_, fun h => ?_⟩
    · cases h
    · obtain ⟨_, h, _⟩ := h; cases h
  | some meter =>
    refine ⟨fun h => ?_, fun h => ?_⟩
    · cases h; exact ⟨meter, rfl, rfl⟩
    · obtain ⟨_, h, rfl⟩ := h; cases h; rfl

lemma expandTo_of_expands {size cost : Nat} (h : Expands m.mem.length stop size cost) :
    ∃ m1, expandTo stop m = .ok cost m1 ∧ m1.meter = m.meter := by
  unfold expandTo; rw [seq_of_ok (rfl : (get : Op Machine) m = .ok m m)]
  cases h with
  | within hle =>
    rw [if_pos hle]; exact ⟨m, rfl, rfl⟩
  | resized hlt hfits =>
    rw [if_neg (Nat.not_le_of_lt hlt)]
    refine ⟨{ m with mem := resize (newWords stop * 32) m.mem }, ?_, rfl⟩
    have hensure : (ensure (newWords stop * 32 < 2 ^ 63) (.abort .panic) : Op PUnit) m = .ok ⟨⟩ m := by
      unfold ensure; rw [if_pos hfits]; rfl
    exact seq_of_ok hensure

lemma fails_chargeMem : Fails (chargeMem stop) m ↔ Unpaid m stop := by
  unfold chargeMem; rw [fails_seq]
  constructor
  · intro h
    rcases h with ⟨m', h⟩ | ⟨cost, m1, h, hcharge⟩
    · obtain ⟨hpanic, -⟩ := error_of_wp (Tracks.expandTo stop m) h
      cases hpanic
    have hx := ok_of_wp (Tracks.expandTo stop m) h
    obtain ⟨m2, h2, hmeter⟩ := expandTo_of_expands hx
    rw [h] at h2; cases h2; rw [fails_charge, hmeter] at hcharge
    exact ⟨_, cost, hx, hcharge⟩
  · intro h; obtain ⟨size, cost, hx, hcharge⟩ := h
    obtain ⟨m1, h1, hmeter⟩ := expandTo_of_expands hx
    refine .inr ⟨cost, m1, h1, ?_⟩; rw [fails_charge, hmeter]; exact hcharge

lemma fails_pop {v : U256} {rest : List U256} {k : U256 → Op β} (h : m.stack = v :: rest) :
    Fails (pop >>= k) m ↔ Fails (k v) { m with stack := rest } := by
  have hpop : pop m = .ok v { m with stack := rest } := by
    obtain ⟨meter, stack, mem, last, pc, world, dropped⟩ := m
    obtain rfl : stack = v :: rest := h; rfl
  exact fails_of_ok hpop

/-- A touch, with nothing after it that costs energy. -/
lemma fails_touch {k : Unit → Op β} (hk : ∀ u, Affords (k u)) : Fails (chargeMem stop >>= k) m ↔ Unpaid m stop := by
  rw [fails_bind_affords hk, fails_chargeMem]

end Fails

namespace Affords
variable {α β : Type} (off : Nat) (b : Bytes)

lemma bind {p : Op α} {k : α → Op β} (hp : Affords p) (hk : ∀ a, Affords (k a)) : Affords (p >>= k) := by
  refine ⟨fun m => ?_⟩; rw [wp_bind]
  exact wp_mono (hp.at_machine m) (fun a m1 _ => (hk a).at_machine m1) (fun _ _ he => he)

lemma pure (a : α) : Affords (Pure.pure a : Op α) := ⟨fun _ => trivial⟩

lemma get : Affords (MonadState.get : Op Machine) := ⟨fun _ => trivial⟩

lemma modify (g : Machine → Machine) : Affords (modify g : Op PUnit) := ⟨fun _ => trivial⟩

lemma ret (h : Halt) (out : Bytes) (hh : h ≠ .outOfEnergy) : Affords (throw (.halt h out) : Op α) :=
  ⟨fun _ he => by cases he; exact hh rfl⟩

lemma push (v : U256) : Affords (Vm.push v) := by
  refine ⟨fun m => ?_⟩; unfold Vm.push; rw [wp_bind, wp_get]
  split
  · exact fun he => by cases he
  · trivial

lemma writeSlice : Affords (Vm.writeSlice off b) := by
  refine ⟨fun m => ?_⟩; unfold Vm.writeSlice; simp only [wp_bind, wp_get, wp_ensure, wp_set]
  exact ⟨fun _ => trivial, fun _ he => by cases he⟩

lemma writeEach : Affords (Vm.writeEach off b) := by
  unfold Vm.writeEach
  split
  · exact pure ()
  · exact writeSlice off b

lemma advance (r : Option Nat) : Affords (Vm.advance r) := by
  cases r <;> exact modify _

end Affords

/-! ## Memory ranges -/

/-- A range of memory given by two words. -/
structure WordRange where
  off : U256
  len : U256

/-- It is not empty and ends beyond 64 bits. -/
def WordRange.Wide (r : WordRange) : Prop := r.len ≠ 0 ∧ 2 ^ 64 ≤ r.off.toNat + r.len.toNat

/-- The end of the range that `expand_to` is called with. -/
def WordRange.narrowedEnd (r : WordRange) : Nat := satAdd64 (low64 r.off) (low64 r.len)

/-- The range of memory an instruction touches first, from its operands. -/
def memRange : OpCode → List U256 → Option WordRange
  | .mload, off :: _ => some ⟨off, 32⟩
  | .mstore, off :: _ :: _ => some ⟨off, 32⟩
  | .mstore8, off :: _ :: _ => some ⟨off, 1⟩
  | .callDataCopy, dest :: _ :: len :: _ => some ⟨dest, len⟩
  | .returnDataCopy, dest :: _ :: len :: _ => some ⟨dest, len⟩
  | .ret, off :: len :: _ => some ⟨off, len⟩
  | .revert, off :: len :: _ => some ⟨off, len⟩
  | .call, _ :: _ :: _ :: argsOff :: argsLen :: _ :: _ :: _ => some ⟨argsOff, argsLen⟩
  | _, _ => none

/-- The range CALL returns to. -/
def retRange : OpCode → List U256 → Option WordRange
  | .call, _ :: _ :: _ :: _ :: _ :: retOff :: retLen :: _ => some ⟨retOff, retLen⟩
  | _, _ => none

/-- After the argument memory is paid, what the call costs or the memory it returns to cannot be paid. -/
def CallUnpaid (cr : Crypto) (depth : Nat) (m : Machine) : OpCode → List U256 → Prop
  | .call, gas :: addr :: _ :: argsOff :: argsLen :: retOff :: retLen :: rest =>
    ∃ m1, chargeMem (satAdd64 (low64 argsOff) (low64 argsLen)) { m with stack := rest } = .ok () m1 ∧
      (Fails (dispatchCall cr (runFrame cr) depth addr gas (getRange m1.mem (low64 argsOff) (low64 argsLen))) m1 ∨
        ∃ out m2, dispatchCall cr (runFrame cr) depth addr gas (getRange m1.mem (low64 argsOff) (low64 argsLen)) m1 =
          .ok (true, out) m2 ∧ low64 retLen ≠ 0 ∧ Unpaid m2 (satAdd64 (low64 retOff) (low64 retLen)))
  | _, _ => False

section Ranges
variable {ctx : Ctx} {byte : UInt8} {op : OpCode} {m : Machine} {r : WordRange}
variable {retOff retLen depth : Nat} {off len : U256} {rest : List U256}

lemma fails_finishCall {out : Bytes} {ok : Bool} :
    Fails (finishCall retOff retLen (ok, out)) m ↔ ok = true ∧ retLen ≠ 0 ∧ Unpaid m (satAdd64 retOff retLen) := by
  unfold finishCall
  rw [fails_of_ok (rfl : (modify fun m => { m with lastReturnData := out } : Op PUnit) m = .ok ⟨⟩ _)]
  split
  · rename_i h
    rw [fails_touch fun _ => .bind (.writeSlice _ _) fun _ => .bind (.push _) fun _ => .pure none]
    exact ⟨fun hu => ⟨h.1, Nat.ne_of_gt h.2, hu⟩, fun hu => hu.2.2⟩
  · rename_i h
    have hpush : Affords (push (ofBool ok) >>= fun _ => (pure none : Op (Option Nat))) :=
      .bind (.push _) fun _ => .pure none
    exact ⟨fun hf => absurd hf (hpush.not_fails _), fun hu => absurd ⟨hu.1, Nat.pos_of_ne_zero hu.2.1⟩ h⟩

lemma fails_copyOp (h : m.stack = dest :: off :: len :: rest) :
    Fails (copyOp src) m ↔ Unpaid m (satAdd64 (low64 dest) (low64 len)) := by
  unfold copyOp
  rw [fails_pop h, fails_pop rfl, fails_pop rfl, fails_touch fun _ => .bind (.writeEach _ _) fun _ => .pure none]
  exact Iff.rfl

lemma fails_haltWith {halt : Halt} (hh : halt ≠ .outOfEnergy) (h : m.stack = off :: len :: rest) :
    Fails (haltWith halt) m ↔ Unpaid m (satAdd64 (low64 off) (low64 len)) := by
  unfold haltWith
  rw [fails_pop h, fails_pop rfl, fails_touch fun _ => .bind .get fun _ => .ret halt _ hh]
  exact Iff.rfl

lemma fails_afterArgs {p : Op (Bool × Bytes)} : Fails (p >>= fun r => finishCall retOff retLen r) m ↔
      Fails p m ∨ ∃ out m2, p m = .ok (true, out) m2 ∧ retLen ≠ 0 ∧ Unpaid m2 (satAdd64 retOff retLen) := by
  rw [fails_seq]
  refine or_congr Iff.rfl ⟨fun h => ?_, fun h => ?_⟩
  · obtain ⟨⟨ok, out⟩, m2, hp, hf⟩ := h
    obtain ⟨rfl, hret⟩ := fails_finishCall.mp hf; exact ⟨out, m2, hp, hret⟩
  · obtain ⟨out, m2, hp, hret⟩ := h; exact ⟨(true, out), m2, hp, fails_finishCall.mpr ⟨rfl, hret⟩⟩

lemma fails_callOp {gas addr value argsOff argsLen retOff retLen : U256}
    (h : m.stack = gas :: addr :: value :: argsOff :: argsLen :: retOff :: retLen :: rest) :
    Fails (callOp cr (runFrame cr) depth) m ↔
      Unpaid m (satAdd64 (low64 argsOff) (low64 argsLen)) ∨ CallUnpaid cr depth m .call m.stack := by
  have hstack : Fails (callOp cr (runFrame cr) depth) m ↔ Fails (do
      chargeMem (satAdd64 (low64 argsOff) (low64 argsLen))
      let m ← get
      let r ← dispatchCall cr (runFrame cr) depth addr gas (getRange m.mem (low64 argsOff) (low64 argsLen))
      finishCall (low64 retOff) (low64 retLen) r : Op (Option Nat)) { m with stack := rest } := by
    unfold Fails; rw [callOp_of_stack h]
  rw [hstack, fails_seq, fails_chargeMem, h]
  refine or_congr Iff.rfl ⟨fun hf => ?_, fun hf => ?_⟩
  · obtain ⟨_, m1, hargs, hf⟩ := hf
    rw [fails_of_ok (rfl : (get : Op Machine) m1 = .ok m1 m1), fails_afterArgs] at hf
    exact ⟨m1, hargs, hf⟩
  · obtain ⟨m1, hargs, hf⟩ := hf; refine ⟨(), m1, hargs, ?_⟩
    rw [fails_of_ok (rfl : (get : Op Machine) m1 = .ok m1 m1), fails_afterArgs]; exact hf

/-- Only CALL asks for energy after its first range. -/
lemma or_callUnpaid {P : Prop} {stack : List U256} (hop : op ≠ .call) : P ∨ CallUnpaid cr depth m op stack ↔ P := by
  refine or_iff_left ?_; cases op <;> first | exact absurd rfl hop | exact id

lemma fails_instr (h : memRange op m.stack = some r) :
    Fails (instr cr (runFrame cr) ctx byte op) m ↔ Unpaid m r.narrowedEnd ∨ CallUnpaid cr ctx.depth m op m.stack := by
  unfold memRange at h
  split at h
  · -- MLOAD
    rename_i off rest hst; cases h
    rw [or_callUnpaid (by decide), instr, fails_pop hst,
      fails_touch fun _ => .bind .get fun _ => .bind (.push _) fun _ => .pure none]
    exact Iff.rfl
  · -- MSTORE
    rename_i off val rest hst; cases h
    rw [or_callUnpaid (by decide), instr, fails_pop hst, fails_pop rfl,
      fails_touch fun _ => .bind (.writeSlice _ _) fun _ => .pure none]
    exact Iff.rfl
  · -- MSTORE8
    rename_i off val rest hst; cases h
    rw [or_callUnpaid (by decide), instr, fails_pop hst, fails_pop rfl,
      fails_touch fun _ => .bind (.writeSlice _ _) fun _ => .pure none]
    exact Iff.rfl
  · -- CALLDATACOPY
    rename_i dest off len rest hst; cases h; rw [or_callUnpaid (by decide)]
    exact fails_copyOp hst
  · -- RETURNDATACOPY
    rename_i dest off len rest hst; cases h
    rw [or_callUnpaid (by decide), instr, fails_of_ok (rfl : (get : Op Machine) m = .ok m m)]
    exact fails_copyOp hst
  · rename_i off len rest hst; cases h; rw [or_callUnpaid (by decide)]
    exact fails_haltWith (by decide) hst
  · rename_i off len rest hst; cases h; rw [or_callUnpaid (by decide)]
    exact fails_haltWith (by decide) hst
  · rename_i hst; cases h; exact fails_callOp hst
  · cases h

/-- The base cost, the narrowed range, or what CALL asks for after it cannot be paid. -/
def Unpayable (cr : Crypto) (ctx : Ctx) (op : OpCode) (m : Machine) (r : WordRange) : Prop :=
  m.meter.charge (baseCost op) = none ∨ ∃ meter, m.meter.charge (baseCost op) = some meter ∧
    (Unpaid { m with meter := meter } r.narrowedEnd ∨ CallUnpaid cr ctx.depth { m with meter := meter } op m.stack)

/-- **When a memory instruction halts with OutOfEnergy.** -/
theorem fails_iff (hop : OpCode.fromU8 byte = some op) (h : memRange op m.stack = some r) :
    Fails (step cr (runFrame cr) ctx byte) m ↔ Unpayable cr ctx op m r := by
  have hstore : op ≠ .sstore := by intro heq; subst heq; cases h
  rw [step_of_op hop hstore, fails_seq, fails_charge]
  refine or_congr Iff.rfl ⟨fun hf => ?_, fun hf => ?_⟩
  · obtain ⟨_, m0, hcharge, hf⟩ := hf; rw [charge_ok_iff] at hcharge
    obtain ⟨meter, hmeter, rfl⟩ := hcharge; rw [fails_bind_affords Affords.advance] at hf
    exact ⟨meter, hmeter, (fails_instr (m := { m with meter := meter }) h).mp hf⟩
  · obtain ⟨meter, hmeter, hf⟩ := hf
    refine ⟨(), { m with meter := meter }, charge_ok_iff.mpr ⟨meter, hmeter, rfl⟩, ?_⟩
    rw [fails_bind_affords Affords.advance]
    exact (fails_instr (m := { m with meter := meter }) h).mpr hf

lemma memRange_of_retRange (h : retRange op m.stack = some r) : ∃ r', memRange op m.stack = some r' := by
  unfold retRange at h
  split at h
  · rename_i hst; rw [hst]; exact ⟨_, rfl⟩
  · cases h

end Ranges

/-! ## What the instructions read -/

/-- `len` bytes of `src` from `off`, zero past its end. -/
def exactRead (src : Bytes) (off len : Nat) : Bytes := (List.range len).map fun i => src.getD (off + i) 0

/-- The positions from `off` on, taken modulo `2 ^ 64`, hold the same bytes. -/
def SameBytes (src : Bytes) (off len : Nat) : Prop :=
  ∀ i < len, src.getD ((off + i) % 2 ^ 64) 0 = src.getD (off + i) 0

lemma padded_eq_exactRead_iff {off : U256} {len : Nat} :
    padded src (low64 off) len = exactRead src off.toNat len ↔ SameBytes src off.toNat len := by
  unfold padded exactRead SameBytes low64; rw [List.map_inj_left]; simp

lemma wordOfBe_inj {a b : Bytes} (ha : a.length = 32) (hb : b.length = 32) (h : wordOfBe a = wordOfBe b) : a = b := by
  have hnat := congrArg BitVec.toNat h
  have hlt : ∀ c : Bytes, c.length = 32 → Bytes.ofBe c < 2 ^ 256 := by
    intro c hc; have := Bytes.ofBe_lt c; rw [hc] at this
    exact this
  simp only [wordOfBe, BitVec.toNat_ofNat, Nat.mod_eq_of_lt (hlt a ha), Nat.mod_eq_of_lt (hlt b hb)] at hnat
  rw [← Bytes.be_ofBe a, ← Bytes.be_ofBe b, ha, hb, hnat]

section Reads
variable {ctx : Ctx} {byte : UInt8} {m m' : Machine} {rest : List U256} {v off : U256} {u : Unit}

lemma stack_of_push (h : push v m = .ok u m') : m'.stack = v :: m.stack := by
  apply ok_elim h
  unfold push; rw [wp_bind, wp_get]
  split
  · trivial
  · rfl

lemma pop_of_stack (h : m.stack = v :: rest) : pop m = .ok v { m with stack := rest } := by
  obtain ⟨meter, stack, mem, last, pc, world, dropped⟩ := m
  obtain rfl : stack = v :: rest := h; rfl

lemma stack_callDataLoad (hop : OpCode.fromU8 byte = some .callDataLoad) (hst : m.stack = off :: rest)
    (hs : step cr (runFrame cr) ctx byte m = .ok () m') :
    m'.stack = wordOfBe (padded ctx.calldata (low64 off) 32) :: rest := by
  rw [step_of_op hop (by decide)] at hs; obtain ⟨_, m0, hcharge, hs⟩ := seq_eq_ok.mp hs
  have hst0 := (stack_charge hcharge).trans hst
  rw [instr, bind_assoc, seq_of_ok (pop_of_stack hst0)] at hs
  obtain ⟨r, m1, hr, hadv⟩ := seq_eq_ok.mp hs
  obtain ⟨_, m2, hpush, hr⟩ := seq_eq_ok.mp hr; cases hr; cases hadv
  exact stack_of_push hpush

lemma getRange_writeSlice {off : Nat} {b : Bytes} (h : writeSlice off b m = .ok u m') :
    getRange m'.mem off b.length = b := by
  apply ok_elim h
  unfold writeSlice; simp only [wp_bind, wp_get, wp_ensure, wp_set]
  refine ⟨fun hin => ?_, fun _ => trivial⟩
  have htake : (m.mem.take off).length = off := by rw [List.length_take]; omega
  unfold getRange
  rw [List.append_assoc, if_pos (by simp only [List.length_append, htake]; omega), List.drop_left' htake,
    List.take_left' rfl]

lemma range_callDataCopy {len : U256} (hop : OpCode.fromU8 byte = some .callDataCopy)
    (hst : m.stack = dest :: off :: len :: rest) (hlen : low64 len ≠ 0)
    (hs : step cr (runFrame cr) ctx byte m = .ok () m') :
    getRange m'.mem (low64 dest) (low64 len) = padded ctx.calldata (low64 off) (low64 len) := by
  rw [step_of_op hop (by decide)] at hs; obtain ⟨_, m0, hcharge, hs⟩ := seq_eq_ok.mp hs
  have hst0 := (stack_charge hcharge).trans hst
  obtain ⟨r, m1, hr, hadv⟩ := seq_eq_ok.mp hs
  rw [instr, copyOp, seq_of_ok (pop_of_stack hst0), seq_of_ok (pop_of_stack rfl), seq_of_ok (pop_of_stack rfl)] at hr
  obtain ⟨_, m2, hmem, hr⟩ := seq_eq_ok.mp hr
  obtain ⟨_, m3, hwrite, hr⟩ := seq_eq_ok.mp hr; cases hr; cases hadv
  have hne : padded ctx.calldata (low64 off) (low64 len) ≠ [] := by
    intro hnil; have hzero := congrArg List.length hnil; rw [length_padded] at hzero
    exact hlen hzero
  rw [writeEach, if_neg hne] at hwrite; have hrange := getRange_writeSlice hwrite
  rwa [length_padded] at hrange

end Reads

/-! ## Full width -/

/-- The instruction at `m` takes its operands as 256-bit integers: a memory range that ends beyond 64 bits cannot be
paid, calldata is read at the positions given, and CALL forwards what is asked for or all but a 64th. -/
structure FullWidthAt (cr : Crypto) (ctx : Ctx) (byte : UInt8) (m : Machine) : Prop where
  wide : ∀ op r, OpCode.fromU8 byte = some op → memRange op m.stack = some r ∨ retRange op m.stack = some r → r.Wide →
    Fails (step cr (runFrame cr) ctx byte) m
  load : ∀ off rest m', OpCode.fromU8 byte = some .callDataLoad → m.stack = off :: rest →
    step cr (runFrame cr) ctx byte m = .ok () m' → m'.stack = wordOfBe (exactRead ctx.calldata off.toNat 32) :: rest
  copy : ∀ dest off len rest m', OpCode.fromU8 byte = some .callDataCopy → m.stack = dest :: off :: len :: rest →
    ¬ (WordRange.mk dest len).Wide → step cr (runFrame cr) ctx byte m = .ok () m' →
    getRange m'.mem dest.toNat len.toNat = exactRead ctx.calldata off.toNat len.toNat
  forward : ∀ gas rest g m1, m.stack = gas :: rest → startedFrame ctx byte m = .ok (some g) m1 →
    g.limit = min gas.toNat (m1.meter.remaining - m1.meter.remaining / 64)

/-- Narrowing the operands changes nothing: where a range is wide, the narrowed one cannot be paid; where calldata is
read, the narrowed positions hold the same bytes; where energy is asked for, it fits 64 bits or its low bits are as
good. -/
structure HarmlessAt (cr : Crypto) (ctx : Ctx) (byte : UInt8) (m : Machine) : Prop where
  wide : ∀ op r r', OpCode.fromU8 byte = some op → memRange op m.stack = some r →
    r' = r ∨ retRange op m.stack = some r' →
    r'.Wide → Unpayable cr ctx op m r
  load : ∀ off rest m', OpCode.fromU8 byte = some .callDataLoad → m.stack = off :: rest →
    step cr (runFrame cr) ctx byte m = .ok () m' → SameBytes ctx.calldata off.toNat 32
  copy : ∀ dest off len rest m', OpCode.fromU8 byte = some .callDataCopy → m.stack = dest :: off :: len :: rest →
    ¬ (WordRange.mk dest len).Wide → step cr (runFrame cr) ctx byte m = .ok () m' →
    SameBytes ctx.calldata off.toNat len.toNat
  forward : ∀ gas rest g m1, m.stack = gas :: rest → startedFrame ctx byte m = .ok (some g) m1 →
    gas.toNat < 2 ^ 64 ∨ m1.meter.remaining - m1.meter.remaining / 64 ≤ low64 gas

section FullWidth
variable {ctx : Ctx} {byte : UInt8} {m m' : Machine} {rest : List U256} {off : U256}

lemma wide_iff : (∀ op r, OpCode.fromU8 byte = some op → memRange op m.stack = some r ∨ retRange op m.stack = some r →
      r.Wide → Fails (step cr (runFrame cr) ctx byte) m) ↔
    ∀ op r r', OpCode.fromU8 byte = some op → memRange op m.stack = some r → r' = r ∨ retRange op m.stack = some r' →
      r'.Wide → Unpayable cr ctx op m r := by
  constructor
  · intro h op r r' hop hr hr' hwide; rw [← fails_iff hop hr]
    rcases hr' with rfl | hr'
    · exact h op r' hop (.inl hr) hwide
    · exact h op r' hop (.inr hr') hwide
  · intro h op r hop hr hwide
    rcases hr with hr | hr
    · exact (fails_iff hop hr).mpr (h op r r hop hr (.inl rfl) hwide)
    · obtain ⟨r', hr'⟩ := memRange_of_retRange hr
      exact (fails_iff hop hr').mpr (h op r' r hop hr' (.inr hr) hwide)

lemma load_iff (hop : OpCode.fromU8 byte = some .callDataLoad) (hst : m.stack = off :: rest)
    (hs : step cr (runFrame cr) ctx byte m = .ok () m') :
    m'.stack = wordOfBe (exactRead ctx.calldata off.toNat 32) :: rest ↔ SameBytes ctx.calldata off.toNat 32 := by
  rw [stack_callDataLoad hop hst hs, ← padded_eq_exactRead_iff, List.cons_eq_cons, and_iff_left rfl]
  refine ⟨fun h => wordOfBe_inj (length_padded ..) ?_ h, fun h => congrArg wordOfBe h⟩
  rw [exactRead, List.length_map, List.length_range]

lemma low64_of_lt {v : U256} (h : v.toNat < 2 ^ 64) : low64 v = v.toNat := Nat.mod_eq_of_lt h

lemma copy_iff {len : U256} (hop : OpCode.fromU8 byte = some .callDataCopy)
    (hst : m.stack = dest :: off :: len :: rest) (hwide : ¬ (WordRange.mk dest len).Wide)
    (hs : step cr (runFrame cr) ctx byte m = .ok () m') :
    getRange m'.mem dest.toNat len.toNat = exactRead ctx.calldata off.toNat len.toNat ↔
      SameBytes ctx.calldata off.toNat len.toNat := by
  by_cases hlen : len = 0
  · subst hlen; refine iff_of_true ?_ (fun i hi => absurd hi (Nat.not_lt_zero i))
    unfold getRange exactRead
    split
    · exact List.take_zero
    · rfl
  · have hend : dest.toNat + len.toNat < 2 ^ 64 := by by_contra hge; exact hwide ⟨hlen, Nat.le_of_not_lt hge⟩
    have hd : low64 dest = dest.toNat := low64_of_lt (by omega)
    have hl : low64 len = len.toNat := low64_of_lt (by omega)
    have hne : low64 len ≠ 0 := by
      rw [hl]
      exact fun h => hlen (BitVec.eq_of_toNat_eq h)
    have hrange := range_callDataCopy hop hst hne hs
    rw [hd, hl] at hrange; rw [hrange, padded_eq_exactRead_iff]

lemma forward_iff {gas : U256} {g : Frame} {m1 : Machine} (hst : m.stack = gas :: rest)
    (hg : startedFrame ctx byte m = .ok (some g) m1) :
    g.limit = min gas.toNat (m1.meter.remaining - m1.meter.remaining / 64) ↔
      gas.toNat < 2 ^ 64 ∨ m1.meter.remaining - m1.meter.remaining / 64 ≤ low64 gas := by
  obtain ⟨gas', _, _, rest', hst', -, -, -, hlimit, -, -⟩ :=
    step_of_startedFrame noCrypto (fun _ _ _ => .error .fuel) hg
  rw [hst] at hst'; cases hst'; rw [hlimit, forwarded]
  have hle : low64 gas ≤ gas.toNat := Nat.mod_le _ _
  have hlow : gas.toNat < 2 ^ 64 ↔ low64 gas = gas.toNat := by
    refine ⟨low64_of_lt, fun h => ?_⟩; rw [← h]; exact Nat.mod_lt _ (by decide)
  omega

/-- **One instruction.** -/
theorem fullWidthAt_iff : FullWidthAt cr ctx byte m ↔ HarmlessAt cr ctx byte m := by
  constructor
  · intro h
    refine ⟨wide_iff.mp h.wide, fun off rest m' hop hst hs => ?_, fun dest off len rest m' hop hst hw hs => ?_,
      fun gas rest g m1 hst hg => ?_⟩
    · exact (load_iff hop hst hs).mp (h.load off rest m' hop hst hs)
    · exact (copy_iff hop hst hw hs).mp (h.copy dest off len rest m' hop hst hw hs)
    · exact (forward_iff hst hg).mp (h.forward gas rest g m1 hst hg)
  · intro h
    refine ⟨wide_iff.mpr h.wide, fun off rest m' hop hst hs => ?_, fun dest off len rest m' hop hst hw hs => ?_,
      fun gas rest g m1 hst hg => ?_⟩
    · exact (load_iff hop hst hs).mpr (h.load off rest m' hop hst hs)
    · exact (copy_iff hop hst hw hs).mpr (h.copy dest off len rest m' hop hst hw hs)
    · exact (forward_iff hst hg).mpr (h.forward gas rest g m1 hst hg)

end FullWidth

/-- Every instruction of the frame takes its operands at full width. -/
def Frame.FullWidth (cr : Crypto) (f : Frame) : Prop :=
  ∀ m byte, f.Head cr m → f.ctx.code[m.pc]? = some byte → FullWidthAt cr f.ctx byte m

/-- **A frame takes its operands at full width** exactly when narrowing them to 64 bits is harmless at every
instruction it executes. -/
theorem operands_full_width_iff (cr : Crypto) (f : Frame) :
    f.FullWidth cr ↔ ∀ m byte, f.Head cr m → f.ctx.code[m.pc]? = some byte → HarmlessAt cr f.ctx byte m :=
  forall₄_congr fun _ _ _ _ => fullWidthAt_iff

/-- A head, what an instruction makes of it, and a view of both. -/
lemma Frame.exists_of_headAt {f : Frame} {n : Nat} {α γ : Type} {p : Op α} {view : Machine → α × Machine → γ} {c : γ}
    (h : ((f.headAt cr n).bind fun m => (outcome p m).toOption.map (view m)) = some c) :
    ∃ m a m', f.Head cr m ∧ p m = .ok a m' ∧ view m (a, m') = c := by
  obtain ⟨m, hm, h⟩ := Option.bind_eq_some_iff.mp h
  obtain ⟨a, m', hp, hview⟩ := exists_of_outcome h
  exact ⟨m, a, m', .of_headAt hm, hp, hview⟩

/-- PUSH1 64, PUSH1 2, EXP: the word `2 ^ 64`. -/
def pushWide : Bytes := [0x60, 64, 0x60, 2, 0x0a]

/-- MLOAD at `2 ^ 64`. -/
def wideLoad : Frame := ⟨World.new, ⟨[], pushWide ++ [0x51], [], 0⟩, 100⟩

/-- CALLDATALOAD at `2 ^ 64`, of the one byte 7. -/
def wideData : Frame := ⟨World.new, ⟨[], pushWide ++ [0x35], [7], 0⟩, 100⟩

/-- CALL of the contract `0xcc` with `2 ^ 64` energy. -/
def wideCall : Frame :=
  ⟨nestedWorld, ⟨[], [0x60, 0, 0x60, 0, 0x60, 0, 0x60, 0, 0x60, 0, 0x60, 0xcc] ++ pushWide ++ [0xf1], [], 0⟩, 1000⟩

/-- The first reads memory at offset 0 instead of running out of energy, the second reads the byte 7 instead of zero,
the third forwards nothing. -/
theorem narrowed_operands :
    ¬ wideLoad.FullWidth noCrypto ∧ ¬ wideData.FullWidth noCrypto ∧ ¬ wideCall.FullWidth noCrypto := by
  refine ⟨fun h => ?_, fun h => ?_, fun h => ?_⟩
  · have hat : ((wideLoad.headAt noCrypto 3).bind fun m =>
        (outcome (step noCrypto (runFrame noCrypto) wideLoad.ctx 0x51) m).toOption.map fun _ => (m.pc, m.stack)) =
          some (5, [2 ^ 64]) := by
      decide +kernel
    obtain ⟨m, _, m', hm, hs, hview⟩ := Frame.exists_of_headAt hat
    obtain ⟨hpc, hstack⟩ := Prod.mk.inj hview
    have hfull := h m 0x51 hm (by rw [hpc]; rfl)
    obtain ⟨m2, hfail⟩ := hfull.wide .mload ⟨2 ^ 64, 32⟩ rfl (.inl (by rw [hstack]; rfl))
      ⟨by decide, by decide +kernel⟩
    rw [hs] at hfail; cases hfail
  · have hat : ((wideData.headAt noCrypto 3).bind fun m =>
        (outcome (step noCrypto (runFrame noCrypto) wideData.ctx 0x35) m).toOption.map fun x =>
          (m.pc, m.stack, x.2.stack)) = some (5, [2 ^ 64], [7 * 2 ^ 248]) := by
      decide +kernel
    obtain ⟨m, _, m', hm, hs, hview⟩ := Frame.exists_of_headAt hat
    obtain ⟨hpc, hview⟩ := Prod.mk.inj hview
    obtain ⟨hstack, hafter⟩ := Prod.mk.inj hview
    have hload := (h m 0x35 hm (by rw [hpc]; rfl)).load (2 ^ 64) [] m' rfl hstack hs
    rw [hafter] at hload; exact absurd hload (by decide +kernel)
  · have hat : ((wideCall.headAt noCrypto 9).bind fun m =>
        (outcome (startedFrame wideCall.ctx 0xf1) m).toOption.map fun x =>
          (m.pc, m.stack.head?, x.1.map Frame.limit, x.2.meter.remaining)) = some (17, some (2 ^ 64), some 0, 926) := by
      decide +kernel
    obtain ⟨m, g, m1, hm, hs, hview⟩ := Frame.exists_of_headAt hat
    obtain ⟨hpc, hview⟩ := Prod.mk.inj hview
    obtain ⟨hgas, hview⟩ := Prod.mk.inj hview
    obtain ⟨hlimit, hrem⟩ := Prod.mk.inj hview
    obtain ⟨rest, hstack⟩ := List.head?_eq_some_iff.mp hgas
    obtain ⟨g, rfl, hzero⟩ := Option.map_eq_some_iff.mp hlimit
    have hforward := (h m 0xf1 hm (by rw [hpc]; rfl)).forward _ rest g m1 hstack hs
    rw [hzero, show m1.meter.remaining = 926 from hrem] at hforward
    exact absurd hforward (by decide +kernel)

end TronRs.Vm

import TronRs.L2Vm.Frames

/-!
# Jump destinations

JUMP and JUMPI check that the byte at the destination is `0x5b` (`crates/vm/src/engine.rs:222`). The bytes behind a
PUSH1 or PUSH2 are data, so a JUMPDEST is one only where the code, decoded from its start, has an instruction.

* `boundaries`: the positions of the instructions.
* `FallsThrough.instr`, `step_of_jump`: every instruction goes on behind its immediate bytes, except a jump.
* `jumps_valid_iff`: the jumps of a frame are valid exactly when the frame never fetches an immediate byte.
  `jumpsValid_of_code`: in particular when no immediate byte of the code is `0x5b`.
* `jump_into_immediate`: a program whose jump lands on the immediate byte of a PUSH1.
-/
namespace TronRs.Vm

open TronRs.Core

variable {cr : Crypto} {β : Type}

/-! ## Instruction boundaries -/

/-- How many bytes behind the opcode belong to the instruction. -/
def immediates (byte : UInt8) : Nat :=
  match OpCode.fromU8 byte with
  | some .push1 => 1
  | some .push2 => 2
  | _ => 0

/-- The positions of the instructions in code that starts at `pos`, the first `skip` bytes being data. -/
def boundariesFrom (pos skip : Nat) : Bytes → List Nat
  | [] => []
  | byte :: rest =>
    match skip with
    | 0 => pos :: boundariesFrom (pos + 1) (immediates byte) rest
    | skip + 1 => boundariesFrom (pos + 1) skip rest

/-- The positions of the instructions, decoded linearly from position 0. -/
def boundaries (code : Bytes) : List Nat := boundariesFrom 0 0 code

section Boundaries
variable {pos skip p : Nat} {code : Bytes} {byte : UInt8}

lemma le_of_mem_boundariesFrom (h : p ∈ boundariesFrom pos skip code) : pos ≤ p := by
  induction code generalizing pos skip with
  | nil => cases h
  | cons byte rest ih =>
    cases skip with
    | zero =>
      rcases List.mem_cons.mp h with rfl | h
      · exact le_rfl
      · have := ih h; omega
    | succ =>
      have := ih h; omega

/-- The first instruction is behind the data. -/
lemma first_mem_boundariesFrom (pos : Nat) (h : skip < code.length) : pos + skip ∈ boundariesFrom pos skip code := by
  induction code generalizing pos skip with
  | nil => cases h
  | cons byte rest ih =>
    cases skip with
    | zero => exact List.mem_cons_self
    | succ =>
      have hrest := ih (pos + 1) (Nat.lt_of_succ_lt_succ h)
      rwa [Nat.add_right_comm] at hrest

lemma next_mem_boundariesFrom {i : Nat} (h : pos + i ∈ boundariesFrom pos skip code)
    (hb : code[i]? = some byte) (hlt : i + 1 + immediates byte < code.length) :
    pos + i + 1 + immediates byte ∈ boundariesFrom pos skip code := by
  induction code generalizing pos skip i with
  | nil => cases h
  | cons first rest ih =>
    have hlater : ∀ k, pos + i ∈ boundariesFrom (pos + 1) k rest →
        pos + i + 1 + immediates byte ∈ boundariesFrom (pos + 1) k rest := by
      intro k hmem; have hpos := le_of_mem_boundariesFrom hmem
      obtain ⟨j, rfl⟩ : ∃ j, i = j + 1 := ⟨i - 1, by omega⟩
      rw [show pos + (j + 1) = pos + 1 + j by omega] at hmem ⊢; simp only [List.length_cons] at hlt
      exact ih hmem hb (by omega)
    cases skip with
    | zero =>
      rcases List.mem_cons.mp h with heq | hmem
      · obtain rfl : i = 0 := by omega
        cases hb; refine List.mem_cons_of_mem _ ?_
        exact first_mem_boundariesFrom (pos + 1) (by simp only [List.length_cons] at hlt; omega)
      · exact List.mem_cons_of_mem _ (hlater _ hmem)
    | succ => exact hlater _ h

lemma zero_mem_boundaries (h : 0 < code.length) : 0 ∈ boundaries code :=
  first_mem_boundariesFrom 0 h

lemma next_mem_boundaries (h : p ∈ boundaries code) (hb : code[p]? = some byte)
    (hlt : p + 1 + immediates byte < code.length) : p + 1 + immediates byte ∈ boundaries code := by
  have hzero : 0 + p ∈ boundariesFrom 0 0 code := (Nat.zero_add p).symm ▸ h
  have hnext := next_mem_boundariesFrom hzero hb hlt
  rwa [Nat.zero_add] at hnext

end Boundaries

/-! ## Where an instruction goes on -/

/-- `p` leaves the program counter. -/
structure Stays {α : Type} (p : Op α) : Prop where
  at_machine : ∀ m, wp p m (fun _ m' => m'.pc = m.pc) (fun _ _ => True)

/-- `p` moves the program counter by `k` and does not jump. -/
structure FallsThrough (k : Nat) (p : Op (Option Nat)) : Prop where
  at_machine : ∀ m, wp p m (fun r m' => r = none ∧ m'.pc = m.pc + k) (fun _ _ => True)

namespace Stays
variable {α : Type} (off n : Nat)

lemma get : Stays (MonadState.get : Op Machine) := ⟨fun _ => rfl⟩

lemma modify {g : Machine → Machine} (h : ∀ m, (g m).pc = m.pc) : Stays (modify g : Op PUnit) := ⟨fun m => h m⟩

lemma pop : Stays Vm.pop := by
  refine ⟨fun m => ?_⟩; unfold Vm.pop; rw [wp_bind, wp_get]
  split
  · rfl
  · trivial

lemma push (v : U256) : Stays (Vm.push v) := by
  refine ⟨fun m => ?_⟩; unfold Vm.push; rw [wp_bind, wp_get]
  split
  · trivial
  · rfl

lemma charge : Stays (Vm.charge n) := by
  refine ⟨fun m => ?_⟩; unfold Vm.charge; rw [wp_bind, wp_get]
  split
  · rfl
  · trivial

lemma bind {p : Op β} {k : β → Op α} (hp : Stays p) (hk : ∀ b, Stays (k b)) : Stays (p >>= k) := by
  refine ⟨fun m => ?_⟩; rw [wp_bind]
  refine wp_mono (hp.at_machine m) (fun b m1 h1 => ?_) (fun _ _ _ => trivial)
  exact wp_mono ((hk b).at_machine m1) (fun _ _ h2 => h2.trans h1) (fun _ _ _ => trivial)

lemma chargeMem : Stays (Vm.chargeMem n) := by
  refine bind ⟨fun m => ?_⟩ charge; unfold Vm.expandTo; rw [wp_bind, wp_get, wp_ite]
  refine ⟨fun _ => rfl, fun _ => ?_⟩
  simp only [wp_bind, wp_ensure, wp_set, wp_pure, implies_true, and_self]

variable (b : Bytes)

lemma writeSlice : Stays (Vm.writeSlice off b) := by
  refine ⟨fun m => ?_⟩; unfold Vm.writeSlice; simp [wp_bind, wp_get, wp_ensure, wp_set, implies_true]

lemma writeEach : Stays (Vm.writeEach off b) := by
  unfold Vm.writeEach
  split
  · exact ⟨fun _ => rfl⟩
  · exact writeSlice off b

lemma dispatchCall (sub : SubRun) (depth : Nat) (addr gas : U256) (input : Bytes) :
    Stays (Vm.dispatchCall cr sub depth addr gas input) := by
  refine bind get fun m => ?_
  dsimp only
  split
  · exact bind (charge _) fun _ => ⟨fun _ => rfl⟩
  split
  · exact ⟨fun _ => rfl⟩
  refine ⟨fun m1 => ?_⟩; unfold callContract; rw [wp_bind, wp_get]
  dsimp only
  split
  · trivial
  · rfl

end Stays

namespace FallsThrough
variable {k : Nat}

lemma none : FallsThrough 0 (pure .none) := ⟨fun _ => ⟨rfl, rfl⟩⟩

lemma throw (e : Stop) : FallsThrough k (MonadExcept.throw e) := ⟨fun _ => trivial⟩

lemma halt (h : Halt) : FallsThrough k (Vm.halt h) := ⟨fun _ => trivial⟩

lemma bind {p : Op β} {q : β → Op (Option Nat)} (hp : Stays p) (hq : ∀ b, FallsThrough k (q b)) :
    FallsThrough k (p >>= q) := by
  refine ⟨fun m => ?_⟩; rw [wp_bind]
  refine wp_mono (hp.at_machine m) (fun b m1 h1 => ?_) (fun _ _ _ => trivial); rw [← h1]
  exact (hq b).at_machine m1

lemma binary (f : U256 → U256 → U256) : FallsThrough 0 (Vm.binary f) :=
  bind .pop fun _ => bind .pop fun _ => bind (.push _) fun _ => none

lemma copyOp (src : Bytes) : FallsThrough 0 (Vm.copyOp src) :=
  bind .pop fun _ => bind .pop fun _ => bind .pop fun _ => bind (.chargeMem _) fun _ =>
    bind (.writeEach _ _) fun _ => none

lemma callOp (sub : SubRun) (depth : Nat) : FallsThrough 0 (Vm.callOp cr sub depth) := by
  refine bind .pop fun _ => bind .pop fun _ => bind .pop fun _ => bind .pop fun _ => bind .pop fun _ =>
    bind .pop fun _ => bind .pop fun _ => bind (.chargeMem _) fun _ => bind .get fun _ =>
    bind (.dispatchCall ..) fun r => bind (.modify fun _ => rfl) fun _ => ?_
  split
  · exact bind (.chargeMem _) fun _ => bind (.writeSlice _ _) fun _ => bind (.push _) fun _ => none
  · exact bind (.push _) fun _ => none

lemma selfDestructOp (ctx : Ctx) (byte : UInt8) : FallsThrough 0 (Vm.selfDestructOp ctx byte) := by
  refine bind .get fun m => ?_
  dsimp only
  split
  · exact ⟨fun _ => trivial⟩
  refine bind .pop fun _ => ?_
  split
  · exact bind .get fun _ => bind (.charge _) fun _ => bind (.modify fun _ => rfl) fun _ => halt _
  · exact halt _

/-- Every instruction but a jump goes on behind its immediate bytes. -/
lemma instr {sub : SubRun} {ctx : Ctx} {byte : UInt8} {op : OpCode} (hop : OpCode.fromU8 byte = some op)
    (hjump : op ≠ .jump) (hjumpi : op ≠ .jumpi) : FallsThrough (immediates byte) (Vm.instr cr sub ctx byte op) := by
  unfold immediates; rw [hop]
  cases op with
  | jump => exact absurd rfl hjump
  | jumpi => exact absurd rfl hjumpi
  | push1 | push2 =>
    refine ⟨fun m => ?_⟩; unfold Vm.instr; simp only [wp_bind, wp_get, wp_set]
    exact wp_mono ((Stays.push _).at_machine _) (fun _ _ h => ⟨rfl, h⟩) (fun _ _ _ => trivial)
  | add | sub | mul | div | mod | exp | lt | gt | eq | and | or | xor => exact binary _
  | stop => exact halt _
  | isZero | callDataLoad => exact bind .pop fun _ => bind (.push _) fun _ => none
  | pop => exact bind .pop fun _ => none
  | dup1 =>
    refine bind .get fun m => ?_
    dsimp only
    split
    · exact bind (.push _) fun _ => none
    · exact halt _
  | swap1 =>
    refine ⟨fun m => ?_⟩; unfold Vm.instr; rw [wp_bind, wp_get]
    split
    · exact ⟨rfl, rfl⟩
    · trivial
  | callDataSize => exact bind (.push _) fun _ => none
  | returnDataSize => exact bind .get fun _ => bind (.push _) fun _ => none
  | returnDataCopy => exact bind .get fun _ => copyOp _
  | callDataCopy => exact copyOp _
  | mload => exact bind .pop fun _ => bind (.chargeMem _) fun _ => bind .get fun _ => bind (.push _) fun _ => none
  | mstore | mstore8 =>
    exact bind .pop fun _ => bind .pop fun _ => bind (.chargeMem _) fun _ => bind (.writeSlice _ _) fun _ => none
  | sload => exact bind .pop fun _ => bind .get fun _ => bind (.push _) fun _ => none
  | sstore =>
    exact bind .pop fun _ => bind .pop fun _ => bind .get fun _ => bind (.charge _) fun _ =>
      bind (.modify fun _ => rfl) fun _ => none
  | jumpdest => exact none
  | call => exact callOp _ _
  | ret | revert =>
    exact bind .pop fun _ => bind .pop fun _ => bind (.chargeMem _) fun _ => bind .get fun _ => throw _
  | voteWitness =>
    exact bind .pop fun _ => bind .pop fun _ => bind .pop fun _ => bind .pop fun _ => bind (.charge _) fun _ =>
      bind (.chargeMem _) fun _ => bind (.push _) fun _ => none
  | selfDestruct => exact selfDestructOp _ _
  | _ => exact halt _

end FallsThrough

/-! ## The jumps of a frame -/

/-- The destination of the JUMP or taken JUMPI that an instruction executes, if any. -/
def executedJump (byte : UInt8) : Op (Option U256) := do
  match OpCode.fromU8 byte with
  | some .jump => do
    charge (baseCost .jump)
    let dest ← pop
    pure (some dest)
  | some .jumpi => do
    charge (baseCost .jumpi)
    let dest ← pop
    let cond ← pop
    pure (if cond = 0 then none else some dest)
  | _ => pure none

/-- The position of a JUMPDEST that is an instruction. -/
def ValidDest (code : Bytes) (d : Nat) : Prop := code[d]? = some 0x5b ∧ d ∈ boundaries code

/-- Every jump the frame executes continues at its destination if that is valid, and halts with BadJump otherwise. -/
def JumpsValid (cr : Crypto) (f : Frame) : Prop :=
  ∀ m byte dest, f.Head cr m → f.ctx.code[m.pc]? = some byte → observe (executedJump byte) m = some dest →
    (ValidDest f.ctx.code dest.toNat ∧ ∃ m', step cr (runFrame cr) f.ctx byte m = .ok () m' ∧ m'.pc = dest.toNat) ∨
    (¬ ValidDest f.ctx.code dest.toNat ∧ ∃ m', step cr (runFrame cr) f.ctx byte m = .error (.halt .badJump []) m')

section Jumps
variable {sub : SubRun} {ctx : Ctx} {byte : UInt8} {m m' : Machine} {dest : U256}

/-- Sequencing, as far as what is observed. -/
lemma observe_bind_eq_some {α : Type} {r : Op β} {q : β → Op (Option α)} {x : α}
    (h : observe (r >>= q) m = some x) : ∃ b m1, r m = .ok b m1 ∧ observe (q b) m1 = some x := by
  cases hr : r m with
  | ok b m1 => exact ⟨b, m1, rfl, (observe_bind hr).symm.trans h⟩
  | error =>
    have hnone : observe (r >>= q) m = none := by unfold observe; rw [seq_of_error hr]
    rw [hnone] at h; cases h

/-- A jump has paid and popped when its destination is checked. -/
lemma step_of_jump (cr : Crypto) (sub : SubRun) (ctx : Ctx) (h : observe (executedJump byte) m = some dest) :
    ∃ m1, step cr sub ctx byte m = (jumpTo ctx.code dest >>= advance) m1 := by
  unfold executedJump at h
  cases hop : OpCode.fromU8 byte with
  | none =>
    rw [hop] at h; cases h
  | some op =>
    rw [hop] at h
    cases op with
    | jump =>
      obtain ⟨_, m1, hcharge, h⟩ := observe_bind_eq_some h
      obtain ⟨d, m2, hpop, h⟩ := observe_bind_eq_some h
      cases h; refine ⟨m2, ?_⟩
      rw [step_of_op hop (by decide), seq_of_ok hcharge, Vm.instr, bind_assoc, seq_of_ok hpop]
    | jumpi =>
      obtain ⟨_, m1, hcharge, h⟩ := observe_bind_eq_some h
      obtain ⟨d, m2, hpop, h⟩ := observe_bind_eq_some h
      obtain ⟨cond, m3, hpop', h⟩ := observe_bind_eq_some h
      by_cases hcond : cond = 0
      · rw [if_pos hcond] at h; cases h
      · rw [if_neg hcond] at h; cases h; refine ⟨m3, ?_⟩
        rw [step_of_op hop (by decide), seq_of_ok hcharge, Vm.instr, bind_assoc, seq_of_ok hpop, bind_assoc,
          seq_of_ok hpop', if_neg hcond]
    | _ => cases h

lemma FallsThrough.step {p : Op (Option Nat)} {k : Nat} (h : FallsThrough k p) (hs : (p >>= advance) m = .ok () m') :
    m'.pc = m.pc + 1 + k := by
  obtain ⟨r, m1, hp, hadv⟩ := seq_eq_ok.mp hs
  obtain ⟨rfl, hpc⟩ := ok_of_wp (h.at_machine m) hp
  cases hadv; show m1.pc + 1 = _; omega

/-- **Without a jump** the loop goes on behind the instruction. -/
theorem pc_of_step (hjump : observe (executedJump byte) m = none) (hs : step cr sub ctx byte m = .ok () m') :
    m'.pc = m.pc + 1 + immediates byte := by
  cases hop : OpCode.fromU8 byte with
  | none =>
    unfold Vm.step at hs; rw [hop] at hs; cases hs
  | some op =>
    by_cases hstore : op = .sstore
    · subst hstore
      have hinstr : (instr cr sub ctx byte .sstore >>= advance) m = .ok () m' := by
        unfold Vm.step at hs; rw [hop] at hs; exact hs
      exact (FallsThrough.instr hop (by decide) (by decide)).step hinstr
    · rw [step_of_op hop hstore] at hs; obtain ⟨_, m1, hcharge, hs⟩ := seq_eq_ok.mp hs
      have hpc := ok_of_wp ((Stays.charge _).at_machine m) hcharge
      rw [← hpc]; unfold executedJump at hjump; rw [hop] at hjump
      by_cases hj : op = .jump
      · subst hj; obtain ⟨r, m2, hr, hadv⟩ := seq_eq_ok.mp hs
        obtain ⟨d, m3, hpop, hto⟩ := seq_eq_ok.mp hr; dsimp only at hjump
        rw [observe_bind hcharge, observe_bind hpop] at hjump; cases hjump
      · by_cases hji : op = .jumpi
        · subst hji; obtain ⟨r, m2, hr, hadv⟩ := seq_eq_ok.mp hs
          obtain ⟨d, m3, hpop, hr⟩ := seq_eq_ok.mp hr
          obtain ⟨cond, m4, hpop', hr⟩ := seq_eq_ok.mp hr
          dsimp only at hjump; rw [observe_bind hcharge, observe_bind hpop, observe_bind hpop'] at hjump
          by_cases hcond : cond = 0
          · -- not taken
            rw [if_pos hcond] at hr; cases hr; cases hadv
            have h3 := ok_of_wp (Stays.pop.at_machine m1) hpop
            have h4 := ok_of_wp (Stays.pop.at_machine m3) hpop'
            have himm : immediates byte = 0 := by rw [immediates, hop]
            show m2.pc + 1 = _; omega
          · rw [if_neg hcond] at hjump; cases hjump
        · exact (FallsThrough.instr hop hj hji).step hs

variable {f : Frame}

/-- What the check makes of a destination, when the length of the code fits `usize`. -/
lemma jumpTo_cases (cr : Crypto) (sub : SubRun) (hlen : ctx.code.length < 2 ^ 64)
    (h : observe (executedJump byte) m = some dest) :
    (ctx.code[dest.toNat]? = some 0x5b ∧ ∃ m', step cr sub ctx byte m = .ok () m' ∧ m'.pc = dest.toNat) ∨
    (ctx.code[dest.toNat]? ≠ some 0x5b ∧ ∃ m', step cr sub ctx byte m = .error (.halt .badJump []) m') := by
  obtain ⟨m1, hstep⟩ := step_of_jump cr sub ctx h
  rw [hstep]
  by_cases hgood : ctx.code[dest.toNat]? = some 0x5b
  · have hlt : dest.toNat < ctx.code.length := (List.getElem?_eq_some_iff.mp hgood).1
    have hlow : low64 dest = dest.toNat := Nat.mod_eq_of_lt (hlt.trans hlen)
    refine .inl ⟨hgood, { m1 with pc := dest.toNat }, ?_, rfl⟩
    have hto : jumpTo ctx.code dest m1 = .ok (some dest.toNat) m1 := by
      unfold jumpTo; rw [hlow, if_neg (by simp [hgood, hlt.le])]; rfl
    rw [seq_of_ok hto]; rfl
  · refine .inr ⟨hgood, m1, ?_⟩
    have hbad : jumpTo ctx.code dest m1 = .error (.halt .badJump []) m1 := by
      unfold jumpTo
      rw [if_pos]
      · rfl
      · by_cases hle : dest.toNat ≤ ctx.code.length
        · rw [low64, Nat.mod_eq_of_lt (hle.trans_lt hlen)]; exact .inr hgood
        · exact .inl (Nat.lt_of_not_le hle)
    exact seq_of_error hbad

/-- With valid jumps the frame stays on the instructions. -/
lemma JumpsValid.fetched (h : JumpsValid cr f) (hm : f.Head cr m) (hlt : m.pc < f.ctx.code.length) :
    m.pc ∈ boundaries f.ctx.code := by
  have hinv : f.Head cr m ∧ (m.pc < f.ctx.code.length → m.pc ∈ boundaries f.ctx.code) := by
    refine hm.induction (P := fun m => f.Head cr m ∧ (m.pc < f.ctx.code.length → m.pc ∈ boundaries f.ctx.code))
      ⟨.start hm.depth_le, zero_mem_boundaries⟩ ?_
    intro m byte m' hm hf hs; refine ⟨hm.1.next hf hs, fun hlt' => ?_⟩
    cases hj : observe (executedJump byte) m with
    | none =>
      have hpc := pc_of_step hj hs; rw [hpc] at hlt' ⊢
      exact next_mem_boundaries (hm.2 (List.getElem?_eq_some_iff.mp hf).1) hf hlt'
    | some dest =>
      rcases h m byte dest hm.1 hf hj with ⟨hvalid, m2, hs2, hpc⟩ | ⟨_, m2, hs2⟩
      · rw [hs] at hs2; cases hs2; rw [hpc]
        exact hvalid.2
      · rw [hs] at hs2; cases hs2
  exact hinv.2 hlt

lemma jumpsValid_of_fetched (hlen : f.ctx.code.length < 2 ^ 64)
    (h : ∀ m, f.Head cr m → f.ctx.code[m.pc]? = some 0x5b → m.pc ∈ boundaries f.ctx.code) : JumpsValid cr f := by
  intro m byte dest hm hf hj
  rcases jumpTo_cases cr (runFrame cr) hlen hj with ⟨hgood, m', hs, hpc⟩ | ⟨hbad, m', hs⟩
  · refine .inl ⟨⟨hgood, ?_⟩, m', hs, hpc⟩; have hfetched := h m' (hm.next hf hs); rw [hpc] at hfetched
    exact hfetched hgood
  · exact .inr ⟨fun hvalid => hbad hvalid.1, m', hs⟩

end Jumps

/-- **The jumps of a frame are valid exactly when it never fetches an immediate byte.** A slice's length fits
`usize`. -/
theorem jumps_valid_iff (cr : Crypto) (f : Frame) (hlen : f.ctx.code.length < 2 ^ 64) :
    JumpsValid cr f ↔ ∀ m, f.Head cr m → m.pc < f.ctx.code.length → m.pc ∈ boundaries f.ctx.code := by
  refine ⟨fun h m hm hlt => h.fetched hm hlt, fun h => jumpsValid_of_fetched hlen fun m hm hgood => ?_⟩
  exact h m hm (List.getElem?_eq_some_iff.mp hgood).1

/-- Whatever is executed, when no immediate byte is `0x5b`. -/
lemma jumpsValid_of_code {f : Frame} (hlen : f.ctx.code.length < 2 ^ 64)
    (hcode : ∀ d, f.ctx.code[d]? = some 0x5b → d ∈ boundaries f.ctx.code) : JumpsValid cr f :=
  jumpsValid_of_fetched hlen fun m _ hgood => hcode m.pc hgood

/-- PUSH1 3, JUMP, JUMPDEST, STOP. -/
def plainJump : Frame := ⟨World.new, ⟨[], [0x60, 3, 0x56, 0x5b, 0x00], [], 0⟩, 100⟩

theorem plainJump_valid : JumpsValid noCrypto plainJump ∧ ∀ m, plainJump.Head noCrypto m →
    m.pc < plainJump.ctx.code.length → m.pc ∈ boundaries plainJump.ctx.code := by
  have hcode : ∀ d < 5, plainJump.ctx.code[d]? = some 0x5b → d ∈ boundaries plainJump.ctx.code := by decide +kernel
  have hvalid : JumpsValid noCrypto plainJump :=
    jumpsValid_of_code (by decide) fun d hd => hcode d (List.getElem?_eq_some_iff.mp hd).1 hd
  exact ⟨hvalid, (jumps_valid_iff noCrypto plainJump (by decide)).mp hvalid⟩

/-- PUSH1 4, JUMP, PUSH1 `0x5b`, STOP. -/
def hiddenJump : Frame := ⟨World.new, ⟨[], [0x60, 4, 0x56, 0x60, 0x5b, 0x00], [], 0⟩, 100⟩

/-- Execution continues at position 4, inside the instruction at 3. -/
theorem jump_into_immediate : ¬ JumpsValid noCrypto hiddenJump ∧ boundaries hiddenJump.ctx.code = [0, 2, 3, 5] ∧
    ∃ m, hiddenJump.Head noCrypto m ∧ m.pc = 4 := by
  have hboundaries : boundaries hiddenJump.ctx.code = [0, 2, 3, 5] := by decide +kernel
  have hhead : (hiddenJump.headAt noCrypto 2).map Machine.pc = some 4 := by decide +kernel
  obtain ⟨m, hm, hpc⟩ := Option.map_eq_some_iff.mp hhead
  refine ⟨fun h => ?_, hboundaries, m, .of_headAt hm, hpc⟩
  have hfetched := h.fetched (.of_headAt hm) (by rw [hpc]; decide)
  rw [hpc, hboundaries] at hfetched; exact absurd hfetched (by decide)

end TronRs.Vm

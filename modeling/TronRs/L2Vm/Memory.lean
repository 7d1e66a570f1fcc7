import TronRs.L2Vm.Traced

/-!
# The memory of a frame: size, bounds and price

`crates/vm/src/memory.rs` and `memory_expansion_cost` of `energy.rs`, along the log of a whole frame (`Traced`).

* `memory_paid_first_iff`: `expand_to` resizes before the charge, so the memory of a frame stays within what its energy
  limit could pay for exactly when no instruction asks for more than that. `unpaid_memory_allocated`: a frame with 9
  units of energy, which pay for three words, ends with nine.
* `memory_safe`: as long as no instruction asks for more than a bound below `2 ^ 37` bytes, whether they can be paid for
  or not, memory only grows, in whole words and not beyond the bound, every access is in bounds, nothing panics, and
  what has been charged is the price `3 * w + w ^ 2 / 512` of the words there are. `far_store_panics`: near `2 ^ 64` the
  sum `end + 31` wraps, the memory is cut back to nothing and the store panics.
* `energy_accounting`: where no instruction asks for more than `2 ^ 63 - 32` bytes, a frame returns having used at most
  its limit, all but a 64th is forwarded to a callee at most, the caller is charged exactly what the callee used (the
  charge whose result the source ignores succeeds) and keeps its 64th.
-/
namespace TronRs.Vm

open TronRs.Core TronRs.Core.Logged

variable {cr : Crypto}

/-- What `w` words of memory cost. -/
def memoryPrice (w : Nat) : Nat := 3 * w + w * w / 512

lemma memoryPrice_mono {v w : Nat} (h : v ≤ w) : memoryPrice v ≤ memoryPrice w := by
  unfold memoryPrice; have hsq : v * v / 512 ≤ w * w / 512 := Nat.div_le_div_right (Nat.mul_le_mul h h)
  omega

/-- The sizes the memory has had, the newest first. -/
def sizes (l : List MemEvent) : List Nat :=
  l.filterMap fun
    | .sized size => some size
    | _ => none

@[simp] lemma sizes_nil : sizes [] = [] := rfl
@[simp] lemma sizes_ask (size stop : Nat) (l : List MemEvent) : sizes (.ask size stop :: l) = sizes l := rfl
@[simp] lemma sizes_sized (size : Nat) (l : List MemEvent) : sizes (.sized size :: l) = size :: sizes l := rfl
@[simp] lemma sizes_paid (cost : Nat) (l : List MemEvent) : sizes (.paid cost :: l) = sizes l := rfl
@[simp] lemma sizes_index (off len size : Nat) (l : List MemEvent) : sizes (.index off len size :: l) = sizes l := rfl
@[simp] lemma sizes_enter (g : Frame) (l : List MemEvent) : sizes (.enter g :: l) = sizes l := rfl

/-! ## Memory is to be paid for before it is allocated -/

/-- `size` bytes are within what an energy limit of `E` can pay for. -/
def Affordable (E size : Nat) : Prop := ∃ w, size ≤ 32 * w ∧ memoryPrice w ≤ E

lemma affordable_words {E w : Nat} : Affordable E (w * 32) ↔ memoryPrice w ≤ E := by
  constructor
  · intro h; obtain ⟨v, hv, hE⟩ := h; exact (memoryPrice_mono (by omega)).trans hE
  · intro h; exact ⟨w, by omega, h⟩

/-- Every size the memory has had so far is affordable. -/
def PaidFirst (E : Nat) (s : Machine × List MemEvent) : Prop := ∀ size ∈ s.1.mem.length :: sizes s.2, Affordable E size

/-- What is asked for is there already, or too large to be allocated at all, or affordable. -/
def AsksAffordable (E : Nat) (l : List MemEvent) : Prop := ∀ size stop, .ask size stop ∈ l →
  stop ≤ size ∨ 2 ^ 63 ≤ newWords stop * 32 ∨ memoryPrice (newWords stop) ≤ E

section PaidFirst
variable {E d size stop size' cost : Nat} {l : List MemEvent}

lemma affordable_zero (E : Nat) : Affordable E 0 := ⟨0, le_rfl, Nat.zero_le E⟩

/-- The size of the memory is the one it was last given. -/
lemma Trail.size_mem (h : Trail d size l) : size = 0 ∨ size ∈ sizes l := by
  induction h with
  | start => exact .inl rfl
  | paid | index => exact .inr (by simp)
  | enter _ _ ih => exact ih

lemma asksAffordable_ask : AsksAffordable E (.ask size stop :: l) ↔
    (stop ≤ size ∨ 2 ^ 63 ≤ newWords stop * 32 ∨ memoryPrice (newWords stop) ≤ E) ∧ AsksAffordable E l := by
  simp [AsksAffordable, forall_and, or_imp]

lemma asksAffordable_sized : AsksAffordable E (.sized size :: l) ↔ AsksAffordable E l := by
  simp [AsksAffordable]

lemma asksAffordable_paid : AsksAffordable E (.paid cost :: l) ↔ AsksAffordable E l := by
  simp [AsksAffordable]

lemma asksAffordable_index {off len : Nat} : AsksAffordable E (.index off len size :: l) ↔ AsksAffordable E l := by
  simp [AsksAffordable]

lemma asksAffordable_enter {g : Frame} : AsksAffordable E (.enter g :: l) ↔ AsksAffordable E l := by
  simp [AsksAffordable]

/-- An expansion leaves an affordable size exactly when what was asked for was affordable. -/
lemma Expands.affordable_iff (h : Expands size stop size' cost) (hsize : Affordable E size) :
    Affordable E size' ↔ stop ≤ size ∨ 2 ^ 63 ≤ newWords stop * 32 ∨ memoryPrice (newWords stop) ≤ E := by
  cases h with
  | within hle => exact ⟨fun _ => .inl hle, fun _ => hsize⟩
  | resized =>
    rw [affordable_words]; refine ⟨fun hprice => .inr (.inr hprice), fun hask => ?_⟩
    rcases hask with hle | hbig | hprice
    · omega
    · omega
    · exact hprice

lemma Trail.affordable (h : Trail d size l) (hl : ∀ z ∈ sizes l, Affordable E z) : Affordable E size := by
  rcases h.size_mem with rfl | hmem
  · exact affordable_zero E
  · exact hl size hmem

lemma Trail.sizes_affordable_iff (h : Trail d size l) : (∀ z ∈ sizes l, Affordable E z) ↔ AsksAffordable E l := by
  induction h with
  | start => simp [AsksAffordable]
  | @paid size stop size' cost l hl hx ih =>
    rw [asksAffordable_paid, asksAffordable_sized, asksAffordable_ask, ← ih, sizes_paid, sizes_sized, sizes_ask,
      List.forall_mem_cons]
    exact and_congr_left fun hrest => hx.affordable_iff (hl.affordable hrest)
  | index => rwa [asksAffordable_index, sizes_index]
  | enter => rwa [asksAffordable_enter, sizes_enter]

lemma Trail.paidFirst_iff (h : Trail d size l) : (∀ z ∈ size :: sizes l, Affordable E z) ↔ AsksAffordable E l := by
  rw [← h.sizes_affordable_iff, List.forall_mem_cons]; exact and_iff_right_of_imp h.affordable

lemma LogEnd.paidFirst_iff {sub : SubRun} {e : Stop} (h : LogEnd sub d e size l) :
    (∀ z ∈ size :: sizes l, Affordable E z) ↔ AsksAffordable E l := by
  cases h with
  | trail _ hl => exact hl.paidFirst_iff
  | @unpaid size stop size' cost l hl hx =>
    rw [asksAffordable_sized, asksAffordable_ask, ← hl.sizes_affordable_iff, sizes_sized, sizes_ask,
      List.forall_mem_cons, List.forall_mem_cons, and_self_left]
    exact and_congr_left fun hrest => hx.affordable_iff (hl.affordable hrest)
  | tooLarge hl _ hbig =>
    rw [asksAffordable_ask, sizes_ask, hl.paidFirst_iff]; exact (and_iff_right (.inr (.inl hbig))).symm
  | outside hl | nested hl => exact hl.paidFirst_iff

end PaidFirst

/-- **Memory is paid for before it is allocated** exactly when no instruction of the frame asks for memory (of a size
that can be allocated) whose whole price is beyond the frame's energy limit. -/
theorem memory_paid_first_iff (cr : Crypto) (f : Frame) :
    (∀ s, f.Point cr s → PaidFirst f.limit s) ↔ ∀ s, f.Point cr s → AsksAffordable f.limit s.2 := by
  refine forall₂_congr fun s hs => ?_
  rcases hs.cases with hl | ⟨e, hl⟩
  · exact hl.paidFirst_iff
  · exact hl.paidFirst_iff

/-- MSTORE of 0 at offset 255, with the energy for the three instructions and nothing for the memory. -/
def greedyStore : Frame := ⟨World.new, ⟨[], [0x60, 0, 0x60, 255, 0x52], [], 0⟩, 9⟩

/-- The frame ends out of energy with 288 bytes of memory, which cost 27. -/
theorem unpaid_memory_allocated :
    ∃ s, greedyStore.Point noCrypto s ∧ s.1.mem.length = 288 ∧ ¬ PaidFirst greedyStore.limit s ∧
      ∃ e w, greedyStore.run noCrypto = .ok (e, w) ∧ e.halt = .outOfEnergy := by
  have hpoint : (greedyStore.pointAt noCrypto 2).map (fun s => s.1.mem.length) = some 288 := by decide +kernel
  obtain ⟨s, hs, hsize⟩ := Option.map_eq_some_iff.mp hpoint
  have hrun : (greedyStore.run noCrypto).toOption.map (fun r => r.1.halt) = some .outOfEnergy := by decide +kernel
  obtain ⟨r, hr, hhalt⟩ := Option.map_eq_some_iff.mp hrun
  refine ⟨s, .of_pointAt hs, hsize, fun hpaid => ?_, r.1, r.2, ?_, hhalt⟩
  · have h288 : Affordable 9 (9 * 32) := hpaid _ (by rw [hsize]; exact List.mem_cons_self)
    exact absurd (affordable_words.mp h288) (by decide)
  cases hres : greedyStore.run noCrypto with
  | ok =>
    rw [hres] at hr; cases hr; rfl
  | error =>
    rw [hres] at hr; cases hr

/-! ## Size, bounds and price -/

/-- What the expansion charges that succeeded add up to. -/
def paidTotal (l : List MemEvent) : Nat :=
  (l.filterMap fun
    | .paid cost => some cost
    | _ => none).sum

@[simp] lemma paidTotal_nil : paidTotal [] = 0 := rfl
@[simp] lemma paidTotal_ask (size stop : Nat) (l : List MemEvent) :
    paidTotal (.ask size stop :: l) = paidTotal l := rfl
@[simp] lemma paidTotal_sized (size : Nat) (l : List MemEvent) : paidTotal (.sized size :: l) = paidTotal l := rfl
@[simp] lemma paidTotal_paid (cost : Nat) (l : List MemEvent) : paidTotal (.paid cost :: l) = cost + paidTotal l := by
  simp [paidTotal]

/-- The frame has paid the price of the memory it has. -/
def Priced (s : Machine × List MemEvent) : Prop := paidTotal s.2 = memoryPrice (s.1.mem.length / 32)

/-- The memory has just grown and the charge for that has not succeeded: the frame runs out of energy on it. -/
def Owing : List MemEvent → Prop
  | .sized size' :: .ask size _ :: _ => size < size'
  | _ => False

/-- The memory, now of `size` bytes, has always been of whole words, has never shrunk, and every access was in
bounds. -/
structure Sound (size : Nat) (l : List MemEvent) : Prop where
  aligned : ∀ z ∈ size :: sizes l, z % 32 = 0
  grows : (size :: sizes l).Pairwise (· ≥ ·)
  inBounds : ∀ off len z, .index off len z ∈ l → off + len ≤ z

/-- No memory beyond `bound` bytes is asked for, whether the expansion is then paid or not. -/
def AsksNarrow (bound : Nat) (l : List MemEvent) : Prop := ∀ size stop, .ask size stop ∈ l → stop ≤ bound

section Sound
variable {d size stop size' cost bound : Nat} {l : List MemEvent}

lemma Sound.start : Sound 0 [] := ⟨by simp, by simp, by simp⟩

lemma AsksNarrow.tail {e : MemEvent} (h : AsksNarrow bound (e :: l)) : AsksNarrow bound l :=
  fun size stop hmem => h size stop (List.mem_cons_of_mem _ hmem)

lemma AsksNarrow.head (h : AsksNarrow bound (.ask size stop :: l)) : stop ≤ bound := h size stop List.mem_cons_self

/-- Where nothing wraps. -/
lemma Expands.covers (h : Expands size stop size' cost) (hstop : stop ≤ 2 ^ 63 - 32) :
    stop ≤ size' ∧ size ≤ size' ∧ (size % 32 = 0 → size' % 32 = 0) := by
  cases h with
  | within hle => exact ⟨hle, le_rfl, fun h => h⟩
  | resized hlt hfits =>
    unfold newWords at hfits ⊢; omega

lemma Expands.size_lt (h : Expands size stop size' cost) (hstop : stop ≤ bound) (hsize : size < bound + 32) :
    size' < bound + 32 := by
  cases h with
  | within => exact hsize
  | resized =>
    unfold newWords; omega

/-- What is allocated stays below the next word after the bound. -/
lemma Trail.sizes_lt (h : Trail d size l) (hl : AsksNarrow bound l) : ∀ z ∈ size :: sizes l, z < bound + 32 := by
  induction h with
  | start => simp
  | paid _ hx ih =>
    have hbefore := ih hl.tail.tail.tail
    have hnew := hx.size_lt hl.tail.tail.head (hbefore _ List.mem_cons_self)
    rw [sizes_paid, sizes_sized, sizes_ask, List.forall_mem_cons, List.forall_mem_cons]
    exact ⟨hnew, hnew, fun z hz => hbefore z (List.mem_cons_of_mem _ hz)⟩
  | index _ _ ih | enter _ _ ih => exact ih hl.tail

lemma LogEnd.sizes_lt {sub : SubRun} {e : Stop} (h : LogEnd sub d e size l) (hl : AsksNarrow bound l) :
    ∀ z ∈ size :: sizes l, z < bound + 32 := by
  cases h with
  | trail _ ht | outside ht | nested ht => exact ht.sizes_lt hl
  | unpaid ht hx =>
    have hbefore := ht.sizes_lt hl.tail.tail
    have hnew := hx.size_lt hl.tail.head (hbefore _ List.mem_cons_self)
    rw [sizes_sized, sizes_ask, List.forall_mem_cons, List.forall_mem_cons]
    exact ⟨hnew, hnew, fun z hz => hbefore z (List.mem_cons_of_mem _ hz)⟩
  | tooLarge ht => exact ht.sizes_lt hl.tail

variable (h : Sound size l)
include h

lemma Sound.ask (size0 stop : Nat) : Sound size (.ask size0 stop :: l) := by
  refine ⟨h.aligned, h.grows, fun off len z hmem => h.inBounds off len z ?_⟩; simpa using hmem

lemma Sound.paid (cost : Nat) : Sound size (.paid cost :: l) := by
  refine ⟨h.aligned, h.grows, fun off len z hmem => h.inBounds off len z ?_⟩; simpa using hmem

lemma Sound.enter (g : Frame) : Sound size (.enter g :: l) := by
  refine ⟨h.aligned, h.grows, fun off len z hmem => h.inBounds off len z ?_⟩; simpa using hmem

lemma Sound.index {off len : Nat} (hin : off + len ≤ size) : Sound size (.index off len size :: l) := by
  refine ⟨h.aligned, h.grows, fun off' len' z hmem => ?_⟩
  rcases List.mem_cons.mp hmem with heq | hmem
  · cases heq; exact hin
  · exact h.inBounds off' len' z hmem

lemma Sound.sized (hle : size ≤ size') (halign : size' % 32 = 0) : Sound size' (.sized size' :: l) := by
  have hall := List.pairwise_cons.mp h.grows
  refine ⟨fun z hz => ?_, ?_, fun off len z hmem => h.inBounds off len z (by simpa using hmem)⟩
  · simp only [sizes_sized, List.mem_cons] at hz
    rcases hz with rfl | rfl | hz
    · exact halign
    · exact halign
    · exact h.aligned z (List.mem_cons_of_mem _ hz)
  · have hbelow : ∀ z ∈ sizes l, size' ≥ z := fun z hz => (hall.1 z hz).trans hle
    rw [sizes_sized, List.pairwise_cons, List.pairwise_cons, List.forall_mem_cons]
    exact ⟨⟨le_rfl, hbelow⟩, hbelow, hall.2⟩

lemma Sound.expand (hx : Expands size stop size' cost) (hstop : stop ≤ 2 ^ 63 - 32) :
    Sound size' (.sized size' :: .ask size stop :: l) := by
  obtain ⟨-, hle, halign⟩ := hx.covers hstop
  exact (h.ask size stop).sized hle (halign (h.aligned size List.mem_cons_self))

omit h

lemma Trail.sound (h : Trail d size l) (hbound : bound ≤ 2 ^ 63 - 32) (hl : AsksNarrow bound l) : Sound size l := by
  induction h with
  | start => exact .start
  | paid _ hx ih =>
    exact ((ih hl.tail.tail.tail).expand hx (hl.tail.tail.head.trans hbound)).paid _
  | index ht hsat ih =>
    refine (ih hl.tail).index ?_
    cases ht with
    | paid _ hx =>
      have hstop := hl.tail.tail.tail.head.trans hbound
      have hcov := (hx.covers hstop).1; unfold satAdd64 at hsat; omega
  | enter _ _ ih => exact (ih hl.tail).enter _

lemma memoryCost_eq {w : Nat} (h : w < 2 ^ 32) : memoryCost w = memoryPrice w := by
  have hsq : w * w < 2 ^ 32 * 2 ^ 32 := Nat.mul_lt_mul'' h h
  unfold memoryCost memoryPrice memoryWord; omega

/-- The charge for an expansion is the difference of the prices. -/
lemma memoryPrice_add_expansionCost {v w : Nat} (hvw : v ≤ w) (hw : w < 2 ^ 32) :
    memoryPrice v + memoryExpansionCost v w = memoryPrice w := by
  have hmono := memoryPrice_mono hvw
  have hbound : memoryPrice w < 2 ^ 64 := by rw [← memoryCost_eq hw]; exact Nat.mod_lt _ (by decide)
  unfold memoryExpansionCost
  split
  · rw [show v = w by omega, Nat.add_zero]
  · rw [memoryCost_eq hw, memoryCost_eq (by omega)]; omega

lemma Expands.price (h : Expands size stop size' cost) (halign : size % 32 = 0) (hstop : stop ≤ 2 ^ 63 - 32)
    (hsize : size' < 2 ^ 37) : memoryPrice (size / 32) + cost = memoryPrice (size' / 32) := by
  have hcov := h.covers hstop
  cases h with
  | within => rfl
  | resized hlt _ =>
    have hcur : (size + 31) / 32 = size / 32 := by omega
    have hnew : newWords stop * 32 / 32 = newWords stop := by omega
    rw [hnew, hcur]
    exact memoryPrice_add_expansionCost (by omega) (by omega)

lemma Trail.priced (h : Trail d size l) (hbound : bound ≤ 2 ^ 37 - 32) (hl : AsksNarrow bound l) :
    paidTotal l = memoryPrice (size / 32) := by
  have hsize := h.sizes_lt hl _ List.mem_cons_self
  induction h with
  | start => rfl
  | paid ht hx ih =>
    have hbefore := hl.tail.tail.tail
    have halign := (ht.sound (hbound.trans (by norm_num)) hbefore).aligned _ List.mem_cons_self
    have hprice := hx.price halign ((hl.tail.tail.head.trans hbound).trans (by norm_num)) (by omega)
    rw [paidTotal_paid, paidTotal_sized, paidTotal_ask, ih hbefore (ht.sizes_lt hbefore _ List.mem_cons_self)]; omega
  | index _ _ ih | enter _ _ ih => exact ih hl.tail hsize

lemma Trail.not_owing (h : Trail d size l) : ¬ Owing l := by
  intro ho; cases h <;> exact ho

variable {sub : SubRun} {e : Stop}

lemma LogEnd.sound (h : LogEnd sub d e size l) (hbound : bound ≤ 2 ^ 63 - 32) (hl : AsksNarrow bound l) :
    Sound size l := by
  cases h with
  | trail _ ht => exact ht.sound hbound hl
  | unpaid ht hx => exact (ht.sound hbound hl.tail.tail).expand hx (hl.tail.head.trans hbound)
  | tooLarge ht _ _ => exact (ht.sound hbound hl.tail).ask _ _
  | outside ht | nested ht => exact ht.sound hbound hl

lemma Trail.priced_iff (h : Trail d size l) (hbound : bound ≤ 2 ^ 37 - 32) (hl : AsksNarrow bound l) :
    paidTotal l = memoryPrice (size / 32) ↔ ¬ Owing l :=
  iff_of_true (h.priced hbound hl) h.not_owing

lemma memoryPrice_lt {v w : Nat} (h : v < w) : memoryPrice v < memoryPrice w := by
  have hmono : v * v / 512 ≤ w * w / 512 := Nat.div_le_div_right (Nat.mul_le_mul h.le h.le)
  unfold memoryPrice; omega

lemma LogEnd.priced_iff (h : LogEnd sub d e size l) (hbound : bound ≤ 2 ^ 37 - 32) (hl : AsksNarrow bound l) :
    paidTotal l = memoryPrice (size / 32) ↔ ¬ Owing l := by
  have hfits : bound ≤ 2 ^ 63 - 32 := hbound.trans (by norm_num)
  cases h with
  | trail _ ht => exact ht.priced_iff hbound hl
  | @unpaid size0 _ _ _ _ ht hx =>
    have hpaid := ht.priced hbound hl.tail.tail
    have halign := (ht.sound hfits hl.tail.tail).aligned _ List.mem_cons_self
    have hcov := hx.covers (hl.tail.head.trans hfits); rw [paidTotal_sized, paidTotal_ask, hpaid]
    refine ⟨fun hprice howing => ?_, fun hnot => ?_⟩
    · have hlt : size0 < size := howing
      have := memoryPrice_lt (show size0 / 32 < size / 32 by omega)
      omega
    · have heq : size0 = size := le_antisymm hcov.2.1 (Nat.le_of_not_lt hnot)
      rw [heq]
  | tooLarge ht hlt hbig =>
    have hstop := hl.head; unfold newWords at hbig; omega
  | outside ht | nested ht => exact ht.priced_iff hbound hl

/-- Only the panic of a frame that was entered stops a frame with a panic. -/
lemma LogEnd.nested_of_panic (h : LogEnd sub d (.abort .panic) size l) (hbound : bound ≤ 2 ^ 63 - 32)
    (hl : AsksNarrow bound l) :
    ∃ g, .enter g ∈ l ∧ g.ctx.depth = d + 1 ∧ sub g.world g.ctx g.limit = .error .panic := by
  cases h with
  | trail hne => exact absurd rfl hne
  | tooLarge ht hlt hbig =>
    have hstop := hl.head; unfold newWords at hbig; omega
  | outside ht =>
    have hin := (ht.sound hbound hl).inBounds _ _ _ List.mem_cons_self
    omega
  | nested ht hs =>
    cases ht with
    | enter _ hdepth => exact ⟨_, List.mem_cons_self, hdepth, hs⟩

end Sound

/-- The frame is one of those that a run of `f` runs: `f`, or one entered by a frame inside `f`. -/
inductive Frame.Inside (cr : Crypto) (f : Frame) : Frame → Prop where
  | self : Inside cr f f
  | call {g h : Frame} {s : Machine × List MemEvent} : Inside cr f g → g.Point cr s → .enter h ∈ s.2 → Inside cr f h

/-- No instruction of the frame asks for memory beyond `bound` bytes. Since `expand_to` allocates before the charge,
this is about what cannot be paid as well. -/
def Frame.Narrow (cr : Crypto) (bound : Nat) (f : Frame) : Prop := ∀ s, f.Point cr s → AsksNarrow bound s.2

/-- The frame does not panic, and its memory is sound all the time. -/
structure Frame.MemorySafe (cr : Crypto) (f : Frame) : Prop where
  noPanic : f.run cr ≠ .error .panic
  sound : ∀ s, f.Point cr s → Sound s.1.mem.length s.2

namespace Frame
variable {f g : Frame} {s : Machine × List MemEvent} {bound : Nat}

lemma Inside.trans {h : Frame} (hg : f.Inside cr g) (hh : g.Inside cr h) : f.Inside cr h := by
  induction hh with
  | self => exact hg
  | call _ hs hmem ih => exact .call ih hs hmem

variable (h : f.Narrow cr bound)
include h

lemma Narrow.sound (hbound : bound ≤ 2 ^ 63 - 32) (hs : f.Point cr s) : Sound s.1.mem.length s.2 := by
  rcases hs.cases with ht | ⟨e, hend⟩
  · exact ht.sound hbound (h s hs)
  · exact hend.sound hbound (h s hs)

lemma Narrow.sizes_lt (hs : f.Point cr s) : ∀ z ∈ s.1.mem.length :: sizes s.2, z < bound + 32 := by
  rcases hs.cases with ht | ⟨e, hend⟩
  · exact ht.sizes_lt (h s hs)
  · exact hend.sizes_lt (h s hs)

lemma Narrow.priced_iff (hbound : bound ≤ 2 ^ 37 - 32) (hs : f.Point cr s) : Priced s ↔ ¬ Owing s.2 := by
  rcases hs.cases with ht | ⟨e, hend⟩
  · exact ht.priced_iff hbound (h s hs)
  · exact hend.priced_iff hbound (h s hs)

/-- A panic comes from a frame one deeper. -/
lemma Narrow.panics (hbound : bound ≤ 2 ^ 63 - 32) (hrun : f.run cr = .error .panic) :
    ∃ g, f.Inside cr g ∧ g.ctx.depth = f.ctx.depth + 1 ∧ g.run cr = .error .panic := by
  by_cases hd : f.ctx.depth ≤ maxCallDepth
  · have hstart : f.Head cr _ := .start hd
    obtain ⟨m, hm, hend⟩ := hstart.ends
    rcases hend with hf | ⟨byte, e, m', hf, hs⟩
    · rw [hm.run_of_end hf] at hrun; cases hrun
    cases e with
    | halt =>
      rw [hm.run_of_halt hf hs] at hrun; cases hrun
    | abort =>
      rw [hm.run_of_abort hf hs] at hrun; cases hrun; obtain ⟨l, hl⟩ := hm.exists_log
      obtain ⟨l', hs'⟩ := (erases_step cr (runFrame cr) f.ctx byte).exists_error (s := (m, l)) hs
      have hpoint : f.Point cr (m', l') := .stop hl hf hs'
      have hend := error_of_wp ((Tracks.step cr f.ctx byte).at_point m l hl.trail) hs'
      obtain ⟨g, hmem, hdepth, hg⟩ := hend.nested_of_panic hbound (h _ hpoint)
      exact ⟨g, .call .self hpoint hmem, hdepth, hg⟩
  · rw [run, runFrame, Vm.start, if_pos (by omega)] at hrun; cases hrun

omit h

/-- The depth is bounded, so no frame is left to panic. -/
lemma run_ne_panic (hbound : bound ≤ 2 ^ 63 - 32) (h : ∀ g, f.Inside cr g → g.Narrow cr bound) :
    f.run cr ≠ .error .panic := by
  induction hk : maxCallDepth + 1 - f.ctx.depth using Nat.strong_induction_on generalizing f with
  | _ k ih =>
    intro hrun; obtain ⟨g, hg, hdepth, hpanic⟩ := (h f .self).panics hbound hrun
    by_cases hd : f.ctx.depth ≤ maxCallDepth
    · exact ih (maxCallDepth + 1 - g.ctx.depth) (by omega) (fun x hx => h x (hg.trans hx)) rfl hpanic
    · rw [run, runFrame, Vm.start, if_pos (by omega)] at hrun; cases hrun

end Frame

/-- **Memory is safe and priced by its size** in a run whose frames all ask for memory within a bound: no frame panics,
the memory of each is of whole words, never shrinks, never goes beyond the bound and is accessed in bounds, and the
charges add up to the price of the memory there is except where the frame ends on a charge it cannot pay. -/
theorem memory_safe (cr : Crypto) (f : Frame) {bound : Nat} (hbound : bound ≤ 2 ^ 37 - 32)
    (h : ∀ g, f.Inside cr g → g.Narrow cr bound) : ∀ g, f.Inside cr g → g.MemorySafe cr ∧ ∀ s, g.Point cr s →
      (∀ z ∈ s.1.mem.length :: sizes s.2, z < bound + 32) ∧ (Priced s ↔ ¬ Owing s.2) := by
  have hfits : bound ≤ 2 ^ 63 - 32 := hbound.trans (by norm_num)
  intro g hg
  refine ⟨⟨?_, fun s hs => (h g hg).sound hfits hs⟩, fun s hs => ⟨(h g hg).sizes_lt hs, (h g hg).priced_iff hbound hs⟩⟩
  exact Frame.run_ne_panic hfits fun x hx => h x (hg.trans hx)

/-- Whether the log asks for memory within the bound and enters only frames that pass. -/
def narrowLog (bound : Nat) (passes : Frame → Bool) (l : List MemEvent) : Bool :=
  l.all fun
    | .ask _ stop => stop ≤ bound
    | .enter g => passes g
    | _ => true

/-- Whether the frame and the frames it runs, up to `depth` deep, come to their ends within `n` instructions each, with
such logs. -/
def Frame.narrowWithin (cr : Crypto) (bound n : Nat) : Nat → Frame → Bool
  | 0, _ => false
  | depth + 1, f =>
    let ok := fun s : Machine × List MemEvent => narrowLog bound (narrowWithin cr bound n depth) s.2
    (f.tracedAt cr n).isNone &&
      (List.range n).all fun k => (f.tracedAt cr k).all ok && (f.pointAt cr k).all ok

section Check
variable {f g : Frame} {s : Machine × List MemEvent} {l : List MemEvent} {n bound depth : Nat} {passes : Frame → Bool}

lemma asksNarrow_of_narrowLog (h : narrowLog bound passes l = true) : AsksNarrow bound l := by
  intro size stop hmem; have hask := List.all_eq_true.mp h _ hmem; simpa using hask

lemma passes_of_narrowLog (h : narrowLog bound passes l = true) (hmem : .enter g ∈ l) : passes g = true :=
  List.all_eq_true.mp h _ hmem

lemma Frame.tracedAt_lt {k : Nat} (hn : f.tracedAt cr n = none) (hk : f.tracedAt cr k = some s) : k < n := by
  by_contra hge; obtain ⟨j, rfl⟩ := Nat.exists_eq_add_of_le (Nat.le_of_not_lt hge)
  have hnone : ∀ j, f.tracedAt cr (n + j) = none := by
    intro j
    induction j with
    | zero => exact hn
    | succ j ih =>
      rw [← Nat.add_assoc, Frame.tracedAt, ih]; rfl
  rw [hnone] at hk; cases hk

lemma Frame.Point.narrow (h : f.narrowWithin cr bound n (depth + 1) = true) (hs : f.Point cr s) :
    narrowLog bound (Frame.narrowWithin cr bound n depth) s.2 = true := by
  unfold Frame.narrowWithin at h
  simp only [Bool.and_eq_true, Option.isNone_iff_eq_none, List.all_eq_true, List.mem_range, Option.all_eq_true] at h
  obtain ⟨hend, hall⟩ := h
  cases hs with
  | head hs =>
    obtain ⟨k, hk⟩ := hs.exists_tracedAt; exact (hall k (Frame.tracedAt_lt hend hk)).1 s hk
  | @stop s0 _ byte e hs hf hstop =>
    obtain ⟨k, hk⟩ := hs.exists_tracedAt; refine (hall k (Frame.tracedAt_lt hend hk)).2 s ?_
    rw [Frame.pointAt, hk, Option.bind_some, hf, Option.map_some, stateAfter, hstop]

lemma Frame.inside_narrow (h : f.narrowWithin cr bound n depth = true) (hg : f.Inside cr g) : g.Narrow cr bound := by
  -- a frame `d` below `f` passes with `depth - d` levels left
  obtain ⟨d, hd⟩ : ∃ d, g.narrowWithin cr bound n d = true := by
    induction hg with
    | self => exact ⟨depth, h⟩
    | call _ hs hmem ih =>
      obtain ⟨d, hd⟩ := ih
      cases d with
      | zero => cases hd
      | succ d => exact ⟨d, passes_of_narrowLog (hs.narrow hd) hmem⟩
  cases d with
  | zero => cases hd
  | succ d => exact fun s hs => asksNarrow_of_narrowLog (hs.narrow hd)

end Check

/-- MSTORE of 7 at offset 40. -/
def plainStore : Frame := ⟨World.new, ⟨[], [0x60, 7, 0x60, 40, 0x52], [], 0⟩, 100⟩

theorem plainStore_safe : plainStore.narrowWithin noCrypto 96 4 1 = true ∧ plainStore.MemorySafe noCrypto ∧
      ∃ s, plainStore.Point noCrypto s ∧ s.1.mem.length = 96 ∧ Priced s := by
  have hnarrow : plainStore.narrowWithin noCrypto 96 4 1 = true := by decide +kernel
  have hsafe := memory_safe noCrypto plainStore (by norm_num)
    (fun g hg => Frame.inside_narrow hnarrow hg) plainStore .self
  have hpoint : (plainStore.tracedAt noCrypto 3).map (fun s => (s.1.mem.length, s.2.length)) = some (96, 4) := by
    decide +kernel
  obtain ⟨s, hs, hsize⟩ := Option.map_eq_some_iff.mp hpoint
  have hhead : plainStore.Point noCrypto s := .head (.of_tracedAt hs)
  refine ⟨hnarrow, hsafe.1, s, hhead, congrArg Prod.fst hsize, (hsafe.2 s hhead).2.mpr ?_⟩
  exact (Frame.TracedHead.of_tracedAt hs).trail.not_owing

/-- MSTORE of 7 at offset 0, and then at offset `0 - 1`. -/
def farStore : Frame :=
  .entry World.new ⟨[], [0x60, 7, 0x60, 0, 0x52, 0x60, 7, 0x60, 1, 0x60, 0, 0x03, 0x52], [], 0⟩ 100

lemma farStore_run : farStore.run noCrypto = .error .panic := by
  have hfail : (farStore.run noCrypto).isOk = false := by decide +kernel
  rcases farStore.run_cases noCrypto with ⟨e, w, hok⟩ | hpanic
  · rw [hok] at hfail; cases hfail
  · exact hpanic

/-- The second store cuts the memory back to nothing and panics. -/
theorem far_store_panics : ¬ farStore.MemorySafe noCrypto ∧ farStore.run noCrypto = .error .panic ∧
    ∃ s, farStore.Point noCrypto s ∧ s.1.mem.length = 0 ∧ 32 ∈ sizes s.2 := by
  have hpoint : (farStore.pointAt noCrypto 7).map (fun s => (s.1.mem.length, sizes s.2)) = some (0, [0, 32]) := by
    decide +kernel
  obtain ⟨s, hs, hsizes⟩ := Option.map_eq_some_iff.mp hpoint
  obtain ⟨hlen, hsizes⟩ := Prod.mk.inj hsizes
  exact ⟨fun hsafe => hsafe.noPanic farStore_run, farStore_run, s, .of_pointAt hs, hlen, by simp [hsizes]⟩

/-! ## What a frame and its calls use -/

/-- **Energy accounting.** A frame whose run asks for no memory that cannot be addressed returns, on every energy limit,
having used at most its limit, and every call of a contract that its loop makes is accounted for. -/
theorem energy_accounting (cr : Crypto) (w : World) (ctx : Ctx) (limit : UInt64) {bound : Nat}
    (hbound : bound ≤ 2 ^ 63 - 32) (h : ∀ g, (Frame.entry w ctx limit).Inside cr g → g.Narrow cr bound) :
    (∃ e w', (Frame.entry w ctx limit).run cr = .ok (e, w') ∧ e.energyUsed ≤ limit.toNat) ∧
    ∀ m byte g m1, (Frame.entry w ctx limit).Head cr m → ctx.code[m.pc]? = some byte →
      startedFrame ctx byte m = .ok (some g) m1 → CallAccounted cr (Frame.entry w ctx limit) byte m g m1 := by
  have hrun := Frame.run_ne_panic hbound h
  refine ⟨?_, fun m byte g m1 hm hf hg => callAccounted limit.toNat_lt hrun hm hf hg⟩
  rcases (Frame.entry w ctx limit).run_cases cr with ⟨e, w', hok⟩ | hpanic
  · exact ⟨e, w', hok, Frame.energyUsed_le hok⟩
  · exact absurd hpanic hrun

/-- The call that `callingFrame` makes is forwarded 925 of the 939 units that are left, and accounted for. -/
theorem energy_accounting_call : callingFrame.narrowWithin noCrypto 96 12 2 = true ∧
    ∃ m g m1, callingFrame.Head noCrypto m ∧ startedFrame callingFrame.ctx 0xf1 m = .ok (some g) m1 ∧ g.limit = 925 ∧
      CallAccounted noCrypto callingFrame 0xf1 m g m1 := by
  have hnarrow : callingFrame.narrowWithin noCrypto 96 12 2 = true := by decide +kernel
  have haccount := energy_accounting noCrypto nestedWorld callingFrame.ctx 1000 (show 96 ≤ 2 ^ 63 - 32 by norm_num)
    fun g hg => Frame.inside_narrow hnarrow hg
  have hcall : ((callingFrame.headAt noCrypto 7).bind fun m =>
      (observe (startedFrame callingFrame.ctx 0xf1) m).map fun g => (g.limit, callingFrame.ctx.code[m.pc]?)) =
        some (925, some 0xf1) := by decide +kernel
  obtain ⟨m, hm, hobs⟩ := Option.bind_eq_some_iff.mp hcall
  obtain ⟨g, hg, hlimit⟩ := Option.map_eq_some_iff.mp hobs
  obtain ⟨hlimit, hbyte⟩ := Prod.mk.inj hlimit
  obtain ⟨m1, hm1⟩ := exists_of_observe hg
  have hhead := Frame.Head.of_headAt hm
  exact ⟨hnarrow, m, g, m1, hhead, hm1, hlimit, haccount.2 m _ g m1 hhead hbyte hm1⟩

/-- The frame that stores near `2 ^ 64` has no result, and no energy used. -/
theorem far_store_has_no_result : ¬ ∃ e w, (Frame.entry World.new farStore.ctx 100).run noCrypto = .ok (e, w) := by
  rintro ⟨e, w, hok⟩; have hpanic := farStore_run.symm.trans hok; cases hpanic

end TronRs.Vm

import TronRs.L2Vm.Termination

/-!
# Reverting a failed call

A CALL whose callee fails must leave no trace. `revertTo` undoes the records the journal
still holds, so it restores the caller's world exactly when nothing the callee did has lost
its record. A commit drops records: a nested call that succeeds inside a callee that later
fails has already made its writes permanent.

* `Journaled w w'`: the journal of `w'` extends that of `w`, and undoing the extension
  turns `w'` back into `w`. It is kept by storage writes and composes over a frame.
* `FrameRule`: what holds of a whole frame because of what its instructions do to the world.
* `frameRule_kept`: a frame in which no commit drops a record is `Journaled`, unless it ends in
  SELFDESTRUCT.
* `failed_call_restores`: then a failed CALL restores the world.
* `failed_call_keeps_inner_write`: a callee that fails after a successful nested call leaves
  the nested call's storage write behind.
-/
namespace TronRs.Vm

open TronRs.Core

variable {cr : Crypto} {ok : Bool}

/-- Everything a caller can read from two worlds agrees. -/
structure SameObs (w w' : World) : Prop where
  sload : ∀ addr slot, w'.sload addr slot = w.sload addr slot
  balance : ∀ addr, w'.balance addr = w.balance addr
  accountExists : ∀ addr, w'.accountExists addr = w.accountExists addr
  isSuicided : ∀ addr, w'.isSuicided addr = w.isSuicided addr
  burned : w'.burned = w.burned

namespace World

/-- Undoes a list of records, newest first. -/
def undoAll (es : List JournalEntry) (w : World) : World := es.foldl undo w

lemma undo_journal (w : World) (e : JournalEntry) (j : List JournalEntry) :
    ({ w with journal := j } : World).undo e = { w.undo e with journal := j } := by
  cases e with
  | storage key prev => cases prev <;> rfl
  | _ => rfl

lemma undoAll_journal (es : List JournalEntry) (w : World) (j : List JournalEntry) :
    ({ w with journal := j } : World).undoAll es = { w.undoAll es with journal := j } := by
  induction es generalizing w with
  | nil => rfl
  | cons e es ih =>
    show undoAll es (({ w with journal := j } : World).undo e) = _; rw [undo_journal, ih]; rfl

lemma revertLoop_append (es j : List JournalEntry) (w : World) :
    revertLoop j.length (es ++ j) w = { w.undoAll es with journal := j } := by
  induction es generalizing w with
  | nil =>
    cases j with
    | nil => rfl
    | cons => simp only [List.nil_append, revertLoop, Nat.lt_irrefl, if_false]; rfl
  | cons e es ih =>
    simp only [List.cons_append, revertLoop]
    rw [if_pos (by simp only [List.length_cons, List.length_append]; omega), ih]
    rfl

lemma commit_append {w : World} {es j : List JournalEntry} (h : w.journal = es ++ j) :
    w.commit j.length = { w with journal := j } := by
  simp [commit, h]

end World

/-- The journal of `w'` extends that of `w`, and undoing the extension gives back `w`. -/
def Journaled (w w' : World) : Prop :=
  ∃ es, w'.journal = es ++ w.journal ∧ w'.undoAll es = { w with journal := w'.journal }

namespace Journaled

lemma refl (w : World) : Journaled w w := ⟨[], rfl, rfl⟩

lemma trans {w1 w2 w3 : World} (h1 : Journaled w1 w2) (h2 : Journaled w2 w3) : Journaled w1 w3 := by
  obtain ⟨es1, hj1, hu1⟩ := h1
  obtain ⟨es2, hj2, hu2⟩ := h2; refine ⟨es2 ++ es1, by rw [hj2, hj1, List.append_assoc], ?_⟩
  have : w3.undoAll (es2 ++ es1) = (w3.undoAll es2).undoAll es1 := List.foldl_append ..
  rw [this, hu2, World.undoAll_journal, hu1]

lemma sstore {w : World} (hb : w.hostBacked = false) (addr : Bytes) (slot value : U256) :
    Journaled w (w.sstore addr slot value) := by
  have hs : w.sstore addr slot value =
      { w with journal := .storage (addr, slot) (w.storage.get (addr, slot)) :: w.journal
               storage := w.storage.put (addr, slot) value } := by
    unfold World.sstore; unfold World.hostBacked at hb
    split
    · rename_i h; rw [h] at hb; cases hb
    · rfl
  rw [hs]; refine ⟨[.storage (addr, slot) (w.storage.get (addr, slot))], rfl, ?_⟩
  simp only [World.undoAll, List.foldl_cons, List.foldl_nil]
  cases hg : w.storage.get (addr, slot) with
  | some v =>
    have : w.storage.put (addr, slot) v = w.storage := Column.put_get hg
    simp [World.undo, Column.put_put, this]
  | none =>
    have : (w.storage.put (addr, slot) value).delete (addr, slot) = w.storage :=
      Column.ext fun k => by
        rw [get_delete]
        split
        · rename_i hk; rw [hk, hg]
        · rename_i hk; rw [get_put_of_ne hk]
    simp [World.undo, this]

lemma revertTo {w w' : World} (h : Journaled w w') : w'.revertTo w.checkpoint = w := by
  obtain ⟨es, hj, hu⟩ := h; rw [World.revertTo, hj, World.checkpoint, World.revertLoop_append, hu]

/-- Nothing was journaled, so nothing changed. -/
lemma eq_of_length {w w' : World} (h : Journaled w w') (hl : w'.journal.length ≤ w.journal.length) : w' = w := by
  obtain ⟨es, hj, hu⟩ := h
  have hes : es = [] := by rw [hj, List.length_append] at hl; exact List.eq_nil_of_length_eq_zero (by omega)
  subst hes; rw [List.nil_append] at hj; simp only [World.undoAll, List.foldl_nil, hj] at hu
  exact hu

end Journaled

lemma SameObs.refl (w : World) : SameObs w w :=
  ⟨fun _ _ => rfl, fun _ => rfl, fun _ => rfl, fun _ => rfl, rfl⟩

/-! ## SELFDESTRUCT writes to the journal -/

namespace World

variable (w : World) (a : Address) (b : Int64)

@[simp] lemma writeBalance_journal :
    (w.writeBalance a b).journal = .balance a (w.balance a) :: w.journal := rfl

lemma writeBalance_suffix : w.journal <:+ (w.writeBalance a b).journal := List.suffix_cons _ _

lemma ensureAccount_journal : w.journal <:+ (w.ensureAccount a).journal := by
  unfold ensureAccount
  split
  · exact List.suffix_refl _
  · exact List.suffix_cons _ _

lemma markSuicided_journal : w.journal <:+ (w.markSuicided a).journal := by
  unfold markSuicided
  split
  · exact List.suffix_refl _
  · exact List.suffix_cons _ _

lemma burnBalance_journal : w.journal <:+ (w.burnBalance b).journal := by
  unfold burnBalance
  split
  · exact List.suffix_refl _
  · exact List.suffix_cons _ _

/-- Destroying a contract always adds at least the record of its zeroed balance. -/
lemma suicide_journal (c b : Address) :
    w.journal <:+ (w.suicide c b).journal ∧ w.journal.length < (w.suicide c b).journal.length := by
  have key : ∀ w1 : World, w.journal <:+ w1.journal → ∀ (x : JournalEntry) (w2 : World), w2.journal = x :: w1.journal →
      ∀ w3 : World, w2.journal <:+ w3.journal → w.journal <:+ w3.journal ∧ w.journal.length < w3.journal.length := by
    intro w1 h1 x w2 h2 w3 h3; rw [h2] at h3; have hl := h3.length_le
    have hl1 := h1.length_le; rw [List.length_cons] at hl
    exact ⟨(h1.trans (List.suffix_cons x _)).trans h3, by omega⟩
  unfold suicide
  split
  · exact key w (List.suffix_refl _) _ _ (writeBalance_journal w c 0) _
      ((burnBalance_journal _ _).trans (markSuicided_journal _ _))
  · refine key (w.ensureAccount b) (ensureAccount_journal w b) _ _ (writeBalance_journal _ c 0) _ ?_
    exact (writeBalance_suffix _ _ _).trans (markSuicided_journal _ _)

lemma suicide_backend (c b : Address) : (w.suicide c b).backend = w.backend := by
  unfold suicide markSuicided burnBalance ensureAccount writeBalance; dsimp only
  repeat' split
  all_goals rfl

lemma sstore_backend {w : World} (hb : w.hostBacked = false) (a : Bytes) (k v : U256) :
    (w.sstore a k v).backend = w.backend := by
  unfold sstore; unfold hostBacked at hb
  split
  · rename_i h; rw [h] at hb; cases hb
  · rfl

lemma undo_backend (e : JournalEntry) : (w.undo e).backend = w.backend := by
  cases e with
  | storage key prev => cases prev <;> rfl
  | _ => rfl

/-- What neither undoing a record nor cutting the journal changes, reverting leaves alone. -/
lemma revertTo_congr {γ : Type} {f : World → γ} (hundo : ∀ w e, f (undo w e) = f w)
    (hjournal : ∀ w j, f { w with journal := j } = f w) (w : World) (cp : Nat) : f (w.revertTo cp) = f w := by
  have hloop : ∀ (es : List JournalEntry) (w : World), f (revertLoop cp es w) = f w := by
    intro es
    induction es with
    | nil => exact fun w => hjournal w []
    | cons e es ih =>
      intro w; unfold revertLoop
      split
      · rw [ih, hundo]
      · exact hjournal w _
  exact hloop w.journal w

lemma revertTo_backend (cp : Nat) : (w.revertTo cp).backend = w.backend :=
  revertTo_congr undo_backend (fun _ _ => rfl) w cp

lemma hostBacked_congr {w w' : World} (h : w'.backend = w.backend) : w'.hostBacked = w.hostBacked := by
  unfold hostBacked; rw [h]

end World

/-! ## Whole frames -/

/-- Relates the world a frame starts on, and the number of records dropped until then, to its
halt, the world it ends on and the number of records dropped in the end. -/
abbrev FrameSpec : Type := World → Nat → Halt → World → Nat → Prop

/-- A way of running nested frames that keeps the backend and meets a relation. -/
def Meets (P : FrameSpec) (sub : SubRun) : Prop :=
  ∀ w c lim e w', w.hostBacked = false → sub w c lim = .ok (e, w') →
    w'.backend = w.backend ∧ P w 0 e.halt w' e.dropped

/-- A frame that does nothing or destroys its contract at once meets `P`, and an instruction can
be put before a frame that does. -/
structure FrameRule (P : FrameSpec) : Prop where
  idle : ∀ w d h, h ≠ .selfDestruct → P w d h w d
  destroy : ∀ w d c b, P w d .selfDestruct (w.suicide c b) d
  step : ∀ {sub b a w d w1 d1}, Meets P sub → w.hostBacked = false → WorldStep sub b a w d w1 d1 →
    ∀ {h w' d'}, P w1 d1 h w' d' → P w d h w' d'

section FrameRule
variable {P : FrameSpec} {sub : SubRun} {b : Nat} {a : Bytes} {w w' : World} {d d' : Nat}

lemma WorldStep.backend (hsub : Meets P sub) (hb : w.hostBacked = false) (h : WorldStep sub b a w d w' d') :
    w'.backend = w.backend := by
  cases h with
  | same => rfl
  | store s v => exact World.sstore_backend hb a s v
  | commit hl hs => exact (hsub _ _ _ _ _ hb hs).1
  | revert hl hs => exact (World.revertTo_backend _ _).trans (hsub _ _ _ _ _ hb hs).1

lemma FrameRule.start (hP : FrameRule P) {loop : Ctx → Machine → Except Abort (Exec × World)}
    (h : ∀ ctx m e w', m.world.hostBacked = false → loop ctx m = .ok (e, w') →
      w'.backend = m.world.backend ∧ P m.world m.dropped e.halt w' e.dropped) : Meets P (start loop) := by
  intro w c lim e w' hb hs; unfold Vm.start at hs
  split at hs
  · cases hs; exact ⟨rfl, hP.idle w 0 _ (by simp)⟩
  · exact h c (Machine.init w lim) e w' hb hs

lemma FrameRule.runLoop (hP : FrameRule P) (n : Nat) : ∀ (ctx : Ctx) (m : Machine) (e : Exec) (w' : World),
    m.world.hostBacked = false → runLoop cr n ctx m = .ok (e, w') →
    w'.backend = m.world.backend ∧ P m.world m.dropped e.halt w' e.dropped := by
  induction n with
  | zero => intro _ _ _ _ _ h; cases h
  | succ n ih =>
    intro ctx m e w' hb h; have hsub : Meets P (Vm.start (Vm.runLoop cr n)) := hP.start ih
    simp only [Vm.runLoop] at h
    split at h
    · cases h; exact ⟨rfl, hP.idle _ _ _ (by simp [Machine.exec])⟩
    split at h
    · -- the instruction returned: put its effect before the rest of the loop
      rename_i u m1 hstep; have he := ((step_spec cr ctx _).ok hstep).world
      have hbk := he.backend hsub hb
      obtain ⟨h1, h2⟩ := ih ctx m1 e w' ((World.hostBacked_congr hbk).trans hb) h
      exact ⟨h1.trans hbk, hP.step hsub hb he h2⟩
    · -- the instruction halted the frame
      rename_i hlt out m1 hstep; cases h
      cases (step_spec cr ctx _).error hstep with
      | plain hh he => exact ⟨he.world.backend hsub hb, hP.step hsub hb he.world (hP.idle _ _ _ hh)⟩
      | destroy c b _ hd hw =>
        refine ⟨by rw [hw, World.suicide_backend], ?_⟩
        show P m.world m.dropped .selfDestruct m1.world m1.dropped; rw [hw, hd]
        exact hP.destroy _ _ c b
    · cases h

/-- **A rule for the instructions is one for whole frames.** -/
theorem FrameRule.runFrame (hP : FrameRule P) : Meets P (runFrame cr) :=
  fun w c lim e w' hb hs => hP.start (hP.runLoop (lim + 1)) w c lim e w' hb hs

end FrameRule

/-! ## Frames that drop no record -/

/-- What a frame from `w` to `w'` has done when no commit inside it dropped a record: its
changes are all in the journal, or it ended in SELFDESTRUCT and left a record of that. -/
def Kept (w : World) (h : Halt) (w' : World) : Prop :=
  (h ≠ .selfDestruct ∧ Journaled w w') ∨ (h = .selfDestruct ∧ w.journal.length < w'.journal.length)

/-- A frame that drops no record keeps its changes. -/
def KeptSpec : FrameSpec := fun w d h w' d' => d ≤ d' ∧ (d' = d → Kept w h w')

lemma WorldStep.kept {sub : SubRun} (hsub : Meets KeptSpec sub) {b : Nat} {a : Bytes} {w w' : World}
    {d d' : Nat} (hb : w.hostBacked = false) (h : WorldStep sub b a w d w' d') :
    d ≤ d' ∧ (d' = d → Journaled w w') := by
  cases h with
  | same => exact ⟨le_rfl, fun _ => .refl w⟩
  | store s v => exact ⟨le_rfl, fun _ => .sstore hb a s v⟩
  | commit hl hs hh =>
    rename_i c lim e w1; obtain ⟨-, -, hk⟩ := hsub _ _ _ _ _ hb hs; refine ⟨by omega, fun hd => ?_⟩
    rcases hk (by omega) with ⟨-, hj⟩ | ⟨-, hl⟩
    · -- nothing was dropped, so the callee journaled nothing and changed nothing
      have heq : w1 = w := hj.eq_of_length (by unfold World.checkpoint at hd; omega)
      subst heq; have hc : w1.commit w1.checkpoint = w1 := World.commit_append (List.nil_append _).symm
      rw [hc]; exact .refl w1
    · unfold World.checkpoint at hd; omega
  | revert hl hs hf =>
    rename_i c lim e w1; obtain ⟨-, -, hk⟩ := hsub _ _ _ _ _ hb hs; refine ⟨by omega, fun hd => ?_⟩
    rcases hk (by omega) with ⟨-, hj⟩ | ⟨hh, -⟩
    · rw [hj.revertTo]; exact .refl w
    · rw [hh] at hf; cases hf

/-- **A frame in which no commit drops a record can be undone.** -/
theorem frameRule_kept : FrameRule KeptSpec where
  idle w d h hh := ⟨le_rfl, fun _ => .inl ⟨hh, .refl w⟩⟩
  destroy w d c b := ⟨le_rfl, fun _ => .inr ⟨rfl, (World.suicide_journal w c b).2⟩⟩
  step {_ _ _ _ d _ d1} hsub hb hs {_ _ d'} hrest := by
    obtain ⟨hle, hj⟩ := hs.kept hsub hb
    obtain ⟨hle', hk⟩ := hrest; refine ⟨hle.trans hle', fun hd => ?_⟩; have hj1 := hj (by omega)
    rcases hk (by omega) with ⟨hh, hj2⟩ | ⟨hh, hl⟩
    · exact .inl ⟨hh, hj1.trans hj2⟩
    · obtain ⟨es, hes, -⟩ := hj1; refine .inr ⟨hh, ?_⟩; rw [hes, List.length_append] at hl
      omega

/-! ## A failed CALL -/

/-- What the inter-contract branch of CALL does when it returns. -/
lemma callContract_eq_ok {sub : SubRun} {depth : Nat} {callee code input out : Bytes} {gas : U256} {m m' : Machine}
    (h : callContract sub depth callee code input gas m = .ok (ok, out) m') :
    ∃ c lim e w, sub m.world c lim = .ok (e, w) ∧ ok = haltIsSuccess e.halt ∧
      m'.world = (if ok then w.commit m.world.checkpoint else w.revertTo m.world.checkpoint) ∧
      m'.dropped = m.dropped + e.dropped + if ok then w.journal.length - m.world.checkpoint else 0 := by
  have hw : wp (callContract sub depth callee code input gas) m (fun r t =>
      ∃ c lim e w, sub m.world c lim = .ok (e, w) ∧ r.1 = haltIsSuccess e.halt ∧
        t.world = (if r.1 then w.commit m.world.checkpoint else w.revertTo m.world.checkpoint) ∧
        t.dropped = m.dropped + e.dropped + if r.1 then w.journal.length - m.world.checkpoint else 0)
      (fun _ _ => True) := by
    unfold callContract; rw [wp_bind, wp_get]; dsimp only
    cases hs : sub m.world ⟨callee, code, input, depth + 1⟩
        (min (low64 gas) (m.meter.remaining - m.meter.remaining / 64)) with
    | error e => trivial
    | ok r =>
      obtain ⟨e, w⟩ := r; exact ⟨_, _, e, w, hs, rfl, rfl, rfl⟩
  have hr := ok_of_wp hw h; exact hr

/-- **A failed CALL restores the world** when no commit inside the callee dropped an undo
record: every slot, balance, account and deletion mark, and the burned amount, reads as it
did right before the CALL. -/
theorem failed_call_restores {depth : Nat} {callee code input out : Bytes} {gas : U256}
    {m m' : Machine} (hplain : m.world.hostBacked = false)
    (hcall : callContract (runFrame cr) depth callee code input gas m = .ok (false, out) m')
    (hkept : m'.dropped = m.dropped) : SameObs m.world m'.world := by
  obtain ⟨c, lim, e, w, hs, hok, hw, hd⟩ := callContract_eq_ok hcall
  simp only [Bool.false_eq_true, if_false] at hw hd
  obtain ⟨-, -, hk⟩ := frameRule_kept.runFrame _ _ _ _ _ hplain hs
  rcases hk (by omega) with ⟨-, hj⟩ | ⟨hh, -⟩
  · rw [hw, hj.revertTo]; exact .refl _
  · rw [hh] at hok; cases hok

/-- Code that calls the one-byte address `lo` with no arguments. -/
def callCode (lo : UInt8) : Bytes :=
  [0x60, 0, 0x60, 0, 0x60, 0, 0x60, 0, 0x60, 0, 0x60, lo, 0x61, 0xff, 0xff, 0xf1]

/-- `SSTORE(1, 9)`, then the given ending. -/
def storeCode (ending : Bytes) : Bytes := [0x60, 9, 0x60, 1, 0x55] ++ ending

/-- `REVERT(0, 0)`. -/
def revertCode : Bytes := [0x60, 0, 0x60, 0, 0xfd]

/-- Primitives that hash everything to zero and recover no signer: no code below uses them. -/
def noCrypto : Crypto := ⟨fun _ => H256.zero, fun _ => H256.zero, fun _ _ _ => none⟩

/-- The CALL of `callee` by a frame that has just started, with plenty of energy. -/
def callFresh (w : World) (callee : Nat) : EStateM.Result Stop Machine (Bool × Bytes) :=
  callContract (runFrame noCrypto) 0 (Bytes.be 20 callee) (w.getCode (Bytes.be 20 callee)) [] 0xffff
    (Machine.init w 1000000)

/-- What can be seen of such a CALL: whether it succeeded, how many records were dropped,
and what slot 1 of `0xcc` reads afterwards. -/
def probe (w : World) (callee : Nat) : Option (Bool × Nat × U256) :=
  match callFresh w callee with
  | .ok (ok, _) m => some (ok, m.dropped, m.world.sload (Bytes.be 20 0xcc) 1)
  | .error _ _ => none

lemma callFresh_of_probe {w : World} {callee : Nat} {d : Nat} {v : U256}
    (h : probe w callee = some (ok, d, v)) : ∃ out m, callFresh w callee = .ok (ok, out) m ∧ m.dropped = d ∧
      m.world.sload (Bytes.be 20 0xcc) 1 = v := by
  unfold probe at h
  split at h
  · rename_i ok' out m heq; cases h; exact ⟨out, m, heq, rfl, rfl⟩
  · cases h

/-- Contract `0xbb` calls `0xcc` and then reverts; `0xcc` writes 9 to its slot 1 and stops. -/
def nestedWorld : World :=
  (World.new.setCode (Bytes.be 20 0xbb) (callCode 0xcc ++ revertCode)).setCode (Bytes.be 20 0xcc)
    (storeCode [0x00])

/-- The CALL of `0xbb` fails, and what its nested call wrote is still there: slot 1 of
`0xcc` read 0 before the CALL and reads 9 after it. -/
theorem failed_call_keeps_inner_write :
    ∃ out m, callFresh nestedWorld 0xbb = .ok (false, out) m ∧ ¬ SameObs nestedWorld m.world := by
  have hp : probe nestedWorld 0xbb = some (false, 1, 9) := by decide +kernel
  obtain ⟨out, m, hm, -, hv⟩ := callFresh_of_probe hp
  refine ⟨out, m, hm, fun hs => ?_⟩
  have h0 : nestedWorld.sload (Bytes.be 20 0xcc) 1 = 0 := by decide +kernel
  have h9 := hs.sload (Bytes.be 20 0xcc) 1; rw [hv, h0] at h9; exact absurd h9 (by decide)

/-- Contract `0xcc` writes 9 to its slot 1 and then reverts. -/
def flatWorld : World := World.new.setCode (Bytes.be 20 0xcc) (storeCode revertCode)

/-- A callee that fails on its own drops no record, and its write is undone. -/
theorem failed_call_restores_flat : ∃ out m, callFresh flatWorld 0xcc = .ok (false, out) m ∧ m.dropped = 0 ∧
      SameObs flatWorld m.world := by
  have hp : probe flatWorld 0xcc = some (false, 0, 0) := by decide +kernel
  obtain ⟨out, m, hm, hd, -⟩ := callFresh_of_probe hp
  exact ⟨out, m, hm, hd, failed_call_restores rfl hm hd⟩

end TronRs.Vm

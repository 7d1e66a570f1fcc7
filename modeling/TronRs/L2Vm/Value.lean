import TronRs.L2Vm.Rollback

/-!
# What a run does to balances

Inside the VM only SELFDESTRUCT moves value. It ends its frame successfully, so the CALL
around it commits at once; what a failing frame has left in the journal are storage records,
and reverting never touches a balance.

* `Destroys w w'`: the balances, deletion marks and burned amount of `w'` are those of `w`
  after some SELFDESTRUCTs.
* `destroys_runFrame`: every frame that returns is of this kind.
* `Destroys.preserves`: the invariant rule for it.
* `Stable.runFrame`: the invariant rule for everything else in the world.
-/
namespace TronRs.Vm

open TronRs.Core

variable {cr : Crypto} {es : List JournalEntry} {lim : Nat} {e : Exec} {w w' : World} {h : Halt}

/-- The two worlds hold the same value. -/
structure SameValue (w w' : World) : Prop where
  balances : w'.balances = w.balances
  suicides : w'.suicides = w.suicides
  burned : w'.burned = w.burned
  backend : w'.backend = w.backend

namespace SameValue

lemma refl (w : World) : SameValue w w := ⟨rfl, rfl, rfl, rfl⟩

lemma trans {w1 w2 w3 : World} (h1 : SameValue w1 w2) (h2 : SameValue w2 w3) : SameValue w1 w3 :=
  ⟨h2.balances.trans h1.balances, h2.suicides.trans h1.suicides, h2.burned.trans h1.burned,
    h2.backend.trans h1.backend⟩

lemma balance {w w' : World} (h : SameValue w w') (a : Address) : w'.balance a = w.balance a := by
  unfold World.balance; rw [h.balances, h.backend]

end SameValue

/-- `w'` holds the value of `w` after some contracts have destroyed themselves. -/
inductive Destroys (w : World) : World → Prop where
  | same {w' : World} : SameValue w w' → Destroys w w'
  | step {w1 w' : World} (contract beneficiary : Address) : Destroys w w1 →
      SameValue (w1.suicide contract beneficiary) w' → Destroys w w'

namespace Destroys
variable {w w1 w2 w' : World}

lemma refl (w : World) : Destroys w w := .same (.refl w)

lemma then_same (h1 : Destroys w w1) (h2 : SameValue w1 w2) : Destroys w w2 := by
  cases h1 with
  | same h => exact .same (h.trans h2)
  | step c b h hs => exact .step c b h (hs.trans h2)

lemma trans (h1 : Destroys w w1) (h2 : Destroys w1 w2) : Destroys w w2 := by
  induction h2 with
  | same h => exact h1.then_same h
  | step c b _ hs ih => exact .step c b ih hs

/-- What SELFDESTRUCT keeps, and what depends on the value alone, holds to the end. -/
lemma preserves {P : World → Prop} (h : Destroys w w') (hw : P w) (hsame : ∀ w1 w2, SameValue w1 w2 → P w1 → P w2)
    (hstep : ∀ w1 c b, P w1 → P (w1.suicide c b)) : P w' := by
  induction h with
  | same h => exact hsame _ _ h hw
  | step c b _ hs ih => exact hsame _ _ hs (hstep _ c b ih)

lemma suicides_markSuicided_ne_nil (w : World) (c : Address) : (w.markSuicided c).suicides ≠ [] := by
  unfold World.markSuicided
  split
  · rename_i h; intro hn; rw [hn] at h
    cases h
  · simp

lemma suicides_suicide_ne_nil (w : World) (c b : Address) : (w.suicide c b).suicides ≠ [] :=
  suicides_markSuicided_ne_nil _ c

/-- A run that destroyed nothing moved nothing. -/
lemma sameValue_of_nil (h : Destroys w w') (hn : w'.suicides = []) : SameValue w w' := by
  cases h with
  | same h => exact h
  | step c b _ hs => exact absurd (hs.suicides.symm.trans hn) (suicides_suicide_ne_nil _ c b)

end Destroys

/-! ## Storage records -/

/-- Undoing these records touches storage alone. -/
def OnlyStorage (es : List JournalEntry) : Prop := ∀ e ∈ es, ∃ key prev, e = .storage key prev

lemma OnlyStorage.append {es' : List JournalEntry} (h : OnlyStorage es) (h' : OnlyStorage es') :
    OnlyStorage (es ++ es') := by
  intro e he
  rcases List.mem_append.mp he with he | he
  · exact h e he
  · exact h' e he

lemma OnlyStorage.sameValue (h : OnlyStorage es) (w : World) : SameValue w (w.undoAll es) := by
  induction es generalizing w with
  | nil => exact .refl w
  | cons e es ih =>
    obtain ⟨key, prev, rfl⟩ := h e (List.mem_cons_self ..)
    have hone : SameValue w (w.undo (.storage key prev)) := by
      cases prev <;> exact ⟨rfl, rfl, rfl, rfl⟩
    exact hone.trans (ih (fun e he => h e (List.mem_cons_of_mem _ he)) _)

/-- A frame that does not end in SELFDESTRUCT: what it destroyed is not in the journal. -/
structure Flow (w w' : World) : Prop where
  destroys : Destroys w w'
  journal : ∃ es, w'.journal = es ++ w.journal ∧ OnlyStorage es

namespace Flow
variable {w : World}

lemma refl (w : World) : Flow w w := ⟨.refl w, [], rfl, nofun⟩

lemma trans {w1 w2 w3 : World} (h1 : Flow w1 w2) (h2 : Flow w2 w3) : Flow w1 w3 := by
  obtain ⟨es1, hj1, ho1⟩ := h1.journal
  obtain ⟨es2, hj2, ho2⟩ := h2.journal
  exact ⟨h1.destroys.trans h2.destroys, es2 ++ es1, by rw [hj2, hj1, List.append_assoc], ho2.append ho1⟩

lemma sstore (hb : w.hostBacked = false) (addr : Bytes) (slot value : U256) : Flow w (w.sstore addr slot value) := by
  have hbk := World.sstore_backend hb addr slot value
  unfold World.sstore at hbk ⊢; unfold World.hostBacked at hb
  split
  · rename_i h; rw [h] at hb; cases hb
  · refine ⟨.same ⟨rfl, rfl, rfl, rfl⟩, [_], rfl, ?_⟩; intro e he; rw [List.mem_singleton] at he
    exact ⟨_, _, he⟩

lemma revertTo {w' : World} (h : Flow w w') : Flow w (w'.revertTo w.checkpoint) := by
  obtain ⟨es, hj, ho⟩ := h.journal
  have heq : w'.revertTo w.checkpoint = { w'.undoAll es with journal := w.journal } := by
    rw [World.revertTo, hj, World.checkpoint, World.revertLoop_append]
  rw [heq]; have hv := ho.sameValue w'
  exact ⟨h.destroys.then_same ⟨hv.balances, hv.suicides, hv.burned, hv.backend⟩, [], rfl,
    fun e he => absurd he List.not_mem_nil⟩

end Flow

/-- A successful callee is committed: whatever it destroyed stays, and the journal is the
caller's again. -/
lemma Flow.commit (h : Destroys w w') (hj : w.journal <:+ w'.journal) : Flow w (w'.commit w.checkpoint) := by
  obtain ⟨es, hes⟩ := hj
  have heq : w'.commit w.checkpoint = { w' with journal := w.journal } := World.commit_append hes.symm
  rw [heq]; exact ⟨h.then_same ⟨rfl, rfl, rfl, rfl⟩, [], rfl, nofun⟩

/-! ## Frames -/

/-- How a frame from `w` to `w'` has handled value when it ends with `h`. -/
def FrameFlow (w : World) (h : Halt) (w' : World) : Prop :=
  (h ≠ .selfDestruct ∧ Flow w w') ∨ (h = .selfDestruct ∧ Destroys w w' ∧ w.journal <:+ w'.journal)

lemma FrameFlow.destroys (hf : FrameFlow w h w') : Destroys w w' := by
  rcases hf with ⟨-, hf⟩ | ⟨-, hd, -⟩
  · exact hf.destroys
  · exact hd

lemma FrameFlow.suffix (hf : FrameFlow w h w') : w.journal <:+ w'.journal := by
  rcases hf with ⟨-, hf⟩ | ⟨-, -, hj⟩
  · obtain ⟨es, hes, -⟩ := hf.journal; exact ⟨es, hes.symm⟩
  · exact hj

lemma FrameFlow.after {w1 w2 : World} (h1 : Flow w w1) (h2 : FrameFlow w1 h w2) : FrameFlow w h w2 := by
  rcases h2 with ⟨hh, hf⟩ | ⟨hh, hd, hj⟩
  · exact .inl ⟨hh, h1.trans hf⟩
  · obtain ⟨es, hes, -⟩ := h1.journal
    have hj1 : w.journal <:+ w1.journal := ⟨es, hes.symm⟩
    exact .inr ⟨hh, h1.destroys.trans hd, hj1.trans hj⟩

lemma WorldStep.flow {P : FrameSpec} (hP : ∀ {w d h w' d'}, P w d h w' d' → FrameFlow w h w') {sub : SubRun}
    (hsub : Meets P sub) {b : Nat} {a : Bytes} {d d' : Nat} (hb : w.hostBacked = false)
    (h : WorldStep sub b a w d w' d') : Flow w w' := by
  cases h with
  | same => exact .refl w
  | store s v => exact .sstore hb a s v
  | commit hl hs =>
    have hf := hP (hsub _ _ _ _ _ hb hs).2; exact Flow.commit hf.destroys hf.suffix
  | revert hl hs hh =>
    rcases hP (hsub _ _ _ _ _ hb hs).2 with ⟨-, hf⟩ | ⟨hsd, -⟩
    · exact hf.revertTo
    · rw [hsd] at hh; cases hh

lemma frameRule_flow : FrameRule fun w _ h w' _ => FrameFlow w h w' where
  idle w _ _ hh := .inl ⟨hh, .refl w⟩
  destroy w _ c b := .inr ⟨rfl, .step c b (.refl _) (.refl _), (World.suicide_journal w c b).1⟩
  step hsub hb hs _ _ _ hrest := .after (hs.flow id hsub hb) hrest

/-- **Only SELFDESTRUCT moves value.** -/
theorem destroys_runFrame {c : Ctx} (hb : w.hostBacked = false)
    (h : runFrame cr w c lim = .ok (e, w')) : Destroys w w' :=
  (frameRule_flow.runFrame w c lim e w' hb h).2.destroys

/-! ## Invariants of the world -/

/-- The world operations of the engine keep `P`. Of the undo records only those of storage matter. -/
structure Stable (P : World → Prop) : Prop where
  sstore : ∀ w a k v, w.hostBacked = false → P w → P (w.sstore a k v)
  suicide : ∀ w c b, P w → P (w.suicide c b)
  unstore : ∀ w key prev, P w → P (w.undo (.storage key prev))
  journal : ∀ w j, P w → P { w with journal := j }

namespace Stable
variable {P : World → Prop} {w w' : World}

lemma undoAll (h : Stable P) (hes : OnlyStorage es) (hw : P w) : P (w.undoAll es) := by
  induction es generalizing w with
  | nil => exact hw
  | cons e es ih =>
    obtain ⟨key, prev, rfl⟩ := hes e (List.mem_cons_self ..)
    exact ih (fun e he => hes e (List.mem_cons_of_mem _ he)) (h.unstore w key prev hw)

/-- What a frame does to value and to `P`. -/
lemma frameRule (h : Stable P) : FrameRule fun w _ halt w' _ => FrameFlow w halt w' ∧ (P w → P w') where
  idle w d halt hh := ⟨frameRule_flow.idle w d halt hh, id⟩
  destroy w d c b := ⟨frameRule_flow.destroy w d c b, h.suicide w c b⟩
  step {_ _ a w _ _ _} hsub hb hs _ _ _ hrest := by
    refine ⟨.after (hs.flow And.left hsub hb) hrest.1, fun hw => hrest.2 ?_⟩
    cases hs with
    | same => exact hw
    | store s v => exact h.sstore w a s v hb hw
    | commit hl hs => exact h.journal _ _ ((hsub _ _ _ _ _ hb hs).2.2 hw)
    | @revert c lim e w1 hl hs hh =>
      obtain ⟨-, hf, hkeep⟩ := hsub _ _ _ _ _ hb hs
      rcases hf with ⟨-, hf⟩ | ⟨hsd, -⟩
      · obtain ⟨es, hj, ho⟩ := hf.journal
        have heq : w1.revertTo w.checkpoint = { w1.undoAll es with journal := w.journal } := by
          rw [World.revertTo, hj, World.checkpoint, World.revertLoop_append]
        rw [heq]; exact h.journal _ _ (h.undoAll ho (hkeep hw))
      · rw [hsd] at hh; cases hh

/-- **What every world operation keeps, a frame keeps.** -/
theorem runFrame (h : Stable P) {c : Ctx} (hb : w.hostBacked = false)
    (hr : Vm.runFrame cr w c lim = .ok (e, w')) (hw : P w) : P w' :=
  (h.frameRule.runFrame w c lim e w' hb hr).2.2 hw

end Stable
end TronRs.Vm

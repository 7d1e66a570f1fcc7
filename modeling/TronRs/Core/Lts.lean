import Mathlib

/-!
# Labelled transition systems

A system is an initial predicate and a step relation; a run is a list of labels with
the states between them. `Run.preserves` is the one induction behind every invariant
of the development: what each step keeps, a whole run keeps. `guard` keeps only the
steps that meet a condition on the state before the step, so "in every run whose steps
all meet the condition" is a statement about the runs of the guarded system. `exec` follows
labels with an executable step, so that a run of a concrete system can be computed.

`Settles` is for concurrent parts that do not disturb each other: with the `Diamond` property it takes
one run that comes to a stop to know where, and in how many steps, every run stops.
-/
namespace TronRs.Core

structure Lts (S L : Type) where
  init : S → Prop
  step : S → L → S → Prop

namespace Lts
variable {S L : Type} {ls : List L}

inductive Run (M : Lts S L) : S → List L → S → Prop where
  | nil (s : S) : Run M s [] s
  | cons {s t u : S} {l : L} {ls : List L} : M.step s l t → Run M t ls u → Run M s (l :: ls) u

/-- The system of a total step function. -/
def ofFn (init : S → Prop) (f : S → L → S) : Lts S L := ⟨init, fun s l t => t = f s l⟩

/-- Only the steps whose source state and label satisfy `ok`. -/
def guard (M : Lts S L) (ok : S → L → Prop) : Lts S L := ⟨M.init, fun s l t => ok s l ∧ M.step s l t⟩

variable {M : Lts S L}

lemma Run.preserves {Inv : S → Prop} (hstep : ∀ s l t, Inv s → M.step s l t → Inv t)
    {s t : S} (h : M.Run s ls t) (hs : Inv s) : Inv t := by
  induction h with
  | nil => exact hs
  | cons h1 _ ih => exact ih (hstep _ _ _ hs h1)

lemma Run.snoc {s t u : S} {l : L} (h : M.Run s ls t) (hl : M.step t l u) : M.Run s (ls ++ [l]) u := by
  induction h with
  | nil => exact .cons hl (.nil u)
  | cons h1 _ ih => exact .cons h1 (ih hl)

/-- What every step lowers bounds the length of a run. -/
lemma Run.length_add_le {m : S → Nat} (hstep : ∀ s l t, M.step s l t → m t + 1 ≤ m s) {s t : S}
    (h : M.Run s ls t) : ls.length + m t ≤ m s := by
  induction h with
  | nil => simp
  | cons h1 _ =>
    have hone := hstep _ _ _ h1; rw [List.length_cons]; omega

/-! ## Runs that all come to the same end -/

lemma Run.append {s t u : S} {ls' : List L} (h : M.Run s ls t) (h' : M.Run t ls' u) : M.Run s (ls ++ ls') u := by
  induction h with
  | nil => exact h'
  | cons h1 _ ih => exact .cons h1 (ih h')

def Stuck (M : Lts S L) (s : S) : Prop := ∀ l t, ¬ M.step s l t

/-- Whatever is done first, the system comes to a stop in `f`, after the same number of steps. -/
def Settles (M : Lts S L) (s f : S) : Prop :=
  M.Stuck f ∧ ∃ n, ∀ ls t, M.Run s ls t → ∃ ls', M.Run t ls' f ∧ ls.length + ls'.length = n

/-- Two steps from a state lead to the same state, or each can be followed by a step to a common one. -/
def Diamond (M : Lts S L) : Prop :=
  ∀ s l l' t u, M.step s l t → M.step s l' u → t = u ∨ ∃ k k' v, M.step t k v ∧ M.step u k' v

/-- With the diamond property a step does not lead away from a stop, and brings it one step nearer. -/
lemma Diamond.run_of_step (hM : M.Diamond) {f : S} (hf : M.Stuck f) :
    ∀ {s t : S} {l : L}, M.Run s ls f → M.step s l t → ∃ ls', M.Run t ls' f ∧ ls'.length + 1 = ls.length := by
  induction ls with
  | nil =>
    intro s t l hrun hstep; cases hrun; exact absurd hstep (hf l t)
  | cons l0 ls ih =>
    intro s t l hrun hstep
    cases hrun with
    | cons h0 hrest =>
      rcases hM _ _ _ _ _ h0 hstep with rfl | ⟨k, k', v, hk, hk'⟩
      · exact ⟨ls, hrest, rfl⟩
      · obtain ⟨ls', hrun', hlen⟩ := ih hrest hk
        exact ⟨k' :: ls', .cons hk' hrun', by rw [List.length_cons, List.length_cons, hlen]⟩

/-- One run to a stop is enough. -/
lemma Diamond.settles (hM : M.Diamond) {s f : S} (hf : M.Stuck f) (h : M.Run s ls f) : M.Settles s f := by
  refine ⟨hf, ls.length, fun ls1 t h1 => ?_⟩
  induction h1 generalizing ls with
  | nil => exact ⟨ls, h, by simp⟩
  | cons hstep _ ih =>
    obtain ⟨ls', hrun, hlen⟩ := hM.run_of_step hf h hstep
    obtain ⟨ls'', hrun', hlen'⟩ := ih hrun; refine ⟨ls'', hrun', ?_⟩; rw [List.length_cons]
    omega

/-! ## Executing a run -/

/-- Follows the labels with a partial step function. -/
def exec (f : S → L → Option S) : S → List L → Option S
  | s, [] => some s
  | s, l :: ls => (f s l).bind fun t => exec f t ls

/-- An executable step that also checks a condition. -/
def guardStep (ok : S → L → Prop) [∀ s l, Decidable (ok s l)] (f : S → L → Option S) (s : S) (l : L) : Option S :=
  if ok s l then f s l else none

lemma step_of_guardStep {ok : S → L → Prop} [∀ s l, Decidable (ok s l)] {f : S → L → Option S}
    (hf : ∀ s l t, f s l = some t → M.step s l t) {s t : S} {l : L} (h : guardStep ok f s l = some t) :
    (M.guard ok).step s l t := by
  unfold guardStep at h
  split at h
  · rename_i hok; exact ⟨hok, hf s l t h⟩
  · cases h

/-- What an execution shows of its last state, a run shows. -/
lemma Run.exists_of_exec {f : S → L → Option S} (hf : ∀ s l t, f s l = some t → M.step s l t) {O : Type}
    {obs : S → O} {o : O} : ∀ {s : S}, (exec f s ls).map obs = some o → ∃ t, M.Run s ls t ∧ obs t = o := by
  induction ls with
  | nil =>
    intro s h; exact ⟨s, .nil s, Option.some.inj h⟩
  | cons l ls ih =>
    intro s h; obtain ⟨u, hu, ho⟩ := Option.map_eq_some_iff.mp h
    obtain ⟨t, ht, hrest⟩ := Option.bind_eq_some_iff.mp hu
    obtain ⟨v, hrun, hv⟩ := ih (s := t) (by rw [hrest, Option.map_some, ho])
    exact ⟨v, .cons (hf s l t ht) hrun, hv⟩

end Lts
end TronRs.Core

import TronRs.Core.Effect

/-!
# Programs with a log

`EStateM ε σ` with a log of events beside the state, to say what a program does on the way. An error leaves the
log as it leaves the state.

* `silent p` runs a program without logging, `emit e` logs an event (the newest comes first).
* `Erases p q`: forgetting the log, `p` is `q`. It composes (`Erases.bind`), logging erases to nothing
  (`Erases.emit_bind`, `Erases.state_bind`), so a program and its logged version are compared statement by statement.
* `wp_silent` and the other `wp_*` lemmas compute weakest preconditions of logged programs.
-/
namespace TronRs.Core

variable {ε σ κ α β : Type}

abbrev Logged (ε σ κ : Type) := EStateM ε (σ × List κ)

namespace Logged

def silent (p : EStateM ε σ α) : Logged ε σ κ α := fun s =>
  match p s.1 with
  | .ok a t => .ok a (t, s.2)
  | .error e t => .error e (t, s.2)

def emit (e : κ) : Logged ε σ κ PUnit := modify fun s => (s.1, e :: s.2)

/-- The state, without the log. -/
def state : Logged ε σ κ σ := silent get

section Wp
variable {s : σ × List κ} {ok : α → σ × List κ → Prop} {err : ε → σ × List κ → Prop}

@[simp] lemma wp_silent {p : EStateM ε σ α} :
    wp (silent p) s ok err ↔ wp p s.1 (fun a t => ok a (t, s.2)) (fun e t => err e (t, s.2)) := by
  unfold wp silent; cases p s.1 <;> rfl

@[simp] lemma wp_emit {e : κ} {ok : PUnit → σ × List κ → Prop} :
    wp (emit e : Logged ε σ κ PUnit) s ok err ↔ ok ⟨⟩ (s.1, e :: s.2) := Iff.rfl

@[simp] lemma wp_state {ok : σ → σ × List κ → Prop} : wp (state : Logged ε σ κ σ) s ok err ↔ ok s.1 s := Iff.rfl

end Wp

/-- Forgetting the log, `p` is `q`. -/
structure Erases (p : Logged ε σ κ α) (q : EStateM ε σ α) : Prop where
  at_state : ∀ s, wp p s (fun a t => q s.1 = .ok a t.1) (fun e t => q s.1 = .error e t.1)

namespace Erases
variable {p : Logged ε σ κ α} {q : EStateM ε σ α} {f : α → Logged ε σ κ β} {g : α → EStateM ε σ β} {s : σ × List κ}

lemma silent (q : EStateM ε σ α) : Erases (Logged.silent q : Logged ε σ κ α) q :=
  ⟨fun _ => wp_silent.mpr (wp_iff.mpr ⟨fun _ _ h => h, fun _ _ h => h⟩)⟩

lemma pure (a : α) : Erases (Pure.pure a : Logged ε σ κ α) (Pure.pure a) := ⟨fun _ => rfl⟩

lemma throw (e : ε) : Erases (MonadExcept.throw e : Logged ε σ κ α) (MonadExcept.throw e) := ⟨fun _ => rfl⟩

lemma bind (hp : Erases p q) (hf : ∀ a, Erases (f a) (g a)) : Erases (p >>= f) (q >>= g) := by
  refine ⟨fun s => ?_⟩; rw [wp_bind]
  refine wp_mono (hp.at_state s) (fun a t hq => ?_) (fun e t hq => seq_of_error hq)
  exact wp_mono ((hf a).at_state t) (fun b u hg => (seq_of_ok hq).trans hg) (fun e u hg => (seq_of_ok hq).trans hg)

lemma emit_bind {e : κ} {k : PUnit → Logged ε σ κ α} (h : Erases (k ⟨⟩) q) : Erases (emit e >>= k) q :=
  ⟨fun s => h.at_state (s.1, e :: s.2)⟩

/-- What is logged may depend on the state. -/
lemma state_bind {k : σ → Logged ε σ κ α} (h : ∀ m, Erases (k m) q) : Erases (state >>= k) q :=
  ⟨fun s => (h s.1).at_state s⟩

lemma get_bind {k : σ → Logged ε σ κ α} {j : σ → EStateM ε σ α} (h : ∀ m, Erases (k m) (j m)) :
    Erases (state >>= k) (get >>= j) := ⟨fun s => (h s.1).at_state s⟩

lemma ok {t : σ × List κ} {a : α} (h : Erases p q) (hp : p s = .ok a t) : q s.1 = .ok a t.1 := by
  have hr := ok_of_wp (h.at_state s) hp; exact hr

lemma error {t : σ × List κ} {e : ε} (h : Erases p q) (hp : p s = .error e t) : q s.1 = .error e t.1 := by
  have hr := error_of_wp (h.at_state s) hp; exact hr

/-- Whatever `q` does, `p` does with some log. -/
lemma exists_ok {a : α} {t : σ} (h : Erases p q) (hq : q s.1 = .ok a t) : ∃ l, p s = .ok a (t, l) := by
  cases hp : p s with
  | ok b u =>
    have := h.ok hp; rw [hq] at this; cases this
    exact ⟨u.2, rfl⟩
  | error => have := h.error hp; rw [hq] at this; cases this

lemma exists_error {e : ε} {t : σ} (h : Erases p q) (hq : q s.1 = .error e t) : ∃ l, p s = .error e (t, l) := by
  cases hp : p s with
  | ok => have := h.ok hp; rw [hq] at this; cases this
  | error e' u =>
    have := h.error hp; rw [hq] at this; cases this
    exact ⟨u.2, rfl⟩

end Erases
end Logged
end TronRs.Core

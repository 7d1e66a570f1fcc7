import Mathlib

/-!
# State, errors and weakest preconditions

Programs that mutate a store and may stop with an error keep whatever they wrote
before the error. `EStateM ε σ` has exactly that shape: an error carries the state
reached. `wp m s ok err` says that running `m` from `s` either returns with `ok` or
stops with `err`; the `wp_*` lemmas compute it along a `do` block, so a proof about
a program is a proof about the checks and writes it is made of.

* `wp_bind`, `wp_mono`: composition and weakening.
* `ok_of_wp`, `error_of_wp`, `wp_iff`: reading a `wp` fact back as facts about outcomes.
* `outcome m s`: what a run returns, in `Except`, computed along a `do` block by `outcome_bind`.
* `Keeps R E m`: a relation between start and end that holds for every run of `m`;
  `Keeps.bind` composes two of them.
* `Frame f m`: no run of `m` changes `f` of the state.

The `Except` part inverts a chain of checks: `bind_eq_ok`, `ensure_eq_ok`,
`orThrow_eq_ok`. The rules that `simp` follows a whole program with are collected in `check_rules`
and `ok_rules`.
-/
namespace TronRs.Core

variable {ε σ α β κ : Type} {n : EStateM ε σ α}

/-- Stops with `e` unless `p` holds. -/
def ensure {m : Type → Type} [Monad m] [MonadExcept ε m] (p : Prop) [Decidable p] (e : ε) :
    m Unit := if p then pure () else throw e

/-- The value of an option, or the error `e`. -/
def orThrow {m : Type → Type} [Monad m] [MonadExcept ε m] (o : Option α) (e : ε) : m α :=
  match o with
  | some a => pure a
  | none => throw e

/-! ## Checks without state -/

section Pure
variable {x : Except ε α} {f : α → Except ε β} {r : β} {e : ε} {p : Prop} {a : α} {δ : Type} {g : ε → δ}
variable {o : Option α}

lemma bind_eq_ok : (x >>= f) = .ok r ↔ ∃ a, x = .ok a ∧ f a = .ok r := by
  cases x with
  | error | ok => simp [bind, Except.bind]

lemma bind_eq_error : (x >>= f) = .error e ↔ x = .error e ∨ ∃ a, x = .ok a ∧ f a = .error e := by
  cases x with
  | error | ok => simp [bind, Except.bind]

lemma ok_bind : ((.ok a : Except ε α) >>= f) = f a := rfl

lemma error_bind : ((.error e : Except ε α) >>= f) = .error e := rfl

@[simp] lemma pure_eq_ok {b : α} : (pure a : Except ε α) = .ok b ↔ a = b := by
  simp [pure, Except.pure]

@[simp] lemma throw_eq_ok_iff : (throw e : Except ε α) = .ok a ↔ False :=
  ⟨nofun, nofun⟩

@[simp] lemma mapError_eq_ok : x.mapError g = .ok a ↔ x = .ok a := by
  cases x <;> simp [Except.mapError]

lemma mapError_bind : (x >>= f).mapError g = x.mapError g >>= fun a => (f a).mapError g := by
  cases x <;> rfl

@[simp] lemma ensure_eq_ok [Decidable p] {u : Unit} : (ensure p e : Except ε Unit) = .ok u ↔ p := by
  unfold ensure; split <;> simp_all

@[simp] lemma orThrow_eq_ok : (orThrow o e : Except ε α) = .ok a ↔ o = some a := by
  unfold orThrow; cases o <;> simp

@[simp] lemma ensure_eq_error [Decidable p] {e' : ε} :
    (ensure p e : Except ε Unit) = .error e' ↔ ¬ p ∧ e = e' := by
  unfold ensure; by_cases h : p <;> simp [h, pure, Except.pure, throw, throwThe, MonadExceptOf.throw]

@[simp] lemma orThrow_eq_error {e' : ε} :
    (orThrow o e : Except ε α) = .error e' ↔ o = none ∧ e = e' := by
  cases o <;> simp [orThrow, pure, Except.pure, throw, throwThe, MonadExceptOf.throw]

lemma ensure_pos [Decidable p] (h : p) : (ensure p e : Except ε Unit) = .ok () := if_pos h

lemma ensure_neg [Decidable p] (h : ¬ p) : (ensure p e : Except ε Unit) = .error e := if_neg h

lemma mapError_ensure [Decidable p] : (ensure p e : Except ε Unit).mapError g = ensure p (g e) := by
  unfold ensure; split <;> rfl

/-- A check that has passed, statement by statement. -/
lemma check_rules : (∀ {α β : Type} {x : Except ε α} {f : α → Except ε β} {r : β},
      (x >>= f) = .ok r ↔ ∃ a, x = .ok a ∧ f a = .ok r) ∧
    (∀ {α : Type} {a b : α}, (pure a : Except ε α) = .ok b ↔ a = b) ∧
    (∀ {p : Prop} [Decidable p] {e : ε} {u : Unit}, (ensure p e : Except ε Unit) = .ok u ↔ p) ∧
    ∀ {α : Type} {o : Option α} {e : ε} {a : α}, (orThrow o e : Except ε α) = .ok a ↔ o = some a :=
  ⟨bind_eq_ok, pure_eq_ok, ensure_eq_ok, orThrow_eq_ok⟩

end Pure

/-! ## Programs over a state -/

/-- Runs a stateless check inside a stateful program. -/
def lift (x : Except ε α) : EStateM ε σ α := fun s =>
  match x with
  | .ok a => .ok a s
  | .error e => .error e s

/-- Running `m` from `s` returns with `ok` or stops with `err`. -/
def wp (m : EStateM ε σ α) (s : σ) (ok : α → σ → Prop) (err : ε → σ → Prop) : Prop :=
  match m s with
  | .ok a s' => ok a s'
  | .error e s' => err e s'

section Wp
variable {m : EStateM ε σ α} {f : α → EStateM ε σ β} {s : σ} {p : Prop}
variable {ok ok' : α → σ → Prop} {okb : β → σ → Prop} {err err' : ε → σ → Prop} {t : σ} {e : ε}

@[simp] lemma wp_pure {a : α} : wp (pure a) s ok err ↔ ok a s := Iff.rfl

@[simp] lemma wp_throw : wp (throw e : EStateM ε σ α) s ok err ↔ err e s := Iff.rfl

@[simp] lemma wp_bind : wp (m >>= f) s okb err ↔ wp m s (fun a s' => wp (f a) s' okb err) err := by
  unfold wp; simp only [bind, EStateM.bind]
  cases m s with
  | ok | error => rfl

@[simp] lemma wp_map {g : α → β} : wp (g <$> m) s okb err ↔ wp m s (fun a s' => okb (g a) s') err := by
  rw [← bind_pure_comp, wp_bind]; rfl

@[simp] lemma wp_get {ok : σ → σ → Prop} : wp (get : EStateM ε σ σ) s ok err ↔ ok s s := Iff.rfl

@[simp] lemma wp_set {ok : PUnit → σ → Prop} : wp (set t : EStateM ε σ PUnit) s ok err ↔ ok ⟨⟩ t := Iff.rfl

@[simp] lemma wp_modify {g : σ → σ} {ok : PUnit → σ → Prop} :
    wp (modify g : EStateM ε σ PUnit) s ok err ↔ ok ⟨⟩ (g s) := Iff.rfl

@[simp] lemma wp_ensure [Decidable p] {ok : Unit → σ → Prop} :
    wp (ensure p e : EStateM ε σ Unit) s ok err ↔ (p → ok () s) ∧ (¬ p → err e s) := by
  unfold ensure; split <;> simp_all

@[simp] lemma wp_orThrow {o : Option α} : wp (orThrow o e : EStateM ε σ α) s ok err ↔
      (∀ a, o = some a → ok a s) ∧ (o = none → err e s) := by
  unfold orThrow; cases o <;> simp

@[simp] lemma wp_lift {x : Except ε α} : wp (lift x : EStateM ε σ α) s ok err ↔
      (∀ a, x = .ok a → ok a s) ∧ (∀ e, x = .error e → err e s) := by
  unfold wp lift; cases x <;> simp

lemma wp_ite [Decidable p] : wp (if p then m else n) s ok err ↔ (p → wp m s ok err) ∧ (¬ p → wp n s ok err) := by
  split <;> simp_all

lemma wp_mono (h : wp m s ok err) (hok : ∀ a t, ok a t → ok' a t)
    (herr : ∀ e t, err e t → err' e t) : wp m s ok' err' := by
  unfold wp at h ⊢
  split
  · rename_i heq; rw [heq] at h; exact hok _ _ h
  · rename_i heq; rw [heq] at h; exact herr _ _ h

lemma ok_of_wp {a : α} (h : wp m s ok err) (hm : m s = .ok a t) : ok a t := by
  unfold wp at h; rwa [hm] at h

/-- To show something of a result, follow the program. -/
lemma ok_elim {P : α → σ → Prop} {a : α} (hm : m s = .ok a t) (h : wp m s P fun _ _ => True) : P a t := ok_of_wp h hm

/-- Following a program to where it returns, statement by statement. -/
lemma ok_rules {s : σ} :
    (∀ {α β : Type} {m : EStateM ε σ α} {f : α → EStateM ε σ β} {ok : β → σ → Prop},
    wp (m >>= f) s ok (fun _ _ => True) ↔
      wp m s (fun a t => wp (f a) t ok fun _ _ => True) fun _ _ => True) ∧
    (∀ {α : Type} {a : α} {ok : α → σ → Prop}, wp (pure a : EStateM ε σ α) s ok (fun _ _ => True) ↔ ok a s) ∧
    (∀ {ok : σ → σ → Prop}, wp (get : EStateM ε σ σ) s ok (fun _ _ => True) ↔ ok s s) ∧
    (∀ {g : σ → σ} {ok : PUnit → σ → Prop}, wp (modify g : EStateM ε σ PUnit) s ok (fun _ _ => True) ↔ ok ⟨⟩ (g s)) ∧
    (∀ {α : Type} {o : Option α} {e : ε} {ok : α → σ → Prop},
      wp (orThrow o e : EStateM ε σ α) s ok (fun _ _ => True) ↔ ∀ a, o = some a → ok a s) ∧
    ∀ {α : Type} {x : Except ε α} {ok : α → σ → Prop},
      wp (lift x : EStateM ε σ α) s ok (fun _ _ => True) ↔ ∀ a, x = .ok a → ok a s :=
  ⟨wp_bind, wp_pure, wp_get, wp_modify, by simp, by simp⟩

lemma error_of_wp (h : wp m s ok err) (hm : m s = .error e t) : err e t := by
  unfold wp at h; rwa [hm] at h

/-- A sequence stops in its first program, or that returns and the rest stops. -/
lemma seq_eq_error {f : α → EStateM ε σ β} :
    (m >>= f) s = .error e t ↔ m s = .error e t ∨ ∃ a u, m s = .ok a u ∧ f a u = .error e t := by
  simp only [bind, EStateM.bind]
  cases m s with
  | ok => simp [and_assoc]
  | error => simp

lemma seq_eq_ok {f : α → EStateM ε σ β} {b : β} : (m >>= f) s = .ok b t ↔ ∃ a u, m s = .ok a u ∧ f a u = .ok b t := by
  simp only [bind, EStateM.bind]
  cases m s with
  | ok => simp [and_assoc]
  | error => simp

lemma seq_of_ok {f : α → EStateM ε σ β} {a : α} (h : m s = .ok a t) : (m >>= f) s = f a t := by
  simp only [bind, EStateM.bind, h]

lemma seq_of_error {f : α → EStateM ε σ β} (h : m s = .error e t) : (m >>= f) s = .error e t := by
  simp only [bind, EStateM.bind, h]

/-- A loop that stops has gone through the elements before the one it stops at. -/
lemma exists_of_mapM_error {g : κ → EStateM ε σ α} {xs : List κ} {s : σ} (h : xs.mapM g s = .error e t) :
    ∃ done x rest as u, xs = done ++ x :: rest ∧ done.mapM g s = .ok as u ∧ g x u = .error e t := by
  induction xs generalizing s with
  | nil => cases h
  | cons x xs ih =>
    rw [List.mapM_cons, seq_eq_error] at h
    rcases h with h | ⟨a, u, hx, h⟩
    · exact ⟨[], x, xs, [], s, rfl, rfl, h⟩
    rw [seq_eq_error] at h
    rcases h with h | ⟨as, v, -, h⟩
    · obtain ⟨done, y, rest, as, v, rfl, hdone, hy⟩ := ih h
      refine ⟨x :: done, y, rest, a :: as, v, rfl, ?_, hy⟩; rw [List.mapM_cons, seq_eq_ok]
      exact ⟨a, u, hx, seq_eq_ok.mpr ⟨as, v, hdone, rfl⟩⟩
    · cases h

/-- A run that cannot fail returns. -/
lemma exists_ok_of_wp (h : wp m s ok fun _ _ => False) : ∃ a t, m s = .ok a t ∧ ok a t := by
  unfold wp at h
  split at h
  · rename_i a t hm; exact ⟨a, t, hm, h⟩
  · exact h.elim

lemma wp_of_ok {a : α} (hm : m s = .ok a t) (h : ok a t) : wp m s ok err := by
  unfold wp; rwa [hm]

lemma wp_of_error (hm : m s = .error e t) (h : err e t) : wp m s ok err := by
  unfold wp; rwa [hm]

/-- Every outcome of `m` from `s` is one of the two. -/
lemma wp_iff : wp m s ok err ↔ (∀ a t, m s = .ok a t → ok a t) ∧ (∀ e t, m s = .error e t → err e t) := by
  unfold wp; cases m s <;> simp

end Wp

/-! ## Programs that return -/

/-- Running `m` from `s` returns, with `ok`. -/
def Returns (m : EStateM ε σ α) (s : σ) (ok : α → σ → Prop) : Prop := wp m s ok fun _ _ => False

section Returns
variable {m : EStateM ε σ α} {s : σ} {ok : α → σ → Prop} {okb : β → σ → Prop}

lemma exists_ok_iff {a : α} : (∃ t, m s = .ok a t) ↔ Returns m s fun b _ => b = a := by
  unfold Returns wp; cases m s <;> simp

@[simp] lemma returns_pure {a : α} : Returns (pure a : EStateM ε σ α) s ok ↔ ok a s := Iff.rfl

@[simp] lemma returns_throw {e : ε} : Returns (throw e : EStateM ε σ α) s ok ↔ False := Iff.rfl

@[simp] lemma returns_bind {f : α → EStateM ε σ β} :
    Returns (m >>= f) s okb ↔ Returns m s fun a t => Returns (f a) t okb := wp_bind

@[simp] lemma returns_map {g : α → β} :
    Returns (g <$> m) s okb ↔ Returns m s fun a t => okb (g a) t := wp_map

@[simp] lemma returns_get {ok : σ → σ → Prop} : Returns (get : EStateM ε σ σ) s ok ↔ ok s s := Iff.rfl

@[simp] lemma returns_modify {g : σ → σ} {ok : PUnit → σ → Prop} :
    Returns (modify g : EStateM ε σ PUnit) s ok ↔ ok ⟨⟩ (g s) := Iff.rfl

@[simp] lemma returns_orThrow {o : Option α} {e : ε} :
    Returns (orThrow o e : EStateM ε σ α) s ok ↔ ∃ a, o = some a ∧ ok a s := by
  cases o <;> simp [Returns]

@[simp] lemma returns_lift {x : Except ε α} : Returns (lift x : EStateM ε σ α) s ok ↔ ∃ a, x = .ok a ∧ ok a s := by
  cases x <;> simp [Returns]

@[simp] lemma returns_ite {p : Prop} [Decidable p] :
    Returns (if p then m else n) s ok ↔ if p then Returns m s ok else Returns n s ok := by
  split <;> rfl

end Returns

/-- Two continuations that agree wherever `m` gets to can be exchanged. -/
lemma bind_congr_at {m : EStateM ε σ α} {f g : α → EStateM ε σ β} {s : σ}
    (h : ∀ a t, m s = .ok a t → f a t = g a t) : (m >>= f) s = (m >>= g) s := by
  simp only [bind, EStateM.bind]
  cases hm : m s with
  | ok a t => exact h a t hm
  | error => rfl

/-! ## Outcomes -/

/-- An outcome without the state an error leaves: all a caller sees that gives up on error. -/
def outcome (m : EStateM ε σ α) (s : σ) : Except ε (α × σ) :=
  match m s with
  | .ok a t => .ok (a, t)
  | .error e _ => .error e

section Outcome
variable {m : EStateM ε σ α} {f : α → EStateM ε σ β} {s : σ} {e : ε}

lemma outcome_eq_ok {a : α} {t : σ} : outcome m s = .ok (a, t) ↔ m s = .ok a t := by
  unfold outcome; cases m s <;> simp

lemma outcome_eq_error : outcome m s = .error e ↔ ∃ t, m s = .error e t := by
  unfold outcome; cases m s <;> simp

/-- What a program that returns shows of its result and its state. -/
lemma exists_of_outcome {γ : Type} {g : α × σ → γ} {c : γ} (h : (outcome m s).toOption.map g = some c) :
    ∃ a t, m s = .ok a t ∧ g (a, t) = c := by
  cases hm : outcome m s with
  | error =>
    rw [hm] at h; cases h
  | ok p =>
    rw [hm] at h; exact ⟨p.1, p.2, outcome_eq_ok.mp hm, Option.some.inj h⟩

lemma returns_iff_outcome {ok : α → σ → Prop} : Returns m s ok ↔ ∃ a t, outcome m s = .ok (a, t) ∧ ok a t := by
  unfold Returns wp outcome; cases m s <;> simp [and_assoc]

@[simp] lemma outcome_pure {a : α} : outcome (pure a : EStateM ε σ α) s = .ok (a, s) := rfl

@[simp] lemma outcome_throw : outcome (throw e : EStateM ε σ α) s = .error e := rfl

@[simp] lemma outcome_get : outcome (get : EStateM ε σ σ) s = .ok (s, s) := rfl

@[simp] lemma outcome_modify {g : σ → σ} : outcome (modify g : EStateM ε σ PUnit) s = .ok (⟨⟩, g s) := rfl

lemma outcome_bind : outcome (m >>= f) s = outcome m s >>= fun p => outcome (f p.1) p.2 := by
  unfold outcome; simp only [bind, EStateM.bind, Except.bind]
  cases m s with
  | ok | error => rfl

@[simp] lemma outcome_lift_bind {x : Except ε α} : outcome (lift x >>= f) s = x >>= fun a => outcome (f a) s := by
  cases x <;> rfl

@[simp] lemma outcome_orThrow_bind {o : Option α} :
    outcome (orThrow o e >>= f) s = (orThrow o e : Except ε α) >>= fun a => outcome (f a) s := by
  cases o <;> rfl

@[simp] lemma outcome_get_bind {f : σ → EStateM ε σ β} : outcome (get >>= f) s = outcome (f s) s := rfl

@[simp] lemma outcome_modify_bind {g : σ → σ} {f : PUnit → EStateM ε σ β} :
    outcome (modify g >>= f) s = outcome (f ⟨⟩) (g s) := rfl

lemma outcome_ite {p : Prop} [Decidable p] :
    outcome (if p then m else n) s = if p then outcome m s else outcome n s := by
  split <;> rfl

end Outcome

/-! ## The state a program leaves -/

/-- The state after `m`, whatever its outcome. -/
def stateAfter (m : EStateM ε σ α) (s : σ) : σ :=
  match m s with
  | .ok _ t => t
  | .error _ t => t

/-- The program returns; on a concrete state this can be computed. -/
def returns (m : EStateM ε σ α) (s : σ) : Bool :=
  match m s with
  | .ok .. => true
  | .error .. => false

lemma ok_of_returns {m : EStateM ε σ α} {s : σ} (h : returns m s = true) : ∃ a, m s = .ok a (stateAfter m s) := by
  unfold returns at h; unfold stateAfter
  cases hm : m s with
  | ok a => exact ⟨a, rfl⟩
  | error =>
    rw [hm] at h; cases h

lemma stateAfter_of_wp {m : EStateM ε σ α} {s : σ} {P : σ → Prop} (h : wp m s (fun _ t => P t) fun _ t => P t) :
    P (stateAfter m s) := by
  unfold stateAfter
  cases hm : m s with
  | ok => exact ok_of_wp h hm
  | error => exact error_of_wp h hm

/-! ## Relations a program keeps -/

/-- From every state, `m` returns in a state related by `R`, or stops with an error and a
state related by `E`. -/
def Keeps (R : σ → σ → Prop) (E : σ → ε → σ → Prop) (m : EStateM ε σ α) : Prop :=
  ∀ s, wp m s (fun _ t => R s t) (fun e t => E s e t)

section Keeps
variable {m : EStateM ε σ α} {f : α → EStateM ε σ β} {R S T : σ → σ → Prop} {E F G : σ → ε → σ → Prop}

lemma Keeps.bind (hm : Keeps R E m) (hf : ∀ a, Keeps S F (f a))
    (hE : ∀ s e t, E s e t → G s e t) (hF : ∀ s t e u, R s t → F t e u → G s e u)
    (hT : ∀ s t u, R s t → S t u → T s u) : Keeps T G (m >>= f) := by
  intro s; rw [wp_bind]; refine wp_mono (hm s) (fun a t hst => ?_) (fun e t h => hE s e t h)
  exact wp_mono (hf a t) (fun _ u h => hT s t u hst h) (fun e u h => hF s t e u hst h)

lemma Keeps.mono (hm : Keeps R E m) (hR : ∀ s t, R s t → S s t) (hE : ∀ s e t, E s e t → F s e t) : Keeps S F m :=
  fun s => wp_mono (hm s) (fun _ t h => hR s t h) (fun e t h => hE s e t h)

lemma Keeps.ok {s t : σ} {a : α} (hm : Keeps R E m) (h : m s = .ok a t) : R s t := by
  have hr := ok_of_wp (hm s) h; exact hr

lemma Keeps.error {s t : σ} {e : ε} (hm : Keeps R E m) (h : m s = .error e t) : E s e t := by
  have hr := error_of_wp (hm s) h; exact hr

end Keeps

/-! ## What a program leaves alone -/

/-- Whatever `m` does, `f` of the state stays the same. -/
def Frame {γ : Type} (f : σ → γ) (m : EStateM ε σ α) : Prop :=
  Keeps (fun s t => f t = f s) (fun s _ t => f t = f s) m

variable (a : α) (e : ε)

namespace Frame
variable {γ : Type} {f : σ → γ} {m : EStateM ε σ α} {k : α → EStateM ε σ β}

protected lemma pure : Frame f (pure a : EStateM ε σ α) := fun _ => rfl

protected lemma throw : Frame f (throw e : EStateM ε σ α) := fun _ => rfl

protected lemma get : Frame f (get : EStateM ε σ σ) := fun _ => rfl

protected lemma lift (x : Except ε α) : Frame f (lift x : EStateM ε σ α) := fun _ =>
  wp_lift.mpr ⟨fun _ _ => rfl, fun _ _ => rfl⟩

protected lemma orThrow (o : Option α) (e : ε) : Frame f (orThrow o e : EStateM ε σ α) := fun _ =>
  wp_orThrow.mpr ⟨fun _ _ => rfl, fun _ => rfl⟩

protected lemma modify {g : σ → σ} (h : ∀ s, f (g s) = f s) : Frame f (modify g : EStateM ε σ PUnit) :=
  fun s => h s

protected lemma bind (hm : Frame f m) (hk : ∀ a, Frame f (k a)) : Frame f (m >>= k) :=
  Keeps.bind hm hk (fun _ _ _ h => h) (fun _ _ _ _ h1 h2 => h2.trans h1) (fun _ _ _ h1 h2 => h2.trans h1)

protected lemma ite {p : Prop} [Decidable p] (hm : Frame f m) (hn : Frame f n) : Frame f (if p then m else n) := by
  split
  · exact hm
  · exact hn

protected lemma mapM {g : κ → EStateM ε σ α} (h : ∀ x, Frame f (g x)) (xs : List κ) : Frame f (xs.mapM g) := by
  induction xs with
  | nil => exact .pure _
  | cons x xs ih =>
    rw [List.mapM_cons]
    exact .bind (h x) fun _ => .bind ih fun _ => .pure _

/-- What is computed from something left alone is left alone. -/
protected lemma comp {δ : Type} (g : γ → δ) (h : Frame f m) : Frame (fun s => g (f s)) m :=
  Keeps.mono h (fun _ _ heq => congrArg g heq) (fun _ _ _ heq => congrArg g heq)

/-! The first statement of a program: a read, a check or a write of something else. -/

lemma get_bind {k : σ → EStateM ε σ β} (hk : ∀ s, Frame f (k s)) : Frame f (get >>= k) :=
  .bind .get hk

lemma lift_bind {x : Except ε α} (hk : ∀ a, Frame f (k a)) : Frame f (lift x >>= k) :=
  .bind (.lift x) hk

lemma orThrow_bind {o : Option α} {e : ε} (hk : ∀ a, Frame f (k a)) : Frame f (orThrow o e >>= k) :=
  .bind (.orThrow o e) hk

lemma modify_bind {g : σ → σ} {k : PUnit → EStateM ε σ β} (hg : ∀ s, f (g s) = f s)
    (hk : ∀ a, Frame f (k a)) : Frame f (modify g >>= k) := .bind (.modify hg) hk

end Frame

/-! ## What a program returns -/

/-- Whatever `m` returns satisfies `P`. -/
def Gives (P : α → Prop) (m : EStateM ε σ α) : Prop := ∀ s, wp m s (fun a _ => P a) fun _ _ => True

namespace Gives
variable {P : β → Prop} {b : β} {m : EStateM ε σ α} {k : α → EStateM ε σ β}

protected lemma pure (h : P b) : Gives P (pure b : EStateM ε σ β) := fun _ => h

/-- Only the last statement decides. -/
protected lemma bind (hk : ∀ a, Gives P (k a)) : Gives P (m >>= k) := fun s => by
  rw [wp_bind]
  exact wp_iff.mpr ⟨fun a t _ => hk a t, fun _ _ _ => trivial⟩

protected lemma ok {s t : σ} {m : EStateM ε σ β} (h : Gives P m) (hm : m s = .ok b t) : P b := by
  have hb := ok_of_wp (h s) hm
  exact hb

end Gives
/-! ## Two programs in lockstep -/

/-- From related states `p` and `q` return the same in related states, or stop alike; nothing
is said where `p` stops with an error that `ex` exempts. -/
def Lockstep {τ : Type} (R : σ → τ → Prop) (ex : ε → Prop) (p : EStateM ε σ α) (q : EStateM ε τ α) : Prop :=
  ∀ s t, R s t → wp p s (fun a s' => ∃ t', q t = .ok a t' ∧ R s' t')
    (fun e s' => ex e ∨ ∃ t', q t = .error e t' ∧ R s' t')

namespace Lockstep
variable {τ : Type} {R : σ → τ → Prop} {ex : ε → Prop} {p : EStateM ε σ α} {q : EStateM ε τ α}

lemma bind {f : α → EStateM ε σ β} {g : α → EStateM ε τ β} (hp : Lockstep R ex p q)
    (hf : ∀ a, Lockstep R ex (f a) (g a)) : Lockstep R ex (p >>= f) (q >>= g) := by
  intro s t h; rw [wp_bind]
  refine wp_mono (hp s t h) ?_ ?_
  · rintro a s' ⟨t', hq, hR⟩
    refine wp_mono (hf a s' t' hR) ?_ ?_
    · rintro b u ⟨u', hg, hR'⟩; exact ⟨u', seq_eq_ok.mpr ⟨a, t', hq, hg⟩, hR'⟩
    · rintro e u (he | ⟨u', hg, hR'⟩)
      · exact .inl he
      · exact .inr ⟨u', seq_eq_error.mpr (.inr ⟨a, t', hq, hg⟩), hR'⟩
  · rintro e s' (he | ⟨t', hq, hR⟩)
    · exact .inl he
    · exact .inr ⟨t', seq_eq_error.mpr (.inl hq), hR⟩

lemma pure : Lockstep R ex (Pure.pure a : EStateM ε σ α) (Pure.pure a) := fun _ t h => ⟨t, rfl, h⟩

lemma throw : Lockstep R ex (MonadExcept.throw e : EStateM ε σ α) (MonadExcept.throw e) :=
  fun _ t h => .inr ⟨t, rfl, h⟩

/-- What follows a read may depend on what was read. -/
lemma read {f : σ → EStateM ε σ β} {g : τ → EStateM ε τ β} (h : ∀ s t, R s t → Lockstep R ex (f s) (g t)) :
    Lockstep R ex (get >>= f) (get >>= g) := fun s t hR => h s t hR s t hR

lemma set {s' : σ} {t' : τ} (h : R s' t') :
    Lockstep R ex (MonadStateOf.set s' : EStateM ε σ PUnit) (MonadStateOf.set t') := fun _ _ _ => ⟨t', rfl, h⟩

lemma modify {f : σ → σ} {g : τ → τ} (h : ∀ s t, R s t → R (f s) (g t)) :
    Lockstep R ex (modify f : EStateM ε σ PUnit) (modify g) := fun s t hR => ⟨g t, rfl, h s t hR⟩

lemma ite {c : Prop} [Decidable c] {p' : EStateM ε σ α} {q' : EStateM ε τ α} (h : Lockstep R ex p q)
    (h' : Lockstep R ex p' q') : Lockstep R ex (if c then p else p') (if c then q else q') := by
  split
  · exact h
  · exact h'

lemma ensure (c : Prop) [Decidable c] (e : ε) :
    Lockstep R ex (Core.ensure c e : EStateM ε σ Unit) (Core.ensure c e) := by
  unfold Core.ensure; exact ite (pure ()) (throw e)

end Lockstep

end TronRs.Core

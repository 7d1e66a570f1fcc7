import TronRs.Core.Lts
import TronRs.Core.Stream

/-!
# Two processes and the byte streams between them

A process returns, writes bytes, reads with a fixed reader, or goes on with a loop. A session is two
processes joined by a byte stream in each direction: bytes in transit arrive one by one, at any time, and
a stream ends when its writer has returned and everything has arrived. A read waits until the reader
is ready on what has arrived.

* `session_diamond`: steps of the two sides and arrivals do not disturb each other, so a session that can
  come to an end always comes to that end.
* `Session.run_transfer`: what one side writes the other can read.
-/
namespace TronRs.Core

/-- `ι` is what a read returns, `σ` the states of loops, `α` the result. -/
inductive Proc (ι σ α : Type) where
  | ret (a : α)
  | write (b : Bytes) (next : Proc ι σ α)
  | read (next : ι → Proc ι σ α)
  | jump (s : σ)

namespace Proc
variable {ι σ α : Type}

/-- Enters the body of a loop. -/
def enter (body : σ → Proc ι σ α) : Proc ι σ α → Proc ι σ α
  | jump s => body s
  | p => p

def returned (body : σ → Proc ι σ α) (p : Proc ι σ α) : Bool :=
  match p.enter body with
  | ret _ => true
  | _ => false

/-- A process without loops that returns only what satisfies `P`, as long as what it reads satisfies `Q`. -/
def Yields (Q : ι → Prop) (P : α → Prop) : Proc ι σ α → Prop
  | ret a => P a
  | write _ next => next.Yields Q P
  | read next => ∀ x, Q x → (next x).Yields Q P
  | jump _ => False

end Proc

/-- One side of a session: its process, the bytes that have arrived, and those it has written that are in transit. -/
structure Side (ι σ α : Type) where
  proc : Proc ι σ α
  arrived : Bytes := []
  outgoing : Bytes := []

namespace Side
variable {ε ρ σ α : Type} (r : Reader ε ρ) (body : σ → Proc (Except ε ρ) σ α)

/-- Whether the other side has nothing more to expect. -/
def ended (s : Side (Except ε ρ) σ α) : Bool := s.proc.returned body && s.outgoing.isEmpty

/-- A write, or a read that is ready. -/
def act (s : Side (Except ε ρ) σ α) (ended : Bool) : Option (Side (Except ε ρ) σ α) :=
  match s.proc.enter body with
  | .write b next => some { s with proc := next, outgoing := s.outgoing ++ b }
  | .read next => (r.poll ⟨s.arrived, ended⟩).map fun p => { s with proc := next p.1, arrived := p.2.arrived }
  | _ => none

variable {r body} {s t : Side (Except ε ρ) σ α}

/-- More bytes, or the end of the stream, do not change what a side does. -/
lemma act_of_more (h : s.act r body false = some t) (c : Bytes) (e : Bool) :
    ({ s with arrived := s.arrived ++ c } : Side _ _ _).act r body e = some { t with arrived := t.arrived ++ c } := by
  unfold act at *
  dsimp only
  cases hp : s.proc.enter body with
  | ret | jump => simp [hp] at h
  | write =>
    simp only [hp, Option.some.injEq] at h ⊢; rw [← h]
  | read =>
    simp only [hp, Option.map_eq_some_iff] at h ⊢; obtain ⟨⟨res, u⟩, hpoll, rfl⟩ := h
    obtain ⟨rest, rfl, hmore⟩ := r.stable (c := c) (e := e) hpoll
    exact ⟨_, hmore, rfl⟩

/-- A side writes behind what is in transit. -/
lemma act_of_departure {ended : Bool} {b : UInt8} {rest : Bytes} (h : s.act r body ended = some t)
    (hout : s.outgoing = b :: rest) : ∃ rest', t.outgoing = b :: rest' ∧
      ({ s with outgoing := rest } : Side _ _ _).act r body ended = some { t with outgoing := rest' } := by
  unfold act at *
  dsimp only
  cases hp : s.proc.enter body with
  | ret | jump => simp [hp] at h
  | write c =>
    simp only [hp, Option.some.injEq] at h ⊢; subst h; exact ⟨rest ++ c, by simp [hout], rfl⟩
  | read =>
    simp only [hp, Option.map_eq_some_iff] at h ⊢; obtain ⟨p, hpoll, rfl⟩ := h
    exact ⟨rest, hout, p, hpoll, rfl⟩

lemma ended_of_act {e : Bool} (h : s.act r body e = some t) : s.ended body = false := by
  unfold act at h; unfold ended Proc.returned
  cases hp : s.proc.enter body with
  | ret => simp [hp] at h
  | jump | write | read => rfl

end Side

/-! ## Sessions -/

structure Session (ι σ α τ β : Type) where
  left : Side ι σ α
  right : Side ι τ β

/-- One side acts, or the next byte arrives. -/
inductive Turn where
  | left
  | right
  | toLeft
  | toRight

def Turn.swap : Turn → Turn
  | left => right
  | right => left
  | toLeft => toRight
  | toRight => toLeft

section
variable {ε ρ σ α τ β : Type}

namespace Session

def swap (s : Session (Except ε ρ) σ α τ β) : Session (Except ε ρ) τ β σ α := ⟨s.right, s.left⟩

/-- The next byte of the right side arrives at the left one. -/
def arrive (s : Session (Except ε ρ) σ α τ β) : Option (Session (Except ε ρ) σ α τ β) :=
  match s.right.outgoing with
  | [] => none
  | b :: rest => some ⟨{ s.left with arrived := s.left.arrived ++ [b] }, { s.right with outgoing := rest }⟩

variable (r : Reader ε ρ) (bodyL : σ → Proc (Except ε ρ) σ α) (bodyR : τ → Proc (Except ε ρ) τ β)

/-- The left side acts. -/
def actLeft (s : Session (Except ε ρ) σ α τ β) : Option (Session (Except ε ρ) σ α τ β) :=
  (s.left.act r bodyL (s.right.ended bodyR)).map fun t => { s with left := t }

def next (s : Session (Except ε ρ) σ α τ β) : Turn → Option (Session (Except ε ρ) σ α τ β)
  | .left => s.actLeft r bodyL bodyR
  | .right => (s.swap.actLeft r bodyR bodyL).map swap
  | .toLeft => s.arrive
  | .toRight => s.swap.arrive.map swap

end Session

def session (r : Reader ε ρ) (bodyL : σ → Proc (Except ε ρ) σ α) (bodyR : τ → Proc (Except ε ρ) τ β) :
    Lts (Session (Except ε ρ) σ α τ β) Turn where
  init _ := True
  step s l t := s.next r bodyL bodyR l = some t

variable {r : Reader ε ρ} {bodyL : σ → Proc (Except ε ρ) σ α} {bodyR : τ → Proc (Except ε ρ) τ β}
  {s t u : Session (Except ε ρ) σ α τ β}

namespace Session

lemma actLeft_eq_some : s.actLeft r bodyL bodyR = some t ↔
    ∃ l, s.left.act r bodyL (s.right.ended bodyR) = some l ∧ ⟨l, s.right⟩ = t := by
  rw [actLeft, Option.map_eq_some_iff]

lemma arrive_eq_some : s.arrive = some t ↔ ∃ b rest, s.right.outgoing = b :: rest ∧
    ⟨{ s.left with arrived := s.left.arrived ++ [b] }, { s.right with outgoing := rest }⟩ = t := by
  unfold arrive
  cases s.right.outgoing with
  | nil | cons => simp

/-- The two sides follow the same rules. -/
lemma next_swap (l : Turn) : s.swap.next r bodyR bodyL l.swap = (s.next r bodyL bodyR l).map swap := by
  have hid : ∀ o : Option (Session (Except ε ρ) τ β σ α), (o.map swap).map swap = o := fun o => by
    cases o <;> rfl
  cases l with
  | left | toLeft => rfl
  | right | toRight => exact (hid _).symm

variable (r bodyL bodyR) in
/-- Two turns can be taken in either order. -/
def Commute (l l' : Turn) : Prop :=
  ∀ s t u : Session (Except ε ρ) σ α τ β, s.next r bodyL bodyR l = some t → s.next r bodyL bodyR l' = some u →
    ∃ v, t.next r bodyL bodyR l' = some v ∧ u.next r bodyL bodyR l = some v

lemma Commute.symm {l l' : Turn} (h : Commute r bodyL bodyR l l') : Commute r bodyL bodyR l' l := by
  intro s t u ht hu; obtain ⟨v, hv, hv'⟩ := h s u t hu ht; exact ⟨v, hv', hv⟩

lemma Commute.swap {l l' : Turn} (h : Commute r bodyR bodyL l.swap l'.swap) : Commute r bodyL bodyR l l' := by
  intro s t u ht hu
  obtain ⟨v, hv, hv'⟩ := h s.swap t.swap u.swap (by rw [next_swap, ht]; rfl) (by rw [next_swap, hu]; rfl)
  rw [next_swap, Option.map_eq_some_iff] at hv hv'; obtain ⟨w, hw, rfl⟩ := hv
  obtain ⟨w', hw', heq⟩ := hv'
  have hsame : w' = w := congrArg Session.swap heq
  exact ⟨w, hw, hsame ▸ hw'⟩

/-- Neither side notices that the other one acts. -/
lemma commute_left_right : Commute r bodyL bodyR .left .right := by
  intro s t u ht hu; obtain ⟨l, hl, rfl⟩ := actLeft_eq_some.mp ht
  obtain ⟨x, hx, rfl⟩ := Option.map_eq_some_iff.mp hu
  obtain ⟨l', hl', rfl⟩ := actLeft_eq_some.mp hx
  -- a side that acts has not returned, so neither stream has ended
  have hright : s.right.ended bodyR = false := Side.ended_of_act hl'
  have hleft : s.left.ended bodyL = false := Side.ended_of_act hl
  rw [hright] at hl; change s.right.act r bodyR (s.left.ended bodyL) = some l' at hl'; rw [hleft] at hl'
  have hl1 := Side.act_of_more hl []
  have hl2 := Side.act_of_more hl' []; simp only [List.append_nil] at hl1 hl2
  refine ⟨⟨l, l'⟩, Option.map_eq_some_iff.mpr ⟨⟨l', l⟩, actLeft_eq_some.mpr ⟨l', hl2 _, rfl⟩, rfl⟩,
    actLeft_eq_some.mpr ⟨l, hl1 _, rfl⟩⟩

/-- What arrives does not change what the receiver does before. -/
lemma commute_left_toLeft : Commute r bodyL bodyR .left .toLeft := by
  intro s t u ht hu; obtain ⟨l, hl, rfl⟩ := actLeft_eq_some.mp ht
  obtain ⟨b, rest, hout, rfl⟩ := arrive_eq_some.mp hu
  have hended : s.right.ended bodyR = false := by simp [Side.ended, hout]
  rw [hended] at hl
  exact ⟨_, arrive_eq_some.mpr ⟨b, rest, hout, rfl⟩, actLeft_eq_some.mpr ⟨_, Side.act_of_more hl [b] _, rfl⟩⟩

lemma commute_left_toRight : Commute r bodyL bodyR .left .toRight := by
  intro s t u ht hu; obtain ⟨l, hl, rfl⟩ := actLeft_eq_some.mp ht
  obtain ⟨x, hx, rfl⟩ := Option.map_eq_some_iff.mp hu
  obtain ⟨b, rest, hout, rfl⟩ := arrive_eq_some.mp hx
  obtain ⟨rest', hout', hl'⟩ := Side.act_of_departure hl hout
  refine ⟨_, Option.map_eq_some_iff.mpr ⟨_, arrive_eq_some.mpr ⟨b, rest', hout', rfl⟩, rfl⟩,
    actLeft_eq_some.mpr ⟨_, hl', rfl⟩⟩

lemma commute_arrivals : Commute r bodyL bodyR .toLeft .toRight := by
  intro s t u ht hu; obtain ⟨b, rest, hout, rfl⟩ := arrive_eq_some.mp ht
  obtain ⟨x, hx, rfl⟩ := Option.map_eq_some_iff.mp hu
  obtain ⟨c, rest', hout', rfl⟩ := arrive_eq_some.mp hx
  exact ⟨_, Option.map_eq_some_iff.mpr ⟨_, arrive_eq_some.mpr ⟨c, rest', hout', rfl⟩, rfl⟩,
    arrive_eq_some.mpr ⟨b, rest, hout, rfl⟩⟩

lemma commute {l l' : Turn} (hne : l ≠ l') : Commute r bodyL bodyR l l' := by
  cases l with
  | left =>
    cases l' with
    | left => exact absurd rfl hne
    | right => exact commute_left_right
    | toLeft => exact commute_left_toLeft
    | toRight => exact commute_left_toRight
  | right =>
    cases l' with
    | left => exact commute_left_right.symm
    | right => exact absurd rfl hne
    | toLeft => exact .swap commute_left_toRight
    | toRight => exact .swap commute_left_toLeft
  | toLeft =>
    cases l' with
    | left => exact commute_left_toLeft.symm
    | right => exact .symm (.swap commute_left_toRight)
    | toLeft => exact absurd rfl hne
    | toRight => exact commute_arrivals
  | toRight =>
    cases l' with
    | left => exact commute_left_toRight.symm
    | right => exact .symm (.swap commute_left_toLeft)
    | toLeft => exact commute_arrivals.symm
    | toRight => exact absurd rfl hne

end Session

/-- **A session is deterministic**, up to the order in which independent things happen. -/
theorem session_diamond : (session r bodyL bodyR).Diamond := by
  intro s l l' t u ht hu
  by_cases h : l = l'
  · subst h; exact .inl (Option.some.inj (ht.symm.trans hu))
  · obtain ⟨v, hv, hv'⟩ := Session.commute h s t u ht hu
    exact .inr ⟨l', l, v, hv, hv'⟩

/-! ## Transfers -/

namespace Session

lemma run_swap {ls : List Turn} (h : (session r bodyL bodyR).Run s ls t) :
    (session r bodyR bodyL).Run s.swap (ls.map Turn.swap) t.swap := by
  induction h with
  | nil => exact .nil _
  | cons hstep _ ih =>
    refine .cons ?_ ih; show Session.next _ _ _ _ _ = _
    rw [next_swap, show Session.next _ _ _ _ _ = _ from hstep]; rfl

variable (r bodyL bodyR) in
/-- Everything in transit to the right side arrives. -/
lemma run_arrivals (l : Side (Except ε ρ) σ α) (x : Side (Except ε ρ) τ β) (b : Bytes) :
    ∀ arrived, ∃ ls, (session r bodyL bodyR).Run ⟨{ l with outgoing := b }, { x with arrived := arrived }⟩ ls
      ⟨{ l with outgoing := [] }, { x with arrived := arrived ++ b }⟩ := by
  induction b with
  | nil =>
    intro arrived; exact ⟨[], by rw [List.append_nil]; exact .nil _⟩
  | cons c b ih =>
    intro arrived; obtain ⟨ls, hrun⟩ := ih (arrived ++ [c])
    rw [List.append_assoc, List.singleton_append] at hrun; exact ⟨.toRight :: ls, .cons rfl hrun⟩

/-- The left side writes, all of it arrives, and the right side reads. -/
lemma run_transfer {p p' : Proc (Except ε ρ) σ α} {q : Proc (Except ε ρ) τ β}
    {next : Except ε ρ → Proc (Except ε ρ) τ β} {b rest : Bytes} {res : Except ε ρ}
    (hp : p.enter bodyL = .write b p') (hq : q.enter bodyR = .read next)
    (hread : ∀ ended, r.poll ⟨b, ended⟩ = some (res, ⟨rest, ended⟩)) :
    ∃ ls, (session r bodyL bodyR).Run ⟨⟨p, [], []⟩, ⟨q, [], []⟩⟩ ls ⟨⟨p', [], []⟩, ⟨next res, rest, []⟩⟩ := by
  obtain ⟨ls, hrun⟩ := run_arrivals r bodyL bodyR ⟨p', [], []⟩ ⟨q, [], []⟩ b []
  refine ⟨.left :: (ls ++ [.right]), .cons ?_ (hrun.snoc ?_)⟩
  · show actLeft r bodyL bodyR _ = _; simp [actLeft, Side.act, hp]
  · show (actLeft r bodyR bodyL _).map swap = _; simp [actLeft, Side.act, hq, swap, hread]

lemma yields_of_step {Q : Except ε ρ → Prop} {P : α → Prop} (hread : ∀ s res t, r.poll s = some (res, t) → Q res)
    {l : Turn} (hstep : s.next r bodyL bodyR l = some t) (h : s.left.proc.Yields Q P) : t.left.proc.Yields Q P := by
  cases l with
  | left =>
    obtain ⟨x, hx, rfl⟩ := actLeft_eq_some.mp hstep
    unfold Side.act at hx
    cases hp : s.left.proc with
    | ret => simp [hp, Proc.enter] at hx
    | jump =>
      rw [hp] at h; exact h.elim
    | write =>
      rw [hp] at h; simp only [hp, Proc.enter, Option.some.injEq] at hx; rw [← hx]
      exact h
    | read =>
      rw [hp] at h; simp only [hp, Proc.enter, Option.map_eq_some_iff] at hx
      obtain ⟨⟨res, u⟩, hpoll, rfl⟩ := hx; exact h res (hread _ _ _ hpoll)
  | right =>
    obtain ⟨x, hx, rfl⟩ := Option.map_eq_some_iff.mp hstep
    obtain ⟨y, _, rfl⟩ := actLeft_eq_some.mp hx; exact h
  | toLeft =>
    obtain ⟨b, rest, _, rfl⟩ := arrive_eq_some.mp hstep
    exact h
  | toRight =>
    obtain ⟨x, hx, rfl⟩ := Option.map_eq_some_iff.mp hstep
    obtain ⟨b, rest, _, rfl⟩ := arrive_eq_some.mp hx
    exact h

/-- What holds of the results of the left process holds of them in every run. -/
lemma yields_of_run {Q : Except ε ρ → Prop} {P : α → Prop} (hread : ∀ s res t, r.poll s = some (res, t) → Q res)
    {ls : List Turn} (hrun : (session r bodyL bodyR).Run s ls t) (h : s.left.proc.Yields Q P) :
    t.left.proc.Yields Q P := by
  induction hrun with
  | nil => exact h
  | cons hstep _ ih => exact ih (yields_of_step hread hstep h)

/-- Two processes that have returned, with nothing in transit, have come to an end. -/
lemma stuck_of_returned {a : α} {b : β} {x y : Bytes} :
    (session r bodyL bodyR).Stuck ⟨⟨.ret a, x, []⟩, ⟨.ret b, y, []⟩⟩ := by
  intro l t h
  cases l with
  | left | right | toLeft | toRight => cases h

end Session
end
end TronRs.Core

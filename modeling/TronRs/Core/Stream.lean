import TronRs.Core.Bytes

/-!
# Reading from a byte stream

A stream is what has arrived and was not read yet, and whether the writer has closed it. A reader is
polled with the stream: it is pending as long as it waits for more bytes, and then returns, or fails,
and leaves the rest. What it decides on the bytes it has seen does not depend on those that follow
(`stable`), so it does not matter in which chunks a stream arrives.

* `Reader`: the monad of such reads; `readExact` waits for a number of bytes.
* `Reads r b a`: on a stream that starts with `b`, the reader takes exactly `b` and returns `a`;
  `Reads.pure`, `Reads.bind` and `reads_readExact` compute it along a `do` block.
* `drain_eq`: repeated reads of what was written one after another return it, in whatever chunks it arrives.
-/
namespace TronRs.Core

structure Stream where
  arrived : Bytes
  ended : Bool := false

/-- A read that may have to wait, and may fail. -/
structure Reader (ε α : Type) where
  poll : Stream → Option (Except ε α × Stream)
  stable : ∀ {b c : Bytes} {e : Bool} {r : Except ε α} {s : Stream}, poll ⟨b, false⟩ = some (r, s) →
    ∃ rest, s = ⟨rest, false⟩ ∧ poll ⟨b ++ c, e⟩ = some (r, ⟨rest ++ c, e⟩)

namespace Reader
variable {ε α β : Type} {m : Reader ε α} {f : α → Reader ε β} {a : α} {n : Nat}

/-- Returns a result without reading. -/
def lift (r : Except ε α) : Reader ε α where
  poll s := some (r, s)
  stable := by
    intro b c e r' s h
    obtain ⟨rfl, rfl⟩ := Prod.mk.inj (Option.some.inj h)
    exact ⟨b, rfl, rfl⟩

/-- One read after another; an error ends it. -/
def andThen (m : Reader ε α) (f : α → Reader ε β) : Reader ε β where
  poll s := (m.poll s).bind fun p =>
    match p.1 with
    | .ok a => (f a).poll p.2
    | .error e => some (.error e, p.2)
  stable := by
    intro b c e r s h
    obtain ⟨⟨r1, s1⟩, h1, h2⟩ := Option.bind_eq_some_iff.mp h
    obtain ⟨rest, rfl, h3⟩ := m.stable (c := c) (e := e) h1
    rw [h3]
    cases r1 with
    | ok a => exact (f a).stable h2
    | error =>
      obtain ⟨rfl, rfl⟩ := Prod.mk.inj (Option.some.inj h2)
      exact ⟨rest, rfl, rfl⟩

instance : Monad (Reader ε) where
  pure a := lift (.ok a)
  bind := andThen

/-- Waits for `n` bytes; `eof` when the stream ends before. -/
def readExact (n : Nat) (eof : ε) : Reader ε Bytes where
  poll s :=
    if n ≤ s.arrived.length then some (.ok (s.arrived.take n), { s with arrived := s.arrived.drop n })
    else if s.ended then some (.error eof, { s with arrived := [] })
    else none
  stable := by
    intro b c e r s h
    by_cases hn : n ≤ b.length
    · simp only [if_pos hn, Option.some.injEq, Prod.mk.injEq] at h
      obtain ⟨rfl, rfl⟩ := h
      refine ⟨b.drop n, rfl, ?_⟩
      simp only [List.length_append, if_pos (Nat.le_add_right_of_le hn), List.take_append_of_le_length hn,
        List.drop_append_of_le_length hn]
    · simp [if_neg hn] at h

lemma readExact_eq_ok {eof : ε} {s t : Stream} {b : Bytes} : (readExact n eof).poll s = some (.ok b, t) ↔
    n ≤ s.arrived.length ∧ b = s.arrived.take n ∧ t = { s with arrived := s.arrived.drop n } := by
  unfold readExact; dsimp only
  split
  · rename_i hn; simp [hn, eq_comm]
  · rename_i hn; split <;> simp [hn]

lemma poll_bind_of_ok {s t : Stream} (h : m.poll s = some (.ok a, t)) : (m >>= f).poll s = (f a).poll t := by
  show (m.poll s).bind _ = _; rw [h]; rfl

lemma poll_bind_eq_ok {s t : Stream} {r : β} :
    (m >>= f).poll s = some (.ok r, t) ↔ ∃ a u, m.poll s = some (.ok a, u) ∧ (f a).poll u = some (.ok r, t) := by
  show (m.poll s).bind _ = _ ↔ _; rw [Option.bind_eq_some_iff]
  constructor
  · intro h; obtain ⟨⟨r1, u⟩, h1, h2⟩ := h
    cases r1 with
    | ok a => exact ⟨a, u, h1, h2⟩
    | error => cases h2
  · intro h; obtain ⟨a, u, h1, h2⟩ := h; exact ⟨(.ok a, u), h1, h2⟩

/-! ## What a reader takes from the stream -/

/-- On a stream that starts with `b` the reader takes `b` and returns `a`. -/
def Reads (m : Reader ε α) (b : Bytes) (a : α) : Prop :=
  ∀ rest ended, m.poll ⟨b ++ rest, ended⟩ = some (.ok a, ⟨rest, ended⟩)

lemma Reads.lift : (lift (.ok a) : Reader ε α).Reads [] a := fun _ _ => rfl

lemma Reads.bind {b c : Bytes} {r : β} (hm : m.Reads b a) (hf : (f a).Reads c r) : (m >>= f).Reads (b ++ c) r := by
  intro rest ended; rw [List.append_assoc, poll_bind_of_ok (hm _ _)]; exact hf rest ended

lemma reads_readExact (b : Bytes) (eof : ε) : (readExact b.length eof).Reads b b := by
  intro rest ended; simp [readExact]

/-! ## Reading until the end -/

/-- Polls until the reader fails. What it waits for is the next chunk; after the last one the stream has ended. -/
def drain (m : Reader ε α) : Nat → Bytes → List Bytes → List (Except ε α)
  | 0, _, _ => []
  | n + 1, arrived, chunks =>
    match m.poll ⟨arrived, chunks.isEmpty⟩ with
    | some (.ok a, s) => .ok a :: drain m n s.arrived chunks
    | some (.error e, _) => [.error e]
    | none =>
      match chunks with
      | c :: chunks => drain m n (arrived ++ c) chunks
      | [] => []

/-- A poll that returns does so with the first of the values on the stream, and one at the end returns. -/
lemma poll_of_reads {b arrived later : Bytes} {ended : Bool} (hm : m.Reads b a) {rest : Bytes}
    (h : arrived ++ later = b ++ rest) (hlater : ended = true → later = []) :
    (∃ rest', m.poll ⟨arrived, ended⟩ = some (.ok a, ⟨rest', ended⟩) ∧ rest' ++ later = rest) ∨
      m.poll ⟨arrived, ended⟩ = none ∧ ended = false := by
  cases ended with
  | true =>
    rw [hlater rfl, List.append_nil] at h; rw [h, hlater rfl]
    exact .inl ⟨rest, hm rest true, List.append_nil _⟩
  | false =>
    cases hp : m.poll ⟨arrived, false⟩ with
    | none => exact .inr ⟨rfl, rfl⟩
    | some p =>
      obtain ⟨r, s⟩ := p
      obtain ⟨rest', rfl, hp'⟩ := m.stable (e := false) hp
      rw [h, hm] at hp'; cases hp'; exact .inl ⟨rest', rfl, rfl⟩

/-- What was written one after another is read back, in whatever chunks it arrives, and then the end is met. -/
lemma drain_eq {w : α → Bytes} {eof : ε} {t : Stream} (hwait : m.poll ⟨[], false⟩ = none)
    (hend : m.poll ⟨[], true⟩ = some (.error eof, t)) {l : List α} (hl : ∀ a ∈ l, m.Reads (w a) a) {arrived : Bytes}
    {chunks : List Bytes} (h : arrived ++ chunks.flatten = l.flatMap w) (hn : l.length + chunks.length < n) :
    m.drain n arrived chunks = l.map .ok ++ [.error eof] := by
  induction n generalizing l arrived chunks with
  | zero => omega
  | succ n ih =>
    have hnext : ∀ c cs, chunks = c :: cs → m.drain n (arrived ++ c) cs = l.map .ok ++ [.error eof] := by
      rintro c cs rfl; rw [List.length_cons] at hn
      exact ih hl (by rw [← h, List.append_assoc]; rfl) (by omega)
    unfold drain
    cases l with
    | nil =>
      obtain ⟨rfl, -⟩ := List.append_eq_nil_iff.mp h
      cases chunks with
      | nil => rw [List.isEmpty_nil, hend]; rfl
      | cons c cs => rw [List.isEmpty_cons, hwait]; exact hnext c cs rfl
    | cons a l =>
      have hlater : chunks.isEmpty = true → chunks.flatten = [] := fun he => by rw [List.isEmpty_iff.mp he]; rfl
      rw [List.flatMap_cons] at h
      rcases poll_of_reads (hl a List.mem_cons_self) h hlater with ⟨rest, hp, hrest⟩ | ⟨hp, hne⟩
      · rw [hp]; rw [List.length_cons] at hn
        exact congrArg (_ :: ·) (ih (fun b hb => hl b (List.mem_cons_of_mem _ hb)) hrest (by omega))
      rw [hp]
      cases chunks with
      | nil => cases hne
      | cons c cs => exact hnext c cs rfl

end Reader
end TronRs.Core

import Mathlib.Data.List.Basic
import Mathlib.Tactic.Common

/-!
# Reading from a buffer through a cursor

A decoder that walks a buffer with a cursor is a computation in `CursorM β ε`: it may fail
with an error, and in either case it leaves a cursor behind.

`Reads p bs a` is the shape of every decode-after-encode statement: wherever the elements
`bs` stand in a buffer, `p` started at their first element returns `a` and stops right after
their last one. It composes along `bind` (`Reads.bind`), so a codec's round trip is assembled
from those of its fields. `ReadsAt` is the same at a given position, `FailsOn` says that the
elements that are left do not suffice, and `FailsWith` which failures there are at all.
-/

/-- A buffer with the position of the next element to read or write. -/
structure Cursor (β : Type*) where
  /-- The buffer. -/
  data : List β
  /-- How many elements lie before that position. -/
  offset : ℕ := 0
  deriving DecidableEq, Repr

namespace Cursor

variable {β : Type*}

/-- How many elements are left. -/
def remaining (c : Cursor β) : ℕ := c.data.length - c.offset

/-- The elements that are left. -/
def rest (c : Cursor β) : List β := c.data.drop c.offset

@[simp] theorem rest_append (pre post : List β) :
    (⟨pre ++ post, pre.length⟩ : Cursor β).rest = post := by
  rw [rest, List.drop_left]

theorem rest_append_add (pre post : List β) (k : ℕ) :
    (⟨pre ++ post, pre.length + k⟩ : Cursor β).rest = post.drop k := by
  rw [rest, List.drop_length_add_append]

theorem remaining_append_add (pre post : List β) (k : ℕ) :
    (⟨pre ++ post, pre.length + k⟩ : Cursor β).remaining = post.length - k := by
  simp only [remaining, List.length_append, Nat.add_sub_add_left]

end Cursor

/-- Decoders over a buffer of `β` that may fail with an `ε`. -/
abbrev CursorM (β ε : Type) := ExceptT ε (StateM (Cursor β))

namespace CursorM

variable {β ε α γ : Type}

/-- Run a decoder from a cursor: the result, and the cursor it leaves. -/
def runOn (p : CursorM β ε α) (c : Cursor β) : Except ε α × Cursor β := p.run.run c

/-- The decoder with a given behaviour. -/
def ofRun (f : Cursor β → Except ε α × Cursor β) : CursorM β ε α := ExceptT.mk f

@[simp] theorem runOn_ofRun (f : Cursor β → Except ε α × Cursor β) (c : Cursor β) :
    (ofRun f).runOn c = f c := rfl

theorem runOn_pure (a : α) (c : Cursor β) : (pure a : CursorM β ε α).runOn c = (.ok a, c) := rfl

theorem runOn_bind (p : CursorM β ε α) (f : α → CursorM β ε γ) (c : Cursor β) :
    (p >>= f).runOn c = match p.runOn c with
      | (.ok a, c') => (f a).runOn c'
      | (.error e, c') => (.error e, c') := by
  simp only [runOn, ExceptT.run_bind, StateT.run_bind]
  rcases h : p.run.run c with ⟨_ | a, c'⟩ <;> rfl

theorem runOn_map (f : α → γ) (p : CursorM β ε α) (c : Cursor β) :
    (f <$> p).runOn c = ((p.runOn c).1.map f, (p.runOn c).2) := by
  rw [map_eq_pure_bind, runOn_bind]
  rcases p.runOn c with ⟨_ | a, c'⟩ <;> rfl

theorem runOn_tryCatch (p : CursorM β ε α) (handle : ε → CursorM β ε α) (c : Cursor β) :
    (tryCatch p handle).runOn c = match p.runOn c with
      | (.ok a, c') => (.ok a, c')
      | (.error e, c') => (handle e).runOn c' := by
  change ((p.run >>= fun r => match r with
    | .ok a => Pure.pure (.ok a)
    | .error e => (handle e).run) : StateM (Cursor β) (Except ε α)).run c = _
  rw [StateT.run_bind, runOn]
  rcases h : p.run.run c with ⟨_ | a, c'⟩ <;> rfl

/-- The position of the cursor. -/
def offset : CursorM β ε ℕ := ofRun fun c => (.ok c.offset, c)

/-- How many elements are left. -/
def remaining : CursorM β ε ℕ := ofRun fun c => (.ok c.remaining, c)

/-- Run a decoder and go on after a failure, from wherever it has left the cursor. -/
def attempt (p : CursorM β ε α) : CursorM β ε (Option α) :=
  ofRun fun c => match p.runOn c with
    | (.ok a, c') => (.ok (some a), c')
    | (.error _, c') => (.ok none, c')

/-- `p` decodes `bs` to `a`, wherever `bs` stands. -/
def Reads (p : CursorM β ε α) (bs : List β) (a : α) : Prop :=
  ∀ pre post : List β,
    p.runOn ⟨pre ++ (bs ++ post), pre.length⟩ =
      (.ok a, ⟨pre ++ (bs ++ post), pre.length + bs.length⟩)

theorem Reads.pure (a : α) : Reads (Pure.pure a : CursorM β ε α) [] a :=
  fun _ _ => rfl

/-- **Sequencing**: a decoder followed by another decodes the concatenation. -/
theorem Reads.bind {p : CursorM β ε α} {f : α → CursorM β ε γ} {bs cs : List β} {a : α} {b : γ}
    (hp : Reads p bs a) (hf : Reads (f a) cs b) : Reads (p >>= f) (bs ++ cs) b := by
  intro pre post
  have hfirst := hp pre (cs ++ post)
  have hsecond := hf (pre ++ bs) post
  rw [runOn_bind, List.append_assoc, hfirst]
  simp only [List.append_assoc, List.length_append] at hsecond
  simp only [hsecond, List.length_append, Nat.add_assoc]

/-- A decoder that reads nothing in front of another one. -/
theorem Reads.nil_bind {p : CursorM β ε α} {f : α → CursorM β ε γ} {cs : List β} {a : α} {b : γ}
    (hp : Reads p [] a) (hf : Reads (f a) cs b) : Reads (p >>= f) cs b :=
  hp.bind hf

/-- A decoder that reads nothing behind another one. -/
theorem Reads.bind_nil {p : CursorM β ε α} {f : α → CursorM β ε γ} {bs : List β} {a : α} {b : γ}
    (hp : Reads p bs a) (hf : Reads (f a) [] b) : Reads (p >>= f) bs b := by
  have h := hp.bind hf
  rwa [List.append_nil] at h

/-- What follows a decoder goes on behind what was read. -/
theorem Reads.run_bind {p : CursorM β ε α} {bs : List β} {a : α} (h : Reads p bs a)
    (f : α → CursorM β ε γ) (pre post : List β) :
    (p >>= f).runOn ⟨pre ++ (bs ++ post), pre.length⟩ =
      (f a).runOn ⟨(pre ++ bs) ++ post, (pre ++ bs).length⟩ := by
  rw [runOn_bind, h pre post, List.append_assoc, List.length_append]

/-- Decoding a buffer that starts with what is read. -/
theorem Reads.run_append {p : CursorM β ε α} {bs : List β} {a : α} (h : Reads p bs a)
    (post : List β) : p.runOn ⟨bs ++ post, 0⟩ = (.ok a, ⟨bs ++ post, bs.length⟩) := by
  have hrun := h [] post
  simpa using hrun

/-- Decoding the whole buffer from its start. -/
theorem Reads.run {p : CursorM β ε α} {bs : List β} {a : α} (h : Reads p bs a) :
    p.runOn ⟨bs, 0⟩ = (.ok a, ⟨bs, bs.length⟩) := by
  have hrun := h [] []
  simpa using hrun

/-! ### Decoding at a position -/

/-- `p` decodes `bs` to `a` when `bs` stands at position `o`. This is for decoders that compare
the position of the cursor with a bound. -/
def ReadsAt (o : ℕ) (p : CursorM β ε α) (bs : List β) (a : α) : Prop :=
  ∀ pre post : List β, pre.length = o →
    p.runOn ⟨pre ++ (bs ++ post), o⟩ = (.ok a, ⟨pre ++ (bs ++ post), o + bs.length⟩)

theorem Reads.readsAt {p : CursorM β ε α} {bs : List β} {a : α} (h : Reads p bs a) (o : ℕ) :
    ReadsAt o p bs a := by
  rintro pre post rfl
  exact h pre post

theorem Reads.of_readsAt {p : CursorM β ε α} {bs : List β} {a : α}
    (h : ∀ o, ReadsAt o p bs a) : Reads p bs a :=
  fun pre post => h pre.length pre post rfl

theorem readsAt_offset (o : ℕ) : ReadsAt o (offset : CursorM β ε ℕ) [] o := by
  intro pre post _
  rfl

theorem ReadsAt.bind {o : ℕ} {p : CursorM β ε α} {f : α → CursorM β ε γ} {bs cs : List β} {a : α}
    {b : γ} (hp : ReadsAt o p bs a) (hf : ReadsAt (o + bs.length) (f a) cs b) :
    ReadsAt o (p >>= f) (bs ++ cs) b := by
  intro pre post ho
  have hfirst := hp pre (cs ++ post) ho
  have hsecond := hf (pre ++ bs) post (by rw [List.length_append, ho])
  rw [runOn_bind, List.append_assoc, hfirst]
  simp only [List.append_assoc] at hsecond
  simp only [hsecond, List.length_append, Nat.add_assoc]

theorem ReadsAt.nil_bind {o : ℕ} {p : CursorM β ε α} {f : α → CursorM β ε γ} {cs : List β} {a : α}
    {b : γ} (hp : ReadsAt o p [] a) (hf : ReadsAt o (f a) cs b) : ReadsAt o (p >>= f) cs b :=
  hp.bind hf

theorem ReadsAt.bind_nil {o : ℕ} {p : CursorM β ε α} {f : α → CursorM β ε γ} {bs : List β} {a : α}
    {b : γ} (hp : ReadsAt o p bs a) (hf : ReadsAt (o + bs.length) (f a) [] b) :
    ReadsAt o (p >>= f) bs b := by
  have h := hp.bind hf
  rwa [List.append_nil] at h

theorem ReadsAt.attempt {o : ℕ} {p : CursorM β ε α} {bs : List β} {a : α} (h : ReadsAt o p bs a) :
    ReadsAt o (attempt p) bs (some a) := by
  intro pre post ho
  rw [CursorM.attempt, runOn_ofRun, h pre post ho]

theorem Reads.attempt {p : CursorM β ε α} {bs : List β} {a : α} (h : Reads p bs a) :
    Reads (attempt p) bs (some a) :=
  Reads.of_readsAt fun o => (h.readsAt o).attempt

/-! ### Running out of elements -/

/-- `p` fails when exactly the elements `bs` are left. -/
def FailsOn (p : CursorM β ε α) (bs : List β) : Prop :=
  ∀ pre : List β, ∃ e c, p.runOn ⟨pre ++ bs, pre.length⟩ = (.error e, c)

theorem FailsOn.bind {p : CursorM β ε α} {bs : List β} (h : FailsOn p bs)
    (f : α → CursorM β ε γ) : FailsOn (p >>= f) bs := by
  intro pre
  obtain ⟨e, c, hrun⟩ := h pre
  refine ⟨e, c, ?_⟩
  rw [runOn_bind, hrun]

theorem Reads.bind_failsOn {p : CursorM β ε α} {f : α → CursorM β ε γ} {bs cs : List β} {a : α}
    (hp : Reads p bs a) (hf : FailsOn (f a) cs) : FailsOn (p >>= f) (bs ++ cs) := by
  intro pre
  obtain ⟨e, c, hrun⟩ := hf (pre ++ bs)
  refine ⟨e, c, ?_⟩
  rw [hp.run_bind, hrun]

/-! ### Which failures occur -/

/-- Two decoders in a row succeed when the first one does, and the second one from there. -/
theorem runOn_bind_eq_ok {p : CursorM β ε α} {f : α → CursorM β ε γ} {c c' : Cursor β}
    {b : γ} : (p >>= f).runOn c = (.ok b, c') ↔
      ∃ a c₁, p.runOn c = (.ok a, c₁) ∧ (f a).runOn c₁ = (.ok b, c') := by
  rw [runOn_bind]
  rcases p.runOn c with ⟨e | a, c₁⟩
  · simp
  · simp

/-- Two decoders in a row fail with `e` when the first one does, and when the second one does
from where the first one has left off. -/
theorem runOn_bind_eq_error {p : CursorM β ε α} {f : α → CursorM β ε γ} {c : Cursor β} {e : ε} :
    ((p >>= f).runOn c).1 = .error e ↔ (p.runOn c).1 = .error e ∨
      ∃ a c₁, p.runOn c = (.ok a, c₁) ∧ ((f a).runOn c₁).1 = .error e := by
  rw [runOn_bind]
  rcases p.runOn c with ⟨e' | a, c₁⟩
  · simp
  · simp

/-- Every failure of `p` satisfies `E`. -/
def FailsWith (E : ε → Prop) (p : CursorM β ε α) : Prop :=
  ∀ c e, (p.runOn c).1 = .error e → E e

section FailsWith

variable {E : ε → Prop} {p q : CursorM β ε α} {f : α → CursorM β ε γ}

theorem FailsWith.pure (a : α) : FailsWith E (Pure.pure a : CursorM β ε α) := by
  intro c e h
  cases h

theorem FailsWith.throw {e : ε} (he : E e) :
    FailsWith E (MonadExcept.throw e : CursorM β ε α) := by
  intro c e' h
  cases h
  exact he

theorem FailsWith.bind (hp : FailsWith E p) (hf : ∀ a, FailsWith E (f a)) :
    FailsWith E (p >>= f) := by
  intro c e h
  rcases runOn_bind_eq_error.mp h with hfirst | ⟨a, c₁, -, hsecond⟩
  · exact hp c e hfirst
  · exact hf a c₁ e hsecond

theorem FailsWith.ite {P : Prop} [Decidable P] (hp : FailsWith E p) (hq : FailsWith E q) :
    FailsWith E (if P then p else q) := by
  split
  · exact hp
  · exact hq

end FailsWith

end CursorM

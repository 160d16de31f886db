import TinyKafka.ForMathlib.Cursor

/-!
# Decoders that depend only on what they consume

A decoder that looks at nothing behind the cursor it leaves gives the same result on every
longer buffer (`CursorM.Local`). It follows that a successful run fails on every buffer cut
off before that cursor, so one property gives both directions (`Local.run_take`).

`CursorM.Agrees k n p q` is the form in which this composes. It compares a run of `p` on a
buffer with a run of `q` on a longer one, so that two versions of one decoder can be compared,
and it tolerates a difference as long as fewer than `k` elements are left in the short buffer:
a decoder that goes wrong near the end of the buffer is harmless when whatever follows it
needs at least `k` more elements. For this the property also keeps count of the `n` elements
that a success takes at least.
-/

namespace CursorM

variable {β ε α γ : Type}

/-- When `p` succeeds on a buffer it has taken at least `n` elements of it, and `q` does the
same on every longer buffer, unless fewer than `k` elements were left. -/
def Agrees (k n : ℕ) (p q : CursorM β ε α) : Prop :=
  ∀ (short more : List β) (o : ℕ) (a : α) (c : Cursor β), o ≤ short.length →
    p.runOn ⟨short, o⟩ = (.ok a, c) →
    c.data = short ∧ o + n ≤ c.offset ∧ c.offset ≤ short.length ∧
      (q.runOn ⟨short ++ more, o⟩ = (.ok a, ⟨short ++ more, c.offset⟩) ∨
        short.length < c.offset + k)

/-- The decoder depends only on what it consumes. -/
def Local (p : CursorM β ε α) : Prop := Agrees 0 0 p p

variable {k k' n n' : ℕ} {p q : CursorM β ε α} {f g : α → CursorM β ε γ}

theorem Agrees.mono (h : Agrees k n p q) (hk : k ≤ k') (hn : n' ≤ n) : Agrees k' n' p q := by
  intro short more o a c ho hrun
  obtain ⟨hdata, hlow, hhigh, hlong⟩ := h short more o a c ho hrun
  refine ⟨hdata, by omega, hhigh, ?_⟩
  rcases hlong with hlong | hfew
  · exact .inl hlong
  · exact .inr (by omega)

theorem Agrees.pure (a : α) :
    Agrees 0 0 (Pure.pure a : CursorM β ε α) (Pure.pure a : CursorM β ε α) := by
  intro short more o a' c ho hrun
  obtain ⟨ha, rfl⟩ : Except.ok a = Except.ok a' ∧ (⟨short, o⟩ : Cursor β) = c :=
    Prod.mk.inj hrun
  cases ha
  exact ⟨rfl, (Nat.le_refl _), ho, .inl rfl⟩

theorem Agrees.throw (e : ε) : Agrees k n (MonadExcept.throw e : CursorM β ε α) q := by
  intro short more o a c ho hrun
  have hfail : (Except.error e : Except ε α) = .ok a := congrArg Prod.fst hrun
  cases hfail

/-- **Sequencing.** What the second decoder takes at least comes off the first one's
tolerance. -/
theorem Agrees.bind (hp : Agrees k n p q) (hf : ∀ a, Agrees k' n' (f a) (g a)) :
    Agrees (max (k - n') k') (n + n') (p >>= f) (q >>= g) := by
  intro short more o b c ho hrun
  obtain ⟨a, c₁, hrun₁, hrun₂⟩ := runOn_bind_eq_ok.mp hrun
  obtain ⟨hdata₁, hlow₁, hhigh₁, hlong₁⟩ := hp short more o a c₁ ho hrun₁
  obtain ⟨data, o₁⟩ := c₁
  dsimp only at hdata₁ hlow₁ hhigh₁ hlong₁
  subst hdata₁
  obtain ⟨hdata, hlow, hhigh, hlong⟩ := hf a data more o₁ b c hhigh₁ hrun₂
  refine ⟨hdata, by omega, hhigh, ?_⟩
  rcases hlong₁ with hlong₁ | hfew
  · rcases hlong with hlong | hfew
    · exact .inl (by rw [runOn_bind, hlong₁]; exact hlong)
    · exact .inr (by omega)
  · -- the second decoder has taken `n'` of the fewer than `k` elements that were left
    exact .inr (by omega)

/-- Without tolerance only the numbers of elements add up. -/
theorem Agrees.bind_exact (hp : Agrees 0 n p q) (hf : ∀ a, Agrees 0 n' (f a) (g a)) :
    Agrees 0 (n + n') (p >>= f) (q >>= g) :=
  (hp.bind hf).mono (by simp) (Nat.le_refl _)

theorem Agrees.ite {P : Prop} [Decidable P] {p' q' : CursorM β ε α} (h : P → Agrees k n p q)
    (h' : ¬ P → Agrees k n p' q') :
    Agrees k n (if P then p else p') (if P then q else q') := by
  by_cases hP : P
  · simpa [hP] using h hP
  · simpa [hP] using h' hP

/-! ### Decoders on their own -/

theorem Agrees.local (h : Agrees 0 n p p) : Local p := h.mono (Nat.le_refl _) (Nat.zero_le n)

theorem Local.pure (a : α) : Local (Pure.pure a : CursorM β ε α) := Agrees.pure a

theorem Local.bind (hp : Local p) (hf : ∀ a, Local (f a)) : Local (p >>= f) := by
  have h := Agrees.bind hp hf
  exact h.mono (by simp) (Nat.le_refl _)

theorem Local.offset : Local (offset : CursorM β ε ℕ) := by
  intro short more o a c ho hrun
  obtain ⟨ha, rfl⟩ : Except.ok o = Except.ok a ∧ (⟨short, o⟩ : Cursor β) = c := Prod.mk.inj hrun
  cases ha
  exact ⟨rfl, Nat.le_refl _, ho, .inl rfl⟩

/-- A local decoder in front of two versions of another one. -/
theorem Local.bind_agrees {p : CursorM β ε α} (hp : Local p) (hf : ∀ a, Agrees k 0 (f a) (g a)) :
    Agrees k 0 (p >>= f) (p >>= g) := by
  have h := Agrees.bind hp hf
  exact h.mono (by simp) (Nat.le_refl _)

theorem Local.ite {P : Prop} [Decidable P] (hp : Local p) (hq : Local q) :
    Local (if P then p else q) :=
  Agrees.ite (fun _ => hp) fun _ => hq

/-- **A truncated buffer is never accepted.** When `q` succeeds on a buffer, every version `p`
of it that agrees with it fails on the buffer cut off before the cursor that `q` leaves. -/
theorem Agrees.run_take (h : Agrees 0 0 p q) {data : List β} {a : α} {c : Cursor β}
    (hrun : q.runOn ⟨data, 0⟩ = (.ok a, c)) {m : ℕ} (hm : m < c.offset) :
    ∃ e, (p.runOn ⟨data.take m, 0⟩).1 = .error e := by
  rcases hcut : p.runOn ⟨data.take m, 0⟩ with ⟨e | a', c'⟩
  · exact ⟨e, rfl⟩
  · exfalso
    obtain ⟨-, -, hhigh, hlong⟩ := h (data.take m) (data.drop m) 0 a' c' (Nat.zero_le _) hcut
    rw [List.take_append_drop, hrun] at hlong
    rcases hlong with hlong | hfew
    · -- `q` stops where `p` did, inside the part that is left
      have hoffset : c.offset = c'.offset := congrArg (fun x => x.2.offset) hlong
      rw [List.length_take] at hhigh
      omega
    · omega

end CursorM

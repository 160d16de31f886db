import TinyKafka.ForMathlib.Cursor

/-!
# Decoders do not depend on where the data stand

Two runs of a decoder on the same elements, behind two different prefixes, do the same: they
return related results and move the cursor by the same distance. This holds as long as the
decoder uses positions only relative to each other.

`CursorM.Relocates o o' R p q` says this of a decoder `p` behind a prefix of length `o` and a
decoder `q` behind one of length `o'`. The two are versions of one decoder with the positions
in them moved along, and so are their results: `R` relates them, and for a position it is
`SamePosition o o'`. The cursor never moves back, which bounds loops over what is left.
-/

/-- The positions `a` and `a'` are the same one behind prefixes of lengths `o` and `o'`. -/
def SamePosition (o o' a a' : ℕ) : Prop := ∃ k, a = o + k ∧ a' = o' + k

theorem SamePosition.add {o o' a a' : ℕ} (h : SamePosition o o' a a') (n : ℕ) :
    SamePosition o o' (a + n) (a' + n) := by
  obtain ⟨k, rfl, rfl⟩ := h
  exact ⟨k + n, Nat.add_assoc .., Nat.add_assoc ..⟩

/-- Positions compare the same way. -/
theorem SamePosition.le_iff {o o' a a' b b' : ℕ} (ha : SamePosition o o' a a')
    (hb : SamePosition o o' b b') : a ≤ b ↔ a' ≤ b' := by
  obtain ⟨k, rfl, rfl⟩ := ha
  obtain ⟨n, rfl, rfl⟩ := hb
  omega

theorem SamePosition.sub_eq {o o' a a' b b' : ℕ} (ha : SamePosition o o' a a')
    (hb : SamePosition o o' b b') : a - b = a' - b' := by
  obtain ⟨k, rfl, rfl⟩ := ha
  obtain ⟨n, rfl, rfl⟩ := hb
  omega

namespace CursorM

variable {β ε α α' γ γ' : Type}

/-- Both succeed, with related results, or both fail in the same way. -/
def OutcomeRel (R : α → α' → Prop) : Except ε α → Except ε α' → Prop
  | .ok a, .ok a' => R a a'
  | .error e, .error e' => e = e'
  | _, _ => False

/-- Behind prefixes of lengths `o` and `o'`, the decoders do the same. -/
def Relocates (o o' : ℕ) (R : α → α' → Prop) (p : CursorM β ε α) (q : CursorM β ε α') : Prop :=
  ∀ (pre pre' rest : List β) (k : ℕ), pre.length = o → pre'.length = o' →
    ∃ res res' k', k ≤ k' ∧ OutcomeRel R res res' ∧
      p.runOn ⟨pre ++ rest, o + k⟩ = (res, ⟨pre ++ rest, o + k'⟩) ∧
      q.runOn ⟨pre' ++ rest, o' + k⟩ = (res', ⟨pre' ++ rest, o' + k'⟩)

namespace Relocates

variable {o o' : ℕ} {R : α → α' → Prop} {S : γ → γ' → Prop} {p : CursorM β ε α}
  {q : CursorM β ε α'}

theorem pure {a : α} {a' : α'} (h : R a a') :
    Relocates o o' R (Pure.pure a : CursorM β ε α) (Pure.pure a' : CursorM β ε α') :=
  fun _ _ _ k _ _ => ⟨.ok a, .ok a', k, Nat.le_refl k, h, rfl, rfl⟩

theorem throw (e : ε) :
    Relocates o o' R (MonadExcept.throw e : CursorM β ε α)
      (MonadExcept.throw e : CursorM β ε α') :=
  fun _ _ _ k _ _ => ⟨.error e, .error e, k, Nat.le_refl k, rfl, rfl, rfl⟩

/-- **Sequencing.** -/
theorem bind {f : α → CursorM β ε γ} {g : α' → CursorM β ε γ'} (hp : Relocates o o' R p q)
    (hf : ∀ a a', R a a' → Relocates o o' S (f a) (g a')) :
    Relocates o o' S (p >>= f) (q >>= g) := by
  intro pre pre' rest k ho ho'
  obtain ⟨res, res', k₁, hk₁, hres, hrunp, hrunq⟩ := hp pre pre' rest k ho ho'
  rw [runOn_bind, runOn_bind, hrunp, hrunq]
  rcases res with e | a <;> rcases res' with e' | a'
  · obtain rfl : e = e' := hres
    exact ⟨.error e, .error e, k₁, hk₁, rfl, rfl, rfl⟩
  · exact hres.elim
  · exact hres.elim
  · obtain ⟨res, res', k₂, hk₂, hres, hrunf, hrung⟩ := hf a a' hres pre pre' rest k₁ ho ho'
    exact ⟨res, res', k₂, Nat.le_trans hk₁ hk₂, hres, hrunf, hrung⟩

theorem ite {P P' : Prop} [Decidable P] [Decidable P'] (hP : P ↔ P') {p' : CursorM β ε α}
    {q' : CursorM β ε α'} (h : P → Relocates o o' R p q) (h' : ¬ P → Relocates o o' R p' q') :
    Relocates o o' R (if P then p else p') (if P' then q else q') := by
  by_cases hp : P
  · rw [if_pos hp, if_pos (hP.mp hp)]
    exact h hp
  · rw [if_neg hp, if_neg (mt hP.mpr hp)]
    exact h' hp

/-- What goes on after a failure goes on from the same position. -/
theorem attempt (h : Relocates o o' R p q) :
    Relocates o o' (Option.Rel R) (attempt p) (attempt q) := by
  intro pre pre' rest k ho ho'
  obtain ⟨res, res', k', hk, hres, hrunp, hrunq⟩ := h pre pre' rest k ho ho'
  rw [CursorM.attempt, CursorM.attempt, runOn_ofRun, runOn_ofRun, hrunp, hrunq]
  rcases res with e | a <;> rcases res' with e' | a'
  · exact ⟨.ok none, .ok none, k', hk, .none, rfl, rfl⟩
  · exact hres.elim
  · exact hres.elim
  · exact ⟨.ok (some a), .ok (some a'), k', hk, .some hres, rfl, rfl⟩

theorem offset :
    Relocates o o' (SamePosition o o') (offset : CursorM β ε ℕ) (offset : CursorM β ε ℕ) :=
  fun _ _ _ k _ _ => ⟨.ok (o + k), .ok (o' + k), k, Nat.le_refl k, ⟨k, rfl, rfl⟩, rfl, rfl⟩

end Relocates

end CursorM

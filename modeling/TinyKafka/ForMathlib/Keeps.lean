import Mathlib.Data.List.Forall2
import TinyKafka.ForMathlib.Machine

/-!
# Invariants of stateful computations that may fail

A computation of type `OptionT (StateM σ) α` changes a state and returns a value or fails. It
*keeps* a predicate on states when the predicate goes over from the state before to the state
after, whether or not it fails. The rules follow the ways computations are put together.

`Ensures` is total correctness: the computation returns, with a value and in a state as stated.
`Yields` is about the values only, and asks for nothing when the computation fails.
A computation *follows* a machine when it returns and, under a relation between the two
states, does what a run of the machine does; a loop then follows the runs of its turns, one
after the other (`Follows.mapM`).

`Relates` is about two computations side by side: from related states they return the same and
leave related states.
-/

namespace OptionT

variable {σ α β : Type}

/-- The computation given by its runs. -/
def ofRun (f : σ → Option α × σ) : OptionT (StateM σ) α := OptionT.mk fun s => f s

/-- The run from a state: the result, if any, and the state after. -/
def runFrom (m : OptionT (StateM σ) α) (s : σ) : Option α × σ := m.run.run s

theorem runFrom_bind (m : OptionT (StateM σ) α) (f : α → OptionT (StateM σ) β) (s : σ) :
    (m >>= f).runFrom s =
      match m.runFrom s with
      | (none, s') => (none, s')
      | (some a, s') => (f a).runFrom s' := by
  unfold runFrom
  rw [OptionT.run_bind, Option.elimM, StateT.run_bind]
  rcases m.run.run s with ⟨_ | a, s'⟩ <;> rfl

theorem runFrom_bind_of_eq {m : OptionT (StateM σ) α} {f : α → OptionT (StateM σ) β} {s s' : σ}
    {a : α} (h : m.runFrom s = (some a, s')) : (m >>= f).runFrom s = (f a).runFrom s' := by
  rw [runFrom_bind, h]

/-- The value of a computation, in another form. -/
theorem fst_runFrom_bind_pure (m : OptionT (StateM σ) α) (f : α → β) (s : σ) :
    ((m >>= fun a => Pure.pure (f a)).runFrom s).1 = (m.runFrom s).1.map f := by
  rw [runFrom_bind]
  rcases m.runFrom s with ⟨_ | a, s'⟩ <;> rfl

/-- A loop of one turn. -/
theorem fst_runFrom_mapM_singleton (a : α) (f : α → OptionT (StateM σ) β) (s : σ) :
    (([a].mapM f).runFrom s).1 = ((f a).runFrom s).1.map fun b => [b] := by
  rw [List.mapM_cons, runFrom_bind]
  rcases (f a).runFrom s with ⟨_ | b, s'⟩ <;> rfl

/-- The predicate carries over from the state before a run to the state after it. -/
def Keeps (I : σ → Prop) (m : OptionT (StateM σ) α) : Prop := ∀ s, I s → I (m.runFrom s).2

variable {I : σ → Prop}

theorem Keeps.pure (a : α) : Keeps I (pure a : OptionT (StateM σ) α) := fun _ h => h

theorem Keeps.ofRun {f : σ → Option α × σ} (h : ∀ s, I s → I (f s).2) : Keeps I (ofRun f) := h

theorem Keeps.bind {m : OptionT (StateM σ) α} {f : α → OptionT (StateM σ) β}
    (hm : Keeps I m) (hf : ∀ a, Keeps I (f a)) : Keeps I (m >>= f) := by
  intro s hs
  have hmid := hm s hs
  rw [runFrom_bind]
  generalize m.runFrom s = out at hmid ⊢
  obtain ⟨_ | a, s'⟩ := out
  · exact hmid
  · exact hf a s' hmid

/-- A loop keeps what every one of its turns keeps. -/
theorem Keeps.mapM {l : List α} {f : α → OptionT (StateM σ) β}
    (h : ∀ a ∈ l, Keeps I (f a)) : Keeps I (l.mapM f) := by
  induction l with
  | nil => exact Keeps.pure []
  | cons a l ih =>
    rw [List.mapM_cons]
    refine (h a List.mem_cons_self).bind fun b => ?_
    exact (ih fun a ha => h a (List.mem_cons_of_mem _ ha)).bind fun bs => Keeps.pure _

/-! ### Results -/

/-- From every state with `P` the computation returns, and the value and the state after it
have `Q`. -/
def Ensures (P : σ → Prop) (m : OptionT (StateM σ) α) (Q : α → σ → Prop) : Prop :=
  ∀ s, P s → ∃ a s', m.runFrom s = (some a, s') ∧ Q a s'

section Ensures

variable {P : σ → Prop} {Q : α → σ → Prop} {R : β → σ → Prop}

theorem Ensures.pure {a : α} (h : ∀ s, P s → Q a s) :
    Ensures P (pure a : OptionT (StateM σ) α) Q :=
  fun s hs => ⟨a, s, rfl, h s hs⟩

theorem Ensures.bind {m : OptionT (StateM σ) α} {f : α → OptionT (StateM σ) β}
    (hm : Ensures P m Q) (hf : ∀ a, Ensures (Q a) (f a) R) : Ensures P (m >>= f) R := by
  intro s hs
  obtain ⟨a, s', hrun, hmid⟩ := hm s hs
  rw [runFrom_bind, hrun]
  exact hf a s' hmid

/-- An invariant, and a result in the states that have it. -/
theorem Keeps.ensures {m : OptionT (StateM σ) α} {V : α → Prop} (hm : Keeps I m)
    (h : ∀ s, I s → ∃ a, (m.runFrom s).1 = some a ∧ V a) :
    Ensures I m fun a s => I s ∧ V a := by
  intro s hs
  obtain ⟨a, hrun, ha⟩ := h s hs
  exact ⟨a, (m.runFrom s).2, Prod.ext hrun rfl, hm s hs, ha⟩

theorem runFrom_mapM_cons {a : α} {l : List α} {f : α → OptionT (StateM σ) β} {b : β} {bs : List β}
    {s s₁ s₂ : σ} (hrun : (f a).runFrom s = (some b, s₁))
    (hrest : (l.mapM f).runFrom s₁ = (some bs, s₂)) :
    ((a :: l).mapM f).runFrom s = (some (b :: bs), s₂) := by
  rw [List.mapM_cons, runFrom_bind, hrun]
  dsimp only
  rw [runFrom_bind, hrest]
  rfl

/-- The values a loop returns are as its turns return them. -/
theorem Ensures.mapM {l : List α} {f : α → OptionT (StateM σ) β} {V : α → β → Prop}
    (h : ∀ a ∈ l, Ensures I (f a) fun b s => I s ∧ V a b) :
    Ensures I (l.mapM f) fun bs s => I s ∧ List.Forall₂ V l bs := by
  induction l with
  | nil => exact Ensures.pure fun s hs => ⟨hs, .nil⟩
  | cons a l ih =>
    intro s hs
    obtain ⟨b, s₁, hrun, hs₁, hb⟩ := h a List.mem_cons_self s hs
    obtain ⟨bs, s₂, hrest, hs₂, hbs⟩ := ih (fun a ha => h a (List.mem_cons_of_mem _ ha)) s₁ hs₁
    exact ⟨b :: bs, s₂, runFrom_mapM_cons hrun hrest, hs₂, .cons hb hbs⟩

end Ensures

/-! ### Partial correctness -/

/-- Whatever the computation returns, from any state, has `V`. -/
def Yields (m : OptionT (StateM σ) α) (V : α → Prop) : Prop := ∀ s, ∀ a ∈ (m.runFrom s).1, V a

section Yields

variable {V : α → Prop} {W : β → Prop}

theorem Yields.pure {a : α} (h : V a) : Yields (pure a : OptionT (StateM σ) α) V :=
  fun _ _ hb => Option.some.inj hb ▸ h

theorem Yields.ofRun {f : σ → Option α × σ} (h : ∀ s, ∀ a ∈ (f s).1, V a) : Yields (ofRun f) V := h

theorem Yields.bind {m : OptionT (StateM σ) α} {f : α → OptionT (StateM σ) β} (hm : Yields m V)
    (hf : ∀ a, V a → Yields (f a) W) : Yields (m >>= f) W := by
  intro s b hb
  have hmid := hm s
  rw [runFrom_bind] at hb
  generalize m.runFrom s = out at hmid hb
  obtain ⟨_ | a, s'⟩ := out
  · cases hb
  · exact hf a (hmid a rfl) s' b hb

/-- The values a loop returns, turn by turn. -/
theorem Yields.mapM_forall₂ {l : List α} {f : α → OptionT (StateM σ) β} {R : α → β → Prop}
    (h : ∀ a ∈ l, Yields (f a) (R a)) : Yields (l.mapM f) (List.Forall₂ R l) := by
  induction l with
  | nil => exact Yields.pure .nil
  | cons a l ih =>
    rw [List.mapM_cons]
    refine (h a List.mem_cons_self).bind fun b hb => ?_
    refine (ih fun a ha => h a (List.mem_cons_of_mem _ ha)).bind fun bs hbs => Yields.pure ?_
    exact .cons hb hbs

/-- The same for a loop whose turns are numbered. -/
theorem Yields.mapM_zipIdx {l : List α} {f : α × ℕ → OptionT (StateM σ) β} {R : α → β → Prop}
    (h : ∀ x ∈ l.zipIdx, Yields (f x) (R x.1)) : Yields (l.zipIdx.mapM f) (List.Forall₂ R l) := by
  intro s bs hbs
  have hturns := Yields.mapM_forall₂ h s bs hbs
  rwa [← List.forall₂_map_left_iff, List.zipIdx_map_fst] at hturns

/-- Whatever the turns of a loop return. -/
theorem Yields.mapM {l : List α} {f : α → OptionT (StateM σ) β} (h : ∀ a ∈ l, Yields (f a) W) :
    Yields (l.mapM f) fun bs => ∀ b ∈ bs, W b := by
  intro s bs hbs
  have hturns := Yields.mapM_forall₂ h s bs hbs
  clear hbs h
  induction hturns with
  | nil => simp
  | cons hb _ ih => exact List.forall_mem_cons.mpr ⟨hb, ih⟩

end Yields

/-! ### Following a machine -/

section Follows

variable {τ ι ο : Type} (M : Machine τ ι ο) (R : τ → σ → Prop)

/-- The computation returns, the states before and after it are related to those of the
machine before and after the inputs, and what is observed of the value is what the machine
gives out. -/
def Follows (m : OptionT (StateM σ) α) (inputs : List ι) (observe : α → List ο) : Prop :=
  ∀ t, Ensures (R t) m fun a s =>
    R (M.exec t inputs) s ∧ observe a = (M.trace t inputs).map Prod.snd

variable {M R}

theorem Follows.map {m : OptionT (StateM σ) α} {inputs : List ι} {observe : α → List ο}
    {observe' : β → List ο} {f : α → β} (hm : Follows M R m inputs observe)
    (h : ∀ a, observe' (f a) = observe a) :
    Follows M R (m >>= fun a => Pure.pure (f a)) inputs observe' := by
  intro t
  refine (hm t).bind fun a => Ensures.pure fun s hs => ?_
  rw [h]
  exact hs

/-- **Loop rule.** A loop whose turns follow runs of a machine follows these runs, one after
the other. -/
theorem Follows.mapM {l : List α} {f : α → OptionT (StateM σ) β} {inputs : α → List ι}
    {observe : α → β → List ο} (h : ∀ a ∈ l, Follows M R (f a) (inputs a) (observe a)) :
    Follows M R (l.mapM f) (l.flatMap inputs)
      fun bs => (l.zip bs).flatMap fun x => observe x.1 x.2 := by
  induction l with
  | nil => exact fun t => Ensures.pure fun s hs => ⟨hs, rfl⟩
  | cons a l ih =>
    intro t s hs
    obtain ⟨b, s₁, hrun, hs₁, hb⟩ := h a List.mem_cons_self t s hs
    obtain ⟨bs, s₂, hrest, hs₂, hbs⟩ := ih (fun a ha => h a (List.mem_cons_of_mem _ ha)) _ s₁ hs₁
    refine ⟨b :: bs, s₂, runFrom_mapM_cons hrun hrest, ?_, ?_⟩
    · rw [List.flatMap_cons, Machine.exec_append]
      exact hs₂
    · dsimp only at hbs ⊢
      rw [List.zip_cons_cons, List.flatMap_cons, List.flatMap_cons, Machine.trace_append,
        List.map_append, hb, hbs]

/-- The loop rule when the turns are numbered and the numbers are not observed. -/
theorem Follows.mapM_zipIdx {l : List α} {f : α × ℕ → OptionT (StateM σ) β}
    {inputs : α × ℕ → List ι} {observe : α → β → List ο}
    (h : ∀ x ∈ l.zipIdx, Follows M R (f x) (inputs x) (observe x.1)) :
    Follows M R (l.zipIdx.mapM f) (l.zipIdx.flatMap inputs)
      fun bs => (l.zip bs).flatMap fun x => observe x.1 x.2 := by
  have hzip (bs : List β) : l.zip bs = (l.zipIdx.zip bs).map fun x => (x.1.1, x.2) := by
    conv_lhs => rw [← List.zipIdx_map_fst 0 l, List.zip_map_left]
    rfl
  simp only [hzip, List.flatMap_map]
  exact Follows.mapM h

end Follows

/-! ### Two runs side by side -/

section Relates

variable {τ : Type}

/-- From related states both computations return the same value, or both fail, and the states
after them are related. -/
def Relates (R : σ → τ → Prop) (m : OptionT (StateM σ) α) (m' : OptionT (StateM τ) α) : Prop :=
  ∀ s t, R s t → (m.runFrom s).1 = (m'.runFrom t).1 ∧ R (m.runFrom s).2 (m'.runFrom t).2

variable {R : σ → τ → Prop}

theorem Relates.pure (a : α) : Relates R (pure a) (pure a) := fun _ _ h => ⟨rfl, h⟩

theorem Relates.ofRun {f : σ → Option α × σ} {g : τ → Option α × τ}
    (h : ∀ s t, R s t → (f s).1 = (g t).1 ∧ R (f s).2 (g t).2) :
    Relates R (ofRun f) (ofRun g) := h

theorem Relates.bind {m : OptionT (StateM σ) α} {m' : OptionT (StateM τ) α}
    {f : α → OptionT (StateM σ) β} {f' : α → OptionT (StateM τ) β} (hm : Relates R m m')
    (hf : ∀ a, Relates R (f a) (f' a)) : Relates R (m >>= f) (m' >>= f') := by
  intro s t hst
  obtain ⟨hval, hmid⟩ := hm s t hst
  rw [runFrom_bind, runFrom_bind]
  generalize m.runFrom s = out at hval hmid ⊢
  generalize m'.runFrom t = out' at hval hmid ⊢
  obtain ⟨r, s'⟩ := out
  obtain ⟨r', t'⟩ := out'
  obtain rfl : r = r' := hval
  rcases r with _ | a
  · exact ⟨rfl, hmid⟩
  · exact hf a s' t' hmid

end Relates

end OptionT

import Mathlib.Data.List.Infix

/-!
# Deterministic machines with outputs, and their runs

A `Machine σ ι ο` reads an input in a state and answers with a new state and an output;
whatever is nondeterministic about the system it describes (an operating-system outcome, a
clock reading, the choice of the next party to act) is part of the input. Runs are plain
input lists, so a statement about *every* run is a statement about every list.

Three rules carry the inductions:

* `Machine.invariant_exec`: an invariant of every step that meets a side condition holds at
  the end of every run **within** that condition (`Machine.Within`), and
  `Machine.forall_exec_iff_within` says when the condition is exact;
* `Machine.rel_exec`: a reflexive and transitive relation that holds across every such step
  holds across the run;
* `Machine.invariant_trace`: the history form, where the invariant also reads the trace of
  inputs and outputs so far; in `Machine.invariant_inputs` it reads the inputs.

Two more are for machines of a particular kind. `Machine.isolated_run` compares two runs of a
machine whose state is a family of parts, each input reading and writing one of them.
`Machine.queue_run` is for a machine that takes elements in and gives elements out.

`Machine.simulated_run` relates the runs of two machines, where a step of the first is a run of
the second. `Machine.inserted_run` compares a run with one that has more inputs.
`Machine.getLast?_observed` ties a value in the state to the last step that set it.
`Machine.replayed_run` says when the calls observed in a run are a run of another machine.
`Machine.exists_exec_of_rank` is for what can be reached, by a rank that inputs decrease.
-/

universe u v w

/-- A deterministic machine: one step from a state and an input to a state and an output. -/
structure Machine (σ : Type u) (ι : Type v) (ο : Type w) where
  step : σ → ι → σ × ο

namespace Machine

variable {σ : Type u} {ι : Type v} {ο : Type w} (M : Machine σ ι ο)

/-- The state after one step. -/
def next (s : σ) (i : ι) : σ := (M.step s i).1

/-- The output of one step. -/
def out (s : σ) (i : ι) : ο := (M.step s i).2

/-- The state after a run. -/
def exec (s : σ) : List ι → σ
  | [] => s
  | i :: is => exec (M.next s i) is

/-- The inputs of a run, each paired with its output. -/
def trace (s : σ) : List ι → List (ι × ο)
  | [] => []
  | i :: is => (i, M.out s i) :: trace (M.next s i) is

/-- Every step of the run meets `ok`, a condition on the state before the step and on the
input. -/
def Within (ok : σ → ι → Prop) (s : σ) : List ι → Prop
  | [] => True
  | i :: is => ok s i ∧ Within ok (M.next s i) is

/-- The history form of `Within`: the condition also reads the trace so far. -/
def WithinTrace (ok : List (ι × ο) → σ → ι → Prop) (h : List (ι × ο)) (s : σ) :
    List ι → Prop
  | [] => True
  | i :: is => ok h s i ∧ WithinTrace ok (h ++ [(i, M.out s i)]) (M.next s i) is

/-- Being within a decidable condition is decidable: run the machine and look. -/
instance decidableWithin (ok : σ → ι → Prop) [∀ s i, Decidable (ok s i)] :
    (s : σ) → (is : List ι) → Decidable (M.Within ok s is)
  | _, [] => .isTrue trivial
  | s, i :: is =>
    have := decidableWithin ok (M.next s i) is
    inferInstanceAs (Decidable (_ ∧ _))

instance decidableWithinTrace (ok : List (ι × ο) → σ → ι → Prop)
    [∀ h s i, Decidable (ok h s i)] :
    (h : List (ι × ο)) → (s : σ) → (is : List ι) → Decidable (M.WithinTrace ok h s is)
  | _, _, [] => .isTrue trivial
  | h, s, i :: is =>
    have := decidableWithinTrace ok (h ++ [(i, M.out s i)]) (M.next s i) is
    inferInstanceAs (Decidable (_ ∧ _))

@[simp] theorem exec_nil (s : σ) : M.exec s [] = s := rfl

@[simp] theorem exec_cons (s : σ) (i : ι) (is : List ι) :
    M.exec s (i :: is) = M.exec (M.next s i) is := rfl

@[simp] theorem trace_nil (s : σ) : M.trace s [] = [] := rfl

@[simp] theorem trace_cons (s : σ) (i : ι) (is : List ι) :
    M.trace s (i :: is) = (i, M.out s i) :: M.trace (M.next s i) is := rfl

@[simp] theorem within_nil (ok : σ → ι → Prop) (s : σ) : M.Within ok s [] := trivial

@[simp] theorem within_cons {ok : σ → ι → Prop} {s : σ} {i : ι} {is : List ι} :
    M.Within ok s (i :: is) ↔ ok s i ∧ M.Within ok (M.next s i) is := Iff.rfl

@[simp] theorem exec_append (s : σ) (is js : List ι) :
    M.exec s (is ++ js) = M.exec (M.exec s is) js := by
  induction is generalizing s with
  | nil => rfl
  | cons i is ih => exact ih (M.next s i)

@[simp] theorem trace_append (s : σ) (is js : List ι) :
    M.trace s (is ++ js) = M.trace s is ++ M.trace (M.exec s is) js := by
  induction is generalizing s with
  | nil => rfl
  | cons i is ih => simp [ih (M.next s i)]

@[simp] theorem map_fst_trace (s : σ) (is : List ι) : (M.trace s is).map Prod.fst = is := by
  induction is generalizing s with
  | nil => rfl
  | cons i is ih => rw [trace_cons, List.map_cons, ih]

@[simp] theorem within_append {ok : σ → ι → Prop} {s : σ} {is js : List ι} :
    M.Within ok s (is ++ js) ↔ M.Within ok s is ∧ M.Within ok (M.exec s is) js := by
  induction is generalizing s with
  | nil => simp
  | cons i is ih => simp [ih, and_assoc]

/-- A run is within a condition when every step of it is. -/
theorem within_iff {ok : σ → ι → Prop} {s : σ} {is : List ι} :
    M.Within ok s is ↔ ∀ pre i post, is = pre ++ i :: post → ok (M.exec s pre) i := by
  constructor
  · rintro h pre i post rfl
    exact (within_append M |>.mp h).2.1
  · intro h
    induction is generalizing s with
    | nil => trivial
    | cons i is ih =>
      refine ⟨h [] i is rfl, ih fun pre j post he => ?_⟩
      exact h (i :: pre) j post (by rw [he]; rfl)

theorem withinTrace_append {ok : List (ι × ο) → σ → ι → Prop} {h : List (ι × ο)} {s : σ}
    {is js : List ι} : M.WithinTrace ok h s (is ++ js) ↔
      M.WithinTrace ok h s is ∧ M.WithinTrace ok (h ++ M.trace s is) (M.exec s is) js := by
  induction is generalizing h s with
  | nil => simp [WithinTrace]
  | cons i is ih => simp [WithinTrace, ih, and_assoc]

variable {M}

/-- A stronger step condition admits fewer runs. -/
theorem Within.mono {ok ok' : σ → ι → Prop} (h : ∀ s i, ok s i → ok' s i) {s : σ}
    {is : List ι} (hw : M.Within ok s is) : M.Within ok' s is := by
  induction is generalizing s with
  | nil => trivial
  | cons i is ih => exact ⟨h s i hw.1, ih hw.2⟩

theorem Within.and {ok ok' : σ → ι → Prop} {s : σ} {is : List ι} (hw : M.Within ok s is)
    (hw' : M.Within ok' s is) : M.Within (fun s i => ok s i ∧ ok' s i) s is := by
  induction is generalizing s with
  | nil => trivial
  | cons i is ih => exact ⟨⟨hw.1, hw'.1⟩, ih hw.2 hw'.2⟩

/-- A condition on histories and states that implies one on states alone. -/
theorem WithinTrace.within {ok : List (ι × ο) → σ → ι → Prop} {ok' : σ → ι → Prop}
    (himp : ∀ h s i, ok h s i → ok' s i) {h : List (ι × ο)} {s : σ} {is : List ι}
    (hw : M.WithinTrace ok h s is) : M.Within ok' s is := by
  induction is generalizing h s with
  | nil => trivial
  | cons i is ih => exact ⟨himp h s i hw.1, ih hw.2⟩

/-- **Invariant rule.** What every step within `ok` preserves holds at the end of every run
within `ok`. -/
theorem invariant_exec {ok : σ → ι → Prop} {I : σ → Prop}
    (hstep : ∀ s i, I s → ok s i → I (M.next s i)) {s : σ} {is : List ι} (hs : I s)
    (hw : M.Within ok s is) : I (M.exec s is) := by
  induction is generalizing s with
  | nil => exact hs
  | cons i is ih => exact ih (hstep s i hs hw.1) hw.2

/-- The invariant rule without a side condition. -/
theorem invariant_exec_all {I : σ → Prop} (hstep : ∀ s i, I s → I (M.next s i)) {s : σ}
    (hs : I s) (is : List ι) : I (M.exec s is) := by
  induction is generalizing s with
  | nil => exact hs
  | cons i is ih => exact ih (hstep s i hs)

/-- **Exact-condition rule.** When the steps within `ok` keep `I` and the others break it, `I`
holds all along a run exactly when the run is within `ok`. -/
theorem forall_exec_iff_within {ok : σ → ι → Prop} {I : σ → Prop}
    (hkeep : ∀ s i, I s → ok s i → I (M.next s i))
    (hbreak : ∀ s i, I s → ¬ ok s i → ¬ I (M.next s i)) {s : σ} {is : List ι} (hs : I s) :
    (∀ pre, pre <+: is → I (M.exec s pre)) ↔ M.Within ok s is := by
  constructor
  · intro h
    induction is generalizing s with
    | nil => trivial
    | cons i is ih =>
      have hnext : I (M.next s i) := h [i] ⟨is, rfl⟩
      refine ⟨by_contra fun hnot => hbreak s i hs hnot hnext, ih hnext fun pre hpre => ?_⟩
      exact h (i :: pre) (List.cons_prefix_cons.mpr ⟨rfl, hpre⟩)
  · rintro h pre ⟨post, rfl⟩
    exact invariant_exec hkeep hs ((within_append M).mp h).1

/-- **Relation rule.** A reflexive, transitive relation that holds across every step taken
from an invariant state within `ok` holds across every such run. -/
theorem rel_exec {ok : σ → ι → Prop} {I : σ → Prop} {R : σ → σ → Prop}
    (hrefl : ∀ s, R s s) (htrans : ∀ a b c, R a b → R b c → R a c)
    (hinv : ∀ s i, I s → ok s i → I (M.next s i))
    (hstep : ∀ s i, I s → ok s i → R s (M.next s i)) {s : σ} {is : List ι} (hs : I s)
    (hw : M.Within ok s is) : R s (M.exec s is) := by
  induction is generalizing s with
  | nil => exact hrefl s
  | cons i is ih =>
    exact htrans _ _ _ (hstep s i hs hw.1) (ih (hinv s i hs hw.1) hw.2)

/-- **History rule.** An invariant that reads the trace so far, kept by every step within
`ok`, holds of the full trace at the end of every run within `ok`. -/
theorem invariant_trace {ok : σ → ι → Prop} {I : List (ι × ο) → σ → Prop}
    (hstep : ∀ h s i, I h s → ok s i → I (h ++ [(i, M.out s i)]) (M.next s i))
    {h : List (ι × ο)} {s : σ} {is : List ι} (hs : I h s) (hw : M.Within ok s is) :
    I (h ++ M.trace s is) (M.exec s is) := by
  induction is generalizing h s with
  | nil => simpa using hs
  | cons i is ih => simpa using ih (hstep h s i hs hw.1) hw.2

/-- The history rule without a side condition. -/
theorem invariant_trace_all {I : List (ι × ο) → σ → Prop}
    (hstep : ∀ h s i, I h s → I (h ++ [(i, M.out s i)]) (M.next s i))
    {h : List (ι × ο)} {s : σ} (hs : I h s) (is : List ι) :
    I (h ++ M.trace s is) (M.exec s is) := by
  induction is generalizing h s with
  | nil => simpa using hs
  | cons i is ih => simpa using ih (hstep h s i hs)

/-- The history rule for an invariant that reads the inputs so far, in a run from a fixed
state. -/
theorem invariant_inputs {ok : σ → ι → Prop} {I : List ι → σ → Prop} {s : σ}
    (hstep : ∀ pre i, I pre (M.exec s pre) → ok (M.exec s pre) i →
      I (pre ++ [i]) (M.next (M.exec s pre) i))
    (hs : I [] s) {is : List ι} (hw : M.Within ok s is) : I is (M.exec s is) := by
  induction is using List.reverseRecOn with
  | nil => exact hs
  | append_singleton pre i ih =>
    rw [within_append, within_cons] at hw
    rw [exec_append]
    exact hstep pre i (ih hw.1) hw.2.1

/-- **Progress rule.** From every state in `I` that is not at the goal, an input in `A` leads to
a state in `I` of a smaller rank. Then a run of such inputs, no longer than the rank, leads to the
goal. -/
theorem exists_exec_of_rank {I G : σ → Prop} {A : ι → Prop} (rank : σ → ℕ)
    (hstep : ∀ s, I s → ¬ G s → ∃ i, A i ∧ I (M.next s i) ∧ rank (M.next s i) < rank s)
    {s : σ} (hs : I s) :
    ∃ is, (∀ i ∈ is, A i) ∧ is.length ≤ rank s ∧ I (M.exec s is) ∧ G (M.exec s is) := by
  induction hrank : rank s using Nat.strong_induction_on generalizing s with
  | h k ih =>
    by_cases hgoal : G s
    · exact ⟨[], by simp, Nat.zero_le k, hs, hgoal⟩
    · obtain ⟨i, hi, hnext, hlt⟩ := hstep s hs hgoal
      obtain ⟨is, hall, hlen, hexec⟩ := ih _ (hrank ▸ hlt) hnext rfl
      refine ⟨i :: is, List.forall_mem_cons.mpr ⟨hi, hall⟩, ?_, hexec⟩
      rw [List.length_cons]
      omega

/-! ### Isolation of the parts of a state -/

section Isolation

variable {κ : Type*} [DecidableEq κ] {β : Type*}

/-- **Isolation rule.** Every input addresses a part `key i` of the state. When an admissible
input leaves the other parts alone, and its output and what it leaves of its own part depend
on that part only, then what a run shows of part `k` is what the run of the inputs addressed
to `k` shows: the same outputs, and the same part at the end. -/
theorem isolated_run {key : ι → κ} {V : κ → σ → β} {A : ι → Prop}
    (hframe : ∀ s i k, A i → key i ≠ k → V k (M.next s i) = V k s)
    (hlocal : ∀ s s' i, A i → V (key i) s = V (key i) s' →
      M.out s i = M.out s' i ∧ V (key i) (M.next s i) = V (key i) (M.next s' i))
    (k : κ) (is : List ι) (hA : ∀ i ∈ is, A i) (s s' : σ) (hs : V k s = V k s') :
    (M.trace s is).filter (fun e => key e.1 = k) = M.trace s' (is.filter fun i => key i = k) ∧
      V k (M.exec s is) = V k (M.exec s' (is.filter fun i => key i = k)) := by
  induction is generalizing s s' with
  | nil => exact ⟨rfl, hs⟩
  | cons i is ih =>
    have hAi : A i := hA i List.mem_cons_self
    have hrest : ∀ j ∈ is, A j := fun j hj => hA j (List.mem_cons_of_mem i hj)
    by_cases hk : key i = k
    · subst hk
      obtain ⟨hout, hview⟩ := hlocal s s' i hAi hs
      obtain ⟨htrace, hexec⟩ := ih hrest (M.next s i) (M.next s' i) hview
      simp [hout, htrace, hexec]
    · -- a step of another part: only the left run takes it
      have hview : V k (M.next s i) = V k s' := (hframe s i k hAi hk).trans hs
      simpa [hk] using ih hrest (M.next s i) s' hview

end Isolation

/-! ### Queues -/

/-- **Queue rule.** A step takes elements in (`f`) and gives elements out (`g`), and the state
holds elements (`c`). When at every step the elements held, followed by those taken in, are
those given out, followed by the elements held then, the same is true of every run: nothing
is lost, doubled or reordered. -/
theorem queue_run {α : Type*} {A : σ → ι → Prop} {I : σ → Prop} {c : σ → List α}
    {f g : ο → List α} (hinv : ∀ s i, I s → A s i → I (M.next s i))
    (hstep : ∀ s i, I s → A s i → c s ++ f (M.out s i) = g (M.out s i) ++ c (M.next s i)) {s : σ}
    {is : List ι} (hs : I s) (hw : M.Within A s is) :
    c s ++ (M.trace s is).flatMap (fun e => f e.2) =
      (M.trace s is).flatMap (fun e => g e.2) ++ c (M.exec s is) := by
  induction is generalizing s with
  | nil => simp
  | cons i is ih =>
    have hrest := ih (hinv s i hs hw.1) hw.2
    simp only [trace_cons, List.flatMap_cons, exec_cons]
    rw [← List.append_assoc, hstep s i hs hw.1, List.append_assoc, hrest, List.append_assoc]

/-! ### Simulation -/

/-- **Simulation rule.** Every step of `M` is matched by a run of `N`: related states before
give related states after, and what is observed of the step is what the run gives out. Then
every run of `M` is matched by the runs for its steps, one after the other. -/
theorem simulated_run {τ κ ω : Type*} {N : Machine τ κ ω} {R : τ → σ → Prop}
    {inputs : ι → List κ} {observe : ι → ο → List ω}
    (hstep : ∀ t s i, R t s → R (N.exec t (inputs i)) (M.next s i) ∧
      observe i (M.out s i) = (N.trace t (inputs i)).map Prod.snd)
    {t : τ} {s : σ} (hs : R t s) (is : List ι) :
    R (N.exec t (is.flatMap inputs)) (M.exec s is) ∧
      (M.trace s is).flatMap (fun e => observe e.1 e.2) =
        (N.trace t (is.flatMap inputs)).map Prod.snd := by
  induction is generalizing t s with
  | nil => exact ⟨hs, rfl⟩
  | cons i is ih =>
    obtain ⟨hnext, hobserve⟩ := hstep t s i hs
    obtain ⟨hexec, htrace⟩ := ih hnext
    simp only [trace_cons, List.flatMap_cons, exec_cons, exec_append, trace_append,
      List.map_append]
    exact ⟨hexec, by rw [hobserve, htrace]⟩

/-! ### Inserted inputs -/

section Insertion

variable {κ : Type*} (M) (ins : κ → ι)

/-- A run in which `Sum.inr k` stands for an inserted input `ins k`: the outputs of the others. -/
def keptOutputs (s : σ) : List (ι ⊕ κ) → List ο
  | [] => []
  | .inl i :: is => M.out s i :: keptOutputs (M.next s i) is
  | .inr k :: is => keptOutputs (M.next s (ins k)) is

theorem keptOutputs_map_inl_append (s : σ) (is : List ι) (l : List (ι ⊕ κ)) :
    M.keptOutputs ins s (is.map Sum.inl ++ l) =
      (M.trace s is).map Prod.snd ++ M.keptOutputs ins (M.exec s is) l := by
  induction is generalizing s with
  | nil => rfl
  | cons i is ih => exact congrArg (M.out s i :: ·) (ih (M.next s i))

variable {M ins}

/-- **Insertion rule.** Let `R` relate the states of a run to those of the same run with inputs
inserted. If an inserted input keeps it, and related states give the same output to every other
input that meets `ok` and are related after it, then no output of the run changes. -/
theorem inserted_run {R : σ → σ → Prop} {ok : σ → ι → Prop}
    (hins : ∀ s t k, R s t → R s (M.next t (ins k)))
    (hkeep : ∀ s t i, R s t → ok s i → M.out t i = M.out s i ∧ R (M.next s i) (M.next t i))
    {s t : σ} (hst : R s t) (l : List (ι ⊕ κ))
    (hw : M.Within ok s (l.filterMap Sum.getLeft?)) :
    M.keptOutputs ins t l = (M.trace s (l.filterMap Sum.getLeft?)).map Prod.snd := by
  induction l generalizing s t with
  | nil => rfl
  | cons x l ih =>
    cases x with
    | inl i =>
      obtain ⟨hok, hrest⟩ := hw
      obtain ⟨hout, hnext⟩ := hkeep s t i hst hok
      exact congrArg₂ List.cons hout (ih hnext hrest)
    | inr k => exact ih (hins s t k hst) hw

end Insertion

/-! ### Observations -/

section Observation

variable {α : Type*} (M) (f : σ → ι → Option α)

/-- What `f` sees in the steps of a run. -/
def observed (s : σ) : List ι → List α
  | [] => []
  | i :: is => (f s i).toList ++ observed (M.next s i) is

theorem observed_append (s : σ) (is js : List ι) :
    M.observed f s (is ++ js) = M.observed f s is ++ M.observed f (M.exec s is) js := by
  induction is generalizing s with
  | nil => rfl
  | cons i is ih => rw [List.cons_append, observed, observed, ih, exec_cons, List.append_assoc]

theorem observed_concat (s : σ) (is : List ι) (i : ι) :
    M.observed f s (is ++ [i]) = M.observed f s is ++ (f (M.exec s is) i).toList := by
  rw [observed_append, observed, observed, List.append_nil]

variable {M f}

/-- What holds of everything that one step can show holds of everything seen in a run. -/
theorem forall_mem_observed {P : α → Prop} (h : ∀ s i, ∀ a ∈ f s i, P a) (s : σ) (is : List ι) :
    ∀ a ∈ M.observed f s is, P a := by
  induction is generalizing s with
  | nil => simp [observed]
  | cons i is ih =>
    intro a ha
    rcases List.mem_append.mp ha with ha | ha
    · exact h s i a (Option.mem_toList.mp ha)
    · exact ih (M.next s i) a ha

/-- **Last-observation rule.** A state may hold a value (`V`). When a step leaves a value there
only if it observes that value, or observes nothing and has found it there, then the value held
at the end of a run is the last one that was observed. -/
theorem getLast?_observed {V : σ → Option α} {I : σ → Prop}
    (hinv : ∀ s i, I s → I (M.next s i))
    (hstep : ∀ s i a, I s → V (M.next s i) = some a →
      f s i = some a ∨ f s i = none ∧ V s = some a)
    {s : σ} (hs : I s) (hV : V s = none) {is : List ι} {a : α}
    (h : V (M.exec s is) = some a) : (M.observed f s is).getLast? = some a := by
  have hgeneral : ∀ s, I s → V (M.exec s is) = some a →
      (M.observed f s is).getLast? = some a ∨ M.observed f s is = [] ∧ V s = some a := by
    clear h hs hV s
    induction is with
    | nil => exact fun s _ h => .inr ⟨rfl, h⟩
    | cons i is ih =>
      intro s hs h
      rw [observed]
      rcases ih (M.next s i) (hinv s i hs) h with hlast | ⟨hnil, hheld⟩
      · have hne : M.observed f (M.next s i) is ≠ [] := by
          intro hnil
          rw [hnil] at hlast
          cases hlast
        exact .inl (by rw [List.getLast?_append_of_ne_nil _ hne, hlast])
      · -- nothing was observed later, so this step decides
        rw [hnil, List.append_nil]
        rcases hstep s i a hs hheld with hseen | ⟨hnone, hkept⟩
        · exact .inl (by rw [hseen]; rfl)
        · exact .inr ⟨by rw [hnone]; rfl, hkept⟩
  rcases hgeneral s hs h with hlast | ⟨-, hsome⟩
  · exact hlast
  · rw [hV] at hsome
    cases hsome

/-- The machine gives the observed call, if there is one, the observed result, and is related
to `s'` after it. -/
def Replays {τ κ ω : Type*} (N : Machine τ κ ω) (R : τ → σ → Prop) (t : τ) (s' : σ) :
    Option (κ × ω) → Prop
  | none => R t s'
  | some c => N.out t c.1 = c.2 ∧ R (N.next t c.1) s'

theorem Replays.mono {τ κ ω : Type*} {N : Machine τ κ ω} {R R' : τ → σ → Prop} {t : τ} {s' : σ}
    {c : Option (κ × ω)} (h : N.Replays R t s' c) (himp : ∀ t, R t s' → R' t s') :
    N.Replays R' t s' c := by
  rcases c with _ | c
  · exact himp t h
  · exact ⟨h.1, himp _ h.2⟩

/-- **Replay rule.** In some of its steps `M` makes a call, and what is observed is the call
with its result. When `N` replays every step from a related state, the calls of a run have on
`N` the results observed. -/
theorem replayed_run {τ κ ω : Type*} {N : Machine τ κ ω} {R : τ → σ → Prop}
    {ok : σ → ι → Prop} {call : σ → ι → Option (κ × ω)}
    (hstep : ∀ t s i, R t s → ok s i → N.Replays R t (M.next s i) (call s i))
    {t : τ} {s : σ} {is : List ι} (hs : R t s) (hw : M.Within ok s is) :
    N.trace t ((M.observed call s is).map Prod.fst) = M.observed call s is ∧
      R (N.exec t ((M.observed call s is).map Prod.fst)) (M.exec s is) := by
  induction is generalizing t s with
  | nil => exact ⟨rfl, hs⟩
  | cons i is ih =>
    have hfirst := hstep t s i hs hw.1
    rw [observed]
    generalize call s i = c at hfirst ⊢
    rcases c with _ | ⟨k, o⟩
    · exact ih hfirst hw.2
    · obtain ⟨hout, hnext⟩ := hfirst
      obtain ⟨htrace, hexec⟩ := ih hnext hw.2
      exact ⟨congrArg₂ List.cons (congrArg (Prod.mk k) hout) htrace, hexec⟩

end Observation

end Machine

import TinyKafka.ForMathlib.Locality

/-!
# Decoders whose results are kept

A decoder in `CursorM` stops at its first failure by itself. A program whose operations return
a value or an error has to do that by hand: it keeps the result of a call, asks whether it is
an error, and only then uses the value in it. `ExpectedM` is the monad of such programs, with
the three steps as `call`, `check` and `deref`; using the value of a result that is an error
ends the run with `Halt.badAccess`.

A call that is checked at once is the decoder itself (`call_check_bind`), so a program that
checks every result is `lift` of a decoder and has no bad access. For one that does not,
`Implements e p` says that a bad access is all that can set `e` apart from the decoder `p`.
-/

/-- How such a program ends early: it returns an error, or it uses a value that is not there. -/
inductive Halt (ε : Type)
  | returned (e : ε)
  | badAccess
  deriving DecidableEq, Repr

/-- Programs over a buffer of `β` that keep the results of their calls. -/
abbrev ExpectedM (β ε : Type) := CursorM β (Halt ε)

namespace ExpectedM

open CursorM

variable {β ε α γ : Type}

/-- A decoder whose failure is returned. -/
def lift (p : CursorM β ε α) : ExpectedM β ε α :=
  .ofRun fun c => match p.runOn c with
    | (.ok a, c') => (.ok a, c')
    | (.error e, c') => (.error (.returned e), c')

/-- Call a decoder and keep its result, an error or not. -/
def call (p : CursorM β ε α) : ExpectedM β ε (Except ε α) :=
  .ofRun fun c => (.ok (p.runOn c).1, (p.runOn c).2)

/-- Return if the result is an error. -/
def check : Except ε α → ExpectedM β ε Unit
  | .ok _ => pure ()
  | .error e => throw (.returned e)

/-- Use the value of a result. -/
def deref : Except ε α → ExpectedM β ε α
  | .ok a => pure a
  | .error _ => throw .badAccess

@[simp] theorem check_ok (a : α) : (check (.ok a : Except ε α) : ExpectedM β ε Unit) = pure () :=
  rfl

@[simp] theorem deref_ok (a : α) : (deref (.ok a : Except ε α) : ExpectedM β ε α) = pure a :=
  rfl

/-! ### Results that are checked -/

theorem lift_pure (a : α) : lift (pure a : CursorM β ε α) = pure a := rfl

theorem lift_throw (e : ε) : lift (throw e : CursorM β ε α) = throw (.returned e) := rfl

theorem lift_bind (p : CursorM β ε α) (f : α → CursorM β ε γ) :
    lift (p >>= f) = lift p >>= fun a => lift (f a) := by
  funext c
  change (lift (p >>= f)).runOn c = (lift p >>= fun a => lift (f a)).runOn c
  simp only [runOn_bind, lift, runOn_ofRun]
  rcases p.runOn c with ⟨e | a, c'⟩ <;> rfl

theorem lift_ite (P : Prop) [Decidable P] (p q : CursorM β ε α) :
    lift (if P then p else q) = if P then lift p else lift q :=
  apply_ite lift P p q

/-- **A call that is checked at once is the decoder**, and its value is there from then on. -/
theorem call_check_bind (p : CursorM β ε α) (k : Except ε α → ExpectedM β ε γ) :
    (call p >>= fun r => check r >>= fun _ => k r) = lift p >>= fun a => k (.ok a) := by
  funext c
  change (call p >>= fun r => check r >>= fun _ => k r).runOn c =
    (lift p >>= fun a => k (.ok a)).runOn c
  simp only [runOn_bind, call, lift, runOn_ofRun]
  rcases p.runOn c with ⟨e | a, c'⟩ <;> rfl

theorem call_check (p : CursorM β ε Unit) : (call p >>= fun r => check r) = lift p := by
  have h := call_check_bind p fun _ => pure ()
  simpa only [bind_pure_unit] using h

/-! ### Bad accesses -/

/-- The program uses a value that is not there. -/
def BadAccess (e : ExpectedM β ε α) (c : Cursor β) : Prop := (e.runOn c).1 = .error .badAccess

instance (e : ExpectedM β ε α) (c : Cursor β) [DecidableEq ε] [DecidableEq α] :
    Decidable (BadAccess e c) :=
  inferInstanceAs (Decidable ((e.runOn c).1 = .error .badAccess))

theorem not_badAccess_lift (p : CursorM β ε α) (c : Cursor β) : ¬ BadAccess (lift p) c := by
  rw [BadAccess, lift, runOn_ofRun]
  rcases p.runOn c with ⟨e | a, c'⟩ <;> simp

theorem runOn_lift_eq_ok {p : CursorM β ε α} {c c' : Cursor β} {a : α} :
    (lift p).runOn c = (.ok a, c') ↔ p.runOn c = (.ok a, c') := by
  rw [lift, runOn_ofRun]
  rcases p.runOn c with ⟨e | b, c₁⟩ <;> simp

theorem badAccess_bind {e : ExpectedM β ε α} {f : α → ExpectedM β ε γ} {c : Cursor β} :
    BadAccess (e >>= f) c ↔ BadAccess e c ∨
      ∃ a c₁, e.runOn c = (.ok a, c₁) ∧ BadAccess (f a) c₁ :=
  runOn_bind_eq_error

theorem badAccess_lift_bind {p : CursorM β ε α} {f : α → ExpectedM β ε γ} {c : Cursor β} :
    BadAccess (lift p >>= f) c ↔ ∃ a c₁, p.runOn c = (.ok a, c₁) ∧ BadAccess (f a) c₁ := by
  simp only [badAccess_bind, not_badAccess_lift, false_or, runOn_lift_eq_ok]

theorem badAccess_call_bind {p : CursorM β ε α} {f : Except ε α → ExpectedM β ε γ}
    {c : Cursor β} :
    BadAccess (call p >>= f) c ↔ BadAccess (f (p.runOn c).1) (p.runOn c).2 := by
  rw [BadAccess, runOn_bind, call, runOn_ofRun, BadAccess]

theorem badAccess_deref {r : Except ε α} {f : α → γ} {c : Cursor β} :
    BadAccess (deref r >>= fun a => pure (f a)) c ↔ ∃ e, r = .error e := by
  cases r with
  | error e => exact iff_of_true rfl ⟨e, rfl⟩
  | ok a =>
    refine iff_of_false (not_badAccess_lift (pure (f a)) c) ?_
    rintro ⟨e, he⟩
    cases he

/-- What follows has no bad access of its own. -/
theorem badAccess_bind_lift {e : ExpectedM β ε α} {f : α → CursorM β ε γ} {c : Cursor β} :
    BadAccess (e >>= fun a => lift (f a)) c ↔ BadAccess e c := by
  simp only [badAccess_bind, not_badAccess_lift, and_false, exists_false, or_false]

/-! ### Programs that are a decoder up to bad accesses -/

/-- Unless it makes a bad access, `e` does what `p` does. -/
def Implements (e : ExpectedM β ε α) (p : CursorM β ε α) : Prop :=
  ∀ c, BadAccess e c ∨ e.runOn c = (lift p).runOn c

section Implements

variable {e : ExpectedM β ε α} {p : CursorM β ε α} {f : α → ExpectedM β ε γ}
  {g : α → CursorM β ε γ}

theorem Implements.lift (p : CursorM β ε α) : Implements (lift p) p := fun _ => .inr rfl

theorem Implements.bind (hp : Implements e p) (hf : ∀ a, Implements (f a) (g a)) :
    Implements (e >>= f) (p >>= g) := by
  intro c
  rcases hp c with hbad | hrun
  · exact .inl (badAccess_bind.mpr (.inl hbad))
  rw [lift_bind, runOn_bind, runOn_bind, hrun]
  rcases hlift : (ExpectedM.lift p).runOn c with ⟨err | a, c₁⟩
  · exact .inr rfl
  · rw [hlift] at hrun
    exact (hf a c₁).imp_left fun hbad => badAccess_bind.mpr (.inr ⟨a, c₁, hrun, hbad⟩)

/-- Where the decoder succeeds, the program does too if it gets that far. -/
theorem Implements.badAccess_or_ok (h : Implements e p) {c c₁ : Cursor β} {a : α}
    (hrun : p.runOn c = (.ok a, c₁)) : BadAccess e c ∨ e.runOn c = (.ok a, c₁) :=
  (h c).imp_right fun heq => heq.trans (runOn_lift_eq_ok.mpr hrun)

theorem Implements.eq_ok (h : Implements e p) {c c₁ : Cursor β} {a : α}
    (hrun : e.runOn c = (.ok a, c₁)) : p.runOn c = (.ok a, c₁) := by
  rcases h c with hbad | heq
  · rw [BadAccess, hrun] at hbad
    cases hbad
  · exact runOn_lift_eq_ok.mp (heq.symm.trans hrun)

end Implements

/-! ### Where the bad accesses are -/

/-- `e` makes a bad access exactly if one of the decoders `q i` leads to a position of which `P`
holds. -/
def BadAt {ι : Type} (P : Cursor β → Prop) (e : ExpectedM β ε α) (q : ι → CursorM β ε γ) : Prop :=
  ∀ c, BadAccess e c ↔ ∃ i b c₁, (q i).runOn c = (.ok b, c₁) ∧ P c₁

section BadAt

variable {ι δ : Type} {P : Cursor β → Prop} {e : ExpectedM β ε α} {q : ι → CursorM β ε γ}

theorem BadAt.lift_bind {p : CursorM β ε δ} {f : δ → ExpectedM β ε α}
    {r : δ → ι → CursorM β ε γ} (h : ∀ d, BadAt P (f d) (r d)) :
    BadAt P (ExpectedM.lift p >>= f) fun i => p >>= fun d => r d i := by
  intro c
  simp only [badAccess_lift_bind, runOn_bind_eq_ok]
  constructor
  · rintro ⟨d, c₁, hp, hbad⟩
    obtain ⟨i, b, c₂, hr, hP⟩ := (h d c₁).mp hbad
    exact ⟨i, b, c₂, ⟨d, c₁, hp, hr⟩, hP⟩
  · rintro ⟨i, b, c₂, ⟨d, c₁, hp, hr⟩, hP⟩
    exact ⟨d, c₁, hp, (h d c₁).mpr ⟨i, b, c₂, hr, hP⟩⟩

theorem BadAt.bind_lift (h : BadAt P e q) (f : α → CursorM β ε δ) :
    BadAt P (e >>= fun a => ExpectedM.lift (f a)) q := by
  intro c
  rw [badAccess_bind_lift]
  exact h c

end BadAt

end ExpectedM

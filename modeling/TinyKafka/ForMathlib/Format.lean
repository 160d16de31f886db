import Mathlib.Computability.Language
import Mathlib.Order.CompletePartialOrder
import TinyKafka.ForMathlib.Cursor

/-!
# Decoders and the languages they decode

The encodings of one value form a language: a field that the decoder skips may have any
content there. `CursorM.Decodes p L a` says that `p` decodes every word of `L` to `a`, in any
surroundings and consuming exactly that word. Concatenation of languages is sequencing of
decoders (`Decodes.bind`), so the language of a record, written as the product of the
languages of its fields, is followed field by field. A field whose value the decoder drops
only has to be read over: `CursorM.Skips`.
-/

namespace CursorM

variable {β ε α γ ι : Type}

/-- `p` decodes every word of `L` to `a`. -/
def Decodes (p : CursorM β ε α) (L : Language β) (a : α) : Prop := ∀ bs ∈ L, Reads p bs a

/-- `p` reads over every word of `L`, with whatever result. -/
def Skips (p : CursorM β ε α) (L : Language β) : Prop := ∀ bs ∈ L, ∃ a, Reads p bs a

variable {p : CursorM β ε α} {f : α → CursorM β ε γ} {L K : Language β} {a : α} {b : γ}

theorem Decodes.skips (h : Decodes p L a) : Skips p L := fun bs hbs => ⟨a, h bs hbs⟩

theorem Reads.decodes {bs : List β} (h : Reads p bs a) : Decodes p {bs} a := by
  rintro _ rfl
  exact h

theorem Decodes.pure (a : α) : Decodes (Pure.pure a : CursorM β ε α) 1 a := by
  intro bs hbs
  rw [(Language.mem_one bs).mp hbs]
  exact Reads.pure a

/-- **Sequencing**: a word of the first language, then one of the second. -/
theorem Decodes.bind (hp : Decodes p L a) (hf : Decodes (f a) K b) :
    Decodes (p >>= f) (L * K) b := by
  intro bs hbs
  obtain ⟨x, hx, y, hy, rfl⟩ := Language.mem_mul.mp hbs
  exact (hp x hx).bind (hf y hy)

/-- Sequencing behind a field whose value is dropped. -/
theorem Skips.bind (hp : Skips p L) (hf : ∀ a, Decodes (f a) K b) :
    Decodes (p >>= f) (L * K) b := by
  intro bs hbs
  obtain ⟨x, hx, y, hy, rfl⟩ := Language.mem_mul.mp hbs
  obtain ⟨a, ha⟩ := hp x hx
  exact ha.bind (hf a y hy)

/-- A last step that only builds the result. -/
theorem Decodes.map (hp : Decodes p L a) (g : α → γ) :
    Decodes (p >>= fun x => Pure.pure (g x)) L (g a) := by
  intro bs hbs
  exact (hp bs hbs).bind_nil (Reads.pure (g a))

theorem Decodes.add (h₁ : Decodes p L a) (h₂ : Decodes p K a) : Decodes p (L + K) a := by
  intro bs hbs
  rcases (Language.mem_add L K bs).mp hbs with h | h
  · exact h₁ bs h
  · exact h₂ bs h

theorem Decodes.iSup {F : ι → Language β} (h : ∀ i, Decodes p (F i) a) :
    Decodes p (⨆ i, F i) a := by
  intro bs hbs
  obtain ⟨i, hi⟩ := Language.mem_iSup.mp hbs
  exact h i bs hi

theorem Skips.iSup {F : ι → Language β} (h : ∀ i, Skips p (F i)) : Skips p (⨆ i, F i) := by
  intro bs hbs
  obtain ⟨i, hi⟩ := Language.mem_iSup.mp hbs
  exact h i bs hi

end CursorM

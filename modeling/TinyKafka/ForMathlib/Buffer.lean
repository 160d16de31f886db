import Mathlib.Algebra.GroupWithZero.Nat
import TinyKafka.ForMathlib.Cursor
import TinyKafka.ForMathlib.PrefixFree

/-!
# Writing into a buffer of fixed size

A writer fills a buffer from a cursor on and fails when an element does not fit
(`BufferM.put`). `BufferM.Writes w bs` says that `w` writes exactly `bs`, wherever there is
room for it; it composes along `bind` and over loops, so a writer that is given as much room
as it writes fills its buffer exactly (`Writes.fills`). Given less room it fails, provided
that it is built from such writes (`Strict.run_eq_none`).

A serializer is a family of writers, one for each value. `BufferM.Codes` collects what there
is to know about one: how long the code of a value is, and that the code determines the
value. It has the same rules, so that one pass through a serializer establishes both.
-/

/-- Writers into a buffer of `β`; the failure is a write beyond the end. -/
abbrev BufferM (β : Type) := StateT (Cursor β) Option

namespace BufferM

variable {β α γ κ μ : Type}

/-- Write some elements, if they fit. -/
def put (bs : List β) : BufferM β Unit := fun c =>
  if c.offset + bs.length ≤ c.data.length then
    some ((), ⟨c.data.take c.offset ++ (bs ++ c.data.drop (c.offset + bs.length)),
      c.offset + bs.length⟩)
  else none

/-- `w` replaces whatever stands in its way by `bs` and stops behind it. -/
def Writes (w : BufferM β Unit) (bs : List β) : Prop :=
  ∀ pre gap post : List β, gap.length = bs.length →
    w.run ⟨pre ++ (gap ++ post), pre.length⟩ =
      some ((), ⟨pre ++ (bs ++ post), pre.length + bs.length⟩)

theorem writes_put (bs : List β) : Writes (put bs) bs := by
  intro pre gap post hgap
  have hroom : pre.length + bs.length ≤ (pre ++ (gap ++ post)).length := by
    simp only [List.length_append]
    omega
  have hdrop : (pre ++ (gap ++ post)).drop (pre.length + bs.length) = post := by
    rw [← hgap, ← List.drop_drop, List.drop_left, List.drop_left]
  change (if _ then _ else _) = _
  rw [if_pos hroom, List.take_left, hdrop]

theorem Writes.pure : Writes (Pure.pure () : BufferM β Unit) [] := by
  intro pre gap post hgap
  obtain rfl : gap = [] := List.length_eq_zero_iff.mp hgap
  rfl

/-- **Sequencing.** -/
theorem Writes.bind {w w' : BufferM β Unit} {bs cs : List β} (h : Writes w bs)
    (h' : Writes w' cs) : Writes (w >>= fun _ => w') (bs ++ cs) := by
  intro pre gap post hgap
  rw [List.length_append] at hgap
  -- the first writer fills the front of the gap, the second one the rest
  have hsplit : gap = gap.take bs.length ++ gap.drop bs.length := (List.take_append_drop _ _).symm
  have hfront : (gap.take bs.length).length = bs.length := by
    rw [List.length_take]
    omega
  have hback : (gap.drop bs.length).length = cs.length := by
    rw [List.length_drop]
    omega
  have hfirst := h pre (gap.take bs.length) (gap.drop bs.length ++ post) hfront
  have hsecond := h' (pre ++ bs) (gap.drop bs.length) post hback
  rw [← List.append_assoc (gap.take _), ← hsplit] at hfirst
  simp only [List.append_assoc, List.length_append] at hsecond
  rw [StateT.run_bind, hfirst]
  change w'.run _ = _
  rw [hsecond, List.append_assoc, List.length_append, Nat.add_assoc]

theorem Writes.forM {w : α → BufferM β Unit} {enc : α → List β} (h : ∀ a, Writes (w a) (enc a))
    (l : List α) : Writes (l.forM w) (l.flatMap enc) := by
  induction l with
  | nil => exact Writes.pure
  | cons a l ih => exact (h a).bind ih

/-- **A buffer of the right size is filled exactly.** -/
theorem Writes.fills {w : BufferM β Unit} {bs gap : List β} (h : Writes w bs)
    (hgap : gap.length = bs.length) : w.run ⟨gap, 0⟩ = some ((), ⟨bs, bs.length⟩) := by
  have hrun := h [] gap [] hgap
  simpa using hrun

/-- What a writer writes is determined. -/
theorem Writes.unique {w : BufferM β Unit} {bs cs : List β} (h : Writes w bs) (h' : Writes w cs) :
    bs = cs := by
  -- one buffer with room for either
  have hrun := h [] bs cs rfl
  have hrun' := h' [] ((bs ++ cs).take cs.length) ((bs ++ cs).drop cs.length) (by simp)
  rw [List.take_append_drop, hrun, Option.some_inj, Prod.mk.injEq, Cursor.mk.injEq] at hrun'
  obtain ⟨-, hdata, hlen⟩ := hrun'
  simp only [List.nil_append, List.length_nil, Nat.zero_add] at hdata hlen
  exact (List.append_inj hdata hlen).1

/-! ### Buffers that are too small -/

/-- `w` writes the same number of elements from everywhere, and none beyond the end. -/
def Strict (w : BufferM β Unit) : Prop :=
  ∃ n, ∀ c c' : Cursor β, c.offset ≤ c.data.length → w.run c = some ((), c') →
    c'.offset = c.offset + n ∧ c'.data.length = c.data.length ∧ c'.offset ≤ c'.data.length

theorem strict_put (bs : List β) : Strict (put bs) := by
  refine ⟨bs.length, fun c c' _ hrun => ?_⟩
  change (if _ then _ else _) = _ at hrun
  split at hrun
  next hroom =>
    cases hrun
    refine ⟨rfl, ?_, ?_⟩ <;>
    simp only [List.length_append, List.length_take, List.length_drop] <;> omega
  next => cases hrun

theorem Strict.pure : Strict (Pure.pure () : BufferM β Unit) := by
  refine ⟨0, fun c c' hc hrun => ?_⟩
  cases hrun
  exact ⟨rfl, rfl, hc⟩

theorem Strict.bind {w w' : BufferM β Unit} (h : Strict w) (h' : Strict w') :
    Strict (w >>= fun _ => w') := by
  obtain ⟨n, hw⟩ := h
  obtain ⟨n', hw'⟩ := h'
  refine ⟨n + n', fun c c' hc hrun => ?_⟩
  rw [StateT.run_bind, Option.bind_eq_bind, Option.bind_eq_some_iff] at hrun
  obtain ⟨⟨_, c₁⟩, hfirst, hsecond⟩ := hrun
  obtain ⟨hoffset, hlength, hle⟩ := hw c c₁ hc hfirst
  obtain ⟨hoffset', hlength', hle'⟩ := hw' c₁ c' hle hsecond
  exact ⟨by omega, by omega, hle'⟩

theorem Strict.forM {w : α → BufferM β Unit} (h : ∀ a, Strict (w a)) (l : List α) :
    Strict (l.forM w) := by
  induction l with
  | nil => exact Strict.pure
  | cons a l ih => exact (h a).bind ih

/-- **A buffer that is too small is not filled.** -/
theorem Strict.run_eq_none {w : BufferM β Unit} {bs gap : List β} (h : Strict w)
    (hw : Writes w bs) (hgap : gap.length < bs.length) : w.run ⟨gap, 0⟩ = none := by
  obtain ⟨n, hn⟩ := h
  -- a buffer with enough room tells how much is written
  obtain ⟨hlength, -⟩ := hn ⟨bs, 0⟩ _ (Nat.zero_le _) (hw.fills rfl)
  dsimp only at hlength
  rw [Option.eq_none_iff_forall_ne_some]
  rintro ⟨_, c⟩ hrun
  obtain ⟨hoffset, hsame, hle⟩ := hn ⟨gap, 0⟩ c (Nat.zero_le _) hrun
  dsimp only at hoffset hsame
  omega

/-! ### Families of writers -/

/-- The writers `w a` write codes of `size a` elements, and of codes shorter than `N` the key
of the value can be read off. -/
def Codes (N : ℕ) (w : α → BufferM β Unit) (size : α → ℕ) (key : α → κ) : Prop :=
  ∃ enc : α → List β, (∀ a, Writes (w a) (enc a)) ∧ (∀ a, (enc a).length = size a) ∧
    PrefixFree N enc key

namespace Codes

variable {N : ℕ} {w w' : α → BufferM β Unit} {size size' : α → ℕ} {key : α → κ} {key' : α → μ}

theorem comp (h : Codes N w size key) (f : γ → α) :
    Codes N (fun c => w (f c)) (fun c => size (f c)) fun c => key (f c) := by
  obtain ⟨enc, hw, hsize, hfree⟩ := h
  exact ⟨fun c => enc (f c), fun c => hw (f c), fun c => hsize (f c), hfree.comp f⟩

/-- The size in another form, and what is asked for of the value. -/
theorem congr (h : Codes N w size key) (hsize' : ∀ a, size a = size' a)
    (hkey : ∀ a b, key a = key b → key' a = key' b) : Codes N w size' key' := by
  obtain ⟨enc, hw, hsize, hfree⟩ := h
  exact ⟨enc, hw, fun a => (hsize a).trans (hsize' a), hfree.weaken hkey⟩

theorem exists_writes (h : Codes N w size key) (a : α) :
    ∃ bs, Writes (w a) bs ∧ bs.length = size a := by
  obtain ⟨enc, hw, hsize, -⟩ := h
  exact ⟨enc a, hw a, hsize a⟩

/-- **Sequencing.** -/
theorem bind (h : Codes N w size key) (h' : Codes N w' size' key') :
    Codes N (fun a => w a >>= fun _ => w' a) (fun a => size a + size' a)
      fun a => (key a, key' a) := by
  obtain ⟨enc, hw, hsize, hfree⟩ := h
  obtain ⟨enc', hw', hsize', hfree'⟩ := h'
  refine ⟨fun a => enc a ++ enc' a, fun a => (hw a).bind (hw' a), fun a => ?_, hfree.append hfree'⟩
  rw [List.length_append, hsize, hsize']

/-- **Loops behind a count.** An element must not be empty, so that a code shorter than `N`
has fewer than `N` elements. -/
theorem counted {count : ℕ → BufferM β Unit} {cenc : ℕ → List β}
    (hwrites : ∀ n, Writes (count n) (cenc n)) (hcount : CountCode N cenc)
    (h : Codes N w size key) (hpos : ∀ a, 0 < size a) :
    Codes N (fun l : List α => count l.length >>= fun _ => l.forM w)
      (fun l => (cenc l.length).length + (l.map size).sum) fun l => l.map key := by
  obtain ⟨enc, hw, hsize, hfree⟩ := h
  refine ⟨fun l => cenc l.length ++ l.flatMap enc, fun l => (hwrites _).bind (Writes.forM hw l),
    fun l => ?_, hfree.counted_flatMap hcount fun a => (hsize a).symm ▸ hpos a⟩
  rw [List.length_append, List.length_flatMap]
  exact congrArg _ (congrArg List.sum (List.map_congr_left fun a _ => hsize a))

end Codes

end BufferM

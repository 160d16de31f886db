import Mathlib.Data.List.Induction
import Mathlib.Tactic.Common

/-!
# Tables of last positions

A table that is overwritten at a key whenever an element with that key is appended to a list
maps each key to its last position. `IndexesLast keys f` says this of a table `f` for the list
of the keys; it holds of the empty table and is kept by appending (`IndexesLast.append`).

The last occurrence of an element also determines what stands before and after it
(`List.append_cons_inj_of_notMem_right`).
-/

variable {κ : Type*}

/-- The last position at which a list has the element `k` is `i`. -/
structure IsLastIndex (keys : List κ) (k : κ) (i : ℕ) : Prop where
  getElem? : keys[i]? = some k
  later : ∀ j, i < j → keys[j]? ≠ some k

/-- The table maps each key to its last position. -/
def IndexesLast (keys : List κ) (f : κ → Option ℕ) : Prop :=
  ∀ k i, f k = some i ↔ IsLastIndex keys k i

namespace IsLastIndex

variable {keys : List κ} {k k' : κ} {i : ℕ}

theorem lt_length (h : IsLastIndex keys k i) : i < keys.length :=
  (List.getElem?_eq_some_iff.mp h.getElem?).1

theorem iff_notMem_drop :
    IsLastIndex keys k i ↔ keys[i]? = some k ∧ k ∉ keys.drop (i + 1) := by
  constructor
  · rintro ⟨hi, hlater⟩
    refine ⟨hi, fun hmem => ?_⟩
    obtain ⟨j, hj⟩ := List.mem_iff_getElem?.mp hmem
    rw [List.getElem?_drop] at hj
    exact hlater _ (by omega) hj
  · rintro ⟨hi, hmem⟩
    refine ⟨hi, fun j hj hget => hmem (List.mem_iff_getElem?.mpr ⟨j - (i + 1), ?_⟩)⟩
    rw [List.getElem?_drop, Nat.add_sub_cancel' (by omega), hget]

/-- The appended element is the last one with its key. -/
theorem append_self (keys : List κ) (k : κ) : IsLastIndex (keys ++ [k]) k keys.length := by
  refine ⟨List.getElem?_concat_length, fun j hj => ?_⟩
  rw [List.getElem?_eq_none (by rw [List.length_append, List.length_singleton]; omega)]
  exact (Option.some_ne_none k).symm

/-- Appending another key changes nothing. -/
theorem append_of_ne (hne : k' ≠ k) : IsLastIndex (keys ++ [k']) k i ↔ IsLastIndex keys k i := by
  -- where the longer list has `k`, the shorter one has it too
  have hget : ∀ j : ℕ, (keys ++ [k'])[j]? = some k ↔ keys[j]? = some k := by
    intro j
    by_cases hj : j < keys.length
    · rw [List.getElem?_append_left hj]
    · rw [List.getElem?_append_right (Nat.not_lt.mp hj), List.getElem?_eq_none (Nat.not_lt.mp hj)]
      cases hj' : j - keys.length with
      | zero => simp [hne]
      | succ n => simp
  constructor
  · rintro ⟨hi, hlater⟩
    exact ⟨(hget i).mp hi, fun j hj h => hlater j hj ((hget j).mpr h)⟩
  · rintro ⟨hi, hlater⟩
    exact ⟨(hget i).mpr hi, fun j hj h => hlater j hj ((hget j).mp h)⟩

theorem unique {j : ℕ} (hi : IsLastIndex keys k i) (hj : IsLastIndex keys k j) : i = j := by
  rcases Nat.lt_trichotomy i j with h | h | h
  · exact absurd hj.getElem? (hi.later j h)
  · exact h
  · exact absurd hi.getElem? (hj.later i h)

end IsLastIndex

namespace IndexesLast

variable {keys : List κ} {f : κ → Option ℕ} {k : κ} {i : ℕ}

theorem nil : IndexesLast ([] : List κ) fun _ => none := by
  intro k i
  refine ⟨fun h => ?_, fun h => absurd h.lt_length (Nat.not_lt_zero _)⟩
  cases h

/-- **Appending an element and overwriting the table at its key.** -/
theorem append [DecidableEq κ] (h : IndexesLast keys f) (k : κ) :
    IndexesLast (keys ++ [k]) fun k' => if k' = k then some keys.length else f k' := by
  intro k' i
  dsimp only
  by_cases hk : k' = k
  · subst hk
    rw [if_pos rfl, Option.some.injEq]
    have hlast := IsLastIndex.append_self keys k'
    exact ⟨fun hi => hi ▸ hlast, fun hi => hlast.unique hi⟩
  · rw [if_neg hk, h k' i, IsLastIndex.append_of_ne (Ne.symm hk)]

/-- The keys of the table are those of the list. -/
theorem isSome_iff_mem (h : IndexesLast keys f) : (f k).isSome ↔ k ∈ keys := by
  constructor
  · intro hk
    obtain ⟨i, hi⟩ := Option.isSome_iff_exists.mp hk
    exact List.mem_of_getElem? ((h k i).mp hi).getElem?
  · -- the last position of a member is found from the end of the list
    intro hk
    suffices hlast : ∃ i, IsLastIndex keys k i by
      obtain ⟨i, hi⟩ := hlast
      rw [(h k i).mpr hi]
      rfl
    clear h
    induction keys using List.reverseRecOn with
    | nil => cases hk
    | append_singleton keys k' ih =>
      by_cases hkk' : k' = k
      · subst hkk'
        exact ⟨_, IsLastIndex.append_self keys k'⟩
      · have hmem : k ∈ keys := by
          rcases List.mem_append.mp hk with hk | hk
          · exact hk
          · exact absurd (List.mem_singleton.mp hk).symm hkk'
        obtain ⟨i, hi⟩ := ih hmem
        exact ⟨i, (IsLastIndex.append_of_ne hkk').mpr hi⟩

end IndexesLast

/-- The last occurrence of an element splits a list in one way. -/
theorem List.append_cons_inj_of_notMem_right {α : Type*} {x x' z z' : List α} {a : α}
    (hz : a ∉ z) (hz' : a ∉ z') (h : x ++ a :: z = x' ++ a :: z') : x = x' ∧ z = z' := by
  obtain ⟨c, rfl, hc⟩ | ⟨c, rfl, hc⟩ := List.append_eq_append_iff.mp h
  · cases c with
    | nil => exact ⟨(List.append_nil x).symm, (List.cons.inj hc).2⟩
    | cons b c =>
      refine absurd ?_ hz
      rw [(List.cons.inj hc).2]
      exact List.mem_append_right c List.mem_cons_self
  · cases c with
    | nil => exact ⟨List.append_nil x', (List.cons.inj hc).2.symm⟩
    | cons b c =>
      refine absurd ?_ hz'
      rw [(List.cons.inj hc).2]
      exact List.mem_append_right c List.mem_cons_self

import Mathlib.Data.Nat.Digits.Defs
import Mathlib.Data.Nat.Digits.Lemmas
import Mathlib.Tactic.Ring

/-!
# Numerals of fixed width

`Nat.fixedDigits b n v` are the `n` lowest base-`b` digits of `v`, the most significant one
first: big-endian integers are the base `256` case and zero-padded decimals the base `10`
one. Reading is Mathlib's `Nat.ofDigits` on the reversed list, and the two are inverse
modulo `b ^ n` (`ofDigits_reverse_fixedDigits`).
-/

namespace Nat

/-- The `n` lowest base-`b` digits of `v`, most significant digit first. -/
def fixedDigits (b : ℕ) : ℕ → ℕ → List ℕ
  | 0, _ => []
  | n + 1, v => v / b ^ n % b :: fixedDigits b n v

@[simp] theorem length_fixedDigits (b n v : ℕ) : (fixedDigits b n v).length = n := by
  induction n with
  | zero => rfl
  | succ n ih => rw [fixedDigits, List.length_cons, ih]

theorem lt_of_mem_fixedDigits {b n v d : ℕ} (hb : 0 < b) (h : d ∈ fixedDigits b n v) :
    d < b := by
  induction n with
  | zero => cases h
  | succ n ih =>
    rcases List.mem_cons.mp h with rfl | h
    · exact Nat.mod_lt _ hb
    · exact ih h

/-- Reading back the digits gives the number modulo `b ^ n`. -/
theorem ofDigits_reverse_fixedDigits (b n v : ℕ) :
    ofDigits b (fixedDigits b n v).reverse = v % b ^ n := by
  induction n with
  | zero => simp [fixedDigits, Nat.mod_one]
  | succ n ih =>
    rw [fixedDigits, List.reverse_cons, ofDigits_append, ih, List.length_reverse,
      length_fixedDigits, ofDigits_singleton, pow_succ, Nat.mod_mul]

/-- Only the lower digits of the number matter. -/
theorem fixedDigits_add_pow_mul {b n m : ℕ} (hb : 0 < b) (h : n ≤ m) (v c : ℕ) :
    fixedDigits b n (v + b ^ m * c) = fixedDigits b n v := by
  induction n with
  | zero => rfl
  | succ n ih =>
    obtain ⟨k, rfl⟩ := Nat.exists_eq_add_of_le h
    have hsplit : b ^ (n + 1 + k) * c = b ^ n * (b * (b ^ k * c)) := by ring
    rw [fixedDigits, fixedDigits, ih (by omega), hsplit, Nat.add_mul_div_left _ _ (Nat.pow_pos hb),
      Nat.add_mul_mod_self_left]

/-- Writing what has been read gives the digits back. -/
theorem fixedDigits_ofDigits_reverse {b : ℕ} (hb : 1 < b) {l : List ℕ} (h : ∀ d ∈ l, d < b) :
    fixedDigits b l.length (ofDigits b l.reverse) = l := by
  induction l with
  | nil => rfl
  | cons d l ih =>
    have hrest : ∀ e ∈ l, e < b := fun e he => h e (List.mem_cons_of_mem d he)
    have hlt : ofDigits b l.reverse < b ^ l.length := by
      have hlt' := ofDigits_lt_base_pow_length hb (l := l.reverse) fun e he =>
        hrest e (List.mem_reverse.mp he)
      rwa [List.length_reverse] at hlt'
    have hpos : 0 < b ^ l.length := Nat.pow_pos (by omega)
    rw [List.reverse_cons, ofDigits_append, ofDigits_singleton, List.length_reverse,
      List.length_cons, fixedDigits, fixedDigits_add_pow_mul (by omega) le_rfl, ih hrest,
      Nat.add_mul_div_left _ _ hpos, Nat.div_eq_of_lt hlt, Nat.zero_add,
      Nat.mod_eq_of_lt (h d List.mem_cons_self)]

end Nat

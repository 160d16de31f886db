import Mathlib.Data.Nat.Digits.Lemmas
import TinyKafka.Util.Bytes

/-!
# Reading decimal numerals

The number that a run of digits stands for, and what `std::to_string` makes of numbers:
`decimalValue` reads its numerals back, so different numbers have different ones
(`toDecimal_injective`).
-/

namespace TinyKafka

/-- `std::isspace` in the C locale. -/
def isSpace (b : UInt8) : Bool := b = 32 ∨ 9 ≤ b ∧ b ≤ 13

/-- `std::isdigit`. -/
def isDigit (b : UInt8) : Bool := 48 ≤ b ∧ b ≤ 57

/-- The number a run of decimal digits stands for. -/
def decimalValue (ds : Bytes) : ℕ := Nat.ofDigits 10 (ds.map fun b => b.toNat - 48).reverse

theorem digitByte_spec : ∀ d < 10, isDigit (digitByte d) = true ∧
    isSpace (digitByte d) = false ∧ digitByte d ≠ 45 ∧ digitByte d ≠ 43 ∧
    (digitByte d).toNat - 48 = d := by
  decide

theorem mem_natDecimal {n : ℕ} {b : UInt8} (h : b ∈ natDecimal n) : ∃ d < 10, b = digitByte d := by
  rw [natDecimal] at h
  split at h
  · exact ⟨0, by decide, List.mem_singleton.mp h⟩
  · obtain ⟨d, hd, rfl⟩ := List.mem_map.mp (List.mem_reverse.mp h)
    exact ⟨d, Nat.digits_lt_base (by decide) hd, rfl⟩

theorem decimalValue_natDecimal (n : ℕ) : decimalValue (natDecimal n) = n := by
  rw [natDecimal]
  split
  · next hn =>
    rw [hn]
    rfl
  · have hmap : ((Nat.digits 10 n).map digitByte).map (fun b => b.toNat - 48) =
        Nat.digits 10 n := by
      rw [List.map_map]
      conv_rhs => rw [← List.map_id (Nat.digits 10 n)]
      refine List.map_congr_left fun d hd => ?_
      exact (digitByte_spec d (Nat.digits_lt_base (by decide) hd)).2.2.2.2
    rw [decimalValue, List.map_reverse, List.reverse_reverse, hmap, Nat.ofDigits_digits]

theorem minus_notMem_natDecimal (n : ℕ) : 45 ∉ natDecimal n := by
  intro h
  obtain ⟨d, hd, heq⟩ := mem_natDecimal h
  exact (digitByte_spec d hd).2.2.1 heq.symm

theorem minus_notMem_toDecimal {n : ℤ} (h : 0 ≤ n) : 45 ∉ toDecimal n := by
  rw [toDecimal, if_neg (by omega)]
  exact minus_notMem_natDecimal _

theorem colon_notMem_toDecimal (n : ℤ) : 58 ∉ toDecimal n := by
  have hnat : 58 ∉ natDecimal n.natAbs := by
    intro h
    obtain ⟨d, hd, heq⟩ := mem_natDecimal h
    have hdigit := (digitByte_spec d hd).1
    rw [← heq] at hdigit
    exact absurd hdigit (by decide)
  rw [toDecimal]
  split
  · rw [List.mem_append, not_or]
    exact ⟨by decide, hnat⟩
  · exact hnat

theorem toDecimal_injective : Function.Injective toDecimal := by
  intro m n h
  have hvalue {i j : ℕ} (h : natDecimal i = natDecimal j) : i = j := by
    rw [← decimalValue_natDecimal i, h, decimalValue_natDecimal]
  -- a numeral with a sign is not one without
  have hsign {i j : ℕ} : ascii "-" ++ natDecimal i ≠ natDecimal j := fun h =>
    minus_notMem_natDecimal j (h ▸ List.mem_cons_self)
  rw [toDecimal, toDecimal] at h
  split at h <;> split at h
  · have := hvalue (List.append_cancel_left h)
    omega
  · exact absurd h hsign
  · exact absurd h.symm hsign
  · have := hvalue h
    omega

end TinyKafka

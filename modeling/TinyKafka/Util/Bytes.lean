import Mathlib.Data.Nat.Digits.Defs

/-!
# Bytes, byte strings and decimal numerals

A C++ `std::string` and a `std::vector<uint8_t>` are both byte sequences, so both are
`Bytes` here: topic names, group and member ids arrive from the wire and need not be valid
text. `ascii` writes a source literal as its bytes, and `toDecimal` is `std::to_string`.
-/

namespace TinyKafka

/-- Byte sequences: `std::vector<uint8_t>` and `std::string` alike. -/
abbrev Bytes := List UInt8

/-- The bytes of an ASCII literal of the source. -/
def ascii (s : String) : Bytes := s.toList.map fun c => c.toNat.toUInt8

/-- `std::array<uint8_t, 16>`. -/
abbrev Uuid := { b : Bytes // b.length = 16 }

/-- The identifier whose bytes are all `b`. -/
def uuidOf (b : UInt8) : Uuid := ⟨List.replicate 16 b, List.length_replicate⟩

/-- The decimal digit of `d < 10`. -/
def digitByte (d : ℕ) : UInt8 := (48 + d).toUInt8

/-- The decimal numeral of a natural number, most significant digit first. -/
def natDecimal (n : ℕ) : Bytes :=
  if n = 0 then [digitByte 0] else ((Nat.digits 10 n).map digitByte).reverse

/-- `std::to_string` on a signed integer. -/
def toDecimal (n : ℤ) : Bytes :=
  if n < 0 then ascii "-" ++ natDecimal n.natAbs else natDecimal n.natAbs

example : toDecimal (-120) = ascii "-120" := by decide

end TinyKafka

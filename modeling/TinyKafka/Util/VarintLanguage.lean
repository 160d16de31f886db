import TinyKafka.Util.ByteReader
import Mathlib.Algebra.BigOperators.Ring.Finset

/-!
# The language of the varint decoder

`read_unsigned_varint` accepts exactly the buffers with a byte below `0x80` among their first
four, and returns the number that the groups up to this byte stand for
(`readUnsignedVarint_language`). The encoding it accepts need not be the minimal one: the last
group may be zero (`Varint.Minimal`), and then `varint_encoded_size` of the result is smaller
than the number of bytes that were decoded.

The writer uses five bytes from `2 ^ 28` on, which no reader accepts. So the round trip holds
on a part of the range only (`roundTrips_iff`).
-/

namespace TinyKafka

open CursorM ByteReader

namespace Varint

/-- The number at the start of the buffer has no zero group at its end: it is encoded in as
few bytes as possible. -/
def Minimal (buf : Bytes) : Prop := lastIndex buf = 0 ∨ buf.getD (lastIndex buf) 0 ≠ 0

instance (buf : Bytes) : Decidable (Minimal buf) := inferInstanceAs (Decidable (_ ∨ _))

/-- What is known of a result that was decoded from the bytes up to index `k`. -/
structure Decoded (buf : Bytes) (k : ℕ) (v : UInt32) : Prop where
  value : v.toNat = ∑ i ∈ Finset.range (k + 1), (buf.getD i 0).toNat % 128 * 128 ^ i
  lt : v.toNat < 2 ^ 28
  /-- The other bytes do not matter. -/
  of_take : ∀ buf' : Bytes, buf'.take (k + 1) = buf.take (k + 1) → readUnsignedVarint buf' = .ok v
  size_le : varintEncodedSize v ≤ k + 1
  size_eq_iff : varintEncodedSize v = k + 1 ↔ k = 0 ∨ buf.getD k 0 ≠ 0

/-! ### The byte that ends the number -/

/-- There is such a byte when some byte has bit 7 clear. -/
theorem lastIndex_lt_iff {buf : Bytes} {n : ℕ} :
    (lastIndex buf < buf.length ∧ lastIndex buf < n) ↔
      ∃ byte ∈ buf.take n, byte.toNat.testBit 7 = false := by
  induction buf generalizing n with
  | nil => simp
  | cons byte buf ih =>
    cases n with
    | zero => simp
    | succ n =>
      rw [List.take_succ_cons, List.exists_mem_cons_iff, testBit_seven, ← ih, List.length_cons]
      by_cases hlast : byte.toNat / 128 = 0
      · rw [lastIndex_cons_of_last hlast]
        simp [hlast]
      · rw [lastIndex_cons_of_continued hlast]
        simp only [hlast, false_or]
        omega

/-- The byte that ends the number has bit 7 clear. -/
theorem getD_lastIndex_lt {buf : Bytes} (h : lastIndex buf < buf.length) :
    (buf.getD (lastIndex buf) 0).toNat < 128 := by
  have hbit := List.findIdx_getElem (w := h)
  rw [Bool.not_eq_true', testBit_seven] at hbit
  rw [List.getD_eq_getElem?_getD, List.getElem?_eq_getElem h, Option.getD_some]
  exact Nat.lt_of_div_eq_zero (by decide) hbit

/-! ### The value -/

theorem groupsValue_take (buf : Bytes) (n : ℕ) :
    groupsValue (buf.take n) = ∑ i ∈ Finset.range n, (buf.getD i 0).toNat % 128 * 128 ^ i := by
  induction buf generalizing n with
  | nil => simp [groupsValue]
  | cons byte buf ih =>
    cases n with
    | zero => rfl
    | succ n =>
      rw [List.take_succ_cons, groupsValue_cons, ih, Finset.sum_range_succ', Finset.mul_sum,
        Nat.add_comm]
      congr 1
      · refine Finset.sum_congr rfl fun i _ => ?_
        rw [List.getD_cons_succ, pow_succ]
        ring
      · simp

/-- The last group stands in front of the others. -/
theorem groupsValue_lastIndex {buf : Bytes} (h : lastIndex buf < buf.length) :
    groupsValue (buf.take (lastIndex buf + 1)) = groupsValue (buf.take (lastIndex buf)) +
      (buf.getD (lastIndex buf) 0).toNat * 128 ^ lastIndex buf := by
  have hmod : (buf.getD (lastIndex buf) 0).toNat % 128 = (buf.getD (lastIndex buf) 0).toNat :=
    Nat.mod_eq_of_lt (getD_lastIndex_lt h)
  rw [groupsValue_take, groupsValue_take, Finset.sum_range_succ, hmod]

/-- The size of the result is the number of bytes it was decoded from when there was no
shorter encoding. -/
theorem varintEncodedSize_eq_iff {buf : Bytes} {v : UInt32} (h : readUnsignedVarint buf = .ok v) :
    varintEncodedSize v = lastIndex buf + 1 ↔ Minimal buf := by
  obtain ⟨hlast, -, hv⟩ := readUnsignedVarint_eq_ok_iff.mp h
  have hle := varintEncodedSize_le_of_read h
  have hpos := varintEncodedSize_pos v
  rw [Minimal]
  by_cases hone : lastIndex buf = 0
  · simp only [hone, true_or, iff_true]
    omega
  · have hlow := groupsValue_lt (buf.take (lastIndex buf))
    rw [List.length_take_of_le hlast.le] at hlow
    have hsmall : varintEncodedSize v ≤ lastIndex buf ↔ v.toNat < 128 ^ lastIndex buf :=
      varintEncodedSize_le_iff (by omega)
    rw [hv, groupsValue_lastIndex hlast] at hsmall
    by_cases hzero : buf.getD (lastIndex buf) 0 = 0
    · -- a zero group at the end leaves the number below the next power
      rw [hzero] at hsmall
      have hfew := hsmall.mpr (by simpa using hlow)
      simp only [hone, hzero, ne_eq, not_true_eq_false, or_self, iff_false]
      omega
    · have hbyte : 1 ≤ (buf.getD (lastIndex buf) 0).toNat :=
        Nat.pos_of_ne_zero fun h0 => hzero (UInt8.toNat_inj.mp h0)
      have hmul := Nat.mul_le_mul_right (128 ^ lastIndex buf) hbyte
      have hmany := mt hsmall.mp (by omega)
      simp only [hzero, ne_eq, not_false_eq_true, or_true, iff_true]
      omega

theorem lt_of_readUnsignedVarint {buf : Bytes} {v : UInt32} (h : readUnsignedVarint buf = .ok v) :
    v.toNat < 2 ^ 28 := by
  obtain ⟨-, hfour, hv⟩ := readUnsignedVarint_eq_ok_iff.mp h
  rw [hv]
  exact groupsValue_take_lt hfour buf

theorem decoded_of_read {buf : Bytes} {v : UInt32} (h : readUnsignedVarint buf = .ok v) :
    Decoded buf (lastIndex buf) v where
  value := by rw [(readUnsignedVarint_eq_ok_iff.mp h).2.2, groupsValue_take]
  lt := lt_of_readUnsignedVarint h
  of_take _ htake := readUnsignedVarint_of_take h htake
  size_le := varintEncodedSize_le_of_read h
  size_eq_iff := varintEncodedSize_eq_iff h

/-- **Language and value of `read_unsigned_varint`**: it succeeds when one of the first four
bytes has bit 7 clear, and decodes the bytes up to the first of these. -/
theorem readUnsignedVarint_language (buf : Bytes) :
    ((∃ v, readUnsignedVarint buf = .ok v) ↔
      ∃ byte ∈ buf.take 4, byte.toNat.testBit 7 = false) ∧
      ∀ v, readUnsignedVarint buf = .ok v → Decoded buf (lastIndex buf) v := by
  refine ⟨?_, fun v h => decoded_of_read h⟩
  rw [← lastIndex_lt_iff]
  constructor
  · rintro ⟨v, hv⟩
    obtain ⟨hlast, hfour, -⟩ := readUnsignedVarint_eq_ok_iff.mp hv
    exact ⟨hlast, hfour⟩
  · rintro ⟨hlast, hfour⟩
    refine ⟨UInt32.ofNat (groupsValue (buf.take (lastIndex buf + 1))), ?_⟩
    have hlt : groupsValue (buf.take (lastIndex buf + 1)) < 2 ^ 28 :=
      groupsValue_take_lt hfour buf
    rw [readUnsignedVarint_eq_ok_iff]
    exact ⟨hlast, hfour, UInt32.toNat_ofNat_of_lt' (hlt.trans (by decide))⟩

example : readUnsignedVarint [0x80, 0x00] = .ok 0 ∧ ¬ Minimal [0x80, 0x00] := by decide

end Varint

/-! ### The round trip -/

open Varint

/-- `read_unsigned_varint` gives back what `write_unsigned_varint` wrote, whatever follows, and
`read_varint` steps over exactly these bytes. -/
structure RoundTrips (v : UInt32) : Prop where
  read : ∀ s : Bytes, Varint.readUnsignedVarint (writeUnsignedVarint v ++ s) = .ok v
  readVarint : Reads ByteReader.readVarint (writeUnsignedVarint v) v

/-- The same for signed numbers. -/
structure SignedRoundTrips (w : Int32) : Prop where
  read : ∀ s : Bytes, Varint.readSignedVarint (writeSignedVarint w ++ s) = .ok w
  readSignedVarint : Reads ByteReader.readSignedVarint (writeSignedVarint w) w

/-- Nothing that the reader returns has more than 28 bits. -/
theorem lt_of_roundTrips {v : UInt32} (h : RoundTrips v) : v.toNat < 2 ^ 28 :=
  lt_of_readUnsignedVarint (h.read [])

theorem lt_of_signedRoundTrips {w : Int32} (h : SignedRoundTrips w) :
    (zigzagEncode w).toNat < 2 ^ 28 := by
  have hread := h.read []
  rw [Varint.readSignedVarint] at hread
  rcases hv : Varint.readUnsignedVarint (writeSignedVarint w ++ []) with e | v
  · rw [hv] at hread
    cases hread
  · rw [hv] at hread
    obtain rfl : zigzagDecode v = w := Except.ok.inj hread
    rw [zigzagEncode_zigzagDecode]
    exact lt_of_readUnsignedVarint hv

/-- The numbers whose zigzag encoding has 28 bits. -/
theorem toNat_zigzagEncode_lt_iff {w : Int32} :
    (zigzagEncode w).toNat < 2 ^ 28 ↔ -2 ^ 27 ≤ w.toInt ∧ w.toInt < 2 ^ 27 := by
  by_cases hw : 0 ≤ w.toInt
  · rw [toNat_zigzagEncode hw]
    omega
  · rw [toNat_zigzagEncode_of_neg (by omega)]
    omega

/-- **When decoding undoes encoding**: for the unsigned numbers below `2 ^ 28` and the signed
ones of 28 bits. Zigzag itself is a bijection. -/
theorem roundTrips_iff (v : UInt32) (w : Int32) :
    (RoundTrips v ↔ v.toNat < 2 ^ 28) ∧
      (SignedRoundTrips w ↔ -2 ^ 27 ≤ w.toInt ∧ w.toInt < 2 ^ 27) ∧
        zigzagDecode (zigzagEncode w) = w ∧ zigzagEncode (zigzagDecode v) = v := by
  refine ⟨⟨lt_of_roundTrips, fun h => ?_⟩, ?_, zigzagDecode_zigzagEncode w,
    zigzagEncode_zigzagDecode v⟩
  · exact ⟨readUnsignedVarint_write h, reads_readVarint h⟩
  · rw [← toNat_zigzagEncode_lt_iff]
    refine ⟨lt_of_signedRoundTrips, fun h => ?_⟩
    exact ⟨readSignedVarint_write h, reads_readSignedVarint h⟩

/-- The first numbers that need five bytes do not come back. -/
theorem not_roundTrips : ¬ RoundTrips 268435456 ∧ ¬ SignedRoundTrips 134217728 := by
  constructor
  · intro h
    exact absurd (lt_of_roundTrips h) (by decide)
  · intro h
    exact absurd (lt_of_signedRoundTrips h) (by decide)

end TinyKafka

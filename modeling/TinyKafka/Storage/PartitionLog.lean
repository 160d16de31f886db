import Mathlib.Data.List.TakeWhile
import TinyKafka.ForMathlib.FixedDigits
import TinyKafka.ForMathlib.LastIndex
import TinyKafka.Util.Decimal

/-!
# Names of partition directories and segment files

A partition's log is a directory `{root}/{topic}-{partition}` of segment files, each named by
the offset of its first record in twenty decimal places. `stoll` reads such a name back
(`stoll_formatOffset`), for every 64-bit offset: a negative one spends a place on its sign.
Different partitions have different directories (`dirPath_inj`).
-/

namespace TinyKafka

/-- `PartitionLog::dir_path`. -/
def dirPath (logRoot topicName : Bytes) (partition : Int32) : Bytes :=
  logRoot ++ ascii "/" ++ topicName ++ ascii "-" ++ toDecimal partition.toInt

/-- The number in exactly `n` decimal places. -/
def paddedDecimal (n v : ℕ) : Bytes := (Nat.fixedDigits 10 n v).map digitByte

/-- `{:020d}`. -/
def formatOffset (offset : Int64) : Bytes :=
  if offset < 0 then ascii "-" ++ paddedDecimal 19 offset.toInt.natAbs
  else paddedDecimal 20 offset.toInt.natAbs

/-- The file name in `PartitionLog::segment_path`. -/
def segmentName (baseOffset : Int64) : Bytes := formatOffset baseOffset ++ ascii ".log"

/-- An optional sign: whether it is a minus, and what follows. -/
def splitSign : Bytes → Bool × Bytes
  | [] => (false, [])
  | b :: s => if b = 45 then (true, s) else if b = 43 then (false, s) else (false, b :: s)

/-- `std::stoll`: white space, an optional sign and the longest run of digits. It throws when
there are no digits or the number does not fit. -/
def stoll (s : Bytes) : Option Int64 :=
  let (negative, s) := splitSign (s.dropWhile isSpace)
  let digits := s.takeWhile isDigit
  let n : ℤ := if negative then -decimalValue digits else decimalValue digits
  if digits = [] ∨ n < -2 ^ 63 ∨ 2 ^ 63 ≤ n then none else some (Int64.ofInt n)

/-! ### Reading a name back -/

@[simp] theorem length_paddedDecimal (n v : ℕ) : (paddedDecimal n v).length = n := by
  rw [paddedDecimal, List.length_map, Nat.length_fixedDigits]

/-- The bytes of a padded numeral are those of its digits. -/
theorem mem_paddedDecimal {n v : ℕ} {b : UInt8} (h : b ∈ paddedDecimal n v) :
    ∃ d < 10, b = digitByte d := by
  obtain ⟨d, hd, rfl⟩ := List.mem_map.mp h
  exact ⟨d, Nat.lt_of_mem_fixedDigits (by decide) hd, rfl⟩

theorem takeWhile_paddedDecimal (n v : ℕ) :
    (paddedDecimal n v).takeWhile isDigit = paddedDecimal n v := by
  refine List.takeWhile_eq_self_iff.mpr fun b hb => ?_
  obtain ⟨d, hd, rfl⟩ := mem_paddedDecimal hb
  exact (digitByte_spec d hd).1

theorem decimalValue_paddedDecimal (n v : ℕ) :
    decimalValue (paddedDecimal n v) = v % 10 ^ n := by
  have hmap : (paddedDecimal n v).map (fun b => b.toNat - 48) = Nat.fixedDigits 10 n v := by
    rw [paddedDecimal, List.map_map]
    conv_rhs => rw [← List.map_id (Nat.fixedDigits 10 n v)]
    refine List.map_congr_left fun d hd => ?_
    exact (digitByte_spec d (Nat.lt_of_mem_fixedDigits (by decide) hd)).2.2.2.2
  rw [decimalValue, hmap, Nat.ofDigits_reverse_fixedDigits]

@[simp] theorem length_formatOffset (offset : Int64) : (formatOffset offset).length = 20 := by
  rw [formatOffset]
  split
  · rw [List.length_append, length_paddedDecimal]
    rfl
  · rw [length_paddedDecimal]

/-- A signless numeral has no sign to split off. -/
private theorem splitSign_paddedDecimal (n v : ℕ) :
    splitSign ((paddedDecimal (n + 1) v).dropWhile isSpace) =
      (false, paddedDecimal (n + 1) v) := by
  obtain ⟨b, s, hs⟩ : ∃ b s, paddedDecimal (n + 1) v = b :: s := ⟨_, _, rfl⟩
  obtain ⟨d, hd, hb⟩ := mem_paddedDecimal (hs ▸ List.mem_cons_self : b ∈ paddedDecimal (n + 1) v)
  obtain ⟨-, hspace, hminus, hplus, -⟩ := digitByte_spec d hd
  rw [← hb] at hspace hminus hplus
  rw [hs, List.dropWhile_cons_of_neg (by simp [hspace]), splitSign, if_neg hminus, if_neg hplus]

/-- A sign and digits that stand for a 64-bit number are read as this number. -/
private theorem stoll_eq_some {s digits : Bytes} {negative : Bool} {v : Int64}
    (hsign : splitSign (s.dropWhile isSpace) = (negative, digits))
    (hdigits : digits.takeWhile isDigit = digits) (hne : digits ≠ [])
    (hv : (if negative then -(decimalValue digits : ℤ) else decimalValue digits) = v.toInt) :
    stoll s = some v := by
  have hlt := v.toInt_lt
  have hge := v.le_toInt
  rw [stoll, hsign]
  dsimp only
  rw [hdigits, hv, if_neg, Int64.ofInt_toInt]
  rintro (hnil | h | h)
  · exact hne hnil
  · omega
  · omega

private theorem paddedDecimal_ne_nil (n v : ℕ) : paddedDecimal (n + 1) v ≠ [] :=
  List.ne_nil_of_length_eq_add_one (length_paddedDecimal (n + 1) v)

/-- **Every offset is read back from its numeral.** -/
theorem stoll_formatOffset (offset : Int64) : stoll (formatOffset offset) = some offset := by
  have hlt := offset.toInt_lt
  have hge := offset.le_toInt
  have hneg : offset < 0 ↔ offset.toInt < 0 := by
    rw [Int64.lt_iff_toInt_lt, Int64.toInt_zero]
  rw [formatOffset]
  split
  next h =>
    have hnum := hneg.mp h
    have hsign : splitSign ((ascii "-" ++ paddedDecimal 19 offset.toInt.natAbs).dropWhile isSpace) =
        (true, paddedDecimal 19 offset.toInt.natAbs) := rfl
    refine stoll_eq_some hsign (takeWhile_paddedDecimal _ _)
      (paddedDecimal_ne_nil _ _) ?_
    rw [if_pos rfl, decimalValue_paddedDecimal, Nat.mod_eq_of_lt (by omega)]
    omega
  next h =>
    have hnum := mt hneg.mpr h
    refine stoll_eq_some (splitSign_paddedDecimal _ _) (takeWhile_paddedDecimal _ _)
      (paddedDecimal_ne_nil _ _) ?_
    rw [if_neg Bool.false_ne_true, decimalValue_paddedDecimal, Nat.mod_eq_of_lt (by omega)]
    omega

theorem segmentName_injective : Function.Injective segmentName := by
  intro a b h
  have hname : formatOffset a = formatOffset b :=
    (List.append_inj h (by rw [length_formatOffset, length_formatOffset])).1
  have hread := stoll_formatOffset a
  rw [hname, stoll_formatOffset] at hread
  exact (Option.some.inj hread).symm

/-! ### Names of partitions -/

/-- Directories of different partitions have different names. A topic may end in what looks
like a partition, so this is about the last `-`; with a negative partition there would be
another one. -/
theorem dirPath_inj {logRoot topic topic' : Bytes} {partition partition' : Int32}
    (hp : 0 ≤ partition) (hp' : 0 ≤ partition') :
    dirPath logRoot topic partition = dirPath logRoot topic' partition' ↔
      topic = topic' ∧ partition = partition' := by
  refine ⟨fun h => ?_, fun h => by rw [h.1, h.2]⟩
  have hnonneg {p : Int32} (hp : 0 ≤ p) : 0 ≤ p.toInt := by
    simpa using Int32.le_iff_toInt_le.mp hp
  simp only [dirPath, List.append_assoc, List.append_cancel_left_eq] at h
  obtain ⟨htopic, hnumber⟩ := List.append_cons_inj_of_notMem_right
    (minus_notMem_toDecimal (hnonneg hp)) (minus_notMem_toDecimal (hnonneg hp')) h
  exact ⟨htopic, Int32.toInt_inj.mp (toDecimal_injective hnumber)⟩

end TinyKafka

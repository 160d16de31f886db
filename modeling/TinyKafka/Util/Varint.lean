import TinyKafka.Util.Bytes
import Mathlib.Data.Nat.Digits.Lemmas
import Mathlib.Tactic.Ring
import Mathlib.Tactic.NormNum

/-!
# Variable-length integers

Unsigned varints carry seven bits per byte, lowest group first, with bit 7 set on every byte
but the last. Signed ones are zigzag-encoded first. The reader gives up at the fifth byte
(`shift >= 28`), so only values below `2 ^ 28` survive a round trip
(`readUnsignedVarint_write`).
-/

namespace TinyKafka

/-- The error conditions of `std::errc` that the sources return. -/
inductive Errc
  | messageSize
  | protocolNotSupported
  | functionNotSupported
  deriving DecidableEq, Repr

/-- `while (value > 0) { value >>= 7; ++size; }`, at most `fuel` turns. -/
def varintSizeLoop : (fuel value : ℕ) → ℕ
  | 0, _ => 0
  | fuel + 1, value => if value > 0 then varintSizeLoop fuel (value / 128) + 1 else 0

/-- `varint_encoded_size`; a `uint32_t` has at most five groups of seven bits. -/
def varintEncodedSize (value : UInt32) : ℕ :=
  if value = 0 then 1 else varintSizeLoop 5 value.toNat

/-- The bytes the loop of `write_unsigned_varint` stores, at most `fuel` of them with bit 7
set. -/
def writeVarintLoop : (fuel value : ℕ) → Bytes
  | 0, value => [UInt8.ofNat (value % 128)]
  | fuel + 1, value =>
    if value > 0x7F then UInt8.ofNat (value % 128 + 128) :: writeVarintLoop fuel (value / 128)
    else [UInt8.ofNat (value % 128)]

/-- `write_unsigned_varint`. -/
def writeUnsignedVarint (value : UInt32) : Bytes := writeVarintLoop 4 value.toNat

/-- The loop of `read_unsigned_varint`. The accumulator stays below `2 ^ 28`, so that the
`uint32_t` shifts and ors of the source do not overflow. -/
def readVarintLoop : Bytes → (value shift : ℕ) → Except Errc ℕ
  | [], _, _ => .error .messageSize
  | byte :: buf, value, shift =>
    if shift ≥ 28 then .error .messageSize
    else
      let value := value ||| (byte.toNat % 128) <<< shift
      if byte.toNat / 128 = 0 then .ok value else readVarintLoop buf value (shift + 7)

/-- `read_unsigned_varint`. -/
def Varint.readUnsignedVarint (buf : Bytes) : Except Errc UInt32 :=
  (readVarintLoop buf 0 0).map UInt32.ofNat

/-- `zigzag_encode`. -/
def zigzagEncode (value : Int32) : UInt32 := (value.toUInt32 <<< 1) ^^^ (value >>> 31).toUInt32

/-- `zigzag_decode`. -/
def zigzagDecode (encoded : UInt32) : Int32 :=
  (encoded >>> 1).toInt32 ^^^ -(encoded &&& 1).toInt32

/-- `signed_varint_encoded_size`. -/
def signedVarintEncodedSize (value : Int32) : ℕ := varintEncodedSize (zigzagEncode value)

/-- `write_signed_varint`. -/
def writeSignedVarint (value : Int32) : Bytes := writeUnsignedVarint (zigzagEncode value)

/-- `read_signed_varint`. -/
def Varint.readSignedVarint (buf : Bytes) : Except Errc Int32 :=
  (Varint.readUnsignedVarint buf).map zigzagDecode

/-- `read_compact_string`: the length plus one as a varint, then the bytes. -/
def Varint.readCompactString (buf : Bytes) : Except Errc Bytes :=
  if buf = [] then .error .messageSize
  else
    match Varint.readUnsignedVarint buf with
    | .error e => .error e
    | .ok len =>
      if len < 1 then .error .messageSize
      else
        let strLen := (len - 1).toNat
        let consumed := varintEncodedSize len
        if buf.length < consumed + strLen then .error .messageSize
        else .ok ((buf.drop consumed).take strLen)

/-! ### Sizes -/

theorem length_writeVarintLoop {fuel value : ℕ} (h : value < 128 ^ (fuel + 1))
    (hpos : 0 < value) : (writeVarintLoop fuel value).length = varintSizeLoop (fuel + 1) value := by
  induction fuel generalizing value with
  | zero =>
    have hsmall : value / 128 = 0 := by omega
    simp [writeVarintLoop, varintSizeLoop, hpos]
  | succ fuel ih =>
    rw [writeVarintLoop, varintSizeLoop, if_pos hpos]
    split
    next hbig =>
      have hlt : value / 128 < 128 ^ (fuel + 1) := by
        rw [Nat.div_lt_iff_lt_mul (by decide), ← pow_succ]
        exact h
      rw [List.length_cons, ih hlt (by omega)]
    next hsmall =>
      have hzero : value / 128 = 0 := by omega
      rw [hzero, varintSizeLoop]
      rfl

/-- `write_unsigned_varint` stores as many bytes as `varint_encoded_size` says. -/
@[simp] theorem length_writeUnsignedVarint (value : UInt32) :
    (writeUnsignedVarint value).length = varintEncodedSize value := by
  rw [writeUnsignedVarint, varintEncodedSize]
  by_cases h : value = 0
  · subst h
    rfl
  · rw [if_neg h]
    have hlt : value.toNat < 2 ^ 32 := value.toNat_lt
    have hne : value.toNat ≠ 0 := fun h0 => h (UInt32.toNat_inj.mp h0)
    exact length_writeVarintLoop (by norm_num; omega) (by omega)

/-! ### Where a varint ends

The encoding determines the number and its own end also for the numbers that the reader
refuses. -/

/-- A byte with bit 7 set is not the last one of the loop. -/
private theorem ofNat_continued_ne_last {a b : ℕ} :
    UInt8.ofNat (a % 128 + 128) ≠ UInt8.ofNat (b % 128) := by
  intro h
  have hnat := congrArg UInt8.toNat h
  simp only [UInt8.toNat_ofNat'] at hnat
  omega

private theorem writeVarintLoop_succ {fuel value : ℕ} (h : 0x7F < value) :
    writeVarintLoop (fuel + 1) value =
      UInt8.ofNat (value % 128 + 128) :: writeVarintLoop fuel (value / 128) :=
  if_pos h

private theorem writeVarintLoop_last {fuel value : ℕ} (h : value ≤ 0x7F) :
    writeVarintLoop fuel value = [UInt8.ofNat (value % 128)] := by
  cases fuel with
  | zero => rfl
  | succ fuel => exact if_neg (by omega)

/-- Two numbers of one byte each. -/
private theorem ofNat_last_inj {a b : ℕ} (ha : a ≤ 0x7F) (hb : b ≤ 0x7F)
    (h : UInt8.ofNat (a % 128) = UInt8.ofNat (b % 128)) : a = b := by
  have hnat := congrArg UInt8.toNat h
  simp only [UInt8.toNat_ofNat'] at hnat
  omega

theorem writeVarintLoop_append_inj {fuel value value' : ℕ} {s t : Bytes}
    (hv : value < 128 ^ (fuel + 1)) (hv' : value' < 128 ^ (fuel + 1))
    (h : writeVarintLoop fuel value ++ s = writeVarintLoop fuel value' ++ t) :
    value = value' ∧ s = t := by
  induction fuel generalizing value value' with
  | zero =>
    have hle : value ≤ 0x7F := by omega
    have hle' : value' ≤ 0x7F := by omega
    rw [writeVarintLoop_last hle, writeVarintLoop_last hle'] at h
    obtain ⟨hbyte, hrest⟩ := List.cons_eq_cons.mp h
    exact ⟨ofNat_last_inj hle hle' hbyte, hrest⟩
  | succ fuel ih =>
    have hdiv : ∀ {v : ℕ}, v < 128 ^ (fuel + 1 + 1) → v / 128 < 128 ^ (fuel + 1) := by
      intro v h
      rw [Nat.div_lt_iff_lt_mul (by decide), ← pow_succ]
      exact h
    -- bit 7 of the first byte tells whether there are more
    by_cases hbig : 0x7F < value
    · rw [writeVarintLoop_succ hbig] at h
      by_cases hbig' : 0x7F < value'
      · rw [writeVarintLoop_succ hbig'] at h
        obtain ⟨hbyte, hrest⟩ := List.cons_eq_cons.mp h
        have hnat := congrArg UInt8.toNat hbyte
        simp only [UInt8.toNat_ofNat'] at hnat
        obtain ⟨hhigh, hst⟩ := ih (hdiv hv) (hdiv hv') hrest
        exact ⟨by omega, hst⟩
      · rw [writeVarintLoop_last (not_lt.mp hbig')] at h
        exact absurd (List.cons_eq_cons.mp h).1 ofNat_continued_ne_last
    · rw [writeVarintLoop_last (not_lt.mp hbig)] at h
      by_cases hbig' : 0x7F < value'
      · rw [writeVarintLoop_succ hbig'] at h
        exact absurd (List.cons_eq_cons.mp h).1.symm ofNat_continued_ne_last
      · rw [writeVarintLoop_last (not_lt.mp hbig')] at h
        obtain ⟨hbyte, hrest⟩ := List.cons_eq_cons.mp h
        exact ⟨ofNat_last_inj (not_lt.mp hbig) (not_lt.mp hbig') hbyte, hrest⟩

/-- **Varints are prefix-free**, over all of `uint32_t`. -/
theorem writeUnsignedVarint_append_inj {value value' : UInt32} {s t : Bytes}
    (h : writeUnsignedVarint value ++ s = writeUnsignedVarint value' ++ t) :
    value = value' ∧ s = t := by
  have hlt : ∀ v : UInt32, v.toNat < 128 ^ (4 + 1) := by
    intro v
    have h32 : v.toNat < 2 ^ 32 := v.toNat_lt
    norm_num
    omega
  obtain ⟨hnat, hst⟩ := writeVarintLoop_append_inj (hlt value) (hlt value') h
  exact ⟨UInt32.toNat_inj.mp hnat, hst⟩

/-! ### Round trip -/

/-- One group of seven bits and the rest. -/
private theorem shiftLeft_split (value shift : ℕ) :
    (value % 128) <<< shift ||| (value / 128) <<< (shift + 7) = value <<< shift := by
  have hor : value = (value / 128) <<< 7 ||| value % 128 := by
    rw [← Nat.shiftLeft_add_eq_or_of_lt (show value % 128 < 2 ^ 7 by omega), Nat.shiftLeft_eq]
    omega
  have hshift : (value / 128) <<< (shift + 7) = ((value / 128) <<< 7) <<< shift := by
    rw [Nat.add_comm, Nat.shiftLeft_add]
  rw [hshift, Nat.or_comm, ← Nat.shiftLeft_or_distrib, ← hor]

/-- A byte with bit 7 clear ends the number. -/
private theorem readVarintLoop_last {value shift : ℕ} (hle : value ≤ 0x7F) (hshift : shift < 28)
    (acc : ℕ) (rest : Bytes) :
    readVarintLoop ([UInt8.ofNat (value % 128)] ++ rest) acc shift =
      .ok (acc ||| value <<< shift) := by
  have hmod : value % 128 = value := by omega
  have hdiv : value / 128 = 0 := by omega
  have hbyte : (UInt8.ofNat value).toNat = value := by
    rw [UInt8.toNat_ofNat', Nat.mod_eq_of_lt (by omega)]
  rw [hmod, List.singleton_append, readVarintLoop, if_neg (by omega)]
  dsimp only
  rw [hbyte, hmod, if_pos hdiv]

/-- Reading back what was written, from any position of the accumulator. -/
theorem readVarintLoop_write {fuel value shift : ℕ} (hfuel : value < 128 ^ (fuel + 1))
    (hshift : shift < 28) (hvalue : value <<< shift < 2 ^ 28) (acc : ℕ) (rest : Bytes) :
    readVarintLoop (writeVarintLoop fuel value ++ rest) acc shift =
      .ok (acc ||| value <<< shift) := by
  induction fuel generalizing value shift acc with
  | zero => exact readVarintLoop_last (by omega) hshift acc rest
  | succ fuel ih =>
    rw [writeVarintLoop]
    split
    next hbig =>
      have hbyte : (UInt8.ofNat (value % 128 + 128)).toNat = value % 128 + 128 := by
        rw [UInt8.toNat_ofNat', Nat.mod_eq_of_lt (by omega)]
      have hmod : (value % 128 + 128) % 128 = value % 128 := by omega
      have hdiv : ¬ (value % 128 + 128) / 128 = 0 := by omega
      -- a further group only fits below the limit of the reader
      have hlt : shift + 7 < 28 := by
        rw [Nat.shiftLeft_eq] at hvalue
        by_contra hge
        have hpow : 2 ^ 21 ≤ 2 ^ shift := Nat.pow_le_pow_right (by decide) (by omega)
        nlinarith
      have hrest : (value / 128) <<< (shift + 7) < 2 ^ 28 := by
        refine lt_of_le_of_lt ?_ hvalue
        rw [Nat.shiftLeft_eq, Nat.shiftLeft_eq, pow_add, Nat.mul_comm (2 ^ shift), ← Nat.mul_assoc]
        exact Nat.mul_le_mul_right _ (Nat.div_mul_le_self value 128)
      have hfuel' : value / 128 < 128 ^ (fuel + 1) := by
        rw [Nat.div_lt_iff_lt_mul (by decide), ← pow_succ]
        exact hfuel
      rw [List.cons_append, readVarintLoop, if_neg (by omega)]
      dsimp only
      rw [hbyte, hmod, if_neg hdiv, ih hfuel' hlt hrest, Nat.or_assoc, shiftLeft_split]
    next hsmall => exact readVarintLoop_last (by omega) hshift acc rest

/-- **Unsigned varints below `2 ^ 28` survive the round trip**, whatever follows them. -/
theorem readUnsignedVarint_write {value : UInt32} (h : value.toNat < 2 ^ 28) (rest : Bytes) :
    Varint.readUnsignedVarint (writeUnsignedVarint value ++ rest) = .ok value := by
  have hfuel : value.toNat < 128 ^ (4 + 1) := by omega
  rw [Varint.readUnsignedVarint, writeUnsignedVarint,
    readVarintLoop_write hfuel (by decide) (by simpa using h), Nat.zero_or, Nat.shiftLeft_zero]
  exact congrArg Except.ok value.ofNat_toNat

/-! ### What the reader makes of a buffer

The number ends at the first byte with bit 7 clear. The reader accepts the buffer when this is
one of its first four bytes, and then returns the groups up to it. -/

namespace Varint

/-- The index of the byte that ends the number at the start of a buffer: the first one with
bit 7 clear. -/
def lastIndex (buf : Bytes) : ℕ := buf.findIdx fun byte => !byte.toNat.testBit 7

/-- The number that groups of seven bits stand for, lowest group first. -/
def groupsValue (bytes : Bytes) : ℕ := Nat.ofDigits 128 (bytes.map fun byte => byte.toNat % 128)

theorem testBit_seven (byte : UInt8) : byte.toNat.testBit 7 = false ↔ byte.toNat / 128 = 0 := by
  have hlt := byte.toNat_lt
  rw [Nat.testBit_eq_decide_div_mod_eq, decide_eq_false_iff_not]
  omega

theorem lastIndex_cons_of_last {byte : UInt8} (h : byte.toNat / 128 = 0) (buf : Bytes) :
    lastIndex (byte :: buf) = 0 := by
  rw [lastIndex, List.findIdx_cons, (testBit_seven byte).mpr h]
  rfl

theorem lastIndex_cons_of_continued {byte : UInt8} (h : byte.toNat / 128 ≠ 0) (buf : Bytes) :
    lastIndex (byte :: buf) = lastIndex buf + 1 := by
  have hbit : byte.toNat.testBit 7 = true := by
    rw [← Bool.not_eq_false]
    exact mt (testBit_seven byte).mp h
  rw [lastIndex, List.findIdx_cons, hbit]
  rfl

theorem lastIndex_append {bytes : Bytes} (h : lastIndex bytes < bytes.length) (rest : Bytes) :
    lastIndex (bytes ++ rest) = lastIndex bytes := by
  rw [lastIndex, List.findIdx_append]
  exact if_pos h

theorem length_le_lastIndex_append {bytes : Bytes} (h : bytes.length ≤ lastIndex bytes)
    (rest : Bytes) : bytes.length ≤ lastIndex (bytes ++ rest) := by
  rw [lastIndex] at h ⊢
  rw [List.findIdx_append, if_neg (not_lt.mpr h)]
  exact Nat.le_add_left _ _

theorem lastIndex_take {buf : Bytes} (h : lastIndex buf < buf.length) :
    lastIndex (buf.take (lastIndex buf + 1)) = lastIndex buf := by
  have hlen : (buf.take (lastIndex buf + 1)).length = lastIndex buf + 1 :=
    List.length_take_of_le h
  have hsplit : lastIndex buf =
      lastIndex (buf.take (lastIndex buf + 1) ++ buf.drop (lastIndex buf + 1)) := by
    rw [List.take_append_drop]
  by_cases hin : lastIndex (buf.take (lastIndex buf + 1)) < lastIndex buf + 1
  · rw [← lastIndex_append (by omega) (buf.drop (lastIndex buf + 1)), ← hsplit]
  · -- otherwise the whole buffer has no such byte that early
    have hnone : (buf.take (lastIndex buf + 1)).length ≤
        lastIndex (buf.take (lastIndex buf + 1)) := by omega
    have hlate := length_le_lastIndex_append hnone (buf.drop (lastIndex buf + 1))
    omega

@[simp] theorem groupsValue_cons (byte : UInt8) (bytes : Bytes) :
    groupsValue (byte :: bytes) = byte.toNat % 128 + 128 * groupsValue bytes := by
  rw [groupsValue, List.map_cons, Nat.ofDigits_cons]
  rfl

theorem groupsValue_lt (bytes : Bytes) : groupsValue bytes < 128 ^ bytes.length := by
  have hdigit : ∀ d ∈ bytes.map fun byte => byte.toNat % 128, d < 128 := by
    intro d hd
    obtain ⟨byte, -, rfl⟩ := List.mem_map.mp hd
    exact Nat.mod_lt _ (by decide)
  have hlt := Nat.ofDigits_lt_base_pow_length (by decide) hdigit
  rwa [List.length_map] at hlt

/-- Four groups have 28 bits. -/
theorem groupsValue_take_lt {n : ℕ} (hn : n ≤ 4) (buf : Bytes) :
    groupsValue (buf.take n) < 2 ^ 28 := by
  have hlen : (buf.take n).length ≤ 4 := (List.length_take_le n buf).trans hn
  calc groupsValue (buf.take n) < 128 ^ (buf.take n).length := groupsValue_lt _
    _ ≤ 128 ^ 4 := Nat.pow_le_pow_right (by decide) hlen
    _ = 2 ^ 28 := by decide

end Varint

open Varint

/-- The loop, started with an accumulator of `shift` bits. -/
theorem readVarintLoop_eq {acc shift : ℕ} (hacc : acc < 2 ^ shift) (buf : Bytes) :
    readVarintLoop buf acc shift =
      if lastIndex buf < buf.length ∧ shift + 7 * lastIndex buf < 28 then
        .ok (acc + 2 ^ shift * groupsValue (buf.take (lastIndex buf + 1)))
      else .error .messageSize := by
  induction buf generalizing acc shift with
  | nil => rfl
  | cons byte buf ih =>
    rw [readVarintLoop]
    split
    next hshift => rw [if_neg (by omega)]
    next hshift =>
      -- the new group lies above the bits that are there
      have hor : acc ||| (byte.toNat % 128) <<< shift = acc + 2 ^ shift * (byte.toNat % 128) := by
        rw [Nat.or_comm, ← Nat.shiftLeft_add_eq_or_of_lt hacc, Nat.shiftLeft_eq, Nat.add_comm,
          Nat.mul_comm]
      dsimp only
      rw [hor]
      split
      next hlast =>
        rw [lastIndex_cons_of_last hlast, if_pos ⟨by simp, by omega⟩]
        simp [groupsValue]
      next hlast =>
        have hacc' : acc + 2 ^ shift * (byte.toNat % 128) < 2 ^ (shift + 7) := by
          have hmod : byte.toNat % 128 ≤ 127 := by omega
          have hmul := Nat.mul_le_mul_left (2 ^ shift) hmod
          rw [pow_add]
          omega
        have hcond : (lastIndex buf + 1 < (byte :: buf).length ∧
            shift + 7 * (lastIndex buf + 1) < 28) ↔
            (lastIndex buf < buf.length ∧ shift + 7 + 7 * lastIndex buf < 28) := by
          rw [List.length_cons]
          omega
        have hvalue : acc + 2 ^ shift * (byte.toNat % 128) +
            2 ^ (shift + 7) * groupsValue (buf.take (lastIndex buf + 1)) = acc + 2 ^ shift *
              groupsValue ((byte :: buf).take (lastIndex buf + 1 + 1)) := by
          rw [List.take_succ_cons, groupsValue_cons, pow_add]
          ring
        simp only [ih hacc', lastIndex_cons_of_continued hlast, hcond, hvalue]

/-- **What the reader accepts, and what it returns.** -/
theorem readUnsignedVarint_eq_ok_iff {buf : Bytes} {v : UInt32} :
    Varint.readUnsignedVarint buf = .ok v ↔ lastIndex buf < buf.length ∧ lastIndex buf < 4 ∧
      v.toNat = groupsValue (buf.take (lastIndex buf + 1)) := by
  rw [Varint.readUnsignedVarint, readVarintLoop_eq (by decide)]
  by_cases h : lastIndex buf < buf.length ∧ 0 + 7 * lastIndex buf < 28
  · obtain ⟨hlast, hfour⟩ := h
    have hlt : groupsValue (buf.take (lastIndex buf + 1)) < 2 ^ 28 :=
      groupsValue_take_lt (by omega) buf
    have hnat : (UInt32.ofNat (groupsValue (buf.take (lastIndex buf + 1)))).toNat =
        groupsValue (buf.take (lastIndex buf + 1)) :=
      UInt32.toNat_ofNat_of_lt' (hlt.trans (by decide))
    rw [if_pos ⟨hlast, hfour⟩, Nat.zero_add, pow_zero, Nat.one_mul]
    constructor
    · intro hv
      cases hv
      exact ⟨hlast, by omega, hnat⟩
    · rintro ⟨-, -, hv⟩
      exact congrArg Except.ok (UInt32.toNat_inj.mp (hnat.trans hv.symm))
  · rw [if_neg h]
    constructor
    · intro hv
      cases hv
    · rintro ⟨hlast, hfour, -⟩
      exact absurd ⟨hlast, by omega⟩ h

/-- The result depends only on the bytes up to the one that ends the number. -/
theorem readUnsignedVarint_of_take {buf buf' : Bytes} {v : UInt32}
    (h : Varint.readUnsignedVarint buf = .ok v)
    (htake : buf'.take (lastIndex buf + 1) = buf.take (lastIndex buf + 1)) :
    Varint.readUnsignedVarint buf' = .ok v := by
  obtain ⟨hlast, hfour, hv⟩ := Iff.mp readUnsignedVarint_eq_ok_iff h
  have hlen : (buf.take (lastIndex buf + 1)).length = lastIndex buf + 1 :=
    List.length_take_of_le hlast
  have hlen' := congrArg List.length htake
  rw [hlen, List.length_take] at hlen'
  have hsame : lastIndex buf' = lastIndex buf := by
    rw [← List.take_append_drop (lastIndex buf + 1) buf', htake,
      lastIndex_append (by rw [lastIndex_take hlast]; omega), lastIndex_take hlast]
  rw [readUnsignedVarint_eq_ok_iff, hsame, htake]
  exact ⟨by omega, hfour, hv⟩

/-! ### Minimal sizes -/

theorem varintSizeLoop_le_iff {fuel value k : ℕ} (h : value < 128 ^ fuel) :
    varintSizeLoop fuel value ≤ k ↔ value < 128 ^ k := by
  induction fuel generalizing value k with
  | zero =>
    obtain rfl : value = 0 := by omega
    exact ⟨fun _ => by positivity, fun _ => Nat.zero_le k⟩
  | succ fuel ih =>
    have hdiv : ∀ j, value / 128 < 128 ^ j ↔ value < 128 ^ (j + 1) := by
      intro j
      rw [Nat.div_lt_iff_lt_mul (by decide), ← pow_succ]
    rw [varintSizeLoop]
    split
    next hpos =>
      cases k with
      | zero =>
        rw [pow_zero]
        omega
      | succ k => rw [Nat.succ_le_succ_iff, ih ((hdiv fuel).mpr h), hdiv]
    next hzero =>
      obtain rfl : value = 0 := by omega
      exact ⟨fun _ => by positivity, fun _ => Nat.zero_le k⟩

/-- `k` bytes are enough for a number of `k` groups, and for no larger one. -/
theorem varintEncodedSize_le_iff {value : UInt32} {k : ℕ} (hk : 0 < k) :
    varintEncodedSize value ≤ k ↔ value.toNat < 128 ^ k := by
  have hlt : value.toNat < 2 ^ 32 := value.toNat_lt
  rw [varintEncodedSize]
  split
  next hzero =>
    subst hzero
    exact ⟨fun _ => by positivity, fun _ => hk⟩
  next => exact varintSizeLoop_le_iff (by norm_num; omega)

/-- One byte is enough below `128`. -/
theorem varintEncodedSize_le_one {value : UInt32} :
    varintEncodedSize value ≤ 1 ↔ value.toNat < 128 :=
  varintEncodedSize_le_iff (by decide)

theorem varintEncodedSize_pos (value : UInt32) : 0 < varintEncodedSize value := by
  rw [← length_writeUnsignedVarint, writeUnsignedVarint, writeVarintLoop]
  split
  · simp
  · simp

/-- A number has no smaller encoding than the one it was read from. -/
theorem varintEncodedSize_le_of_read {buf : Bytes} {v : UInt32}
    (h : Varint.readUnsignedVarint buf = .ok v) : varintEncodedSize v ≤ lastIndex buf + 1 := by
  obtain ⟨hlast, -, hv⟩ := Iff.mp readUnsignedVarint_eq_ok_iff h
  rw [varintEncodedSize_le_iff (by omega), hv]
  have hlt := groupsValue_lt (buf.take (lastIndex buf + 1))
  rwa [List.length_take_of_le hlast] at hlt

/-! ### What a successful read depends on -/

/-- **A varint is read from its own bytes**: the value does not depend on what follows, and
its minimal encoding is no longer than the buffer. -/
theorem readUnsignedVarint_local {buf : Bytes} {v : UInt32}
    (h : Varint.readUnsignedVarint buf = .ok v) :
    (∀ more, Varint.readUnsignedVarint (buf ++ more) = .ok v) ∧
      varintEncodedSize v ≤ buf.length := by
  obtain ⟨hlast, -, -⟩ := Iff.mp readUnsignedVarint_eq_ok_iff h
  refine ⟨fun more => readUnsignedVarint_of_take h ?_, ?_⟩
  · exact List.take_append_of_le_length hlast
  · exact (varintEncodedSize_le_of_read h).trans hlast

/-- **What `read_compact_string` accepts, and what it returns.** -/
theorem readCompactString_eq_ok_iff {buf sv : Bytes} :
    Varint.readCompactString buf = .ok sv ↔ ∃ len, Varint.readUnsignedVarint buf = .ok len ∧
      ¬ len < 1 ∧ varintEncodedSize len + (len - 1).toNat ≤ buf.length ∧
        sv = (buf.drop (varintEncodedSize len)).take (len - 1).toNat := by
  rw [Varint.readCompactString]
  constructor
  · intro h
    split at h
    next => cases h
    next =>
      split at h
      next => cases h
      next len hread =>
        dsimp only at h
        split at h
        next => cases h
        next hlen =>
          split at h
          next => cases h
          next hroom => exact ⟨len, hread, hlen, not_lt.mp hroom, (Except.ok.inj h).symm⟩
  · rintro ⟨len, hread, hlen, hroom, rfl⟩
    have hbuf : buf ≠ [] := by
      rintro rfl
      cases hread
    rw [if_neg hbuf, hread]
    dsimp only
    rw [if_neg hlen, if_neg (not_lt.mpr hroom)]

/-- The length varint of a compact string, from the string. -/
theorem length_of_readCompactString {buf : Bytes} {len : UInt32}
    (hroom : varintEncodedSize len + (len - 1).toNat ≤ buf.length) :
    UInt32.ofNat ((buf.drop (varintEncodedSize len)).take (len - 1).toNat).length + 1 = len := by
  rw [List.length_take_of_le (by rw [List.length_drop]; omega), UInt32.ofNat_toNat,
    UInt32.sub_add_cancel]

/-- The same for compact strings. -/
theorem readCompactString_local {buf sv : Bytes} (h : Varint.readCompactString buf = .ok sv) :
    (∀ more, Varint.readCompactString (buf ++ more) = .ok sv) ∧
      varintEncodedSize (UInt32.ofNat sv.length + 1) + sv.length ≤ buf.length := by
  obtain ⟨len, hread, hlen, hroom, rfl⟩ := Iff.mp readCompactString_eq_ok_iff h
  constructor
  · intro more
    rw [readCompactString_eq_ok_iff]
    refine ⟨len, (readUnsignedVarint_local hread).1 more, hlen, ?_, ?_⟩
    · rw [List.length_append]
      omega
    · rw [List.drop_append_of_le_length (by omega), List.take_append_of_le_length]
      rw [List.length_drop]
      omega
  · rw [length_of_readCompactString hroom]
    exact (Nat.add_le_add_left (List.length_take_le _ _) _).trans hroom

/-! ### Zigzag -/

/-- The arithmetic shift by 31 spreads the sign bit. -/
private theorem getElem_sshiftRight_31 (w : BitVec 32) (i : ℕ) (hi : i < 32) :
    (w.sshiftRight 31)[i] = w.msb := by
  rw [BitVec.getElem_sshiftRight, BitVec.msb_eq_getLsbD_last]
  split
  next h =>
    obtain rfl : i = 0 := by omega
    rfl
  next => rfl

/-- The negation of the low bit spreads it. -/
private theorem getElem_neg_and_one (e : BitVec 32) (i : ℕ) (hi : i < 32) :
    (-(e &&& 1#32))[i] = e[0] := by
  have hbit : e &&& 1#32 = (BitVec.ofBool e[0]).setWidth 32 :=
    BitVec.and_one_eq_setWidth_ofBool_getLsbD
  rw [hbit]
  generalize e[0] = low
  cases low with
  | true =>
    have hones : -(BitVec.ofBool true).setWidth 32 = BitVec.allOnes 32 := by decide
    rw [hones, BitVec.getElem_allOnes]
  | false =>
    have hzero : -(BitVec.ofBool false).setWidth 32 = 0#32 := by decide
    rw [hzero, BitVec.getElem_zero]

theorem toBitVec_zigzagEncode (w : Int32) :
    (zigzagEncode w).toBitVec = (w.toBitVec <<< 1) ^^^ (w.toBitVec.sshiftRight 31) := rfl

theorem toBitVec_zigzagDecode (e : UInt32) :
    (zigzagDecode e).toBitVec = (e.toBitVec >>> 1) ^^^ -(e.toBitVec &&& 1#32) := rfl

@[simp] theorem zigzagDecode_zigzagEncode (w : Int32) : zigzagDecode (zigzagEncode w) = w := by
  refine Int32.toBitVec_inj.mp ?_
  rw [toBitVec_zigzagDecode, toBitVec_zigzagEncode]
  ext i hi
  rw [BitVec.getElem_xor, getElem_neg_and_one, BitVec.getElem_xor, getElem_sshiftRight_31]
  by_cases h : i = 31
  · subst h
    simp [BitVec.msb_eq_getLsbD_last]
  · have hlt : 1 + i < 32 := by omega
    rw [BitVec.getElem_ushiftRight, BitVec.getLsbD_eq_getElem hlt, BitVec.getElem_xor,
      getElem_sshiftRight_31, BitVec.getElem_shiftLeft, BitVec.getElem_shiftLeft]
    simp

@[simp] theorem zigzagEncode_zigzagDecode (e : UInt32) : zigzagEncode (zigzagDecode e) = e := by
  refine UInt32.toBitVec_inj.mp ?_
  -- the sign of the decoded number is the low bit of `e`
  have hmsb : (zigzagDecode e).toBitVec.msb = e.toBitVec[0] := by
    rw [BitVec.msb_eq_getLsbD_last, BitVec.getLsbD_eq_getElem (by decide), toBitVec_zigzagDecode,
      BitVec.getElem_xor, getElem_neg_and_one]
    simp
  rw [toBitVec_zigzagEncode]
  ext i hi
  rw [BitVec.getElem_xor, getElem_sshiftRight_31, hmsb, BitVec.getElem_shiftLeft]
  by_cases h : i = 0
  · subst h
    simp
  · have hi' : 1 + (i - 1) = i := by omega
    simp only [toBitVec_zigzagDecode]
    rw [BitVec.getElem_xor, getElem_neg_and_one, BitVec.getElem_ushiftRight, hi',
      BitVec.getLsbD_eq_getElem hi]
    simp [h]

/-- A non-negative number is encoded as its double. -/
theorem toNat_zigzagEncode {w : Int32} (h : 0 ≤ w.toInt) :
    (zigzagEncode w).toNat = 2 * w.toInt.toNat := by
  have hmsb : w.toBitVec.msb = false := by
    rw [BitVec.msb_eq_toInt]
    simpa using h
  have hsign : w.toBitVec.sshiftRight 31 = 0#32 := by
    ext i hi
    rw [getElem_sshiftRight_31, hmsb, BitVec.getElem_zero]
  have hbits : (zigzagEncode w).toNat = (zigzagEncode w).toBitVec.toNat := rfl
  have hint : w.toInt = w.toBitVec.toNat := by
    rw [← Int32.toInt_toBitVec, BitVec.toInt_eq_toNat_of_msb hmsb]
  have hlt := BitVec.toNat_lt_of_msb_false hmsb
  rw [hbits, toBitVec_zigzagEncode, hsign, BitVec.xor_zero, BitVec.toNat_shiftLeft, hint]
  simp only [Nat.shiftLeft_eq, Int.toNat_natCast]
  omega

/-- The negative numbers fill the gaps. -/
theorem toNat_zigzagEncode_of_neg {w : Int32} (h : w.toInt < 0) :
    (zigzagEncode w).toNat = 2 * (-w.toInt).toNat - 1 := by
  have hmsb : w.toBitVec.msb = true := by
    rw [BitVec.msb_eq_toInt]
    simpa using h
  have hsign : w.toBitVec.sshiftRight 31 = BitVec.allOnes 32 := by
    ext i hi
    rw [getElem_sshiftRight_31, hmsb, BitVec.getElem_allOnes]
  have hbits : (zigzagEncode w).toNat = (zigzagEncode w).toBitVec.toNat := rfl
  have hint : w.toInt = (w.toBitVec.toNat : ℤ) - 2 ^ 32 := by
    rw [← Int32.toInt_toBitVec, BitVec.toInt_eq_msb_cond, hmsb]
    rfl
  have hlt := w.toBitVec.isLt
  have hge := BitVec.toNat_ge_of_msb_true hmsb
  rw [hbits, toBitVec_zigzagEncode, hsign, BitVec.xor_allOnes, BitVec.toNat_not,
    BitVec.toNat_shiftLeft, hint]
  simp only [Nat.shiftLeft_eq]
  omega

/-- Numbers of small magnitude have small encodings. -/
theorem toNat_zigzagEncode_lt {w : Int32} {k : ℕ} (h : w.toInt.natAbs < k) :
    (zigzagEncode w).toNat < 2 * k := by
  by_cases hw : 0 ≤ w.toInt
  · rw [toNat_zigzagEncode hw]
    omega
  · rw [toNat_zigzagEncode_of_neg (by omega)]
    omega

@[simp] theorem length_writeSignedVarint (value : Int32) :
    (writeSignedVarint value).length = signedVarintEncodedSize value :=
  length_writeUnsignedVarint _

/-- Signed varints survive the round trip when their zigzag encoding is below `2 ^ 28`. -/
theorem readSignedVarint_write {value : Int32} (h : (zigzagEncode value).toNat < 2 ^ 28)
    (rest : Bytes) : Varint.readSignedVarint (writeSignedVarint value ++ rest) = .ok value := by
  rw [Varint.readSignedVarint, writeSignedVarint, readUnsignedVarint_write h]
  exact congrArg Except.ok (zigzagDecode_zigzagEncode value)

end TinyKafka

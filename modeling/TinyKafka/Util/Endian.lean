import TinyKafka.ForMathlib.FixedDigits
import TinyKafka.Util.Bytes

/-!
# Big-endian integers

`write_int16_be` and its siblings store the two's complement bits of a signed integer, most
significant byte first; `decode_int16_be` and its siblings read them back.
-/

namespace TinyKafka

/-- The `n` bytes of `bits`, most significant byte first: `out[k] = (bits >> 8*(n-1-k)) & 0xFF`. -/
def writeBe (n bits : ℕ) : Bytes := (Nat.fixedDigits 256 n bits).map UInt8.ofNat

/-- The number whose bytes these are, most significant byte first. -/
def decodeBe (bs : Bytes) : ℕ := Nat.ofDigits 256 (bs.map UInt8.toNat).reverse

/-- `write_int16_be`. -/
def writeInt16Be (v : Int16) : Bytes := writeBe 2 v.toUInt16.toNat

/-- `write_int32_be`. -/
def writeInt32Be (v : Int32) : Bytes := writeBe 4 v.toUInt32.toNat

/-- `write_int64_be`. -/
def writeInt64Be (v : Int64) : Bytes := writeBe 8 v.toUInt64.toNat

/-- `decode_int16_be`. -/
def decodeInt16Be (bs : Bytes) : Int16 := (UInt16.ofNat (decodeBe bs)).toInt16

/-- `decode_int32_be`. -/
def decodeInt32Be (bs : Bytes) : Int32 := (UInt32.ofNat (decodeBe bs)).toInt32

/-- `decode_int64_be`. -/
def decodeInt64Be (bs : Bytes) : Int64 := (UInt64.ofNat (decodeBe bs)).toInt64

@[simp] theorem length_writeBe (n bits : ℕ) : (writeBe n bits).length = n := by
  rw [writeBe, List.length_map, Nat.length_fixedDigits]

theorem decodeBe_writeBe (n bits : ℕ) : decodeBe (writeBe n bits) = bits % 256 ^ n := by
  have hmap : (writeBe n bits).map UInt8.toNat = Nat.fixedDigits 256 n bits := by
    rw [writeBe, List.map_map]
    conv_rhs => rw [← List.map_id (Nat.fixedDigits 256 n bits)]
    refine List.map_congr_left fun d hd => ?_
    exact Nat.mod_eq_of_lt (Nat.lt_of_mem_fixedDigits (by decide) hd)
  rw [decodeBe, hmap, Nat.ofDigits_reverse_fixedDigits]

@[simp] theorem length_writeInt16Be (v : Int16) : (writeInt16Be v).length = 2 :=
  length_writeBe _ _

@[simp] theorem length_writeInt32Be (v : Int32) : (writeInt32Be v).length = 4 :=
  length_writeBe _ _

@[simp] theorem length_writeInt64Be (v : Int64) : (writeInt64Be v).length = 8 :=
  length_writeBe _ _

/-- The decoders undo the writers. -/
@[simp] theorem decodeInt16Be_writeInt16Be (v : Int16) : decodeInt16Be (writeInt16Be v) = v := by
  have hlt : v.toUInt16.toNat < 256 ^ 2 := v.toUInt16.toNat_lt
  rw [decodeInt16Be, writeInt16Be, decodeBe_writeBe, Nat.mod_eq_of_lt hlt, UInt16.ofNat_toNat]
  exact Int16.toInt16_toUInt16 v

@[simp] theorem decodeInt32Be_writeInt32Be (v : Int32) : decodeInt32Be (writeInt32Be v) = v := by
  have hlt : v.toUInt32.toNat < 256 ^ 4 := v.toUInt32.toNat_lt
  rw [decodeInt32Be, writeInt32Be, decodeBe_writeBe, Nat.mod_eq_of_lt hlt, UInt32.ofNat_toNat]
  exact Int32.toInt32_toUInt32 v

@[simp] theorem decodeInt64Be_writeInt64Be (v : Int64) : decodeInt64Be (writeInt64Be v) = v := by
  have hlt : v.toUInt64.toNat < 256 ^ 8 := v.toUInt64.toNat_lt
  rw [decodeInt64Be, writeInt64Be, decodeBe_writeBe, Nat.mod_eq_of_lt hlt, UInt64.ofNat_toNat]
  exact Int64.toInt64_toUInt64 v

theorem writeBe_decodeBe (bs : Bytes) : writeBe bs.length (decodeBe bs) = bs := by
  have hdigits := Nat.fixedDigits_ofDigits_reverse (b := 256) (by decide)
    (l := bs.map UInt8.toNat) fun d hd => by
      obtain ⟨x, -, rfl⟩ := List.mem_map.mp hd
      exact x.toNat_lt
  rw [List.length_map] at hdigits
  rw [writeBe, decodeBe, hdigits, List.map_map]
  conv_rhs => rw [← List.map_id bs]
  exact List.map_congr_left fun x _ => UInt8.ofNat_toNat

/-- Four bytes are what is written for the number they stand for. -/
theorem writeInt32Be_decodeInt32Be {bs : Bytes} (h : bs.length = 4) :
    writeInt32Be (decodeInt32Be bs) = bs := by
  have hlt : decodeBe bs < 2 ^ 32 := by
    rw [← writeBe_decodeBe bs, decodeBe_writeBe, h]
    exact Nat.mod_lt _ (by decide)
  rw [writeInt32Be, decodeInt32Be, UInt32.toUInt32_toInt32, UInt32.toNat_ofNat_of_lt' hlt, ← h,
    writeBe_decodeBe]

example : writeInt32Be (-2) = [255, 255, 255, 254] := by decide

end TinyKafka

import TinyKafka.ForMathlib.Buffer
import TinyKafka.Util.Endian
import TinyKafka.Util.Varint

/-!
# ByteWriter

The cursor the serializer fills its buffers with. Every operation asserts that its bytes fit,
except `write_varint`, which relies on the caller for that; here a write without room fails,
in either case.

For each operation there is one lemma that says how many bytes it writes and that its
argument can be read off them, whatever follows (`Encodes`). The lengths of strings and lists
go through a `uint32_t`, which is why codes of `2 ^ 32 - 1` bytes and more are left out.
-/

namespace TinyKafka

/-- Computations on a `ByteWriter`. -/
abbrev Writer := BufferM UInt8

namespace ByteWriter

open BufferM

/-- `write_int8`. -/
def writeInt8 (value : UInt8) : Writer Unit := put [value]

/-- `write_int16`. -/
def writeInt16 (value : Int16) : Writer Unit := put (writeInt16Be value)

/-- `write_int32`. -/
def writeInt32 (value : Int32) : Writer Unit := put (writeInt32Be value)

/-- `write_int64`. -/
def writeInt64 (value : Int64) : Writer Unit := put (writeInt64Be value)

/-- `write_bytes`. -/
def writeBytes (data : Bytes) : Writer Unit := put data

/-- `write_varint`. -/
def writeVarint (value : UInt32) : Writer Unit := put (writeUnsignedVarint value)

/-- `write_compact_string`. -/
def writeCompactString (str : Bytes) : Writer Unit := do
  writeVarint (UInt32.ofNat str.length + 1)
  writeBytes str

/-! ### What the operations write -/

/-- The writers `w a` write `size a` bytes, which determine `key a`. -/
abbrev Encodes {α κ : Type} (w : α → Writer Unit) (size : α → ℕ) (key : α → κ) : Prop :=
  Codes (2 ^ 32 - 1) w size key

/-- The integers of fixed width. -/
theorem encodes_fixed {α : Type} {n : ℕ} {enc : α → Bytes} (hlen : ∀ a, (enc a).length = n)
    (hinj : ∀ a b, enc a = enc b → a = b) : Encodes (fun a => put (enc a)) (fun _ => n) id :=
  ⟨enc, fun a => writes_put (enc a), hlen, .of_length hlen hinj⟩

theorem encodes_writeInt8 : Encodes writeInt8 (fun _ => 1) id :=
  encodes_fixed (fun _ => rfl) fun _ _ h => List.singleton_inj.mp h

theorem encodes_writeInt16 : Encodes writeInt16 (fun _ => 2) id :=
  encodes_fixed length_writeInt16Be fun v w h => by
    rw [← decodeInt16Be_writeInt16Be v, h, decodeInt16Be_writeInt16Be]

theorem encodes_writeInt32 : Encodes writeInt32 (fun _ => 4) id :=
  encodes_fixed length_writeInt32Be fun v w h => by
    rw [← decodeInt32Be_writeInt32Be v, h, decodeInt32Be_writeInt32Be]

theorem encodes_writeInt64 : Encodes writeInt64 (fun _ => 8) id :=
  encodes_fixed length_writeInt64Be fun v w h => by
    rw [← decodeInt64Be_writeInt64Be v, h, decodeInt64Be_writeInt64Be]

/-- A value that is a byte string of fixed length. -/
theorem encodes_writeUuid : Encodes (fun id : Uuid => writeBytes id.1) (fun _ => 16) id :=
  encodes_fixed (fun id => id.2) fun _ _ h => Subtype.ext h

theorem writes_writeVarint (value : UInt32) :
    Writes (writeVarint value) (writeUnsignedVarint value) :=
  writes_put _

theorem encodes_writeVarint : Encodes writeVarint varintEncodedSize id :=
  ⟨_, writes_writeVarint, length_writeUnsignedVarint,
    fun _ _ _ _ _ _ h => writeUnsignedVarint_append_inj h⟩

theorem writes_writeCompactString (str : Bytes) :
    Writes (writeCompactString str)
      (writeUnsignedVarint (UInt32.ofNat str.length + 1) ++ str) :=
  (writes_writeVarint _).bind (writes_put str)

/-- `static_cast<uint32_t>(n) + 1` as a count. -/
theorem countCode_succ {N : ℕ} (hN : N < 2 ^ 32) :
    CountCode N fun n => writeUnsignedVarint (UInt32.ofNat n + 1) := by
  intro n m s t hn hm h
  obtain ⟨hvalue, hst⟩ := writeUnsignedVarint_append_inj h
  have hnat := congrArg UInt32.toNat ((UInt32.add_left_inj 1).mp hvalue)
  rw [UInt32.toNat_ofNat_of_lt' (show n < 2 ^ 32 by omega),
    UInt32.toNat_ofNat_of_lt' (show m < 2 ^ 32 by omega)] at hnat
  exact ⟨hnat, hst⟩

theorem encodes_writeCompactString :
    Encodes writeCompactString
      (fun str => varintEncodedSize (UInt32.ofNat str.length + 1) + str.length) id := by
  refine ⟨_, writes_writeCompactString, fun str => ?_, .counted_string (countCode_succ (by decide))⟩
  rw [List.length_append, length_writeUnsignedVarint]

end ByteWriter

end TinyKafka

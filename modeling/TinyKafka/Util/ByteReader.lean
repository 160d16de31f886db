import TinyKafka.ForMathlib.Locality
import TinyKafka.ForMathlib.Relocation
import TinyKafka.Util.Endian
import TinyKafka.Util.Varint

/-!
# ByteReader

The cursor every decoder of the broker is written with. A failing operation leaves the
cursor where it was. The varint operations advance by the size of the *minimal* encoding of
the value they return, which is the number of bytes written for it.

For each operation there is one lemma that says what it reads (`CursorM.Reads`), one that it
depends only on the bytes it consumes (`CursorM.Local`), and one that it does not depend on
where they stand (`CursorM.Relocates`).
-/

namespace TinyKafka

/-- How decoding ends early: with an error code, or with the `std::length_error` that
`std::vector::reserve` throws. -/
inductive Failure
  | errc (e : Errc)
  | lengthError
  deriving DecidableEq, Repr

/-- The failure is an error code that is returned. -/
def Failure.IsErrc (f : Failure) : Prop := ∃ e, f = .errc e

/-- `ByteReader`: a buffer and the offset of the next byte. -/
abbrev ByteReader := Cursor UInt8

/-- Computations on a `ByteReader`. -/
abbrev Reader := CursorM UInt8 Failure

namespace ByteReader

open CursorM

/-- The operations that take `n` bytes, if there are as many, and decode them. -/
def fixed {α : Type} (n : ℕ) (decode : Bytes → α) : Reader α :=
  .ofRun fun r =>
    if r.remaining < n then (.error (.errc .messageSize), r)
    else (.ok (decode (r.rest.take n)), { r with offset := r.offset + n })

/-- `read_int8`. -/
def readInt8 : Reader UInt8 := fixed 1 fun bs => bs.headD 0

/-- `read_int16`. -/
def readInt16 : Reader Int16 := fixed 2 decodeInt16Be

/-- `read_int32`. -/
def readInt32 : Reader Int32 := fixed 4 decodeInt32Be

/-- `read_int64`. -/
def readInt64 : Reader Int64 := fixed 8 decodeInt64Be

/-- `read_bytes`. -/
def readBytes (n : ℕ) : Reader Bytes := fixed n id

/-- The operations that decode a varint and step over the minimal encoding of the result. -/
def varint {α : Type} (read : Bytes → Except Errc α) (size : α → ℕ) : Reader α :=
  .ofRun fun r =>
    match read r.rest with
    | .error e => (.error (.errc e), r)
    | .ok v => (.ok v, { r with offset := r.offset + size v })

/-- `read_varint`. -/
def readVarint : Reader UInt32 := varint Varint.readUnsignedVarint varintEncodedSize

/-- `read_signed_varint`. -/
def readSignedVarint : Reader Int32 := varint Varint.readSignedVarint signedVarintEncodedSize

/-- `skip_varint`. -/
def skipVarint : Reader Unit :=
  (fun _ => ()) <$> varint Varint.readUnsignedVarint varintEncodedSize

/-- `skip`. -/
def skip (n : ℕ) : Reader Unit := fixed n fun _ => ()

/-- `read_compact_string`. -/
def readCompactString : Reader Bytes :=
  varint Varint.readCompactString fun sv =>
    varintEncodedSize (UInt32.ofNat sv.length + 1) + sv.length

/-! ### What the operations read -/

theorem reads_fixed {α : Type} (decode : Bytes → α) (bs : Bytes) :
    Reads (fixed bs.length decode) bs (decode bs) := by
  intro pre post
  have hroom : ¬ Cursor.remaining ⟨pre ++ (bs ++ post), pre.length⟩ < bs.length := by
    simp only [Cursor.remaining, List.length_append]
    omega
  rw [fixed, runOn_ofRun, if_neg hroom, Cursor.rest_append, List.take_left]

theorem reads_varint {α : Type} {read : Bytes → Except Errc α} {size : α → ℕ} {bs : Bytes}
    {v : α} (hread : ∀ post, read (bs ++ post) = .ok v) (hsize : size v = bs.length) :
    Reads (varint read size) bs v := by
  intro pre post
  rw [varint, runOn_ofRun, Cursor.rest_append, hread, ← hsize]

theorem reads_readInt8 (b : UInt8) : Reads readInt8 [b] b := reads_fixed _ [b]

theorem reads_readInt16 (v : Int16) : Reads readInt16 (writeInt16Be v) v := by
  have h := reads_fixed decodeInt16Be (writeInt16Be v)
  rwa [length_writeInt16Be, decodeInt16Be_writeInt16Be] at h

theorem reads_readInt32 (v : Int32) : Reads readInt32 (writeInt32Be v) v := by
  have h := reads_fixed decodeInt32Be (writeInt32Be v)
  rwa [length_writeInt32Be, decodeInt32Be_writeInt32Be] at h

theorem reads_readInt64 (v : Int64) : Reads readInt64 (writeInt64Be v) v := by
  have h := reads_fixed decodeInt64Be (writeInt64Be v)
  rwa [length_writeInt64Be, decodeInt64Be_writeInt64Be] at h

theorem reads_readBytes (bs : Bytes) : Reads (readBytes bs.length) bs bs := reads_fixed id bs

theorem reads_readVarint {v : UInt32} (h : v.toNat < 2 ^ 28) :
    Reads readVarint (writeUnsignedVarint v) v :=
  reads_varint (readUnsignedVarint_write h) (length_writeUnsignedVarint v).symm

theorem reads_skip {bs : Bytes} {n : ℕ} (h : bs.length = n) : Reads (skip n) bs () := by
  subst h
  exact reads_fixed _ bs

/-- The length of a compact string, as the reader recomputes it from the string. -/
theorem ofNat_length_add_one (bs : Bytes) :
    UInt32.ofNat bs.length + 1 = UInt32.ofNat (bs.length + 1) :=
  (UInt32.ofNat_add bs.length 1).symm

theorem reads_readCompactString {bs : Bytes} (h : bs.length < 2 ^ 28 - 1) :
    Reads readCompactString (writeUnsignedVarint (UInt32.ofNat (bs.length + 1)) ++ bs) bs := by
  have hlen : (UInt32.ofNat (bs.length + 1)).toNat = bs.length + 1 :=
    UInt32.toNat_ofNat_of_lt' (show bs.length + 1 < 2 ^ 32 by omega)
  refine reads_varint (fun post => ?_) ?_
  · have hone : ¬ UInt32.ofNat (bs.length + 1) < 1 := by
      rw [UInt32.lt_iff_toNat_lt, hlen]
      simp
    have hstr : (UInt32.ofNat (bs.length + 1) - 1).toNat = bs.length := by
      rw [← ofNat_length_add_one, UInt32.add_sub_cancel]
      exact UInt32.toNat_ofNat_of_lt' (show bs.length < 2 ^ 32 by omega)
    rw [List.append_assoc, readCompactString_eq_ok_iff]
    refine ⟨_, readUnsignedVarint_write (by omega) _, hone, ?_, ?_⟩
    · rw [hstr, List.length_append, List.length_append, length_writeUnsignedVarint]
      omega
    · rw [hstr, ← length_writeUnsignedVarint, List.drop_left, List.take_left]
  · rw [ofNat_length_add_one, List.length_append, length_writeUnsignedVarint]

theorem reads_readSignedVarint {v : Int32} (h : (zigzagEncode v).toNat < 2 ^ 28) :
    Reads readSignedVarint (writeSignedVarint v) v :=
  reads_varint (readSignedVarint_write h) (length_writeSignedVarint v).symm

/-! ### How the operations fail -/

/-- A read that is followed by something succeeds on the bytes that it needs. -/
theorem runOn_fixed_bind_eq_ok {α γ : Type} {n : ℕ} (hn : 0 < n) {decode : Bytes → α}
    {f : α → Reader γ} {data : Bytes} {o : ℕ} {b : γ} {c : ByteReader} :
    (fixed n decode >>= f).runOn ⟨data, o⟩ = (.ok b, c) ↔
      o + n ≤ data.length ∧
        (f (decode ((data.drop o).take n))).runOn ⟨data, o + n⟩ = (.ok b, c) := by
  rw [runOn_bind, fixed, runOn_ofRun, Cursor.remaining, Cursor.rest]
  by_cases hroom : data.length - o < n
  · simp only [if_pos hroom, Prod.mk.injEq, reduceCtorEq, false_and, false_iff, not_and]
    omega
  · simp only [if_neg hroom]
    exact ⟨fun h => ⟨by omega, h⟩, And.right⟩

theorem failsWith_fixed {α : Type} (n : ℕ) (decode : Bytes → α) :
    FailsWith Failure.IsErrc (fixed n decode) := by
  intro c f h
  rw [fixed, runOn_ofRun] at h
  split at h
  · cases h
    exact ⟨_, rfl⟩
  · cases h

theorem failsWith_varint {α : Type} (read : Bytes → Except Errc α) (size : α → ℕ) :
    FailsWith Failure.IsErrc (varint read size) := by
  intro c f h
  rw [varint, runOn_ofRun] at h
  split at h
  · cases h
    exact ⟨_, rfl⟩
  · cases h

/-! ### What the operations depend on -/

theorem agrees_fixed {α : Type} (n : ℕ) (decode : Bytes → α) :
    Agrees 0 n (fixed n decode) (fixed n decode) := by
  intro short more o a c ho hrun
  rw [fixed, runOn_ofRun] at hrun
  split at hrun
  next =>
    cases hrun
  next hroom =>
    simp only [Cursor.remaining] at hroom
    obtain ⟨ha, rfl⟩ := Prod.mk.inj hrun
    refine ⟨rfl, Nat.le_refl _, by dsimp only; omega, .inl ?_⟩
    have hroom' : ¬ Cursor.remaining ⟨short ++ more, o⟩ < n := by
      simp only [Cursor.remaining, List.length_append]
      omega
    -- the bytes that are decoded lie in the short buffer
    have hbytes : (Cursor.rest ⟨short ++ more, o⟩).take n = (Cursor.rest ⟨short, o⟩).take n := by
      rw [Cursor.rest, Cursor.rest, List.drop_append_of_le_length ho,
        List.take_append_of_le_length (by rw [List.length_drop]; omega)]
    rw [fixed, runOn_ofRun, if_neg hroom', hbytes, ha]

theorem agrees_varint {α : Type} {read : Bytes → Except Errc α} {size : α → ℕ}
    (hread : ∀ buf v, read buf = .ok v →
      (∀ more, read (buf ++ more) = .ok v) ∧ size v ≤ buf.length)
    (hpos : ∀ v, 0 < size v) : Agrees 0 1 (varint read size) (varint read size) := by
  intro short more o a c ho hrun
  rw [varint, runOn_ofRun] at hrun
  split at hrun
  next => cases hrun
  next v hv =>
    obtain ⟨ha, rfl⟩ := Prod.mk.inj hrun
    obtain rfl : v = a := Except.ok.inj ha
    obtain ⟨hmore, hsize⟩ := hread _ v hv
    have hrest : Cursor.rest ⟨short ++ more, o⟩ = Cursor.rest ⟨short, o⟩ ++ more :=
      List.drop_append_of_le_length ho
    have hlength : (Cursor.rest ⟨short, o⟩).length = short.length - o := List.length_drop
    have hv_pos := hpos v
    refine ⟨rfl, by dsimp only; omega, by dsimp only; omega, .inl ?_⟩
    rw [varint, runOn_ofRun, hrest, hmore more]

theorem agrees_readVarint : Agrees 0 1 readVarint readVarint :=
  agrees_varint (fun _ _ h => readUnsignedVarint_local h) varintEncodedSize_pos

theorem local_readVarint : Local readVarint := agrees_readVarint.local

theorem local_readCompactString : Local readCompactString := by
  refine (agrees_varint (fun _ _ h => readCompactString_local h) fun sv => ?_).local
  exact Nat.add_pos_left (varintEncodedSize_pos _) _

theorem local_readInt8 : Local readInt8 := (agrees_fixed 1 _).local

theorem local_readInt16 : Local readInt16 := (agrees_fixed 2 _).local

theorem local_readInt32 : Local readInt32 := (agrees_fixed 4 _).local

theorem local_readInt64 : Local readInt64 := (agrees_fixed 8 _).local

theorem local_readBytes (n : ℕ) : Local (readBytes n) := (agrees_fixed n _).local

theorem local_skip (n : ℕ) : Local (skip n) := (agrees_fixed n _).local

/-! ### Where the operations stand -/

section Relocation

variable {o o' : ℕ}

theorem relocates_fixed {α : Type} (n : ℕ) (decode : Bytes → α) :
    Relocates o o' Eq (fixed n decode) (fixed n decode) := by
  rintro pre pre' rest k rfl rfl
  simp only [fixed, runOn_ofRun, Cursor.remaining_append_add, Cursor.rest_append_add]
  by_cases hroom : rest.length - k < n
  · simp only [if_pos hroom]
    refine ⟨_, _, k, Nat.le_refl k, ?_, rfl, rfl⟩
    rfl
  · simp only [if_neg hroom, Nat.add_assoc]
    refine ⟨_, _, k + n, Nat.le_add_right k n, ?_, rfl, rfl⟩
    rfl

theorem relocates_varint {α : Type} (read : Bytes → Except Errc α) (size : α → ℕ) :
    Relocates o o' Eq (varint read size) (varint read size) := by
  rintro pre pre' rest k rfl rfl
  simp only [varint, runOn_ofRun, Cursor.rest_append_add]
  rcases read (rest.drop k) with e | v
  · refine ⟨_, _, k, Nat.le_refl k, ?_, rfl, rfl⟩
    rfl
  · simp only [Nat.add_assoc]
    refine ⟨_, _, k + size v, Nat.le_add_right k _, ?_, rfl, rfl⟩
    rfl

end Relocation

end ByteReader

end TinyKafka

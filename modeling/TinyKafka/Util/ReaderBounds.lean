import TinyKafka.ForMathlib.Machine
import TinyKafka.Util.VarintLanguage

/-!
# Where a ByteReader can get to

The fixed-size operations check that their bytes are there. The varint operations do not: they
advance by a size that is recomputed from the value. The offset still never leaves the buffer,
since a value has no smaller encoding than the one it was decoded from
(`staysInside_exec`, over any sequence of operations).

It may be left too early, though. `ConsumesDecoded` says that the operations step over the
bytes that were decoded; this is so when the encoding is the minimal one
(`consumesDecoded_iff`), and otherwise the next read starts inside the number.
-/

namespace TinyKafka

open CursorM

/-! ### The bytes that the decoding loop examines -/

namespace Varint

/-- How many bytes the loop of `read_unsigned_varint` looks at. -/
def examinedLoop : Bytes → (shift : ℕ) → ℕ
  | [], _ => 0
  | byte :: buf, shift =>
    -- the byte is fetched before the limit is checked
    if shift ≥ 28 then 1
    else if byte.toNat / 128 = 0 then 1
    else examinedLoop buf (shift + 7) + 1

/-- How many bytes `read_unsigned_varint` looks at. -/
def examined (buf : Bytes) : ℕ := examinedLoop buf 0

theorem examinedLoop_le (buf : Bytes) (shift : ℕ) : examinedLoop buf shift ≤ buf.length := by
  induction buf generalizing shift with
  | nil => rfl
  | cons byte buf ih =>
    have hrest := ih (shift + 7)
    rw [examinedLoop, List.length_cons]
    split
    · omega
    · split <;> omega

theorem examinedLoop_eq {buf : Bytes} {shift : ℕ} (hlast : lastIndex buf < buf.length)
    (hshift : shift + 7 * lastIndex buf < 28) : examinedLoop buf shift = lastIndex buf + 1 := by
  induction buf generalizing shift with
  | nil => cases hlast
  | cons byte buf ih =>
    rw [examinedLoop, if_neg (by omega)]
    split
    next hend => rw [lastIndex_cons_of_last hend]
    next hend =>
      rw [lastIndex_cons_of_continued hend] at hlast hshift ⊢
      rw [ih (by simpa using hlast) (by omega)]

/-- A successful decoding looks at the bytes up to the first one with bit 7 clear. -/
theorem examined_eq {buf : Bytes} {v : UInt32} (h : readUnsignedVarint buf = .ok v) :
    examined buf = lastIndex buf + 1 := by
  obtain ⟨hlast, hfour, -⟩ := readUnsignedVarint_eq_ok_iff.mp h
  exact examinedLoop_eq hlast (by omega)

end Varint

open Varint

namespace ByteReader

/-! ### The operations -/

/-- The operations of a `ByteReader`, with their arguments. -/
inductive Op
  | readInt8
  | readInt16
  | readInt32
  | readInt64
  | readBytes (n : ℕ)
  | skip (n : ℕ)
  | readVarint
  | readSignedVarint
  | skipVarint
  | readCompactString

/-- What an operation returns. -/
def Op.Result : Op → Type
  | readInt8 => UInt8
  | readInt16 => Int16
  | readInt32 => Int32
  | readInt64 => Int64
  | readBytes _ => Bytes
  | skip _ => Unit
  | readVarint => UInt32
  | readSignedVarint => Int32
  | skipVarint => Unit
  | readCompactString => Bytes

/-- The operation itself. -/
def Op.run : (op : Op) → Reader op.Result
  | readInt8 => ByteReader.readInt8
  | readInt16 => ByteReader.readInt16
  | readInt32 => ByteReader.readInt32
  | readInt64 => ByteReader.readInt64
  | readBytes n => ByteReader.readBytes n
  | skip n => ByteReader.skip n
  | readVarint => ByteReader.readVarint
  | readSignedVarint => ByteReader.readSignedVarint
  | skipVarint => ByteReader.skipVarint
  | readCompactString => ByteReader.readCompactString

/-- A reader as a machine that is given operations; the output says whether they succeed. -/
def machine : Machine ByteReader Op Bool where
  step c op := ((op.run.runOn c).2, (op.run.runOn c).1.isOk)

/-- How far from the offset on the `n` bytes of a fixed-size operation reach. -/
def fixedReach (n : ℕ) (c : ByteReader) : ℕ := if c.remaining < n then 0 else n

/-- How far from the offset on an operation looks at the buffer. -/
def Op.reach : Op → ByteReader → ℕ
  | readInt8, c => fixedReach 1 c
  | readInt16, c => fixedReach 2 c
  | readInt32, c => fixedReach 4 c
  | readInt64, c => fixedReach 8 c
  | readBytes n, c => fixedReach n c
  | skip _, _ => 0
  | readVarint, c => examined c.rest
  | readSignedVarint, c => examined c.rest
  | skipVarint, c => examined c.rest
  | readCompactString, c =>
    match Varint.readCompactString c.rest with
    | .error _ => examined c.rest
    -- the characters are copied
    | .ok sv => max (examined c.rest)
        (varintEncodedSize (UInt32.ofNat sv.length + 1) + sv.length)

/-- A successful run of `p` advances the offset, by no more than the bytes that the decoding
of the varint examines and `len` further ones. -/
def AdvancesBy {α : Type} (p : Reader α) (len : α → ℕ) (c : ByteReader) : Prop :=
  ∀ a c', p.runOn c = (.ok a, c') →
    c.offset + 1 ≤ c'.offset ∧ c'.offset ≤ c.offset + (examined c.rest + len a)

/-- A reader that is inside its buffer, and what its operations then do. -/
structure StaysInside (c : ByteReader) : Prop where
  offset_le : c.offset ≤ c.data.length
  /-- No operation looks beyond the end. -/
  reach_le : ∀ op : Op, c.offset + op.reach c ≤ c.data.length
  /-- A failing operation leaves the reader as it was. -/
  failed : ∀ (op : Op) e c', op.run.runOn c = (.error e, c') → c' = c
  readVarint : AdvancesBy ByteReader.readVarint (fun _ => 0) c
  readSignedVarint : AdvancesBy ByteReader.readSignedVarint (fun _ => 0) c
  skipVarint : AdvancesBy ByteReader.skipVarint (fun _ => 0) c
  readCompactString : AdvancesBy ByteReader.readCompactString List.length c

/-! ### What a single operation does -/

/-- Inside the buffer, `p` fails and leaves the reader as it was, or moves the offset forward
to a place inside the buffer. -/
def Steps {α : Type} (p : Reader α) : Prop :=
  ∀ c : ByteReader, c.offset ≤ c.data.length → (∃ e, p.runOn c = (.error e, c)) ∨
    ∃ a n, p.runOn c = (.ok a, { c with offset := c.offset + n }) ∧ c.offset + n ≤ c.data.length

theorem steps_fixed {α : Type} (n : ℕ) (decode : Bytes → α) : Steps (fixed n decode) := by
  intro c hc
  rw [fixed, runOn_ofRun]
  by_cases hroom : c.remaining < n
  · rw [if_pos hroom]
    exact .inl ⟨_, rfl⟩
  · rw [if_neg hroom]
    rw [Cursor.remaining] at hroom
    exact .inr ⟨_, n, rfl, by omega⟩

theorem steps_varint {α : Type} {read : Bytes → Except Errc α} {size : α → ℕ}
    (hsize : ∀ buf v, read buf = .ok v → size v ≤ buf.length) : Steps (varint read size) := by
  intro c hc
  rw [varint, runOn_ofRun]
  rcases hread : read c.rest with e | v
  · exact .inl ⟨_, rfl⟩
  · have hle := hsize _ v hread
    rw [Cursor.rest, List.length_drop] at hle
    exact .inr ⟨v, size v, rfl, by omega⟩

theorem Steps.map {α γ : Type} {p : Reader α} (hp : Steps p) (f : α → γ) : Steps (f <$> p) := by
  intro c hc
  rw [runOn_map]
  rcases hp c hc with ⟨e, hfail⟩ | ⟨a, n, hok, hle⟩
  · rw [hfail]
    exact .inl ⟨e, rfl⟩
  · rw [hok]
    exact .inr ⟨f a, n, rfl, hle⟩

/-- A signed varint has the size of the unsigned one it was decoded from. -/
theorem readSignedVarint_eq_ok {buf : Bytes} {w : Int32}
    (h : Varint.readSignedVarint buf = .ok w) :
    ∃ v, Varint.readUnsignedVarint buf = .ok v ∧
      signedVarintEncodedSize w = varintEncodedSize v := by
  rw [Varint.readSignedVarint] at h
  rcases hv : Varint.readUnsignedVarint buf with e | v
  · rw [hv] at h
    cases h
  · rw [hv] at h
    obtain rfl : zigzagDecode v = w := Except.ok.inj h
    exact ⟨v, rfl, by rw [signedVarintEncodedSize, zigzagEncode_zigzagDecode]⟩

theorem steps_readUnsignedVarint : Steps (varint Varint.readUnsignedVarint varintEncodedSize) :=
  steps_varint fun _ _ h => (readUnsignedVarint_local h).2

theorem steps_run (op : Op) : Steps op.run := by
  cases op with
  | readInt8 => exact steps_fixed 1 fun bs => bs.headD 0
  | readInt16 => exact steps_fixed 2 _
  | readInt32 => exact steps_fixed 4 _
  | readInt64 => exact steps_fixed 8 _
  | readBytes n => exact steps_fixed n _
  | skip n => exact steps_fixed n fun _ => ()
  | readVarint => exact steps_readUnsignedVarint
  | readSignedVarint =>
    refine steps_varint fun buf w h => ?_
    obtain ⟨v, hv, hsize⟩ := readSignedVarint_eq_ok h
    exact hsize ▸ (readUnsignedVarint_local hv).2
  | skipVarint => exact steps_readUnsignedVarint.map _
  | readCompactString => exact steps_varint fun _ _ h => (readCompactString_local h).2

theorem fixedReach_le {c : ByteReader} (hc : c.offset ≤ c.data.length) (n : ℕ) :
    c.offset + fixedReach n c ≤ c.data.length := by
  rw [fixedReach, Cursor.remaining]
  split <;> omega

theorem examined_rest_le {c : ByteReader} (hc : c.offset ≤ c.data.length) :
    c.offset + examined c.rest ≤ c.data.length := by
  have hle := examinedLoop_le c.rest 0
  rw [← examined, Cursor.rest, List.length_drop] at hle
  rw [Cursor.rest]
  omega

theorem reach_le {c : ByteReader} (hc : c.offset ≤ c.data.length) (op : Op) :
    c.offset + op.reach c ≤ c.data.length := by
  cases op with
  | readInt8 => exact fixedReach_le hc 1
  | readInt16 => exact fixedReach_le hc 2
  | readInt32 => exact fixedReach_le hc 4
  | readInt64 => exact fixedReach_le hc 8
  | readBytes n => exact fixedReach_le hc n
  | skip n => exact hc
  | readVarint => exact examined_rest_le hc
  | readSignedVarint => exact examined_rest_le hc
  | skipVarint => exact examined_rest_le hc
  | readCompactString =>
    rw [Op.reach]
    split
    next => exact examined_rest_le hc
    next sv hread =>
      have hvarint := examined_rest_le hc
      have hstring := (readCompactString_local hread).2
      rw [Cursor.rest, List.length_drop] at hstring
      omega

/-! ### How far the varint operations advance -/

theorem runOn_varint_eq_ok {α : Type} {read : Bytes → Except Errc α} {size : α → ℕ}
    {c c' : ByteReader} {a : α} (h : (varint read size).runOn c = (.ok a, c')) :
    read c.rest = .ok a ∧ c'.offset = c.offset + size a := by
  rw [varint, runOn_ofRun] at h
  split at h
  next => cases h
  next v hread =>
    cases h
    exact ⟨hread, rfl⟩

theorem runOn_skipVarint_eq_ok {c c' : ByteReader} {u : Unit}
    (h : skipVarint.runOn c = (.ok u, c')) :
    ∃ v, readVarint.runOn c = (.ok v, c') := by
  rw [skipVarint, runOn_map] at h
  rcases hv : readVarint.runOn c with ⟨e | v, c₁⟩
  · rw [readVarint] at hv
    rw [hv] at h
    cases h
  · rw [readVarint] at hv
    rw [hv] at h
    cases h
    exact ⟨v, rfl⟩

/-- The bytes that an operation steps over, when these are the minimal encoding of a number
that was decoded at the cursor and `len` more. -/
theorem advances_of_read {c : ByteReader} {v : UInt32}
    (hv : Varint.readUnsignedVarint c.rest = .ok v) (len : ℕ) :
    c.offset + 1 ≤ c.offset + (varintEncodedSize v + len) ∧
      c.offset + (varintEncodedSize v + len) ≤ c.offset + (examined c.rest + len) := by
  have hpos := varintEncodedSize_pos v
  have hle := varintEncodedSize_le_of_read hv
  rw [examined_eq hv]
  omega

theorem advancesBy_readVarint (c : ByteReader) : AdvancesBy readVarint (fun _ => 0) c := by
  intro v c' h
  obtain ⟨hv, hoffset⟩ := runOn_varint_eq_ok h
  rw [hoffset]
  exact advances_of_read hv 0

theorem advancesBy_readSignedVarint (c : ByteReader) :
    AdvancesBy readSignedVarint (fun _ => 0) c := by
  intro w c' h
  obtain ⟨hw, hoffset⟩ := runOn_varint_eq_ok h
  obtain ⟨v, hv, hsize⟩ := readSignedVarint_eq_ok hw
  rw [hoffset, hsize]
  exact advances_of_read hv 0

theorem advancesBy_skipVarint (c : ByteReader) : AdvancesBy skipVarint (fun _ => 0) c := by
  intro u c' h
  obtain ⟨v, hv⟩ := runOn_skipVarint_eq_ok h
  exact advancesBy_readVarint c v c' hv

theorem advancesBy_readCompactString (c : ByteReader) :
    AdvancesBy readCompactString List.length c := by
  intro sv c' h
  obtain ⟨hread, hoffset⟩ := runOn_varint_eq_ok h
  obtain ⟨len, hlen, -, hroom, rfl⟩ := readCompactString_eq_ok_iff.mp hread
  rw [hoffset, length_of_readCompactString hroom]
  exact advances_of_read hlen _

/-! ### Sequences of operations -/

theorem staysInside_of_offset_le {c : ByteReader} (hc : c.offset ≤ c.data.length) :
    StaysInside c where
  offset_le := hc
  reach_le := reach_le hc
  failed op e c' h := by
    rcases steps_run op c hc with ⟨e', hfail⟩ | ⟨a, n, hok, -⟩
    · rw [hfail] at h
      exact (Prod.mk.inj h).2.symm
    · rw [hok] at h
      cases h
  readVarint := advancesBy_readVarint c
  readSignedVarint := advancesBy_readSignedVarint c
  skipVarint := advancesBy_skipVarint c
  readCompactString := advancesBy_readCompactString c

/-- An operation keeps the buffer, and the offset inside it. -/
theorem next_inside {c : ByteReader} (hc : c.offset ≤ c.data.length) (op : Op) :
    (machine.next c op).data = c.data ∧ (machine.next c op).offset ≤ c.data.length := by
  rw [Machine.next, machine]
  dsimp only
  rcases steps_run op c hc with ⟨e, hfail⟩ | ⟨a, n, hok, hle⟩
  · rw [hfail]
    exact ⟨rfl, hc⟩
  · rw [hok]
    exact ⟨rfl, hle⟩

/-- **A `ByteReader` never leaves its buffer**, whatever operations it is given and whatever
the buffer holds. -/
theorem staysInside_exec (buf : Bytes) (ops : List Op) :
    (machine.exec ⟨buf, 0⟩ ops).data = buf ∧ StaysInside (machine.exec ⟨buf, 0⟩ ops) := by
  have hinv : (machine.exec ⟨buf, 0⟩ ops).data = buf ∧
      (machine.exec ⟨buf, 0⟩ ops).offset ≤ buf.length := by
    refine Machine.invariant_exec_all (M := machine)
      (I := fun c => c.data = buf ∧ c.offset ≤ buf.length) ?_ ⟨rfl, Nat.zero_le _⟩ ops
    rintro c op ⟨rfl, hc⟩
    exact next_inside hc op
  obtain ⟨hdata, hoffset⟩ := hinv
  exact ⟨hdata, staysInside_of_offset_le (by rwa [hdata])⟩

/-! ### Stepping over what was decoded -/

/-- The operations that read a varint at `c` step over exactly the bytes that the decoding
examines, and the characters of a compact string are the bytes behind these. -/
structure ConsumesDecoded (c : ByteReader) : Prop where
  readVarint : ∀ v c', ByteReader.readVarint.runOn c = (.ok v, c') →
    c'.offset = c.offset + examined c.rest
  skipVarint : ∀ u c', ByteReader.skipVarint.runOn c = (.ok u, c') →
    c'.offset = c.offset + examined c.rest
  readSignedVarint : ∀ w c', ByteReader.readSignedVarint.runOn c = (.ok w, c') →
    c'.offset = c.offset + examined c.rest
  readCompactString : ∀ s c', ByteReader.readCompactString.runOn c = (.ok s, c') →
    c'.offset = c.offset + (examined c.rest + s.length) ∧
      s = (c.rest.drop (examined c.rest)).take s.length

/-- A number whose minimal encoding is as long as the one it was decoded from is stepped over
by all of them. -/
theorem consumesDecoded_of_size {c : ByteReader}
    (h : ∀ v, Varint.readUnsignedVarint c.rest = .ok v → varintEncodedSize v = examined c.rest) :
    ConsumesDecoded c where
  readVarint v c' hrun := by
    obtain ⟨hv, hoffset⟩ := runOn_varint_eq_ok hrun
    rw [hoffset, h v hv]
  skipVarint u c' hrun := by
    obtain ⟨v, hv⟩ := runOn_skipVarint_eq_ok hrun
    obtain ⟨hv, hoffset⟩ := runOn_varint_eq_ok hv
    rw [hoffset, h v hv]
  readSignedVarint w c' hrun := by
    obtain ⟨hw, hoffset⟩ := runOn_varint_eq_ok hrun
    obtain ⟨v, hv, hsize⟩ := readSignedVarint_eq_ok hw
    rw [hoffset, hsize, h v hv]
  readCompactString s c' hrun := by
    obtain ⟨hread, hoffset⟩ := runOn_varint_eq_ok hrun
    obtain ⟨len, hlen, -, hroom, hs⟩ := readCompactString_eq_ok_iff.mp hread
    have hlength : s.length = (len - 1).toNat := by
      rw [hs, List.length_take_of_le (by rw [List.length_drop]; omega)]
    have hvarint : UInt32.ofNat s.length + 1 = len := by
      rw [hs]
      exact length_of_readCompactString hroom
    rw [hoffset, hvarint, ← h len hlen, hlength]
    exact ⟨rfl, hs⟩

theorem readVarint_runOn {c : ByteReader} {v : UInt32}
    (hv : Varint.readUnsignedVarint c.rest = .ok v) :
    readVarint.runOn c = (.ok v, { c with offset := c.offset + varintEncodedSize v }) := by
  rw [readVarint, varint, runOn_ofRun, hv]

/-- A longer encoding than necessary is not stepped over. -/
theorem minimal_of_consumesDecoded {c : ByteReader} (h : ConsumesDecoded c) {v : UInt32}
    (hv : Varint.readUnsignedVarint c.rest = .ok v) : Minimal c.rest := by
  have hoffset := h.readVarint v _ (readVarint_runOn hv)
  rw [examined_eq hv] at hoffset
  exact (varintEncodedSize_eq_iff hv).mp (Nat.add_left_cancel hoffset)

/-- **When varint reads consume what they decode**: the bytes that the decoding examines are
those up to the first one with bit 7 clear, and they are stepped over when the encoding is the
minimal one. -/
theorem consumesDecoded_iff (c : ByteReader) :
    (∀ v, Varint.readUnsignedVarint c.rest = .ok v → examined c.rest = lastIndex c.rest + 1) ∧
      (ConsumesDecoded c ↔
        ∀ v, Varint.readUnsignedVarint c.rest = .ok v → Minimal c.rest) := by
  refine ⟨fun v hv => examined_eq hv, fun h v hv => minimal_of_consumesDecoded h hv, fun h => ?_⟩
  refine consumesDecoded_of_size fun v hv => ?_
  rw [examined_eq hv]
  exact (varintEncodedSize_eq_iff hv).mpr (h v hv)

/-- A zero in two bytes: only the first of them is stepped over. And a string of one character
behind a length in two bytes: the second byte of the length is taken for the character. -/
theorem not_consumesDecoded :
    ¬ ConsumesDecoded ⟨[0x80, 0x00], 0⟩ ∧
      ByteReader.readCompactString.runOn ⟨[0x82, 0x00, 0x61], 0⟩ =
        (.ok [0x00], ⟨[0x82, 0x00, 0x61], 2⟩) := by
  refine ⟨fun h => ?_, by decide +kernel⟩
  have hminimal := minimal_of_consumesDecoded (v := 0) h (by decide)
  exact absurd hminimal (by decide)

end ByteReader

end TinyKafka

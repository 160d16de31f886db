import TinyKafka.Util.ByteReader

/-!
# Record batches

What a producer sends is a concatenation of record batches. `parse_record_batch` decodes
their values; `record_batch_count` only reads the header of the first batch, and is what
`produce` advances the log by.

Both trust the header: the count is `last_offset_delta + 1` for whatever delta the client
sent, and a negative count makes the parser's `reserve` throw. `makeRecordBatchV2` is the
encoder of the test suite; `parseRecordBatch_append` says that complete batches decode to
their values whatever torn tail follows them.
-/

namespace TinyKafka

open CursorM ByteReader

/-- `if (len > 0) { ... read_bytes(len) ... }`: the bytes of a length-prefixed field, none
for a null or empty one. -/
def readSized (len : Int32) : Reader Bytes :=
  if 0 < len then readBytes len.toInt.toNat else pure []

/-- The header loop: `count` pairs of a key and a value. -/
def skipHeaders : (count : ℕ) → Reader Unit
  | 0 => pure ()
  | count + 1 => do
    let keyLen ← readSignedVarint
    let _ ← readSized keyLen
    let valueLen ← readSignedVarint
    let _ ← readSized valueLen
    skipHeaders count

/-- The body of one record, after its size. -/
def parseRecordBody : Reader Bytes := do
  let _attrs ← readInt8
  let _timestampDelta ← readSignedVarint
  let _offsetDelta ← readSignedVarint
  let keyLen ← readSignedVarint
  let _ ← readSized keyLen
  let valueLen ← readSignedVarint
  let value ← readSized valueLen
  let headersCount ← readVarint
  -- a zero count is a null header array
  skipHeaders (headersCount.toNat - 1)
  pure value

/-- The record loop of `parse_single_record_batch`; a record without a body is skipped. -/
def parseRecords : (count : ℕ) → Reader (List Bytes)
  | 0 => pure []
  | count + 1 => do
    let bodySize ← readSignedVarint
    if bodySize ≤ 0 then parseRecords count
    else
      let value ← parseRecordBody
      let values ← parseRecords count
      pure (value :: values)

/-- The header of a batch, up to the record count `last_offset_delta + 1`. -/
def parseBatchHeader : Reader Int32 := do
  let _baseOffset ← readInt64
  let _batchLength ← readInt32
  let _partitionLeaderEpoch ← readInt32
  let magic ← readInt8
  if magic ≠ 2 then throw (.errc .protocolNotSupported)
  let _crc ← readInt32
  let _attributes ← readInt16
  let lastOffsetDelta ← readInt32
  pure (lastOffsetDelta + 1)

/-- `parse_single_record_batch`. -/
def parseSingleRecordBatch : Reader (List Bytes) := do
  let recordCount ← parseBatchHeader
  let _baseTimestamp ← readInt64
  let _maxTimestamp ← readInt64
  let _producerId ← readInt64
  let _producerEpoch ← readInt16
  let _baseSequence ← readInt32
  -- `values.reserve(static_cast<size_t>(record_count))`
  if recordCount < 0 then throw .lengthError
  parseRecords recordCount.toInt.toNat

/-- What the loop of `parse_record_batch` returns when it stops: the values so far, or an
error when there are none. -/
def parsedSoFar (values : List Bytes) (e : Errc) : Except Failure (List Bytes) :=
  if values = [] then .error (.errc e) else .ok values

/-- The loop of `parse_record_batch` on the bytes from `offset` on. Every turn takes at least
the 12 bytes of a batch's prefix, so the size of the data bounds the number of turns. -/
def parseBatches : (fuel : ℕ) → (chunk : Bytes) → (values : List Bytes) →
    Except Failure (List Bytes)
  | 0, _, values => parsedSoFar values .messageSize
  | fuel + 1, chunk, values =>
    if chunk.length < 12 then parsedSoFar values .messageSize
    else
      match (do let _ ← readInt64; readInt32 : Reader Int32).runOn ⟨chunk, 0⟩ with
      | (.error _, _) => parsedSoFar values .messageSize
      | (.ok batchLength, _) =>
        if batchLength < 0 then parsedSoFar values .messageSize
        else
          let batchSize := 12 + batchLength.toInt.toNat
          if chunk.length < batchSize then parsedSoFar values .messageSize
          else
            match (parseSingleRecordBatch.runOn ⟨chunk.take batchSize, 0⟩).1 with
            | .ok vs => parseBatches fuel (chunk.drop batchSize) (values ++ vs)
            | .error (.errc e) => parsedSoFar values e
            | .error .lengthError => .error .lengthError

/-- `parse_record_batch`. -/
def parseRecordBatch (data : Bytes) : Except Failure (List Bytes) :=
  parseBatches data.length data []

/-- `record_batch_count`. With 28 bytes none of its reads can fail. -/
def recordBatchCount (data : Bytes) : Except Failure Int32 :=
  if data.length < 28 then .error (.errc .messageSize)
  else (parseBatchHeader.runOn ⟨data, 0⟩).1

/-! ### The encoder of the tests -/

/-- One record of `make_record_batch_v2`. The body size counts one byte for each varint. -/
def makeRecord (value : Bytes) : Bytes :=
  writeSignedVarint (Int32.ofNat (value.length + 6)) ++ ([0] ++ (writeSignedVarint 0 ++
    (writeSignedVarint 0 ++ (writeSignedVarint (-1) ++
      (writeSignedVarint (Int32.ofNat value.length) ++ (value ++ writeSignedVarint 0))))))

/-- The records of a batch. -/
def makeRecords (values : List Bytes) : Bytes := values.flatMap makeRecord

/-- The header of `make_record_batch_v2` up to the last offset delta. -/
def makeBatchHeader (batchLength lastOffsetDelta : Int32) : Bytes :=
  writeInt64Be 0 ++ (writeInt32Be batchLength ++ (writeInt32Be 0 ++ ([2] ++
    (writeInt32Be 0 ++ (writeInt16Be 0 ++ writeInt32Be lastOffsetDelta)))))

/-- `make_record_batch_v2`. -/
def makeRecordBatchV2 (values : List Bytes) : Bytes :=
  makeBatchHeader (Int32.ofNat ((makeRecords values).length + 45))
      (Int32.ofNat values.length - 1) ++
    (writeInt64Be 0 ++ (writeInt64Be 0 ++ (writeInt64Be 0 ++ (writeInt16Be 0 ++
      (writeInt32Be 0 ++ makeRecords values)))))

/-- The same header, with exact length, around any bytes of `count` records. -/
def frameBatch (count : ℕ) (records : Bytes) : Bytes :=
  makeBatchHeader (Int32.ofNat (records.length + 45)) (Int32.ofNat count - 1) ++
    (writeInt64Be 0 ++ (writeInt64Be 0 ++ (writeInt64Be 0 ++ (writeInt16Be 0 ++
      (writeInt32Be 0 ++ records)))))

theorem makeRecordBatchV2_eq_frameBatch (values : List Bytes) :
    makeRecordBatchV2 values = frameBatch values.length (makeRecords values) := rfl

/-- The values of a batch the encoder and the parser agree on: their lengths, and that of the
batch, fit the varints and the `int32` length of the format. -/
structure Encodable (values : List Bytes) : Prop where
  value_lt : ∀ v ∈ values, v.length + 6 < 2 ^ 27
  batch_lt : (makeRecords values).length + 45 < 2 ^ 31

/-! ### Decoding what was encoded -/

/-- Lengths below `2 ^ 27` are read back from a signed varint. -/
theorem reads_length {n : ℕ} (h : n < 2 ^ 27) :
    Reads readSignedVarint (writeSignedVarint (Int32.ofNat n)) (Int32.ofNat n) := by
  have hint : (Int32.ofNat n).toInt = n := Int32.toInt_ofNat_of_lt (by omega)
  refine reads_readSignedVarint ?_
  rw [toNat_zigzagEncode (by omega), hint]
  omega

theorem reads_readSized {value : Bytes} (h : value.length < 2 ^ 31) :
    Reads (readSized (Int32.ofNat value.length)) value value := by
  have hint := Int32.toInt_ofNat_of_lt h
  have hpos : (0 : Int32) < Int32.ofNat value.length ↔ 0 < value.length := by
    rw [Int32.lt_iff_toInt_lt, hint, Int32.toInt_zero]
    omega
  rw [readSized, hint, Int.toNat_natCast]
  by_cases hv : 0 < value.length
  · rw [if_pos (hpos.mpr hv)]
    exact reads_readBytes value
  · have hnil : value = [] := List.length_eq_zero_iff.mp (by omega)
    rw [if_neg (mt hpos.mp hv), hnil]
    exact Reads.pure []

theorem reads_parseRecordBody {value : Bytes} (h : value.length + 6 < 2 ^ 27) :
    Reads parseRecordBody ([0] ++ (writeSignedVarint 0 ++ (writeSignedVarint 0 ++
      (writeSignedVarint (-1) ++ (writeSignedVarint (Int32.ofNat value.length) ++
        (value ++ writeSignedVarint 0)))))) value := by
  have hzero : Reads readSignedVarint (writeSignedVarint 0) 0 := reads_readSignedVarint (by decide)
  have hnull : Reads readSignedVarint (writeSignedVarint (-1)) (-1) :=
    reads_readSignedVarint (by decide)
  have hcount : Reads readVarint (writeSignedVarint 0) 0 := reads_readVarint (by decide)
  refine (reads_readInt8 0).bind (hzero.bind (hzero.bind (hnull.bind ?_)))
  -- a null key has no bytes
  refine Reads.nil_bind (Reads.pure []) ?_
  refine (reads_length (by omega)).bind ((reads_readSized (by omega)).bind ?_)
  exact hcount.bind_nil (Reads.nil_bind (Reads.pure ()) (Reads.pure value))

theorem reads_parseRecords {values : List Bytes} (h : ∀ v ∈ values, v.length + 6 < 2 ^ 27) :
    Reads (parseRecords values.length) (makeRecords values) values := by
  induction values with
  | nil => exact Reads.pure []
  | cons v values ih =>
    have hv := h v List.mem_cons_self
    have hbody : ¬ Int32.ofNat (v.length + 6) ≤ 0 := by
      rw [Int32.le_iff_toInt_le, Int32.toInt_ofNat_of_lt (by omega), Int32.toInt_zero]
      omega
    rw [makeRecords, List.flatMap_cons, makeRecord, List.append_assoc]
    refine (reads_length hv).bind ?_
    rw [if_neg hbody]
    refine (reads_parseRecordBody hv).bind ?_
    exact (ih fun w hw => h w (List.mem_cons_of_mem v hw)).bind_nil (Reads.pure _)

theorem reads_parseBatchHeader (batchLength delta : Int32) :
    Reads parseBatchHeader (makeBatchHeader batchLength delta) (delta + 1) := by
  refine (reads_readInt64 0).bind ((reads_readInt32 batchLength).bind
    ((reads_readInt32 0).bind ((reads_readInt8 2).bind ?_)))
  refine (reads_readInt32 0).bind ((reads_readInt16 0).bind ?_)
  exact (reads_readInt32 delta).bind_nil (Reads.pure _)

/-- A record takes at least one byte. -/
theorem length_le_makeRecords (values : List Bytes) :
    values.length ≤ (makeRecords values).length := by
  induction values with
  | nil => rfl
  | cons v values ih =>
    rw [makeRecords, List.flatMap_cons, List.length_append, ← makeRecords, makeRecord]
    simp only [List.length_append, List.length_cons, List.length_nil]
    omega

/-! ### The header of a frame -/

/-- The length of a frame is what its prefix says. -/
@[simp] theorem length_frameBatch (count : ℕ) (records : Bytes) :
    (frameBatch count records).length = 12 + (records.length + 45) := by
  simp only [frameBatch, makeBatchHeader, List.length_append, length_writeInt64Be,
    length_writeInt32Be, length_writeInt16Be, List.length_cons, List.length_nil]
  omega

theorem frameBatch_ne_nil (count : ℕ) (records : Bytes) : frameBatch count records ≠ [] := by
  intro h
  have hlen := length_frameBatch count records
  rw [h, List.length_nil] at hlen
  omega

theorem length_makeRecordBatchV2 (values : List Bytes) :
    (makeRecordBatchV2 values).length = 12 + ((makeRecords values).length + 45) :=
  length_frameBatch values.length (makeRecords values)

/-- What `parse_single_record_batch` does before its record loop. -/
def parseRecordCount : Reader ℕ := do
  let recordCount ← parseBatchHeader
  let _baseTimestamp ← readInt64
  let _maxTimestamp ← readInt64
  let _producerId ← readInt64
  let _producerEpoch ← readInt16
  let _baseSequence ← readInt32
  if recordCount < 0 then throw .lengthError
  pure recordCount.toInt.toNat

theorem parseSingleRecordBatch_eq :
    parseSingleRecordBatch = parseRecordCount >>= parseRecords := by
  simp only [parseSingleRecordBatch, parseRecordCount, bind_assoc]
  refine bind_congr fun recordCount => bind_congr fun _ => bind_congr fun _ => bind_congr fun _ =>
    bind_congr fun _ => bind_congr fun _ => ?_
  split <;> simp only [bind_assoc, pure_bind]

/-- The 57 bytes in front of the records. -/
def frameHeader (count size : ℕ) : Bytes :=
  makeBatchHeader (Int32.ofNat (size + 45)) (Int32.ofNat count - 1) ++
    (writeInt64Be 0 ++ (writeInt64Be 0 ++ (writeInt64Be 0 ++ (writeInt16Be 0 ++
      writeInt32Be 0))))

theorem frameBatch_eq_append (count : ℕ) (records : Bytes) :
    frameBatch count records = frameHeader count records.length ++ records := by
  simp only [frameBatch, frameHeader, List.append_assoc]

@[simp] theorem length_frameHeader (count size : ℕ) : (frameHeader count size).length = 57 := by
  simp only [frameHeader, makeBatchHeader, List.length_append, length_writeInt64Be,
    length_writeInt32Be, length_writeInt16Be, List.length_cons, List.length_nil]

theorem reads_parseRecordCount {count : ℕ} (hcount : count < 2 ^ 31) (size : ℕ) :
    Reads parseRecordCount (frameHeader count size) count := by
  have hdelta : Int32.ofNat count - 1 + 1 = Int32.ofNat count := Int32.sub_add_cancel _ _
  have hint := Int32.toInt_ofNat_of_lt hcount
  have hnonneg : ¬ Int32.ofNat count < 0 := by
    rw [Int32.lt_iff_toInt_lt, hint, Int32.toInt_zero]
    omega
  refine (reads_parseBatchHeader _ _).bind ?_
  rw [hdelta]
  refine (reads_readInt64 0).bind ((reads_readInt64 0).bind ((reads_readInt64 0).bind
    ((reads_readInt16 0).bind ((reads_readInt32 0).bind_nil ?_))))
  rw [if_neg hnonneg, hint, Int.toNat_natCast]
  exact Reads.nil_bind (Reads.pure _) (Reads.pure count)

/-- A frame is parsed to whatever its records are parsed to. -/
theorem reads_frameBatch {count : ℕ} (hcount : count < 2 ^ 31) {records : Bytes}
    {values : List Bytes} (h : Reads (parseRecords count) records values) :
    Reads parseSingleRecordBatch (frameBatch count records) values := by
  rw [parseSingleRecordBatch_eq, frameBatch_eq_append]
  exact (reads_parseRecordCount hcount _).bind h

theorem failsOn_frameBatch {count : ℕ} (hcount : count < 2 ^ 31) {records : Bytes}
    (h : FailsOn (parseRecords count) records) :
    FailsOn parseSingleRecordBatch (frameBatch count records) := by
  rw [parseSingleRecordBatch_eq, frameBatch_eq_append]
  exact (reads_parseRecordCount hcount _).bind_failsOn h

/-! ### Concatenations of batches -/

/-- The length field of the batch at the start of the data. -/
def batchLength (data : Bytes) : Int32 := decodeInt32Be ((data.drop 8).take 4)

/-- The size of that batch. -/
def batchSize (data : Bytes) : ℕ := 12 + (batchLength data).toInt.toNat

/-- The data start with a batch that is all there. -/
structure StartsComplete (data : Bytes) : Prop where
  prefix_le : 12 ≤ data.length
  nonneg : 0 ≤ batchLength data
  size_le : batchSize data ≤ data.length

/-- What `parse_single_record_batch` makes of that batch. -/
def parseFirstBatch (data : Bytes) : Except Failure (List Bytes) :=
  (parseSingleRecordBatch.runOn ⟨data.take (batchSize data), 0⟩).1

theorem runOn_batchLength {data : Bytes} (h : 12 ≤ data.length) :
    ((do let _ ← readInt64; readInt32 : Reader Int32).runOn ⟨data, 0⟩).1 =
      .ok (batchLength data) := by
  have h8 : (data.take 8).length = 8 := List.length_take_of_le (by omega)
  have h4 : ((data.drop 8).take 4).length = 4 :=
    List.length_take_of_le (by rw [List.length_drop]; omega)
  have hoffset := reads_fixed decodeInt64Be (data.take 8)
  have hlength := reads_fixed decodeInt32Be ((data.drop 8).take 4)
  rw [h8] at hoffset
  rw [h4] at hlength
  have hboth : Reads (do let _ ← readInt64; readInt32 : Reader Int32)
      (data.take 8 ++ (data.drop 8).take 4) (batchLength data) := hoffset.bind hlength
  have hrun := hboth.run_append ((data.drop 8).drop 4)
  rw [List.append_assoc, List.take_append_drop, List.take_append_drop] at hrun
  exact congrArg Prod.fst hrun

/-- A batch that is all there is handed to `parse_single_record_batch`. -/
theorem parseBatches_succ {data : Bytes} (h : StartsComplete data) (fuel : ℕ)
    (acc : List Bytes) :
    parseBatches (fuel + 1) data acc =
      match parseFirstBatch data with
      | .ok vs => parseBatches fuel (data.drop (batchSize data)) (acc ++ vs)
      | .error (.errc e) => parsedSoFar acc e
      | .error .lengthError => .error .lengthError := by
  have hrun := runOn_batchLength h.prefix_le
  have hsize := h.size_le
  rw [parseBatches, if_neg (not_lt.mpr h.prefix_le)]
  split
  next e c hfail => rw [hfail] at hrun; cases hrun
  next n c hok =>
    obtain rfl : n = batchLength data := by
      rw [hok] at hrun
      exact Except.ok.inj hrun
    dsimp only
    rw [if_neg (Int32.not_lt.mpr h.nonneg), ← batchSize, if_neg (by omega)]
    rfl

/-- Anything else ends the loop. -/
theorem parseBatches_of_not_startsComplete {data : Bytes} (h : ¬ StartsComplete data) (fuel : ℕ)
    (acc : List Bytes) : parseBatches fuel data acc = parsedSoFar acc .messageSize := by
  cases fuel with
  | zero => rfl
  | succ fuel =>
    rw [parseBatches]
    split
    next => rfl
    next hprefix =>
      have hrun := runOn_batchLength (not_lt.mp hprefix)
      split
      next => rfl
      next n c hok =>
        obtain rfl : n = batchLength data := by
          rw [hok] at hrun
          exact Except.ok.inj hrun
        dsimp only
        split
        next => rfl
        next hnonneg =>
          have hshort : data.length < batchSize data := by
            by_contra hsize
            exact h ⟨not_lt.mp hprefix, Int32.not_lt.mp hnonneg, not_lt.mp hsize⟩
          exact if_pos hshort

/-- The length field of a frame. -/
theorem batchLength_of_eq {data rest : Bytes} {size : ℕ}
    (h : data = (writeInt64Be 0 ++ writeInt32Be (Int32.ofNat size)) ++ rest) :
    batchLength data = Int32.ofNat size := by
  rw [batchLength, h, List.append_assoc, List.drop_append_of_le_length (by simp),
    List.drop_of_length_le (by simp), List.nil_append, List.take_append_of_le_length (by simp),
    List.take_of_length_le (by simp), decodeInt32Be_writeInt32Be]

/-- A frame is its prefix followed by as many bytes as the prefix says. -/
private theorem frameBatch_eq (count : ℕ) (records : Bytes) :
    ∃ body : Bytes, frameBatch count records =
      (writeInt64Be 0 ++ writeInt32Be (Int32.ofNat (records.length + 45))) ++ body :=
  ⟨_, by rw [frameBatch, makeBatchHeader]; simp only [List.append_assoc]; rfl⟩

section Frame

variable {records : Bytes}

/-- The frame at the start of the data is the batch that the loop sees. -/
theorem batchSize_frameBatch_append (h : records.length + 45 < 2 ^ 31) (count : ℕ)
    (rest : Bytes) :
    batchSize (frameBatch count records ++ rest) = (frameBatch count records).length ∧
      StartsComplete (frameBatch count records ++ rest) := by
  obtain ⟨body, hbody⟩ := frameBatch_eq count records
  have hlength : batchLength (frameBatch count records ++ rest) =
      Int32.ofNat (records.length + 45) :=
    batchLength_of_eq (by rw [hbody, List.append_assoc])
  have hint := Int32.toInt_ofNat_of_lt h
  have hsize : batchSize (frameBatch count records ++ rest) =
      (frameBatch count records).length := by
    rw [batchSize, hlength, hint, length_frameBatch, Int.toNat_natCast]
  refine ⟨hsize, ?_, ?_, ?_⟩
  · rw [List.length_append, length_frameBatch]
    omega
  · rw [hlength, Int32.le_iff_toInt_le, hint, Int32.toInt_zero]
    omega
  · rw [hsize, List.length_append]
    omega

/-- The loop hands a complete frame to `parse_single_record_batch`. -/
theorem parseBatches_frame (h : records.length + 45 < 2 ^ 31) (count fuel : ℕ) (rest : Bytes)
    (acc : List Bytes) :
    parseBatches (fuel + 1) (frameBatch count records ++ rest) acc =
      match (parseSingleRecordBatch.runOn ⟨frameBatch count records, 0⟩).1 with
      | .ok vs => parseBatches fuel rest (acc ++ vs)
      | .error (.errc e) => parsedSoFar acc e
      | .error .lengthError => .error .lengthError := by
  obtain ⟨hsize, hcomplete⟩ := batchSize_frameBatch_append h count rest
  rw [parseBatches_succ hcomplete, parseFirstBatch, hsize, List.take_left, List.drop_left]

/-- The loop takes up a frame that can be parsed and goes on behind it. -/
theorem parseBatches_reads {values : List Bytes} {count : ℕ} (h : records.length + 45 < 2 ^ 31)
    (hreads : Reads parseSingleRecordBatch (frameBatch count records) values) (fuel : ℕ)
    (rest : Bytes) (acc : List Bytes) :
    parseBatches (fuel + 1) (frameBatch count records ++ rest) acc =
      parseBatches fuel rest (acc ++ values) := by
  rw [parseBatches_frame h, hreads.run]

end Frame

/-- The same for a list of frames. -/
theorem parseBatches_flatMap {ι : Type} {encode : ι → Bytes} {values : ι → List Bytes}
    {batches : List ι}
    (h : ∀ b ∈ batches, ∀ (fuel : ℕ) (rest : Bytes) (acc : List Bytes),
      parseBatches (fuel + 1) (encode b ++ rest) acc = parseBatches fuel rest (acc ++ values b))
    (fuel : ℕ) (rest : Bytes) (acc : List Bytes) :
    parseBatches (fuel + batches.length) (batches.flatMap encode ++ rest) acc =
      parseBatches fuel rest (acc ++ batches.flatMap values) := by
  induction batches generalizing acc with
  | nil => rw [List.flatMap_nil, List.flatMap_nil, List.append_nil]; rfl
  | cons b batches ih =>
    rw [List.flatMap_cons, List.append_assoc, List.length_cons, ← Nat.add_assoc,
      h b List.mem_cons_self, ih (fun b' hb' => h b' (List.mem_cons_of_mem b hb')),
      List.flatMap_cons, List.append_assoc]

theorem reads_parseSingleRecordBatch {values : List Bytes} (h : Encodable values) :
    Reads parseSingleRecordBatch (makeRecordBatchV2 values) values := by
  have hle := length_le_makeRecords values
  have hlt := h.batch_lt
  exact reads_frameBatch (by omega) (reads_parseRecords h.value_lt)

/-- The loop takes up a complete batch and goes on behind it. -/
theorem parseBatches_batch {values : List Bytes} (h : Encodable values) (fuel : ℕ)
    (rest : Bytes) (acc : List Bytes) :
    parseBatches (fuel + 1) (makeRecordBatchV2 values ++ rest) acc =
      parseBatches fuel rest (acc ++ values) :=
  parseBatches_reads h.batch_lt (reads_parseSingleRecordBatch h) fuel rest acc

/-- A torn batch ends the loop. -/
theorem parseBatches_torn {values : List Bytes} (h : (makeRecords values).length + 45 < 2 ^ 31)
    (fuel : ℕ) {k : ℕ} (hk : k < (makeRecordBatchV2 values).length) (acc : List Bytes) :
    parseBatches fuel ((makeRecordBatchV2 values).take k) acc =
      parsedSoFar acc .messageSize := by
  refine parseBatches_of_not_startsComplete (fun hcomplete => ?_) fuel acc
  have htake : ((makeRecordBatchV2 values).take k).length = k := List.length_take_of_le (by omega)
  -- once the length field has been written, it promises more than is there
  obtain ⟨body, hbody⟩ := frameBatch_eq values.length (makeRecords values)
  have hprefix := hcomplete.prefix_le
  have hsplit : (makeRecordBatchV2 values).take k = (writeInt64Be 0 ++
      writeInt32Be (Int32.ofNat ((makeRecords values).length + 45))) ++ body.take (k - 12) := by
    rw [makeRecordBatchV2_eq_frameBatch, hbody, List.take_append,
      List.take_of_length_le (by simp; omega)]
    simp
  have hsize := hcomplete.size_le
  rw [batchSize, batchLength_of_eq hsplit, Int32.toInt_ofNat_of_lt h, Int.toNat_natCast,
    htake] at hsize
  rw [length_makeRecordBatchV2] at hk
  omega

/-- A frame has at least one byte for each turn of the loop. -/
theorem length_le_flatMap {ι : Type} {encode : ι → Bytes} {batches : List ι}
    (h : ∀ b ∈ batches, encode b ≠ []) : batches.length ≤ (batches.flatMap encode).length := by
  induction batches with
  | nil => rfl
  | cons b batches ih =>
    have hpos := List.length_pos_of_ne_nil (h b List.mem_cons_self)
    have hle := ih fun b' hb' => h b' (List.mem_cons_of_mem b hb')
    rw [List.flatMap_cons, List.length_append, List.length_cons]
    omega

/-- **Complete batches decode to their values**, whatever part of a further batch follows
them. -/
theorem parseRecordBatch_append {batches : List (List Bytes)}
    (h : ∀ vs ∈ batches, Encodable vs) {tail : Bytes}
    (htail : tail = [] ∨ ∃ vs k, (makeRecords vs).length + 45 < 2 ^ 31 ∧
      k < (makeRecordBatchV2 vs).length ∧ tail = (makeRecordBatchV2 vs).take k) :
    parseRecordBatch (batches.flatMap makeRecordBatchV2 ++ tail) =
      parsedSoFar batches.flatten .messageSize := by
  have hfuel : batches.length ≤ (batches.flatMap makeRecordBatchV2).length :=
    length_le_flatMap fun vs _ => frameBatch_ne_nil _ _
  obtain ⟨fuel, hfuel⟩ : ∃ fuel, (batches.flatMap makeRecordBatchV2 ++ tail).length =
      fuel + batches.length := by
    refine ⟨(batches.flatMap makeRecordBatchV2 ++ tail).length - batches.length, ?_⟩
    rw [List.length_append]
    omega
  have hvalues : batches.flatMap (fun vs => vs) = batches.flatten := by simp [List.flatMap]
  rw [parseRecordBatch, hfuel,
    parseBatches_flatMap fun vs hvs => parseBatches_batch (h vs hvs),
    List.nil_append, hvalues]
  rcases htail with rfl | ⟨vs, k, hvs, hk, rfl⟩
  · cases fuel <;> rfl
  · exact parseBatches_torn hvs fuel hk _

/-- The header of a batch gives the number of its records. -/
theorem recordBatchCount_makeRecordBatchV2 (values : List Bytes) :
    recordBatchCount (makeRecordBatchV2 values) = .ok (Int32.ofNat values.length) := by
  have hlen := length_makeRecordBatchV2 values
  rw [recordBatchCount, if_neg (by omega), makeRecordBatchV2,
    (reads_parseBatchHeader _ _).run_append, Int32.sub_add_cancel]

/-! ### The header-only count

`produce` advances the log by `record_batch_count`, in place of the number of values that
`parse_record_batch` returns. -/

/-- The two agree on the data: they accept it together, and with the same number. -/
def CountAgrees (data : Bytes) : Prop :=
  ∀ n : Int32, recordBatchCount data = .ok n ↔
    ∃ values, parseRecordBatch data = .ok values ∧ (values.length : ℤ) = n.toInt

/-- A header that is accepted is all there, and the bytes behind it do not matter. -/
theorem agrees_parseBatchHeader :
    Agrees 0 (8 + (4 + (4 + (1 + (4 + (2 + (4 + 0))))))) parseBatchHeader parseBatchHeader := by
  have hrest : Agrees 0 (4 + (2 + (4 + 0))) (do
      let _crc ← readInt32
      let _attributes ← readInt16
      let lastOffsetDelta ← readInt32
      pure (lastOffsetDelta + 1) : Reader Int32) _ :=
    (agrees_fixed 4 _).bind_exact fun _ => (agrees_fixed 2 _).bind_exact fun _ =>
      (agrees_fixed 4 _).bind_exact fun delta => .pure (delta + 1)
  refine (agrees_fixed 8 _).bind_exact fun _ => (agrees_fixed 4 _).bind_exact fun _ =>
    (agrees_fixed 4 _).bind_exact fun _ => (agrees_fixed 1 _).bind_exact fun magic => ?_
  exact .ite (fun _ => .throw _) fun _ => hrest

theorem agrees_parseRecordCount : Agrees 0
    (8 + (4 + (4 + (1 + (4 + (2 + (4 + 0)))))) + (8 + (8 + (8 + (2 + (4 + 0))))))
    parseRecordCount parseRecordCount := by
  refine Agrees.bind_exact agrees_parseBatchHeader fun count =>
    (agrees_fixed 8 _).bind_exact fun _ => (agrees_fixed 8 _).bind_exact fun _ =>
      (agrees_fixed 8 _).bind_exact fun _ => (agrees_fixed 2 _).bind_exact fun _ =>
        (agrees_fixed 4 _).bind_exact fun _ => ?_
  exact .ite (fun _ => .throw _) fun _ => .pure _

/-- A batch that can be parsed has an acceptable header. -/
theorem recordBatchCount_of_parseFirstBatch {data : Bytes} {values : List Bytes}
    (h : parseFirstBatch data = .ok values) : ∃ n, recordBatchCount data = .ok n := by
  rcases hrun : parseSingleRecordBatch.runOn ⟨data.take (batchSize data), 0⟩ with ⟨res, c⟩
  rw [parseFirstBatch, hrun] at h
  dsimp only at h
  subst h
  obtain ⟨n, c₁, hheader, -⟩ := runOn_bind_eq_ok.mp hrun
  obtain ⟨-, -, hoffset, hlong⟩ := agrees_parseBatchHeader _ (data.drop (batchSize data)) 0 n c₁
    (Nat.zero_le _) hheader
  rw [parseSingleRecordBatch_eq] at hrun
  obtain ⟨count, c₂, hcount, -⟩ := runOn_bind_eq_ok.mp hrun
  obtain ⟨-, hlow, hhigh, -⟩ := agrees_parseRecordCount _ [] 0 count c₂ (Nat.zero_le _) hcount
  have hle : (data.take (batchSize data)).length ≤ data.length := by
    rw [List.length_take]
    omega
  refine ⟨n, ?_⟩
  rw [recordBatchCount, if_neg (by omega)]
  rcases hlong with hlong | hfew
  · rw [List.take_append_drop] at hlong
    exact congrArg Prod.fst hlong
  · omega

/-- What the full parser makes of data with at most one complete batch. -/
theorem parseRecordBatch_eq_ok_iff {data : Bytes}
    (hsingle : ¬ StartsComplete (data.drop (batchSize data))) {values : List Bytes} :
    parseRecordBatch data = .ok values ↔
      StartsComplete data ∧ parseFirstBatch data = .ok values ∧ values ≠ [] := by
  by_cases hdata : StartsComplete data
  · have hprefix := hdata.prefix_le
    obtain ⟨fuel, hfuel⟩ : ∃ fuel, data.length = fuel + 1 := ⟨data.length - 1, by omega⟩
    rw [parseRecordBatch, hfuel, parseBatches_succ hdata]
    rcases parseFirstBatch data with (e | _) | vs
    · simp [parsedSoFar]
    · simp
    · dsimp only
      rw [parseBatches_of_not_startsComplete hsingle, List.nil_append, parsedSoFar]
      by_cases hvs : vs = []
      · simp [hvs]
      · rw [if_neg hvs, Except.ok.injEq]
        exact ⟨by rintro rfl; exact ⟨hdata, rfl, hvs⟩, fun h => h.2.1⟩
  · rw [parseRecordBatch, parseBatches_of_not_startsComplete hdata]
    simp [parsedSoFar, hdata]

end TinyKafka

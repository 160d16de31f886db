import TinyKafka.Util.RecordBatch

/-!
# Records with keys and headers

The general layout of a record: a sequence of fields, each behind its length as a signed
varint, with the number of headers in front of the header fields. `makeRecord` is the special
case without a key and without headers.

`parse_record_batch` reads the number of headers as an *unsigned* varint less one, while it is
written as a signed one. For `k` headers it therefore reads `2 * k - 1` of them, which is right
for `k ≤ 1` only. A record is itself a length and that many bytes, so the reader stays aligned:
for `k ≥ 2` it takes the next `2 * (k - 1)` records for headers, and runs out of records before
it has the number that the batch header announces (`failsOn_parseRecords`). The result is an
exact condition for decoding to undo encoding (`parseRecordBatch_encodeBatch_iff`).
-/

namespace TinyKafka

open CursorM ByteReader

/-! ### The encoder -/

/-- A field behind its length. -/
def encodeField (bs : Bytes) : Bytes := writeSignedVarint (Int32.ofNat bs.length) ++ bs

/-- A key or a value; the length of a null one is `-1`. -/
def encodeNullable : Option Bytes → Bytes
  | none => writeSignedVarint (-1)
  | some bs => encodeField bs

/-- A record of a batch. -/
structure Record where
  attributes : UInt8 := 0
  timestampDelta : Int32 := 0
  offsetDelta : Int32 := 0
  key : Option Bytes := none
  value : Option Bytes
  headers : List (Bytes × Bytes) := []
  deriving DecidableEq, Repr

namespace Record

/-- The value as the parser returns it: a null value has no bytes. -/
def valueBytes (r : Record) : Bytes := r.value.getD []

/-- The keys and the values of the headers in turn. -/
def headerFields (r : Record) : List Bytes := r.headers.flatMap fun h => [h.1, h.2]

/-- The bytes of a record up to and including the number of headers. -/
def front (r : Record) : Bytes :=
  [r.attributes] ++ (writeSignedVarint r.timestampDelta ++ (writeSignedVarint r.offsetDelta ++
    (encodeNullable r.key ++ (encodeNullable r.value ++
      writeSignedVarint (Int32.ofNat r.headers.length)))))

/-- A record without its length. -/
def body (r : Record) : Bytes := r.front ++ r.headerFields.flatMap encodeField

/-- A record, in the layout of `make_record_with_headers` with its exact length. -/
def encode (r : Record) : Bytes := encodeField r.body

/-- The lengths and deltas of a record are below `2 ^ 26` in magnitude. The length of the body
bounds those of its fields and the number of headers. -/
structure Fits (r : Record) : Prop where
  body_lt : r.body.length < 2 ^ 26
  timestampDelta_lt : r.timestampDelta.toInt.natAbs < 2 ^ 26
  offsetDelta_lt : r.offsetDelta.toInt.natAbs < 2 ^ 26

end Record

/-- The records of a batch in a row. -/
def encodeRecords (records : List Record) : Bytes := records.flatMap Record.encode

/-- A batch, with its exact length and number of records. -/
def encodeBatch (records : List Record) : Bytes :=
  frameBatch records.length (encodeRecords records)

/-- The records fit their varints, and the batch its `int32` length. -/
structure BatchFits (records : List Record) : Prop where
  record_fits : ∀ r ∈ records, r.Fits
  batch_lt : (encodeRecords records).length + 45 < 2 ^ 31

/-! ### Lengths -/

theorem encodeField_ne_nil (bs : Bytes) : encodeField bs ≠ [] := by
  intro h
  have hpos := varintEncodedSize_pos (zigzagEncode (Int32.ofNat bs.length))
  have hlen := congrArg List.length h
  rw [encodeField, List.length_append, length_writeSignedVarint, List.length_nil,
    signedVarintEncodedSize] at hlen
  omega

theorem length_le_encodeField (bs : Bytes) : bs.length ≤ (encodeField bs).length := by
  rw [encodeField, List.length_append]
  omega

theorem length_le_encodeNullable (o : Option Bytes) :
    (o.getD []).length ≤ (encodeNullable o).length := by
  cases o with
  | none => exact Nat.zero_le _
  | some bs => exact length_le_encodeField bs

theorem length_le_flatMap_encodeField {fields : List Bytes} {f : Bytes} (hf : f ∈ fields) :
    f.length ≤ (fields.flatMap encodeField).length := by
  obtain ⟨l₁, l₂, rfl⟩ := List.append_of_mem hf
  have hle := length_le_encodeField f
  simp only [List.flatMap_append, List.flatMap_cons, List.length_append]
  omega

theorem length_le_encodeRecords (records : List Record) :
    records.length ≤ (encodeRecords records).length :=
  length_le_flatMap fun r _ => encodeField_ne_nil r.body

theorem encodeRecords_eq_flatMap (records : List Record) :
    encodeRecords records = (records.map Record.body).flatMap encodeField := by
  rw [encodeRecords, List.flatMap_map]
  rfl

theorem encodeRecords_append (rs rs' : List Record) :
    encodeRecords (rs ++ rs') = encodeRecords rs ++ encodeRecords rs' :=
  List.flatMap_append

namespace Record

variable {r : Record}

@[simp] theorem length_headerFields (r : Record) :
    r.headerFields.length = 2 * r.headers.length := by
  rw [headerFields, List.length_flatMap]
  simp [Nat.mul_comm]

theorem body_ne_nil (r : Record) : r.body ≠ [] := by
  rw [body, front]
  simp

theorem Fits.key_lt (h : r.Fits) : (r.key.getD []).length < 2 ^ 26 := by
  have hlt := h.body_lt
  have hle := length_le_encodeNullable r.key
  simp only [body, front, List.length_append] at hlt
  omega

theorem Fits.value_lt (h : r.Fits) : r.valueBytes.length < 2 ^ 26 := by
  have hlt := h.body_lt
  have hle := length_le_encodeNullable r.value
  simp only [body, front, List.length_append] at hlt
  rw [valueBytes]
  omega

theorem Fits.headerField_lt (h : r.Fits) {f : Bytes} (hf : f ∈ r.headerFields) :
    f.length < 2 ^ 26 := by
  have hlt := h.body_lt
  have hle := length_le_flatMap_encodeField hf
  simp only [body, List.length_append] at hlt
  omega

theorem Fits.headers_lt (h : r.Fits) : r.headers.length < 2 ^ 26 := by
  have hlt := h.body_lt
  have hle := length_le_flatMap fun (f : Bytes) (_ : f ∈ r.headerFields) => encodeField_ne_nil f
  rw [length_headerFields] at hle
  simp only [body, List.length_append] at hlt
  omega

end Record

/-! ### Reading fields -/

theorem reads_delta {w : Int32} (h : w.toInt.natAbs < 2 ^ 26) :
    Reads readSignedVarint (writeSignedVarint w) w := by
  have hlt := toNat_zigzagEncode_lt h
  exact reads_readSignedVarint (by omega)

/-- A key or a value behind its length. -/
theorem reads_nullable_bind {γ : Type} {o : Option Bytes} (h : (o.getD []).length < 2 ^ 26)
    {f : Bytes → Reader γ} {cs : Bytes} {b : γ} (hf : Reads (f (o.getD [])) cs b) :
    Reads (do let len ← readSignedVarint; let bs ← readSized len; f bs)
      (encodeNullable o ++ cs) b := by
  cases o with
  | none => exact (reads_delta (by decide)).bind (Reads.nil_bind (Reads.pure []) hf)
  | some bs =>
    rw [Option.getD_some] at h hf
    rw [encodeNullable, encodeField, List.append_assoc]
    exact (reads_length (by omega)).bind ((reads_readSized (by omega)).bind hf)

theorem reads_field_bind {γ : Type} {bs : Bytes} (h : bs.length < 2 ^ 26) {f : Reader γ}
    {cs : Bytes} {b : γ} (hf : Reads f cs b) :
    Reads (do let len ← readSignedVarint; let _ ← readSized len; f) (encodeField bs ++ cs) b := by
  rw [encodeField, List.append_assoc]
  exact (reads_length (by omega)).bind ((reads_readSized (by omega)).bind hf)

theorem failsOn_field_bind {γ : Type} {bs : Bytes} (h : bs.length < 2 ^ 26) {f : Reader γ}
    {cs : Bytes} (hf : FailsOn f cs) :
    FailsOn (do let len ← readSignedVarint; let _ ← readSized len; f)
      (encodeField bs ++ cs) := by
  rw [encodeField, List.append_assoc]
  exact (reads_length (by omega)).bind_failsOn ((reads_readSized (by omega)).bind_failsOn hf)

theorem failsOn_readSignedVarint : FailsOn readSignedVarint [] := by
  intro pre
  refine ⟨.errc .messageSize, ⟨pre ++ [], pre.length⟩, ?_⟩
  rw [readSignedVarint, varint, runOn_ofRun, Cursor.rest_append]
  rfl

/-- The header loop takes two fields in a turn, whatever they belong to. -/
theorem reads_skipHeaders {fields : List Bytes} {n : ℕ} (hlen : fields.length = 2 * n)
    (h : ∀ f ∈ fields, f.length < 2 ^ 26) :
    Reads (skipHeaders n) (fields.flatMap encodeField) () := by
  induction n generalizing fields with
  | zero =>
    obtain rfl : fields = [] := List.length_eq_zero_iff.mp hlen
    exact Reads.pure ()
  | succ n ih =>
    match fields with
    | [] => simp at hlen
    | [_] => simp only [List.length_singleton] at hlen; omega
    | key :: value :: fields =>
      simp only [List.length_cons] at hlen
      simp only [List.mem_cons, forall_eq_or_imp] at h
      rw [List.flatMap_cons, List.flatMap_cons]
      exact reads_field_bind h.1 (reads_field_bind h.2.1 (ih (by omega) h.2.2))

theorem failsOn_skipHeaders {fields : List Bytes} {n : ℕ} (hlen : fields.length < 2 * n)
    (h : ∀ f ∈ fields, f.length < 2 ^ 26) :
    FailsOn (skipHeaders n) (fields.flatMap encodeField) := by
  induction n generalizing fields with
  | zero => omega
  | succ n ih =>
    match fields with
    | [] => exact failsOn_readSignedVarint.bind _
    | [key] =>
      exact failsOn_field_bind (h key List.mem_cons_self) (failsOn_readSignedVarint.bind _)
    | key :: value :: fields =>
      simp only [List.length_cons] at hlen
      simp only [List.mem_cons, forall_eq_or_imp] at h
      rw [List.flatMap_cons, List.flatMap_cons]
      exact failsOn_field_bind h.1 (failsOn_field_bind h.2.1 (ih (by omega) h.2.2))

/-! ### Reading records -/

/-- What is read of a record up to the number of its headers. -/
def parseRecordFront : Reader (Bytes × UInt32) := do
  let _attrs ← readInt8
  let _timestampDelta ← readSignedVarint
  let _offsetDelta ← readSignedVarint
  let keyLen ← readSignedVarint
  let _ ← readSized keyLen
  let valueLen ← readSignedVarint
  let value ← readSized valueLen
  let headersCount ← readVarint
  pure (value, headersCount)

theorem parseRecordBody_eq :
    parseRecordBody = parseRecordFront >>= fun front =>
      skipHeaders (front.2.toNat - 1) >>= fun _ => pure front.1 := by
  simp only [parseRecordBody, parseRecordFront, bind_assoc, pure_bind]

section Records

variable {r : Record} {rs : List Record}

/-- The signed number of headers is read as an unsigned one: as its double. -/
theorem reads_parseRecordFront (h : r.Fits) :
    ∃ count : UInt32, count.toNat = 2 * r.headers.length ∧
      Reads parseRecordFront r.front (r.valueBytes, count) := by
  have hlt := h.headers_lt
  have hint : (Int32.ofNat r.headers.length).toInt = r.headers.length :=
    Int32.toInt_ofNat_of_lt (by omega)
  have hcount : (zigzagEncode (Int32.ofNat r.headers.length)).toNat = 2 * r.headers.length := by
    rw [toNat_zigzagEncode (by omega), hint, Int.toNat_natCast]
  refine ⟨_, hcount, ?_⟩
  refine (reads_readInt8 _).bind ((reads_delta h.timestampDelta_lt).bind
    ((reads_delta h.offsetDelta_lt).bind ?_))
  refine reads_nullable_bind h.key_lt (reads_nullable_bind h.value_lt ?_)
  exact (reads_readVarint (by omega)).bind_nil (Reads.pure _)

/-- The fields that the header loop of a record sees: its own, and then the records behind
it. -/
private theorem body_append_encodeRecords (r : Record) (rs : List Record) :
    r.body ++ encodeRecords rs =
      r.front ++ (r.headerFields ++ rs.map Record.body).flatMap encodeField := by
  rw [Record.body, encodeRecords_eq_flatMap, List.flatMap_append, List.append_assoc]

private theorem field_lt (h : r.Fits) (hrs : ∀ r' ∈ rs, r'.Fits) {f : Bytes}
    (hf : f ∈ r.headerFields ++ rs.map Record.body) : f.length < 2 ^ 26 := by
  rcases List.mem_append.mp hf with hf | hf
  · exact h.headerField_lt hf
  · obtain ⟨r', hr', rfl⟩ := List.mem_map.mp hf
    exact (hrs r' hr').body_lt

/-- With `k` headers the record parser takes `k - 1` pairs of records behind the record for
headers. -/
theorem reads_parseRecordBody_append (h : r.Fits) (hrs : ∀ r' ∈ rs, r'.Fits)
    (hlen : rs.length = 2 * (r.headers.length - 1)) :
    Reads parseRecordBody (r.body ++ encodeRecords rs) r.valueBytes := by
  obtain ⟨count, hcount, hfront⟩ := reads_parseRecordFront h
  rw [parseRecordBody_eq, body_append_encodeRecords]
  refine hfront.bind ?_
  have hfields : (r.headerFields ++ rs.map Record.body).length = 2 * (count.toNat - 1) := by
    rw [List.length_append, List.length_map, Record.length_headerFields, hcount, hlen]
    omega
  exact (reads_skipHeaders hfields fun f hf => field_lt h hrs hf).bind_nil (Reads.pure _)

/-- It fails when there are not as many records. -/
theorem failsOn_parseRecordBody (h : r.Fits) (hrs : ∀ r' ∈ rs, r'.Fits)
    (hlen : rs.length < 2 * (r.headers.length - 1)) :
    FailsOn parseRecordBody (r.body ++ encodeRecords rs) := by
  obtain ⟨count, hcount, hfront⟩ := reads_parseRecordFront h
  rw [parseRecordBody_eq, body_append_encodeRecords]
  refine hfront.bind_failsOn ?_
  have hfields : (r.headerFields ++ rs.map Record.body).length < 2 * (count.toNat - 1) := by
    rw [List.length_append, List.length_map, Record.length_headerFields, hcount]
    omega
  exact (failsOn_skipHeaders hfields fun f hf => field_lt h hrs hf).bind _

/-- The length of a record says that it has a body. -/
private theorem reads_bodySize (h : r.Fits) :
    Reads readSignedVarint (writeSignedVarint (Int32.ofNat r.body.length))
        (Int32.ofNat r.body.length) ∧ ¬ Int32.ofNat r.body.length ≤ 0 := by
  have hlt := h.body_lt
  have hpos := List.length_pos_of_ne_nil r.body_ne_nil
  refine ⟨reads_length (by omega), ?_⟩
  rw [Int32.le_iff_toInt_le, Int32.toInt_ofNat_of_lt (by omega), Int32.toInt_zero]
  omega

/-- Records with at most one header are read one by one. -/
theorem reads_parseRecords_encodeRecords (h : ∀ r ∈ rs, r.Fits)
    (hheaders : ∀ r ∈ rs, r.headers.length ≤ 1) :
    Reads (parseRecords rs.length) (encodeRecords rs) (rs.map Record.valueBytes) := by
  induction rs with
  | nil => exact Reads.pure []
  | cons r rs ih =>
    rw [List.forall_mem_cons] at h hheaders
    obtain ⟨hsize, hpos⟩ := reads_bodySize h.1
    have hbody := reads_parseRecordBody_append h.1 (List.forall_mem_nil _)
      (by rw [List.length_nil]; omega)
    rw [encodeRecords, List.flatMap_nil, List.append_nil] at hbody
    rw [encodeRecords, List.flatMap_cons, Record.encode, encodeField, List.append_assoc]
    refine hsize.bind ?_
    rw [if_neg hpos]
    exact hbody.bind ((ih h.2 hheaders.2).bind_nil (Reads.pure _))

/-- The record loop fails when the batch announces more records than it holds, and when it
announces as many and one of them has two headers or more. -/
theorem failsOn_parseRecords {n : ℕ} (h : ∀ r ∈ rs, r.Fits)
    (hn : rs.length < n ∨ rs.length = n ∧ ∃ r ∈ rs, 1 < r.headers.length) :
    FailsOn (parseRecords n) (encodeRecords rs) := by
  induction n generalizing rs with
  | zero =>
    rcases hn with hn | ⟨hn, r, hr, -⟩
    · omega
    · rw [List.length_eq_zero_iff.mp hn] at hr
      cases hr
  | succ n ih =>
    cases rs with
    | nil => exact failsOn_readSignedVarint.bind _
    | cons r rs =>
      rw [List.forall_mem_cons] at h
      rw [List.length_cons] at hn
      obtain ⟨hsize, hpos⟩ := reads_bodySize h.1
      rw [encodeRecords, List.flatMap_cons, Record.encode, encodeField, List.append_assoc,
        ← encodeRecords]
      refine hsize.bind_failsOn ?_
      rw [if_neg hpos]
      by_cases hfew : rs.length < 2 * (r.headers.length - 1)
      · exact (failsOn_parseRecordBody h.1 h.2 hfew).bind _
      · -- the record swallows `2 * (k - 1)` of the records behind it
        have hbody := reads_parseRecordBody_append h.1
          (fun r' (hr' : r' ∈ rs.take (2 * (r.headers.length - 1))) =>
            h.2 r' (List.mem_of_mem_take hr'))
          (List.length_take_of_le (by omega))
        rw [← List.take_append_drop (2 * (r.headers.length - 1)) rs, encodeRecords_append,
          ← List.append_assoc]
        refine hbody.bind_failsOn (FailsOn.bind (ih ?_ ?_) _)
        · exact fun r' hr' => h.2 r' (List.mem_of_mem_drop hr')
        · rw [List.length_drop]
          by_cases hone : r.headers.length ≤ 1
          · have hzero : 2 * (r.headers.length - 1) = 0 := by omega
            rw [hzero, List.drop_zero, Nat.sub_zero]
            rcases hn with hn | ⟨hn, r', hr', hr'two⟩
            · exact .inl (by omega)
            · rcases List.mem_cons.mp hr' with rfl | hr'
              · omega
              · exact .inr ⟨by omega, r', hr', hr'two⟩
          · exact .inl (by omega)

end Records

/-! ### Decoding a concatenation of batches -/

section Batches

variable {rs : List Record} {batches : List (List Record)}

/-- The values of the records of a batch. -/
def recordValues (records : List Record) : List Bytes := records.map Record.valueBytes

theorem BatchFits.length_lt (h : BatchFits rs) : rs.length < 2 ^ 31 := by
  have hle := length_le_encodeRecords rs
  have hlt := h.batch_lt
  omega

theorem parseBatches_encodeBatch (h : BatchFits rs) (hheaders : ∀ r ∈ rs, r.headers.length ≤ 1)
    (fuel : ℕ) (rest : Bytes) (acc : List Bytes) :
    parseBatches (fuel + 1) (encodeBatch rs ++ rest) acc =
      parseBatches fuel rest (acc ++ recordValues rs) :=
  parseBatches_reads h.batch_lt
    (reads_frameBatch h.length_lt (reads_parseRecords_encodeRecords h.record_fits hheaders))
    fuel rest acc

/-- A batch with a record of two headers or more adds no value. -/
theorem parseBatches_encodeBatch_of_headers (h : BatchFits rs)
    (hheaders : ∃ r ∈ rs, 1 < r.headers.length) (fuel : ℕ) (rest : Bytes) (acc : List Bytes) :
    (∃ e, parseBatches (fuel + 1) (encodeBatch rs ++ rest) acc = .error e) ∨
      parseBatches (fuel + 1) (encodeBatch rs ++ rest) acc = .ok acc := by
  obtain ⟨e, c, hrun⟩ := failsOn_frameBatch h.length_lt
    (failsOn_parseRecords h.record_fits (.inr ⟨rfl, hheaders⟩)) []
  rw [encodeBatch, parseBatches_frame h.batch_lt]
  rw [List.nil_append, List.length_nil] at hrun
  rw [hrun]
  cases e with
  | lengthError => exact .inl ⟨_, rfl⟩
  | errc e =>
    dsimp only
    rw [parsedSoFar]
    split
    · exact .inl ⟨_, rfl⟩
    · exact .inr rfl

/-- The loop stops at the first such batch. -/
theorem parseBatches_ne_of_headers (h : ∀ rs ∈ batches, rs ≠ [] ∧ BatchFits rs)
    (hheaders : ∃ rs ∈ batches, ∃ r ∈ rs, 1 < r.headers.length) (fuel : ℕ) (acc : List Bytes) :
    parseBatches (fuel + batches.length) (batches.flatMap encodeBatch) acc ≠
      .ok (acc ++ batches.flatMap recordValues) := by
  induction batches generalizing acc with
  | nil =>
    obtain ⟨rs, hrs, -⟩ := hheaders
    cases hrs
  | cons rs batches ih =>
    rw [List.forall_mem_cons] at h
    rw [List.flatMap_cons, List.flatMap_cons, List.length_cons, ← Nat.add_assoc]
    by_cases hrs : ∃ r ∈ rs, 1 < r.headers.length
    · intro heq
      rcases parseBatches_encodeBatch_of_headers h.1.2 hrs (fuel + batches.length)
        (batches.flatMap encodeBatch) acc with ⟨e, hres⟩ | hres
      · rw [hres] at heq
        cases heq
      · -- the values of this batch are missing
        rw [hres] at heq
        have hlen := congrArg List.length (Except.ok.inj heq)
        have hpos := List.length_pos_of_ne_nil h.1.1
        simp only [recordValues, List.length_append, List.length_map] at hlen
        omega
    · have hone : ∀ r ∈ rs, r.headers.length ≤ 1 := by
        intro r hr
        by_contra hlt
        exact hrs ⟨r, hr, by omega⟩
      have hrest : ∃ rs' ∈ batches, ∃ r ∈ rs', 1 < r.headers.length := by
        obtain ⟨rs', hmem, r, hr, hlt⟩ := hheaders
        rcases List.mem_cons.mp hmem with rfl | hmem
        · exact absurd ⟨r, hr, hlt⟩ hrs
        · exact ⟨rs', hmem, r, hr, hlt⟩
      rw [parseBatches_encodeBatch h.1.2 hone, ← List.append_assoc]
      exact ih h.2 hrest _

/-- **Decoding undoes encoding exactly for records with at most one header.** -/
theorem parseRecordBatch_encodeBatch_iff (hne : batches ≠ [])
    (h : ∀ rs ∈ batches, rs ≠ [] ∧ BatchFits rs) :
    parseRecordBatch (batches.flatMap encodeBatch) = .ok (batches.flatMap recordValues) ↔
      ∀ rs ∈ batches, ∀ r ∈ rs, r.headers.length ≤ 1 := by
  have hfuel : batches.length ≤ (batches.flatMap encodeBatch).length :=
    length_le_flatMap fun rs _ => frameBatch_ne_nil _ _
  obtain ⟨fuel, hfuel⟩ := Nat.exists_eq_add_of_le' hfuel
  rw [parseRecordBatch, hfuel]
  constructor
  · intro hok rs hrs r hr
    by_contra hlt
    exact parseBatches_ne_of_headers h ⟨rs, hrs, r, hr, by omega⟩ fuel [] hok
  · intro hone
    have hvalues : batches.flatMap recordValues ≠ [] := by
      obtain ⟨rs, hrs⟩ := List.exists_mem_of_ne_nil batches hne
      intro hnil
      have hempty := List.flatMap_eq_nil_iff.mp hnil rs hrs
      exact (h rs hrs).1 (List.map_eq_nil_iff.mp hempty)
    have hloop := parseBatches_flatMap
      (fun rs hrs => parseBatches_encodeBatch (h rs hrs).2 (hone rs hrs)) fuel [] []
    rw [List.append_nil, List.nil_append] at hloop
    rw [hloop]
    cases fuel <;> exact if_neg hvalues

end Batches

/-- A record with a key and `n` headers. -/
def recordWithHeaders (n : ℕ) : Record :=
  { key := some [7], value := some [1, 2], headers := List.replicate n ([3], []) }

theorem batchFits_recordWithHeaders :
    ∀ n ≤ 2, BatchFits [recordWithHeaders n, { value := none }] := by
  intro n hn
  refine ⟨fun r hr => ?_, ?_⟩
  · rcases List.mem_pair.mp hr with rfl | rfl
    · refine ⟨?_, ?_, ?_⟩ <;> interval_cases n <;> decide
    · exact ⟨by decide, by decide, by decide⟩
  · interval_cases n <;> decide

theorem parseRecordBatch_oneHeader :
    parseRecordBatch ([[recordWithHeaders 1, { value := none }]].flatMap encodeBatch) =
      .ok [[1, 2], []] := by
  refine (parseRecordBatch_encodeBatch_iff (by decide) ?_).mpr (by decide)
  intro rs hrs
  rw [List.mem_singleton.mp hrs]
  exact ⟨by decide, batchFits_recordWithHeaders 1 (by decide)⟩

/-- Two headers are read as three, and the third one runs out of the batch. -/
theorem parseRecordBatch_twoHeaders :
    BatchFits [recordWithHeaders 2, { value := none }] ∧
      parseRecordBatch ([[recordWithHeaders 2, { value := none }]].flatMap encodeBatch) =
        .error (.errc .messageSize) :=
  ⟨batchFits_recordWithHeaders 2 (by decide), by decide +kernel⟩

end TinyKafka

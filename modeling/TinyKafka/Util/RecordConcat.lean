import TinyKafka.Util.RecordCounts

/-!
# Concatenated record batches

The loop of `parse_record_batch` can end in four places, and what it returns there depends on
whether it has collected values. Where it ends does not: with values in front, the loop visits
the same batches, and an error turns into the end of the list (`parseBatches_append_acc`). So
the parser is compositional on data whose first part consists of complete batches with some
value in them (`parseRecordBatch_concat`), and a torn or corrupt tail takes nothing away.
-/

namespace TinyKafka

open CursorM ByteReader

/-- A complete batch that `parse_single_record_batch` accepts, and its values. -/
structure AcceptedBatch (batch : Bytes) (values : List Bytes) : Prop where
  prefix_le : 12 ≤ batch.length
  nonneg : 0 ≤ batchLength batch
  size_eq : batchSize batch = batch.length
  parsed : (parseSingleRecordBatch.runOn ⟨batch, 0⟩).1 = .ok values

/-- The values that `parse_record_batch` returns, none for an error. -/
def parsedValues (data : Bytes) : List Bytes :=
  match parseRecordBatch data with
  | .ok values => values
  | .error _ => []

/-! ### One batch -/

/-- The length field lies in the first batch. -/
theorem batchLength_append {batch : Bytes} (h : 12 ≤ batch.length) (rest : Bytes) :
    batchLength (batch ++ rest) = batchLength batch := by
  rw [batchLength, List.drop_append_of_le_length (by omega),
    List.take_append_of_le_length (by rw [List.length_drop]; omega), batchLength]

theorem AcceptedBatch.ne_nil {batch : Bytes} {values : List Bytes}
    (h : AcceptedBatch batch values) : batch ≠ [] := by
  rintro rfl
  exact absurd h.prefix_le (by decide)

theorem AcceptedBatch.startsComplete {batch : Bytes} {values : List Bytes}
    (h : AcceptedBatch batch values) (rest : Bytes) : StartsComplete (batch ++ rest) := by
  have hprefix := h.prefix_le
  have hsize := h.size_eq
  refine ⟨?_, ?_, ?_⟩
  · rw [List.length_append]
    omega
  · rw [batchLength_append h.prefix_le]
    exact h.nonneg
  · rw [batchSize, batchLength_append h.prefix_le, ← batchSize, List.length_append]
    omega

/-- The loop takes up an accepted batch and goes on behind it. -/
theorem AcceptedBatch.parseBatches {batch : Bytes} {values : List Bytes}
    (h : AcceptedBatch batch values) (fuel : ℕ) (rest : Bytes) (acc : List Bytes) :
    parseBatches (fuel + 1) (batch ++ rest) acc =
      TinyKafka.parseBatches fuel rest (acc ++ values) := by
  have hsize : batchSize (batch ++ rest) = batch.length := by
    rw [batchSize, batchLength_append h.prefix_le, ← batchSize, h.size_eq]
  rw [parseBatches_succ (h.startsComplete rest), parseFirstBatch, hsize, List.take_left,
    List.drop_left, h.parsed]

/-! ### The loop -/

/-- Once there are enough turns, their number does not matter. -/
theorem parseBatches_fuel {fuel fuel' : ℕ} {data : Bytes} (h : data.length ≤ fuel)
    (h' : data.length ≤ fuel') (acc : List Bytes) :
    parseBatches fuel data acc = parseBatches fuel' data acc := by
  induction fuel generalizing fuel' data acc with
  | zero =>
    have hdata : ¬ StartsComplete data := fun hdata => by
      have hprefix := hdata.prefix_le
      omega
    rw [parseBatches_of_not_startsComplete hdata, parseBatches_of_not_startsComplete hdata]
  | succ fuel ih =>
    by_cases hdata : StartsComplete data
    · have hprefix := hdata.prefix_le
      obtain ⟨n, rfl⟩ : ∃ n, fuel' = n + 1 := ⟨fuel' - 1, by omega⟩
      have hrest : (data.drop (batchSize data)).length + 12 ≤ data.length := by
        rw [List.length_drop, batchSize]
        omega
      rw [parseBatches_succ hdata, parseBatches_succ hdata]
      split
      next values _ => exact ih (by omega) (by omega) (acc ++ values)
      next => rfl
      next => rfl
    · rw [parseBatches_of_not_startsComplete hdata, parseBatches_of_not_startsComplete hdata]

/-- What a result becomes when there are values in front of it: an error code only ends the
list. -/
def withFront (front : List Bytes) : Except Failure (List Bytes) → Except Failure (List Bytes)
  | .ok values => .ok (front ++ values)
  | .error (.errc _) => .ok front
  | .error .lengthError => .error .lengthError

theorem withFront_parsedSoFar {front : List Bytes} (hfront : front ≠ []) (acc : List Bytes)
    (e e' : Errc) :
    parsedSoFar (front ++ acc) e = withFront front (parsedSoFar acc e') := by
  rw [parsedSoFar, if_neg (by simp [hfront]), parsedSoFar]
  by_cases hacc : acc = []
  · rw [if_pos hacc, hacc, List.append_nil]
    rfl
  · rw [if_neg hacc]
    rfl

/-- Values in front change neither where the loop goes nor what it collects there. -/
theorem parseBatches_append_acc {front : List Bytes} (hfront : front ≠ []) (fuel : ℕ)
    (data : Bytes) (acc : List Bytes) :
    parseBatches fuel data (front ++ acc) = withFront front (parseBatches fuel data acc) := by
  induction fuel generalizing data acc with
  | zero => exact withFront_parsedSoFar hfront acc _ _
  | succ fuel ih =>
    by_cases hdata : StartsComplete data
    · rw [parseBatches_succ hdata, parseBatches_succ hdata]
      split
      next values _ => rw [List.append_assoc, ih]
      next => exact withFront_parsedSoFar hfront acc _ _
      next => rfl
    · rw [parseBatches_of_not_startsComplete hdata, parseBatches_of_not_startsComplete hdata]
      exact withFront_parsedSoFar hfront acc _ _

/-! ### The concatenation law -/

/-- The parser on a list of accepted batches and whatever follows them. -/
theorem parseRecordBatch_append_accepted {batches : List (Bytes × List Bytes)}
    (h : ∀ b ∈ batches, AcceptedBatch b.1 b.2) (hne : batches.flatMap Prod.snd ≠ [])
    (rest : Bytes) :
    parseRecordBatch (batches.flatMap Prod.fst ++ rest) =
      withFront (batches.flatMap Prod.snd) (parseRecordBatch rest) := by
  have hturns : batches.length ≤ (batches.flatMap Prod.fst).length :=
    length_le_flatMap fun b hb => (h b hb).ne_nil
  obtain ⟨fuel, hfuel⟩ : ∃ fuel, (batches.flatMap Prod.fst ++ rest).length =
      fuel + batches.length := by
    refine ⟨(batches.flatMap Prod.fst ++ rest).length - batches.length, ?_⟩
    rw [List.length_append]
    omega
  have hrest : rest.length ≤ fuel := by
    rw [List.length_append] at hfuel
    omega
  rw [parseRecordBatch, hfuel, parseBatches_flatMap fun b hb => (h b hb).parseBatches,
    List.nil_append, ← List.append_nil (batches.flatMap Prod.snd),
    parseBatches_append_acc hne, List.append_nil, parseRecordBatch,
    parseBatches_fuel hrest (Nat.le_refl _)]

theorem withFront_parseRecordBatch {data : Bytes} (h : ReturnsNormally data)
    (front : List Bytes) :
    withFront front (parseRecordBatch data) = .ok (front ++ parsedValues data) := by
  rw [parsedValues]
  rcases h with ⟨values, hok⟩ | ⟨e, herror⟩
  · rw [hok]
    rfl
  · rw [herror]
    exact congrArg Except.ok (List.append_nil front).symm

/-- **Batch concatenation law.** Accepted batches with at least one value, followed by data on
which the parser returns, are parsed to the values of the batches and then those of the data,
if it has any. -/
theorem parseRecordBatch_concat {batches : List (Bytes × List Bytes)}
    (h : ∀ b ∈ batches, AcceptedBatch b.1 b.2) (hne : batches.flatMap Prod.snd ≠ [])
    {rest : Bytes} (hrest : ReturnsNormally rest) :
    parseRecordBatch (batches.flatMap Prod.fst ++ rest) =
      .ok (batches.flatMap Prod.snd ++ parsedValues rest) := by
  rw [parseRecordBatch_append_accepted h hne, withFront_parseRecordBatch hrest]

/-- A batch without records, one with a value, and a torn header. -/
theorem parseRecordBatch_concat_torn :
    parseRecordBatch ((makeRecordBatchV2 [] ++ makeRecordBatchV2 [[1]]) ++ [0, 0, 0]) =
      .ok [[1]] := by
  have hempty : AcceptedBatch (makeRecordBatchV2 []) [] :=
    ⟨by decide +kernel, by decide +kernel, by decide +kernel, by decide +kernel⟩
  have hone : AcceptedBatch (makeRecordBatchV2 [[1]]) [[1]] :=
    ⟨by decide +kernel, by decide +kernel, by decide +kernel, by decide +kernel⟩
  have hbatches : ∀ b ∈ [(makeRecordBatchV2 [], []), (makeRecordBatchV2 [[1]], [[1]])],
      AcceptedBatch b.1 b.2 :=
    List.forall_mem_cons.mpr ⟨hempty, List.forall_mem_singleton.mpr hone⟩
  have htorn : ReturnsNormally [0, 0, 0] := .inr ⟨.messageSize, by decide⟩
  exact parseRecordBatch_concat hbatches (by decide) htorn

end TinyKafka

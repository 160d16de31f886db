import TinyKafka.Protocol.ResponseFormat

/-!
# The size of a DescribeTopicPartitions response

The serializer reserves one byte for the number of topics and writes it as a varint. Every
other part of the response takes as many bytes as were computed for it
(`encodes_describeTopic`), so the buffer is filled exactly as long as the number of topics plus
one fits in a varint of one byte; with more topics the last writes run out of room
(`describe_fillsBuffer_iff`). The number of topics is that of the request.
-/

namespace TinyKafka

namespace Serializer

open ByteWriter BufferM

attribute [ext] TopicMetadata

theorem encodes_describePartition : Encodes writeDescribePartition partitionEntrySize id := by
  have h := (encodes_writeInt16.comp PartitionMetadata.errorCode).bind <|
    (encodes_writeInt32.comp PartitionMetadata.partitionIndex).bind <|
    (encodes_writeInt32.comp PartitionMetadata.leaderId).bind <|
    (encodes_writeInt32.comp PartitionMetadata.leaderEpoch).bind <|
    (encodes_int32Array.comp PartitionMetadata.replicaNodes).bind <|
    (encodes_int32Array.comp PartitionMetadata.isrNodes).bind <|
    (encodes_int32Array.comp PartitionMetadata.eligibleLeaderReplicas).bind <|
    (encodes_int32Array.comp PartitionMetadata.lastKnownElr).bind <|
    (encodes_int32Array.comp PartitionMetadata.offlineReplicas).bind encodes_tag
  refine h.congr (fun p => ?_) fun p p' hkey => ?_
  · rw [partitionEntrySize]
    omega
  · simp_all [PartitionMetadata.ext_iff]

/-- The branch for an empty array writes what the loop would. -/
theorem writeDescribeTopic_eq (t : TopicMetadata) :
    writeDescribeTopic t = (do
      writeInt16 t.errorCode
      writeCompactString t.topicName
      writeBytes t.topicId.1
      writeInt8 (if t.isInternal then 1 else 0)
      writeArray writeDescribePartition t.partitions
      writeInt32 t.authorizedOperations
      writeInt8 0x00) := by
  obtain ⟨errorCode, topicName, topicId, isInternal, authorizedOperations, partitions⟩ := t
  cases partitions with
  | nil =>
    have hone : writeUnsignedVarint (lengthVarint 0) = [0x01] := by decide
    have hnil : writeArray writeDescribePartition [] = writeInt8 0x01 :=
      bind_pure_unit.trans (congrArg put hone)
    rw [hnil]
    rfl
  | cons p l => rfl

/-- The size of an empty array is what the general formula gives for it. -/
theorem describeTopicSize_eq (t : TopicMetadata) :
    describeTopicSize t =
      2 + stringSize t.topicName + 16 + 1 + 4 + 1 + arraySize partitionEntrySize t.partitions := by
  rw [describeTopicSize]
  cases t.partitions with
  | nil => rfl
  | cons p l => rfl

theorem describeTopicSize_ge (t : TopicMetadata) : 24 ≤ describeTopicSize t := by
  rw [describeTopicSize_eq]
  omega

theorem encodes_describeTopic : Encodes writeDescribeTopic describeTopicSize id := by
  have harray := encodes_array encodes_describePartition fun _ => Nat.succ_pos _
  have h := (encodes_writeInt16.comp TopicMetadata.errorCode).bind <|
    (encodes_string.comp TopicMetadata.topicName).bind <|
    (encodes_writeUuid.comp TopicMetadata.topicId).bind <|
    (encodes_bool.comp TopicMetadata.isInternal).bind <|
    (harray.comp TopicMetadata.partitions).bind <|
    (encodes_writeInt32.comp TopicMetadata.authorizedOperations).bind encodes_tag
  rw [show writeDescribeTopic = _ from funext writeDescribeTopic_eq]
  refine h.congr (fun t => ?_) fun t t' hkey => ?_
  · rw [describeTopicSize_eq]
    omega
  · simp_all [TopicMetadata.ext_iff]

/-- What is written: as much as was computed, with the number of topics in place of its one
byte. -/
theorem exists_writes_describeTopicPartitions (r : DescribeTopicPartitionsResponse) :
    ∃ bs : Bytes, Writes (writeDescribeTopicPartitions r) bs ∧
      bs.length + 1 =
        describeTopicPartitionsSize r + varintEncodedSize (lengthVarint r.topics.length) := by
  have harray := encodes_array encodes_describeTopic fun t =>
    (describeTopicSize_ge t).trans_lt' (by decide)
  obtain ⟨bs, hwrites, hlen⟩ := harray.exists_writes r.topics
  refine ⟨_, (writes_put _).bind ((writes_put _).bind ((writes_put _).bind (hwrites.bind
    ((writes_put _).bind (writes_put _))))), ?_⟩
  simp only [List.length_append, length_writeInt32Be, List.length_cons, List.length_nil, hlen,
    arraySize, describeTopicPartitionsSize, kResponseHeaderV1Size]
  omega

/-! ### Running out of room -/

theorem strict_writeArray {α : Type} {write : α → Writer Unit} (h : ∀ a, Strict (write a))
    (l : List α) : Strict (writeArray write l) :=
  (strict_put _).bind (Strict.forM h l)

theorem strict_writeDescribePartition (p : PartitionMetadata) :
    Strict (writeDescribePartition p) := by
  have hnodes : ∀ arr, Strict (writeCompactInt32Array arr) :=
    strict_writeArray fun _ => strict_put _
  exact (strict_put _).bind <| (strict_put _).bind <| (strict_put _).bind <| (strict_put _).bind <|
    (hnodes _).bind <| (hnodes _).bind <| (hnodes _).bind <| (hnodes _).bind <| (hnodes _).bind <|
    strict_put _

theorem strict_writeDescribeTopic (t : TopicMetadata) : Strict (writeDescribeTopic t) := by
  rw [writeDescribeTopic_eq]
  exact (strict_put _).bind <| ((strict_put _).bind (strict_put _)).bind <| (strict_put _).bind <|
    (strict_put _).bind <| (strict_writeArray strict_writeDescribePartition _).bind <|
    (strict_put _).bind (strict_put _)

theorem strict_writeDescribeTopicPartitions (r : DescribeTopicPartitionsResponse) :
    Strict (writeDescribeTopicPartitions r) :=
  (strict_put _).bind <| (strict_put _).bind <| (strict_put _).bind <|
    (strict_writeArray strict_writeDescribeTopic _).bind <| (strict_put _).bind (strict_put _)

/-! ### The number of topics -/

theorem le_sum_describeTopicSize (topics : List TopicMetadata) :
    24 * topics.length ≤ (topics.map describeTopicSize).sum := by
  induction topics with
  | nil => rfl
  | cons t topics ih =>
    have ht := describeTopicSize_ge t
    rw [List.map_cons, List.sum_cons, List.length_cons]
    omega

/-- A body that fits in an `int32` has too few topics for their number to wrap around. -/
theorem length_topics_lt {r : DescribeTopicPartitionsResponse}
    (h : describeTopicPartitionsSize r < 2 ^ 31) : r.topics.length < 2 ^ 28 := by
  have hsum := le_sum_describeTopicSize r.topics
  rw [describeTopicPartitionsSize] at h
  omega

/-- One byte is enough for the number of up to `126` topics. -/
theorem varintEncodedSize_topics {r : DescribeTopicPartitionsResponse}
    (h : describeTopicPartitionsSize r < 2 ^ 31) :
    varintEncodedSize (lengthVarint r.topics.length) ≤ 1 ↔ r.topics.length ≤ 126 := by
  have hlt := length_topics_lt h
  rw [varintEncodedSize_le_one, toNat_lengthVarint (by omega)]
  omega

end Serializer

open Serializer BufferM

/-- With more topics a write runs out of room. -/
theorem describe_write_eq_none {r : DescribeTopicPartitionsResponse}
    (hfit : describeTopicPartitionsSize r < 2 ^ 31) (hmany : 126 < r.topics.length) :
    (Response.describeTopicPartitions r).write = none := by
  obtain ⟨bs, hwrites, hlen⟩ := exists_writes_describeTopicPartitions r
  have hsize := varintEncodedSize_topics hfit
  have hlong : describeTopicPartitionsSize r < bs.length := by omega
  exact fillBuffer_eq_none (strict_writeDescribeTopicPartitions r) hwrites hlong

/-- **When the buffer of a DescribeTopicPartitions response is filled exactly.** For every
response whose body fits in an `int32`: if and only if it has at most `126` topics. -/
theorem describe_fillsBuffer_iff (r : DescribeTopicPartitionsResponse)
    (hfit : (Response.describeTopicPartitions r).bodySize < 2 ^ 31) :
    (Response.describeTopicPartitions r).FillsBuffer ↔ r.topics.length ≤ 126 := by
  constructor
  · rintro ⟨buf, hwrite, -⟩
    by_contra hmany
    rw [describe_write_eq_none hfit (not_le.mp hmany)] at hwrite
    cases hwrite
  · intro hfew
    obtain ⟨bs, hwrites, hlen⟩ := exists_writes_describeTopicPartitions r
    have hsize := (varintEncodedSize_topics hfit).mpr hfew
    have hpos := varintEncodedSize_pos (lengthVarint r.topics.length)
    have hbody : bs.length = describeTopicPartitionsSize r := by omega
    exact Response.fillsBuffer_of_writes hwrites hbody hfit

/-- The answer to a request for `n` topics that do not exist. -/
def unknownTopics (n : ℕ) : DescribeTopicPartitionsResponse :=
  { correlationId := 1, throttleTimeMs := 0,
    topics := List.replicate n
      { errorCode := 3, topicName := ascii "t", topicId := uuidOf 0,
        isInternal := false, authorizedOperations := 0, partitions := [] } }

theorem bodySize_unknownTopics (n : ℕ) :
    (Response.describeTopicPartitions (unknownTopics n)).bodySize = 5 + 4 + 1 + n * 27 + 2 := by
  change describeTopicPartitionsSize (unknownTopics n) = _
  rw [describeTopicPartitionsSize, unknownTopics, List.map_replicate, List.sum_replicate]
  rfl

theorem length_unknownTopics (n : ℕ) : (unknownTopics n).topics.length = n :=
  List.length_replicate

theorem describe_fillsBuffer_unknownTopics :
    (Response.describeTopicPartitions (unknownTopics 126)).FillsBuffer :=
  (describe_fillsBuffer_iff (unknownTopics 126) (by rw [bodySize_unknownTopics]; decide)).mpr
    (length_unknownTopics 126).le

/-- The number of `127` topics takes two bytes. -/
theorem not_fillsBuffer_unknownTopics :
    (Response.describeTopicPartitions (unknownTopics 127)).bodySize < 2 ^ 31 ∧
      (Response.describeTopicPartitions (unknownTopics 127)).write = none ∧
      ¬ (Response.describeTopicPartitions (unknownTopics 127)).FillsBuffer := by
  have hfit : (Response.describeTopicPartitions (unknownTopics 127)).bodySize < 2 ^ 31 := by
    rw [bodySize_unknownTopics]
    decide
  have hnone := describe_write_eq_none hfit (length_unknownTopics 127).ge
  refine ⟨hfit, hnone, ?_⟩
  rintro ⟨buf, hwrite, -⟩
  rw [hnone] at hwrite
  cases hwrite

end TinyKafka

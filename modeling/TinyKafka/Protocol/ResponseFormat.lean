import TinyKafka.Protocol.Serializer

/-!
# What the serializer writes

For every record of a response, `Encodes` says two things at once: the writes take as many
bytes as the size computed for the record, and the record can be read off these bytes,
whatever follows them. Both go through the fields in the order in which they are written, so
there is one lemma per record, put together from those of its fields.

For the whole response they give that `serialize` fills its buffer exactly
(`serialize_fills`) and that it loses nothing a response carries on the wire
(`serialize_injective`). `DescribeTopicPartitions` is the exception to both.
-/

namespace TinyKafka

/-- The part of a `FetchPartitionResponse` that is on the wire. -/
def FetchPartitionResponse.withoutSplice (p : FetchPartitionResponse) : FetchPartitionResponse :=
  { p with spliceFd := none, spliceOffset := 0, spliceLen := 0 }

/-- The part of a `FetchTopicResponse` that is on the wire. -/
def FetchTopicResponse.withoutSplice (t : FetchTopicResponse) : FetchTopicResponse :=
  { t with partitions := t.partitions.map FetchPartitionResponse.withoutSplice }

/-- The part of a `FetchResponse` that is on the wire. -/
def FetchResponse.withoutSplice (r : FetchResponse) : FetchResponse :=
  { r with responses := r.responses.map FetchTopicResponse.withoutSplice }

/-- The part of a response that is on the wire: all of it, except for the splice parameters. -/
def Response.withoutSplice : Response → Response
  | .fetch r => .fetch r.withoutSplice
  | r => r

namespace Serializer

open ByteWriter BufferM

/-! ### Counts, strings and arrays -/

@[simp] theorem varintEncodedSize_one : varintEncodedSize 1 = 1 := by decide

/-- The count does not wrap around. -/
theorem toNat_lengthVarint {n : ℕ} (h : n + 1 < 2 ^ 32) : (lengthVarint n).toNat = n + 1 := by
  rw [lengthVarint, UInt32.toNat_add, UInt32.toNat_ofNat_of_lt' (show n < 2 ^ 32 by omega)]
  exact Nat.mod_eq_of_lt h

/-- The null code takes as much room as the code of the empty string. -/
theorem nullableSize_eq (s : Bytes) : nullableSize s = stringSize s := by
  cases s with
  | nil => decide
  | cons b s => rfl

theorem encodes_string : Encodes writeCompactString stringSize id := encodes_writeCompactString

theorem writes_writeNullableString (s : Bytes) :
    Writes (writeNullableString s) (writeUnsignedVarint (nullableVarint s) ++ s) := by
  cases s with
  | nil =>
    rw [List.append_nil]
    exact writes_writeVarint 0
  | cons b s => exact writes_writeCompactString (b :: s)

/-- The count of a nullable string: `0` for the empty one, so that no code is left for a string
of `2 ^ 32 - 1` bytes. -/
theorem countCode_nullable :
    CountCode (2 ^ 32 - 1) fun n =>
      writeUnsignedVarint (if n = 0 then 0 else lengthVarint n) := by
  intro n m s t hn hm h
  have hnat : ∀ k < 2 ^ 32 - 1, (if k = 0 then (0 : UInt32) else lengthVarint k).toNat =
      if k = 0 then 0 else k + 1 := by
    intro k hk
    split
    · rfl
    · exact toNat_lengthVarint (by omega)
  -- below the bound the `+ 1` does not wrap around to the code of the empty string
  obtain ⟨hvalue, hst⟩ := writeUnsignedVarint_append_inj h
  have hcounts := congrArg UInt32.toNat hvalue
  rw [hnat n hn, hnat m hm] at hcounts
  refine ⟨?_, hst⟩
  split at hcounts
  · split at hcounts <;> omega
  · split at hcounts <;> omega

theorem nullableVarint_eq (s : Bytes) :
    nullableVarint s = if s.length = 0 then 0 else lengthVarint s.length := by
  cases s <;> rfl

theorem encodes_nullable : Encodes writeNullableString nullableSize id := by
  refine ⟨_, writes_writeNullableString, fun s => ?_, ?_⟩
  · rw [List.length_append, length_writeUnsignedVarint]
    rfl
  · have hcode : (fun s : Bytes => writeUnsignedVarint (nullableVarint s) ++ s) =
        fun s => writeUnsignedVarint (if s.length = 0 then 0 else lengthVarint s.length) ++ s := by
      funext s
      rw [nullableVarint_eq]
    rw [hcode]
    exact .counted_string countCode_nullable

theorem writes_writeCompactBytes (data : Bytes) :
    Writes (writeCompactBytes data)
      (writeUnsignedVarint (lengthVarint data.length) ++ data) := by
  refine (writes_writeVarint _).bind ?_
  cases data with
  | nil => exact Writes.pure
  | cons b data => exact writes_put (b :: data)

theorem encodes_bytes : Encodes writeCompactBytes stringSize id := by
  refine ⟨_, writes_writeCompactBytes, fun data => ?_,
    .counted_string (countCode_succ (by decide))⟩
  rw [List.length_append, length_writeUnsignedVarint]
  rfl

theorem encodes_bool : Encodes (fun b : Bool => writeInt8 (if b then 1 else 0)) (fun _ => 1) id :=
  (encodes_writeInt8.comp fun b : Bool => if b then 1 else 0).congr (fun _ => rfl) (by decide)

/-- **Compact arrays**, of elements that take at least one byte. -/
theorem encodes_array {α κ : Type} {write : α → Writer Unit} {size : α → ℕ} {key : α → κ}
    (h : Encodes write size key) (hpos : ∀ a, 0 < size a) :
    Encodes (writeArray write) (arraySize size) (List.map key) := by
  refine (h.counted (fun n => writes_writeVarint (lengthVarint n)) (countCode_succ (by decide))
    hpos).congr (fun l => ?_) fun _ _ hkey => hkey
  rw [length_writeUnsignedVarint, arraySize]

/-- The arrays whose elements all have the same size. -/
theorem arraySize_const {α : Type} (n : ℕ) (l : List α) :
    arraySize (fun _ => n) l = varintEncodedSize (lengthVarint l.length) + l.length * n := by
  rw [arraySize, List.map_const', List.sum_replicate]
  rfl

theorem encodes_int32Array : Encodes writeCompactInt32Array compactInt32ArraySize id :=
  (encodes_array encodes_writeInt32 fun _ => by decide).congr (arraySize_const 4)
    fun l l' h => by simpa using h

/-! ### The records of the responses -/

attribute [ext] ApiVersionEntry ApiVersionsResponse MetadataBroker PartitionMetadata
  MetadataTopicResponse MetadataResponse FindCoordinatorResponse OffsetCommitPartitionResponse
  OffsetCommitTopicResponse OffsetCommitResponse OffsetFetchPartitionResponse
  OffsetFetchTopicResponse OffsetFetchResponse ListOffsetsPartitionResponse ListOffsetsTopicResponse
  ListOffsetsResponse JoinGroupMember JoinGroupResponse HeartbeatResponse LeaveGroupResponse
  SyncGroupResponse ProducePartitionResponse ProduceTopicResponse ProduceResponse

theorem encodes_tag {α : Type} :
    Encodes (fun _ : α => writeInt8 0x00) (fun _ => 1) fun _ => (0x00 : UInt8) :=
  encodes_writeInt8.comp fun _ => 0x00

theorem encodes_apiVersionEntry : Encodes writeApiVersionEntry (fun _ => 7) id := by
  have h := (encodes_writeInt16.comp ApiVersionEntry.apiKey).bind <|
    (encodes_writeInt16.comp ApiVersionEntry.minVersion).bind <|
    (encodes_writeInt16.comp ApiVersionEntry.maxVersion).bind encodes_tag
  refine h.congr (fun r => ?_) fun r r' hkey => ?_
  · rfl
  · simpa [ApiVersionEntry.ext_iff] using hkey

theorem encodes_apiVersions : Encodes writeApiVersions apiVersionsSize id := by
  have harray := encodes_array encodes_apiVersionEntry fun _ => Nat.succ_pos _
  have h := (encodes_writeInt32.comp ApiVersionsResponse.correlationId).bind <|
    (encodes_writeInt16.comp ApiVersionsResponse.errorCode).bind <|
    (harray.comp ApiVersionsResponse.apiKeys).bind <|
    (encodes_writeInt32.comp ApiVersionsResponse.throttleTimeMs).bind encodes_tag
  refine h.congr (fun r => ?_) fun r r' hkey => ?_
  · rw [arraySize_const, apiVersionsSize]
    omega
  · simpa [ApiVersionsResponse.ext_iff] using hkey

theorem encodes_fetchPartition :
    Encodes writeFetchPartition fetchPartitionSize FetchPartitionResponse.withoutSplice := by
  have h := (encodes_writeInt32.comp FetchPartitionResponse.partitionIndex).bind <|
    (encodes_writeInt16.comp FetchPartitionResponse.errorCode).bind <|
    (encodes_writeInt64.comp fun _ => 0).bind <|
    (encodes_writeInt64.comp fun _ => 0).bind <|
    (encodes_writeInt64.comp fun _ => 0).bind <|
    (encodes_writeVarint.comp fun _ => 1).bind <|
    (encodes_writeInt32.comp fun _ => 0).bind <|
    (encodes_bytes.comp FetchPartitionResponse.records).bind encodes_tag
  refine h.congr (fun r => ?_) fun r r' hkey => ?_
  · rw [varintEncodedSize_one, stringSize, fetchPartitionSize]
    omega
  · simpa [FetchPartitionResponse.withoutSplice] using hkey

theorem encodes_fetchTopic :
    Encodes writeFetchTopic fetchTopicSize FetchTopicResponse.withoutSplice := by
  have harray := encodes_array encodes_fetchPartition fun _ => Nat.succ_pos _
  have h := (encodes_writeUuid.comp FetchTopicResponse.topicId).bind <|
    (harray.comp FetchTopicResponse.partitions).bind encodes_tag
  refine h.congr (fun r => ?_) fun r r' hkey => ?_
  · rw [fetchTopicSize]
    omega
  · simpa [FetchTopicResponse.withoutSplice] using hkey

theorem encodes_fetch : Encodes writeFetch fetchSize FetchResponse.withoutSplice := by
  have harray := encodes_array encodes_fetchTopic fun _ => Nat.succ_pos _
  have h := (encodes_writeInt32.comp FetchResponse.correlationId).bind <|
    encodes_tag.bind <|
    (encodes_writeInt32.comp FetchResponse.throttleTimeMs).bind <|
    (encodes_writeInt16.comp FetchResponse.errorCode).bind <|
    (encodes_writeInt32.comp FetchResponse.sessionId).bind <|
    (harray.comp FetchResponse.responses).bind encodes_tag
  refine h.congr (fun r => ?_) fun r r' hkey => ?_
  · rw [fetchSize]
    omega
  · simpa [FetchResponse.withoutSplice] using hkey

theorem encodes_metadataBroker : Encodes writeMetadataBroker metadataBrokerSize id := by
  have h := (encodes_writeInt32.comp MetadataBroker.nodeId).bind <|
    (encodes_string.comp MetadataBroker.host).bind <|
    (encodes_writeInt32.comp MetadataBroker.port).bind <|
    (encodes_nullable.comp MetadataBroker.rack).bind encodes_tag
  refine h.congr (fun r => ?_) fun r r' hkey => ?_
  · rw [metadataBrokerSize]
    omega
  · simpa [MetadataBroker.ext_iff] using hkey

theorem encodes_metadataPartition : Encodes writeMetadataPartition metadataPartitionSize id := by
  have h := (encodes_writeInt16.comp PartitionMetadata.errorCode).bind <|
    (encodes_writeInt32.comp PartitionMetadata.partitionIndex).bind <|
    (encodes_writeInt32.comp PartitionMetadata.leaderId).bind <|
    (encodes_writeInt32.comp PartitionMetadata.leaderEpoch).bind <|
    (encodes_int32Array.comp PartitionMetadata.replicaNodes).bind <|
    (encodes_int32Array.comp PartitionMetadata.isrNodes).bind <|
    (encodes_int32Array.comp PartitionMetadata.offlineReplicas).bind <|
    (encodes_int32Array.comp PartitionMetadata.eligibleLeaderReplicas).bind <|
    (encodes_int32Array.comp PartitionMetadata.lastKnownElr).bind encodes_tag
  refine h.congr (fun r => ?_) fun r r' hkey => ?_
  · rw [metadataPartitionSize]
    omega
  · simp_all [PartitionMetadata.ext_iff]

theorem encodes_metadataTopic : Encodes writeMetadataTopic metadataTopicSize id := by
  have harray := encodes_array encodes_metadataPartition fun _ => Nat.succ_pos _
  have h := (encodes_writeInt16.comp MetadataTopicResponse.errorCode).bind <|
    (encodes_nullable.comp MetadataTopicResponse.topicName).bind <|
    (encodes_writeUuid.comp MetadataTopicResponse.topicId).bind <|
    (encodes_bool.comp MetadataTopicResponse.isInternal).bind <|
    (harray.comp MetadataTopicResponse.partitions).bind <|
    (encodes_writeInt32.comp MetadataTopicResponse.topicAuthorizedOperations).bind encodes_tag
  refine h.congr (fun r => ?_) fun r r' hkey => ?_
  · rw [metadataTopicSize]
    omega
  · simpa [MetadataTopicResponse.ext_iff] using hkey

theorem encodes_metadata : Encodes writeMetadata metadataSize id := by
  have hbrokers := encodes_array encodes_metadataBroker fun _ => Nat.succ_pos _
  have htopics := encodes_array encodes_metadataTopic fun _ => Nat.succ_pos _
  have h := (encodes_writeInt32.comp MetadataResponse.correlationId).bind <|
    encodes_tag.bind <|
    (encodes_writeInt32.comp MetadataResponse.throttleTimeMs).bind <|
    (hbrokers.comp MetadataResponse.brokers).bind <|
    (encodes_nullable.comp MetadataResponse.clusterId).bind <|
    (encodes_writeInt32.comp MetadataResponse.controllerId).bind <|
    (htopics.comp MetadataResponse.topics).bind <|
    (encodes_writeInt32.comp MetadataResponse.clusterAuthorizedOperations).bind encodes_tag
  refine h.congr (fun r => ?_) fun r r' hkey => ?_
  · rw [metadataSize]
    omega
  · simpa [MetadataResponse.ext_iff] using hkey

theorem encodes_findCoordinator : Encodes writeFindCoordinator findCoordinatorSize id := by
  have h := (encodes_writeInt32.comp FindCoordinatorResponse.correlationId).bind <|
    encodes_tag.bind <|
    (encodes_writeInt32.comp FindCoordinatorResponse.throttleTimeMs).bind <|
    (encodes_writeInt16.comp FindCoordinatorResponse.errorCode).bind <|
    (encodes_nullable.comp FindCoordinatorResponse.errorMessage).bind <|
    (encodes_writeInt32.comp FindCoordinatorResponse.nodeId).bind <|
    (encodes_string.comp FindCoordinatorResponse.host).bind <|
    (encodes_writeInt32.comp FindCoordinatorResponse.port).bind encodes_tag
  refine h.congr (fun r => ?_) fun r r' hkey => ?_
  · rw [findCoordinatorSize]
    omega
  · simpa [FindCoordinatorResponse.ext_iff] using hkey

theorem encodes_offsetCommitPartition :
    Encodes writeOffsetCommitPartition offsetCommitPartitionSize id := by
  have h := (encodes_writeInt32.comp OffsetCommitPartitionResponse.partitionIndex).bind <|
    (encodes_writeInt16.comp OffsetCommitPartitionResponse.errorCode).bind <|
    (encodes_writeInt32.comp OffsetCommitPartitionResponse.committedLeaderEpoch).bind <|
    (encodes_nullable.comp OffsetCommitPartitionResponse.committedMetadata).bind encodes_tag
  refine h.congr (fun r => ?_) fun r r' hkey => ?_
  · rw [nullableSize_eq, offsetCommitPartitionSize]
    omega
  · simpa [OffsetCommitPartitionResponse.ext_iff] using hkey

theorem encodes_offsetCommitTopic : Encodes writeOffsetCommitTopic offsetCommitTopicSize id := by
  have harray := encodes_array encodes_offsetCommitPartition fun _ => Nat.succ_pos _
  have h := (encodes_string.comp OffsetCommitTopicResponse.topicName).bind <|
    (harray.comp OffsetCommitTopicResponse.partitions).bind encodes_tag
  refine h.congr (fun r => ?_) fun r r' hkey => ?_
  · rw [offsetCommitTopicSize]
    omega
  · simpa [OffsetCommitTopicResponse.ext_iff] using hkey

theorem encodes_offsetCommit : Encodes writeOffsetCommit offsetCommitSize id := by
  have harray := encodes_array encodes_offsetCommitTopic fun _ => Nat.succ_pos _
  have h := (encodes_writeInt32.comp OffsetCommitResponse.correlationId).bind <|
    encodes_tag.bind <|
    (encodes_writeInt32.comp OffsetCommitResponse.throttleTimeMs).bind <|
    (harray.comp OffsetCommitResponse.topics).bind encodes_tag
  refine h.congr (fun r => ?_) fun r r' hkey => ?_
  · rw [offsetCommitSize]
    omega
  · simpa [OffsetCommitResponse.ext_iff] using hkey

theorem encodes_offsetFetchPartition :
    Encodes writeOffsetFetchPartition offsetFetchPartitionSize id := by
  have h := (encodes_writeInt32.comp OffsetFetchPartitionResponse.partitionIndex).bind <|
    (encodes_writeInt64.comp OffsetFetchPartitionResponse.committedOffset).bind <|
    (encodes_writeInt32.comp OffsetFetchPartitionResponse.committedLeaderEpoch).bind <|
    (encodes_nullable.comp OffsetFetchPartitionResponse.committedMetadata).bind <|
    (encodes_writeInt16.comp OffsetFetchPartitionResponse.errorCode).bind encodes_tag
  refine h.congr (fun r => ?_) fun r r' hkey => ?_
  · rw [nullableSize_eq, offsetFetchPartitionSize]
    omega
  · simpa [OffsetFetchPartitionResponse.ext_iff] using hkey

theorem encodes_offsetFetchTopic : Encodes writeOffsetFetchTopic offsetFetchTopicSize id := by
  have harray := encodes_array encodes_offsetFetchPartition fun _ => Nat.succ_pos _
  have h := (encodes_string.comp OffsetFetchTopicResponse.topicName).bind <|
    (harray.comp OffsetFetchTopicResponse.partitions).bind encodes_tag
  refine h.congr (fun r => ?_) fun r r' hkey => ?_
  · rw [offsetFetchTopicSize]
    omega
  · simpa [OffsetFetchTopicResponse.ext_iff] using hkey

theorem encodes_offsetFetch : Encodes writeOffsetFetch offsetFetchSize id := by
  have harray := encodes_array encodes_offsetFetchTopic fun _ => Nat.succ_pos _
  have h := (encodes_writeInt32.comp OffsetFetchResponse.correlationId).bind <|
    encodes_tag.bind <|
    (encodes_writeInt32.comp OffsetFetchResponse.throttleTimeMs).bind <|
    (harray.comp OffsetFetchResponse.topics).bind encodes_tag
  refine h.congr (fun r => ?_) fun r r' hkey => ?_
  · rw [offsetFetchSize]
    omega
  · simpa [OffsetFetchResponse.ext_iff] using hkey

theorem encodes_listOffsetsPartition : Encodes writeListOffsetsPartition (fun _ => 23) id := by
  have h := (encodes_writeInt32.comp ListOffsetsPartitionResponse.partitionIndex).bind <|
    (encodes_writeInt16.comp ListOffsetsPartitionResponse.errorCode).bind <|
    (encodes_writeInt64.comp ListOffsetsPartitionResponse.offset).bind <|
    (encodes_writeInt64.comp ListOffsetsPartitionResponse.timestamp).bind encodes_tag
  refine h.congr (fun r => ?_) fun r r' hkey => ?_
  · rfl
  · simpa [ListOffsetsPartitionResponse.ext_iff] using hkey

theorem encodes_listOffsetsTopic : Encodes writeListOffsetsTopic listOffsetsTopicSize id := by
  have harray := encodes_array encodes_listOffsetsPartition fun _ => Nat.succ_pos _
  have h := (encodes_string.comp ListOffsetsTopicResponse.topicName).bind <|
    (harray.comp ListOffsetsTopicResponse.partitions).bind encodes_tag
  refine h.congr (fun r => ?_) fun r r' hkey => ?_
  · rw [arraySize_const, listOffsetsTopicSize]
    omega
  · simpa [ListOffsetsTopicResponse.ext_iff] using hkey

theorem encodes_listOffsets : Encodes writeListOffsets listOffsetsSize id := by
  have harray := encodes_array encodes_listOffsetsTopic fun _ => Nat.succ_pos _
  have h := (encodes_writeInt32.comp ListOffsetsResponse.correlationId).bind <|
    encodes_tag.bind <|
    (encodes_writeInt32.comp ListOffsetsResponse.throttleTimeMs).bind <|
    (harray.comp ListOffsetsResponse.topics).bind encodes_tag
  refine h.congr (fun r => ?_) fun r r' hkey => ?_
  · rw [listOffsetsSize]
    omega
  · simpa [ListOffsetsResponse.ext_iff] using hkey

theorem encodes_joinGroupMember : Encodes writeJoinGroupMember joinGroupMemberSize id := by
  have h := (encodes_string.comp JoinGroupMember.memberId).bind <|
    (encodes_bytes.comp JoinGroupMember.metadata).bind encodes_tag
  refine h.congr (fun r => ?_) fun r r' hkey => ?_
  · rw [stringSize, stringSize, joinGroupMemberSize, stringSize]
    omega
  · simpa [JoinGroupMember.ext_iff] using hkey

theorem encodes_joinGroup : Encodes writeJoinGroup joinGroupSize id := by
  have harray := encodes_array encodes_joinGroupMember fun _ => Nat.succ_pos _
  have h := (encodes_writeInt32.comp JoinGroupResponse.correlationId).bind <|
    encodes_tag.bind <|
    (encodes_writeInt32.comp JoinGroupResponse.throttleTimeMs).bind <|
    (encodes_writeInt16.comp JoinGroupResponse.errorCode).bind <|
    (encodes_writeInt32.comp JoinGroupResponse.generationId).bind <|
    (encodes_nullable.comp JoinGroupResponse.protocolName).bind <|
    (encodes_string.comp JoinGroupResponse.leader).bind <|
    (encodes_string.comp JoinGroupResponse.memberId).bind <|
    (harray.comp JoinGroupResponse.members).bind encodes_tag
  refine h.congr (fun r => ?_) fun r r' hkey => ?_
  · rw [joinGroupSize]
    omega
  · simpa [JoinGroupResponse.ext_iff] using hkey

theorem encodes_heartbeat : Encodes writeHeartbeat heartbeatSize id := by
  have h := (encodes_writeInt32.comp HeartbeatResponse.correlationId).bind <|
    encodes_tag.bind <|
    (encodes_writeInt32.comp HeartbeatResponse.throttleTimeMs).bind <|
    (encodes_writeInt16.comp HeartbeatResponse.errorCode).bind encodes_tag
  refine h.congr (fun r => ?_) fun r r' hkey => ?_
  · rfl
  · simpa [HeartbeatResponse.ext_iff] using hkey

theorem encodes_leaveGroup : Encodes writeLeaveGroup leaveGroupSize id := by
  have h := (encodes_writeInt32.comp LeaveGroupResponse.correlationId).bind <|
    encodes_tag.bind <|
    (encodes_writeInt32.comp LeaveGroupResponse.throttleTimeMs).bind <|
    (encodes_writeInt16.comp LeaveGroupResponse.errorCode).bind encodes_tag
  refine h.congr (fun r => ?_) fun r r' hkey => ?_
  · rfl
  · simpa [LeaveGroupResponse.ext_iff] using hkey

theorem encodes_syncGroup : Encodes writeSyncGroup syncGroupSize id := by
  have h := (encodes_writeInt32.comp SyncGroupResponse.correlationId).bind <|
    encodes_tag.bind <|
    (encodes_writeInt32.comp SyncGroupResponse.throttleTimeMs).bind <|
    (encodes_writeInt16.comp SyncGroupResponse.errorCode).bind <|
    (encodes_nullable.comp SyncGroupResponse.protocolType).bind <|
    (encodes_nullable.comp SyncGroupResponse.protocolName).bind <|
    (encodes_bytes.comp SyncGroupResponse.assignment).bind encodes_tag
  refine h.congr (fun r => ?_) fun r r' hkey => ?_
  · rw [stringSize, syncGroupSize]
    omega
  · simpa [SyncGroupResponse.ext_iff] using hkey

theorem encodes_producePartition : Encodes writeProducePartition (fun _ => 33) id := by
  have h := (encodes_writeInt32.comp ProducePartitionResponse.partitionIndex).bind <|
    (encodes_writeInt16.comp ProducePartitionResponse.errorCode).bind <|
    (encodes_writeInt64.comp ProducePartitionResponse.baseOffset).bind <|
    (encodes_writeInt64.comp ProducePartitionResponse.logAppendTimeMs).bind <|
    (encodes_writeInt64.comp ProducePartitionResponse.logStartOffset).bind <|
    (encodes_writeInt8.comp fun _ => 0x01).bind <|
    encodes_tag.bind encodes_tag
  refine h.congr (fun r => ?_) fun r r' hkey => ?_
  · rfl
  · simpa [ProducePartitionResponse.ext_iff] using hkey

/-- The size of an empty list of partitions is what the general formula gives for it. -/
theorem produceTopicSize_eq (t : ProduceTopicResponse) :
    produceTopicSize t = stringSize t.topicName + 1 +
      (varintEncodedSize (lengthVarint t.partitions.length) + t.partitions.length * 33) := by
  obtain ⟨name, partitions⟩ := t
  cases partitions with
  | nil =>
    have hone : varintEncodedSize (lengthVarint 0) = 1 := by decide
    simp [produceTopicSize, hone]
  | cons p partitions => rfl

theorem produceTopicSize_pos (t : ProduceTopicResponse) : 0 < produceTopicSize t := by
  rw [produceTopicSize_eq]
  omega

theorem encodes_produceTopic : Encodes writeProduceTopic produceTopicSize id := by
  have harray := encodes_array encodes_producePartition fun _ => Nat.succ_pos _
  have h := (encodes_string.comp ProduceTopicResponse.topicName).bind <|
    (harray.comp ProduceTopicResponse.partitions).bind encodes_tag
  refine h.congr (fun r => ?_) fun r r' hkey => ?_
  · rw [arraySize_const, produceTopicSize_eq]
    omega
  · simpa [ProduceTopicResponse.ext_iff] using hkey

theorem encodes_produce : Encodes writeProduce produceSize id := by
  have harray := encodes_array encodes_produceTopic produceTopicSize_pos
  have h := (encodes_writeInt32.comp ProduceResponse.correlationId).bind <|
    encodes_tag.bind <|
    (harray.comp ProduceResponse.responses).bind <|
    (encodes_writeInt32.comp ProduceResponse.throttleTimeMs).bind encodes_tag
  refine h.congr (fun r => ?_) fun r r' hkey => ?_
  · rw [produceSize]
    omega
  · simp_all [ProduceResponse.ext_iff]

/-! ### Whole responses -/

/-- A body of the announced size fills the buffer. -/
theorem fillBuffer_eq_of_writes {bodySize : ℕ} {body : Writer Unit} {bs : Bytes}
    (h : Writes body bs) (hlen : bs.length = bodySize) :
    fillBuffer bodySize body =
      some ⟨writeInt32Be (Int32.ofNat bodySize) ++ bs, 4 + bodySize⟩ := by
  have hwrites := (writes_put (writeInt32Be (Int32.ofNat bodySize))).bind h
  have hsize : (writeInt32Be (Int32.ofNat bodySize) ++ bs).length = 4 + bodySize := by
    rw [List.length_append, length_writeInt32Be, hlen]
  have hfill := hwrites.fills
    (show (List.replicate (4 + bodySize) 0).length = _ by rw [hsize, List.length_replicate])
  rw [hsize] at hfill
  exact congrArg (Option.map Prod.snd) hfill

/-- A body of more than the announced size does not fit. -/
theorem fillBuffer_eq_none {bodySize : ℕ} {body : Writer Unit} {bs : Bytes} (hstrict : Strict body)
    (h : Writes body bs) (hlen : bodySize < bs.length) : fillBuffer bodySize body = none := by
  have hshort : (List.replicate (4 + bodySize) (0 : UInt8)).length <
      (writeInt32Be (Int32.ofNat bodySize) ++ bs).length := by
    rw [List.length_replicate, List.length_append, length_writeInt32Be]
    omega
  have hrun := ((strict_put _).bind hstrict).run_eq_none
    ((writes_put (writeInt32Be (Int32.ofNat bodySize))).bind h) hshort
  exact congrArg (Option.map Prod.snd) hrun

/-- Equal buffers hold bodies with equal keys. -/
theorem key_eq_of_fillBuffer {α κ : Type} {w : α → Writer Unit} {size : α → ℕ} {key : α → κ}
    (h : Encodes w size key) {a b : α} (ha : size a < 2 ^ 31) (hb : size b < 2 ^ 31)
    (heq : (fillBuffer (size a) (w a)).map Cursor.data =
      (fillBuffer (size b) (w b)).map Cursor.data) :
    key a = key b := by
  obtain ⟨enc, hw, hsize, hfree⟩ := h
  rw [fillBuffer_eq_of_writes (hw a) (hsize a), fillBuffer_eq_of_writes (hw b) (hsize b)] at heq
  have hdata := Option.some.inj heq
  have hbody : enc a = enc b :=
    List.append_inj_right hdata ((length_writeInt32Be _).trans (length_writeInt32Be _).symm)
  exact (hfree a b [] [] (by rw [hsize]; omega) (by rw [hsize]; omega)
    (congrArg (· ++ []) hbody)).1

end Serializer

open Serializer BufferM

/-- `resp.index()`: the position of the variant in the type. -/
def Response.index (resp : Response) : ℕ := resp.ctorIdx

/-- In every variant but one, the writes take the number of bytes computed beforehand. -/
theorem Response.exists_writes_writeBody {resp : Response}
    (hvariant : ∀ r, resp ≠ .describeTopicPartitions r) :
    ∃ bs, Writes resp.writeBody bs ∧ bs.length = resp.bodySize := by
  cases resp with
  | apiVersions r => exact encodes_apiVersions.exists_writes r
  | describeTopicPartitions r => exact absurd rfl (hvariant r)
  | fetch r => exact encodes_fetch.exists_writes r
  | findCoordinator r => exact encodes_findCoordinator.exists_writes r
  | heartbeat r => exact encodes_heartbeat.exists_writes r
  | joinGroup r => exact encodes_joinGroup.exists_writes r
  | leaveGroup r => exact encodes_leaveGroup.exists_writes r
  | listOffsets r => exact encodes_listOffsets.exists_writes r
  | metadata r => exact encodes_metadata.exists_writes r
  | offsetCommit r => exact encodes_offsetCommit.exists_writes r
  | offsetFetch r => exact encodes_offsetFetch.exists_writes r
  | produce r => exact encodes_produce.exists_writes r
  | syncGroup r => exact encodes_syncGroup.exists_writes r

/-- The buffer of such a response: the size of the body, and the body. -/
theorem Response.exists_write_eq {resp : Response}
    (hvariant : ∀ r, resp ≠ .describeTopicPartitions r) :
    ∃ bs : Bytes, Writes resp.writeBody bs ∧ bs.length = resp.bodySize ∧
      resp.write = some ⟨writeInt32Be (Int32.ofNat resp.bodySize) ++ bs, 4 + resp.bodySize⟩ := by
  obtain ⟨bs, hwrites, hlen⟩ := Response.exists_writes_writeBody hvariant
  exact ⟨bs, hwrites, hlen, fillBuffer_eq_of_writes hwrites hlen⟩

/-- No write runs out of room, the writer ends at the end of the buffer, and the first four
bytes of the buffer decode to the number of bytes behind them. -/
def Response.FillsBuffer (resp : Response) : Prop :=
  ∃ buf : Bytes, resp.write = some ⟨buf, buf.length⟩ ∧ serialize resp = some buf ∧
    buf.length = 4 + resp.bodySize ∧ (decodeInt32Be (buf.take 4)).toInt = (buf.length : ℤ) - 4

/-- Writes that take as many bytes as were computed beforehand fill the buffer. -/
theorem Response.fillsBuffer_of_writes {resp : Response} {bs : Bytes}
    (hwrites : Writes resp.writeBody bs) (hlen : bs.length = resp.bodySize)
    (hfit : resp.bodySize < 2 ^ 31) : resp.FillsBuffer := by
  have hwrite : resp.write = _ := fillBuffer_eq_of_writes hwrites hlen
  have hsize : (writeInt32Be (Int32.ofNat resp.bodySize) ++ bs).length = 4 + resp.bodySize := by
    rw [List.length_append, length_writeInt32Be, hlen]
  have hhead : (writeInt32Be (Int32.ofNat resp.bodySize) ++ bs).take 4 =
      writeInt32Be (Int32.ofNat resp.bodySize) :=
    List.take_left' (length_writeInt32Be _)
  refine ⟨writeInt32Be (Int32.ofNat resp.bodySize) ++ bs, ?_, ?_, hsize, ?_⟩
  · rw [hsize]
    exact hwrite
  · exact congrArg (Option.map Cursor.data) hwrite
  · rw [hhead, decodeInt32Be_writeInt32Be, Int32.toInt_ofNat_of_lt hfit, hsize]
    omega

/-- **The buffer of a response is filled exactly.** In every variant other than
`DescribeTopicPartitions`, for every content whose body fits in an `int32`: no write runs out
of room, the writer ends at the end of the buffer, and the first four bytes of the buffer
decode to the number of bytes behind them. -/
theorem serialize_fills (resp : Response) (hvariant : ∀ r, resp ≠ .describeTopicPartitions r)
    (hfit : resp.bodySize < 2 ^ 31) :
    ∃ buf : Bytes, resp.write = some ⟨buf, buf.length⟩ ∧ serialize resp = some buf ∧
      buf.length = 4 + resp.bodySize ∧
      (decodeInt32Be (buf.take 4)).toInt = (buf.length : ℤ) - 4 := by
  obtain ⟨bs, hwrites, hlen⟩ := Response.exists_writes_writeBody hvariant
  exact Response.fillsBuffer_of_writes hwrites hlen hfit

/-- A join answer without a protocol name, for a group of two members. -/
def twoMembers : Response :=
  .joinGroup
    { correlationId := 5, throttleTimeMs := 0, errorCode := 0, generationId := 2,
      protocolName := [], leader := ascii "a", memberId := ascii "b",
      members := [⟨ascii "a", []⟩, ⟨ascii "b", [1, 2]⟩] }

theorem serialize_fills_twoMembers :
    ∃ buf : Bytes, twoMembers.write = some ⟨buf, buf.length⟩ ∧ serialize twoMembers = some buf ∧
      buf.length = 4 + twoMembers.bodySize ∧
      (decodeInt32Be (buf.take 4)).toInt = (buf.length : ℤ) - 4 :=
  serialize_fills twoMembers (fun _ h => Response.noConfusion h) (by decide)

/-- **The bytes of a response determine the response.** Two responses of one variant other than
`DescribeTopicPartitions`, with bodies that fit in an `int32`, and the same bytes differ at
most in the splice parameters of a Fetch answer. -/
theorem serialize_injective (r₁ r₂ : Response) (hindex : r₁.index = r₂.index)
    (hvariant : ∀ r, r₁ ≠ .describeTopicPartitions r) (h₁ : r₁.bodySize < 2 ^ 31)
    (h₂ : r₂.bodySize < 2 ^ 31) (h : serialize r₁ = serialize r₂) :
    r₁.withoutSplice = r₂.withoutSplice := by
  cases r₁ <;> cases r₂
  case apiVersions.apiVersions r r' =>
    exact congrArg Response.apiVersions (key_eq_of_fillBuffer encodes_apiVersions h₁ h₂ h)
  case describeTopicPartitions.describeTopicPartitions r r' => exact absurd rfl (hvariant r)
  case fetch.fetch r r' =>
    exact congrArg Response.fetch (key_eq_of_fillBuffer encodes_fetch h₁ h₂ h)
  case findCoordinator.findCoordinator r r' =>
    exact congrArg Response.findCoordinator (key_eq_of_fillBuffer encodes_findCoordinator h₁ h₂ h)
  case heartbeat.heartbeat r r' =>
    exact congrArg Response.heartbeat (key_eq_of_fillBuffer encodes_heartbeat h₁ h₂ h)
  case joinGroup.joinGroup r r' =>
    exact congrArg Response.joinGroup (key_eq_of_fillBuffer encodes_joinGroup h₁ h₂ h)
  case leaveGroup.leaveGroup r r' =>
    exact congrArg Response.leaveGroup (key_eq_of_fillBuffer encodes_leaveGroup h₁ h₂ h)
  case listOffsets.listOffsets r r' =>
    exact congrArg Response.listOffsets (key_eq_of_fillBuffer encodes_listOffsets h₁ h₂ h)
  case metadata.metadata r r' =>
    exact congrArg Response.metadata (key_eq_of_fillBuffer encodes_metadata h₁ h₂ h)
  case offsetCommit.offsetCommit r r' =>
    exact congrArg Response.offsetCommit (key_eq_of_fillBuffer encodes_offsetCommit h₁ h₂ h)
  case offsetFetch.offsetFetch r r' =>
    exact congrArg Response.offsetFetch (key_eq_of_fillBuffer encodes_offsetFetch h₁ h₂ h)
  case produce.produce r r' =>
    exact congrArg Response.produce (key_eq_of_fillBuffer encodes_produce h₁ h₂ h)
  case syncGroup.syncGroup r r' =>
    exact congrArg Response.syncGroup (key_eq_of_fillBuffer encodes_syncGroup h₁ h₂ h)
  -- different variants
  all_goals cases hindex

/-- A Fetch answer with one partition, served inline or by splice. -/
def fetchAnswer (spliceFd : Option FileRef) (spliceLen : ℕ) : Response :=
  .fetch
    { correlationId := 1, throttleTimeMs := 0, errorCode := 0, sessionId := 0,
      responses := [{
        topicId := ⟨List.replicate 16 0, rfl⟩
        partitions := [{ records := [], spliceFd := spliceFd, spliceLen := spliceLen }] }] }

/-- The two answers have the same bytes: the splice parameters are not on the wire. -/
theorem serialize_injective_fetchAnswer :
    (fetchAnswer none 0).withoutSplice =
      (fetchAnswer (some ⟨ascii "t-0", ascii "0.log"⟩) 70000).withoutSplice :=
  serialize_injective (fetchAnswer none 0) (fetchAnswer (some ⟨ascii "t-0", ascii "0.log"⟩) 70000)
    rfl (fun _ h => Response.noConfusion h) (by decide) (by decide) rfl

end TinyKafka

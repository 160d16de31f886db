import TinyKafka.Protocol.Response
import TinyKafka.Util.ByteWriter

/-!
# The response serializer

`serialize` computes the size of the body of a response, allocates a buffer of that size and
four bytes more, and fills it through a `ByteWriter`: first the size of the body, then the
fields. Sizes and writes are two separate walks through the response, so both are modelled:
`Response.bodySize` and `Response.writeBody`, with the sizes and the writes of each record
side by side. A write that does not fit makes the whole run fail (`none`).

Four idioms recur in the source and are named here: a compact array is a count and a loop, a
nullable string is the count `0` when it is empty, compact bytes are a count and the bytes if
there are any, and every count is the length plus one.
-/

namespace TinyKafka

/-- A `ByteWriter`: a buffer and the offset of the next byte. -/
abbrev ByteWriter := Cursor UInt8

namespace Serializer

open ByteWriter

/-! ### Counts, strings and arrays -/

/-- `static_cast<uint32_t>(n) + 1`. -/
def lengthVarint (n : ℕ) : UInt32 := UInt32.ofNat n + 1

/-- `s.empty() ? 0 : static_cast<uint32_t>(s.size()) + 1`. -/
def nullableVarint (s : Bytes) : UInt32 := if s.isEmpty then 0 else lengthVarint s.length

/-- The size of a string behind its length. -/
def stringSize (s : Bytes) : ℕ := varintEncodedSize (lengthVarint s.length) + s.length

/-- The size of a string that is null when it is empty. -/
def nullableSize (s : Bytes) : ℕ := varintEncodedSize (nullableVarint s) + s.length

/-- A string that is null when it is empty. -/
def writeNullableString (s : Bytes) : Writer Unit :=
  if s.isEmpty then writeVarint 0 else writeCompactString s

/-- Bytes behind their length. -/
def writeCompactBytes (data : Bytes) : Writer Unit := do
  writeVarint (lengthVarint data.length)
  if !data.isEmpty then writeBytes data

/-- The size of a list behind its length. -/
def arraySize {α : Type} (size : α → ℕ) (l : List α) : ℕ :=
  varintEncodedSize (lengthVarint l.length) + (l.map size).sum

/-- A list behind its length. -/
def writeArray {α : Type} (write : α → Writer Unit) (l : List α) : Writer Unit := do
  writeVarint (lengthVarint l.length)
  l.forM write

/-- `write_compact_int32_array`. -/
def writeCompactInt32Array (arr : List Int32) : Writer Unit := writeArray writeInt32 arr

/-- `compact_int32_array_size`. -/
def compactInt32ArraySize (arr : List Int32) : ℕ :=
  varintEncodedSize (lengthVarint arr.length) + arr.length * 4

/-! ### ApiVersions -/

def apiVersionsSize (r : ApiVersionsResponse) : ℕ :=
  4 + 2 + varintEncodedSize (lengthVarint r.apiKeys.length) + r.apiKeys.length * 7 + 4 + 1

def writeApiVersionEntry (entry : ApiVersionEntry) : Writer Unit := do
  writeInt16 entry.apiKey
  writeInt16 entry.minVersion
  writeInt16 entry.maxVersion
  writeInt8 0x00 -- TAG_BUFFER

def writeApiVersions (r : ApiVersionsResponse) : Writer Unit := do
  writeInt32 r.correlationId
  writeInt16 r.errorCode
  writeArray writeApiVersionEntry r.apiKeys
  writeInt32 r.throttleTimeMs
  writeInt8 0x00 -- body TAG_BUFFER

/-! ### DescribeTopicPartitions

The one variant whose size does not follow its writes: one byte is reserved for the number of
topics, however many there are. -/

/-- `kResponseHeaderV1Size`. -/
def kResponseHeaderV1Size : ℕ := 5

/-- `partition_entry_size`. -/
def partitionEntrySize (p : PartitionMetadata) : ℕ :=
  14 + compactInt32ArraySize p.replicaNodes + compactInt32ArraySize p.isrNodes +
    compactInt32ArraySize p.eligibleLeaderReplicas + compactInt32ArraySize p.lastKnownElr +
    compactInt32ArraySize p.offlineReplicas + 1

def describeTopicSize (t : TopicMetadata) : ℕ :=
  2 + stringSize t.topicName + 16 + 1 + 4 + 1 +
    if t.partitions.isEmpty then 1 else arraySize partitionEntrySize t.partitions

def describeTopicPartitionsSize (r : DescribeTopicPartitionsResponse) : ℕ :=
  kResponseHeaderV1Size + 4 + 1 + (r.topics.map describeTopicSize).sum + 2

def writeDescribePartition (p : PartitionMetadata) : Writer Unit := do
  writeInt16 p.errorCode
  writeInt32 p.partitionIndex
  writeInt32 p.leaderId
  writeInt32 p.leaderEpoch
  writeCompactInt32Array p.replicaNodes
  writeCompactInt32Array p.isrNodes
  writeCompactInt32Array p.eligibleLeaderReplicas
  writeCompactInt32Array p.lastKnownElr
  writeCompactInt32Array p.offlineReplicas
  writeInt8 0x00 -- partition TAG_BUFFER

def writeDescribeTopic (t : TopicMetadata) : Writer Unit := do
  writeInt16 t.errorCode
  writeCompactString t.topicName
  writeBytes t.topicId.1
  writeInt8 (if t.isInternal then 1 else 0)
  if t.partitions.isEmpty then writeInt8 0x01 -- compact array, empty
  else writeArray writeDescribePartition t.partitions
  writeInt32 t.authorizedOperations
  writeInt8 0x00 -- topic TAG_BUFFER

def writeDescribeTopicPartitions (r : DescribeTopicPartitionsResponse) : Writer Unit := do
  writeInt32 r.correlationId
  writeInt8 0x00 -- header TAG_BUFFER
  writeInt32 r.throttleTimeMs
  writeArray writeDescribeTopic r.topics
  writeInt8 0xFF -- next_cursor = null
  writeInt8 0x00 -- body TAG_BUFFER

/-! ### Fetch -/

def fetchPartitionSize (p : FetchPartitionResponse) : ℕ :=
  35 + varintEncodedSize (lengthVarint p.records.length) + p.records.length + 1

def fetchTopicSize (t : FetchTopicResponse) : ℕ :=
  16 + arraySize fetchPartitionSize t.partitions + 1

def fetchSize (r : FetchResponse) : ℕ :=
  4 + 1 + 4 + 2 + 4 + arraySize fetchTopicSize r.responses + 1

def writeFetchPartition (p : FetchPartitionResponse) : Writer Unit := do
  writeInt32 p.partitionIndex
  writeInt16 p.errorCode
  writeInt64 0 -- high_watermark
  writeInt64 0 -- last_stable_offset
  writeInt64 0 -- log_start_offset
  writeVarint 1 -- aborted_transactions: empty
  writeInt32 0 -- preferred_read_replica
  writeCompactBytes p.records
  writeInt8 0x00 -- partition TAG_BUFFER

def writeFetchTopic (t : FetchTopicResponse) : Writer Unit := do
  writeBytes t.topicId.1
  writeArray writeFetchPartition t.partitions
  writeInt8 0x00 -- topic TAG_BUFFER

def writeFetch (r : FetchResponse) : Writer Unit := do
  writeInt32 r.correlationId
  writeInt8 0x00 -- header TAG_BUFFER
  writeInt32 r.throttleTimeMs
  writeInt16 r.errorCode
  writeInt32 r.sessionId
  writeArray writeFetchTopic r.responses
  writeInt8 0x00 -- body TAG_BUFFER

/-! ### Metadata -/

def metadataBrokerSize (b : MetadataBroker) : ℕ :=
  4 + stringSize b.host + 4 + nullableSize b.rack + 1

def metadataPartitionSize (p : PartitionMetadata) : ℕ :=
  2 + 4 + 4 + 4 + compactInt32ArraySize p.replicaNodes + compactInt32ArraySize p.isrNodes +
    compactInt32ArraySize p.offlineReplicas + compactInt32ArraySize p.eligibleLeaderReplicas +
    compactInt32ArraySize p.lastKnownElr + 1

def metadataTopicSize (t : MetadataTopicResponse) : ℕ :=
  2 + nullableSize t.topicName + 16 + 1 + 4 + arraySize metadataPartitionSize t.partitions + 1

def metadataSize (r : MetadataResponse) : ℕ :=
  4 + 1 + 4 + arraySize metadataBrokerSize r.brokers + nullableSize r.clusterId + 4 +
    arraySize metadataTopicSize r.topics + 4 + 1

def writeMetadataBroker (b : MetadataBroker) : Writer Unit := do
  writeInt32 b.nodeId
  writeCompactString b.host
  writeInt32 b.port
  writeNullableString b.rack
  writeInt8 0x00

def writeMetadataPartition (p : PartitionMetadata) : Writer Unit := do
  writeInt16 p.errorCode
  writeInt32 p.partitionIndex
  writeInt32 p.leaderId
  writeInt32 p.leaderEpoch
  writeCompactInt32Array p.replicaNodes
  writeCompactInt32Array p.isrNodes
  writeCompactInt32Array p.offlineReplicas
  writeCompactInt32Array p.eligibleLeaderReplicas
  writeCompactInt32Array p.lastKnownElr
  writeInt8 0x00

def writeMetadataTopic (t : MetadataTopicResponse) : Writer Unit := do
  writeInt16 t.errorCode
  writeNullableString t.topicName
  writeBytes t.topicId.1
  writeInt8 (if t.isInternal then 1 else 0)
  writeArray writeMetadataPartition t.partitions
  writeInt32 t.topicAuthorizedOperations
  writeInt8 0x00

def writeMetadata (r : MetadataResponse) : Writer Unit := do
  writeInt32 r.correlationId
  writeInt8 0x00
  writeInt32 r.throttleTimeMs
  writeArray writeMetadataBroker r.brokers
  writeNullableString r.clusterId
  writeInt32 r.controllerId
  writeArray writeMetadataTopic r.topics
  writeInt32 r.clusterAuthorizedOperations
  writeInt8 0x00

/-! ### FindCoordinator -/

def findCoordinatorSize (r : FindCoordinatorResponse) : ℕ :=
  4 + 1 + 4 + 2 + nullableSize r.errorMessage + 4 + stringSize r.host + 4 + 1

def writeFindCoordinator (r : FindCoordinatorResponse) : Writer Unit := do
  writeInt32 r.correlationId
  writeInt8 0x00
  writeInt32 r.throttleTimeMs
  writeInt16 r.errorCode
  writeNullableString r.errorMessage
  writeInt32 r.nodeId
  writeCompactString r.host
  writeInt32 r.port
  writeInt8 0x00

/-! ### OffsetCommit and OffsetFetch

The metadata is sized as a string and written as a nullable string. -/

def offsetCommitPartitionSize (p : OffsetCommitPartitionResponse) : ℕ :=
  4 + 2 + 4 + stringSize p.committedMetadata + 1

def offsetCommitTopicSize (t : OffsetCommitTopicResponse) : ℕ :=
  stringSize t.topicName + arraySize offsetCommitPartitionSize t.partitions + 1

def offsetCommitSize (r : OffsetCommitResponse) : ℕ :=
  4 + 1 + 4 + arraySize offsetCommitTopicSize r.topics + 1

def writeOffsetCommitPartition (p : OffsetCommitPartitionResponse) : Writer Unit := do
  writeInt32 p.partitionIndex
  writeInt16 p.errorCode
  writeInt32 p.committedLeaderEpoch
  writeNullableString p.committedMetadata
  writeInt8 0x00

def writeOffsetCommitTopic (t : OffsetCommitTopicResponse) : Writer Unit := do
  writeCompactString t.topicName
  writeArray writeOffsetCommitPartition t.partitions
  writeInt8 0x00

def writeOffsetCommit (r : OffsetCommitResponse) : Writer Unit := do
  writeInt32 r.correlationId
  writeInt8 0x00
  writeInt32 r.throttleTimeMs
  writeArray writeOffsetCommitTopic r.topics
  writeInt8 0x00

def offsetFetchPartitionSize (p : OffsetFetchPartitionResponse) : ℕ :=
  4 + 8 + 4 + stringSize p.committedMetadata + 2 + 1

def offsetFetchTopicSize (t : OffsetFetchTopicResponse) : ℕ :=
  stringSize t.topicName + arraySize offsetFetchPartitionSize t.partitions + 1

def offsetFetchSize (r : OffsetFetchResponse) : ℕ :=
  4 + 1 + 4 + arraySize offsetFetchTopicSize r.topics + 1

def writeOffsetFetchPartition (p : OffsetFetchPartitionResponse) : Writer Unit := do
  writeInt32 p.partitionIndex
  writeInt64 p.committedOffset
  writeInt32 p.committedLeaderEpoch
  writeNullableString p.committedMetadata
  writeInt16 p.errorCode
  writeInt8 0x00

def writeOffsetFetchTopic (t : OffsetFetchTopicResponse) : Writer Unit := do
  writeCompactString t.topicName
  writeArray writeOffsetFetchPartition t.partitions
  writeInt8 0x00

def writeOffsetFetch (r : OffsetFetchResponse) : Writer Unit := do
  writeInt32 r.correlationId
  writeInt8 0x00
  writeInt32 r.throttleTimeMs
  writeArray writeOffsetFetchTopic r.topics
  writeInt8 0x00

/-! ### ListOffsets -/

def listOffsetsTopicSize (t : ListOffsetsTopicResponse) : ℕ :=
  stringSize t.topicName + varintEncodedSize (lengthVarint t.partitions.length) +
    t.partitions.length * (4 + 2 + 8 + 8 + 1) + 1

def listOffsetsSize (r : ListOffsetsResponse) : ℕ :=
  4 + 1 + 4 + arraySize listOffsetsTopicSize r.topics + 1

def writeListOffsetsPartition (p : ListOffsetsPartitionResponse) : Writer Unit := do
  writeInt32 p.partitionIndex
  writeInt16 p.errorCode
  writeInt64 p.offset
  writeInt64 p.timestamp
  writeInt8 0x00

def writeListOffsetsTopic (t : ListOffsetsTopicResponse) : Writer Unit := do
  writeCompactString t.topicName
  writeArray writeListOffsetsPartition t.partitions
  writeInt8 0x00

def writeListOffsets (r : ListOffsetsResponse) : Writer Unit := do
  writeInt32 r.correlationId
  writeInt8 0x00
  writeInt32 r.throttleTimeMs
  writeArray writeListOffsetsTopic r.topics
  writeInt8 0x00

/-! ### JoinGroup -/

def joinGroupMemberSize (m : JoinGroupMember) : ℕ :=
  stringSize m.memberId + varintEncodedSize (lengthVarint m.metadata.length) +
    m.metadata.length + 1

def joinGroupSize (r : JoinGroupResponse) : ℕ :=
  4 + 1 + 4 + 2 + 4 + nullableSize r.protocolName + stringSize r.leader + stringSize r.memberId +
    arraySize joinGroupMemberSize r.members + 1

def writeJoinGroupMember (m : JoinGroupMember) : Writer Unit := do
  writeCompactString m.memberId
  writeCompactBytes m.metadata
  writeInt8 0x00

def writeJoinGroup (r : JoinGroupResponse) : Writer Unit := do
  writeInt32 r.correlationId
  writeInt8 0x00
  writeInt32 r.throttleTimeMs
  writeInt16 r.errorCode
  writeInt32 r.generationId
  writeNullableString r.protocolName
  writeCompactString r.leader
  writeCompactString r.memberId
  writeArray writeJoinGroupMember r.members
  writeInt8 0x00

/-! ### Heartbeat and LeaveGroup -/

def heartbeatSize (_r : HeartbeatResponse) : ℕ := 4 + 1 + 4 + 2 + 1

def writeHeartbeat (r : HeartbeatResponse) : Writer Unit := do
  writeInt32 r.correlationId
  writeInt8 0x00
  writeInt32 r.throttleTimeMs
  writeInt16 r.errorCode
  writeInt8 0x00

def leaveGroupSize (_r : LeaveGroupResponse) : ℕ := 4 + 1 + 4 + 2 + 1

def writeLeaveGroup (r : LeaveGroupResponse) : Writer Unit := do
  writeInt32 r.correlationId
  writeInt8 0x00
  writeInt32 r.throttleTimeMs
  writeInt16 r.errorCode
  writeInt8 0x00

/-! ### SyncGroup -/

def syncGroupSize (r : SyncGroupResponse) : ℕ :=
  4 + 1 + 4 + 2 + nullableSize r.protocolType + nullableSize r.protocolName +
    varintEncodedSize (lengthVarint r.assignment.length) + r.assignment.length + 1

def writeSyncGroup (r : SyncGroupResponse) : Writer Unit := do
  writeInt32 r.correlationId
  writeInt8 0x00
  writeInt32 r.throttleTimeMs
  writeInt16 r.errorCode
  writeNullableString r.protocolType
  writeNullableString r.protocolName
  writeCompactBytes r.assignment
  writeInt8 0x00

/-! ### Produce -/

def produceTopicSize (t : ProduceTopicResponse) : ℕ :=
  stringSize t.topicName + 1 +
    if t.partitions.isEmpty then 1
    else varintEncodedSize (lengthVarint t.partitions.length) +
      t.partitions.length * (4 + 2 + 8 + 8 + 8 + 1 + 1 + 1)

def produceSize (r : ProduceResponse) : ℕ :=
  4 + 1 + arraySize produceTopicSize r.responses + 4 + 1

def writeProducePartition (p : ProducePartitionResponse) : Writer Unit := do
  writeInt32 p.partitionIndex
  writeInt16 p.errorCode
  writeInt64 p.baseOffset
  writeInt64 p.logAppendTimeMs
  writeInt64 p.logStartOffset
  writeInt8 0x01 -- record_errors: empty (varint 1)
  writeInt8 0x00 -- error_message: null (varint 0)
  writeInt8 0x00 -- partition tagged_fields

def writeProduceTopic (t : ProduceTopicResponse) : Writer Unit := do
  writeCompactString t.topicName
  writeArray writeProducePartition t.partitions
  writeInt8 0x00 -- topic tagged_fields

def writeProduce (r : ProduceResponse) : Writer Unit := do
  writeInt32 r.correlationId
  writeInt8 0x00 -- header TAG_BUFFER
  writeArray writeProduceTopic r.responses
  writeInt32 r.throttleTimeMs
  writeInt8 0x00 -- body tagged_fields

/-! ### All variants -/

/-- What every variant does with its `body_size`: allocate the buffer, write the size and then
the body. The result is the writer at the end. -/
def fillBuffer (bodySize : ℕ) (body : Writer Unit) : Option ByteWriter :=
  let write : Writer Unit := do
    writeInt32 (Int32.ofNat bodySize)
    body
  (write.run ⟨List.replicate (4 + bodySize) 0, 0⟩).map Prod.snd

end Serializer

open Serializer

/-- The `body_size` of each variant. -/
def Response.bodySize : Response → ℕ
  | .apiVersions r => apiVersionsSize r
  | .describeTopicPartitions r => describeTopicPartitionsSize r
  | .fetch r => fetchSize r
  | .findCoordinator r => findCoordinatorSize r
  | .heartbeat r => heartbeatSize r
  | .joinGroup r => joinGroupSize r
  | .leaveGroup r => leaveGroupSize r
  | .listOffsets r => listOffsetsSize r
  | .metadata r => metadataSize r
  | .offsetCommit r => offsetCommitSize r
  | .offsetFetch r => offsetFetchSize r
  | .produce r => produceSize r
  | .syncGroup r => syncGroupSize r

/-- The writes of each variant after its size. -/
def Response.writeBody : Response → Writer Unit
  | .apiVersions r => writeApiVersions r
  | .describeTopicPartitions r => writeDescribeTopicPartitions r
  | .fetch r => writeFetch r
  | .findCoordinator r => writeFindCoordinator r
  | .heartbeat r => writeHeartbeat r
  | .joinGroup r => writeJoinGroup r
  | .leaveGroup r => writeLeaveGroup r
  | .listOffsets r => writeListOffsets r
  | .metadata r => writeMetadata r
  | .offsetCommit r => writeOffsetCommit r
  | .offsetFetch r => writeOffsetFetch r
  | .produce r => writeProduce r
  | .syncGroup r => writeSyncGroup r

/-- The run of `serialize` up to its `return`: the buffer and the offset of its writer. -/
def Response.write (resp : Response) : Option ByteWriter := fillBuffer resp.bodySize resp.writeBody

/-- `serialize`; `none` when a write does not fit the buffer. -/
def serialize (resp : Response) : Option Bytes := resp.write.map Cursor.data

end TinyKafka

import TinyKafka.Protocol.Request
import TinyKafka.Util.ByteReader

/-!
# Request parsing

`parse_request`: eight bytes of header, then one arm per api key. Every arm except the one of
ApiVersions starts with the nullable client id and a tag byte. Compact arrays carry their
length plus one, and all of them but one read a null array (length zero) as empty.

One read is not checked: the arm of Fetch tests `max_bytes` where it should test
`part_max_bytes`. What the program then takes for the partition's limit is undefined, so it is
a parameter here, called `junk`.
-/

namespace TinyKafka

open ByteReader

namespace Parser

/-- `n` times the same element, the results in order. -/
def readMany {α : Type} (element : Reader α) : ℕ → Reader (List α)
  | 0 => pure []
  | n + 1 => do
    let a ← element
    let as ← readMany element n
    return a :: as

/-- The nullable client id, which every arm skips, and the tag byte of the header. -/
def skipClientId : Reader Unit := do
  let len ← readInt16
  if len > 0 then skip len.toInt.toNat
  skip 1

/-- The number of elements of a compact array: `len > 0 ? len - 1 : 0`. -/
def arrayCount (len : UInt32) : ℕ := if len > 0 then (len - 1).toNat else 0

/-- A compact array. -/
def compactArray {α : Type} (element : Reader α) : Reader (List α) := do
  let len ← readVarint
  readMany element (arrayCount len)

/-- Compact bytes; null and empty are both empty. -/
def compactBytes : Reader Bytes := do
  let len ← readVarint
  if len > 1 then readBytes (len - 1).toNat else pure []

/-- Compact bytes that are skipped. -/
def skipCompact : Reader Unit := do
  let len ← readVarint
  if len > 1 then skip (len - 1).toNat

/-! ### Metadata requests -/

/-- A topic name of DescribeTopicPartitions with its tag byte. -/
def describeTopic : Reader Bytes := do
  let name ← readCompactString
  skip 1
  return name

/-- The cursor, which is absent when its flag byte is `0xFF`. -/
def skipCursor : Reader Unit := do
  let flag ← readInt8
  if flag ≠ 0xFF then
    let _name ← readCompactString
    let _partition ← readInt32
    skip 1

/-- `case 75`. Here the length of the topic array is decremented without a test for zero. -/
def describeTopicPartitions (header : RequestHeader) : Reader Request := do
  skipClientId
  let arrayLen ← readVarint
  let topicNames ← readMany describeTopic (arrayLen - 1).toNat
  let _partitionLimit ← readInt32
  skipCursor
  skip 1
  return .describeTopicPartitions { header, topicNames }

/-- A topic name of Metadata, with a 16-bit length; an empty one adds no name. -/
def metadataTopic : Reader (List Bytes) := do
  let len ← readInt16
  if len > 0 then return [← readBytes len.toInt.toNat] else return []

/-- `case 3`. -/
def metadata (header : RequestHeader) : Reader Request := do
  skipClientId
  let len ← readInt32
  let topics ← readMany metadataTopic len.toInt.toNat
  let allowCreate ← readInt8
  return .metadata { header, topics := topics.flatten, allowAutoTopicCreation := allowCreate ≠ 0 }

/-! ### Record requests -/

/-- A partition of Produce. -/
def producePartition : Reader ProducePartitionRequest := do
  let partitionIndex ← readInt32
  let records ← compactBytes
  skip 1
  return { partitionIndex, records }

/-- A topic of Produce. -/
def produceTopic : Reader ProduceTopicRequest := do
  let topicName ← readCompactString
  let partitions ← compactArray producePartition
  skip 1
  return { topicName, partitions }

/-- `case 0`. -/
def produce (header : RequestHeader) : Reader Request := do
  skipClientId
  skipCompact
  let _acks ← readInt16
  let _timeout ← readInt32
  let topics ← compactArray produceTopic
  skip 1
  return .produce { header, topics }

/-- A read whose failure goes unnoticed: the cursor stays and the value is `junk`. -/
def unchecked {α : Type} (read : Reader α) (junk : α) : Reader α :=
  tryCatch read fun _ => pure junk

/-- A partition of Fetch. -/
def fetchPartition (junk : Int32) : Reader FetchPartitionRequest := do
  let partitionIndex ← readInt32
  skip 4
  let fetchOffset ← readInt64
  skip 4
  skip 8
  let maxBytes ← unchecked readInt32 junk
  skip 1
  return { partitionIndex, fetchOffset, maxBytes }

/-- The sixteen bytes of a topic id. -/
def readUuid : Reader Uuid := fixed 16 fun bs => ⟨bs.takeD 16 0, List.takeD_length ..⟩

theorem reads_readUuid (id : Uuid) : CursorM.Reads readUuid id.val id := by
  have h := reads_fixed (fun bs => (⟨bs.takeD 16 0, List.takeD_length ..⟩ : Uuid)) id.val
  have hid : (⟨id.val.takeD 16 0, List.takeD_length ..⟩ : Uuid) = id :=
    Subtype.ext ((List.takeD_eq_take 0 id.property.ge).trans
      (List.take_of_length_le id.property.le))
  rwa [id.property, hid] at h

/-- A topic of Fetch. -/
def fetchTopic (junk : Int32) : Reader FetchTopicRequest := do
  let topicId ← readUuid
  let partitions ← compactArray (fetchPartition junk)
  skip 1
  return { topicId, partitions }

/-- A forgotten topic of Fetch. -/
def skipForgotten : Reader Unit := do
  skip 16
  let len ← readVarint
  skip (arrayCount len * 4)
  skip 1

/-- `case 1`. -/
def fetch (junk : Int32) (header : RequestHeader) : Reader Request := do
  skipClientId
  let _maxWaitMs ← readInt32
  let _minBytes ← readInt32
  let maxBytes ← readInt32
  let _isolationLevel ← readInt8
  let _sessionId ← readInt32
  let _sessionEpoch ← readInt32
  let topics ← compactArray (fetchTopic junk)
  let _forgotten ← compactArray skipForgotten
  skipCompact
  skip 1
  return .fetch { header, topics, maxBytes }

/-- A partition of ListOffsets. -/
def listOffsetsPartition : Reader ListOffsetsPartitionRequest := do
  let partitionIndex ← readInt32
  let timestamp ← readInt64
  skip 1
  return { partitionIndex, timestamp }

/-- A topic of ListOffsets. -/
def listOffsetsTopic : Reader ListOffsetsTopicRequest := do
  let topicName ← readCompactString
  let partitions ← compactArray listOffsetsPartition
  skip 1
  return { topicName, partitions }

/-- `case 2`. -/
def listOffsets (header : RequestHeader) : Reader Request := do
  skipClientId
  let replicaId ← readInt32
  let isolationLevel ← readInt8
  let topics ← compactArray listOffsetsTopic
  skip 1
  return .listOffsets { header, replicaId, isolationLevel := isolationLevel.toInt8, topics }

/-! ### Group requests -/

/-- A partition of OffsetCommit. -/
def offsetCommitPartition : Reader OffsetCommitPartitionRequest := do
  let partitionIndex ← readInt32
  let committedOffset ← readInt64
  skip 1
  return { partitionIndex, committedOffset }

/-- A topic of OffsetCommit. -/
def offsetCommitTopic : Reader OffsetCommitTopicRequest := do
  let topicName ← readCompactString
  let partitions ← compactArray offsetCommitPartition
  skip 1
  return { topicName, partitions }

/-- `case 8`. -/
def offsetCommit (header : RequestHeader) : Reader Request := do
  skipClientId
  let groupId ← readCompactString
  let memberId ← readCompactString
  let generationId ← readInt32
  let topics ← compactArray offsetCommitTopic
  skip 1
  return .offsetCommit { header, groupId, memberId, generationId, topics }

/-- A topic of OffsetFetch; its partitions have no tag byte. -/
def offsetFetchTopic : Reader OffsetFetchTopicRequest := do
  let topicName ← readCompactString
  let partitionIndexes ← compactArray readInt32
  skip 1
  return { topicName, partitionIndexes }

/-- `case 9`. -/
def offsetFetch (header : RequestHeader) : Reader Request := do
  skipClientId
  let groupId ← readCompactString
  let topics ← compactArray offsetFetchTopic
  skip 1
  return .offsetFetch { header, groupId, topics }

/-- `case 10`. -/
def findCoordinator (header : RequestHeader) : Reader Request := do
  skipClientId
  let coordinatorKey ← readCompactString
  let keyType ← readInt8
  skip 1
  return .findCoordinator { header, coordinatorKey, keyType := keyType.toInt8 }

/-- A protocol of JoinGroup. -/
def joinGroupProtocol : Reader JoinGroupProtocol := do
  let name ← readCompactString
  let metadata ← compactBytes
  skip 1
  return { name, metadata }

/-- `case 11`. -/
def joinGroup (header : RequestHeader) : Reader Request := do
  skipClientId
  let groupId ← readCompactString
  let sessionTimeoutMs ← readInt32
  let memberId ← readCompactString
  let protocolType ← readCompactString
  let protocols ← compactArray joinGroupProtocol
  skip 1
  return .joinGroup { header, groupId, sessionTimeoutMs, memberId, protocolType, protocols }

/-- `case 12`. -/
def heartbeat (header : RequestHeader) : Reader Request := do
  skipClientId
  let groupId ← readCompactString
  let generationId ← readInt32
  let memberId ← readCompactString
  let groupInstanceId ← readCompactString
  skip 1
  return .heartbeat { header, groupId, generationId, memberId, groupInstanceId }

/-- `case 13`. -/
def leaveGroup (header : RequestHeader) : Reader Request := do
  skipClientId
  let groupId ← readCompactString
  let memberId ← readCompactString
  skip 1
  return .leaveGroup { header, groupId, memberId }

/-- An assignment of SyncGroup. -/
def syncGroupAssignment : Reader SyncGroupAssignment := do
  let memberId ← readCompactString
  let assignment ← compactBytes
  skip 1
  return { memberId, assignment }

/-- `case 14`. -/
def syncGroup (header : RequestHeader) : Reader Request := do
  skipClientId
  let groupId ← readCompactString
  let generationId ← readInt32
  let memberId ← readCompactString
  let assignments ← compactArray syncGroupAssignment
  skip 1
  return .syncGroup { header, groupId, generationId, memberId, assignments }

/-- The header of every request. -/
def requestHeader : Reader RequestHeader := do
  let apiKey ← readInt16
  let apiVersion ← readInt16
  let correlationId ← readInt32
  return { apiKey, apiVersion, correlationId }

/-- `switch (*api_key)`. -/
def body (junk : Int32) (header : RequestHeader) : Reader Request :=
  match header.apiKey with
  | 18 => pure (.apiVersions ⟨header⟩)
  | 75 => describeTopicPartitions header
  | 1 => fetch junk header
  | 2 => listOffsets header
  | 3 => metadata header
  | 0 => produce header
  | 8 => offsetCommit header
  | 9 => offsetFetch header
  | 10 => findCoordinator header
  | 11 => joinGroup header
  | 12 => heartbeat header
  | 13 => leaveGroup header
  | 14 => syncGroup header
  | _ => throw (.errc .functionNotSupported)

/-- A whole request. -/
def request (junk : Int32) : Reader Request := requestHeader >>= body junk

end Parser

/-- `parse_request`. -/
def parseRequest (junk : Int32) (buf : Bytes) : Except Failure Request :=
  ((Parser.request junk).runOn ⟨buf, 0⟩).1

end TinyKafka

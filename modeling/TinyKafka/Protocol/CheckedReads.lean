import TinyKafka.ForMathlib.Expected
import TinyKafka.Protocol.Parser

/-!
# Reads that are used unchecked

`parse_request` once more, now with the result of every read kept as the value or error that
`std::expected` is: each read is a `call`, each `if (!x) return std::unexpected(x.error());` a
`check`, and each `*x` or `x->` a `deref`. The definitions follow the source statement by
statement; what an arm shares with others (the client id, a compact array, compact bytes) is
written once.

Where every read is checked, an arm is the one of `Parser` (`body_eq`) and uses no failed read.
The exception is the limit of a partition of Fetch: what is checked after reading it is
`max_bytes`, the limit of the whole request, which has been checked before. If the buffer ends
inside a partition's limit, with one to three of its four bytes, then the tag byte behind it can
still be skipped and the missing limit is used. That is the only way
(`not_usesFailedRead_iff`), and apart from it the two embeddings agree (`implements_request`).
-/

namespace TinyKafka

open ByteReader CursorM ExpectedM

/-- Computations on a `ByteReader` that keep the results of the reads. -/
abbrev Explicit := ExpectedM UInt8 Failure

namespace Explicit

/-- A `for` loop that appends to a vector. -/
def readMany {α : Type} (element : Explicit α) : ℕ → Explicit (List α)
  | 0 => pure []
  | n + 1 => do
    let a ← element
    let as ← readMany element n
    return a :: as

/-- The nullable client id and the tag byte of the header. -/
def skipClientId : Explicit Unit := do
  let clientIdLen ← call readInt16
  check clientIdLen
  if (← deref clientIdLen) > 0 then
    let skipClient ← call (skip (← deref clientIdLen).toInt.toNat)
    check skipClient
  let headerTag ← call (skip 1)
  check headerTag

/-- A compact array. -/
def compactArray {α : Type} (element : Explicit α) : Explicit (List α) := do
  let arrayLen ← call readVarint
  check arrayLen
  readMany element (Parser.arrayCount (← deref arrayLen))

/-- Compact bytes; null and empty are both empty. -/
def compactBytes : Explicit Bytes := do
  let len ← call readVarint
  check len
  if (← deref len) > 1 then
    let span ← call (readBytes ((← deref len) - 1).toNat)
    check span
    deref span
  else
    return []

/-- Compact bytes that are skipped. -/
def skipCompact : Explicit Unit := do
  let len ← call readVarint
  check len
  if (← deref len) > 1 then
    let skipped ← call (skip ((← deref len) - 1).toNat)
    check skipped

/-! ### Metadata requests -/

/-- A topic name of DescribeTopicPartitions with its tag byte. -/
def describeTopic : Explicit Bytes := do
  let name ← call readCompactString
  check name
  -- the name is moved into the vector before the tag byte is skipped
  let topicName ← deref name
  let skipTopicTag ← call (skip 1)
  check skipTopicTag
  return topicName

/-- The cursor of DescribeTopicPartitions. -/
def skipCursor : Explicit Unit := do
  let cursorFlag ← call readInt8
  check cursorFlag
  if (← deref cursorFlag) ≠ 0xFF then
    let cursorName ← call readCompactString
    check cursorName
    let cursorPartition ← call readInt32
    check cursorPartition
    let cursorTag ← call (skip 1)
    check cursorTag

/-- `case 75`. In this arm and the next ones, `header` is the expression
`RequestHeader{*api_key, *api_version, *correlation_id}`, evaluated at the end. -/
def describeTopicPartitions (header : Explicit RequestHeader) : Explicit Request := do
  skipClientId
  let arrayLen ← call readVarint
  check arrayLen
  let topicNames ← readMany describeTopic ((← deref arrayLen) - 1).toNat
  let partitionLimit ← call readInt32
  check partitionLimit
  skipCursor
  let finalTag ← call (skip 1)
  check finalTag
  return .describeTopicPartitions { header := ← header, topicNames }

/-- A topic name of Metadata. -/
def metadataTopic : Explicit (List Bytes) := do
  let nameLen ← call readInt16
  check nameLen
  if (← deref nameLen) > 0 then
    let nameBytes ← call (readBytes (← deref nameLen).toInt.toNat)
    check nameBytes
    return [← deref nameBytes]
  else
    return []

/-- `case 3`. -/
def metadata (header : Explicit RequestHeader) : Explicit Request := do
  skipClientId
  let topicsArrayLen ← call readInt32
  check topicsArrayLen
  let topicNames ← readMany metadataTopic (← deref topicsArrayLen).toInt.toNat
  let allowCreate ← call readInt8
  check allowCreate
  return .metadata
    { header := ← header, topics := topicNames.flatten,
      allowAutoTopicCreation := (← deref allowCreate) ≠ 0 }

/-! ### Record requests -/

/-- A partition of Produce. -/
def producePartition : Explicit ProducePartitionRequest := do
  let partIdx ← call readInt32
  check partIdx
  let records ← compactBytes
  let recTag ← call (skip 1)
  check recTag
  return { partitionIndex := ← deref partIdx, records }

/-- A topic of Produce. -/
def produceTopic : Explicit ProduceTopicRequest := do
  let name ← call readCompactString
  check name
  let partitions ← compactArray producePartition
  let topicEndTag ← call (skip 1)
  check topicEndTag
  return { topicName := ← deref name, partitions }

/-- `case 0`. -/
def produce (header : Explicit RequestHeader) : Explicit Request := do
  skipClientId
  skipCompact
  let acks ← call readInt16
  check acks
  let timeout ← call readInt32
  check timeout
  let topics ← compactArray produceTopic
  let bodyTag ← call (skip 1)
  check bodyTag
  return .produce { header := ← header, topics }

/-- A partition of Fetch. After `part_max_bytes` has been read it is `max_bytes`, the limit of
the request, that is checked. -/
def fetchPartition (maxBytes : Except Failure Int32) : Explicit FetchPartitionRequest := do
  let partIdx ← call readInt32
  check partIdx
  let skipLeaderEpoch ← call (skip 4)
  check skipLeaderEpoch
  let fetchOffset ← call readInt64
  check fetchOffset
  let skipLastEpoch ← call (skip 4)
  check skipLastEpoch
  let skipLogStart ← call (skip 8)
  check skipLogStart
  let partMaxBytes ← call readInt32
  check maxBytes
  let skipPartTag ← call (skip 1)
  check skipPartTag
  return { partitionIndex := ← deref partIdx, fetchOffset := ← deref fetchOffset,
           maxBytes := ← deref partMaxBytes }

/-- A topic of Fetch. -/
def fetchTopic (maxBytes : Except Failure Int32) : Explicit FetchTopicRequest := do
  let tidBytes ← call Parser.readUuid
  check tidBytes
  let topicId ← deref tidBytes
  let partitions ← compactArray (fetchPartition maxBytes)
  let skipTopicTag ← call (skip 1)
  check skipTopicTag
  return { topicId, partitions }

/-- A forgotten topic of Fetch. -/
def skipForgotten : Explicit Unit := do
  let skipFtid ← call (skip 16)
  check skipFtid
  let fpartLen ← call readVarint
  check fpartLen
  let skipFparts ← call (skip (Parser.arrayCount (← deref fpartLen) * 4))
  check skipFparts
  let skipFtag ← call (skip 1)
  check skipFtag

/-- `case 1`. -/
def fetch (header : Explicit RequestHeader) : Explicit Request := do
  skipClientId
  let maxWaitMs ← call readInt32
  check maxWaitMs
  let minBytes ← call readInt32
  check minBytes
  let maxBytes ← call readInt32
  check maxBytes
  let isolationLevel ← call readInt8
  check isolationLevel
  let sessionId ← call readInt32
  check sessionId
  let sessionEpoch ← call readInt32
  check sessionEpoch
  let topics ← compactArray (fetchTopic maxBytes)
  let _forgotten ← compactArray skipForgotten
  skipCompact
  let bodyTag ← call (skip 1)
  check bodyTag
  return .fetch { header := ← header, topics, maxBytes := ← deref maxBytes }

/-- A partition of ListOffsets. -/
def listOffsetsPartition : Explicit ListOffsetsPartitionRequest := do
  let partIdx ← call readInt32
  check partIdx
  let timestamp ← call readInt64
  check timestamp
  let skipPartTag ← call (skip 1)
  check skipPartTag
  return { partitionIndex := ← deref partIdx, timestamp := ← deref timestamp }

/-- A topic of ListOffsets. -/
def listOffsetsTopic : Explicit ListOffsetsTopicRequest := do
  let name ← call readCompactString
  check name
  let partitions ← compactArray listOffsetsPartition
  let skipTopicTag ← call (skip 1)
  check skipTopicTag
  return { topicName := ← deref name, partitions }

/-- `case 2`. -/
def listOffsets (header : Explicit RequestHeader) : Explicit Request := do
  skipClientId
  let replicaId ← call readInt32
  check replicaId
  let isolationLevel ← call readInt8
  check isolationLevel
  let topics ← compactArray listOffsetsTopic
  let bodyTag ← call (skip 1)
  check bodyTag
  return .listOffsets
    { header := ← header, replicaId := ← deref replicaId,
      isolationLevel := (← deref isolationLevel).toInt8, topics }

/-! ### Group requests -/

/-- A partition of OffsetCommit. -/
def offsetCommitPartition : Explicit OffsetCommitPartitionRequest := do
  let partIdx ← call readInt32
  check partIdx
  let committedOffset ← call readInt64
  check committedOffset
  let skipPartTag ← call (skip 1)
  check skipPartTag
  return { partitionIndex := ← deref partIdx, committedOffset := ← deref committedOffset }

/-- A topic of OffsetCommit. -/
def offsetCommitTopic : Explicit OffsetCommitTopicRequest := do
  let name ← call readCompactString
  check name
  let partitions ← compactArray offsetCommitPartition
  let skipTopicTag ← call (skip 1)
  check skipTopicTag
  return { topicName := ← deref name, partitions }

/-- `case 8`. -/
def offsetCommit (header : Explicit RequestHeader) : Explicit Request := do
  skipClientId
  let groupId ← call readCompactString
  check groupId
  let memberId ← call readCompactString
  check memberId
  let generationId ← call readInt32
  check generationId
  let topics ← compactArray offsetCommitTopic
  let bodyTag ← call (skip 1)
  check bodyTag
  return .offsetCommit
    { header := ← header, groupId := ← deref groupId, memberId := ← deref memberId,
      generationId := ← deref generationId, topics }

/-- A partition of OffsetFetch. -/
def offsetFetchPartition : Explicit Int32 := do
  let partIdx ← call readInt32
  check partIdx
  deref partIdx

/-- A topic of OffsetFetch. -/
def offsetFetchTopic : Explicit OffsetFetchTopicRequest := do
  let name ← call readCompactString
  check name
  let partitionIndexes ← compactArray offsetFetchPartition
  let skipTopicTag ← call (skip 1)
  check skipTopicTag
  return { topicName := ← deref name, partitionIndexes }

/-- `case 9`. -/
def offsetFetch (header : Explicit RequestHeader) : Explicit Request := do
  skipClientId
  let groupId ← call readCompactString
  check groupId
  let topics ← compactArray offsetFetchTopic
  let bodyTag ← call (skip 1)
  check bodyTag
  return .offsetFetch { header := ← header, groupId := ← deref groupId, topics }

/-- `case 10`. -/
def findCoordinator (header : Explicit RequestHeader) : Explicit Request := do
  skipClientId
  let key ← call readCompactString
  check key
  let keyType ← call readInt8
  check keyType
  let bodyTag ← call (skip 1)
  check bodyTag
  return .findCoordinator
    { header := ← header, coordinatorKey := ← deref key, keyType := (← deref keyType).toInt8 }

/-- A protocol of JoinGroup. -/
def joinGroupProtocol : Explicit JoinGroupProtocol := do
  let name ← call readCompactString
  check name
  let metadata ← compactBytes
  let skipProtoTag ← call (skip 1)
  check skipProtoTag
  return { name := ← deref name, metadata }

/-- `case 11`. -/
def joinGroup (header : Explicit RequestHeader) : Explicit Request := do
  skipClientId
  let groupId ← call readCompactString
  check groupId
  let sessionTimeout ← call readInt32
  check sessionTimeout
  let memberId ← call readCompactString
  check memberId
  let protocolType ← call readCompactString
  check protocolType
  let protocols ← compactArray joinGroupProtocol
  let bodyTag ← call (skip 1)
  check bodyTag
  return .joinGroup
    { header := ← header, groupId := ← deref groupId,
      sessionTimeoutMs := ← deref sessionTimeout, memberId := ← deref memberId,
      protocolType := ← deref protocolType, protocols }

/-- `case 12`. -/
def heartbeat (header : Explicit RequestHeader) : Explicit Request := do
  skipClientId
  let groupId ← call readCompactString
  check groupId
  let generationId ← call readInt32
  check generationId
  let memberId ← call readCompactString
  check memberId
  let groupInstanceId ← call readCompactString
  check groupInstanceId
  let bodyTag ← call (skip 1)
  check bodyTag
  return .heartbeat
    { header := ← header, groupId := ← deref groupId, generationId := ← deref generationId,
      memberId := ← deref memberId, groupInstanceId := ← deref groupInstanceId }

/-- `case 13`. -/
def leaveGroup (header : Explicit RequestHeader) : Explicit Request := do
  skipClientId
  let groupId ← call readCompactString
  check groupId
  let memberId ← call readCompactString
  check memberId
  let bodyTag ← call (skip 1)
  check bodyTag
  return .leaveGroup
    { header := ← header, groupId := ← deref groupId, memberId := ← deref memberId }

/-- An assignment of SyncGroup. -/
def syncGroupAssignment : Explicit SyncGroupAssignment := do
  let mid ← call readCompactString
  check mid
  let assignment ← compactBytes
  let skipAssignTag ← call (skip 1)
  check skipAssignTag
  return { memberId := ← deref mid, assignment }

/-- `case 14`. -/
def syncGroup (header : Explicit RequestHeader) : Explicit Request := do
  skipClientId
  let groupId ← call readCompactString
  check groupId
  let generationId ← call readInt32
  check generationId
  let memberId ← call readCompactString
  check memberId
  let assignments ← compactArray syncGroupAssignment
  let bodyTag ← call (skip 1)
  check bodyTag
  return .syncGroup
    { header := ← header, groupId := ← deref groupId, generationId := ← deref generationId,
      memberId := ← deref memberId, assignments }

/-- `switch (*api_key)`. -/
def body (apiKey : Int16) (header : Explicit RequestHeader) : Explicit Request :=
  match apiKey with
  | 18 => do return .apiVersions ⟨← header⟩
  | 75 => describeTopicPartitions header
  | 1 => fetch header
  | 2 => listOffsets header
  | 3 => metadata header
  | 0 => produce header
  | 8 => offsetCommit header
  | 9 => offsetFetch header
  | 10 => findCoordinator header
  | 11 => joinGroup header
  | 12 => heartbeat header
  | 13 => leaveGroup header
  | 14 => syncGroup header
  | _ => throw (.returned (.errc .functionNotSupported))

/-- A whole request. -/
def request : Explicit Request := do
  let apiKey ← call readInt16
  check apiKey
  let apiVersion ← call readInt16
  check apiVersion
  let correlationId ← call readInt32
  check correlationId
  body (← deref apiKey) (do
    return { apiKey := ← deref apiKey, apiVersion := ← deref apiVersion,
             correlationId := ← deref correlationId })

/-! ### Where every read is checked -/

theorem readMany_lift {α : Type} (p : Reader α) (n : ℕ) :
    readMany (lift p) n = lift (Parser.readMany p n) := by
  induction n with
  | zero => rfl
  | succ n ih => simp only [readMany, Parser.readMany, ih, lift_bind, lift_pure]

theorem compactArray_lift {α : Type} (p : Reader α) :
    compactArray (lift p) = lift (Parser.compactArray p) := by
  simp only [compactArray, Parser.compactArray, call_check_bind, deref_ok, pure_bind, lift_bind,
    readMany_lift]

theorem skipClientId_eq : skipClientId = lift Parser.skipClientId := by
  simp only [skipClientId, Parser.skipClientId, call_check_bind, deref_ok, pure_bind, lift_bind,
    call_check, lift_ite]

theorem compactBytes_eq : compactBytes = lift Parser.compactBytes := by
  simp only [compactBytes, Parser.compactBytes, call_check_bind, deref_ok, pure_bind, bind_pure,
    lift_bind, lift_pure, lift_ite]

theorem skipCompact_eq : skipCompact = lift Parser.skipCompact := by
  simp only [skipCompact, Parser.skipCompact, call_check_bind, deref_ok, pure_bind, lift_bind,
    lift_pure, call_check, lift_ite]

theorem describeTopic_eq : describeTopic = lift Parser.describeTopic := by
  simp only [describeTopic, Parser.describeTopic, call_check_bind, deref_ok, pure_bind, lift_bind,
    lift_pure]

theorem skipCursor_eq : skipCursor = lift Parser.skipCursor := by
  simp only [skipCursor, Parser.skipCursor, call_check_bind, deref_ok, pure_bind, lift_bind,
    lift_pure, call_check, lift_ite]

theorem describeTopicPartitions_eq (h : RequestHeader) :
    describeTopicPartitions (pure h) = lift (Parser.describeTopicPartitions h) := by
  simp only [describeTopicPartitions, Parser.describeTopicPartitions, call_check_bind, deref_ok,
    pure_bind, lift_bind, lift_pure, skipClientId_eq, describeTopic_eq, readMany_lift,
    skipCursor_eq]

theorem metadataTopic_eq : metadataTopic = lift Parser.metadataTopic := by
  simp only [metadataTopic, Parser.metadataTopic, call_check_bind, deref_ok, pure_bind, lift_bind,
    lift_pure, lift_ite]

theorem metadata_eq (h : RequestHeader) :
    metadata (pure h) = lift (Parser.metadata h) := by
  simp only [metadata, Parser.metadata, call_check_bind, deref_ok, pure_bind, lift_bind,
    lift_pure, skipClientId_eq, metadataTopic_eq, readMany_lift]

theorem producePartition_eq : producePartition = lift Parser.producePartition := by
  simp only [producePartition, Parser.producePartition, call_check_bind, deref_ok, pure_bind,
    lift_bind, lift_pure, compactBytes_eq]

theorem produceTopic_eq : produceTopic = lift Parser.produceTopic := by
  simp only [produceTopic, Parser.produceTopic, call_check_bind, deref_ok, pure_bind, lift_bind,
    lift_pure, producePartition_eq, compactArray_lift]

theorem produce_eq (h : RequestHeader) :
    produce (pure h) = lift (Parser.produce h) := by
  simp only [produce, Parser.produce, call_check_bind, pure_bind, lift_bind, lift_pure,
    skipClientId_eq, skipCompact_eq, produceTopic_eq, compactArray_lift]

theorem skipForgotten_eq : skipForgotten = lift Parser.skipForgotten := by
  simp only [skipForgotten, Parser.skipForgotten, call_check_bind, deref_ok, pure_bind, lift_bind,
    call_check]

theorem listOffsetsPartition_eq : listOffsetsPartition = lift Parser.listOffsetsPartition := by
  simp only [listOffsetsPartition, Parser.listOffsetsPartition, call_check_bind, deref_ok,
    pure_bind, lift_bind, lift_pure]

theorem listOffsetsTopic_eq : listOffsetsTopic = lift Parser.listOffsetsTopic := by
  simp only [listOffsetsTopic, Parser.listOffsetsTopic, call_check_bind, deref_ok, pure_bind,
    lift_bind, lift_pure, listOffsetsPartition_eq, compactArray_lift]

theorem listOffsets_eq (h : RequestHeader) :
    listOffsets (pure h) = lift (Parser.listOffsets h) := by
  simp only [listOffsets, Parser.listOffsets, call_check_bind, deref_ok, pure_bind, lift_bind,
    lift_pure, skipClientId_eq, listOffsetsTopic_eq, compactArray_lift]

theorem offsetCommitPartition_eq : offsetCommitPartition = lift Parser.offsetCommitPartition := by
  simp only [offsetCommitPartition, Parser.offsetCommitPartition, call_check_bind, deref_ok,
    pure_bind, lift_bind, lift_pure]

theorem offsetCommitTopic_eq : offsetCommitTopic = lift Parser.offsetCommitTopic := by
  simp only [offsetCommitTopic, Parser.offsetCommitTopic, call_check_bind, deref_ok, pure_bind,
    lift_bind, lift_pure, offsetCommitPartition_eq, compactArray_lift]

theorem offsetCommit_eq (h : RequestHeader) :
    offsetCommit (pure h) = lift (Parser.offsetCommit h) := by
  simp only [offsetCommit, Parser.offsetCommit, call_check_bind, deref_ok, pure_bind, lift_bind,
    lift_pure, skipClientId_eq, offsetCommitTopic_eq, compactArray_lift]

theorem offsetFetchPartition_eq : offsetFetchPartition = lift readInt32 := by
  simp only [offsetFetchPartition, call_check_bind, deref_ok, bind_pure]

theorem offsetFetchTopic_eq : offsetFetchTopic = lift Parser.offsetFetchTopic := by
  simp only [offsetFetchTopic, Parser.offsetFetchTopic, call_check_bind, deref_ok, pure_bind,
    lift_bind, lift_pure, offsetFetchPartition_eq, compactArray_lift]

theorem offsetFetch_eq (h : RequestHeader) :
    offsetFetch (pure h) = lift (Parser.offsetFetch h) := by
  simp only [offsetFetch, Parser.offsetFetch, call_check_bind, deref_ok, pure_bind, lift_bind,
    lift_pure, skipClientId_eq, offsetFetchTopic_eq, compactArray_lift]

theorem findCoordinator_eq (h : RequestHeader) :
    findCoordinator (pure h) = lift (Parser.findCoordinator h) := by
  simp only [findCoordinator, Parser.findCoordinator, call_check_bind, deref_ok, pure_bind,
    lift_bind, lift_pure, skipClientId_eq]

theorem joinGroupProtocol_eq : joinGroupProtocol = lift Parser.joinGroupProtocol := by
  simp only [joinGroupProtocol, Parser.joinGroupProtocol, call_check_bind, deref_ok, pure_bind,
    lift_bind, lift_pure, compactBytes_eq]

theorem joinGroup_eq (h : RequestHeader) :
    joinGroup (pure h) = lift (Parser.joinGroup h) := by
  simp only [joinGroup, Parser.joinGroup, call_check_bind, deref_ok, pure_bind, lift_bind,
    lift_pure, skipClientId_eq, joinGroupProtocol_eq, compactArray_lift]

theorem heartbeat_eq (h : RequestHeader) :
    heartbeat (pure h) = lift (Parser.heartbeat h) := by
  simp only [heartbeat, Parser.heartbeat, call_check_bind, deref_ok, pure_bind, lift_bind,
    lift_pure, skipClientId_eq]

theorem leaveGroup_eq (h : RequestHeader) :
    leaveGroup (pure h) = lift (Parser.leaveGroup h) := by
  simp only [leaveGroup, Parser.leaveGroup, call_check_bind, deref_ok, pure_bind, lift_bind,
    lift_pure, skipClientId_eq]

theorem syncGroupAssignment_eq : syncGroupAssignment = lift Parser.syncGroupAssignment := by
  simp only [syncGroupAssignment, Parser.syncGroupAssignment, call_check_bind, deref_ok,
    pure_bind, lift_bind, lift_pure, compactBytes_eq]

theorem syncGroup_eq (h : RequestHeader) :
    syncGroup (pure h) = lift (Parser.syncGroup h) := by
  simp only [syncGroup, Parser.syncGroup, call_check_bind, deref_ok, pure_bind, lift_bind,
    lift_pure, skipClientId_eq, syncGroupAssignment_eq, compactArray_lift]

/-! ### The arm of Fetch -/

/-- The fields of a partition in front of its limit. -/
def partitionHead : Reader (Int32 × Int64) := do
  let partitionIndex ← readInt32
  skip 4
  let fetchOffset ← readInt64
  skip 4
  skip 8
  return (partitionIndex, fetchOffset)

/-- The fields of a Fetch request in front of its topics. -/
def fetchHead : Reader Int32 := do
  Parser.skipClientId
  let _maxWaitMs ← readInt32
  let _minBytes ← readInt32
  let maxBytes ← readInt32
  let _isolationLevel ← readInt8
  let _sessionId ← readInt32
  let _sessionEpoch ← readInt32
  return maxBytes

/-- The fields behind them. -/
def fetchTail (header : RequestHeader) (maxBytes : Int32) (topics : List FetchTopicRequest) :
    Reader Request := do
  let _forgotten ← Parser.compactArray Parser.skipForgotten
  Parser.skipCompact
  skip 1
  return .fetch { header, topics, maxBytes }

theorem fetchPartition_eq (m : Int32) :
    fetchPartition (.ok m) = (do
      let head ← lift partitionHead
      let partMaxBytes ← call readInt32
      lift (skip 1)
      let maxBytes ← deref partMaxBytes
      return ⟨head.1, head.2, maxBytes⟩) := by
  simp only [fetchPartition, partitionHead, call_check_bind, check_ok, deref_ok, pure_bind,
    bind_assoc, lift_bind, lift_pure]

theorem fetchTopic_eq (m : Int32) :
    fetchTopic (.ok m) = (do
      let topicId ← lift Parser.readUuid
      let partitions ← compactArray (fetchPartition (.ok m))
      lift (skip 1 >>= fun _ => pure ⟨topicId, partitions⟩)) := by
  simp only [fetchTopic, call_check_bind, deref_ok, pure_bind, lift_bind, lift_pure]

theorem fetch_eq (h : RequestHeader) :
    fetch (pure h) = (do
      let maxBytes ← lift fetchHead
      let topics ← compactArray (fetchTopic (.ok maxBytes))
      lift (fetchTail h maxBytes topics)) := by
  simp only [fetch, fetchHead, fetchTail, call_check_bind, deref_ok, pure_bind, bind_assoc,
    lift_bind, lift_pure, skipClientId_eq, skipForgotten_eq, compactArray_lift, skipCompact_eq]

/-! ### The arms against those of `Parser` -/

theorem implements_readMany {α : Type} {e : Explicit α} {p : Reader α} (h : Implements e p)
    (n : ℕ) : Implements (readMany e n) (Parser.readMany p n) := by
  induction n with
  | zero => exact .lift (pure [])
  | succ n ih => exact h.bind fun a => ih.bind fun as => .lift (pure (a :: as))

theorem compactArray_eq {α : Type} (e : Explicit α) :
    compactArray e = lift readVarint >>= fun len => readMany e (Parser.arrayCount len) := by
  simp only [compactArray, call_check_bind, deref_ok, pure_bind]

theorem implements_compactArray {α : Type} {e : Explicit α} {p : Reader α}
    (h : Implements e p) : Implements (compactArray e) (Parser.compactArray p) := by
  rw [compactArray_eq]
  exact (Implements.lift readVarint).bind fun len => implements_readMany h _

/-- A read that is not checked: with another read between it and its use, a failure is either
followed by another one or used. -/
theorem implements_unchecked {α γ : Type} (p : Reader α) (junk : α) (between : Reader Unit)
    (f : α → γ) :
    Implements
      (call p >>= fun r => lift between >>= fun _ => deref r >>= fun a => pure (f a))
      (Parser.unchecked p junk >>= fun a => between >>= fun _ => pure (f a)) := by
  intro c
  simp only [BadAccess, Parser.unchecked, call, lift, runOn_bind, runOn_tryCatch, runOn_ofRun]
  rcases p.runOn c with ⟨e | a, c₁⟩
  · -- the read has failed, and what comes next decides
    simp only [runOn_pure]
    rcases between.runOn c₁ with ⟨e' | _, c₂⟩
    · exact .inr rfl
    · exact .inl rfl
  · dsimp only
    rcases between.runOn c₁ with ⟨e' | _, c₂⟩
    · exact .inr rfl
    · exact .inr rfl

theorem implements_fetchPartition (junk m : Int32) :
    Implements (fetchPartition (.ok m)) (Parser.fetchPartition junk) := by
  have hmodel : Parser.fetchPartition junk = (do
      let head ← partitionHead
      let maxBytes ← Parser.unchecked readInt32 junk
      skip 1
      return ⟨head.1, head.2, maxBytes⟩) := by
    simp only [Parser.fetchPartition, partitionHead, bind_assoc, pure_bind]
  rw [hmodel, fetchPartition_eq]
  exact (Implements.lift partitionHead).bind fun head =>
    implements_unchecked readInt32 junk (skip 1) (FetchPartitionRequest.mk head.1 head.2)

theorem implements_fetchTopic (junk m : Int32) :
    Implements (fetchTopic (.ok m)) (Parser.fetchTopic junk) := by
  rw [fetchTopic_eq]
  refine (Implements.lift Parser.readUuid).bind fun topicId => ?_
  exact (implements_compactArray (implements_fetchPartition junk m)).bind fun partitions =>
    .lift _

theorem implements_fetch (junk : Int32) (h : RequestHeader) :
    Implements (fetch (pure h)) (Parser.fetch junk h) := by
  have hmodel : Parser.fetch junk h = (do
      let maxBytes ← fetchHead
      let topics ← Parser.compactArray (Parser.fetchTopic junk)
      fetchTail h maxBytes topics) := by
    simp only [Parser.fetch, fetchHead, fetchTail, bind_assoc, pure_bind]
  rw [hmodel, fetch_eq]
  refine (Implements.lift fetchHead).bind fun maxBytes => ?_
  exact (implements_compactArray (implements_fetchTopic junk maxBytes)).bind fun topics =>
    .lift _

/-- The arm of Fetch. -/
theorem body_of_fetch {h : RequestHeader} (hkey : h.apiKey = 1) :
    body h.apiKey (pure h) = fetch (pure h) := by
  rw [hkey]
  rfl

/-- Every other arm is the one of `Parser`. -/
theorem body_eq (junk : Int32) {h : RequestHeader} (hkey : h.apiKey ≠ 1) :
    body h.apiKey (pure h) = lift (Parser.body junk h) := by
  unfold body
  split
  next hk =>
    rw [Parser.body, hk]
    rfl
  next hk =>
    rw [Parser.body, hk]
    exact describeTopicPartitions_eq h
  next hk => exact absurd hk hkey
  next hk =>
    rw [Parser.body, hk]
    exact listOffsets_eq h
  next hk =>
    rw [Parser.body, hk]
    exact metadata_eq h
  next hk =>
    rw [Parser.body, hk]
    exact produce_eq h
  next hk =>
    rw [Parser.body, hk]
    exact offsetCommit_eq h
  next hk =>
    rw [Parser.body, hk]
    exact offsetFetch_eq h
  next hk =>
    rw [Parser.body, hk]
    exact findCoordinator_eq h
  next hk =>
    rw [Parser.body, hk]
    exact joinGroup_eq h
  next hk =>
    rw [Parser.body, hk]
    exact heartbeat_eq h
  next hk =>
    rw [Parser.body, hk]
    exact leaveGroup_eq h
  next hk =>
    rw [Parser.body, hk]
    exact syncGroup_eq h
  next => simp_all [Parser.body, lift_throw]

theorem request_eq :
    request = lift Parser.requestHeader >>= fun h => body h.apiKey (pure h) := by
  simp only [request, Parser.requestHeader, call_check_bind, deref_ok, pure_bind, bind_assoc,
    lift_bind, lift_pure]

/-- **The two embeddings of `parse_request` agree** unless the one with explicit results uses a
failed read. -/
theorem implements_request (junk : Int32) : Implements request (Parser.request junk) := by
  rw [request_eq]
  refine (Implements.lift Parser.requestHeader).bind fun h => ?_
  by_cases hkey : h.apiKey = 1
  · rw [body_of_fetch hkey, Parser.body, hkey]
    exact implements_fetch junk h
  · rw [body_eq junk hkey]
    exact .lift _

/-! ### Where a failed read is used -/

/-- A few bytes are left, but not the four of a limit. -/
def FewLeft (c : ByteReader) : Prop := 1 ≤ c.remaining ∧ c.remaining ≤ 3

/-- Into element `k` of a compact array: over the elements in front of it, and on with `inside`. -/
def intoArray {α γ : Type} (element : Reader α) (k : ℕ) (inside : Reader γ) : Reader γ := do
  let len ← readVarint
  if k < Parser.arrayCount len then
    let _ ← Parser.readMany element k
    inside
  else
    throw (.errc .messageSize)

/-- A topic of Fetch up to the limit of partition `j`. -/
def intoTopic (junk : Int32) (j : ℕ) : Reader (Int32 × Int64) := do
  let _topicId ← Parser.readUuid
  intoArray (Parser.fetchPartition junk) j partitionHead

/-- A Fetch request up to the limit of partition `j` of topic `i`. -/
def intoFetch (junk : Int32) (i j : ℕ) : Reader (Int32 × Int64) := do
  let header ← Parser.requestHeader
  if header.apiKey = 1 then
    let _maxBytes ← fetchHead
    intoArray (Parser.fetchTopic junk) i (intoTopic junk j)
  else
    throw (.errc .functionNotSupported)

/-- A loop makes a bad access at the first element that does. -/
theorem badAccess_readMany {α : Type} {e : Explicit α} {p : Reader α} (h : Implements e p)
    {n : ℕ} {c : ByteReader} :
    BadAccess (readMany e n) c ↔
      ∃ k < n, ∃ as c₁, (Parser.readMany p k).runOn c = (.ok as, c₁) ∧ BadAccess e c₁ := by
  induction n generalizing c with
  | zero => simp [BadAccess, readMany, runOn_pure]
  | succ n ih =>
    have hrest : ∀ (a : α) (c₁ : ByteReader),
        BadAccess (readMany e n >>= fun as => pure (a :: as)) c₁ ↔ BadAccess (readMany e n) c₁ :=
      fun a c₁ => badAccess_bind_lift (f := fun as => pure (a :: as))
    rw [readMany, badAccess_bind]
    simp only [hrest, ih]
    constructor
    · rintro (hbad | ⟨a, c₁, ha, k, hk, as, c₂, has, hbad⟩)
      · exact ⟨0, n.succ_pos, [], c, rfl, hbad⟩
      · refine ⟨k + 1, Nat.succ_lt_succ hk, a :: as, c₂, ?_, hbad⟩
        exact runOn_bind_eq_ok.mpr ⟨a, c₁, h.eq_ok ha,
          runOn_bind_eq_ok.mpr ⟨as, c₂, has, rfl⟩⟩
    · rintro ⟨k, hk, as, c₂, has, hbad⟩
      cases k with
      | zero =>
        cases has
        exact .inl hbad
      | succ k =>
        obtain ⟨a, c₁, ha, hmore⟩ := runOn_bind_eq_ok.mp has
        obtain ⟨as', c₃, has', hpure⟩ := runOn_bind_eq_ok.mp hmore
        cases hpure
        refine (h.badAccess_or_ok ha).imp_right fun ha' => ⟨a, c₁, ha', k, ?_, as', c₂, has', hbad⟩
        exact Nat.lt_of_succ_lt_succ hk

theorem badAt_compactArray {α γ ι : Type} {e : Explicit α} {p : Reader α} {P : ByteReader → Prop}
    {q : ι → Reader γ} (h : Implements e p) (hbad : BadAt P e q) :
    BadAt P (compactArray e) fun x : ℕ × ι => intoArray p x.1 (q x.2) := by
  rw [compactArray_eq]
  refine BadAt.lift_bind fun len c => ?_
  rw [badAccess_readMany h]
  constructor
  · rintro ⟨k, hk, as, c₁, has, he⟩
    obtain ⟨i, b, c₂, hq, hP⟩ := (hbad c₁).mp he
    refine ⟨(k, i), b, c₂, ?_, hP⟩
    rw [if_pos hk]
    exact runOn_bind_eq_ok.mpr ⟨as, c₁, has, hq⟩
  · rintro ⟨⟨k, i⟩, b, c₂, hrun, hP⟩
    by_cases hk : k < Parser.arrayCount len
    · rw [if_pos hk] at hrun
      obtain ⟨as, c₁, has, hq⟩ := runOn_bind_eq_ok.mp hrun
      exact ⟨k, hk, as, c₁, has, (hbad c₁).mpr ⟨i, b, c₂, hq, hP⟩⟩
    · rw [if_neg hk] at hrun
      cases hrun

/-- The limit is read, a byte is skipped, and the limit is used: a failed read is used if there
are too few bytes for the limit, but one to skip. -/
theorem badAccess_limit {α : Type} (f : Int32 → α) (c : ByteReader) :
    BadAccess (call readInt32 >>= fun r => lift (skip 1) >>= fun _ =>
      deref r >>= fun maxBytes => pure (f maxBytes)) c ↔ FewLeft c := by
  rw [badAccess_call_bind, badAccess_lift_bind, FewLeft]
  simp only [badAccess_deref]
  by_cases hfour : c.remaining < 4
  · have hread : readInt32.runOn c = (.error (.errc .messageSize), c) := by
      rw [readInt32, fixed, runOn_ofRun, if_pos hfour]
    simp only [hread]
    constructor
    · rintro ⟨_, c₁, hskip, -⟩
      have hone : ¬ c.remaining < 1 := by
        intro hnone
        rw [skip, fixed, runOn_ofRun, if_pos hnone] at hskip
        cases hskip
      omega
    · rintro ⟨hone, -⟩
      refine ⟨(), ⟨c.data, c.offset + 1⟩, ?_, _, rfl⟩
      rw [skip, fixed, runOn_ofRun, if_neg (by omega)]
  · rw [readInt32, fixed, runOn_ofRun, if_neg hfour]
    refine iff_of_false ?_ (by omega)
    rintro ⟨-, -, -, e, he⟩
    cases he

theorem badAt_fetchPartition (m : Int32) :
    BadAt FewLeft (fetchPartition (.ok m)) fun _ : Unit => partitionHead := by
  have hlimit : ∀ head : Int32 × Int64, BadAt FewLeft (call readInt32 >>= fun r =>
      lift (skip 1) >>= fun _ => deref r >>= fun maxBytes =>
        pure (FetchPartitionRequest.mk head.1 head.2 maxBytes))
      fun _ : Unit => (pure head : Reader (Int32 × Int64)) := by
    intro head c
    rw [badAccess_limit]
    constructor
    · intro hfew
      exact ⟨(), head, c, rfl, hfew⟩
    · rintro ⟨_, b, c₁, hrun, hfew⟩
      cases hrun
      exact hfew
  have hhead := BadAt.lift_bind (p := partitionHead) hlimit
  rw [fetchPartition_eq]
  simpa only [bind_pure] using hhead

theorem badAt_fetchTopic (junk m : Int32) :
    BadAt FewLeft (fetchTopic (.ok m)) fun x : ℕ × Unit => intoTopic junk x.1 := by
  rw [fetchTopic_eq]
  refine BadAt.lift_bind fun topicId => ?_
  exact (badAt_compactArray (implements_fetchPartition junk m) (badAt_fetchPartition m)).bind_lift _

theorem badAt_fetch (junk : Int32) (h : RequestHeader) :
    BadAt FewLeft (fetch (pure h)) fun x : ℕ × ℕ × Unit =>
      fetchHead >>= fun _ => intoArray (Parser.fetchTopic junk) x.1 (intoTopic junk x.2.1) := by
  rw [fetch_eq]
  refine BadAt.lift_bind fun maxBytes => ?_
  exact (badAt_compactArray (implements_fetchTopic junk maxBytes)
    (badAt_fetchTopic junk maxBytes)).bind_lift _

theorem badAt_request (junk : Int32) :
    BadAt FewLeft request fun x : ℕ × ℕ × Unit => intoFetch junk x.1 x.2.1 := by
  rw [request_eq]
  refine BadAt.lift_bind fun h => ?_
  by_cases hkey : h.apiKey = 1
  · rw [body_of_fetch hkey]
    simp only [if_pos hkey]
    exact badAt_fetch junk h
  · intro c
    simp only [body_eq junk hkey, not_badAccess_lift, if_neg hkey, false_iff]
    rintro ⟨x, b, c₁, hrun, -⟩
    cases hrun

end Explicit

/-- Somewhere in `parse_request`, the value of a failed read is used. -/
def UsesFailedRead (buf : Bytes) : Prop := BadAccess Explicit.request ⟨buf, 0⟩

instance (buf : Bytes) : Decidable (UsesFailedRead buf) :=
  inferInstanceAs (Decidable (BadAccess Explicit.request ⟨buf, 0⟩))

/-- The buffer is a Fetch request that ends inside the limit of partition `j` of topic `i`,
behind its first byte at least. -/
def EndsInMaxBytes (junk : Int32) (buf : Bytes) (i j : ℕ) : Prop :=
  ∃ head c, (Explicit.intoFetch junk i j).runOn ⟨buf, 0⟩ = (.ok head, c) ∧ Explicit.FewLeft c

/-- **One read is used unchecked.** `parse_request` uses no failed read, unless the buffer is a
Fetch request that ends inside the limit of a partition. -/
theorem not_usesFailedRead_iff (junk : Int32) (buf : Bytes) :
    ¬ UsesFailedRead buf ↔ ∀ i j, ¬ EndsInMaxBytes junk buf i j := by
  rw [UsesFailedRead, Explicit.badAt_request junk]
  constructor
  · rintro hsafe i j ⟨head, c, hrun, hfew⟩
    exact hsafe ⟨(i, j, ()), head, c, hrun, hfew⟩
  · rintro hends ⟨⟨i, j, _⟩, head, c, hrun, hfew⟩
    exact hends i j ⟨head, c, hrun, hfew⟩

/-- A Fetch request for one partition of one topic that ends behind the first byte of the
partition's limit. -/
def fetchCutShort : Bytes :=
  [0, 1, 0, 16, 0, 0, 0, 7] ++ [255, 255, 0] ++ List.replicate 21 0 ++ [2] ++
    List.replicate 16 0 ++ [2] ++ List.replicate 28 0 ++ [0]

theorem usesFailedRead_fetchCutShort : UsesFailedRead fetchCutShort := by
  decide +kernel

end TinyKafka

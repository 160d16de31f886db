import TinyKafka.Util.Bytes

/-!
# Requests

The thirteen request records of `protocol/request.hpp`, with the source's own fixed-width
integers, and the variant `Request` that `parse_request` builds and `Broker::handle` visits.
-/

namespace TinyKafka

structure RequestHeader where
  apiKey : Int16
  apiVersion : Int16
  correlationId : Int32
deriving DecidableEq

structure ApiVersionsRequest where
  header : RequestHeader
deriving DecidableEq

structure DescribeTopicPartitionsRequest where
  header : RequestHeader
  topicNames : List Bytes
deriving DecidableEq

structure FetchPartitionRequest where
  partitionIndex : Int32 := 0
  fetchOffset : Int64 := 0
  maxBytes : Int32 := 0
deriving DecidableEq

structure FetchTopicRequest where
  topicId : Uuid
  partitions : List FetchPartitionRequest
deriving DecidableEq

structure FetchRequest where
  header : RequestHeader
  topics : List FetchTopicRequest
  maxBytes : Int32 := 0
deriving DecidableEq

structure ProducePartitionRequest where
  partitionIndex : Int32 := 0
  records : Bytes
deriving DecidableEq

structure ProduceTopicRequest where
  topicName : Bytes
  partitions : List ProducePartitionRequest
deriving DecidableEq

structure ProduceRequest where
  header : RequestHeader
  topics : List ProduceTopicRequest
deriving DecidableEq

structure MetadataRequest where
  header : RequestHeader
  topics : List Bytes
  allowAutoTopicCreation : Bool := false
deriving DecidableEq

structure ListOffsetsPartitionRequest where
  partitionIndex : Int32 := 0
  timestamp : Int64 := 0
deriving DecidableEq

structure ListOffsetsTopicRequest where
  topicName : Bytes
  partitions : List ListOffsetsPartitionRequest
deriving DecidableEq

structure ListOffsetsRequest where
  header : RequestHeader
  replicaId : Int32 := -1
  isolationLevel : Int8 := 0
  topics : List ListOffsetsTopicRequest
deriving DecidableEq

structure FindCoordinatorRequest where
  header : RequestHeader
  coordinatorKey : Bytes
  keyType : Int8 := 0
deriving DecidableEq

structure OffsetCommitPartitionRequest where
  partitionIndex : Int32 := 0
  committedOffset : Int64 := 0
deriving DecidableEq

structure OffsetCommitTopicRequest where
  topicName : Bytes
  partitions : List OffsetCommitPartitionRequest
deriving DecidableEq

structure OffsetCommitRequest where
  header : RequestHeader
  groupId : Bytes
  memberId : Bytes
  generationId : Int32 := -1
  topics : List OffsetCommitTopicRequest
deriving DecidableEq

structure OffsetFetchTopicRequest where
  topicName : Bytes
  partitionIndexes : List Int32
deriving DecidableEq

structure OffsetFetchRequest where
  header : RequestHeader
  groupId : Bytes
  topics : List OffsetFetchTopicRequest
deriving DecidableEq

structure JoinGroupProtocol where
  name : Bytes
  metadata : Bytes
deriving DecidableEq

structure JoinGroupRequest where
  header : RequestHeader
  groupId : Bytes
  sessionTimeoutMs : Int32 := 0
  memberId : Bytes
  protocolType : Bytes
  protocols : List JoinGroupProtocol
deriving DecidableEq

structure SyncGroupAssignment where
  memberId : Bytes
  assignment : Bytes
deriving DecidableEq

structure SyncGroupRequest where
  header : RequestHeader
  groupId : Bytes
  generationId : Int32 := -1
  memberId : Bytes
  assignments : List SyncGroupAssignment
deriving DecidableEq

structure HeartbeatRequest where
  header : RequestHeader
  groupId : Bytes
  generationId : Int32 := -1
  memberId : Bytes
  groupInstanceId : Bytes
deriving DecidableEq

structure LeaveGroupRequest where
  header : RequestHeader
  groupId : Bytes
  memberId : Bytes
deriving DecidableEq

/-- `std::variant` of the thirteen request kinds. -/
inductive Request where
  | apiVersions (r : ApiVersionsRequest)
  | describeTopicPartitions (r : DescribeTopicPartitionsRequest)
  | fetch (r : FetchRequest)
  | findCoordinator (r : FindCoordinatorRequest)
  | heartbeat (r : HeartbeatRequest)
  | joinGroup (r : JoinGroupRequest)
  | leaveGroup (r : LeaveGroupRequest)
  | listOffsets (r : ListOffsetsRequest)
  | metadata (r : MetadataRequest)
  | offsetCommit (r : OffsetCommitRequest)
  | offsetFetch (r : OffsetFetchRequest)
  | produce (r : ProduceRequest)
  | syncGroup (r : SyncGroupRequest)
deriving DecidableEq

end TinyKafka

import TinyKafka.Util.Bytes

/-!
# Responses

The thirteen response records of `protocol/response.hpp`. A file descriptor handed to the
splice path is a `FileRef` (the open file itself): `splice_fd = -1` is `none`.
-/

namespace TinyKafka

/-- An open file, named by its directory and its name in it. Log files are never renamed or
deleted by the program, so the name identifies the file a descriptor refers to. -/
structure FileRef where
  dir : Bytes
  name : Bytes
deriving DecidableEq

structure ApiVersionEntry where
  apiKey : Int16
  minVersion : Int16
  maxVersion : Int16
deriving DecidableEq

structure ApiVersionsResponse where
  correlationId : Int32
  errorCode : Int16
  apiKeys : List ApiVersionEntry
  throttleTimeMs : Int32
deriving DecidableEq

structure PartitionMetadata where
  errorCode : Int16 := 0
  partitionIndex : Int32 := 0
  leaderId : Int32 := 0
  leaderEpoch : Int32 := 0
  replicaNodes : List Int32
  isrNodes : List Int32
  eligibleLeaderReplicas : List Int32
  lastKnownElr : List Int32
  offlineReplicas : List Int32
deriving DecidableEq

structure TopicMetadata where
  errorCode : Int16
  topicName : Bytes
  topicId : Uuid
  isInternal : Bool
  authorizedOperations : Int32
  partitions : List PartitionMetadata
deriving DecidableEq

structure DescribeTopicPartitionsResponse where
  correlationId : Int32
  throttleTimeMs : Int32
  topics : List TopicMetadata
deriving DecidableEq

structure FetchPartitionResponse where
  partitionIndex : Int32 := 0
  errorCode : Int16 := 0
  records : Bytes
  spliceFd : Option FileRef := none
  spliceOffset : ℕ := 0
  spliceLen : ℕ := 0
deriving DecidableEq

structure FetchTopicResponse where
  topicId : Uuid
  partitions : List FetchPartitionResponse
deriving DecidableEq

structure FetchResponse where
  correlationId : Int32
  throttleTimeMs : Int32
  errorCode : Int16
  sessionId : Int32
  responses : List FetchTopicResponse
deriving DecidableEq

structure ProducePartitionResponse where
  partitionIndex : Int32 := 0
  errorCode : Int16 := 0
  baseOffset : Int64 := -1
  logAppendTimeMs : Int64 := -1
  logStartOffset : Int64 := -1
deriving DecidableEq

structure ProduceTopicResponse where
  topicName : Bytes
  partitions : List ProducePartitionResponse
deriving DecidableEq

structure ProduceResponse where
  correlationId : Int32
  throttleTimeMs : Int32
  responses : List ProduceTopicResponse
deriving DecidableEq

structure MetadataBroker where
  nodeId : Int32 := 0
  host : Bytes
  port : Int32 := 0
  rack : Bytes
deriving DecidableEq

structure MetadataTopicResponse where
  errorCode : Int16 := 0
  topicName : Bytes
  topicId : Uuid
  isInternal : Bool := false
  partitions : List PartitionMetadata
  topicAuthorizedOperations : Int32 := 0
deriving DecidableEq

structure MetadataResponse where
  correlationId : Int32
  throttleTimeMs : Int32
  brokers : List MetadataBroker
  clusterId : Bytes
  controllerId : Int32
  topics : List MetadataTopicResponse
  clusterAuthorizedOperations : Int32
deriving DecidableEq

structure ListOffsetsPartitionResponse where
  partitionIndex : Int32 := 0
  errorCode : Int16 := 0
  offset : Int64 := -1
  timestamp : Int64 := -1
deriving DecidableEq

structure ListOffsetsTopicResponse where
  topicName : Bytes
  partitions : List ListOffsetsPartitionResponse
deriving DecidableEq

structure ListOffsetsResponse where
  correlationId : Int32
  throttleTimeMs : Int32
  topics : List ListOffsetsTopicResponse
deriving DecidableEq

structure FindCoordinatorResponse where
  correlationId : Int32
  throttleTimeMs : Int32
  errorCode : Int16
  errorMessage : Bytes
  nodeId : Int32
  host : Bytes
  port : Int32
deriving DecidableEq

structure OffsetCommitPartitionResponse where
  partitionIndex : Int32 := 0
  errorCode : Int16 := 0
  committedLeaderEpoch : Int32 := -1
  committedMetadata : Bytes
deriving DecidableEq

structure OffsetCommitTopicResponse where
  topicName : Bytes
  partitions : List OffsetCommitPartitionResponse
deriving DecidableEq

structure OffsetCommitResponse where
  correlationId : Int32
  throttleTimeMs : Int32
  topics : List OffsetCommitTopicResponse
deriving DecidableEq

structure OffsetFetchPartitionResponse where
  partitionIndex : Int32 := 0
  committedOffset : Int64 := -1
  committedLeaderEpoch : Int32 := -1
  committedMetadata : Bytes
  errorCode : Int16 := 0
deriving DecidableEq

structure OffsetFetchTopicResponse where
  topicName : Bytes
  partitions : List OffsetFetchPartitionResponse
deriving DecidableEq

structure OffsetFetchResponse where
  correlationId : Int32
  throttleTimeMs : Int32
  topics : List OffsetFetchTopicResponse
deriving DecidableEq

structure JoinGroupMember where
  memberId : Bytes
  metadata : Bytes
deriving DecidableEq

structure JoinGroupResponse where
  correlationId : Int32
  throttleTimeMs : Int32
  errorCode : Int16
  generationId : Int32
  protocolName : Bytes
  leader : Bytes
  memberId : Bytes
  members : List JoinGroupMember
deriving DecidableEq

structure SyncGroupResponse where
  correlationId : Int32
  throttleTimeMs : Int32
  errorCode : Int16
  protocolType : Bytes
  protocolName : Bytes
  assignment : Bytes
deriving DecidableEq

structure HeartbeatResponse where
  correlationId : Int32
  throttleTimeMs : Int32
  errorCode : Int16
deriving DecidableEq

structure LeaveGroupResponse where
  correlationId : Int32
  throttleTimeMs : Int32
  errorCode : Int16
deriving DecidableEq

/-- `std::variant` of the thirteen response kinds. -/
inductive Response where
  | apiVersions (r : ApiVersionsResponse)
  | describeTopicPartitions (r : DescribeTopicPartitionsResponse)
  | fetch (r : FetchResponse)
  | findCoordinator (r : FindCoordinatorResponse)
  | heartbeat (r : HeartbeatResponse)
  | joinGroup (r : JoinGroupResponse)
  | leaveGroup (r : LeaveGroupResponse)
  | listOffsets (r : ListOffsetsResponse)
  | metadata (r : MetadataResponse)
  | offsetCommit (r : OffsetCommitResponse)
  | offsetFetch (r : OffsetFetchResponse)
  | produce (r : ProduceResponse)
  | syncGroup (r : SyncGroupResponse)
deriving DecidableEq

end TinyKafka

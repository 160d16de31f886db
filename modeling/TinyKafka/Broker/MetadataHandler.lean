import TinyKafka.Cluster.Metadata
import TinyKafka.Protocol.Request
import TinyKafka.Protocol.Response

/-!
# MetadataHandler

The three requests that only read the cluster metadata.
-/

namespace TinyKafka

/-- `kSupportedApis`: key, lowest and highest version. -/
def supportedApis : List ApiVersionEntry :=
  [⟨0, 0, 11⟩, ⟨1, 0, 16⟩, ⟨2, 0, 8⟩, ⟨3, 0, 12⟩, ⟨8, 0, 8⟩, ⟨9, 0, 8⟩, ⟨10, 0, 4⟩, ⟨11, 0, 9⟩,
    ⟨12, 0, 4⟩, ⟨13, 0, 5⟩, ⟨14, 0, 5⟩, ⟨18, 0, 4⟩, ⟨75, 0, 0⟩]

namespace MetadataHandler

/-- `handle_api_versions`. -/
def handleApiVersions (r : ApiVersionsRequest) : ApiVersionsResponse where
  correlationId := r.header.correlationId
  errorCode := if r.header.apiVersion ≥ 0 ∧ r.header.apiVersion ≤ 4 then 0 else 35
  apiKeys := supportedApis
  throttleTimeMs := 0

/-- The entry of one partition: node 1 leads it and is its only replica. -/
def partitionMetadata (partition : Int32) : PartitionMetadata where
  errorCode := 0
  partitionIndex := partition
  leaderId := 1
  leaderEpoch := 0
  replicaNodes := [1]
  isrNodes := [1]
  eligibleLeaderReplicas := []
  lastKnownElr := []
  offlineReplicas := []

/-- The all-zero topic id. -/
def zeroUuid : Uuid := ⟨List.replicate 16 0, List.length_replicate ..⟩

/-- `build_topic_metadata`. -/
def buildTopicMetadata (metadata : ClusterMetadata) (topicName : Bytes) : TopicMetadata :=
  match metadata.findTopicByName topicName with
  | none => ⟨3, topicName, zeroUuid, false, 0, []⟩
  | some info => ⟨0, topicName, info.uuid, false, 0, info.partitions.map partitionMetadata⟩

/-- `handle_describe_topic_partitions`. Entries of equal name are equal, so that it does not
matter that `std::ranges::sort` is not stable. -/
def handleDescribeTopicPartitions (metadata : ClusterMetadata)
    (r : DescribeTopicPartitionsRequest) : DescribeTopicPartitionsResponse where
  correlationId := r.header.correlationId
  throttleTimeMs := 0
  topics := (r.topicNames.map (buildTopicMetadata metadata)).mergeSort
    fun a b => a.topicName ≤ b.topicName

/-- The topic metadata as Metadata reports it. -/
def metadataTopicResponse (t : TopicMetadata) : MetadataTopicResponse where
  errorCode := t.errorCode
  topicName := t.topicName
  topicId := t.topicId
  isInternal := t.isInternal
  partitions := t.partitions
  topicAuthorizedOperations := t.authorizedOperations

/-- The topics Metadata reports on: the requested ones, or all when none is named. -/
def requestedTopics (metadata : ClusterMetadata) (r : MetadataRequest) : List Bytes :=
  if r.topics = [] then metadata.topics.map TopicInfo.name else r.topics

/-- `handle_metadata`. -/
def handleMetadata (metadata : ClusterMetadata) (r : MetadataRequest) : MetadataResponse where
  correlationId := r.header.correlationId
  throttleTimeMs := 0
  brokers := [{ nodeId := 1, host := ascii "localhost", port := 9092, rack := [] }]
  clusterId := ascii "TinyKafka"
  controllerId := 1
  topics := (requestedTopics metadata r).map fun name =>
    metadataTopicResponse (buildTopicMetadata metadata name)
  clusterAuthorizedOperations := 0

end MetadataHandler

end TinyKafka

import TinyKafka.Util.Bytes

/-!
# Cluster metadata

The topics a broker serves, with the two maps that find a topic by its name and by its id.
The maps hold indices into the topic list; they are indices of topics by their type, so that
a lookup never runs out of the list.
-/

namespace TinyKafka

/-- `ClusterMetadata::TopicInfo`. -/
structure TopicInfo where
  name : Bytes
  uuid : Uuid
  partitions : List Int32
  deriving DecidableEq

/-- `ClusterMetadata`. -/
structure ClusterMetadata where
  topics : List TopicInfo
  nameToTopic : Bytes → Option (Fin topics.length)
  uuidToTopic : Uuid → Option (Fin topics.length)

namespace ClusterMetadata

/-- `find_topic_by_name`. -/
def findTopicByName (metadata : ClusterMetadata) (name : Bytes) : Option TopicInfo :=
  (metadata.nameToTopic name).map metadata.topics.get

/-- `find_topic_by_uuid`. -/
def findTopicByUuid (metadata : ClusterMetadata) (id : Uuid) : Option TopicInfo :=
  (metadata.uuidToTopic id).map metadata.topics.get

/-- The named topic exists and has the partition. -/
def Lists (metadata : ClusterMetadata) (name : Bytes) (partition : Int32) : Prop :=
  ∃ info ∈ metadata.findTopicByName name, partition ∈ info.partitions

instance (metadata : ClusterMetadata) (name : Bytes) (partition : Int32) :
    Decidable (metadata.Lists name partition) :=
  inferInstanceAs (Decidable (∃ info ∈ metadata.findTopicByName name, _))

end ClusterMetadata

end TinyKafka

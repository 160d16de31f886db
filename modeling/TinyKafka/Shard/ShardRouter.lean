import TinyKafka.Cluster.Metadata
import TinyKafka.Protocol.Request

/-!
# Routing of requests to reactors

`ShardRouter::route` assigns every partition to a reactor. A request is routed as a whole, by
the key `extract_partition_key` finds in it: the first partition of its first topic.
`std::hash<std::string>` is left open by the standard, so the router carries it as a
parameter.
-/

namespace TinyKafka

/-- `ShardRouter` for `n` reactors. -/
structure ShardRouter (n : ℕ) where
  hash : Bytes → UInt64

/-- `ShardRouter::route`; the partition is sign-extended to `size_t`. -/
def ShardRouter.route {n : ℕ} [NeZero n] (router : ShardRouter n) (topicName : Bytes)
    (partition : Int32) : Fin n :=
  let h := router.hash topicName
  let mixed : UInt64 := partition.toInt64.toUInt64 + (0x9e3779b9 : UInt64) + (h <<< 6) + (h >>> 2)
  Fin.ofNat n (h ^^^ mixed).toNat

/-- `ShardRouter::route` of a router that has been constructed with any count, with no result
where it would divide by zero. -/
def routeAmong (reactorCount : ℕ) (hash : Bytes → UInt64) (topicName : Bytes)
    (partition : Int32) : Option ℕ :=
  let h := hash topicName
  let mixed : UInt64 := partition.toInt64.toUInt64 + (0x9e3779b9 : UInt64) + (h <<< 6) + (h >>> 2)
  if reactorCount = 0 then none else some ((h ^^^ mixed).toNat % reactorCount)

theorem routeAmong_eq_none_iff {reactorCount : ℕ} {hash : Bytes → UInt64} {topicName : Bytes}
    {partition : Int32} :
    routeAmong reactorCount hash topicName partition = none ↔ reactorCount = 0 := by
  rw [routeAmong]
  split <;> simp [*]

theorem routeAmong_eq {n : ℕ} [hn : NeZero n] (router : ShardRouter n) (topicName : Bytes)
    (partition : Int32) :
    routeAmong n router.hash topicName partition = some (router.route topicName partition).val := by
  rw [routeAmong, if_neg hn.out]
  rfl

/-- `PartitionKey`. -/
structure PartitionKey where
  topic : Bytes
  partition : Int32
  deriving DecidableEq

/-- `extract_partition_key`. -/
def extractPartitionKey (metadata : ClusterMetadata) : Request → Option PartitionKey
  | .produce { topics := { topicName, partitions := p :: _ } :: _, .. } =>
    some ⟨topicName, p.partitionIndex⟩
  | .fetch { topics := { topicId, partitions := p :: _ } :: _, .. } =>
    (metadata.findTopicByUuid topicId).map fun info => ⟨info.name, p.partitionIndex⟩
  | .listOffsets { topics := { topicName, partitions := p :: _ } :: _, .. } =>
    some ⟨topicName, p.partitionIndex⟩
  | _ => none

/-- The reactor that handles a request read on reactor `i`. -/
def ShardRouter.target {n : ℕ} [NeZero n] (router : ShardRouter n) (metadata : ClusterMetadata)
    (i : Fin n) (req : Request) : Fin n :=
  match extractPartitionKey metadata req with
  | some key => router.route key.topic key.partition
  | none => i

end TinyKafka

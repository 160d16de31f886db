import TinyKafka.Broker.Broker
import TinyKafka.Broker.LogSteps
import TinyKafka.Shard.ShardRouter

/-!
# The contexts a request touches

Handling a request calls `get_or_create_context` for some of the partitions it names:
`touchedPartitions` lists them from the request and the metadata alone. Contexts for other
partitions do not come into being (`holdsOnly_handle`).
-/

namespace TinyKafka

/-- The partitions whose contexts handling the request calls, in order. -/
def touchedPartitions (metadata : ClusterMetadata) : Request → List PartitionKey
  | .produce r => r.topics.flatMap fun t =>
    (t.partitions.filter fun p =>
      metadata.Lists t.topicName p.partitionIndex ∧ p.records ≠ []).map
      fun p => ⟨t.topicName, p.partitionIndex⟩
  | .fetch r => r.topics.flatMap fun t =>
    match metadata.findTopicByUuid t.topicId with
    | some info => t.partitions.map fun p => ⟨info.name, p.partitionIndex⟩
    | none => []
  | .listOffsets r => r.topics.flatMap fun t =>
    (t.partitions.filter fun p =>
      metadata.Lists t.topicName p.partitionIndex ∧ p.timestamp = -1).map
      fun p => ⟨t.topicName, p.partitionIndex⟩
  | _ => []

/-! ### Calls keep the identity of a context -/

namespace PartitionContext

/-- The partition a context is for. -/
def key (c : PartitionContext) : PartitionKey := ⟨c.topicName, c.partition⟩

/-- The partition with the root of its log. -/
def place (c : PartitionContext) : Bytes × PartitionKey := (c.logRoot, c.key)

theorem place_roll (c : PartitionContext) (n : ℕ) : (c.roll n).place = c.place := by
  rw [roll]
  split <;> rfl

theorem place_store (c : PartitionContext) (dir : Dir) (env : ProduceEnv)
    (name data : Bytes) (n : Int32) : (c.store dir env name data n).ctx.place = c.place := by
  obtain ⟨entries, h⟩ := pushIndex_eq c
  rw [store, advance, h]
  rfl

theorem place_produce (c : PartitionContext) (dir : Dir) (env : ProduceEnv)
    (data : Bytes) : (c.produce dir env data).ctx.place = c.place := by
  have hstep := produceStep c dir env data
  generalize c.produce dir env data = p at hstep ⊢
  cases hstep with
  | rejected => rfl
  | openFailed => exact place_roll c _
  | appended => exact place_store ..
  | opened =>
    rw [place_store]
    exact place_roll c _

@[simp] theorem key_produce (c : PartitionContext) (dir : Dir) (env : ProduceEnv)
    (data : Bytes) : (c.produce dir env data).ctx.key = c.key :=
  congrArg Prod.snd (c.place_produce dir env data)

@[simp] theorem key_fetch (c : PartitionContext) (dir : Dir) (offset : Int64)
    (maxBytes : Int32) (openRead : Bool) :
    (c.fetch dir offset maxBytes openRead).1.key = c.key := by
  obtain ⟨fd, hfd⟩ := ctx_fetch_eq c dir offset maxBytes openRead
  rw [hfd]
  rfl

end PartitionContext

/-! ### Handling -/

/-- All contexts are for partitions with the property. -/
def LogState.HoldsOnly (P : PartitionKey → Prop) (s : LogState) : Prop :=
  ∀ name c, s.contexts name = some c → P c.key

namespace RecordHandler

open OptionT (Keeps)

variable {h : RecordHandler} {P : PartitionKey → Prop}

theorem key_getOrCreateContext {s : LogState} (hs : s.HoldsOnly P) {topicName : Bytes}
    {partition : Int32} (hP : P ⟨topicName, partition⟩) :
    P (h.getOrCreateContext s topicName partition).key := by
  rw [getOrCreateContext]
  rcases hc : s.contexts (contextKey topicName partition) with _ | c
  · exact hP
  · exact hs _ c hc

/-- A call on the context of a partition with the property, when calls keep the identity of
contexts. -/
theorem keeps_withContext {α : Type} {call : PartitionContext → Dir → Called α}
    (hcall : ∀ c dir, (call c dir).ctx.key = c.key) {topicName : Bytes} {partition : Int32}
    (hP : P ⟨topicName, partition⟩) :
    Keeps (LogState.HoldsOnly P) (h.withContext topicName partition call) := by
  refine Keeps.ofRun fun s hs name c hc => ?_
  dsimp only at hc
  rcases eq_or_ne name (contextKey topicName partition) with rfl | hne
  · rw [Function.update_self] at hc
    cases hc
    rw [hcall]
    exact key_getOrCreateContext hs hP
  · rw [Function.update_of_ne hne] at hc
    exact hs name c hc

theorem keeps_listOffsetsPartition {topicName : Bytes} {p : ListOffsetsPartitionRequest}
    (hP : h.metadata.Lists topicName p.partitionIndex → p.timestamp = -1 →
      P ⟨topicName, p.partitionIndex⟩) :
    Keeps (LogState.HoldsOnly P) (h.listOffsetsPartition topicName p) := by
  rw [listOffsetsPartition]
  dsimp only
  split
  · next hlists =>
    split
    · exact Keeps.pure _
    · split
      · next hlatest => exact keeps_withContext (fun _ _ => rfl) (hP hlists hlatest)
      · exact Keeps.pure _
  · exact Keeps.pure _

theorem keeps_producePartition {env : ProduceEnv} {topicName : Bytes}
    {p : ProducePartitionRequest}
    (hP : h.metadata.Lists topicName p.partitionIndex → p.records ≠ [] →
      P ⟨topicName, p.partitionIndex⟩) :
    Keeps (LogState.HoldsOnly P) (h.producePartition env topicName p) := by
  rw [producePartition]
  split
  · next hlists =>
    split
    · exact Keeps.pure _
    · next hrecords =>
      exact keeps_withContext (fun c dir => c.key_produce dir env _) (hP hlists hrecords)
  · exact Keeps.pure _

theorem key_fetchContext (openRead : Bool) (req : FetchPartitionRequest)
    (c : PartitionContext) (dir : Dir) : (fetchContext openRead req c dir).ctx.key = c.key := by
  rw [fetchContext]
  dsimp only
  split
  · rfl
  · split
    · exact c.key_fetch dir _ _ _
    · rfl

theorem keeps_handleListOffsets {r : ListOffsetsRequest}
    (hP : ∀ key ∈ touchedPartitions h.metadata (.listOffsets r), P key) :
    Keeps (LogState.HoldsOnly P) (h.handleListOffsets r) := by
  refine (Keeps.mapM fun t ht => ?_).bind fun _ => Keeps.pure _
  refine (Keeps.mapM fun p hp => ?_).bind fun _ => Keeps.pure _
  refine keeps_listOffsetsPartition fun hlists hlatest => hP _ ?_
  refine List.mem_flatMap.mpr ⟨t, ht, List.mem_map.mpr ⟨p, ?_, rfl⟩⟩
  exact List.mem_filter.mpr ⟨hp, decide_eq_true ⟨hlists, hlatest⟩⟩

theorem keeps_handleProduce {env : ℕ → ℕ → OsEnv} {r : ProduceRequest}
    (hP : ∀ key ∈ touchedPartitions h.metadata (.produce r), P key) :
    Keeps (LogState.HoldsOnly P) (h.handleProduce env r) := by
  refine (Keeps.mapM fun t ht => ?_).bind fun _ => Keeps.pure _
  refine (Keeps.mapM fun p hp => ?_).bind fun _ => Keeps.pure _
  refine keeps_producePartition fun hlists hrecords => hP _ ?_
  refine List.mem_flatMap.mpr ⟨t.1, List.fst_mem_of_mem_zipIdx ht, ?_⟩
  refine List.mem_map.mpr ⟨p.1, List.mem_filter.mpr ⟨List.fst_mem_of_mem_zipIdx hp, ?_⟩, rfl⟩
  exact decide_eq_true ⟨hlists, hrecords⟩

theorem keeps_handleFetch {env : ℕ → ℕ → OsEnv} {r : FetchRequest}
    (hP : ∀ key ∈ touchedPartitions h.metadata (.fetch r), P key) :
    Keeps (LogState.HoldsOnly P) (h.handleFetch env r) := by
  refine (Keeps.mapM fun t ht => ?_).bind fun _ => Keeps.pure _
  change Keeps _ (h.fetchTopic (env t.2) t.1)
  rw [fetchTopic]
  split
  · next info hinfo =>
    refine (Keeps.mapM fun p hp => ?_).bind fun _ => Keeps.pure _
    refine keeps_withContext (key_fetchContext _ p.1) (hP _ ?_)
    refine List.mem_flatMap.mpr ⟨t.1, List.fst_mem_of_mem_zipIdx ht, ?_⟩
    rw [hinfo]
    exact List.mem_map.mpr ⟨p.1, List.fst_mem_of_mem_zipIdx hp, rfl⟩
  · exact Keeps.pure _

end RecordHandler

/-- Contexts come into being for the touched partitions only. -/
theorem holdsOnly_handle {h : RecordHandler} {env : BrokerEnv} {P : PartitionKey → Prop}
    {s : BrokerState} {req : Request} (hs : s.toLogState.HoldsOnly P)
    (hP : ∀ key ∈ touchedPartitions h.metadata req, P key) :
    (Broker.handle h env s req).1.toLogState.HoldsOnly P := by
  cases req with
  | produce r => exact RecordHandler.keeps_handleProduce hP s.toLogState hs
  | fetch r => exact RecordHandler.keeps_handleFetch hP s.toLogState hs
  | listOffsets r => exact RecordHandler.keeps_handleListOffsets hP s.toLogState hs
  | _ => exact hs

end TinyKafka
